import Snuffleupagus.Config.Rule
import Snuffleupagus.Lib.Effect

/-! # Logging and aborting

Whatever the module does to a request besides letting it go on goes through `sp_log_msgf`: it writes
a line on the configured medium and, for a drop, leaves the request (`zend_bailout`). On the medium
`php` the line is handed to `zend_error`, which by itself aborts the request at the level `E_ERROR`;
on `file` the same happens when the log file cannot be opened. -/

namespace Snuffleupagus.Log

open Snuffleupagus.Lib.Effect Snuffleupagus.Php.Bytes Snuffleupagus.Php.Engine
open Snuffleupagus.Config.Rule

/-- The error levels of PHP the module uses. -/
inductive Level
  | error | warning | notice
  deriving DecidableEq

/-- `SP_TYPE_LOG`, `SP_TYPE_DROP`, `SP_TYPE_SIMULATION`. -/
inductive LogType
  | log | drop | simulation
  deriving DecidableEq

/-- A line of the log: the format and its arguments are kept apart. -/
structure LogLine where
  clientIp : ZendString
  feature : String
  level : Level
  type : LogType
  fmt : String
  args : List ZendString

/-- What a request does that can be seen from outside: the lines logged, the requests dumped, and,
to tell the order of things, the evaluation of the rules of a function and the start of its body. -/
inductive Event
  | log (line : LogLine)
  | request (folder text : ZendString)
  | shouldDisable (function : ZendString)
  | shouldDropOnRet (function : ZendString)
  | body (function : Option ZendString)

/-- Why a request is aborted: the module drops it, `zend_error` ends it, the module reads outside of
an array or through a null pointer, or an `assert` fails. -/
inductive Abort
  | drop | error | outOfBounds | assertion
  deriving DecidableEq

/-- A computation of the module. -/
abbrev Sp (α : Type) := Run Abort Event α

/-- Read through a pointer, or an array, that may have nothing there. -/
def fetch {α : Type} (o : Option α) : Sp α :=
  match o with
  | some a => pure a
  | none => abort .outOfBounds

variable (w : World) (g : SpGlobals)

/-- `get_ipaddr`. -/
def getIpaddr : ZendString :=
  match w.sapiRemoteAddr.filter (fun ip => 0 < (cstr ip).length && (cstr ip).length < 64) with
  | some ip => cstr ip
  | none =>
    match w.getenv (zstr "REMOTE_ADDR") with
    | some ip => ip
    | none => (w.getenv (zstr "HTTP_X_FORWARDED_FOR")).getD (zstr "0.0.0.0")

/-- `zend_error`: at the level `E_ERROR` the request ends here. -/
def zendError (level : Level) (reason : Abort) : Sp Unit :=
  if level = .error then abort reason else pure ()

/-- `sp_log_msgf`. -/
def spLogMsgf (feature : String) (level : Level) (type : LogType) (fmt : String)
    (args : List ZendString) : Sp Unit := do
  let zendLevel := if g.configNonfatal && level == .error then .warning else level
  let reason := if type = .drop then .drop else .error
  let line : LogLine := ⟨getIpaddr w, feature, level, type, fmt, args⟩
  match g.logMedia.type with
  | .syslog => emit (.log line)
  | .file =>
    if w.logOpens g.logMedia.path then emit (.log line)
    else do
      emit (.log { line with feature := "logging", type := .log, fmt := "unable to open %s to log",
                             args := [g.logMedia.path] })
      zendError zendLevel reason
  | .zend => do
    emit (.log line)
    zendError zendLevel reason
  if type = .drop then abort .drop else pure ()

/-- `sp_log_err`. -/
def spLogErr (feature fmt : String) (args : List ZendString) : Sp Unit :=
  spLogMsgf w g feature .error .log fmt args

/-- `sp_log_warn`. -/
def spLogWarn (feature fmt : String) (args : List ZendString) : Sp Unit :=
  spLogMsgf w g feature .warning .log fmt args

/-- `sp_log_drop`. -/
def spLogDrop (feature fmt : String) (args : List ZendString) : Sp Unit :=
  spLogMsgf w g feature .error .drop fmt args

/-- `sp_log_simulation`. -/
def spLogSimulation (feature fmt : String) (args : List ZendString) : Sp Unit :=
  spLogMsgf w g feature .warning .simulation fmt args

/-- `sp_log_auto`. -/
def spLogAuto (feature : String) (isSimulation : Bool) (fmt : String) (args : List ZendString) :
    Sp Unit :=
  if isSimulation then spLogSimulation w g feature fmt args else spLogDrop w g feature fmt args

/-- `sp_log_request`: the request is dumped into the folder, if there is one. -/
def spLogRequest (folder : Option ZendString) (text : ZendString) : Sp Unit :=
  match folder with
  | some f => emit (.request f text)
  | none => pure ()

/-! ### How log calls end -/

theorem out_zendError_of_ne {level : Level} (hl : level ≠ .error) (r : Abort) :
    (zendError level r).out = .ok () := by
  unfold zendError
  rw [if_neg hl]
  rfl

/-- A message that is neither an error nor a drop comes to its end. -/
theorem out_spLogMsgf_of_ne {feature fmt : String} {level : Level} {type : LogType}
    {args : List ZendString} (hl : level ≠ .error) (ht : type ≠ .drop) :
    (spLogMsgf w g feature level type fmt args).out = .ok () := by
  have hb : (level == Level.error) = false := by simpa using hl
  have hz := out_zendError_of_ne hl
  unfold spLogMsgf
  rw [hb, Bool.and_false]
  cases g.logMedia.type
  · simp [ht, hz]
  · simp [ht]
  · by_cases h : w.logOpens g.logMedia.path = true <;> simp [h, ht, hz]

theorem out_zendError (level : Level) (r : Abort) :
    (zendError level r).out = .ok () ∨ (zendError level r).out = .error r := by
  unfold zendError
  split_ifs
  · exact Or.inr rfl
  · exact Or.inl rfl

/-- An error comes to its end or ends the request, according to the medium. -/
theorem out_spLogErr (feature fmt : String) (args : List ZendString) :
    (spLogErr w g feature fmt args).out = .ok () ∨
      (spLogErr w g feature fmt args).out = .error .error := by
  unfold spLogErr spLogMsgf
  cases g.logMedia.type
  · rcases out_zendError (if g.configNonfatal && Level.error == .error then .warning else .error)
      .error with hz | hz <;> simp at hz <;> simp [hz]
  · simp
  · by_cases h : w.logOpens g.logMedia.path = true
    · simp [h]
    · rcases out_zendError (if g.configNonfatal && Level.error == .error then .warning else .error)
        .error with hz | hz <;> simp at hz <;> simp [h, hz]

/-- Does the module go on after it has reported an error? -/
def errorsReturn : Bool :=
  g.configNonfatal ||
    match g.logMedia.type with
    | .zend => false
    | .syslog => true
    | .file => w.logOpens g.logMedia.path

theorem yields_spLogErr (feature fmt : String) (args : List ZendString) :
    Yields (spLogErr w g feature fmt args) () ↔ errorsReturn w g = true := by
  unfold Yields spLogErr spLogMsgf errorsReturn zendError
  cases hn : g.configNonfatal <;> cases g.logMedia.type <;> simp
  · by_cases h : w.logOpens g.logMedia.path = true <;> simp [h]
  · by_cases h : w.logOpens g.logMedia.path = true <;> simp [h]

/-- While a configuration is read no message ends anything, unless it is a drop. -/
theorem out_spLogMsgf_nonfatal {feature fmt : String} {level : Level} {type : LogType}
    {args : List ZendString} (hn : g.configNonfatal = true) (ht : type ≠ .drop) :
    (spLogMsgf w g feature level type fmt args).out = .ok () := by
  have hz : ∀ r, (zendError (if g.configNonfatal && level == .error then .warning else level) r).out =
      .ok () := by
    rw [hn]
    cases level <;> exact fun r => rfl
  unfold spLogMsgf
  generalize (if g.configNonfatal && level == .error then Level.warning else level) = zendLevel at *
  cases g.logMedia.type
  · simp [ht, hz]
  · simp [ht]
  · by_cases h : w.logOpens g.logMedia.path = true <;> simp [h, ht, hz]

/-- **A drop never returns**, whatever the medium. -/
theorem out_spLogMsgf_drop {feature fmt : String} {level : Level} {args : List ZendString} :
    (spLogMsgf w g feature level .drop fmt args).out = .error .drop := by
  have hz : ∀ l, ((zendError l .drop).out >>= fun _ => (.error .drop : Except Abort Unit))
      = .error .drop := by
    intro l
    unfold zendError
    split_ifs <;> rfl
  unfold spLogMsgf
  cases g.logMedia.type
  · simp [hz]
  · simp
  · by_cases h : w.logOpens g.logMedia.path = true <;> simp [h, hz]

@[simp] theorem out_spLogWarn (feature fmt : String) (args : List ZendString) :
    (spLogWarn w g feature fmt args).out = .ok () :=
  out_spLogMsgf_of_ne w g (by decide) (by decide)

@[simp] theorem out_spLogSimulation (feature fmt : String) (args : List ZendString) :
    (spLogSimulation w g feature fmt args).out = .ok () :=
  out_spLogMsgf_of_ne w g (by decide) (by decide)

@[simp] theorem out_spLogDrop (feature fmt : String) (args : List ZendString) :
    (spLogDrop w g feature fmt args).out = .error .drop := out_spLogMsgf_drop w g

@[simp] theorem out_spLogRequest (folder : Option ZendString) (text : ZendString) :
    (spLogRequest folder text).out = .ok () := by
  cases folder <;> rfl

/-- A simulation only logs, anything else is dropped. -/
@[simp] theorem out_spLogAuto (feature fmt : String) (sim : Bool) (args : List ZendString) :
    (spLogAuto w g feature sim fmt args).out = if sim then .ok () else .error .drop := by
  cases sim <;> simp [spLogAuto]

/-- Log calls end a request as a drop or as an error, and for no other reason. -/
theorem avoids_spLogMsgf {r : Abort} (hd : r ≠ .drop) (he : r ≠ .error) (feature : String) (level : Level)
    (type : LogType) (fmt : String) (args : List ZendString) :
    Avoids r (spLogMsgf w g feature level type fmt args) := by
  have hzend : ∀ l, Avoids r (zendError l (if type = .drop then .drop else .error)) := by
    intro l
    unfold zendError
    split_ifs
    · exact avoids_abort hd.symm
    · exact avoids_abort he.symm
    · exact avoids_pure ()
  have hend : Avoids r (if type = .drop then abort .drop else pure () : Sp Unit) := by
    split_ifs
    · exact avoids_abort hd.symm
    · exact avoids_pure ()
  unfold spLogMsgf
  dsimp only
  cases g.logMedia.type with
  | zend => exact (avoids_emit _).bind fun _ => (hzend _).bind fun _ => hend
  | syslog => exact (avoids_emit _).bind fun _ => hend
  | file =>
    dsimp only
    split
    · exact (avoids_emit _).bind fun _ => hend
    · exact (avoids_emit _).bind fun _ => (hzend _).bind fun _ => hend

/-! ### What log calls write -/

/-- A line of the log, or the dump of a request. -/
def Event.isReport : Event → Bool
  | .log _ => true
  | .request _ _ => true
  | _ => false

/-- Only reports are written. -/
abbrev Reports {α : Type} (x : Sp α) : Prop := Writes (fun e => e.isReport = true) x

theorem reports_zendError (level : Level) (r : Abort) : Reports (zendError level r) := by
  unfold zendError
  split_ifs
  · exact Writes.abort r
  · exact Writes.pure ()

theorem reports_spLogMsgf (feature : String) (level : Level) (type : LogType) (fmt : String)
    (args : List ZendString) : Reports (spLogMsgf w g feature level type fmt args) := by
  have hemit : ∀ line, Reports (emit (.log line)) := fun _ => Writes.emit rfl
  have hend : Reports (if type = .drop then abort .drop else pure () : Sp Unit) := by
    split_ifs
    · exact Writes.abort _
    · exact Writes.pure ()
  unfold spLogMsgf
  dsimp only
  cases g.logMedia.type with
  | zend => exact (hemit _).bind fun _ => (reports_zendError _ _).bind fun _ => hend
  | syslog => exact (hemit _).bind fun _ => hend
  | file =>
    dsimp only
    split
    · exact (hemit _).bind fun _ => hend
    · exact (hemit _).bind fun _ => (reports_zendError _ _).bind fun _ => hend

theorem reports_spLogRequest (folder : Option ZendString) (text : ZendString) :
    Reports (spLogRequest folder text) := by
  cases folder with
  | some f => exact Writes.emit rfl
  | none => exact Writes.pure ()

end Snuffleupagus.Log
