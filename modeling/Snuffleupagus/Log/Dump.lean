import Snuffleupagus.Match.Chain
import Snuffleupagus.Log
import Mathlib.Algebra.Order.BigOperators.Group.List

/-! # Dumping a request

`sp_log_request` writes the rule, the stack trace and the five tables of the request into a file of
its own, one entry after the other: the key, `=`, and the value as `var_export` prints it. Everything
goes through `fputs`, which takes the C view of a string, and the key is read without asking whether
the entry has one. `Out` is a computation that writes bytes to the file.

The dump is total as long as no table has an integer key and no key has a NUL, and in general on no
other request. -/

namespace Snuffleupagus.Log.Dump

open Snuffleupagus.Lib.Effect Snuffleupagus.Php.Bytes Snuffleupagus.Php.Value Snuffleupagus.Php.Engine
open Snuffleupagus.Config.Rule Snuffleupagus.Log Snuffleupagus.Match.Chain

/-- A computation that writes to the file. -/
abbrev Out := Run Abort UInt8

/-- What the dump asks of the system and of PHP. -/
structure Os where
  mkdir : ZendString → Except Errno Unit
  /-- `fopen(_, "w+")`. -/
  fopen : ZendString → Except Errno Unit
  sha256 : ZendString → ZendString
  /-- `php_var_export_ex`. -/
  varExport : Zval → ZendString

/-- `EEXIST`. -/
def eexist : Errno := .other 17

/-- `PATH_MAX`. -/
def pathMax : ℕ := 4096

/-- `PG(http_globals)`: a table that has not been built is `IS_UNDEF`. -/
structure HttpGlobals where
  get : Option HashTable := none
  post : Option HashTable := none
  cookie : Option HashTable := none
  server : Option HashTable := none
  env : Option HashTable := none

/-- `zones`. -/
def zones : List (String × (HttpGlobals → Option HashTable)) :=
  [("GET", (·.get)), ("POST", (·.post)), ("COOKIE", (·.cookie)), ("SERVER", (·.server)),
    ("ENV", (·.env))]

/-! ### The file -/

def fputs (s : ZendString) : Out Unit := ⟨cstr s, .ok ()⟩

def fputc (c : UInt8) : Out Unit := emit c

/-- `ZSTR_VAL` of the key of an entry: that of an entry with an integer key is NULL. -/
def zstrVal : HashKey → Out ZendString
  | .str s => pure s
  | .idx _ => abort .outOfBounds

/-- The text of a rule and the place of the request. -/
def dumpRule (s : Stack) (textRepr : ZendString) : Out Unit := do
  fputs (zstr "RULE: ")
  fputs textRepr
  fputc 10
  fputs (zstr "FILE: ")
  fputs (zendGetExecutedFilename s)
  fputs (zstr ":" ++ decimal (zendGetExecutedLineno s) ++ [10])

/-- A frame of the stack trace. -/
def dumpFrame (f : Frame) (currentLine : ℕ) : Out Unit :=
  match getCompleteFunctionPath f with
  | some completePathFunction => do
    fputs (zstr "STACKTRACE: ")
    fputs completePathFunction
    fputs (zstr ":" ++ decimal currentLine ++ [10])
  | none => pure ()

/-- The walk along the frames: the line is the one of the frame the walk has come to. -/
def dumpStack : Stack → Out Unit
  | [] => pure ()
  | f :: s => do
    dumpFrame f (zendGetExecutedLineno (f :: s))
    dumpStack s

variable (os : Os)

/-- One turn of the loop over a table. -/
def dumpEntry (e : HashKey × Zval) : Out Unit := do
  let a := os.varExport e.2
  fputs (← zstrVal e.1)
  fputc 61
  fputs a
  fputc 32

/-- One turn of the loop over the zones. -/
def dumpZone (http : HttpGlobals) (zone : String × (HttpGlobals → Option HashTable)) : Out Unit :=
  match zone.2 http with
  | none => pure ()
  | some ht => do
    fputs (zstr zone.1)
    fputc 58
    forM ht (dumpEntry os)
    fputc 10

/-- Within `eval`, the code: `evalSourceString` is `none` once the string has been released. -/
def dumpEval (inEval : ℕ) (evalSourceString : Option ZendString) : Out Unit :=
  if inEval ≠ 0 then do
    fputs (zstr "EVAL_CODE: ")
    match evalSourceString with
    | some source => fputs source
    | none => abort .outOfBounds
    fputc 10
  else pure ()

/-- What is written to the file. -/
def dumpFile (g : SpGlobals) (http : HttpGlobals) (evalSourceString : Option ZendString) (s : Stack)
    (textRepr : ZendString) : Out Unit := do
  dumpRule s textRepr
  dumpStack s
  forM zones (dumpZone os http)
  dumpEval g.inEval evalSourceString

/-! ### `sp_log_request` -/

/-- The name of the file: the rule and the stack trace decide it. -/
def dumpName (s : Stack) (folder textRepr : ZendString) : ZendString :=
  let digest := os.sha256 (textRepr ++ s.flatMap fun f => (getCompleteFunctionPath f).getD [])
  cstr folder ++ zstr "/sp_dump." ++ bin2hex digest

/-- `-1 == mkdir(folder, 0700) && errno != EEXIST`. -/
def mkdirFails (folder : ZendString) : Bool :=
  match os.mkdir (cstr folder) with
  | .ok () => false
  | .error errno => errno != eexist

/-- `sp_log_request`: what it returns, and the file it has written. -/
def spLogRequest (w : World) (g : SpGlobals) (http : HttpGlobals)
    (evalSourceString : Option ZendString) (s : Stack) (folder textRepr : ZendString) :
    Sp (ℤ × Option (ZendString × ZendString)) :=
  let filename := dumpName os s folder textRepr
  if mkdirFails os folder then do
    spLogWarn w g "request_logging" "Unable to create the folder '%s'" [cstr folder]
    pure (-1, none)
  else if pathMax ≤ filename.length then do
    spLogWarn w g "request_logging" "Unable to format filename of length %zu"
      [decimal (folder.length + 9 + 64)]
    pure (-1, none)
  else
    match os.fopen filename with
    | .error errno => do
      spLogWarn w g "request_logging" "Unable to open %s: %s" [filename, w.strerror errno]
      pure (-1, none)
    | .ok () =>
      let file := dumpFile os g http evalSourceString s textRepr
      match file.out with
      | .ok () => pure (0, some (filename, file.log))
      | .error e => abort e

/-! ### What the dump is for -/

/-- The entries of the tables that have been built. -/
def entries (http : HttpGlobals) : HashTable := zones.flatMap fun zone => (zone.2 http).getD []

/-- The key of an entry, as a script sees it. -/
def keyText : HashKey → ZendString
  | .str s => s
  | .idx h => decimalInt h.toInt

/-- An entry, with its key and its exported value. -/
def entryText (e : HashKey × Zval) : ZendString := keyText e.1 ++ [61] ++ os.varExport e.2 ++ [32]

/-- A table, each of its entries once. -/
def zoneText (http : HttpGlobals) (zone : String × (HttpGlobals → Option HashTable)) : ZendString :=
  match zone.2 http with
  | none => []
  | some ht => zstr zone.1 ++ [58] ++ ht.flatMap (entryText os) ++ [10]

/-- An entry the dump can print: its key is a string, and nothing of it is cut at a NUL. -/
def Printable (e : HashKey × Zval) : Prop := ∃ k, e.1 = .str k ∧ 0 ∉ k ∧ 0 ∉ os.varExport e.2

/-- The file can be opened: the folder is there, its name is not too long, and the system agrees. -/
def opens (s : Stack) (folder textRepr : ZendString) : Bool :=
  let filename := dumpName os s folder textRepr
  !mkdirFails os folder && filename.length < pathMax &&
    match os.fopen filename with
    | .ok () => true
    | .error _ => false

/-- The dump is total: once the file is open it is written to the end, with each entry of each table
once; if it cannot be opened this is all that is found out, and nothing of the request is read. -/
def Total (w : World) (g : SpGlobals) (http : HttpGlobals) (evalSourceString : Option ZendString)
    (s : Stack) (folder textRepr : ZendString) : Prop :=
  Yields (spLogRequest os w g http evalSourceString s folder textRepr)
    (if opens os s folder textRepr then
      (0, some (dumpName os s folder textRepr, (dumpRule s textRepr).log ++ (dumpStack s).log ++
        zones.flatMap (zoneText os http) ++ (dumpEval g.inEval evalSourceString).log))
    else (-1, none))

/-! ### How the dump ends -/

section Outcome
variable {os}

theorem forall_entries {http : HttpGlobals} {p : HashKey × Zval → Prop} :
    (∀ e ∈ entries http, p e) ↔ ∀ zone ∈ zones, ∀ ht, zone.2 http = some ht → ∀ e ∈ ht, p e := by
  unfold entries
  constructor
  · intro h zone hz ht hht e he
    refine h e (List.mem_flatMap.mpr ⟨zone, hz, ?_⟩)
    rw [hht]
    exact he
  · intro h e he
    obtain ⟨zone, hz, he⟩ := List.mem_flatMap.mp he
    cases hht : zone.2 http with
    | none =>
      rw [hht] at he
      cases he
    | some ht =>
      rw [hht] at he
      exact h zone hz ht hht e he

theorem yields_fputs (s : ZendString) : Yields (fputs s) () := rfl

theorem yields_fputc (c : UInt8) : Yields (fputc c) () := rfl

theorem yields_dumpRule (s : Stack) (textRepr : ZendString) : Yields (dumpRule s textRepr) () := rfl

theorem yields_dumpFrame (f : Frame) (currentLine : ℕ) : Yields (dumpFrame f currentLine) () := by
  unfold dumpFrame
  cases getCompleteFunctionPath f <;> rfl

theorem yields_dumpStack : ∀ s : Stack, Yields (dumpStack s) ()
  | [] => rfl
  | f :: s => yields_bind.mpr ⟨(), yields_dumpFrame f _, yields_dumpStack s⟩

/-- An entry is written to its end if and only if it has a string key. -/
theorem yields_dumpEntry {e : HashKey × Zval} : Yields (dumpEntry os e) () ↔ ∃ k, e.1 = .str k := by
  obtain ⟨k, v⟩ := e
  cases k with
  | str s => exact iff_of_true rfl ⟨s, rfl⟩
  | idx h =>
    refine iff_of_false (fun hy => by cases hy) ?_
    rintro ⟨s, hs⟩
    cases hs

theorem yields_dumpZone {http : HttpGlobals} {zone : String × (HttpGlobals → Option HashTable)} :
    Yields (dumpZone os http zone) () ↔ ∀ ht, zone.2 http = some ht → ∀ e ∈ ht, ∃ k, e.1 = .str k := by
  unfold dumpZone
  cases zone.2 http with
  | none =>
    refine iff_of_true rfl fun ht h => ?_
    cases h
  | some ht =>
    have hloop : Yields (forM ht (dumpEntry os)) () ↔ ∀ e ∈ ht, ∃ k, e.1 = .str k :=
      yields_forM.trans (forall₂_congr fun _ _ => yields_dumpEntry)
    simp only [Option.some.injEq, forall_eq', ← hloop]
    constructor
    · intro h
      obtain ⟨_, -, h⟩ := yields_bind.mp h
      obtain ⟨_, -, h⟩ := yields_bind.mp h
      obtain ⟨_, h, -⟩ := yields_bind.mp h
      exact h
    · intro h
      exact yields_bind.mpr ⟨(), yields_fputs _, yields_bind.mpr ⟨(), yields_fputc _,
        yields_bind.mpr ⟨(), h, yields_fputc _⟩⟩⟩

theorem yields_dumpEval {n : ℕ} {src : Option ZendString} :
    Yields (dumpEval n src) () ↔ n = 0 ∨ src ≠ none := by
  unfold dumpEval
  by_cases hn : n = 0
  · rw [if_neg (not_not.mpr hn)]
    exact iff_of_true rfl (Or.inl hn)
  · rw [if_pos hn]
    cases src with
    | none => exact iff_of_false (fun h => by cases h) (by simp [hn])
    | some source => exact iff_of_true rfl (by simp)

variable {g : SpGlobals} {http : HttpGlobals} {src : Option ZendString} {s : Stack}
  {textRepr : ZendString}

/-- **The dump comes to its end if every key is a string**, and the code in `eval` is still there. -/
theorem yields_dumpFile : Yields (dumpFile os g http src s textRepr) () ↔
    (∀ e ∈ entries http, ∃ k, e.1 = .str k) ∧ (g.inEval = 0 ∨ src ≠ none) := by
  have hzones : Yields (forM zones (dumpZone os http)) () ↔ ∀ e ∈ entries http, ∃ k, e.1 = .str k := by
    rw [yields_forM, forall_entries]
    exact forall₂_congr fun _ _ => yields_dumpZone
  unfold dumpFile
  rw [← hzones, ← yields_dumpEval]
  constructor
  · intro h
    obtain ⟨_, -, h⟩ := yields_bind.mp h
    obtain ⟨_, -, h⟩ := yields_bind.mp h
    obtain ⟨_, hz, h⟩ := yields_bind.mp h
    exact ⟨hz, h⟩
  · rintro ⟨hz, he⟩
    exact yields_bind.mpr ⟨(), yields_dumpRule s textRepr, yields_bind.mpr ⟨(), yields_dumpStack s,
      yields_bind.mpr ⟨(), hz, he⟩⟩⟩

end Outcome

/-! ### What is in the file -/

theorem length_flatMap_le {α : Type} {f f' : α → ZendString} {l : List α}
    (h : ∀ a ∈ l, (f a).length ≤ (f' a).length) : (l.flatMap f).length ≤ (l.flatMap f').length := by
  rw [List.length_flatMap, List.length_flatMap]
  exact List.sum_le_sum h

/-- Concatenations of pieces that are not longer are equal only if all the pieces are. -/
theorem flatMap_eq_iff {α : Type} {f f' : α → ZendString} : ∀ {l : List α},
    (∀ a ∈ l, (f a).length ≤ (f' a).length) →
      (l.flatMap f = l.flatMap f' ↔ ∀ a ∈ l, f a = f' a)
  | [], _ => by simp
  | a :: l, h => by
    rw [List.forall_mem_cons] at h
    have ih := flatMap_eq_iff h.2
    rw [List.flatMap_cons, List.flatMap_cons, List.forall_mem_cons, ← ih]
    constructor
    · intro heq
      have hle := length_flatMap_le h.2
      have hlen := congrArg List.length heq
      rw [List.length_append, List.length_append] at hlen
      exact List.append_inj heq (by omega)
    · rintro ⟨ha, hl⟩
      rw [ha, hl]

theorem cstr_eq_self_iff {s : ZendString} : cstr s = s ↔ 0 ∉ s := by
  constructor
  · intro h hs
    rw [← h] at hs
    simpa using List.mem_takeWhile_imp hs
  · intro h
    exact cstr_eq_self fun c hc h0 => h (h0 ▸ hc)

theorem length_cstr_le (s : ZendString) : (cstr s).length ≤ s.length :=
  (List.takeWhile_sublist _).length_le

section Contents
variable {os} {http : HttpGlobals}

theorem log_dumpEntry (k : ZendString) (v : Zval) :
    (dumpEntry os (.str k, v)).log = cstr k ++ ([61] ++ (cstr (os.varExport v) ++ [32])) := rfl

theorem length_log_dumpEntry {e : HashKey × Zval} (h : ∃ k, e.1 = .str k) :
    (dumpEntry os e).log.length ≤ (entryText os e).length := by
  obtain ⟨k, v⟩ := e
  obtain ⟨s, rfl⟩ := h
  have hs := length_cstr_le s
  have hv := length_cstr_le (os.varExport v)
  rw [log_dumpEntry]
  simp only [entryText, keyText, List.length_append, List.length_cons, List.length_nil]
  omega

/-- An entry is written in full if neither its key nor its value is cut. -/
theorem log_dumpEntry_eq_iff {e : HashKey × Zval} (h : ∃ k, e.1 = .str k) :
    (dumpEntry os e).log = entryText os e ↔ Printable os e := by
  obtain ⟨key, v⟩ := e
  obtain ⟨k, rfl⟩ := h
  have hk := length_cstr_le k
  have hv := length_cstr_le (os.varExport v)
  rw [log_dumpEntry]
  unfold entryText keyText
  constructor
  · intro h
    have hlen := congrArg List.length h
    simp only [List.append_assoc, List.length_append, List.length_cons, List.length_nil] at hlen h
    obtain ⟨h₁, h₂⟩ := List.append_inj h (by omega)
    obtain ⟨-, h₂⟩ := List.append_inj h₂ rfl
    have h₃ := (List.append_inj h₂ (by omega)).1
    exact ⟨k, rfl, cstr_eq_self_iff.mp h₁, cstr_eq_self_iff.mp h₃⟩
  · rintro ⟨k', hk', h₁, h₂⟩
    cases hk'
    rw [cstr_eq_self_iff.mpr h₁, cstr_eq_self_iff.mpr h₂]
    simp only [List.append_assoc]

theorem cstr_zone : ∀ zone ∈ zones, cstr (zstr zone.1) = zstr zone.1 := by
  simp only [zones, List.forall_mem_cons]
  refine ⟨rfl, rfl, rfl, rfl, rfl, ?_⟩
  rintro _ ⟨⟩

section Zone
variable {zone : String × (HttpGlobals → Option HashTable)}

theorem log_dumpZone {ht : HashTable} (hht : zone.2 http = some ht)
    (h : ∀ e ∈ ht, ∃ k, e.1 = .str k) : (dumpZone os http zone).log =
      cstr (zstr zone.1) ++ ([58] ++ (ht.flatMap (fun e => (dumpEntry os e).log) ++ [10])) := by
  have hloop : ∀ e ∈ ht, Yields (dumpEntry os e) () := fun e he => yields_dumpEntry.mpr (h e he)
  unfold dumpZone
  rw [hht, log_bind_ok rfl, log_bind_ok rfl, log_bind_ok (yields_forM.mpr hloop), log_forM hloop]
  rfl

theorem length_log_dumpZone (hz : zone ∈ zones)
    (h : ∀ ht, zone.2 http = some ht → ∀ e ∈ ht, ∃ k, e.1 = .str k) :
    (dumpZone os http zone).log.length ≤ (zoneText os http zone).length := by
  unfold zoneText
  cases hht : zone.2 http with
  | none =>
    unfold dumpZone
    rw [hht]
    exact Nat.zero_le _
  | some ht =>
    have hle : (ht.flatMap fun e => (dumpEntry os e).log).length ≤ (ht.flatMap (entryText os)).length :=
      length_flatMap_le fun e he => length_log_dumpEntry (h ht hht e he)
    rw [log_dumpZone hht (h ht hht), cstr_zone zone hz]
    simp only [List.length_append, List.length_cons, List.length_nil]
    omega

theorem log_dumpZone_eq_iff (hz : zone ∈ zones)
    (h : ∀ ht, zone.2 http = some ht → ∀ e ∈ ht, ∃ k, e.1 = .str k) :
    (dumpZone os http zone).log = zoneText os http zone ↔
      ∀ ht, zone.2 http = some ht → ∀ e ∈ ht, Printable os e := by
  unfold zoneText
  cases hht : zone.2 http with
  | none =>
    unfold dumpZone
    rw [hht]
    refine iff_of_true rfl fun ht h => ?_
    cases h
  | some ht =>
    have hstr := h ht hht
    rw [log_dumpZone hht hstr, cstr_zone zone hz]
    simp only [List.append_assoc, List.append_cancel_left_eq, List.append_cancel_right_eq,
      Option.some.injEq, forall_eq']
    rw [flatMap_eq_iff fun e he => length_log_dumpEntry (hstr e he)]
    exact forall₂_congr fun e he => log_dumpEntry_eq_iff (hstr e he)

end Zone

/-- **The tables are written in full if every entry is.** -/
theorem log_zones_eq_iff (h : ∀ e ∈ entries http, ∃ k, e.1 = .str k) :
    (forM zones (dumpZone os http)).log = zones.flatMap (zoneText os http) ↔
      ∀ e ∈ entries http, Printable os e := by
  have hstr := forall_entries.mp h
  rw [log_forM fun zone hz => yields_dumpZone.mpr (hstr zone hz),
    flatMap_eq_iff fun zone hz => length_log_dumpZone hz (hstr zone hz), forall_entries]
  exact forall₂_congr fun zone hz => log_dumpZone_eq_iff hz (hstr zone hz)

end Contents

/-! ### The call -/

variable (w : World) (g : SpGlobals) (http : HttpGlobals) (evalSourceString : Option ZendString)
  (s : Stack) (folder textRepr : ZendString)

/-- If the file cannot be opened, a warning is logged and nothing else is done. -/
theorem yields_spLogRequest_of_not_opens (h : opens os s folder textRepr = false) :
    Yields (spLogRequest os w g http evalSourceString s folder textRepr) (-1, none) := by
  have hwarn : ∀ fmt args, Yields (do
      spLogWarn w g "request_logging" fmt args
      pure (-1, none) : Sp (ℤ × Option (ZendString × ZendString))) (-1, none) := fun fmt args =>
    yields_bind.mpr ⟨(), out_spLogWarn w g _ _ _, rfl⟩
  unfold spLogRequest
  unfold opens at h
  dsimp only at h ⊢
  split_ifs with hm hp
  · exact hwarn _ _
  · exact hwarn _ _
  · cases hf : os.fopen (dumpName os s folder textRepr) with
    | error errno => exact hwarn _ _
    | ok u => simp [hm, not_le.mp hp, hf] at h

theorem spLogRequest_of_opens (h : opens os s folder textRepr = true) :
    spLogRequest os w g http evalSourceString s folder textRepr =
      match (dumpFile os g http evalSourceString s textRepr).out with
      | .ok () => pure (0, some (dumpName os s folder textRepr,
          (dumpFile os g http evalSourceString s textRepr).log))
      | .error e => abort e := by
  unfold opens at h
  rw [Bool.and_eq_true, Bool.and_eq_true] at h
  obtain ⟨⟨hm, hp⟩, hf⟩ := h
  have hp' : ¬ pathMax ≤ (dumpName os s folder textRepr).length := not_le.mpr (of_decide_eq_true hp)
  unfold spLogRequest
  rw [if_neg (by simpa using hm)]
  dsimp only
  rw [if_neg hp']
  cases hopen : os.fopen (dumpName os s folder textRepr) with
  | error errno => rw [hopen] at hf; cases hf
  | ok u => rfl

/-- **When a dump is total.** The tables have no integer keys, what is written has no NUL, and the
code running in `eval` is still there; or the file cannot be opened. -/
theorem spLogRequest_total_iff : Total os w g http evalSourceString s folder textRepr ↔
    opens os s folder textRepr = false ∨
      ((∀ e ∈ entries http, Printable os e) ∧ (g.inEval = 0 ∨ evalSourceString ≠ none)) := by
  unfold Total
  cases hopen : opens os s folder textRepr with
  | false =>
    exact iff_of_true (yields_spLogRequest_of_not_opens os w g http evalSourceString s folder textRepr
      hopen) (Or.inl rfl)
  | true =>
    rw [spLogRequest_of_opens os w g http evalSourceString s folder textRepr hopen, if_pos rfl]
    simp only [Bool.true_eq_false, false_or]
    by_cases hy : Yields (dumpFile os g http evalSourceString s textRepr) ()
    · obtain ⟨hstr, heval⟩ := yields_dumpFile.mp hy
      have hz : Yields (forM zones (dumpZone os http)) () :=
        yields_forM.mpr fun zone hz => yields_dumpZone.mpr (forall_entries.mp hstr zone hz)
      have hlog : (dumpFile os g http evalSourceString s textRepr).log = (dumpRule s textRepr).log ++
          ((dumpStack s).log ++ ((forM zones (dumpZone os http)).log ++
            (dumpEval g.inEval evalSourceString).log)) := by
        unfold dumpFile
        rw [log_bind_ok (yields_dumpRule s textRepr), log_bind_ok (yields_dumpStack s), log_bind_ok hz]
      rw [show (dumpFile os g http evalSourceString s textRepr).out = .ok () from hy, hlog]
      dsimp only
      rw [yields_pure, ← log_zones_eq_iff hstr, and_iff_left heval]
      simp only [Prod.mk.injEq, Option.some.injEq, true_and, List.append_assoc,
        List.append_cancel_left_eq, List.append_cancel_right_eq]
    · refine iff_of_false (fun h => ?_) fun h => hy (yields_dumpFile.mpr ⟨fun e he => ?_, h.2⟩)
      · cases hout : (dumpFile os g http evalSourceString s textRepr).out with
        | ok u => exact hy hout
        | error e => rw [hout] at h; cases h
      · obtain ⟨k, hk, -⟩ := h.1 e he
        exact ⟨k, hk⟩

/-- A dump that is total ends as the event that stands for it elsewhere: the request goes on. -/
theorem Total.out (h : Total os w g http evalSourceString s folder textRepr) :
    (spLogRequest os w g http evalSourceString s folder textRepr).out.map (fun _ => ()) =
      (Log.spLogRequest (some folder) textRepr).out := by
  rw [show (spLogRequest os w g http evalSourceString s folder textRepr).out = _ from h, map_ok,
    out_spLogRequest]

/-! ### An integer key -/

/-- A system on which every file can be opened. -/
def sampleOs : Os where
  mkdir _ := .ok ()
  fopen _ := .ok ()
  sha256 _ := []
  varExport
    | .string v => [39] ++ v ++ [39]
    | _ => zstr "NULL"

/-- The request `?0=x`: PHP turns the name into the index 0, and the NULL key is read. -/
theorem integer_key_faults :
    let http : HttpGlobals := { get := some [(.idx 0, .string (zstr "x"))] }
    let index : Frame := { func := some { type := .user, filename := zstr "index.php" }, lineno := 3 }
    (spLogRequest sampleOs (World.empty 80000) {} http none [index] (zstr "/tmp/dump")
        (zstr "sp.disable_function.function(\"system\").drop().dump(\"/tmp/dump\");")).out =
      .error .outOfBounds ∧
    ¬ Total sampleOs (World.empty 80000) {} http none [index] (zstr "/tmp/dump")
        (zstr "sp.disable_function.function(\"system\").drop().dump(\"/tmp/dump\");") := by
  intro http index
  have hout : (spLogRequest sampleOs (World.empty 80000) {} http none [index] (zstr "/tmp/dump")
      (zstr "sp.disable_function.function(\"system\").drop().dump(\"/tmp/dump\");")).out =
      .error .outOfBounds := rfl
  refine ⟨hout, fun h => ?_⟩
  unfold Total Yields at h
  rw [hout] at h
  cases h

end Snuffleupagus.Log.Dump
