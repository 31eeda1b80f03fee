import Snuffleupagus.Ini.Hook
import Snuffleupagus.Lib.Base64
import Snuffleupagus.Match.Value
import Snuffleupagus.Php.Strtol

/-! # The check of a directive

`sp_ini_onmodify` is the handler of a directive that is hooked. It is asked about every change of the
directive, and hands the value on to the handler it has replaced if `sp_ini_check` lets it through. -/

namespace Snuffleupagus.Ini.Check

open Snuffleupagus.Lib.Effect Snuffleupagus.Lib.Table Snuffleupagus.Php.Bytes Snuffleupagus.Php.Engine
open Snuffleupagus.Php.Strtol Snuffleupagus.Config.Rule Snuffleupagus.Log Snuffleupagus.Match.Value
open Snuffleupagus.Ini.Hook

/-- `check_safe_key`. -/
def checkSafeKey (s : ZendString) : Bool :=
  (cstr s).all fun c => isDigit c || (65 ≤ c && c ≤ 90) || (97 ≤ c && c ≤ 122) || c == 95 || c == 46

/-- `check_safe_value`: neither quotes nor anything that is not `isgraph`. -/
def checkSafeValue (s : ZendString) : Bool :=
  (cstr s).all fun c => c != 39 && c != 34 && (33 ≤ c && c ≤ 126)

variable (w : World) (g : SpGlobals)

/-- `simulation`, in `sp_ini_check`. -/
def simulates (entry : Option SpIniEntry) : Bool := g.ini.simulation || entry.any SpIniEntry.simulation

/-- The violation drops the request, unless it is simulated. -/
def drops (entry : Option SpIniEntry) : Bool := g.ini.policyDrop || entry.any SpIniEntry.drop

/-- `sp_log_ini_check_violation`. -/
def spLogIniCheckViolation (entry : Option SpIniEntry) (fmt : String) (args : List ZendString) : Sp Unit :=
  let simulation := simulates g entry
  let drop := drops g entry
  if simulation || drop || !g.ini.policySilentFail then
    spLogMsgf w g "ini_protection" (if simulation || !drop then .warning else .error)
      (if simulation then .simulation else if drop then .drop else .log) fmt args
  else pure ()

/-- A violation of an entry: it is logged, with the message of the entry if there is one, and let through
only in simulation. -/
def violation (entry : SpIniEntry) (fmt : String) (args : List ZendString) : Sp Bool := do
  match entry.msg with
  | some msg => spLogIniCheckViolation w g (some entry) "%s" [cstr msg]
  | none => spLogIniCheckViolation w g (some entry) fmt args
  pure (simulates g (some entry))

/-- A directive without an entry. -/
def checkDefault (varname : ZendString) : Sp Bool :=
  if g.ini.policyReadonly then do
    if g.ini.policySilentRo then pure ()
    else
      spLogIniCheckViolation w g none "INI setting `%s` is read-only"
        [if checkSafeKey varname then cstr varname else zstr "<invalid>"]
    pure (simulates g none)
  else pure true

/-- The number a value is compared as, and so are the limits. -/
def quantity (s : ZendString) : ℤ := if w.phpVersionId ≥ 80200 then strtol s else zendAtol s

/-- The value is out of the range of an entry. -/
def outOfRange (entry : SpIniEntry) (value : ZendString) : Bool :=
  entry.min.any (fun min => decide (quantity w min > quantity w value)) ||
    entry.max.any fun max => decide (quantity w max < quantity w value)

/-- The value does not match the expression of an entry. -/
def checkRegexp (entry : SpIniEntry) (value : ZendString) : Sp Bool :=
  match entry.regexp with
  | none => pure true
  | some rx => do
    if ← spIsRegexpMatchingLen w g rx value then pure true
    else
      violation w g entry "INI value `%s`%s for `%s` does not match regex"
        (if checkSafeValue value then [cstr value, [], cstr entry.key]
        else [Lib.Base64.encode value, zstr "(base64)", cstr entry.key])

/-- A new value, for an entry. -/
def checkValue (entry : SpIniEntry) (value : ZendString) : Sp Bool :=
  if outOfRange w entry value then
    violation w g entry "INI value %ld for `%s` out of range" [decimalInt (quantity w value), cstr entry.key]
  else checkRegexp w g entry value

/-- No new value, for an entry. -/
def checkNull (entry : SpIniEntry) : Sp Bool :=
  if entry.allowNull then pure true
  else if iniHasChecks entry then do
    spLogIniCheckViolation w g (some entry) "new INI value for `%s` must not be NULL or empty" [cstr entry.key]
    pure (simulates g (some entry))
  else pure true

/-- A directive with an entry. -/
def checkEntry (entry : SpIniEntry) (newValue : Option ZendString) : Sp Bool :=
  if iniAccessReadonly g.ini entry then
    if g.ini.policySilentRo then pure (simulates g (some entry))
    else violation w g entry "INI setting `%s` is read-only" [cstr entry.key]
  else
    match newValue.getD [] with
    | [] => checkNull w g entry
    | value => checkValue w g entry value

/-- `sp_ini_check`. -/
def spIniCheck (varname : ZendString) (newValue : Option ZendString) : Sp Bool :=
  if varname = [] then pure false
  else
    match g.ini.entries.find? varname with
    | none => checkDefault w g varname
    | some entry => checkEntry w g entry newValue

/-- What becomes of a new value: it is refused, or handed on to another handler, which may accept it, or
taken without asking another one. -/
inductive Reply
  | refused
  | passed (handler : IniHandler) (accepted : Bool)
  | taken
  deriving DecidableEq

/-- `SUCCESS`. -/
def Reply.success : Reply → Bool
  | .refused => false
  | .passed _ accepted => accepted
  | .taken => true

variable (accepts : IniHandler → ZendString → Option ZendString → Bool)

/-- `sp_ini_onmodify`. -/
def spIniOnmodify (name : ZendString) (newValue : Option ZendString) : Sp Reply := do
  if ← spIniCheck w g name newValue then
    match (g.ini.entries.find? name).bind SpIniEntry.origOnmodify with
    | some handler => pure (.passed handler (accepts handler name newValue))
    | none => pure .taken
  else pure .refused

end Snuffleupagus.Ini.Check
