import Snuffleupagus.DisabledFunctions.Evaluate

/-! # Which list is evaluated

A call is looked up by name in one of the tables; the list of the rules on patterns is evaluated only
if the name has no list of its own. `out_shouldDisableHt` and `out_shouldDropOnRetHt` say what becomes
of the call, or the return. -/

namespace Snuffleupagus.DisabledFunctions.Dispatch

open Snuffleupagus.Lib.Effect Snuffleupagus.Lib.Table Snuffleupagus.Php.Bytes Snuffleupagus.Php.Value
open Snuffleupagus.Php.Engine Snuffleupagus.Config.Rule Snuffleupagus.Log
open Snuffleupagus.DisabledFunctions.Filter Snuffleupagus.DisabledFunctions.Evaluate

/-- The loop of `get_eval_filename`, with `i` turns to go: the offset goes down, and at the second opening
parenthesis the name is cut. -/
def evalFilenameLoop (name : ZendString) : ℕ → ℕ → ZendString
  | _, 0 => name
  | count, i + 1 =>
    if name[i]? = some 40 then
      if count = 1 then name.take i else evalFilenameLoop name (count + 1) i
    else evalFilenameLoop name count i

/-- `get_eval_filename`. The loop starts at the NUL behind the name; its offset is an `int`. -/
def getEvalFilename (filename : ZendString) : ZendString :=
  let cleanFilename := cstr filename
  evalFilenameLoop cleanFilename 0 ((cleanFilename.length : ℤ).bmod (2 ^ 32) + 1).toNat

/-- The file a call is made from. -/
def callFilename (c : Call) (functionName : ZendString) : ZendString :=
  if c.builtin.isSome ∧ functionName = zstr "eval" then
    getEvalFilename (zendGetExecutedFilename c.executeData)
  else cstr (zendGetExecutedFilename c.executeData)

variable (w : World) (g : SpGlobals)

/-- `should_disable_ht`. -/
def shouldDisableHt (c : Call) (functionName : ZendString) (config : List SpDisabledFunction)
    (ht : RuleTable) : Sp Unit :=
  if c.executeData.isEmpty then pure ()
  else do
    emit (.shouldDisable functionName)
    match ht.find? (.str functionName) with
    | some htEntry => shouldDisable w g c functionName (callFilename c functionName) htEntry
    | none =>
      if config.isEmpty then pure ()
      else shouldDisable w g c functionName (callFilename c functionName) config

/-- `should_drop_on_ret_ht`. -/
def shouldDropOnRetHt (ret : Return) (functionName : ZendString) (config : List SpDisabledFunction)
    (ht : RuleTable) : Sp Unit := do
  emit (.shouldDropOnRet functionName)
  match ht.find? (.str functionName) with
  | some htEntry => shouldDropOnRet w g ret functionName htEntry
  | none => if config.isEmpty then pure () else shouldDropOnRet w g ret functionName config

variable {w g}

/-- The list under the name decides, or else that of the rules on patterns. -/
theorem out_shouldDisableHt {c : Call} {f : ZendString} {config : List SpDisabledFunction}
    {ht : RuleTable} (hc : c.executeData ≠ []) : (shouldDisableHt w g c f config ht).out =
      verdict (((ht.find? (.str f)).getD config).findSome? (callDecision w g c f (callFilename c f))) := by
  unfold shouldDisableHt
  rw [if_neg (by simpa using hc), out_bind, out_emit, ok_bind]
  cases ht.find? (.str f) with
  | some l => exact out_shouldDisable ..
  | none =>
    cases config with
    | nil => rfl
    | cons r config => exact out_shouldDisable ..

theorem out_shouldDropOnRetHt {ret : Return} {f : ZendString} {config : List SpDisabledFunction}
    {ht : RuleTable} : (shouldDropOnRetHt w g ret f config ht).out =
      verdict (((ht.find? (.str f)).getD config).findSome? (retDecision w g ret f)) := by
  unfold shouldDropOnRetHt
  rw [out_bind, out_emit, ok_bind]
  cases ht.find? (.str f) with
  | some l => exact out_shouldDropOnRet ..
  | none =>
    cases config with
    | nil => rfl
    | cons r config => exact out_shouldDropOnRet ..

end Snuffleupagus.DisabledFunctions.Dispatch
