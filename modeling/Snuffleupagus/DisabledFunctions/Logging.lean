import Snuffleupagus.DisabledFunctions.Dispatch

/-! # What the evaluation of rules reads of the globals

The rules are handed to the evaluators, so that of the globals they read only where and how to log.
Two configurations that log in the same way come to the same decisions with the same rules
(`callDecision_logging`). -/

namespace Snuffleupagus.DisabledFunctions.Logging

open Snuffleupagus.Lib.Effect Snuffleupagus.Php.Bytes Snuffleupagus.Php.Value Snuffleupagus.Php.Engine
open Snuffleupagus.Config.Rule Snuffleupagus.Log
open Snuffleupagus.Match.Value Snuffleupagus.Match.VarValue
open Snuffleupagus.DisabledFunctions.Filter Snuffleupagus.DisabledFunctions.Evaluate

/-- The globals, with nothing in them but what a log line needs. -/
def logging (g : SpGlobals) : SpGlobals :=
  { logMedia := g.logMedia, logMaxLen := g.logMaxLen, configNonfatal := g.configNonfatal }

variable (w : World) (g : SpGlobals)

/-! ### Values -/

section Values
variable (toMatch : Option ZendString) (rx : Option SpRegexp)

theorem spMatchValue_logging (s : ZendString) :
    spMatchValue w (logging g) s toMatch rx = spMatchValue w g s toMatch rx := rfl

theorem spMatchArrayKey_logging : ∀ ht : HashTable,
    spMatchArrayKey w (logging g) toMatch rx ht = spMatchArrayKey w g toMatch rx ht := by
  intro ht
  induction ht with
  | nil => rfl
  | cons e ht ih =>
    unfold spMatchArrayKey
    rw [spMatchValue_logging, ih]

mutual

theorem spMatchArrayValue_logging : ∀ ht : HashTable,
    spMatchArrayValue w (logging g) toMatch rx ht = spMatchArrayValue w g toMatch rx ht
  | [] => rfl
  | (_, v) :: ht => by
    unfold spMatchArrayValue
    rw [spMatchElement_logging v, spMatchArrayValue_logging ht]

theorem spMatchElement_logging : ∀ v : Zval,
    spMatchElement w (logging g) toMatch rx v = spMatchElement w g toMatch rx v
  | .array ht => by
    unfold spMatchElement
    exact spMatchArrayValue_logging ht
  | .undef | .null | .false | .true | .long _ | .double _ | .string _ | .object _ | .resource _
  | .reference _ | .indirect _ | .ptr _ => by
    unfold spMatchElement
    rfl

end

end Values

/-! ### Variables -/

theorem paramVarFrom_logging (func : ZendFunction) (slots : List Zval) (varName : ZendString)
    (print : Bool) : ∀ n i : ℕ, paramVarFrom w (logging g) func slots varName print i n =
      paramVarFrom w g func slots varName print i n
  | 0, _ => rfl
  | n + 1, i => by
    unfold paramVarFrom
    simp only [paramVarFrom_logging func slots varName print n]
    rfl

theorem getVarValue_logging (ed : Stack) (varName : ZendString) (isParam : Bool) :
    getVarValue w (logging g) ed varName isParam = getVarValue w g ed varName isParam := by
  unfold getVarValue getParamVar
  simp only [paramVarFrom_logging]
  rfl

theorem getObjectProperty_logging (ed : Stack) (handle : ℕ) (property : ZendString) (isParam : Bool) :
    getObjectProperty w (logging g) ed handle property isParam =
      getObjectProperty w g ed handle property isParam := by
  unfold getObjectProperty
  rw [getVarValue_logging]

theorem varStep_logging (ed : Stack) (type : ElemType) (value : ZendString) (idx : Sp (Option Zval))
    (isParam : Bool) (zvalue : Option Zval) (ce : Option ClassEntry) :
    varStep w (logging g) ed type value idx isParam zvalue ce =
      varStep w g ed type value idx isParam zvalue ce := by
  unfold varStep getUnknownType
  simp only [getVarValue_logging, getObjectProperty_logging]

theorem varValueFrom_logging (ed : Stack) : ∀ (tree : SpTree) (isParam : Bool) (zvalue : Option Zval)
    (ce : Option ClassEntry), varValueFrom w (logging g) ed tree isParam zvalue ce =
      varValueFrom w g ed tree isParam zvalue ce
  | .nil, _, _, _ => rfl
  | .node type value idx next, isParam, zvalue, ce => by
    unfold varValueFrom
    simp only [varStep_logging, varValueFrom_logging ed idx, varValueFrom_logging ed next]

/-! ### Filters -/

theorem inspect_logging (r : SpDisabledFunction) (v : Zval) :
    inspect w (logging g) r v = inspect w g r v := by
  unfold inspect
  simp only [spMatchArrayKey_logging, spMatchArrayValue_logging, spMatchValue_logging]

theorem varMatching_logging (s : Stack) (r : SpDisabledFunction) :
    varMatching w (logging g) s r = varMatching w g s r := by
  unfold varMatching isLocalVarMatching spGetVarValue
  simp only [varValueFrom_logging, inspect_logging]

theorem regexpArgFrom_logging (fn : ZendFunction) (slots : List Zval) (rx : SpRegexp) :
    ∀ (n i : ℕ) (m : Matched) (v : Option Zval), regexpArgFrom w (logging g) fn slots rx i n m v =
      regexpArgFrom w g fn slots rx i n m v
  | 0, _, _, _ => rfl
  | n + 1, i, m, v => by
    unfold regexpArgFrom
    simp only [regexpArgFrom_logging fn slots rx n]
    rfl

theorem paramMatching_logging (c : Call) (r : SpDisabledFunction) :
    paramMatching w (logging g) c r = paramMatching w g c r := by
  unfold paramMatching checkedParamMatching isParamMatching selectArg argMatching spGetVarValue
  simp only [varValueFrom_logging, inspect_logging, regexpArgFrom_logging, spMatchValue_logging]
  rfl

/-! ### Rules -/

theorem callMatching_logging (c : Call) (path filename h : ZendString) (r : SpDisabledFunction) :
    callMatching w (logging g) c path filename h r = callMatching w g c path filename h r := by
  unfold callMatching
  rw [varMatching_logging, paramMatching_logging]
  rfl

/-- **The decision of a rule does not depend on the rest of the configuration.** -/
theorem callDecision_logging (c : Call) (path filename : ZendString) (r : SpDisabledFunction) :
    callDecision w (logging g) c path filename r = callDecision w g c path filename r := by
  unfold callDecision
  rw [callMatching_logging]

end Snuffleupagus.DisabledFunctions.Logging
