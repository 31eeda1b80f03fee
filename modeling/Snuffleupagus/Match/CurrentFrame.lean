import Snuffleupagus.Match.VarValue

/-! # The current frame

`zend_rebuild_symbol_table` and `zend_get_executed_lineno` start from the frame the engine takes for the
current one, `EG(current_execute_data)`. Two functions of the module move it along the stack, and in the end
put it to the frame they have been called with: `is_functions_list_matching` and `get_local_var`. `Eg` is a
computation that may do so.

Everything that evaluates a path starts with the current frame for its stack, so it gives what
`spGetVarValue` gives and leaves the current frame where it is (`follows_spGetVarValueEg`). -/

namespace Snuffleupagus.Match.CurrentFrame

open Snuffleupagus.Lib.Effect Snuffleupagus.Php.Bytes Snuffleupagus.Php.Value Snuffleupagus.Php.Engine
open Snuffleupagus.Config.Rule Snuffleupagus.Log Snuffleupagus.Match.Chain Snuffleupagus.Match.Value
open Snuffleupagus.Match.VarValue

/-- A computation that may move `EG(current_execute_data)`. -/
abbrev Eg := StateT Stack Sp

/-! ### The functions that move it -/

/-- The loop of `is_functions_list_matching` from `current` on. -/
def functionsListLoop (origExecuteData : Stack) : Stack → List ZendString → Eg Bool
  | [], _ => do
    set origExecuteData
    pure false
  -- every function in the list matched
  | _ :: _, [] => do
    set origExecuteData
    pure true
  | f :: s, g :: l => do
    set (f :: s)
    match getCompleteFunctionPath f with
    | none => do
      set origExecuteData
      pure false
    | some path => functionsListLoop origExecuteData s (if g = path then l else g :: l)

/-- `is_functions_list_matching`. -/
def isFunctionsListMatchingEg (executeData : Stack) (functionsList : List ZendString) : Eg Bool :=
  functionsListLoop executeData executeData functionsList

/-- The loop of `get_local_var` from `current` on. -/
def localVarLoop (origExecuteData : Stack) (varName : ZendString) : Stack → Eg (Option Zval)
  | [] => do
    set origExecuteData
    pure none
  | f :: s => do
    set (f :: s)
    match zendRebuildSymbolTable (← get) with
    | none => do
      set origExecuteData
      pure none
    | some symtable =>
      match findSymbol varName symtable with
      | some (.indirect v) => do
        set origExecuteData
        pure (some v)
      | some v => do
        set origExecuteData
        pure (some v)
      | none => localVarLoop origExecuteData varName s

/-- `get_local_var`. -/
def getLocalVarEg (ed : Stack) (varName : ZendString) : Eg (Option Zval) := localVarLoop ed varName ed

theorem run_functionsListLoop (orig : Stack) : ∀ (s : Stack) (l : List ZendString) (eg : Stack),
    (functionsListLoop orig s l).run eg = pure (isFunctionsListMatching s l, orig)
  | [], l, eg => by
    unfold functionsListLoop isFunctionsListMatching
    rfl
  | f :: s, [], eg => by
    unfold functionsListLoop isFunctionsListMatching
    rfl
  | f :: s, g :: l, eg => by
    unfold functionsListLoop isFunctionsListMatching
    rw [StateT.run_bind, StateT.run_set, pure_bind]
    dsimp only
    cases getCompleteFunctionPath f with
    | none => rfl
    | some path => exact run_functionsListLoop orig s _ _

/-- **The chain is tested, and the current frame is the one it has been tested for.** -/
theorem run_isFunctionsListMatchingEg (ed eg : Stack) (l : List ZendString) :
    (isFunctionsListMatchingEg ed l).run eg = pure (isFunctionsListMatching ed l, ed) :=
  run_functionsListLoop ed ed l eg

theorem run_localVarLoop (orig : Stack) (varName : ZendString) : ∀ (s eg : Stack),
    (localVarLoop orig varName s).run eg = pure (getLocalVar varName s, orig)
  | [], eg => by
    unfold localVarLoop getLocalVar
    rfl
  | f :: s, eg => by
    unfold localVarLoop getLocalVar
    rw [StateT.run_bind, StateT.run_set, pure_bind, StateT.run_bind, StateT.run_get, pure_bind]
    dsimp only
    cases zendRebuildSymbolTable (f :: s) with
    | none => rfl
    | some symtable =>
      dsimp only
      cases findSymbol varName symtable with
      | none => exact run_localVarLoop orig varName s _
      | some v => cases v <;> rfl

/-- **The variable is looked up, and the current frame is the one the walk has started from.** -/
theorem run_getLocalVarEg (ed eg : Stack) (varName : ZendString) :
    (getLocalVarEg ed varName).run eg = pure (getLocalVar varName ed, ed) := run_localVarLoop ed varName ed eg

/-! ### Values of paths -/

section Path
variable (w : World) (g : SpGlobals) (ed : Stack)

/-- `get_var_value`. -/
def getVarValueEg (varName : ZendString) (isParam : Bool) : Eg (Option Zval) :=
  match varName with
  -- `VARIABLE_TOKEN`
  | 36 :: name =>
    if isParam then StateT.lift (getVarValue w g ed (36 :: name) isParam) else getLocalVarEg ed name
  | _ => pure (w.constants varName)

/-- `get_object_property`. -/
def getObjectPropertyEg (handle : ℕ) (property : ZendString) (isParam : Bool) : Eg (Option Zval) := do
  match ← getVarValueEg w g ed property isParam with
  | some (.string name) => pure (findProperty (w.objects handle) (cstr name))
  | some _ => pure none
  | none => pure (findProperty (w.objects handle) property)

/-- `get_unknown_type`. -/
def getUnknownTypeEg (type : ElemType) (value : ZendString) (zvalue : Option Zval) (ce : Option ClassEntry)
    (isParam : Bool) : Eg (Option Zval) :=
  match ce, zvalue with
  | some ce, _ => pure (getEntryHashtable ce.constantsTable value)
  | none, some (.object handle) => getObjectPropertyEg w g ed handle value isParam
  | none, none =>
    pure (((if type = .constant then w.constants value else none).or (some (.string value))))
  | none, some _ => pure none

/-- One element of a path. -/
def varStepEg (type : ElemType) (value : ZendString) (idx : Eg (Option Zval)) (isParam : Bool)
    (zvalue : Option Zval) (ce : Option ClassEntry) : Eg (Option Zval × Option ClassEntry) :=
  match type with
  | .array => do
    let zvalue ← match ce, zvalue with
      | some ce, _ => pure (getEntryHashtable ce.constantsTable value)
      | none, none => getVarValueEg w g ed value isParam
      | none, some (.object handle) => getObjectPropertyEg w g ed handle value isParam
      | none, some v => pure (some v)
    let idxValue ← idx
    pure (getArrayValue w zvalue idxValue, none)
  | .var => do
    let zvalue ← match zvalue with
      | some (.object handle) => getObjectPropertyEg w g ed handle value isParam
      | _ => getVarValueEg w g ed value isParam
    pure (zvalue, ce)
  | .object =>
    match zvalue with
    | none => do
      let zvalue ← getVarValueEg w g ed value isParam
      pure (zvalue, ce)
    | some (.object handle) =>
      if value = [] then pure (some (.object handle), ce)
      else do
        let zvalue ← getObjectPropertyEg w g ed handle value isParam
        pure (zvalue, ce)
    | some _ => pure (none, none)
  | .classConst => pure (none, w.lookupClass value)
  | type => do
    let zvalue ← getUnknownTypeEg w g ed type value zvalue ce isParam
    pure (zvalue, none)

/-- The loop of `sp_get_var_value`. -/
def varValueFromEg : SpTree → Bool → Option Zval → Option ClassEntry → Eg (Option Zval)
  | .nil, _, zvalue, _ => pure zvalue
  | .node type value idx next, isParam, zvalue, ce => do
    let (zvalue, ce) ←
      varStepEg w g ed type value (varValueFromEg idx Bool.false none none) isParam zvalue ce
    if zvalue.isNone && ce.isNone then pure none
    else varValueFromEg next isParam zvalue ce

/-- `sp_get_var_value`. -/
def spGetVarValueEg (tree : SpTree) (isParam : Bool) : Eg (Option Zval) :=
  varValueFromEg w g ed tree isParam none none

end Path

/-! ### The current frame stays -/

/-- **`x` gives what `y` gives**, and leaves the current frame at `ed`. -/
def Follows {α : Type} (ed : Stack) (x : Eg α) (y : Sp α) : Prop := x.run ed = (fun a => (a, ed)) <$> y

section Follows
variable {α β : Type} {ed : Stack}

theorem Follows.pure (a : α) : Follows ed (pure a) (pure a) := rfl

theorem Follows.lift (y : Sp α) : Follows ed (StateT.lift y) y := by
  unfold Follows
  rw [StateT.run_lift, bind_pure_comp]

theorem Follows.bind {x : Eg α} {y : Sp α} {f : α → Eg β} {k : α → Sp β} (hx : Follows ed x y)
    (hf : ∀ a, Follows ed (f a) (k a)) : Follows ed (x >>= f) (y >>= k) := by
  unfold Follows at *
  rw [StateT.run_bind, hx, bind_map_left, map_bind]
  exact bind_congr hf

variable {w : World} {g : SpGlobals}

theorem follows_getVarValueEg (varName : ZendString) (isParam : Bool) :
    Follows ed (getVarValueEg w g ed varName isParam) (getVarValue w g ed varName isParam) := by
  unfold getVarValueEg
  split
  · rename_i name
    split_ifs with hparam
    · exact Follows.lift _
    · have hval : getVarValue w g ed (36 :: name) isParam = Pure.pure (getLocalVar name ed) := if_neg hparam
      rw [hval]
      exact run_getLocalVarEg ed ed name
  · rename_i hne
    have hval : getVarValue w g ed varName isParam = Pure.pure (w.constants varName) := by
      unfold getVarValue
      split
      · exact absurd rfl (hne _)
      · rfl
    rw [hval]
    exact Follows.pure _

theorem follows_getObjectPropertyEg (handle : ℕ) (property : ZendString) (isParam : Bool) :
    Follows ed (getObjectPropertyEg w g ed handle property isParam)
      (getObjectProperty w g ed handle property isParam) := by
  refine (follows_getVarValueEg property isParam).bind fun v => ?_
  cases v with
  | none => exact Follows.pure _
  | some v => cases v <;> exact Follows.pure _

theorem follows_getUnknownTypeEg (type : ElemType) (value : ZendString) (zvalue : Option Zval)
    (ce : Option ClassEntry) (isParam : Bool) : Follows ed (getUnknownTypeEg w g ed type value zvalue ce isParam)
      (getUnknownType w g ed type value zvalue ce isParam) := by
  unfold getUnknownTypeEg getUnknownType
  cases ce with
  | some ce => exact Follows.pure _
  | none =>
    cases zvalue with
    | none => exact Follows.pure _
    | some v =>
      cases v with
      | object handle => exact follows_getObjectPropertyEg handle value isParam
      | _ => exact Follows.pure _

theorem follows_varStepEg {idx : Eg (Option Zval)} {idx' : Sp (Option Zval)} (hidx : Follows ed idx idx')
    (type : ElemType) (value : ZendString) (isParam : Bool) (zvalue : Option Zval) (ce : Option ClassEntry) :
    Follows ed (varStepEg w g ed type value idx isParam zvalue ce)
      (varStep w g ed type value idx' isParam zvalue ce) := by
  have hvar : Follows ed (getVarValueEg w g ed value isParam) (getVarValue w g ed value isParam) :=
    follows_getVarValueEg value isParam
  have hprop : ∀ handle, Follows ed (getObjectPropertyEg w g ed handle value isParam)
      (getObjectProperty w g ed handle value isParam) :=
    fun handle => follows_getObjectPropertyEg handle value isParam
  have hentry : ∀ v : Option Zval,
      Follows ed (do let i ← idx; Pure.pure (getArrayValue w v i, none))
        (do let i ← idx'; Pure.pure (getArrayValue w v i, (none : Option ClassEntry))) :=
    fun v => hidx.bind fun i => Follows.pure _
  unfold varStepEg varStep
  cases type with
  | array =>
    cases ce with
    | some ce => exact (Follows.pure _).bind hentry
    | none =>
      cases zvalue with
      | none => exact hvar.bind hentry
      | some v =>
        cases v with
        | object handle => exact (hprop handle).bind hentry
        | _ => exact (Follows.pure _).bind hentry
  | var =>
    cases zvalue with
    | none => exact hvar.bind fun v => Follows.pure _
    | some v =>
      cases v with
      | object handle => exact (hprop handle).bind fun v => Follows.pure _
      | _ => exact hvar.bind fun v => Follows.pure _
  | object =>
    cases zvalue with
    | none => exact hvar.bind fun v => Follows.pure _
    | some v =>
      cases v with
      | object handle =>
        dsimp only
        split_ifs
        · exact Follows.pure _
        · exact (hprop handle).bind fun v => Follows.pure _
      | _ => exact Follows.pure _
  | classConst => exact Follows.pure _
  | _ => exact (follows_getUnknownTypeEg _ value zvalue ce isParam).bind fun v => Follows.pure _

theorem follows_varValueFromEg : ∀ (tree : SpTree) (isParam : Bool) (zvalue : Option Zval)
    (ce : Option ClassEntry), Follows ed (varValueFromEg w g ed tree isParam zvalue ce)
      (varValueFrom w g ed tree isParam zvalue ce)
  | .nil, isParam, zvalue, ce => Follows.pure _
  | .node type value idx next, isParam, zvalue, ce => by
    have hidx := follows_varValueFromEg idx Bool.false none none
    refine (follows_varStepEg hidx type value isParam zvalue ce).bind fun p => ?_
    obtain ⟨zvalue', ce'⟩ := p
    dsimp only
    split_ifs
    · exact Follows.pure _
    · exact follows_varValueFromEg next isParam zvalue' ce'

/-- **A path is evaluated, and the current frame stays.** -/
theorem follows_spGetVarValueEg (tree : SpTree) (isParam : Bool) :
    Follows ed (spGetVarValueEg w g ed tree isParam) (spGetVarValue w g ed tree isParam) :=
  follows_varValueFromEg tree isParam none none

end Follows

end Snuffleupagus.Match.CurrentFrame
