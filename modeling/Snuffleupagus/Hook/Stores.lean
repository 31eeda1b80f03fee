import Snuffleupagus.Config.DisabledFunctions
import Snuffleupagus.Hook.Table
import Snuffleupagus.Match.Value

/-! # The stores of the rules

A rule about a name goes to a table, under the function it is about, and a rule about a pattern to a
list; rules on return values have a table and a list of their own (`insertRule`). When the
configuration is read, `hook_disabled_functions` hooks the functions of the rules and moves the lists
that are consulted by the hooks, and those about language constructs, to two more tables. -/

namespace Snuffleupagus.Hook.Stores

open Snuffleupagus.Lib.Effect Snuffleupagus.Lib.Table Snuffleupagus.Php.Bytes Snuffleupagus.Php.Value
open Snuffleupagus.Php.Engine Snuffleupagus.Config.Rule Snuffleupagus.Config.DisabledFunctions
open Snuffleupagus.Log Snuffleupagus.Match.Value Snuffleupagus.Hook.Table

/-! ### Reading the configuration -/

/-- `add_df_to_hashtable`. -/
def addDfToHashtable (ht : RuleTable) (df : SpDisabledFunction) : RuleTable :=
  let key : HashKey := .str (df.functionsList.head?.getD (df.function.getD []))
  match ht.find? key with
  | none => ht.insert key [df]
  | some list => ht.insert key (list ++ [df])

/-- The end of `parse_disabled_functions`: the store a rule goes to. -/
def insertRule (s : Stores) (df : SpDisabledFunction) : Stores :=
  if df.function.isSome || df.functionsList ≠ [] then
    if isRet df then { s with disabledFunctionsRet := addDfToHashtable s.disabledFunctionsRet df }
    else { s with disabledFunctions := addDfToHashtable s.disabledFunctions df }
  else if isRet df then { s with disabledFunctionsRegRet := s.disabledFunctionsRegRet ++ [df] }
  else { s with disabledFunctionsReg := s.disabledFunctionsReg ++ [df] }

/-- The stores after the rules have been read. -/
def storesOf (rules : List SpDisabledFunction) : Stores := rules.foldl insertRule {}

/-- The function a rule is about: the last one of a chain. -/
def target (r : SpDisabledFunction) : Option ZendString :=
  match r.functionsList with
  | f :: _ => some f
  | [] => r.function

/-! ### Hooking -/

/-- The language constructs that have rules of their own. -/
def builtinNames : List ZendString :=
  [zstr "include", zstr "include_once", zstr "require", zstr "require_once", zstr "echo"]

/-- `check_is_builtin_name`. -/
def checkIsBuiltinName (configNode : SpDisabledFunction) : Bool :=
  match configNode.functionsList, configNode.function with
  | name :: _, _ => decide (cstr name ∈ builtinNames)
  | [], some name => decide (cstr name ∈ builtinNames)
  | [], none => false

/-- The table whose lists are being moved, the one they are moved to, and the hooks. -/
structure Moving where
  toHookHt : RuleTable
  hookedHt : RuleTable
  hooks : Hooks

variable (w : World) (g : SpGlobals)

/-- Hook a function for `check_disabled_function`. -/
def hookCheck (name : ZendString) (h : Hooks) : Bool × Hooks :=
  hookFunction w (cstr name) .disabledFunctionsHook .checkDisabledFunction h

/-- One turn of the loop of `hook_functions`. -/
def hookEntry (m : Moving) (e : HashKey × List SpDisabledFunction) : Moving :=
  match e.1 with
  | .idx _ => m
  | .str key =>
    let (hooked, h) := hookCheck w key m.hooks
    let isBuiltin := e.2.head?.any checkIsBuiltinName
    if hooked || isBuiltin then
      ⟨m.toHookHt.erase (.str key), m.hookedHt.insert (symtableKey key) e.2, h⟩
    else { m with hooks := h }

/-- `hook_functions`: the loop is over the table as it is at the beginning. -/
def hookFunctions (m : Moving) : Moving := m.toHookHt.entries.foldl (hookEntry w) m

/-- `hook_regexp`. -/
def hookRegexp (regexp : SpRegexp) (t : HookTable) (new : ZifHandler) (h : Hooks) : Sp Hooks :=
  h.functionTable.table.keys.foldlM (fun h name => do
    if ← spIsRegexpMatchingLen w g regexp name then pure (hookFunction w (cstr name) t new h).2
    else pure h) h

/-- `hook_functions_regexp`. -/
def hookFunctionsRegexp (config : List SpDisabledFunction) (h : Hooks) : Sp Hooks :=
  config.foldlM (fun h df =>
    match df.function, df.rFunction with
    | some name, _ => pure (hookCheck w name h).2
    | none, some rx => hookRegexp w g rx .disabledFunctionsHook .checkDisabledFunction h
    | none, none => pure h) h

/-- The first part of `hook_disabled_functions`, on the rules. -/
def hookRules (s : Stores) (h : Hooks) : Sp (Stores × Hooks) := do
  let call := hookFunctions w ⟨s.disabledFunctions, s.disabledFunctionsHooked, h⟩
  let ret := hookFunctions w ⟨s.disabledFunctionsRet, s.disabledFunctionsRetHooked, call.hooks⟩
  let h ← hookFunctionsRegexp w g s.disabledFunctionsReg ret.hooks
  let h ← hookFunctionsRegexp w g s.disabledFunctionsRegRet h
  pure ({ s with disabledFunctions := call.toHookHt, disabledFunctionsHooked := call.hookedHt,
                 disabledFunctionsRet := ret.toHookHt, disabledFunctionsRetHooked := ret.hookedHt }, h)

/-- The second part of `hook_disabled_functions`, on the blacklist of `eval`. -/
def hookEvalBlacklist (h : Hooks) : Hooks :=
  g.eval.blacklist.foldl (fun h name =>
    (hookFunction w (cstr name) .spEvalBlacklistFunctionsHook .evalBlacklistCallback h).2) h

/-- `hook_disabled_functions`. -/
def hookDisabledFunctions (s : Stores) (h : Hooks) : Sp (Stores × Hooks) := do
  let (s, h) ← hookRules w g s h
  pure (s, hookEvalBlacklist w g h)

/-! ### Which hooks are set -/

section Steps
variable {w : World} {g : SpGlobals} {m : Moving} {h h' : Hooks}

/-- Functions are hooked for `check_disabled_function`. -/
abbrev CheckSteps (w : World) : Hooks → Hooks → Prop :=
  HookSteps w .disabledFunctionsHook .checkDisabledFunction

theorem checkSteps_hookEntry (e : HashKey × List SpDisabledFunction) :
    CheckSteps w m.hooks (hookEntry w m e).hooks := by
  obtain ⟨k, l⟩ := e
  cases k with
  | idx i => exact .refl
  | str key =>
    have heq : (hookEntry w m (.str key, l)).hooks = (hookCheck w key m.hooks).2 := by
      unfold hookEntry
      dsimp only
      split_ifs <;> rfl
    rw [heq]
    exact HookSteps.single _

theorem checkSteps_foldl (w : World) : ∀ (l : List (HashKey × List SpDisabledFunction)) (m : Moving),
    CheckSteps w m.hooks (l.foldl (hookEntry w) m).hooks
  | [], _ => .refl
  | e :: l, _ => (checkSteps_hookEntry e).trans (checkSteps_foldl w l _)

theorem checkSteps_hookFunctions (w : World) (m : Moving) : CheckSteps w m.hooks (hookFunctions w m).hooks :=
  checkSteps_foldl w _ m

theorem checkSteps_hookRegexp {rx : SpRegexp}
    (hy : Yields (hookRegexp w g rx .disabledFunctionsHook .checkDisabledFunction h) h') :
    CheckSteps w h h' := by
  unfold hookRegexp at hy
  refine Yields.foldlM (fun b name b' hb hy => ?_) hy Relation.ReflTransGen.refl
  obtain ⟨ok, -, hy⟩ := yields_bind.mp hy
  cases ok with
  | false =>
    cases yields_pure.mp hy
    exact hb
  | true =>
    cases yields_pure.mp hy
    exact hb.trans (HookSteps.single _)

theorem checkSteps_hookFunctionsRegexp {config : List SpDisabledFunction}
    (hy : Yields (hookFunctionsRegexp w g config h) h') : CheckSteps w h h' := by
  unfold hookFunctionsRegexp at hy
  refine Yields.foldlM (fun b df b' hb hy => ?_) hy Relation.ReflTransGen.refl
  cases hf : df.function with
  | some name =>
    rw [hf] at hy
    cases yields_pure.mp hy
    exact hb.trans (HookSteps.single _)
  | none =>
    cases hr : df.rFunction with
    | some rx =>
      rw [hf, hr] at hy
      exact hb.trans (checkSteps_hookRegexp hy)
    | none =>
      rw [hf, hr] at hy
      cases yields_pure.mp hy
      exact hb

theorem checkSteps_hookRules {s s' : Stores} (hy : Yields (hookRules w g s h) (s', h')) :
    CheckSteps w h h' := by
  unfold hookRules at hy
  obtain ⟨h₁, hy₁, hy⟩ := yields_bind.mp hy
  obtain ⟨h₂, hy₂, hy⟩ := yields_bind.mp hy
  cases yields_pure.mp hy
  have hcall := checkSteps_hookFunctions w ⟨s.disabledFunctions, s.disabledFunctionsHooked, h⟩
  have hreg := (checkSteps_hookFunctionsRegexp hy₁).trans (checkSteps_hookFunctionsRegexp hy₂)
  exact (hcall.trans (checkSteps_hookFunctions w
    ⟨s.disabledFunctionsRet, s.disabledFunctionsRetHooked, _⟩)).trans hreg

/-- Functions are hooked for `eval_blacklist_callback`. -/
abbrev EvalSteps (w : World) : Hooks → Hooks → Prop :=
  HookSteps w .spEvalBlacklistFunctionsHook .evalBlacklistCallback

theorem evalSteps_hookEvalBlacklist (w : World) (g : SpGlobals) (h : Hooks) :
    EvalSteps w h (hookEvalBlacklist w g h) := by
  unfold hookEvalBlacklist
  induction g.eval.blacklist generalizing h with
  | nil => exact .refl
  | cons name l ih => exact (HookSteps.single _).trans (ih _)

end Steps

end Snuffleupagus.Hook.Stores
