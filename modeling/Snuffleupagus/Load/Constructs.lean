import Snuffleupagus.Execute.Include
import Snuffleupagus.Load.Echo

/-! # Chains that end on a language construct

`echo`, `print`, `eval` and the ways to include a file are no functions: the rules on them are evaluated
with the name of the construct beside the stack, which has no frame for it. The walk over the stack that
a chain is matched by begins with the name of its last function, and looks for it in the frames. So a
chain that ends on a construct is matched by no stack (`construct_chain_iff`). -/

namespace Snuffleupagus.Load.Constructs

open Snuffleupagus.Lib.Effect Snuffleupagus.Lib.Table Snuffleupagus.Php.Bytes Snuffleupagus.Php.Engine
open Snuffleupagus.Config.Rule Snuffleupagus.Config.Keyword Snuffleupagus.Config.DisabledFunctions
open Snuffleupagus.Log Snuffleupagus.Match.Chain
open Snuffleupagus.Hook.Table Snuffleupagus.Hook.Stores Snuffleupagus.Hook.Partition
open Snuffleupagus.DisabledFunctions.Filter Snuffleupagus.DisabledFunctions.Evaluate
open Snuffleupagus.DisabledFunctions.Dispatch
open Snuffleupagus.Execute.Handler Snuffleupagus.Execute.Include
open Snuffleupagus.Load.Module Snuffleupagus.Load.Echo

/-- The language constructs that can be the target of a rule. -/
inductive Construct
  | echo | print | eval
  | inclusion (kind : Inclusion)

/-- The name of a construct. -/
def Construct.name : Construct → ZendString
  | .echo => zstr "echo"
  | .print => zstr "print"
  | .eval => zstr "eval"
  | .inclusion kind => kind.name

/-- What is done about the rules when a construct is executed on the stack `s`: `echo` and `print` write
to `zend_write`, which is `hook_echo` if there are rules on `echo`. -/
def execute (w : World) (g : SpGlobals) (k : Construct) (s : Stack) (param : ZendString) : Sp Unit :=
  match k with
  | .echo | .print => if hasEchoRules g.stores then hookEcho w g s param else pure ()
  | .eval => evalMatching w { g with evalSourceString := param } s
  | .inclusion kind => spStreamOpenChecks w g (atInclude kind s) param

theorem chainName_name (k : Construct) : ChainName k.name := by
  rcases k with _ | _ | _ | (_ | _ | _ | _)
  all_goals exact ⟨by decide, by decide, by decide⟩

/-- A frame of evaluated code. -/
def evalFrame : Frame where
  func := some { type := .eval }

section Chain
variable {w : World} {g : SpGlobals} {r : SpDisabledFunction} {s : Stack} {f : ZendString}
  {l : List ZendString} {c : Call}

/-- A chain is not matched by a stack that does not have its last function. -/
theorem isFunctionsListMatching_of_not_mem (h : f ∉ names s) :
    isFunctionsListMatching s (f :: l) = false := by
  refine Bool.eq_false_iff.mpr fun hm => h ?_
  have hsub := (isFunctionsListMatching_iff (List.cons_ne_nil f l)).mp hm
  exact (hsub.trans (visible_sublist_names s)).subset List.mem_cons_self

/-- A rule whose chain is not matched decides nothing. -/
theorem callDecision_of_not_mem {path filename : ZendString} (hr : r.functionsList = f :: l)
    (h : f ∉ names c.executeData) : callDecision w g c path filename r = none := by
  have hfun : functionMatching w g c.executeData path r = pure false := by
    unfold functionMatching
    rw [hr, if_pos (List.cons_ne_nil f l), isFunctionsListMatching_of_not_mem h]
  unfold callDecision callMatching ruleMatching
  rw [hfun, allSeq, pure_bind]
  rfl

/-- A table of such rules lets everything through. -/
theorem out_shouldDisableHt_of_not_mem {path : ZendString} {ht : RuleTable}
    (hr : r.functionsList = f :: l) (h : f ∉ names c.executeData)
    (hht : ∀ list, ht.find? (.str path) = some list → ∀ r' ∈ list, r' = r) :
    (shouldDisableHt w g c path [] ht).out = .ok () := by
  by_cases hc : c.executeData = []
  · unfold shouldDisableHt
    rw [if_pos (by rw [hc]; rfl)]
    rfl
  · have hnone : ((ht.find? (.str path)).getD []).findSome?
        (callDecision w g c path (callFilename c path)) = none := by
      rw [List.findSome?_eq_none_iff]
      intro r' hr'
      cases hl : ht.find? (.str path) with
      | none =>
        rw [hl] at hr'
        cases hr'
      | some list =>
        rw [hl] at hr'
        rw [hht list hl r' hr']
        exact callDecision_of_not_mem hr h
    rw [out_shouldDisableHt hc, hnone]
    rfl

theorem out_isBuiltinMatching {paramValue functionName paramName : ZendString} {ht : RuleTable}
    (hr : r.functionsList = f :: l) (h : f ∉ names s) (hreg : g.stores.disabledFunctionsReg = [])
    (hht : ∀ list, ht.find? (.str functionName) = some list → ∀ r' ∈ list, r' = r) :
    (isBuiltinMatching w g s paramValue functionName paramName ht).out = .ok () := by
  unfold isBuiltinMatching
  split
  · rfl
  · rw [hreg]
    exact out_shouldDisableHt_of_not_mem hr h hht

/-- The stores of a single rule that is about a name. -/
structure Single (r : SpDisabledFunction) (s : Stores) : Prop where
  patterns : s.disabledFunctionsReg = []
  unhooked : ∀ f list, s.disabledFunctions.find? (.str f) = some list → ∀ r' ∈ list, r' = r
  hooked : ∀ f list, s.disabledFunctionsHooked.find? (.str f) = some list → ∀ r' ∈ list, r' = r

theorem single_hookDisabledFunctions {w₀ : World} {g₀ : SpGlobals} {st : Stores} {h₀ h : Hooks}
    (hy : Yields (hookDisabledFunctions w₀ g₀ (storesOf [r]) h₀) (st, h)) (hr : r.functionsList = f :: l) :
    Single r st := by
  have hp := partitioned_hookDisabledFunctions hy
  have hmem : ∀ k list, nonempty? (rulesFor [r] false k) = some list → ∀ r' ∈ list, r' = r := by
    intro k list hl r' hr'
    obtain ⟨-, rfl⟩ := nonempty?_eq_some.mp hl
    exact List.mem_singleton.mp (mem_rulesFor.mp hr').1
  refine ⟨?_, fun k list hl => ?_, fun k list hl => ?_⟩
  · have htarget : target r = some f := by
      unfold target
      rw [hr]
    refine (hp.patterns false).trans (List.filter_eq_nil_iff.mpr fun r' hr' => ?_)
    rw [List.mem_singleton.mp hr', htarget]
    simp
  · exact hmem k list (nonempty?_eq_some.mpr ((hp.inUnhooked false k list).mp hl |>.imp id And.left))
  · exact hmem k list (nonempty?_eq_some.mpr ((hp.inHooked false k list).mp hl |>.imp id And.left))

/-- **A rule whose chain ends on a construct lets every execution of it through.** -/
theorem out_execute {k : Construct} (param : ZendString) (hs : Single r g.stores)
    (hr : r.functionsList = k.name :: l) (h : k.name ∉ names s) (hro : g.readonlyExec.enable = false) :
    (execute w g k s param).out ≠ .error .drop := by
  have hok : ∀ x : Sp Unit, x.out = .ok () → x.out ≠ .error .drop := by
    intro x hx heq
    rw [hx] at heq
    cases heq
  have hecho : (if hasEchoRules g.stores then hookEcho w g s param else pure () : Sp Unit).out =
      .ok () := by
    split_ifs
    · unfold hookEcho
      rw [hs.patterns]
      exact out_shouldDisableHt_of_not_mem hr h (hs.hooked _)
    · rfl
  cases k with
  | echo => exact hok _ hecho
  | print => exact hok _ hecho
  | eval =>
    refine hok _ ?_
    unfold execute
    rw [evalMatching_eq]
    exact out_isBuiltinMatching hr h hs.patterns (hs.unhooked _)
  | inclusion kind =>
    cases s with
    | nil => exact hok _ rfl
    | cons data s =>
      obtain ⟨func, opline, lineno, numArgs, slots, symbols⟩ := data
      cases func with
      | none => exact fun heq => by cases heq
      | some fn =>
        unfold execute spStreamOpenChecks atInclude
        dsimp only
        rw [show (fetch (some fn) : Sp ZendFunction) = pure fn from rfl, pure_bind]
        split_ifs
        · have hcheck : checkIncluded w g param = pure () := by
            unfold checkIncluded
            rw [hro]
            rfl
          rw [hcheck, pure_bind, find?_all]
          exact hok _ (out_isBuiltinMatching hr h hs.patterns (hs.hooked _))
        · exact hok _ rfl

end Chain

/-- **When a chain that ends on a construct does what it says.** The rule is on `f1>..>fn>construct`, with
`outer` the names `f1`, .., `fn`. PHP has no function of the name of a construct, so none of the frames
has. Then the rule drops what it should, and nothing else, exactly if it should drop nothing: the functions
are not on the stack in this order. -/
theorem construct_chain_iff {w₀ w : World} {g₀ g : SpGlobals} {r : SpDisabledFunction} {k : Construct}
    {outer : List ZendString} {st : Stores} {h₀ h : Hooks} {s : Stack} {param : ZendString}
    (hacc : Accepted w₀ r) (hfun : r.function = some (chainText (outer ++ [k.name]))) (hne : outer ≠ [])
    (hnames : ∀ f ∈ outer, ChainName f)
    (hload : Yields (hookDisabledFunctions w₀ g₀ (storesOf [r]) h₀) (st, h))
    (hreserved : k.name ∉ names s) (hro : g.readonlyExec.enable = false) :
    ((execute w (loadedGlobals g st) k s param).out = .error .drop ↔ outer.reverse.Sublist (names s)) ↔
      ¬ outer.reverse.Sublist (names s) := by
  have hk : ChainName k.name := chainName_name k
  have hchain : r.functionsList = k.name :: outer.reverse := by
    rw [hacc.wellFormed.chain, hfun, Option.map_some, Option.getD_some,
      parseFunctionsList_chainText ?_ ?_, List.reverse_concat]
    · intro f hf
      rcases List.mem_append.mp hf with hf | hf
      · exact hnames f hf
      · rw [List.mem_singleton.mp hf]
        exact hk
    · have := List.length_pos_of_ne_nil hne
      rw [List.length_append, List.length_singleton]
      omega
  have hout := out_execute (w := w) (g := loadedGlobals g st) param
    (single_hookDisabledFunctions hload hchain) hchain hreserved hro
  exact ⟨fun hp hs => hout (hp.mpr hs), fun hs => ⟨fun hd => absurd hd hout, fun h => absurd h hs⟩⟩

/-- The keywords of `sp.disable_function.function("a>echo").drop();`, for any construct. -/
def chainKeywords (name : String) : List SpParsedKeyword :=
  [{ kw := zstr "function", arg := some (zstr "a>" ++ zstr name), argtype := .str },
    { kw := zstr "drop", argtype := .empty }]

/-- The rule they give. -/
def chainRule (name : String) : SpDisabledFunction where
  textualRepresentation := spGetTextualRepresentation
    ({ kw := zstr "disable_function" } :: chainKeywords name)
  function := some (zstr "a>" ++ zstr name)
  functionsList := [zstr name, zstr "a"]

theorem construct_chain_iff_sample : ∃ st h,
    Yields (hookDisabledFunctions (World.empty 80300) {} (storesOf [chainRule "echo"]) sampleHooks) (st, h) ∧
    (((execute (World.empty 80300) (loadedGlobals {} st) .echo [functionFrame "b", scriptFrame]
        (zstr "hi")).out = .error .drop ↔
        [zstr "a"].reverse.Sublist (names [functionFrame "b", scriptFrame])) ↔
      ¬ [zstr "a"].reverse.Sublist (names [functionFrame "b", scriptFrame])) := by
  have hload : ∃ st h, Yields (hookDisabledFunctions (World.empty 80300) {} (storesOf [chainRule "echo"])
      sampleHooks) (st, h) := ⟨_, _, rfl⟩
  obtain ⟨st, h, hy⟩ := hload
  refine ⟨st, h, hy, construct_chain_iff (k := .echo) ?_ (by rfl) (by decide) ?_ hy
    (by decide) rfl⟩
  · exact ⟨{ kw := zstr "disable_function" }, chainKeywords "echo", by rfl⟩
  · intro f hf
    rw [List.mem_singleton.mp hf]
    exact ⟨by decide, by decide, by decide⟩

/-- `a()` executes `echo`, `eval` and `include`, and is not stopped by the rules on `a>echo`, `a>eval` and
`a>include`. -/
theorem construct_chain_missed :
    ([zstr "a"].Sublist (names [functionFrame "a", scriptFrame]) ∧
      [zstr "a"].Sublist (names [evalFrame, functionFrame "a", scriptFrame])) ∧
    (∃ st h, Yields (hookDisabledFunctions (World.empty 80300) {} (storesOf [chainRule "echo"])
        sampleHooks) (st, h) ∧ (execute (World.empty 80300) (loadedGlobals {} st) .echo
        [functionFrame "a", scriptFrame] (zstr "hi")).out = .ok ()) ∧
    (∃ st h, Yields (hookDisabledFunctions (World.empty 80300) {} (storesOf [chainRule "eval"])
        sampleHooks) (st, h) ∧ (execute (World.empty 80300) (loadedGlobals {} st) .eval
        [evalFrame, functionFrame "a", scriptFrame] (zstr "1;")).out = .ok ()) ∧
    ∃ st h, Yields (hookDisabledFunctions (World.empty 80300) {} (storesOf [chainRule "include"])
      sampleHooks) (st, h) ∧ (execute (World.empty 80300) (loadedGlobals {} st) (.inclusion .includeFile)
      [functionFrame "a", scriptFrame] (zstr "/x.php")).out = .ok () :=
  ⟨by decide, ⟨_, _, rfl, by rfl⟩, ⟨_, _, rfl, by rfl⟩, ⟨_, _, rfl, by rfl⟩⟩

end Snuffleupagus.Load.Constructs
