import Snuffleupagus.DisabledFunctions.Dispatch
import Snuffleupagus.Hook.Partition
import Snuffleupagus.Lib.FirstMatch

/-! # The order of the rules

Rules should be evaluated in the order they are written. They are, within the list of a function and
within the list of the patterns; but a function with a list of its own never gets to the patterns, so
a rule on a pattern is overtaken by every rule on the name that is written after it.
`written_order_iff` says for which configurations this makes a difference to a call. -/

namespace Snuffleupagus.DisabledFunctions.Order

open Snuffleupagus.Lib.Effect Snuffleupagus.Lib.Table Snuffleupagus.Lib.FirstMatch
open Snuffleupagus.Php.Bytes Snuffleupagus.Php.Value Snuffleupagus.Php.Engine
open Snuffleupagus.Config.Rule Snuffleupagus.Config.DisabledFunctions Snuffleupagus.Log
open Snuffleupagus.Match.Chain Snuffleupagus.Hook.Table Snuffleupagus.Hook.Stores
open Snuffleupagus.Hook.Partition Snuffleupagus.DisabledFunctions.Filter
open Snuffleupagus.DisabledFunctions.Evaluate Snuffleupagus.DisabledFunctions.Dispatch

/-- The rule is about a name. -/
def named (r : SpDisabledFunction) : Bool := (target r).isSome

/-- The table consulted for a call of `f`: `check_disabled_function` looks into that of the hooked,
`sp_execute_handler` into the other one. -/
def consulted (s : Stores) (h : Hooks) (f : ZendString) : RuleTable :=
  if h.functionTable.typeOf f = some .internal ∧ Checked h f then s.disabledFunctionsHooked
  else s.disabledFunctions

/-- The decision of a rule on a call of `f`: a rule about another function has none. -/
def writtenDecision (w : World) (g : SpGlobals) (c : Call) (f : ZendString)
    (r : SpDisabledFunction) : Option (Except Abort Unit) :=
  if target r = none ∨ target r = some f then callDecision w g c f (callFilename c f) r else none

/-- The rules on calls, in the order written. -/
def callRules (rules : List SpDisabledFunction) : List SpDisabledFunction :=
  rules.filter fun r => !isRet r

variable {w : World} {g : SpGlobals} {rules : List SpDisabledFunction} {c : Call} {f : ZendString}

theorem rulesFor_eq : rulesFor rules false f = (callRules rules).filter fun r => target r == some f := by
  unfold rulesFor callRules
  rw [List.filter_filter]
  congr 1
  funext r
  cases isRet r <;> simp

theorem regexpRules_eq : regexpRules rules false = (callRules rules).filter fun r => target r == none := by
  unfold regexpRules callRules
  rw [List.filter_filter]
  congr 1
  funext r
  cases isRet r <;> simp

/-- The list found for a call of `f` is that of all the rules about `f`. -/
theorem find?_consulted {s : Stores} {h : Hooks} (hp : Partitioned rules s h) (hf : cstr f = f)
    (hb : f ∉ builtinNames) :
    (consulted s h f).find? (.str f) = nonempty? (rulesFor rules false f) := by
  have hin : InHooked h f ↔ h.functionTable.typeOf f = some .internal ∧ Checked h f := by
    unfold InHooked
    rw [hf, or_iff_left hb]
  refine Option.ext fun l => ?_
  rw [nonempty?_eq_some]
  unfold consulted
  split_ifs with hi
  · refine (hp.inHooked false f l).trans ?_
    rw [and_iff_left (hin.mpr hi)]
  · refine (hp.inUnhooked false f l).trans ?_
    rw [and_iff_left (fun h' => hi (hin.mp h'))]

theorem writtenDecision_eq {r : SpDisabledFunction} (h : target r = none ∨ target r = some f) :
    writtenDecision w g c f r = callDecision w g c f (callFilename c f) r := if_pos h

/-- Among the named rules, those about `f` decide. -/
theorem findSome?_rulesFor : (rulesFor rules false f).findSome? (callDecision w g c f (callFilename c f)) =
    ((callRules rules).filter named).findSome? (writtenDecision w g c f) := by
  have hsub : rulesFor rules false f =
      ((callRules rules).filter named).filter fun r => target r == some f := by
    rw [rulesFor_eq, List.filter_filter]
    congr 1
    funext r
    unfold named
    cases target r <;> simp
  rw [← findSome?_congr fun r hr => writtenDecision_eq (Or.inr (mem_rulesFor.mp hr).2.2), hsub]
  refine findSome?_filter_of_none fun r hr hne => if_neg ?_
  have hn : (target r).isSome = true := (List.mem_filter.mp hr).2
  rintro (h | h)
  · rw [h] at hn
    cases hn
  · rw [h, beq_self_eq_true] at hne
    cases hne

/-- Without a rule about `f`, those about patterns decide. -/
theorem findSome?_regexpRules (h : ∀ r ∈ callRules rules, target r ≠ some f) :
    (regexpRules rules false).findSome? (callDecision w g c f (callFilename c f)) =
      (callRules rules).findSome? (writtenDecision w g c f) := by
  rw [regexpRules_eq, ← findSome?_congr fun r hr =>
    writtenDecision_eq (Or.inl (eq_of_beq (List.mem_filter.mp hr).2))]
  refine findSome?_filter_of_none fun r hr hne => if_neg ?_
  rintro (hn | hf)
  · rw [hn] at hne
    cases hne
  · exact h r hr hf

/-- **When the order written is the order evaluated.** A call of `f`, which is no language construct,
comes to the verdict of the first rule in the order written that decides it, if and only if there is
no rule about `f`, or the rules about names agree with every rule on a pattern that decides before
them. -/
theorem written_order_iff {w₀ : World} {g₀ : SpGlobals} {s : Stores} {h₀ h : Hooks} {frame : Frame}
    {stack : Stack} (hload : Yields (hookDisabledFunctions w₀ g₀ (storesOf rules) h₀) (s, h))
    (hframe : getCompleteFunctionPath frame = some f) (hconstruct : f ∉ builtinNames) :
    (shouldDisableHt w g ⟨frame :: stack, none⟩ f s.disabledFunctionsReg (consulted s h f)).out =
        verdict ((callRules rules).findSome? (writtenDecision w g ⟨frame :: stack, none⟩ f)) ↔
      ((∃ r ∈ callRules rules, target r = some f) → ∀ r post,
        Overtakes (writtenDecision w g ⟨frame :: stack, none⟩ f) named (callRules rules) r post →
        verdict (writtenDecision w g ⟨frame :: stack, none⟩ f r) =
          verdict ((post.filter named).findSome? (writtenDecision w g ⟨frame :: stack, none⟩ f))) := by
  have hp := partitioned_hookDisabledFunctions hload
  have hf := cstr_of_path hframe
  have hreg : s.disabledFunctionsReg = regexpRules rules false := hp.patterns false
  rw [out_shouldDisableHt (List.cons_ne_nil _ _), find?_consulted hp hf hconstruct, hreg]
  by_cases hn : rulesFor rules false f = []
  · have hno : ∀ r ∈ callRules rules, target r ≠ some f := by
      intro r hr ht
      rw [rulesFor_eq, List.filter_eq_nil_iff] at hn
      exact hn r hr (by simp [ht])
    rw [nonempty?, if_pos hn, Option.getD_none, findSome?_regexpRules hno]
    refine iff_of_true rfl ?_
    rintro ⟨r, hr, ht⟩
    exact absurd ht (hno r hr)
  · have hex : ∃ r ∈ callRules rules, target r = some f := by
      obtain ⟨r, hr⟩ := List.exists_mem_of_ne_nil _ hn
      rw [rulesFor_eq] at hr
      exact ⟨r, (List.mem_filter.mp hr).1, eq_of_beq (List.mem_filter.mp hr).2⟩
    rw [nonempty?, if_neg hn, Option.getD_some, findSome?_rulesFor, forall_prop_of_true hex]
    exact eq_comm.trans (verdict_filter_iff verdict _)

/-- `function_r("sys").allow()` and then `function("system").drop()`. -/
def sampleRules : List SpDisabledFunction :=
  [{ rFunction := some ⟨zstr "sys"⟩, allow := true }, { function := some (zstr "system") }]

/-- A world where `sys` is found in everything. -/
def sampleWorld : World where
  __ := World.empty 80300
  pcreExec _ _ := 0

/-- The frame of a call of `system`. -/
def sampleFrame : Frame where
  func := some { type := .internal, functionName := some (zstr "system") }

theorem written_order_iff_sample : ∃ s h,
    Yields (hookDisabledFunctions sampleWorld {} (storesOf sampleRules) sampleHooks) (s, h) ∧
    ((shouldDisableHt sampleWorld {} ⟨[sampleFrame], none⟩ (zstr "system") s.disabledFunctionsReg
        (consulted s h (zstr "system"))).out =
        verdict ((callRules sampleRules).findSome?
          (writtenDecision sampleWorld {} ⟨[sampleFrame], none⟩ (zstr "system"))) ↔
      ((∃ r ∈ callRules sampleRules, target r = some (zstr "system")) → ∀ r post,
        Overtakes (writtenDecision sampleWorld {} ⟨[sampleFrame], none⟩ (zstr "system")) named
          (callRules sampleRules) r post →
        verdict (writtenDecision sampleWorld {} ⟨[sampleFrame], none⟩ (zstr "system") r) =
          verdict ((post.filter named).findSome?
            (writtenDecision sampleWorld {} ⟨[sampleFrame], none⟩ (zstr "system"))))) := by
  have hload : ∃ s h,
      Yields (hookDisabledFunctions sampleWorld {} (storesOf sampleRules) sampleHooks) (s, h) :=
    ⟨_, _, rfl⟩
  obtain ⟨s, h, hy⟩ := hload
  exact ⟨s, h, hy, written_order_iff hy rfl (by decide)⟩

/-- The rule written first allows the call, and the call is dropped. -/
theorem pattern_overtaken : ∃ s h,
    Yields (hookDisabledFunctions sampleWorld {} (storesOf sampleRules) sampleHooks) (s, h) ∧
    (shouldDisableHt sampleWorld {} ⟨[sampleFrame], none⟩ (zstr "system") s.disabledFunctionsReg
      (consulted s h (zstr "system"))).out = .error .drop ∧
    verdict ((callRules sampleRules).findSome?
      (writtenDecision sampleWorld {} ⟨[sampleFrame], none⟩ (zstr "system"))) = .ok () :=
  ⟨_, _, rfl, by rfl, by rfl⟩

end Snuffleupagus.DisabledFunctions.Order
