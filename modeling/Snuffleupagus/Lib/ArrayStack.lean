import Snuffleupagus.Lib.Effect
import Mathlib.Algebra.Order.Group.Int
import Mathlib.Logic.Function.Basic

/-! # Stacks in arrays

A program keeps a stack in an array and an index. It may leave the array at either end: the index is an integer, and
every access to a cell is an event. `Holds` says that the cells below the index are those of a list.

A computation on arrays `Mirrors` one on lists if all its accesses are allowed, and if it comes to a related value or is
aborted for the same reason. -/

namespace Snuffleupagus.Lib.ArrayStack

open Snuffleupagus.Lib.Effect

/-- An array, and the index of the cell that is written next. -/
structure Stack (α : Type) where
  cells : ℤ → α
  top : ℤ

variable {ε ω α : Type}

/-! ### Accesses -/

section Accesses
variable (ev : ℤ → ω)

/-- Read a cell. -/
def read (i : ℤ) (s : Stack α) : Run ε ω α := do
  emit (ev i)
  pure (s.cells i)

/-- Write a cell. -/
def write (i : ℤ) (x : α) (s : Stack α) : Run ε ω (Stack α) := do
  emit (ev i)
  pure { s with cells := Function.update s.cells i x }

/-- `cells[top++] = x`. -/
def push (x : α) (s : Stack α) : Run ε ω (Stack α) := do
  let s' ← write ev s.top x s
  pure { s' with top := s.top + 1 }

/-- `cells[--top]`. -/
def pop (s : Stack α) : Run ε ω (α × Stack α) := do
  let x ← read ev (s.top - 1) s
  pure (x, { s with top := s.top - 1 })

/-- `cells[top-1]`. -/
def peek (s : Stack α) : Run ε ω α := read ev (s.top - 1) s

end Accesses

/-! ### What a stack holds -/

/-- The cells below the index are those of the list, the lowest one first. -/
structure Holds (s : Stack α) (l : List α) : Prop where
  top : s.top = l.length
  cell : ∀ (i : ℕ) (x : α), l[i]? = some x → s.cells i = x

variable {s : Stack α} {l : List α} {x : α}

theorem Holds.nil (h : s.top = 0) : Holds s [] := ⟨h, nofun⟩

/-- Another cell. -/
theorem Holds.push (h : Holds s l) :
    Holds { cells := Function.update s.cells s.top x, top := s.top + 1 } (l ++ [x]) := by
  refine ⟨?_, fun i y hy => ?_⟩
  · have htop := h.top
    rw [List.length_append, List.length_singleton]
    show s.top + 1 = _
    omega
  · have hi : i < l.length + 1 := by
      have hlt := (List.getElem?_eq_some_iff.mp hy).1
      rwa [List.length_append, List.length_singleton] at hlt
    show Function.update s.cells s.top x i = y
    rcases Nat.lt_succ_iff_lt_or_eq.mp hi with hlt | rfl
    · have hne : (i : ℤ) ≠ s.top := by
        rw [h.top]
        exact_mod_cast hlt.ne
      rw [Function.update_of_ne hne]
      exact h.cell i y (by rwa [List.getElem?_append_left hlt] at hy)
    · rw [← h.top, Function.update_self]
      rw [List.getElem?_append_right le_rfl, Nat.sub_self] at hy
      exact Option.some.inj hy

/-- The last cell is the one below the index. -/
theorem Holds.last (h : Holds s (l ++ [x])) : s.top - 1 = l.length ∧ s.cells (s.top - 1) = x := by
  have htop : s.top - 1 = l.length := by
    rw [h.top, List.length_append, List.length_singleton]
    omega
  rw [htop]
  exact ⟨rfl, h.cell l.length x (by rw [List.getElem?_append_right le_rfl, Nat.sub_self]; rfl)⟩

/-- One cell less. -/
theorem Holds.pop (h : Holds s (l ++ [x])) : Holds { s with top := s.top - 1 } l := by
  refine ⟨h.last.1, fun i y hy => h.cell i y ?_⟩
  rw [List.getElem?_append_left (List.getElem?_eq_some_iff.mp hy).1, hy]

/-! ### The accesses of a stack that holds a list -/

variable {ev : ℤ → ω}

theorem push_of_holds (h : Holds s l) : (push ev x s : Run ε ω (Stack α)) =
    ⟨[ev l.length], .ok { cells := Function.update s.cells s.top x, top := s.top + 1 }⟩ := by
  rw [← h.top]
  rfl

theorem pop_of_holds (h : Holds s (l ++ [x])) : (pop ev s : Run ε ω (α × Stack α)) =
    ⟨[ev l.length], .ok (x, { s with top := s.top - 1 })⟩ := by
  obtain ⟨htop, hcell⟩ := h.last
  have hpop : (pop ev s : Run ε ω (α × Stack α)) =
    ⟨[ev (s.top - 1)], .ok (s.cells (s.top - 1), { s with top := s.top - 1 })⟩ := rfl
  rw [hpop, hcell, htop]

theorem peek_of_holds (h : Holds s (l ++ [x])) : (peek ev s : Run ε ω α) = ⟨[ev l.length], .ok x⟩ := by
  obtain ⟨htop, hcell⟩ := h.last
  have hpeek : (peek ev s : Run ε ω α) = ⟨[ev (s.top - 1)], .ok (s.cells (s.top - 1))⟩ := rfl
  rw [hpeek, hcell, htop]

/-! ### Computations on arrays and on lists -/

section Mirrors
variable {β γ δ ε' : Type} {p : ω → Prop} {R : α → β → Prop} {S : γ → δ → Prop}

/-- The first computation does to arrays what the second one does to lists, with accesses that are allowed. -/
structure Mirrors (p : ω → Prop) (R : α → β → Prop) (x : Run ε ω α) (y : Except ε β) : Prop where
  writes : Writes p x
  out : (∃ a b, x.out = .ok a ∧ y = .ok b ∧ R a b) ∨ ∃ e, x.out = .error e ∧ y = .error e

theorem Mirrors.pure {a : α} {b : β} (h : R a b) : Mirrors p R (Pure.pure a : Run ε ω α) (.ok b) :=
  ⟨Writes.pure a, .inl ⟨a, b, rfl, rfl, h⟩⟩

theorem Mirrors.abort (e : ε) : Mirrors p R (Effect.abort e : Run ε ω α) (.error e) :=
  ⟨Writes.abort e, .inr ⟨e, rfl, rfl⟩⟩

/-- One after the other. -/
theorem Mirrors.bind {x : Run ε ω α} {y : Except ε β} {f : α → Run ε ω γ} {g : β → Except ε δ}
    (h : Mirrors p R x y) (hf : ∀ a b, R a b → Mirrors p S (f a) (g b)) : Mirrors p S (x >>= f) (y >>= g) := by
  rcases h.out with ⟨a, b, hx, rfl, hab⟩ | ⟨e, hx, rfl⟩
  · obtain ⟨hwrites, hout⟩ := hf a b hab
    refine ⟨fun e he => ?_, ?_⟩
    · rw [log_bind_ok hx] at he
      exact (List.mem_append.mp he).elim (h.writes e) (hwrites e)
    · rw [out_bind, hx]
      exact hout
  · refine ⟨fun e he => ?_, ?_⟩
    · rw [log_bind_error hx] at he
      exact h.writes e he
    · rw [out_bind, hx]
      exact .inr ⟨e, rfl, rfl⟩

/-- A step that comes to its end goes in front. -/
theorem Mirrors.cons {x : Run ε ω α} {a : α} {f : α → Run ε ω γ} {y : Except ε δ} (hx : x.out = .ok a)
    (hwrites : Writes p x) (hf : Mirrors p S (f a) y) : Mirrors p S (x >>= f) y := by
  refine ⟨fun e he => ?_, ?_⟩
  · rw [log_bind_ok hx] at he
    exact (List.mem_append.mp he).elim (hwrites e) (hf.writes e)
  · rw [out_bind, hx]
    exact hf.out

theorem writes_singleton {e : ω} {x : Except ε α} (h : p e) : Writes p ⟨[e], x⟩ := by
  rintro _ (_ | ⟨_, ⟨⟩⟩)
  exact h

/-- An access, and what follows. -/
theorem Mirrors.access {e : ω} {a : α} {f : α → Run ε ω γ} {y : Except ε δ} (he : p e)
    (hf : Mirrors p S (f a) y) : Mirrors p S ((⟨[e], .ok a⟩ : Run ε ω α) >>= f) y :=
  .cons rfl (writes_singleton he) hf

/-- The related value is that of the second computation. -/
theorem Mirrors.mono {R' : α → β → Prop} {x : Run ε ω α} {y : Except ε β} (h : Mirrors p R x y)
    (hR : ∀ a b, y = .ok b → R a b → R' a b) : Mirrors p R' x y :=
  ⟨h.writes, h.out.imp_left fun ⟨a, b, hx, hy, hab⟩ => ⟨a, b, hx, hy, hR a b hy hab⟩⟩

/-- The same computation, aborted for other reasons. -/
def mapReason (g : ε → ε') (x : Run ε ω α) : Run ε' ω α := ⟨x.log, x.out.mapError g⟩

theorem Mirrors.mapReason {x : Run ε ω α} {y : Except ε β} (g : ε → ε') (h : Mirrors p R x y) :
    Mirrors p R (ArrayStack.mapReason g x) (y.mapError g) := by
  refine ⟨h.writes, ?_⟩
  unfold ArrayStack.mapReason
  rcases h.out with ⟨a, b, hx, rfl, hab⟩ | ⟨e, hx, rfl⟩
  · exact .inl ⟨a, b, by rw [hx]; rfl, rfl, hab⟩
  · exact .inr ⟨g e, by rw [hx]; rfl, rfl⟩

end Mirrors

end Snuffleupagus.Lib.ArrayStack
