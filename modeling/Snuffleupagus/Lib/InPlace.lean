import Mathlib.Data.List.Basic
import Mathlib.Logic.Function.Basic

/-! # Values that are changed in place

A store gives the value behind a reference. To change a value in place is to change it for everyone who
holds the reference. `modifyAll f l` does it to the values behind the references of `l`, one after the
other. If `f` changes nothing the second time, it does not matter how often a reference is in the list
(`modifyAll_apply`). -/

namespace Snuffleupagus.Lib.InPlace

variable {ρ α : Type} [DecidableEq ρ] (f : α → α)

/-- Change the value behind `r`. -/
def modify (h : ρ → α) (r : ρ) : ρ → α := Function.update h r (f (h r))

/-- Change the values behind the references of a list. -/
def modifyAll (l : List ρ) (h : ρ → α) : ρ → α := l.foldl (modify f) h

variable {f} {h : ρ → α} {r r' : ρ} {l : List ρ}

@[simp] theorem modify_self : modify f h r r = f (h r) := Function.update_self ..

theorem modify_of_ne (hr : r' ≠ r) : modify f h r r' = h r' := Function.update_of_ne hr ..

/-- What is not referred to keeps its value. -/
theorem modifyAll_of_notMem : ∀ {l : List ρ} {h : ρ → α}, r ∉ l → modifyAll f l h r = h r
  | [], _, _ => rfl
  | r' :: l, h, hr => by
    rw [List.mem_cons, not_or] at hr
    show modifyAll f l (modify f h r') r = h r
    rw [modifyAll_of_notMem hr.2, modify_of_ne hr.1]

/-- What is referred to is changed once and for all. -/
theorem modifyAll_of_mem (hf : ∀ a, f (f a) = f a) :
    ∀ {l : List ρ} {h : ρ → α}, r ∈ l → modifyAll f l h r = f (h r)
  | r' :: l, h, hr => by
    show modifyAll f l (modify f h r') r = f (h r)
    by_cases hl : r ∈ l
    · rw [modifyAll_of_mem hf hl]
      by_cases heq : r = r'
      · rw [heq, modify_self, hf]
      · rw [modify_of_ne heq]
    · rcases List.mem_cons.mp hr with rfl | hmem
      · rw [modifyAll_of_notMem hl, modify_self]
      · exact absurd hmem hl

/-- **The value behind a reference**, after the changes. -/
theorem modifyAll_apply (hf : ∀ a, f (f a) = f a) (l : List ρ) (h : ρ → α) (r : ρ) :
    modifyAll f l h r = if r ∈ l then f (h r) else h r := by
  split_ifs with hr
  · exact modifyAll_of_mem hf hr
  · exact modifyAll_of_notMem hr

end Snuffleupagus.Lib.InPlace
