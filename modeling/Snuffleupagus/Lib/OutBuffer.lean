import Mathlib.Data.List.Basic

/-! # Writing to a buffer

A program writes to a buffer through a pointer that it moves behind what it has written. The buffer is the memory from
its first cell on, without an end: what has been written and what has been left alone is told by `Written`. -/

namespace Snuffleupagus.Lib.OutBuffer

variable {α : Type}

/-- The memory from the first cell of a buffer on, and the place of the pointer. -/
structure Out (α : Type) where
  cells : ℕ → α
  ptr : ℕ := 0

/-- Copy a list to the pointer, and move the pointer behind it. -/
def Out.put (o : Out α) (l : List α) : Out α where
  cells i := if i < o.ptr then o.cells i else (l[i - o.ptr]?).getD (o.cells i)
  ptr := o.ptr + l.length

/-- The first cells of a buffer. -/
def Out.contents (o : Out α) (n : ℕ) : List α := (List.range n).map o.cells

/-- The list has been written over the memory, and nothing else. -/
structure Written (memory : ℕ → α) (l : List α) (o : Out α) : Prop where
  ptr : o.ptr = l.length
  cell : ∀ i, o.cells i = (l[i]?).getD (memory i)

variable {memory : ℕ → α} {l l' : List α} {o : Out α}

theorem Written.start : Written memory [] { cells := memory } := ⟨rfl, fun _ => rfl⟩

/-- More is written behind. -/
theorem Written.put (h : Written memory l o) (l' : List α) : Written memory (l ++ l') (o.put l') := by
  refine ⟨?_, fun i => ?_⟩
  · rw [List.length_append, ← h.ptr]
    rfl
  · show (if i < o.ptr then o.cells i else (l'[i - o.ptr]?).getD (o.cells i)) = _
    rw [h.ptr, h.cell]
    split_ifs with hlt
    · rw [List.getElem?_append_left hlt]
    · have hle := Nat.le_of_not_lt hlt
      rw [List.getElem?_append_right hle, List.getElem?_eq_none hle, Option.getD_none]

/-- A loop that writes a list in each turn. -/
theorem Written.foldl {β : Type} {write : Out α → β → Out α} {text : β → List α} :
    ∀ {bs : List β} {l : List α} {o : Out α}, (∀ b ∈ bs, ∀ {l o}, Written memory l o →
      Written memory (l ++ text b) (write o b)) → Written memory l o →
      Written memory (l ++ bs.flatMap text) (bs.foldl write o)
  | [], l, o, _, h => by
    rw [List.flatMap_nil, List.append_nil]
    exact h
  | b :: bs, l, o, hwrite, h => by
    obtain ⟨hb, hbs⟩ := List.forall_mem_cons.mp hwrite
    rw [List.flatMap_cons, ← List.append_assoc]
    exact Written.foldl hbs (hb h)

/-- What is in the buffer. -/
theorem Written.contents (h : Written memory l o) {n : ℕ} (hn : n ≤ l.length) : o.contents n = l.take n := by
  refine List.ext_getElem? fun i => ?_
  unfold Out.contents
  rw [List.getElem?_map, List.getElem?_take]
  split_ifs with hlt
  · rw [List.getElem?_range hlt, Option.map_some, h.cell, List.getElem?_eq_getElem (Nat.lt_of_lt_of_le hlt hn), Option.getD_some]
  · rw [List.getElem?_eq_none (by rw [List.length_range]; omega), Option.map_none]

/-- What is behind the pointer is as it was. -/
theorem Written.behind (h : Written memory l o) {i : ℕ} (hi : l.length ≤ i) : o.cells i = memory i := by
  rw [h.cell, List.getElem?_eq_none hi, Option.getD_none]

end Snuffleupagus.Lib.OutBuffer
