import Mathlib.Data.List.Induction
import Mathlib.Tactic.SplitIfs

/-! # Lists merged by a key

An element is merged into a list: the first element with its key is combined with it, and if there is none it is
put at the end. From the empty list on, merging a sequence leaves each of its keys once, at the place of its first
occurrence (`mem_keys_mergeAll`, `pairwise_keys_mergeAll`), and the element of a key is the combination of all the
elements with that key, in their order (`combineAll_filter`). -/

namespace Snuffleupagus.Lib.Merge

variable {α κ : Type} [DecidableEq κ] (key : α → κ) (combine : α → α → α)

/-- Merge an element into a list. -/
def merge (c : α) : List α → List α
  | [] => [c]
  | a :: l => if key a = key c then combine a c :: l else a :: merge c l

/-- Merge a sequence, from the empty list on. -/
def mergeAll (cs : List α) : List α := cs.foldl (fun l c => merge key combine c l) []

/-- The combination of a sequence. -/
def combineAll : List α → Option α
  | [] => none
  | c :: cs => some (cs.foldl combine c)

/-- Where a key occurs first. -/
def firstAt (ks : List κ) (k : κ) : ℕ := ks.idxOf k

theorem mergeAll_concat (cs : List α) (c : α) :
    mergeAll key combine (cs ++ [c]) = merge key combine c (mergeAll key combine cs) := by
  unfold mergeAll
  rw [List.foldl_append]
  rfl

theorem combineAll_concat (c : α) : ∀ cs : List α,
    combineAll combine (cs ++ [c]) = some ((combineAll combine cs).elim c fun a => combine a c)
  | [] => rfl
  | a :: cs => by
    rw [List.cons_append, combineAll, List.foldl_append]
    rfl

section Keys
variable {key combine} {c : α}

omit [DecidableEq κ] in
theorem mem_keys_concat {cs : List α} {k : κ} : k ∈ (cs ++ [c]).map key ↔ k ∈ cs.map key ∨ k = key c := by
  simp

variable (hkey : ∀ a c, key (combine a c) = key a)
include hkey

/-- The keys: nothing changes for a key that is there. -/
theorem map_key_merge (c : α) : ∀ l : List α, (merge key combine c l).map key =
    if key c ∈ l.map key then l.map key else l.map key ++ [key c]
  | [] => rfl
  | a :: l => by
    rw [merge]
    by_cases h : key a = key c
    · rw [if_pos h, if_pos (by simp [h]), List.map_cons, List.map_cons, hkey]
    · have hiff : key c ∈ (a :: l).map key ↔ key c ∈ l.map key := by simp [Ne.symm h]
      rw [if_neg h, List.map_cons, map_key_merge c l]
      split_ifs with hl hal hal
      · rfl
      · exact absurd (hiff.mpr hl) hal
      · exact absurd (hiff.mp hal) hl
      · rfl

/-- **The keys of a merged sequence are those of its elements.** -/
theorem mem_keys_mergeAll (cs : List α) (k : κ) : k ∈ (mergeAll key combine cs).map key ↔ k ∈ cs.map key := by
  induction cs using List.reverseRecOn with
  | nil => rfl
  | append_singleton cs c ih =>
    rw [mergeAll_concat, map_key_merge hkey, mem_keys_concat, ← ih]
    split_ifs with hc
    · refine ⟨Or.inl, fun h => h.elim id ?_⟩
      rintro rfl
      exact hc
    · rw [List.mem_append, List.mem_singleton]

/-- **They are in the order of their first occurrences.** -/
theorem pairwise_keys_mergeAll (cs : List α) : ((mergeAll key combine cs).map key).Pairwise fun k k' =>
    firstAt (cs.map key) k < firstAt (cs.map key) k' := by
  induction cs using List.reverseRecOn with
  | nil => exact List.Pairwise.nil
  | append_singleton cs c ih =>
    have hmem : ∀ k ∈ (mergeAll key combine cs).map key, k ∈ cs.map key :=
      fun k => (mem_keys_mergeAll hkey cs k).mp
    -- the place of a key that is there stays
    have hidx : ∀ k ∈ cs.map key, firstAt ((cs ++ [c]).map key) k = firstAt (cs.map key) k := by
      intro k hk
      unfold firstAt
      rw [List.map_append, List.idxOf_append, if_pos hk]
    have hold : ((mergeAll key combine cs).map key).Pairwise fun k k' =>
        firstAt ((cs ++ [c]).map key) k < firstAt ((cs ++ [c]).map key) k' := by
      refine ih.imp_of_mem fun {k k'} hk hk' h => ?_
      rw [hidx k (hmem k hk), hidx k' (hmem k' hk')]
      exact h
    rw [mergeAll_concat, map_key_merge hkey]
    split_ifs with hc
    · exact hold
    · refine List.pairwise_append.mpr ⟨hold, List.pairwise_singleton _ _, fun k hk k' hk' => ?_⟩
      have hnew : key c ∉ cs.map key := fun h => hc ((mem_keys_mergeAll hkey cs _).mpr h)
      rw [List.mem_singleton.mp hk', hidx k (hmem k hk)]
      unfold firstAt
      rw [List.map_append, List.idxOf_append, if_neg hnew]
      exact Nat.lt_of_lt_of_le (List.idxOf_lt_length_of_mem (hmem k hk)) (Nat.le_add_left _ _)

theorem nodup_keys_mergeAll (cs : List α) : ((mergeAll key combine cs).map key).Nodup := by
  refine (pairwise_keys_mergeAll hkey cs).imp fun h heq => ?_
  rw [heq] at h
  exact absurd h (Nat.lt_irrefl _)

omit hkey in
/-- What is in a list after an element has been merged into it. -/
theorem mem_merge {e : α} : ∀ {l : List α}, (l.map key).Nodup → e ∈ merge key combine c l →
    (e ∈ l ∧ key e ≠ key c) ∨ (∃ a ∈ l, key a = key c ∧ e = combine a c) ∨ (key c ∉ l.map key ∧ e = c)
  | [], _, he => Or.inr (Or.inr ⟨nofun, List.mem_singleton.mp he⟩)
  | a :: l, hn, he => by
    rw [List.map_cons, List.nodup_cons] at hn
    rw [merge] at he
    by_cases h : key a = key c
    · rw [if_pos h] at he
      rcases List.mem_cons.mp he with rfl | he
      · exact Or.inr (Or.inl ⟨a, List.mem_cons_self, h, rfl⟩)
      · refine Or.inl ⟨List.mem_cons_of_mem _ he, fun heq => hn.1 ?_⟩
        rw [h, ← heq]
        exact List.mem_map_of_mem he
    · rw [if_neg h] at he
      rcases List.mem_cons.mp he with rfl | he
      · exact Or.inl ⟨List.mem_cons_self, h⟩
      · rcases mem_merge hn.2 he with ⟨hm, hne⟩ | ⟨a', hm, hk, rfl⟩ | ⟨hnew, rfl⟩
        · exact Or.inl ⟨List.mem_cons_of_mem _ hm, hne⟩
        · exact Or.inr (Or.inl ⟨a', List.mem_cons_of_mem _ hm, hk, rfl⟩)
        · refine Or.inr (Or.inr ⟨fun hmem => ?_, rfl⟩)
          rcases List.mem_cons.mp hmem with heq | hmem
          · exact h heq.symm
          · exact hnew hmem

/-- **The element of a key** is the combination of all the elements with that key. -/
theorem combineAll_filter (cs : List α) : ∀ e ∈ mergeAll key combine cs,
    combineAll combine (cs.filter fun a => key a = key e) = some e := by
  induction cs using List.reverseRecOn with
  | nil => nofun
  | append_singleton cs c ih =>
    intro e he
    rw [mergeAll_concat] at he
    rw [List.filter_append]
    rcases mem_merge (nodup_keys_mergeAll hkey cs) he with ⟨hm, hne⟩ | ⟨a, hm, hk, rfl⟩ | ⟨hnew, rfl⟩
    · rw [List.filter_cons_of_neg (by simpa using Ne.symm hne), List.filter_nil, List.append_nil]
      exact ih e hm
    · rw [hkey, List.filter_cons_of_pos (by simp [hk]), List.filter_nil, combineAll_concat, ih a hm]
      rfl
    · have hnone : cs.filter (fun a => key a = key e) = [] := by
        refine List.filter_eq_nil_iff.mpr fun a ha => ?_
        have hne : key a ≠ key e :=
          fun h => hnew ((mem_keys_mergeAll hkey cs _).mpr (h ▸ List.mem_map_of_mem ha))
        simpa using hne
      rw [hnone, List.filter_cons_of_pos (by simp)]
      rfl

end Keys

end Snuffleupagus.Lib.Merge
