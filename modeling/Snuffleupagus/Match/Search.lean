import Snuffleupagus.Match.Value
import Snuffleupagus.Log.Dump

/-! # Leaves and keys of a value

The matchers of values search: `sp_match_array_value` the leaves of an array from left to right, at
whatever depth they are, and `sp_match_array_key` its keys. So they answer as the first leaf or key that
matches, if the engine does not end the request in front of it (`yields_spMatchElement`,
`yields_spMatchArrayKey`).

A search without any leaf finds nothing, even if there is nothing to be compared with. A key is printed
as an unsigned number, which is not how PHP prints the negative ones. -/

namespace Snuffleupagus.Match.Search

open Snuffleupagus.Lib.Effect Snuffleupagus.Php.Bytes Snuffleupagus.Php.Value Snuffleupagus.Php.Engine
open Snuffleupagus.Config.Rule Snuffleupagus.Log Snuffleupagus.Match.Value
open Snuffleupagus.Log.Dump (keyText)

/-- **A leaf of a value**: the value itself if it is not an array, or a leaf of one of its elements. -/
inductive Leaf : Zval → Zval → Prop
  | self {v : Zval} (h : v.type ≠ .array) : Leaf v v
  | elem {ht : HashTable} {k : HashKey} {v l : Zval} (hv : (k, v) ∈ ht) (h : Leaf v l) : Leaf (.array ht) l

mutual

/-- The leaves, in the order of the search. -/
def leaves : Zval → List Zval
  | .array ht => leavesTable ht
  | v => [v]

/-- The leaves of the elements of a table. -/
def leavesTable : HashTable → List Zval
  | [] => []
  | (_, v) :: ht => leaves v ++ leavesTable ht

end

theorem leaves_of_ne {v : Zval} (h : v.type ≠ .array) : leaves v = [v] := by
  cases v with
  | array ht => exact absurd rfl h
  | _ => simp only [leaves]

theorem mem_leavesTable_of_mem {ht : HashTable} {k : HashKey} {v l : Zval} (hv : (k, v) ∈ ht)
    (h : l ∈ leaves v) : l ∈ leavesTable ht := by
  induction ht with
  | nil => simp at hv
  | cons e ht ih =>
    rw [leavesTable, List.mem_append]
    rcases List.mem_cons.mp hv with rfl | hv
    · exact Or.inl h
    · exact Or.inr (ih hv)

mutual

theorem leaf_of_mem : ∀ {v l : Zval}, l ∈ leaves v → Leaf v l
  | .array ht, l, h => by
    rw [leaves] at h
    obtain ⟨k, v, hv, hl⟩ := leaf_of_mem_table h
    exact .elem hv hl
  | .undef, l, h | .null, l, h | .false, l, h | .true, l, h | .long _, l, h | .double _, l, h
  | .string _, l, h | .object _, l, h | .resource _, l, h | .reference _, l, h | .indirect _, l, h
  | .ptr _, l, h => by
    simp only [leaves, List.mem_singleton] at h
    rw [h]
    exact .self (by simp [Zval.type])

theorem leaf_of_mem_table : ∀ {ht : HashTable} {l : Zval}, l ∈ leavesTable ht →
    ∃ k v, (k, v) ∈ ht ∧ Leaf v l
  | [], l, h => by simp [leavesTable] at h
  | (k, v) :: ht, l, h => by
    rw [leavesTable, List.mem_append] at h
    rcases h with h | h
    · exact ⟨k, v, List.mem_cons_self, leaf_of_mem h⟩
    · obtain ⟨k', v', hv, hl⟩ := leaf_of_mem_table h
      exact ⟨k', v', List.mem_cons_of_mem _ hv, hl⟩

end

/-- **The search passes every leaf**, and nothing else. -/
theorem mem_leaves {v l : Zval} : l ∈ leaves v ↔ Leaf v l := by
  refine ⟨leaf_of_mem, fun h => ?_⟩
  induction h with
  | self h => simp [leaves_of_ne h]
  | elem hv _ ih =>
    rw [leaves]
    exact mem_leavesTable_of_mem hv ih

/-! ### One string -/

section Value
variable (w : World) (g : SpGlobals) (toMatch : Option ZendString) (rx : Option SpRegexp)

/-- The string is the one of the filter, or matches its expression, or the filter has neither. -/
def matchesText (s : ZendString) : Bool :=
  match toMatch, rx with
  | some t, _ => t == s
  | none, some rx => decide (0 ≤ w.pcreExec rx.pattern s)
  | none, none => true

/-- The engine does not end the request over this string: it has no error to report, or the report
returns. -/
def goesOn (s : ZendString) : Bool :=
  match toMatch, rx with
  | none, some rx => decide (-1 ≤ w.pcreExec rx.pattern s) || errorsReturn w g
  | _, _ => true

variable {w g toMatch rx}

theorem yields_spMatchValue_true (s : ZendString) :
    Yields (spMatchValue w g s toMatch rx) true ↔ matchesText w toMatch rx s = true := by
  unfold spMatchValue matchesText
  cases toMatch with
  | some t => simp [yields_pure]
  | none =>
    cases rx with
    | none => simp [yields_pure]
    | some rx =>
      unfold spIsRegexpMatchingLen
      dsimp only
      by_cases hneg : w.pcreExec rx.pattern s < 0
      · have hn : ¬ 0 ≤ w.pcreExec rx.pattern s := by omega
        rw [if_pos hneg, decide_eq_false hn]
        split_ifs
        · simp [yields_map]
        · simp [yields_pure]
      · have hn : 0 ≤ w.pcreExec rx.pattern s := by omega
        rw [if_neg hneg, decide_eq_true hn]
        simp [yields_pure]

theorem yields_spMatchValue_false (s : ZendString) :
    Yields (spMatchValue w g s toMatch rx) false ↔
      matchesText w toMatch rx s = false ∧ goesOn w g toMatch rx s = true := by
  unfold spMatchValue matchesText goesOn
  cases toMatch with
  | some t => simp [yields_pure]
  | none =>
    cases rx with
    | none => simp [yields_pure]
    | some rx =>
      unfold spIsRegexpMatchingLen
      dsimp only
      by_cases hneg : w.pcreExec rx.pattern s < 0
      · have hn : ¬ 0 ≤ w.pcreExec rx.pattern s := by omega
        rw [if_pos hneg, decide_eq_false hn]
        by_cases herr : w.pcreExec rx.pattern s = -1
        · have hge : -1 ≤ w.pcreExec rx.pattern s := by omega
          rw [if_neg (not_not.mpr herr), decide_eq_true hge]
          simp [yields_pure]
        · have hlt : ¬ -1 ≤ w.pcreExec rx.pattern s := by omega
          rw [if_pos herr, decide_eq_false hlt]
          simp [yields_map, Unique.exists_iff, yields_spLogErr]
      · have hn : 0 ≤ w.pcreExec rx.pattern s := by omega
        rw [if_neg hneg, decide_eq_true hn]
        simp [yields_pure]

end Value

/-! ### The searches -/

section Search
variable {w : World} {g : SpGlobals} {toMatch : Option ZendString} {rx : Option SpRegexp}

mutual

/-- **An element is searched leaf by leaf.** -/
theorem spMatchElement_eq : ∀ v : Zval, spMatchElement w g toMatch rx v =
    anySeq ((leaves v).map fun l => spMatchValue w g (spZvalToZendString w l) toMatch rx)
  | .array ht => by
    rw [leaves, spMatchElement]
    exact spMatchArrayValue_eq ht
  | .undef | .null | .false | .true | .long _ | .double _ | .string _ | .object _ | .resource _ | .reference _
  | .indirect _ | .ptr _ => by
    simp only [leaves, spMatchElement, List.map_cons, List.map_nil, anySeq_singleton]

theorem spMatchArrayValue_eq : ∀ ht : HashTable, spMatchArrayValue w g toMatch rx ht =
    anySeq ((leavesTable ht).map fun l => spMatchValue w g (spZvalToZendString w l) toMatch rx)
  | [] => by
    rw [leavesTable, spMatchArrayValue]
    rfl
  | (k, v) :: ht => by
    rw [leavesTable, spMatchArrayValue, List.map_append, anySeq_append, spMatchElement_eq v]
    refine bind_congr fun b => ?_
    rw [spMatchArrayValue_eq ht]

end

theorem spMatchArrayKey_eq (ht : HashTable) : spMatchArrayKey w g toMatch rx ht =
    anySeq (ht.map fun e => spMatchValue w g (keyString e.1) toMatch rx) := by
  induction ht with
  | nil => rfl
  | cons e ht ih =>
    rw [List.map_cons, anySeq, spMatchArrayKey, ih]

variable (w g toMatch rx) in
/-- The search through the leaves of a value is not ended in front of the first one that matches. -/
def LeavesReached (v : Zval) : Prop :=
  ∀ l ∈ (leaves v).takeWhile (fun l => !matchesText w toMatch rx (spZvalToZendString w l)),
    goesOn w g toMatch rx (spZvalToZendString w l) = true

variable (w g toMatch rx) in
/-- The search through the keys of a table is not ended in front of the first one that matches. -/
def KeysReached (ht : HashTable) : Prop :=
  ∀ e ∈ ht.takeWhile (fun e => !matchesText w toMatch rx (keyString e.1)),
    goesOn w g toMatch rx (keyString e.1) = true

/-- **A value matches by one of its leaves.** -/
theorem yields_spMatchElement (v : Zval) : Yields (spMatchElement w g toMatch rx v) true ↔
    (∃ l, Leaf v l ∧ matchesText w toMatch rx (spZvalToZendString w l) = true) ∧
      LeavesReached w g toMatch rx v := by
  rw [spMatchElement_eq, yields_anySeq (fun l => yields_spMatchValue_true (spZvalToZendString w l))
    (fun l => yields_spMatchValue_false (spZvalToZendString w l))]
  simp only [mem_leaves]
  rfl

/-- **A table matches by one of its keys.** -/
theorem yields_spMatchArrayKey (ht : HashTable) : Yields (spMatchArrayKey w g toMatch rx ht) true ↔
    (∃ e ∈ ht, matchesText w toMatch rx (keyString e.1) = true) ∧ KeysReached w g toMatch rx ht := by
  rw [spMatchArrayKey_eq, yields_anySeq (fun e : HashKey × Zval => yields_spMatchValue_true (keyString e.1))
    (fun e => yields_spMatchValue_false (keyString e.1))]
  rfl

/-- Is the key a negative integer? -/
def isNegative : HashKey → Bool
  | .str _ => false
  | .idx i => decide (i.toInt < 0)

/-- A key that is no negative integer is compared as PHP prints it. -/
theorem keyString_eq {k : HashKey} (h : isNegative k = false) : keyString k = keyText k := by
  cases k with
  | str s => rfl
  | idx i =>
    have hi : 0 ≤ i.toInt := by simpa [isNegative] using h
    have htoInt : i.toInt = (i.toNat : ℤ) := by
      rw [BitVec.toInt_eq_toNat_cond] at hi ⊢
      split_ifs at hi ⊢ <;> omega
    show decimal i.toNat = decimalInt i.toInt
    unfold decimalInt
    rw [htoInt, if_neg (by omega), Int.natAbs_natCast]

end Search

end Snuffleupagus.Match.Search
