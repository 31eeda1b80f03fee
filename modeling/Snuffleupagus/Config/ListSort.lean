import Snuffleupagus.Config.PathBounds
import Snuffleupagus.Lib.Linked

/-! # Sorting a linked list

`sp_list_sort` takes one node after the other off the list and links it into the sorted part, in front of the first greater
one. Here it works on the nodes in memory, as in the code. What it comes to is `VarParser.spListSort` on the nodes in their order
(`sort_links`), so no node is lost and none comes twice, and a comparison that is a total preorder leaves the list sorted,
equal nodes in the order they had (`isSort_spListSort`).

The comparison of `sp_parse_var` is none: a difference of two positions is cut to an `int`. Whether the delimiters are put
in the order of their positions depends on the distances to those found before (`Placed`, `list_sort_iff`). -/

namespace Snuffleupagus.Config.ListSort

open Snuffleupagus.Lib.Linked Snuffleupagus.Php.Bytes
open Snuffleupagus.Config.VarParser (SpConfToken cmpTokens insertSorted)
open Snuffleupagus.Config.PathTokens Snuffleupagus.Config.PathBounds

variable {ρ α : Type}

/-! ### The code -/

section Code
variable [DecidableEq ρ] (cmp : α → α → ℤ)

/-- `q == NULL || 0 > cmp_func(current, q)`. -/
def inFront (h : Heap ρ α) (current : ρ) : Option ρ → Option Bool
  | none => some true
  | some q => do
    let c ← h current
    let n ← h q
    some (decide (cmp c.data n.data < 0))

/-- The inner loop: `current` is linked in behind `p`, or behind a later node. The result is none if the loop has not
come to its end, or a pointer leads to no node. -/
def insertBehind (current : ρ) : ℕ → Option ρ → Heap ρ α → Option (Heap ρ α)
  | _, none, h => some h
  | 0, some _, _ => none
  | fuel + 1, some p, h => do
    let node ← h p
    if ← inFront cmp h current node.next then do
      let h ← setNext h current node.next
      setNext h p (some current)
    else insertBehind current fuel node.next h

/-- The outer loop. -/
def sortLoop (inner : ℕ) : ℕ → Heap ρ α → Option ρ → Option ρ → Option (Heap ρ α × Option ρ)
  | _, h, head, none => some (h, head)
  | 0, _, _, some _ => none
  | fuel + 1, h, head, some current => do
    let c ← h current
    if ← inFront cmp h current head then do
      let h ← setNext h current head
      sortLoop inner fuel h (some current) c.next
    else do
      let h ← insertBehind cmp current inner head h
      sortLoop inner fuel h head c.next

/-- `sp_list_sort`, with at most `fuel` turns of each loop: the nodes behind it, and the pointer that is returned. -/
def spListSort (fuel : ℕ) (h : Heap ρ α) : Option ρ → Option (Heap ρ α × Option ρ)
  | none => some (h, none)
  | some p => do
    let node ← h p
    match node.next with
    | none => some (h, some p)
    | some _ => sortLoop cmp fuel fuel h none (some p)

/-- The loop of `sp_list_insert`, to the last node. -/
def appendBehind (new : ρ) : ℕ → ρ → Heap ρ α → Option (Heap ρ α)
  | 0, _, _ => none
  | fuel + 1, p, h => do
    let node ← h p
    match node.next with
    | none => setNext h p (some new)
    | some q => appendBehind new fuel q h

/-- `sp_list_insert`; `pecalloc` puts the node at `new`. -/
def spListInsert (fuel : ℕ) (h : Heap ρ α) (list : Option ρ) (new : ρ × α) : Option (Heap ρ α × Option ρ) :=
  let h := Function.update h new.1 (some ⟨new.2, none⟩)
  match list with
  | none => some (h, some new.1)
  | some p => (appendBehind new.1 fuel p h).map fun h => (h, some p)

/-- `tokens_list` in `sp_parse_var`: the delimiters, in the order they are found, each in the node that is allocated for it,
and then sorted. -/
def tokensList (fuel : ℕ) (h : Heap ρ SpConfToken) (nodes : List (ρ × SpConfToken)) :
    Option (Heap ρ SpConfToken × Option ρ) := do
  let (h, list) ← nodes.foldlM (fun s new => spListInsert fuel s.1 s.2 new) (h, none)
  spListSort cmpTokens fuel h list

end Code

/-! ### The list of the nodes -/

section Loops
variable {h : Heap ρ α} {x y : ρ × α} {s l : List (ρ × α)} {p head : Option ρ} {fuel : ℕ}

/-- One node is to be in front of another. -/
def before (cmp : α → α → ℤ) (x y : ρ × α) : Bool := cmp x.2 y.2 < 0

section Sorting
variable (cmp : α → α → ℤ)

theorem inFront_of_links {q : Option ρ} (hl : Links h p (y :: l)) (hx : h x.1 = some ⟨x.2, q⟩) :
    inFront cmp h x.1 p = some (before cmp x y) := by
  obtain ⟨rfl, next, hnode, -⟩ := hl
  unfold inFront
  dsimp only
  rw [hx, hnode]
  rfl

variable [DecidableEq ρ]

/-- **The inner loop** links a node in where it belongs, behind the first one. -/
theorem insertBehind_links : ∀ (fuel : ℕ) {s : List (ρ × α)} {y : ρ × α} {q : Option ρ}, s.length < fuel →
    Links h (some y.1) (y :: s) → h x.1 = some ⟨x.2, q⟩ → x.1 ∉ (y :: s).map Prod.fst →
    ∃ h', insertBehind cmp x.1 fuel (some y.1) h = some h' ∧
      Links h' (some y.1) (y :: insertSorted (before cmp) x s) ∧ Frame (x :: y :: s) h h'
  | fuel + 1, s, y, q, hlt, hl, hx, hnew => by
    obtain ⟨next, hnode, h₁, h', hset, hset', hlinks, hframe⟩ := hl.insert hx hnew
    have hrest : Links h next s := by
      obtain ⟨-, next', hnode', hrest⟩ := hl
      cases hnode.symm.trans hnode'
      exact hrest
    have hloop : insertBehind cmp x.1 (fuel + 1) (some y.1) h = (inFront cmp h x.1 next).bind fun here =>
        if here then (setNext h x.1 next).bind fun h => setNext h y.1 (some x.1)
        else insertBehind cmp x.1 fuel next h := by
      rw [insertBehind, hnode]
      rfl
    have hhere : (setNext h x.1 next).bind (fun h => setNext h y.1 (some x.1)) = some h' := by
      rw [hset, Option.bind_some, hset']
    cases s with
    | nil =>
      obtain rfl : next = none := hrest
      refine ⟨h', hloop.trans hhere, hlinks, hframe⟩
    | cons z s =>
      rw [hloop, inFront_of_links cmp hrest hx, Option.bind_some]
      unfold insertSorted
      by_cases hxz : before cmp x z = true
      · rw [if_pos hxz, if_pos hxz]
        exact ⟨h', hhere, hlinks, hframe.mono (by simp)⟩
      · rw [if_neg hxz, if_neg hxz]
        obtain rfl : next = some z.1 := hrest.1
        have hrest' := hl.nodup
        rw [List.map_cons, List.nodup_cons] at hrest'
        obtain ⟨hxy, hxs⟩ := not_or.mp fun hmem => hnew (List.mem_cons.mpr hmem)
        obtain ⟨h'', hins, hlinks', hframe'⟩ := insertBehind_links fuel (Nat.lt_of_succ_lt_succ hlt) hrest hx hxs
        have hy : h'' y.1 = h y.1 := hframe' y.1 fun hmem =>
          (List.mem_cons.mp hmem).elim (Ne.symm hxy) hrest'.1
        exact ⟨h'', hins, ⟨rfl, _, hy.trans hnode, hlinks'⟩, hframe'.mono (by simp)⟩

/-- A turn of the outer loop: a node is linked into the sorted part, and the others are left alone. -/
theorem sortLoop_turn (inner fuel : ℕ) {next : Option ρ} (hnode : h x.1 = some ⟨x.2, next⟩)
    (hs : Links h head s) (hx : x.1 ∉ s.map Prod.fst) (hinner : s.length ≤ inner) : ∃ h' head',
    sortLoop cmp inner (fuel + 1) h head (some x.1) = sortLoop cmp inner fuel h' head' next ∧
      Links h' head' (insertSorted (before cmp) x s) ∧ Frame (x :: s) h h' := by
  have hfront : inFront cmp h x.1 head = some true → sortLoop cmp inner (fuel + 1) h head (some x.1) =
      sortLoop cmp inner fuel (Function.update h x.1 (some ⟨x.2, head⟩)) (some x.1) next := by
    intro hfront
    rw [sortLoop, hnode, hfront]
    show (setNext h x.1 head).bind _ = _
    rw [setNext_of_node hnode]
    rfl
  have hframe : Frame (x :: s) h (Function.update h x.1 (some ⟨x.2, head⟩)) :=
    (frame_update x _ h).mono (by simp)
  cases s with
  | nil =>
    obtain rfl : head = none := hs
    exact ⟨_, _, hfront rfl, Links.cons_update (l := []) rfl hx, hframe⟩
  | cons y s =>
    have hhere := inFront_of_links cmp hs hnode
    unfold insertSorted
    by_cases hxy : before cmp x y = true
    · rw [if_pos hxy]
      rw [hxy] at hhere
      exact ⟨_, _, hfront hhere, hs.cons_update hx, hframe⟩
    · rw [if_neg hxy]
      obtain rfl : head = some y.1 := hs.1
      obtain ⟨h', hins, hlinks, hframe'⟩ := insertBehind_links cmp inner hinner hs hnode hx
      refine ⟨h', some y.1, ?_, hlinks, hframe'⟩
      rw [sortLoop, hnode, hhere, Bool.eq_false_iff.mpr hxy]
      show (insertBehind cmp x.1 inner (some y.1) h).bind _ = _
      rw [hins]
      rfl

/-- **The outer loop** sorts the rest of the list into the nodes behind `head`. -/
theorem sortLoop_links (inner : ℕ) : ∀ {l s : List (ρ × α)} (fuel : ℕ) {h : Heap ρ α} {head p : Option ρ},
    Links h p l → Links h head s → ((l ++ s).map Prod.fst).Nodup → l.length ≤ fuel → l.length + s.length ≤ inner →
    ∃ h' head', sortLoop cmp inner fuel h head p = some (h', head') ∧
      Links h' head' (l.foldl (fun s x => insertSorted (before cmp) x s) s) ∧ Frame (l ++ s) h h'
  | [], s, fuel, h, head, p, hl, hs, _, _, _ => by
    obtain rfl : p = none := hl
    refine ⟨h, head, ?_, hs, Frame.refl _ h⟩
    cases fuel <;> rfl
  | x :: l, s, fuel + 1, h, head, p, hl, hs, hnodup, hfuel, hinner => by
    rw [List.length_cons] at hfuel hinner
    obtain ⟨rfl, next, hnode, hrest⟩ := hl
    rw [List.cons_append, List.map_cons, List.nodup_cons, List.map_append, List.mem_append, not_or] at hnodup
    obtain ⟨⟨hxl, hxs⟩, hls⟩ := hnodup
    obtain ⟨h₁, head₁, hturn, hs₁, hframe₁⟩ := sortLoop_turn cmp inner fuel hnode hs hxs (by omega)
    have hperm : (insertSorted (before cmp) x s).Perm (x :: s) := perm_insertSorted x s
    have hrest₁ : Links h₁ next l := hrest.frame hframe₁ <| by
      rw [List.map_cons, List.disjoint_cons_right]
      exact ⟨hxl, List.disjoint_of_nodup_append hls⟩
    have hnodup₁ : ((l ++ insertSorted (before cmp) x s).map Prod.fst).Nodup := by
      have hall : (l ++ insertSorted (before cmp) x s).Perm (x :: (l ++ s)) :=
        (hperm.append_left l).trans List.perm_middle
      rw [(hall.map Prod.fst).nodup_iff, List.map_cons, List.nodup_cons, List.map_append, List.mem_append, not_or]
      exact ⟨⟨hxl, hxs⟩, hls⟩
    have hlen := hperm.length_eq
    rw [List.length_cons] at hlen
    obtain ⟨h', head', hloop, hlinks, hframe⟩ :=
      sortLoop_links inner fuel hrest₁ hs₁ hnodup₁ (by omega) (by omega)
    refine ⟨h', head', hturn.trans hloop, hlinks, ?_⟩
    refine (hframe₁.mono ?_).trans (hframe.mono ?_)
    · simp
    · intro z hz
      rcases List.mem_append.mp hz with hz | hz
      · simp [hz]
      · rcases List.mem_cons.mp (hperm.mem_iff.mp hz) with rfl | hz
        · simp
        · simp [hz]

/-- **The list behind the pointer is sorted**, and the other nodes are as they were. -/
theorem sort_links (hl : Links h p l) (hfuel : l.length ≤ fuel) : ∃ h' p', spListSort cmp fuel h p = some (h', p') ∧
    Links h' p' (VarParser.spListSort (before cmp) l) ∧ Frame l h h' := by
  match l with
  | [] =>
    obtain rfl : p = none := hl
    exact ⟨h, none, rfl, rfl, Frame.refl _ h⟩
  | [x] =>
    obtain ⟨rfl, next, hnode, hnext⟩ := id hl
    obtain rfl : next = none := hnext
    refine ⟨h, some x.1, ?_, hl, Frame.refl _ h⟩
    unfold spListSort
    dsimp only
    rw [hnode]
    rfl
  | x :: y :: l =>
    have hloop : spListSort cmp fuel h p = sortLoop cmp fuel fuel h none p := by
      obtain ⟨rfl, next, hnode, rfl, -⟩ := id hl
      unfold spListSort
      dsimp only
      rw [hnode]
      rfl
    obtain ⟨h', p', hsort, hlinks, hframe⟩ := sortLoop_links cmp fuel fuel (s := []) hl rfl
      (by rw [List.append_nil]; exact hl.nodup) hfuel hfuel
    rw [List.append_nil] at hframe
    exact ⟨h', p', hloop.trans hsort, hlinks, hframe⟩

end Sorting

variable [DecidableEq ρ]

/-- The loop of `sp_list_insert` links a node in behind the last one. -/
theorem appendBehind_links : ∀ {s : List (ρ × α)} {y : ρ × α} {fuel : ℕ}, s.length < fuel →
    Links h (some y.1) (y :: s) → h x.1 = some ⟨x.2, none⟩ → x.1 ∉ (y :: s).map Prod.fst →
    ∃ h', appendBehind x.1 fuel y.1 h = some h' ∧ Links h' (some y.1) (y :: s ++ [x]) ∧ Frame (y :: s) h h'
  | s, y, fuel + 1, hlt, hl, hx, hnew => by
    obtain ⟨hxy, hxs⟩ := not_or.mp fun hmem => hnew (List.mem_cons.mpr hmem)
    obtain ⟨-, next, hnode, hrest⟩ := id hl
    cases s with
    | nil =>
      obtain rfl : next = none := hrest
      have hlast : Links h (some x.1) [x] := ⟨rfl, none, hx, rfl⟩
      refine ⟨_, ?_, hlast.cons_update (x := y) (by simpa using Ne.symm hxy), frame_update y _ h⟩
      rw [appendBehind, hnode]
      exact setNext_of_node hnode _
    | cons z s =>
      obtain rfl : next = some z.1 := hrest.1
      have hyz := hl.nodup
      rw [List.map_cons, List.nodup_cons] at hyz
      obtain ⟨h', happend, hlinks, hframe⟩ := appendBehind_links (Nat.lt_of_succ_lt_succ hlt) hrest hx hxs
      refine ⟨h', ?_, ⟨rfl, _, (hframe y.1 hyz.1).trans hnode, hlinks⟩, hframe.mono (by simp)⟩
      rw [appendBehind, hnode]
      exact happend

/-- **`sp_list_insert`** puts a node at the end. -/
theorem spListInsert_links (hl : Links h p l) (hx : x.1 ∉ l.map Prod.fst) (hfuel : l.length ≤ fuel) :
    ∃ h' p', spListInsert fuel h p x = some (h', p') ∧ Links h' p' (l ++ [x]) := by
  have hl₁ : Links (Function.update h x.1 (some ⟨x.2, none⟩)) p l :=
    hl.frame (frame_update x _ h) (List.disjoint_singleton.mpr hx)
  have hx₁ : Function.update h x.1 (some ⟨x.2, none⟩) x.1 = some ⟨x.2, none⟩ := Function.update_self ..
  cases l with
  | nil =>
    obtain rfl : p = none := hl
    exact ⟨_, _, rfl, rfl, none, hx₁, rfl⟩
  | cons y s =>
    obtain rfl : p = some y.1 := hl.1
    obtain ⟨h', happend, hlinks, -⟩ := appendBehind_links hfuel hl₁ hx₁ hx
    refine ⟨h', some y.1, ?_, hlinks⟩
    unfold spListInsert
    dsimp only
    rw [happend, Option.map_some]

theorem insertAll_links : ∀ {nodes l : List (ρ × α)} {h : Heap ρ α} {p : Option ρ}, Links h p l →
    ((l ++ nodes).map Prod.fst).Nodup → (l ++ nodes).length ≤ fuel →
    ∃ h' p', nodes.foldlM (fun s new => spListInsert fuel s.1 s.2 new) (h, p) = some (h', p') ∧
      Links h' p' (l ++ nodes)
  | [], l, h, p, hl, _, _ => ⟨h, p, rfl, by rwa [List.append_nil]⟩
  | x :: nodes, l, h, p, hl, hnodup, hfuel => by
    rw [List.append_cons] at hnodup hfuel
    have hx : x.1 ∉ l.map Prod.fst := by
      rw [List.map_append, List.map_append] at hnodup
      have hdisj := List.disjoint_of_nodup_append hnodup.of_append_left
      exact fun hmem => hdisj hmem (List.mem_singleton_self _)
    have hlen : l.length ≤ fuel := by
      rw [List.length_append, List.length_append] at hfuel
      omega
    obtain ⟨h₁, p₁, hinsert, hl₁⟩ := spListInsert_links hl hx hlen
    obtain ⟨h', p', hall, hlinks⟩ := insertAll_links hl₁ hnodup hfuel
    refine ⟨h', p', ?_, by rwa [List.append_cons]⟩
    rw [List.foldlM_cons, hinsert]
    exact hall

/-- **The list that `parse_tokens` is given**: the delimiters in the order of `cmp_tokens`. -/
theorem tokensList_links {nodes : List (ρ × SpConfToken)} {fuel : ℕ} (h : Heap ρ SpConfToken)
    (hnodup : (nodes.map Prod.fst).Nodup) (hfuel : nodes.length ≤ fuel) : ∃ h' p',
    tokensList fuel h nodes = some (h', p') ∧ Links h' p' (VarParser.spListSort (before cmpTokens) nodes) := by
  obtain ⟨h₁, p₁, hall, hl₁⟩ := insertAll_links (h := h) (l := []) rfl hnodup hfuel
  obtain ⟨h', p', hsort, hlinks, -⟩ := sort_links cmpTokens hl₁ hfuel
  refine ⟨h', p', ?_, hlinks⟩
  unfold tokensList
  rw [hall]
  exact hsort

end Loops

/-! ### Comparisons -/

/-- `a` may stand in front of `b`: the sort asks only whether a comparison is below zero. -/
def Le (cmp : α → α → ℤ) (a b : α) : Prop := ¬cmp b a < 0

/-- A comparison that is a total preorder. -/
structure TotalPreorder (cmp : α → α → ℤ) : Prop where
  total : ∀ a b, Le cmp a b ∨ Le cmp b a
  trans : ∀ a b c, Le cmp a b → Le cmp b c → Le cmp a c

/-- A list of nodes is another one, sorted, and equal nodes are in the order they had. -/
structure IsSort (cmp : α → α → ℤ) (l l' : List (ρ × α)) : Prop where
  perm : l'.Perm l
  sorted : l'.Pairwise fun x y => Le cmp x.2 y.2
  stable : ∀ x y, [x, y].Sublist l → Le cmp x.2 y.2 → [x, y].Sublist l'

section Preorder
variable {cmp : α → α → ℤ} {x y : ρ × α} {l acc : List (ρ × α)}

theorem before_eq_true : before cmp x y = true ↔ ¬Le cmp y.2 x.2 := by
  unfold before Le
  rw [decide_eq_true_iff, not_not]

theorem before_eq_false : before cmp x y = false ↔ Le cmp y.2 x.2 := decide_eq_false_iff_not

theorem pairwise_foldl (hcmp : TotalPreorder cmp) (l : List (ρ × α)) {acc : List (ρ × α)}
    (hacc : acc.Pairwise fun x y => Le cmp x.2 y.2) :
    (l.foldl (fun s x => insertSorted (before cmp) x s) acc).Pairwise fun x y => Le cmp x.2 y.2 := by
  refine foldl_insertSorted_pairwise (fun x y h => ?_) (fun x y h => ?_) (fun x y z => hcmp.trans x.2 y.2 z.2) hacc
  · exact (hcmp.total x.2 y.2).resolve_right (before_eq_true.mp h)
  · exact before_eq_false.mp h

/-- A node is put in behind those that may stand in front of it. -/
theorem pair_insertSorted (hcmp : TotalPreorder cmp) (hxy : Le cmp x.2 y.2) :
    ∀ {acc : List (ρ × α)}, (acc.Pairwise fun x y => Le cmp x.2 y.2) → x ∈ acc →
      [x, y].Sublist (insertSorted (before cmp) y acc)
  | z :: acc, hacc, hx => by
    obtain ⟨hz, hacc⟩ := List.pairwise_cons.mp hacc
    unfold insertSorted
    have hzy : Le cmp z.2 y.2 := by
      rcases List.mem_cons.mp hx with rfl | hx
      · exact hxy
      · exact hcmp.trans _ _ _ (hz x hx) hxy
    rw [if_neg (fun h => before_eq_true.mp h hzy)]
    rcases List.mem_cons.mp hx with rfl | hx
    · have hy : y ∈ insertSorted (before cmp) y acc := (perm_insertSorted y acc).mem_iff.mpr List.mem_cons_self
      exact (List.singleton_sublist.mpr hy).cons_cons x
    · exact (pair_insertSorted hcmp hxy hacc hx).cons z

theorem pair_foldl_of_mem (hcmp : TotalPreorder cmp) (hxy : Le cmp x.2 y.2) :
    ∀ {l acc : List (ρ × α)}, (acc.Pairwise fun x y => Le cmp x.2 y.2) → x ∈ acc → y ∈ l →
      [x, y].Sublist (l.foldl (fun s x => insertSorted (before cmp) x s) acc)
  | z :: l, acc, hacc, hx, hy => by
    have hacc' : (insertSorted (before cmp) z acc).Pairwise _ := pairwise_foldl hcmp [z] hacc
    rcases List.mem_cons.mp hy with rfl | hy
    · exact (pair_insertSorted hcmp hxy hacc hx).trans (sublist_foldl_insertSorted l _)
    · exact pair_foldl_of_mem (l := l) hcmp hxy hacc' ((sublist_insertSorted z acc).subset hx) hy

theorem pair_foldl (hcmp : TotalPreorder cmp) (hxy : Le cmp x.2 y.2) :
    ∀ {l acc : List (ρ × α)}, (acc.Pairwise fun x y => Le cmp x.2 y.2) → [x, y].Sublist l →
      [x, y].Sublist (l.foldl (fun s x => insertSorted (before cmp) x s) acc)
  | z :: l, acc, hacc, hl => by
    have hacc' : (insertSorted (before cmp) z acc).Pairwise _ := pairwise_foldl hcmp [z] hacc
    rcases List.sublist_cons_iff.mp hl with hl | ⟨l', hpair, hl⟩
    · exact pair_foldl (l := l) hcmp hxy hacc' hl
    · cases hpair
      have hx : x ∈ insertSorted (before cmp) x acc := (perm_insertSorted x acc).mem_iff.mpr List.mem_cons_self
      exact pair_foldl_of_mem (l := l) hcmp hxy hacc' hx (List.singleton_sublist.mp hl)

/-- **By a total preorder** the nodes are sorted, and equal ones stay in order. -/
theorem isSort_spListSort (hcmp : TotalPreorder cmp) (l : List (ρ × α)) :
    IsSort cmp l (VarParser.spListSort (before cmp) l) where
  perm := perm_spListSort l
  sorted := pairwise_foldl hcmp l List.Pairwise.nil
  stable _ _ hl hxy := pair_foldl hcmp hxy List.Pairwise.nil hl

end Preorder

/-! ### The delimiters of a path -/

/-- A delimiter is put where its position is: by the distances cut to 32 bits it is behind all that were found before it on
its left, and in front of the nearest one on its right. -/
structure Fits (found : List SpConfToken) (x : SpConfToken) : Prop where
  left : ∀ y ∈ found, y.pos < x.pos → (x.pos - y.pos) % 2 ^ 32 < 2 ^ 31
  right : ∀ y ∈ found, x.pos < y.pos → (∀ z ∈ found, x.pos < z.pos → y.pos ≤ z.pos) →
    0 < (y.pos - x.pos) % 2 ^ 32 ∧ (y.pos - x.pos) % 2 ^ 32 ≤ 2 ^ 31

/-- Every delimiter is put where its position is, among those that were found before it. -/
def Placed : List SpConfToken → List SpConfToken → Prop
  | _, [] => True
  | found, x :: tokens => Fits found x ∧ Placed (found ++ [x]) tokens

/-- `0 > cmp_tokens(x, y)`. -/
def tokenBefore (x y : SpConfToken) : Bool := cmpTokens x y < 0

theorem tokenBefore_left {x y : SpConfToken} (h : y.pos < x.pos) :
    tokenBefore x y = false ↔ (x.pos - y.pos) % 2 ^ 32 < 2 ^ 31 := by
  unfold tokenBefore cmpTokens
  rw [decide_eq_false_iff_not, Int.bmod]
  omega

theorem tokenBefore_right {x y : SpConfToken} (h : x.pos < y.pos) : tokenBefore x y = true ↔
    0 < (y.pos - x.pos) % 2 ^ 32 ∧ (y.pos - x.pos) % 2 ^ 32 ≤ 2 ^ 31 := by
  unfold tokenBefore cmpTokens
  rw [decide_eq_true_iff, Int.bmod]
  omega

theorem fits_congr {found found' : List SpConfToken} {x : SpConfToken} (h : ∀ y, y ∈ found ↔ y ∈ found') :
    Fits found x ↔ Fits found' x := by
  constructor <;> rintro ⟨hleft, hright⟩
  · exact ⟨fun y hy => hleft y ((h y).mpr hy),
      fun y hy hlt hnear => hright y ((h y).mpr hy) hlt fun z hz => hnear z ((h z).mp hz)⟩
  · exact ⟨fun y hy => hleft y ((h y).mp hy),
      fun y hy hlt hnear => hright y ((h y).mp hy) hlt fun z hz => hnear z ((h z).mpr hz)⟩

/-- In order of the positions. -/
abbrev InOrder (tokens : List SpConfToken) : Prop := tokens.Pairwise fun x y => x.pos < y.pos

/-- **One insertion** keeps the order exactly if the delimiter fits in. -/
theorem inOrder_insertSorted_iff {x : SpConfToken} : ∀ {found : List SpConfToken}, InOrder found →
    (∀ y ∈ found, y.pos ≠ x.pos) → (InOrder (insertSorted tokenBefore x found) ↔ Fits found x)
  | [], _, _ => iff_of_true (List.pairwise_singleton _ x) ⟨nofun, nofun⟩
  | y :: found, hfound, hne => by
    obtain ⟨hy, hrest⟩ := List.pairwise_cons.mp hfound
    obtain ⟨hyx, hne⟩ := List.forall_mem_cons.mp hne
    unfold insertSorted
    by_cases hxy : tokenBefore x y = true
    · rw [if_pos hxy]
      constructor
      · intro hsorted
        have hx := (List.pairwise_cons.mp hsorted).1
        refine ⟨fun z hz hlt => absurd (hx z hz) hlt.asymm, fun z hz hlt hnear => ?_⟩
        -- the nearest one is the first
        rcases List.mem_cons.mp hz with rfl | hz
        · exact (tokenBefore_right hlt).mp hxy
        · have hle := hnear y List.mem_cons_self (hx y List.mem_cons_self)
          exact absurd (hy z hz) (not_lt.mpr hle)
      · intro hfits
        have hlt : x.pos < y.pos := by
          by_contra hle
          have hlt : y.pos < x.pos := lt_of_le_of_ne (not_lt.mp hle) hyx
          have hfalse := (tokenBefore_left hlt).mpr (hfits.left y List.mem_cons_self hlt)
          exact Bool.false_ne_true (hfalse.symm.trans hxy)
        refine List.pairwise_cons.mpr ⟨fun z hz => ?_, hfound⟩
        rcases List.mem_cons.mp hz with rfl | hz
        · exact hlt
        · exact hlt.trans (hy z hz)
    · rw [if_neg hxy]
      refine (List.pairwise_cons.trans (and_congr_right' (inOrder_insertSorted_iff hrest hne))).trans ?_
      have hmem : ∀ z, z ∈ insertSorted tokenBefore x found ↔ z = x ∨ z ∈ found := fun z => by
        rw [(perm_insertSorted x found).mem_iff, List.mem_cons]
      constructor
      · rintro ⟨hyall, hfits⟩
        have hlt : y.pos < x.pos := hyall x ((hmem x).mpr (.inl rfl))
        refine ⟨List.forall_mem_cons.mpr ⟨fun _ => ?_, hfits.left⟩, List.forall_mem_cons.mpr ⟨fun hgt => ?_, ?_⟩⟩
        · exact (tokenBefore_left hlt).mp (Bool.eq_false_iff.mpr hxy)
        · exact absurd hgt hlt.asymm
        · exact fun z hz hgt hnear => hfits.right z hz hgt fun w hw => hnear w (List.mem_cons_of_mem y hw)
      · intro hfits
        have hlt : y.pos < x.pos := by
          by_contra hle
          have hgt : x.pos < y.pos := lt_of_le_of_ne (not_lt.mp hle) (Ne.symm hyx)
          refine hxy ((tokenBefore_right hgt).mpr (hfits.right y List.mem_cons_self hgt ?_))
          exact List.forall_mem_cons.mpr ⟨fun _ => le_rfl, fun z hz _ => (hy z hz).le⟩
        refine ⟨fun z hz => ?_, fun z hz => hfits.left z (List.mem_cons_of_mem y hz), fun z hz hgt hnear => ?_⟩
        · rcases (hmem z).mp hz with rfl | hz
          · exact hlt
          · exact hy z hz
        · exact hfits.right z (List.mem_cons_of_mem y hz) hgt
            (List.forall_mem_cons.mpr ⟨fun hgt' => absurd hgt' hlt.asymm, hnear⟩)

/-- **All insertions** keep the order exactly if every delimiter fits in. -/
theorem inOrder_foldl_iff : ∀ {tokens found acc : List SpConfToken}, acc.Perm found → InOrder acc →
    ((found ++ tokens).map SpConfToken.pos).Nodup →
    (InOrder (tokens.foldl (fun s x => insertSorted tokenBefore x s) acc) ↔ Placed found tokens)
  | [], _, _, _, hacc, _ => iff_of_true hacc trivial
  | x :: tokens, found, acc, hperm, hacc, hnodup => by
    have hne : ∀ y ∈ acc, y.pos ≠ x.pos := by
      intro y hy heq
      rw [List.map_append] at hnodup
      refine List.disjoint_of_nodup_append hnodup (List.mem_map_of_mem (hperm.mem_iff.mp hy)) ?_
      rw [heq]
      exact List.mem_cons_self
    have hperm' : (insertSorted tokenBefore x acc).Perm (found ++ [x]) :=
      (perm_insertSorted x acc).trans ((hperm.cons x).trans (List.perm_append_singleton x found).symm)
    rw [List.append_cons] at hnodup
    have hone := inOrder_insertSorted_iff hacc hne
    rw [fits_congr fun y => hperm.mem_iff] at hone
    unfold Placed
    rw [List.foldl_cons]
    constructor
    · intro hsorted
      have hacc' := hsorted.sublist (sublist_foldl_insertSorted tokens _)
      exact ⟨hone.mp hacc', (inOrder_foldl_iff hperm' hacc' hnodup).mp hsorted⟩
    · rintro ⟨hfits, hplaced⟩
      exact (inOrder_foldl_iff hperm' (hone.mpr hfits) hnodup).mpr hplaced

theorem insertSorted_map {β γ : Type} (lt : β → β → Bool) (lt' : γ → γ → Bool) (f : β → γ)
    (hf : ∀ a b, lt a b = lt' (f a) (f b)) (x : β) : ∀ l : List β,
    (insertSorted lt x l).map f = insertSorted lt' (f x) (l.map f)
  | [] => rfl
  | y :: l => by
    rw [List.map_cons]
    unfold insertSorted
    rw [← hf]
    split_ifs
    · rfl
    · rw [List.map_cons, insertSorted_map lt lt' f hf x l]

/-- The delimiters of the nodes are sorted as in a list. -/
theorem map_spListSort (nodes : List (ρ × SpConfToken)) :
    (VarParser.spListSort (before cmpTokens) nodes).map Prod.snd =
      (nodes.map Prod.snd).foldl (fun s x => insertSorted tokenBefore x s) [] := by
  have hfold : ∀ nodes acc : List (ρ × SpConfToken),
      (nodes.foldl (fun s x => insertSorted (before cmpTokens) x s) acc).map Prod.snd =
        (nodes.map Prod.snd).foldl (fun s x => insertSorted tokenBefore x s) (acc.map Prod.snd) := by
    intro nodes
    induction nodes with
    | nil => exact fun acc => rfl
    | cons x nodes ih =>
      intro acc
      rw [List.foldl_cons, ih, insertSorted_map (before cmpTokens) tokenBefore Prod.snd fun a b => rfl]
      rfl
  exact hfold nodes []

theorem nodup_collected (line : ZendString) : ((collected line).map SpConfToken.pos).Nodup :=
  ((collected_perm line).map _).nodup_iff.mpr (List.pairwise_map.mpr ((sorted_scan line 0 0).imp ne_of_lt))

theorem inOrder_iff_placed (line : ZendString) :
    InOrder ((collected line).foldl (fun s x => insertSorted tokenBefore x s) []) ↔ Placed [] (collected line) :=
  inOrder_foldl_iff (List.Perm.refl []) List.Pairwise.nil (nodup_collected line)

/-- The list that `parse_tokens` is given has every delimiter, in order of their positions. -/
def TokensSorted [DecidableEq ρ] (fuel : ℕ) (h : Heap ρ SpConfToken) (nodes : List (ρ × SpConfToken)) : Prop :=
  ∃ h' p l, tokensList fuel h nodes = some (h', p) ∧ Links h' p l ∧ l.Perm nodes ∧ InOrder (l.map Prod.snd)

theorem tokensSorted_iff [DecidableEq ρ] {fuel : ℕ} {h : Heap ρ SpConfToken} {nodes : List (ρ × SpConfToken)}
    (hnodup : (nodes.map Prod.fst).Nodup) (hfuel : nodes.length ≤ fuel) : TokensSorted fuel h nodes ↔
      InOrder ((nodes.map Prod.snd).foldl (fun s x => insertSorted tokenBefore x s) []) := by
  obtain ⟨h', p, hrun, hlinks⟩ := tokensList_links h hnodup hfuel
  rw [← map_spListSort]
  constructor
  · rintro ⟨h'', p', l, hrun', hlinks', -, hsorted⟩
    cases hrun.symm.trans hrun'
    rw [hlinks.unique hlinks']
    exact hsorted
  · exact fun hsorted => ⟨h', p, _, hrun, hlinks, perm_spListSort nodes, hsorted⟩

/-- **`sp_list_sort` sorts every list**, by every comparison that is a total preorder; the delimiters of a path, which are
compared by differences cut to an `int`, it puts in order of their positions if and only if each one fits in where it is
put, and on a path of at most `2 ^ 31` characters they all do. -/
theorem list_sort_iff [DecidableEq ρ] (cmp : α → α → ℤ) (hcmp : TotalPreorder cmp) (line : ZendString)
    (nodes : List (ρ × SpConfToken)) (hnodes : nodes.map Prod.snd = collected line)
    (hnodup : (nodes.map Prod.fst).Nodup) :
    (∀ (h : Heap ρ α) (p : Option ρ) (l : List (ρ × α)) (fuel : ℕ), Links h p l → l.length ≤ fuel →
      ∃ h' p' l', spListSort cmp fuel h p = some (h', p') ∧ Links h' p' l' ∧ IsSort cmp l l' ∧ Frame l h h') ∧
    (∀ (h : Heap ρ SpConfToken) (fuel : ℕ), nodes.length ≤ fuel →
      (TokensSorted fuel h nodes ↔ Placed [] (collected line))) ∧
    (line.length ≤ 2 ^ 31 → Placed [] (collected line)) := by
  refine ⟨fun h p l fuel hl hfuel => ?_, fun h fuel hfuel => ?_, fun hlen => ?_⟩
  · obtain ⟨h', p', hsort, hlinks, hframe⟩ := sort_links cmp hl hfuel
    exact ⟨h', p', _, hsort, hlinks, isSort_spListSort hcmp l, hframe⟩
  · rw [tokensSorted_iff hnodup hfuel, hnodes, inOrder_iff_placed]
  · refine (inOrder_iff_placed line).mp ?_
    have hscan : (collected line).foldl (fun s x => insertSorted tokenBefore x s) [] = scan 0 0 line :=
      sorted_eq_scan hlen
    rw [hscan]
    exact sorted_scan line 0 0

/-- The nodes of integers, and the delimiters of `$a['b']`. -/
theorem list_sort_sample :
    (∀ (h : Heap ℕ ℤ) (p : Option ℕ) (l : List (ℕ × ℤ)) (fuel : ℕ), Links h p l → l.length ≤ fuel →
      ∃ h' p' l', spListSort (fun a b => a - b) fuel h p = some (h', p') ∧ Links h' p' l' ∧
        IsSort (fun a b => a - b) l l' ∧ Frame l h h') ∧
    (∀ (h : Heap ℕ SpConfToken) (fuel : ℕ),
      ((List.range 4).zip (collected (zstr "$a['b']"))).length ≤ fuel →
      (TokensSorted fuel h ((List.range 4).zip (collected (zstr "$a['b']"))) ↔
        Placed [] (collected (zstr "$a['b']")))) ∧
    ((zstr "$a['b']").length ≤ 2 ^ 31 → Placed [] (collected (zstr "$a['b']"))) := by
  refine list_sort_iff _ ⟨fun a b => ?_, fun a b c => ?_⟩ _ _ rfl (by decide)
  · simp only [Le]
    omega
  · simp only [Le]
    omega

/-- **The quote at `2 ^ 31`** is found last and put in front of the two at the start. -/
theorem far_quote_first : (farQuote 0).length = 2 ^ 31 + 1 ∧
    collected (farQuote 0) = [quoteAt 0, quoteAt 1, quoteAt (2 ^ 31)] ∧
    ¬TokensSorted 3 (fun _ => none) [(0, quoteAt 0), (1, quoteAt 1), (2, quoteAt (2 ^ 31))] := by
  refine ⟨length_farQuote 0, collected_farQuote 0, ?_⟩
  intro htokens
  have hsorted := (tokensSorted_iff (by decide) (by decide)).mp htokens
  have hfirst : 2 ^ 31 < 0 := (List.pairwise_cons.mp hsorted).1 (quoteAt 0) List.mem_cons_self
  omega

end Snuffleupagus.Config.ListSort
