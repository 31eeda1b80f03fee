import Mathlib.Data.List.Basic
import Mathlib.Data.List.Perm.Basic
import Mathlib.Logic.Function.Basic

/-! # Linked lists in memory

A heap has nodes, each with a datum and a pointer to the next one. `Links h p l` says that the pointer `p` leads through
the nodes of `l`, each with its address, to the null pointer. Then no address is there twice (`Links.nodup`), so there is
no cycle, and the list is all there is to be found behind the pointer (`Links.unique`).

A program that changes some nodes leaves a list of others as it is (`Links.frame`). -/

namespace Snuffleupagus.Lib.Linked

/-- A node. -/
structure Node (ρ α : Type) where
  data : α
  next : Option ρ

/-- The nodes behind the pointers. -/
abbrev Heap (ρ α : Type) := ρ → Option (Node ρ α)

variable {ρ α : Type}

/-- The pointer leads through these nodes to the null pointer. -/
def Links (h : Heap ρ α) : Option ρ → List (ρ × α) → Prop
  | p, [] => p = none
  | p, x :: l => p = some x.1 ∧ ∃ next, h x.1 = some ⟨x.2, next⟩ ∧ Links h next l

/-- The nodes that are not in the list are the same in both heaps. -/
def Frame (l : List (ρ × α)) (h h' : Heap ρ α) : Prop := ∀ r ∉ l.map Prod.fst, h' r = h r

/-- Set the pointer of a node; without a node there is no result. -/
def setNext [DecidableEq ρ] (h : Heap ρ α) (r : ρ) (next : Option ρ) : Option (Heap ρ α) :=
  (h r).map fun node => Function.update h r (some { node with next := next })

variable {h h' h'' : Heap ρ α} {p q : Option ρ} {l l' : List (ρ × α)} {x y : ρ × α} {r : ρ}

/-! ### What a pointer leads to -/

/-- There is one list behind a pointer. -/
theorem Links.unique : ∀ {l l' : List (ρ × α)} {p : Option ρ}, Links h p l → Links h p l' → l = l'
  | [], [], _, _, _ => rfl
  | [], _ :: _, _, hl, hl' => by cases hl.symm.trans hl'.1
  | _ :: _, [], _, hl, hl' => by cases hl.1.symm.trans hl'
  | (r, a) :: l, (r', a') :: l', _, ⟨hp, next, hnode, hl⟩, ⟨hp', next', hnode', hl'⟩ => by
    obtain rfl : r = r' := Option.some.inj (hp.symm.trans hp')
    cases hnode.symm.trans hnode'
    rw [Links.unique hl hl']

/-- A node of the list has the rest of the list behind it. -/
theorem Links.of_append : ∀ {l₁ : List (ρ × α)} {p : Option ρ}, Links h p (l₁ ++ x :: l) →
    Links h (some x.1) (x :: l)
  | [], _, hl => ⟨rfl, hl.2⟩
  | _ :: _, _, ⟨_, _, _, hl⟩ => Links.of_append hl

/-- **No address is there twice.** -/
theorem Links.nodup : ∀ {l : List (ρ × α)} {p : Option ρ}, Links h p l → (l.map Prod.fst).Nodup
  | [], _, _ => List.nodup_nil
  | (r, a) :: l, p, hl => by
    obtain ⟨hp, next, hnode, hrest⟩ := hl
    refine List.nodup_cons.mpr ⟨fun hmem => ?_, hrest.nodup⟩
    obtain ⟨⟨r', a'⟩, hx, rfl⟩ := List.mem_map.mp hmem
    obtain ⟨l₁, l₂, rfl⟩ := List.append_of_mem hx
    have hlong : Links h (some r') ((r', a) :: (l₁ ++ (r', a') :: l₂)) := ⟨rfl, next, hnode, hrest⟩
    have hlen := congrArg List.length (hlong.unique hrest.of_append)
    rw [List.length_cons, List.length_append, List.length_cons] at hlen
    omega

/-- Every node of the list is in the heap. -/
theorem Links.node : ∀ {l : List (ρ × α)} {p : Option ρ}, Links h p l → x ∈ l → ∃ next, h x.1 = some ⟨x.2, next⟩
  | _ :: _, _, ⟨_, next, hnode, hl⟩, hx => by
    rcases List.mem_cons.mp hx with rfl | hx
    · exact ⟨next, hnode⟩
    · exact hl.node hx

/-! ### Changes elsewhere -/

theorem Frame.refl (l : List (ρ × α)) (h : Heap ρ α) : Frame l h h := fun _ _ => rfl

theorem Frame.trans (hf : Frame l h h') (hf' : Frame l h' h'') : Frame l h h'' := fun r hr =>
  (hf' r hr).trans (hf r hr)

theorem Frame.mono (hf : Frame l h h') (hsub : l ⊆ l') : Frame l' h h' := fun r hr =>
  hf r fun hmem => hr (List.map_subset _ hsub hmem)

/-- **A list without the nodes that are changed** stays as it is. -/
theorem Links.frame (hf : Frame l' h h') : ∀ {l : List (ρ × α)} {p : Option ρ}, Links h p l →
    (l.map Prod.fst).Disjoint (l'.map Prod.fst) → Links h' p l
  | [], _, hl, _ => hl
  | x :: l, p, ⟨hp, next, hnode, hl⟩, hdisj => by
    obtain ⟨hx, hrest⟩ := List.disjoint_cons_left.mp hdisj
    exact ⟨hp, next, (hf x.1 hx).trans hnode, hl.frame hf hrest⟩

/-! ### Pointers that are set -/

variable [DecidableEq ρ]

theorem setNext_of_node {next : Option ρ} (hnode : h x.1 = some ⟨x.2, next⟩) (q : Option ρ) :
    setNext h x.1 q = some (Function.update h x.1 (some ⟨x.2, q⟩)) := by
  unfold setNext
  rw [hnode, Option.map_some]

theorem frame_update (x : ρ × α) (node : Option (Node ρ α)) (h : Heap ρ α) :
    Frame [x] h (Function.update h x.1 node) := fun r hr =>
  Function.update_of_ne (fun heq => hr (by rw [heq]; exact List.mem_singleton_self _)) ..

/-- A node is put in front of a list. -/
theorem Links.cons_update (hl : Links h p l) (hx : x.1 ∉ l.map Prod.fst) :
    Links (Function.update h x.1 (some ⟨x.2, p⟩)) (some x.1) (x :: l) := by
  refine ⟨rfl, p, Function.update_self .., hl.frame (frame_update x _ h) ?_⟩
  exact List.disjoint_singleton.mpr hx

/-- **A node is linked in** behind another one: first its own pointer is set, then that of the other one. -/
theorem Links.insert {q : Option ρ} (hl : Links h p (y :: l)) (hx : h x.1 = some ⟨x.2, q⟩)
    (hnew : x.1 ∉ (y :: l).map Prod.fst) : ∃ next, h y.1 = some ⟨y.2, next⟩ ∧ ∃ h₁ h', setNext h x.1 next = some h₁ ∧
      setNext h₁ y.1 (some x.1) = some h' ∧ Links h' p (y :: x :: l) ∧ Frame [x, y] h h' := by
  obtain ⟨hxy, hxl⟩ := not_or.mp (fun hmem => hnew (List.mem_cons.mpr hmem))
  have hyl : y.1 ∉ l.map Prod.fst := (List.nodup_cons.mp hl.nodup).1
  obtain ⟨rfl, next, hnode, hrest⟩ := hl
  have hframe := frame_update x (some ⟨x.2, next⟩) h
  have hnode' : Function.update h x.1 (some ⟨x.2, next⟩) y.1 = some ⟨y.2, next⟩ := by
    rw [Function.update_of_ne (Ne.symm hxy), hnode]
  refine ⟨next, hnode, _, _, setNext_of_node hx next, setNext_of_node hnode' _,
    (hrest.cons_update hxl).cons_update ?_, ?_⟩
  · exact fun hmem => (List.mem_cons.mp hmem).elim (Ne.symm hxy) hyl
  · exact (hframe.mono (by simp)).trans ((frame_update y _ _).mono (by simp))

end Snuffleupagus.Lib.Linked
