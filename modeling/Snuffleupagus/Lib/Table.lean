import Mathlib.Data.List.Nodup
import Mathlib.Data.List.Perm.Basic

/-! # Tables that keep the order of insertion

A table is a list of entries with distinct keys. An entry inserted under a new key goes to the end,
one under a present key replaces the old value where it stands; erasing closes the gap. Iteration is
over `entries`, in the order of insertion.

The lookups of `find?` after every operation are simp lemmas, so that later proofs speak of tables by
what they hold and not by how the list is built. -/

namespace Snuffleupagus.Lib.Table

/-- Entries with distinct keys, in the order of their insertion. -/
structure OrdTable (κ ν : Type) where
  entries : List (κ × ν)
  nodup : (entries.map Prod.fst).Nodup

variable {κ ν : Type} [DecidableEq κ]

namespace OrdTable

/-- The table without entries. -/
def empty : OrdTable κ ν := ⟨[], List.nodup_nil⟩

instance : Inhabited (OrdTable κ ν) := ⟨empty⟩

/-- The keys, in the order of insertion. -/
def keys (t : OrdTable κ ν) : List κ := t.entries.map Prod.fst

/-- The value of the first entry with the key `k`. -/
def lookup (k : κ) : List (κ × ν) → Option ν
  | [] => none
  | (k', v) :: l => if k' = k then some v else lookup k l

/-- The value under the key `k`. -/
def find? (t : OrdTable κ ν) (k : κ) : Option ν := lookup k t.entries

/-- Replace the value under `k`, or add the entry at the end. -/
def put (k : κ) (v : ν) : List (κ × ν) → List (κ × ν)
  | [] => [(k, v)]
  | (k', v') :: l => if k' = k then (k, v) :: l else (k', v') :: put k v l

theorem mem_map_put {k : κ} {v : ν} {k' : κ} : ∀ {l : List (κ × ν)},
    k' ∈ (put k v l).map Prod.fst ↔ k' = k ∨ k' ∈ l.map Prod.fst
  | [] => by simp [put]
  | (a, b) :: l => by
    unfold put
    split_ifs with h
    · subst h; simp
    · rw [List.map_cons, List.mem_cons, mem_map_put, List.map_cons, List.mem_cons]
      exact or_left_comm

theorem nodup_put {k : κ} {v : ν} : ∀ {l : List (κ × ν)},
    (l.map Prod.fst).Nodup → ((put k v l).map Prod.fst).Nodup
  | [], _ => by simp [put]
  | (a, b) :: l, h => by
    rw [List.map_cons, List.nodup_cons] at h
    unfold put
    split_ifs with hk
    · subst hk; exact List.nodup_cons.mpr h
    · rw [List.map_cons, List.nodup_cons, mem_map_put]
      refine ⟨?_, nodup_put h.2⟩
      rintro (h' | h')
      · exact hk h'
      · exact h.1 h'

/-- Insert, or replace what is under the key. -/
def insert (t : OrdTable κ ν) (k : κ) (v : ν) : OrdTable κ ν := ⟨put k v t.entries, nodup_put t.nodup⟩

/-- Erase the entry under the key. -/
def erase (t : OrdTable κ ν) (k : κ) : OrdTable κ ν :=
  ⟨t.entries.filter fun e => e.1 ≠ k,
    t.nodup.sublist ((List.filter_sublist (l := t.entries)).map Prod.fst)⟩

/-! ### Lookups -/

@[simp] theorem find?_empty (k : κ) : (empty : OrdTable κ ν).find? k = none := rfl

theorem lookup_put (k : κ) (v : ν) (k' : κ) : ∀ l : List (κ × ν),
    lookup k' (put k v l) = if k = k' then some v else lookup k' l
  | [] => rfl
  | (a, b) :: l => by
    unfold put
    split_ifs with h h' h'
    · rw [lookup, if_pos h']
    · rw [lookup, if_neg h', lookup, if_neg (h ▸ h')]
    · rw [lookup, if_neg (fun e => h (e.trans h'.symm)), lookup_put, if_pos h']
    · rw [lookup, lookup_put, if_neg h', lookup]

@[simp] theorem find?_insert (t : OrdTable κ ν) (k : κ) (v : ν) (k' : κ) :
    (t.insert k v).find? k' = if k = k' then some v else t.find? k' := lookup_put k v k' t.entries

theorem lookup_filter_ne (k k' : κ) : ∀ l : List (κ × ν),
    lookup k' (l.filter fun e => e.1 ≠ k) = if k = k' then none else lookup k' l
  | [] => by simp [lookup]
  | (a, b) :: l => by
    by_cases ha : a = k
    · subst ha
      rw [List.filter_cons_of_neg (by simp), lookup_filter_ne]
      split_ifs with h
      · rfl
      · rw [lookup, if_neg h]
    · rw [List.filter_cons_of_pos (by simpa using ha), lookup, lookup_filter_ne]
      split_ifs with h1 h2 h2
      · exact absurd (h1.trans h2.symm) ha
      · rw [lookup, if_pos h1]
      · rfl
      · rw [lookup, if_neg h1]

/-- Filtering by keys. -/
theorem lookup_filter_key (p : κ → Bool) : ∀ (k : κ) (l : List (κ × ν)),
    lookup k (l.filter fun e => p e.1) = if p k then lookup k l else none
  | _, [] => by simp [lookup]
  | k, (a, b) :: l => by
    have ih := lookup_filter_key p k l
    by_cases ha : a = k
    · subst ha
      by_cases hp : p a = true
      · simp [hp, lookup]
      · rw [List.filter_cons_of_neg (by simpa using hp), ih]
        simp [hp]
    · by_cases hp : p a = true
      · rw [List.filter_cons_of_pos (by simpa using hp), lookup, if_neg ha, ih, lookup, if_neg ha]
      · rw [List.filter_cons_of_neg (by simpa using hp), ih, lookup, if_neg ha]

@[simp] theorem find?_erase (t : OrdTable κ ν) (k k' : κ) :
    (t.erase k).find? k' = if k = k' then none else t.find? k' := lookup_filter_ne k k' t.entries

theorem lookup_eq_none {k : κ} : ∀ {l : List (κ × ν)},
    lookup k l = none ↔ k ∉ l.map Prod.fst
  | [] => by simp [lookup]
  | (a, b) :: l => by
    rw [lookup, List.map_cons, List.mem_cons, not_or]
    split_ifs with h
    · simp [h]
    · rw [lookup_eq_none]; exact ⟨fun h' => ⟨Ne.symm h, h'⟩, fun h' => h'.2⟩

theorem find?_eq_none {t : OrdTable κ ν} {k : κ} : t.find? k = none ↔ k ∉ t.keys := lookup_eq_none

theorem mem_of_lookup {k : κ} {v : ν} : ∀ {l : List (κ × ν)}, lookup k l = some v → (k, v) ∈ l
  | [], h => by simp [lookup] at h
  | (a, b) :: l, h => by
    rw [lookup] at h
    split_ifs at h with hk
    · subst hk; cases h; exact List.mem_cons_self
    · exact List.mem_cons_of_mem _ (mem_of_lookup h)

theorem lookup_of_mem {k : κ} {v : ν} : ∀ {l : List (κ × ν)}, (l.map Prod.fst).Nodup →
    (k, v) ∈ l → lookup k l = some v
  | [], _, h => by cases h
  | (a, b) :: l, hn, h => by
    rw [List.map_cons, List.nodup_cons] at hn
    rw [lookup]
    rcases List.mem_cons.mp h with h | h
    · cases h; rw [if_pos rfl]
    · have hne : a ≠ k := by
        rintro rfl
        exact hn.1 (List.mem_map.mpr ⟨_, h, rfl⟩)
      rw [if_neg hne, lookup_of_mem hn.2 h]

/-- The entries are what the lookups find. -/
theorem find?_eq_some {t : OrdTable κ ν} {k : κ} {v : ν} :
    t.find? k = some v ↔ (k, v) ∈ t.entries :=
  ⟨mem_of_lookup, lookup_of_mem t.nodup⟩

theorem mem_keys {t : OrdTable κ ν} {k : κ} : k ∈ t.keys ↔ ∃ v, t.find? k = some v := by
  rw [← not_iff_not, ← find?_eq_none, Option.eq_none_iff_forall_ne_some]
  push Not
  rfl

theorem mem_keys_insert {t : OrdTable κ ν} {k k' : κ} {v : ν} :
    k' ∈ (t.insert k v).keys ↔ k' = k ∨ k' ∈ t.keys := mem_map_put

theorem keys_put_of_mem {k : κ} {v : ν} : ∀ {l : List (κ × ν)}, k ∈ l.map Prod.fst →
    (put k v l).map Prod.fst = l.map Prod.fst
  | [], h => by cases h
  | (a, b) :: l, h => by
    unfold put
    split_ifs with ha
    · rw [ha]; rfl
    · have hl : k ∈ l.map Prod.fst := (List.mem_cons.mp h).resolve_left (Ne.symm ha)
      rw [List.map_cons, List.map_cons, keys_put_of_mem hl]

/-- To replace a value leaves the keys where they are. -/
theorem keys_insert_of_find? {t : OrdTable κ ν} {k : κ} {v v' : ν} (h : t.find? k = some v') :
    (t.insert k v).keys = t.keys := keys_put_of_mem (mem_keys.mpr ⟨v', h⟩)

theorem ext_of_lookup : ∀ {l l' : List (κ × ν)}, (l.map Prod.fst).Nodup →
    l.map Prod.fst = l'.map Prod.fst → (∀ k, lookup k l = lookup k l') → l = l'
  | [], [], _, _, _ => rfl
  | [], _ :: _, _, hk, _ => by cases hk
  | _ :: _, [], _, hk, _ => by cases hk
  | (a, b) :: l, (a', b') :: l', hn, hk, h => by
    rw [List.map_cons, List.map_cons, List.cons.injEq] at hk
    obtain ⟨rfl, hk⟩ := hk
    rw [List.map_cons, List.nodup_cons] at hn
    have hb := h a
    rw [lookup, if_pos rfl, lookup, if_pos rfl] at hb
    have hl : l = l' := by
      refine ext_of_lookup hn.2 hk fun k => ?_
      by_cases hka : a = k
      · subst hka
        rw [lookup_eq_none.mpr hn.1, lookup_eq_none.mpr (hk ▸ hn.1)]
      · have hk' := h k
        rwa [lookup, if_neg hka, lookup, if_neg hka] at hk'
    rw [Option.some.inj hb, hl]

/-- A table is its keys, in their order, and what is found under them. -/
theorem ext_of_find? {t t' : OrdTable κ ν} (hk : t.keys = t'.keys)
    (h : ∀ k, t.find? k = t'.find? k) : t = t' := by
  obtain ⟨l, hn⟩ := t
  obtain ⟨l', hn'⟩ := t'
  have hl : l = l' := ext_of_lookup hn hk h
  subst hl
  rfl

/-- **What a loop does at a key**, from a state that every turn keeps in `P`, is what the turn of this key
does, if no other turn does anything there. -/
theorem foldl_turn_of {σ ρ : Type} {f : σ → κ × ν → σ} (P : σ → Prop) (k : κ) (seen : σ → ρ)
    (turn : ν → ρ → ρ) : ∀ {l : List (κ × ν)}, (l.map Prod.fst).Nodup →
      (∀ x ∈ l, ∀ s, P s → P (f s x) ∧ seen (f s x) = if x.1 = k then turn x.2 (seen s) else seen s) →
      ∀ s, P s → seen (l.foldl f s) = match lookup k l with
        | some v => turn v (seen s)
        | none => seen s
  | [], _, _, _, _ => rfl
  | (k', v) :: l, hn, hf, s, hs => by
    rw [List.map_cons, List.nodup_cons] at hn
    rw [List.forall_mem_cons] at hf
    obtain ⟨hkept, hturn⟩ := hf.1 s hs
    rw [List.foldl_cons, foldl_turn_of P k seen turn hn.2 hf.2 _ hkept, hturn, lookup]
    by_cases hk : k' = k
    · -- its own turn: nothing that follows is about it
      have hnone : lookup k l = none := lookup_eq_none.mpr (hk ▸ hn.1)
      rw [hnone, if_pos hk, if_pos hk]
    · rw [if_neg hk, if_neg hk]

/-- What a loop does at a key, from any state. -/
theorem foldl_turn {σ ρ : Type} {f : σ → κ × ν → σ} (k : κ) (seen : σ → ρ) (turn : ν → ρ → ρ)
    {l : List (κ × ν)} (hn : (l.map Prod.fst).Nodup)
    (hf : ∀ x ∈ l, ∀ s, seen (f s x) = if x.1 = k then turn x.2 (seen s) else seen s) (s : σ) :
    seen (l.foldl f s) = match lookup k l with
      | some v => turn v (seen s)
      | none => seen s :=
  foldl_turn_of (fun _ => True) k seen turn hn (fun x hx s _ => ⟨trivial, hf x hx s⟩) s trivial

/-- The order of the entries makes no difference to a lookup. -/
theorem lookup_reverse {l : List (κ × ν)} (hn : (l.map Prod.fst).Nodup) (k : κ) :
    lookup k l.reverse = lookup k l := by
  have hn' : (l.reverse.map Prod.fst).Nodup := by
    rw [List.map_reverse]
    exact List.nodup_reverse.mpr hn
  cases h : lookup k l with
  | none =>
    rw [lookup_eq_none, List.map_reverse, List.mem_reverse]
    exact lookup_eq_none.mp h
  | some v => exact lookup_of_mem hn' (List.mem_reverse.mpr (mem_of_lookup h))

/-! ### Tables of lists -/

/-- Append to the list under a key. -/
def push (t : OrdTable κ (List ν)) (k : κ) (v : ν) : OrdTable κ (List ν) :=
  t.insert k ((t.find? k).getD [] ++ [v])

/-- What is in the lists of a table. -/
def values (t : OrdTable κ (List ν)) : List ν := t.entries.flatMap Prod.snd

@[simp] theorem find?_push (t : OrdTable κ (List ν)) (k : κ) (v : ν) (k' : κ) :
    (t.push k v).find? k' = if k = k' then some ((t.find? k).getD [] ++ [v]) else t.find? k' :=
  find?_insert t k _ k'

theorem flatMap_put_perm {k : κ} {v : ν} : ∀ l : List (κ × List ν),
    ((put k ((lookup k l).getD [] ++ [v]) l).flatMap Prod.snd).Perm (l.flatMap Prod.snd ++ [v])
  | [] => List.Perm.refl _
  | (a, b) :: l => by
    unfold put lookup
    split_ifs with h
    · rw [List.flatMap_cons, List.flatMap_cons, Option.getD_some, List.append_assoc, List.append_assoc]
      exact List.perm_append_comm.append_left b
    · rw [List.flatMap_cons, List.flatMap_cons, List.append_assoc]
      exact (flatMap_put_perm l).append_left b

/-- Nothing is lost or doubled. -/
theorem values_push (t : OrdTable κ (List ν)) (k : κ) (v : ν) :
    (t.push k v).values.Perm (t.values ++ [v]) := flatMap_put_perm t.entries

/-- Two tables that share the entries of a third have its elements. -/
theorem values_split {t t₁ t₂ : OrdTable κ (List ν)} {p : κ → Bool}
    (h₁ : ∀ k, t₁.find? k = if p k then none else t.find? k)
    (h₂ : ∀ k, t₂.find? k = if p k then t.find? k else none) :
    (t₁.values ++ t₂.values).Perm t.values := by
  have hn : ∀ t : OrdTable κ (List ν), t.entries.Nodup := fun t => List.Nodup.of_map _ t.nodup
  have e₁ : t₁.entries.Perm (t.entries.filter fun e => !p e.1) := by
    refine (List.perm_ext_iff_of_nodup (hn t₁) ((hn t).filter _)).mpr fun ⟨k, l⟩ => ?_
    rw [List.mem_filter, ← find?_eq_some, ← find?_eq_some, h₁]
    cases p k <;> simp
  have e₂ : t₂.entries.Perm (t.entries.filter fun e => p e.1) := by
    refine (List.perm_ext_iff_of_nodup (hn t₂) ((hn t).filter _)).mpr fun ⟨k, l⟩ => ?_
    rw [List.mem_filter, ← find?_eq_some, ← find?_eq_some, h₂]
    cases p k <;> simp
  have e := (e₁.append e₂).trans (List.perm_append_comm.trans (List.filter_append_perm _ _))
  have hv := e.flatMap_right Prod.snd
  rwa [List.flatMap_append] at hv

end OrdTable

/-- The list, unless it is empty. -/
def nonempty? (l : List ν) : Option (List ν) := if l = [] then none else some l

theorem getD_nonempty? (l : List ν) : (nonempty? l).getD [] = l := by
  unfold nonempty?
  split_ifs with h
  · exact h.symm
  · rfl

theorem nonempty?_eq_some {l l' : List ν} : nonempty? l = some l' ↔ l' ≠ [] ∧ l' = l := by
  unfold nonempty?
  split_ifs with h
  · exact ⟨fun e => (by cases e), fun e => absurd (e.2.trans h) e.1⟩
  · refine ⟨fun e => ?_, fun e => congrArg some e.2.symm⟩
    cases e
    exact ⟨h, rfl⟩

theorem nonempty?_concat (l : List ν) (a : ν) : nonempty? (l ++ [a]) = some (l ++ [a]) :=
  if_neg (by simp)

theorem nonempty?_eq_none {l : List ν} : nonempty? l = none ↔ l = [] := by
  unfold nonempty?
  split_ifs with h
  · exact iff_of_true rfl h
  · exact iff_of_false (by simp) h

end Snuffleupagus.Lib.Table
