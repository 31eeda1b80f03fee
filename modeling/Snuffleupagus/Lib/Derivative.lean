import Mathlib.Computability.Language

/-! # Regular expressions over classes of characters

The words of an expression are a `Language` of Mathlib; `deriv c r` are the words of `r` behind a first
character `c`. Every class has a member, so that `canMove` tells from the expression alone whether there
is a word that is not empty. -/

namespace Snuffleupagus.Lib.Derivative

open Computability

/-- A class of characters, with one of its members. -/
structure Class (α : Type) where
  mem : α → Bool
  witness : α
  mem_witness : mem witness = true

/-- The class of one character. -/
def Class.single {α : Type} [DecidableEq α] (c : α) : Class α where
  mem x := x = c
  witness := c
  mem_witness := decide_eq_true rfl

/-- Regular expressions. -/
inductive Regex (α : Type)
  | empty
  | eps
  | cls (k : Class α)
  | seq (r s : Regex α)
  | alt (r s : Regex α)
  | star (r : Regex α)

namespace Regex

variable {α : Type}

/-- `r+`. -/
def plus (r : Regex α) : Regex α := .seq r (.star r)

/-- `r?`. -/
def opt (r : Regex α) : Regex α := .alt r .eps

/-- A single word. -/
def word [DecidableEq α] : List α → Regex α
  | [] => .eps
  | c :: w => .seq (.cls (.single c)) (word w)

/-- The words of an expression. -/
def language : Regex α → Language α
  | .empty => 0
  | .eps => 1
  | .cls k => { w | ∃ c, k.mem c = true ∧ w = [c] }
  | .seq r s => r.language * s.language
  | .alt r s => r.language + s.language
  | .star r => r.language∗

/-- The empty word is one of them. -/
def nullable : Regex α → Bool
  | .empty | .cls _ => false
  | .eps | .star _ => true
  | .seq r s => r.nullable && s.nullable
  | .alt r s => r.nullable || s.nullable

/-- There is a word. -/
def inhabited : Regex α → Bool
  | .empty => false
  | .eps | .cls _ | .star _ => true
  | .seq r s => r.inhabited && s.inhabited
  | .alt r s => r.inhabited || s.inhabited

/-- There is a word that is not empty. -/
def canMove : Regex α → Bool
  | .empty | .eps => false
  | .cls _ => true
  | .seq r s => (r.canMove && s.inhabited) || (r.inhabited && s.canMove)
  | .alt r s => r.canMove || s.canMove
  | .star r => r.canMove

/-- `seq`, without expressions that have no word or only the empty one. -/
def mkSeq : Regex α → Regex α → Regex α
  | .empty, _ => .empty
  | .eps, s => s
  | r, s => .seq r s

/-- `alt`, without expressions that have no word. -/
def mkAlt : Regex α → Regex α → Regex α
  | .empty, s => s
  | r, .empty => r
  | r, s => .alt r s

/-- No class of the expression has the character. -/
def avoids (c : α) : Regex α → Bool
  | .empty | .eps => true
  | .cls k => !k.mem c
  | .seq r s | .alt r s => r.avoids c && s.avoids c
  | .star r => r.avoids c

/-- The derivative. -/
def deriv (c : α) : Regex α → Regex α
  | .empty | .eps => .empty
  | .cls k => if k.mem c then .eps else .empty
  | .seq r s =>
    if r.nullable then mkAlt (mkSeq (r.deriv c) s) (s.deriv c) else mkSeq (r.deriv c) s
  | .alt r s => mkAlt (r.deriv c) (s.deriv c)
  | .star r => mkSeq (r.deriv c) (.star r)

/-! ### Words -/

variable {r s : Regex α} {c : α} {w : List α}

@[simp] theorem mem_empty : w ∉ (empty : Regex α).language := Language.notMem_zero w

@[simp] theorem mem_eps : w ∈ (eps : Regex α).language ↔ w = [] := Language.mem_one w

@[simp] theorem mem_cls {k : Class α} : w ∈ (cls k).language ↔ ∃ c, k.mem c = true ∧ w = [c] := Iff.rfl

theorem mem_seq : w ∈ (seq r s).language ↔ ∃ u ∈ r.language, ∃ v ∈ s.language, u ++ v = w :=
  Language.mem_mul

@[simp] theorem mem_alt : w ∈ (alt r s).language ↔ w ∈ r.language ∨ w ∈ s.language :=
  Language.mem_add _ _ w

@[simp] theorem mem_opt : w ∈ (opt r).language ↔ w ∈ r.language ∨ w = [] := by
  rw [opt, mem_alt, mem_eps]

@[simp] theorem mem_word [DecidableEq α] {u : List α} : w ∈ (word u).language ↔ w = u := by
  induction u generalizing w with
  | nil => exact mem_eps
  | cons c u ih =>
    rw [word, mem_seq]
    constructor
    · rintro ⟨_, ⟨d, hd, rfl⟩, v, hv, rfl⟩
      rw [ih.mp hv, of_decide_eq_true hd]
      rfl
    · rintro rfl
      exact ⟨[c], ⟨c, decide_eq_true rfl, rfl⟩, u, ih.mpr rfl, rfl⟩

theorem cons_mem_cls {k : Class α} : c :: w ∈ (cls k).language ↔ k.mem c = true ∧ w = [] := by
  rw [mem_cls]
  constructor
  · rintro ⟨d, hd, h⟩
    obtain ⟨rfl, rfl⟩ := List.cons_eq_cons.mp h
    exact ⟨hd, rfl⟩
  · rintro ⟨hc, rfl⟩
    exact ⟨c, hc, rfl⟩

theorem cons_mem_seq : c :: w ∈ (seq r s).language ↔
    (∃ u v, c :: u ∈ r.language ∧ v ∈ s.language ∧ u ++ v = w) ∨
      ([] ∈ r.language ∧ c :: w ∈ s.language) := by
  rw [mem_seq]
  constructor
  · rintro ⟨u, hu, v, hv, h⟩
    cases u with
    | nil => exact Or.inr ⟨hu, h ▸ hv⟩
    | cons d u =>
      obtain ⟨rfl, rfl⟩ := List.cons_eq_cons.mp h
      exact Or.inl ⟨u, v, hu, hv, rfl⟩
  · rintro (⟨u, v, hu, hv, rfl⟩ | ⟨hn, hw⟩)
    · exact ⟨c :: u, hu, v, hv, rfl⟩
    · exact ⟨[], hn, c :: w, hw, rfl⟩

theorem nil_mem_star : [] ∈ (star r).language := Language.nil_mem_kstar _

theorem cons_mem_star : c :: w ∈ (star r).language ↔
    ∃ u v, c :: u ∈ r.language ∧ v ∈ (star r).language ∧ u ++ v = w := by
  constructor
  · intro h
    obtain ⟨l, hl, hmem⟩ := Language.mem_kstar_iff_exists_nonempty.mp (show c :: w ∈ r.language∗ from h)
    cases l with
    | nil => cases hl
    | cons u l =>
      obtain ⟨hu, hne⟩ := hmem u (List.mem_cons_self ..)
      cases u with
      | nil => exact absurd rfl hne
      | cons d u =>
        obtain ⟨rfl, rfl⟩ := List.cons_eq_cons.mp hl
        exact ⟨u, l.flatten, hu, Language.mem_kstar.mpr ⟨l, rfl, fun y hy =>
          (hmem y (List.mem_cons_of_mem _ hy)).1⟩, rfl⟩
  · rintro ⟨u, v, hu, hv, rfl⟩
    obtain ⟨l, rfl, hmem⟩ := Language.mem_kstar.mp (show v ∈ r.language∗ from hv)
    exact Language.mem_kstar.mpr ⟨(c :: u) :: l, rfl, List.forall_mem_cons.mpr ⟨hu, hmem⟩⟩

/-- The words over a class. -/
@[simp] theorem mem_star_cls {k : Class α} : w ∈ (star (cls k)).language ↔ ∀ c ∈ w, k.mem c = true := by
  induction w with
  | nil => exact iff_of_true nil_mem_star fun _ h => by cases h
  | cons c w ih =>
    rw [cons_mem_star, List.forall_mem_cons]
    constructor
    · rintro ⟨u, v, hu, hv, rfl⟩
      obtain ⟨hc, rfl⟩ := cons_mem_cls.mp hu
      exact ⟨hc, ih.mp hv⟩
    · rintro ⟨hc, hw⟩
      exact ⟨[], w, cons_mem_cls.mpr ⟨hc, rfl⟩, ih.mpr hw, rfl⟩

@[simp] theorem mem_plus_cls {k : Class α} :
    w ∈ (plus (cls k)).language ↔ w ≠ [] ∧ ∀ c ∈ w, k.mem c = true := by
  rw [plus, mem_seq]
  constructor
  · rintro ⟨_, ⟨c, hc, rfl⟩, v, hv, rfl⟩
    exact ⟨List.cons_ne_nil _ _, List.forall_mem_cons.mpr ⟨hc, mem_star_cls.mp hv⟩⟩
  · rintro ⟨hne, hw⟩
    cases w with
    | nil => exact absurd rfl hne
    | cons c w =>
      obtain ⟨hc, hw⟩ := List.forall_mem_cons.mp hw
      exact ⟨[c], ⟨c, hc, rfl⟩, w, mem_star_cls.mpr hw, rfl⟩

/-! ### What the expression tells of its words -/

theorem nullable_iff : r.nullable = true ↔ [] ∈ r.language := by
  induction r with
  | empty => exact iff_of_false Bool.false_ne_true mem_empty
  | eps => exact iff_of_true rfl (mem_eps.mpr rfl)
  | cls k => exact iff_of_false Bool.false_ne_true fun ⟨_, _, h⟩ => by cases h
  | seq r s ihr ihs =>
    rw [nullable, Bool.and_eq_true, ihr, ihs, mem_seq]
    constructor
    · rintro ⟨hr, hs⟩
      exact ⟨[], hr, [], hs, rfl⟩
    · rintro ⟨u, hu, v, hv, h⟩
      obtain ⟨rfl, rfl⟩ := List.append_eq_nil_iff.mp h
      exact ⟨hu, hv⟩
  | alt r s ihr ihs => rw [nullable, Bool.or_eq_true, ihr, ihs, mem_alt]
  | star r => exact iff_of_true rfl nil_mem_star

theorem inhabited_iff : r.inhabited = true ↔ ∃ w, w ∈ r.language := by
  induction r with
  | empty => exact iff_of_false Bool.false_ne_true fun ⟨_, h⟩ => mem_empty h
  | eps => exact iff_of_true rfl ⟨[], mem_eps.mpr rfl⟩
  | cls k => exact iff_of_true rfl ⟨_, k.witness, k.mem_witness, rfl⟩
  | seq r s ihr ihs =>
    rw [inhabited, Bool.and_eq_true, ihr, ihs]
    constructor
    · rintro ⟨⟨u, hu⟩, v, hv⟩
      exact ⟨u ++ v, mem_seq.mpr ⟨u, hu, v, hv, rfl⟩⟩
    · rintro ⟨w, hw⟩
      obtain ⟨u, hu, v, hv, -⟩ := mem_seq.mp hw
      exact ⟨⟨u, hu⟩, v, hv⟩
  | alt r s ihr ihs =>
    rw [inhabited, Bool.or_eq_true, ihr, ihs, ← exists_or]
    exact exists_congr fun w => mem_alt.symm
  | star r => exact iff_of_true rfl ⟨[], nil_mem_star⟩

theorem canMove_iff : r.canMove = true ↔ ∃ w ∈ r.language, w ≠ [] := by
  induction r with
  | empty => exact iff_of_false Bool.false_ne_true fun ⟨_, h, _⟩ => mem_empty h
  | eps => exact iff_of_false Bool.false_ne_true fun ⟨_, h, hne⟩ => hne (mem_eps.mp h)
  | cls k => exact iff_of_true rfl ⟨_, ⟨k.witness, k.mem_witness, rfl⟩, List.cons_ne_nil _ _⟩
  | seq r s ihr ihs =>
    rw [canMove, Bool.or_eq_true, Bool.and_eq_true, Bool.and_eq_true, ihr, ihs, inhabited_iff, inhabited_iff]
    constructor
    · rintro (⟨⟨u, hu, hne⟩, v, hv⟩ | ⟨⟨u, hu⟩, v, hv, hne⟩)
      · exact ⟨u ++ v, mem_seq.mpr ⟨u, hu, v, hv, rfl⟩, List.append_ne_nil_of_left_ne_nil hne v⟩
      · exact ⟨u ++ v, mem_seq.mpr ⟨u, hu, v, hv, rfl⟩, List.append_ne_nil_of_right_ne_nil u hne⟩
    · rintro ⟨w, hw, hne⟩
      obtain ⟨u, hu, v, hv, rfl⟩ := mem_seq.mp hw
      cases u with
      | nil => exact Or.inr ⟨⟨[], hu⟩, v, hv, hne⟩
      | cons c u => exact Or.inl ⟨⟨c :: u, hu, List.cons_ne_nil _ _⟩, v, hv⟩
  | alt r s ihr ihs =>
    rw [canMove, Bool.or_eq_true, ihr, ihs, ← exists_or]
    exact exists_congr fun w => by rw [mem_alt, or_and_right]
  | star r ih =>
    rw [canMove, ih]
    constructor
    · rintro ⟨w, hw, hne⟩
      cases w with
      | nil => exact absurd rfl hne
      | cons c w => exact ⟨c :: w, cons_mem_star.mpr ⟨w, [], hw, nil_mem_star, List.append_nil w⟩, hne⟩
    · rintro ⟨w, hw, hne⟩
      cases w with
      | nil => exact absurd rfl hne
      | cons c w =>
        obtain ⟨u, v, hu, -, -⟩ := cons_mem_star.mp hw
        exact ⟨c :: u, hu, List.cons_ne_nil _ _⟩

/-- A character no class has is in no word. -/
theorem notMem_of_avoids (h : r.avoids c = true) : ∀ w ∈ r.language, c ∉ w := by
  induction r with
  | empty => exact fun w hw => absurd hw mem_empty
  | eps => exact fun w hw => by rw [mem_eps.mp hw]; exact List.not_mem_nil
  | cls k =>
    rintro _ ⟨d, hd, rfl⟩ hc
    rw [List.mem_singleton] at hc
    subst hc
    simp [avoids, hd] at h
  | seq r s ihr ihs =>
    obtain ⟨hr, hs⟩ := Bool.and_eq_true_iff.mp h
    intro w hw
    obtain ⟨u, hu, v, hv, rfl⟩ := mem_seq.mp hw
    exact fun hc => (List.mem_append.mp hc).elim (ihr hr u hu) (ihs hs v hv)
  | alt r s ihr ihs =>
    obtain ⟨hr, hs⟩ := Bool.and_eq_true_iff.mp h
    exact fun w hw => (mem_alt.mp hw).elim (ihr hr w) (ihs hs w)
  | star r ih =>
    intro w hw
    obtain ⟨l, rfl, hl⟩ := Language.mem_kstar.mp (show w ∈ r.language∗ from hw)
    rintro hc
    obtain ⟨u, hu, hc⟩ := List.mem_flatten.mp hc
    exact ih h u (hl u hu) hc

@[simp] theorem mem_mkSeq : w ∈ (mkSeq r s).language ↔ w ∈ (seq r s).language := by
  unfold mkSeq
  split
  · refine iff_of_false mem_empty fun h => ?_
    obtain ⟨u, hu, -⟩ := mem_seq.mp h
    exact mem_empty hu
  · rw [mem_seq]
    constructor
    · exact fun h => ⟨[], mem_eps.mpr rfl, w, h, rfl⟩
    · rintro ⟨u, hu, v, hv, rfl⟩
      rw [mem_eps.mp hu]
      exact hv
  · exact Iff.rfl

@[simp] theorem mem_mkAlt : w ∈ (mkAlt r s).language ↔ w ∈ r.language ∨ w ∈ s.language := by
  unfold mkAlt
  split
  · exact (or_iff_right mem_empty).symm
  · exact (or_iff_left mem_empty).symm
  · exact mem_alt

/-- **The words of the derivative.** -/
theorem mem_deriv : w ∈ (r.deriv c).language ↔ c :: w ∈ r.language := by
  induction r generalizing w with
  | empty => exact iff_of_false mem_empty mem_empty
  | eps => exact iff_of_false mem_empty fun h => by cases mem_eps.mp h
  | cls k =>
    rw [deriv, cons_mem_cls]
    split_ifs with h
    · rw [mem_eps, and_iff_right h]
    · exact iff_of_false mem_empty fun hc => h hc.1
  | seq r s ihr ihs =>
    have hleft : w ∈ (mkSeq (r.deriv c) s).language ↔
        ∃ u v, c :: u ∈ r.language ∧ v ∈ s.language ∧ u ++ v = w := by
      rw [mem_mkSeq, mem_seq]
      constructor
      · rintro ⟨u, hu, v, hv, h⟩
        exact ⟨u, v, ihr.mp hu, hv, h⟩
      · rintro ⟨u, v, hu, hv, h⟩
        exact ⟨u, ihr.mpr hu, v, hv, h⟩
    rw [deriv, cons_mem_seq, ← nullable_iff, ← hleft]
    split_ifs with h
    · rw [mem_mkAlt, ihs, and_iff_right h]
    · exact (or_iff_left fun hn => h hn.1).symm
  | alt r s ihr ihs => rw [deriv, mem_mkAlt, mem_alt, ihr, ihs]
  | star r ih =>
    rw [deriv, mem_mkSeq, mem_seq, cons_mem_star]
    constructor
    · rintro ⟨u, hu, v, hv, h⟩
      exact ⟨u, v, ih.mp hu, hv, h⟩
    · rintro ⟨u, v, hu, hv, h⟩
      exact ⟨u, ih.mpr hu, v, hv, h⟩

end Regex

end Snuffleupagus.Lib.Derivative
