import Mathlib.Data.List.Basic

/-! # First-match evaluation of a list of rules

A rule is asked for its decision, `d r : Option δ`; the list decides as its first rule that has a
decision (`List.findSome?`). Two lists that differ by the rules outside a class `p` are compared:

* `findSome?_filter_of_none`: rules without a decision may be left out;
* `Overtakes d p l r post`: the first rule of `l` with a decision is `r`, it lies outside `p`, and
  `post` is what follows it;
* `verdict_filter_iff`: leaving the rules outside `p` out preserves the verdict exactly when a rule
  that overtakes the class has the verdict of the rest of the class. -/

namespace Snuffleupagus.Lib.FirstMatch

variable {ρ δ ν : Type} {d : ρ → Option δ} {p : ρ → Bool}

theorem findSome?_eq_none_of {l : List ρ} (h : ∀ x ∈ l, d x = none) : l.findSome? d = none :=
  List.findSome?_eq_none_iff.mpr h

/-- Rules without a decision may be left out. -/
theorem findSome?_filter_of_none {l : List ρ} (h : ∀ x ∈ l, p x = false → d x = none) :
    (l.filter p).findSome? d = l.findSome? d := by
  induction l with
  | nil => rfl
  | cons r l ih =>
    have hl := ih fun x hx => h x (List.mem_cons_of_mem r hx)
    cases hp : p r with
    | true => rw [List.filter_cons_of_pos hp, List.findSome?_cons, List.findSome?_cons, hl]
    | false =>
      rw [List.filter_cons_of_neg (by simp [hp]), List.findSome?_cons,
        h r List.mem_cons_self hp, hl]

theorem findSome?_congr {d' : ρ → Option δ} {l : List ρ} (h : ∀ x ∈ l, d x = d' x) :
    l.findSome? d = l.findSome? d' := by
  induction l with
  | nil => rfl
  | cons r l ih =>
    rw [List.findSome?_cons, List.findSome?_cons, h r List.mem_cons_self,
      ih fun x hx => h x (List.mem_cons_of_mem r hx)]

/-- The rule `r` **overtakes** the class `p` in `l`: it is the first with a decision, it lies outside
the class, and `post` follows it. -/
def Overtakes (d : ρ → Option δ) (p : ρ → Bool) (l : List ρ) (r : ρ) (post : List ρ) : Prop :=
  ∃ pre, l = pre ++ r :: post ∧ p r = false ∧ (d r).isSome ∧ ∀ x ∈ pre, d x = none

theorem findSome?_split {pre post : List ρ} {r : ρ} (hpre : ∀ x ∈ pre, d x = none)
    (hr : (d r).isSome) : (pre ++ r :: post).findSome? d = d r := by
  obtain ⟨a, ha⟩ := Option.isSome_iff_exists.mp hr
  rw [List.findSome?_append, findSome?_eq_none_of hpre, List.findSome?_cons, ha]
  rfl

/-- There is one place where a list is decided. -/
theorem split_unique : ∀ {pre pre' post post' : List ρ} {r r' : ρ},
    pre ++ r :: post = pre' ++ r' :: post' → (∀ x ∈ pre, d x = none) → (∀ x ∈ pre', d x = none) →
      (d r).isSome → (d r').isSome → r = r' ∧ post = post'
  | [], [], _, _, _, _, h, _, _, _, _ => by simpa using h
  | [], y :: pre', _, _, r, r', h, _, hpre', hr, _ => by
    obtain ⟨rfl, -⟩ := List.cons.inj h
    rw [hpre' r List.mem_cons_self] at hr
    cases hr
  | x :: pre, [], _, _, r, r', h, hpre, _, _, hr' => by
    obtain ⟨rfl, -⟩ := List.cons.inj h
    rw [hpre x List.mem_cons_self] at hr'
    cases hr'
  | x :: pre, y :: pre', _, _, r, r', h, hpre, hpre', hr, hr' =>
    split_unique (List.cons.inj h).2 (fun z hz => hpre z (List.mem_cons_of_mem x hz))
      (fun z hz => hpre' z (List.mem_cons_of_mem y hz)) hr hr'

theorem exists_split {l : List ρ} (h : l.findSome? d ≠ none) :
    ∃ pre r post, l = pre ++ r :: post ∧ (d r).isSome ∧ ∀ x ∈ pre, d x = none := by
  obtain ⟨a, ha⟩ := Option.ne_none_iff_exists'.mp h
  obtain ⟨pre, r, post, hl, hr, hpre⟩ := List.findSome?_eq_some_iff.mp ha
  exact ⟨pre, r, post, hl, by rw [hr]; rfl, hpre⟩

/-- **Leaving the rules outside the class out** preserves the verdict exactly when a rule that
overtakes the class has the verdict of the class's rules after it. -/
theorem verdict_filter_iff (v : Option δ → ν) (l : List ρ) :
    v (l.findSome? d) = v ((l.filter p).findSome? d) ↔
      ∀ r post, Overtakes d p l r post → v (d r) = v ((post.filter p).findSome? d) := by
  by_cases hn : l.findSome? d = none
  · have hnone := List.findSome?_eq_none_iff.mp hn
    have hf : (l.filter p).findSome? d = none :=
      findSome?_eq_none_of fun x hx => hnone x (List.mem_of_mem_filter hx)
    rw [hn, hf]
    refine ⟨fun _ r post ⟨pre, hl, _, hr, _⟩ => ?_, fun _ => rfl⟩
    rw [hnone r (by simp [hl])] at hr
    cases hr
  · obtain ⟨pre, r, post, hl, hr, hpre⟩ := exists_split hn
    subst hl
    rw [findSome?_split hpre hr, List.filter_append, List.findSome?_append,
      findSome?_eq_none_of fun x hx => hpre x (List.mem_of_mem_filter hx), Option.none_or]
    cases hp : p r with
    | true =>
      -- the deciding rule is in the class: nothing overtakes it
      obtain ⟨a, ha⟩ := Option.isSome_iff_exists.mp hr
      rw [List.filter_cons_of_pos hp, List.findSome?_cons, ha]
      refine ⟨fun _ r' post' ⟨pre', hl, hp', hr', hpre'⟩ => ?_, fun _ => rfl⟩
      obtain ⟨rfl, -⟩ := split_unique hl hpre hpre' hr hr'
      rw [hp] at hp'
      cases hp'
    | false =>
      rw [List.filter_cons_of_neg (by simp [hp])]
      refine ⟨fun h r' post' ⟨pre', hl, _, hr', hpre'⟩ => ?_, fun h => h r post ⟨pre, rfl, hp, hr, hpre⟩⟩
      obtain ⟨rfl, rfl⟩ := split_unique hl hpre hpre' hr hr'
      exact h

end Snuffleupagus.Lib.FirstMatch
