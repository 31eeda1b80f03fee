import Mathlib.Data.List.Basic

/-! # Strings authenticated by a tag at their end

A string `s` is *stamped* by appending its tag, `s ++ tag s`, all tags having `n` symbols. A received
string is split `n` symbols before its end into `body` and `tagPart`, and is *authentic* if it is
long enough and the last part is the tag of the first.

* `authentic_iff_stamped`: the authentic strings are exactly the stamped ones;
* `body_stamp`: the receiver recovers exactly what was stamped. -/

namespace Snuffleupagus.Lib.SuffixTag

variable {β : Type} {n : ℕ} {tag : List β → List β}

/-- The string followed by its tag. -/
def stamp (tag : List β → List β) (s : List β) : List β := s ++ tag s

/-- All but the last `n` symbols. -/
def body (n : ℕ) (m : List β) : List β := m.take (m.length - n)

/-- The last `n` symbols. -/
def tagPart (n : ℕ) (m : List β) : List β := m.drop (m.length - n)

/-- **The string is authentic**: its last `n` symbols are the tag of all those before them. -/
def Authentic (n : ℕ) (tag : List β → List β) (m : List β) : Prop :=
  n ≤ m.length ∧ tagPart n m = tag (body n m)

instance [DecidableEq β] (m : List β) : Decidable (Authentic n tag m) := by
  unfold Authentic; infer_instance

theorem body_append_tagPart (m : List β) : body n m ++ tagPart n m = m := List.take_append_drop _ _

theorem length_tagPart {m : List β} (h : n ≤ m.length) : (tagPart n m).length = n := by
  unfold tagPart; rw [List.length_drop]; omega

/-- A string shorter than a tag is not authentic. -/
theorem not_authentic_of_short {m : List β} (h : m.length < n) : ¬ Authentic n tag m := by
  rintro ⟨hn, -⟩; omega

section Length
variable (hlen : ∀ s, (tag s).length = n)
include hlen

theorem body_stamp (s : List β) : body n (stamp tag s) = s := by
  unfold body stamp
  rw [List.length_append, hlen, Nat.add_sub_cancel, List.take_left]

theorem tagPart_stamp (s : List β) : tagPart n (stamp tag s) = tag s := by
  unfold tagPart stamp
  rw [List.length_append, hlen, Nat.add_sub_cancel, List.drop_left]

theorem le_length_stamp (s : List β) : n ≤ (stamp tag s).length := by
  unfold stamp; rw [List.length_append, hlen]; omega

theorem authentic_stamp (s : List β) : Authentic n tag (stamp tag s) :=
  ⟨le_length_stamp hlen s, by rw [tagPart_stamp hlen, body_stamp hlen]⟩

/-- **The authentic strings are the stamped ones.** -/
theorem authentic_iff_stamped {m : List β} : Authentic n tag m ↔ ∃ s, m = stamp tag s := by
  constructor
  · rintro ⟨-, ht⟩
    refine ⟨body n m, ?_⟩
    rw [stamp, ← ht, body_append_tagPart]
  · rintro ⟨s, rfl⟩; exact authentic_stamp hlen s

end Length

end Snuffleupagus.Lib.SuffixTag
