import Mathlib.Algebra.Field.ZMod
import Mathlib.Algebra.Polynomial.Roots
import Mathlib.Data.Int.ConditionallyCompleteOrder
import Mathlib.Data.Int.Interval
import Mathlib.Data.Int.ModEq
import Mathlib.Data.ZMod.Basic
import Mathlib.Tactic.LinearCombination

/-! # Hashing by a polynomial

The blocks of a message are the coefficients of a polynomial without constant term, and its value at the
key is the hash of the message. `hash` computes it block by block, modulo `p`.

For a prime `p` two messages have hashes that differ by `d` at no more keys than the longer one has blocks
(`card_hash_sub_eq_le`), and given tags at no more than `k` times as many (`card_tags_le`). -/

namespace Snuffleupagus.Lib.PolynomialHash

open Polynomial

/-- One more block. -/
def absorb (p r acc c : ℕ) : ℕ := (acc + c) * r % p

/-- The hash of some blocks under `r`. -/
def hash (p r : ℕ) (blocks : List ℕ) : ℕ := blocks.foldl (absorb p r) 0

variable {p r : ℕ}

/-- The blocks only see what has been computed modulo `p`. -/
theorem foldl_absorb_modEq {a b : ℕ} (h : a ≡ b [MOD p]) (blocks : List ℕ) :
    blocks.foldl (absorb p r) a ≡ blocks.foldl (absorb p r) b [MOD p] := by
  induction blocks generalizing a b with
  | nil => exact h
  | cons c blocks ih =>
    refine ih ?_
    unfold absorb
    exact (Nat.mod_modEq _ _).trans (((h.add_right c).mul_right r).trans (Nat.mod_modEq _ _).symm)

theorem hash_lt (hp : 0 < p) (blocks : List ℕ) : hash p r blocks < p := by
  unfold hash
  cases blocks using List.reverseRecOn with
  | nil => exact hp
  | append_singleton blocks c =>
    rw [List.foldl_concat]
    exact Nat.mod_lt _ hp

/-- The polynomial of a message: the last block is the coefficient of `X`. -/
noncomputable def message (p : ℕ) (blocks : List ℕ) : (ZMod p)[X] :=
  blocks.foldl (fun (f : (ZMod p)[X]) (c : ℕ) => (f + C (c : ZMod p)) * X) 0

theorem message_concat (blocks : List ℕ) (c : ℕ) :
    message p (blocks ++ [c]) = (message p blocks + C (c : ZMod p)) * X := by
  unfold message
  rw [List.foldl_concat]

theorem hash_concat (blocks : List ℕ) (c : ℕ) :
    hash p r (blocks ++ [c]) = (hash p r blocks + c) * r % p := by
  unfold hash
  rw [List.foldl_concat, absorb]

/-- **The hash is the value of the polynomial.** -/
theorem eval_message (blocks : List ℕ) :
    (message p blocks).eval (r : ZMod p) = (hash p r blocks : ZMod p) := by
  induction blocks using List.reverseRecOn with
  | nil => simp [message, hash]
  | append_singleton blocks c ih =>
    rw [message_concat, hash_concat, eval_mul, eval_add, eval_C, eval_X, ih, ZMod.natCast_mod]
    push_cast
    rfl

theorem natDegree_message_le (blocks : List ℕ) : (message p blocks).natDegree ≤ blocks.length := by
  induction blocks using List.reverseRecOn with
  | nil => simp [message]
  | append_singleton blocks c ih =>
    rw [message_concat, List.length_append, List.length_singleton]
    refine natDegree_mul_le.trans (Nat.add_le_add ?_ natDegree_X_le)
    exact (natDegree_add_C (R := ZMod p)).trans_le ih

/-- The constant term is 0. -/
theorem coeff_zero_message (blocks : List ℕ) : (message p blocks).coeff 0 = 0 := by
  cases blocks using List.reverseRecOn with
  | nil => simp [message]
  | append_singleton blocks c => rw [message_concat, mul_coeff_zero, coeff_X_zero, mul_zero]

/-! ### Different messages -/

/-- A block is not 0 modulo `p`, and determined by its residue. -/
def IsBlock (p c : ℕ) : Prop := 0 < c ∧ c < p

theorem IsBlock.cast_inj {c c' : ℕ} (h : IsBlock p c) (h' : IsBlock p c') (he : (c : ZMod p) = c') :
    c = c' :=
  Nat.ModEq.eq_of_lt_of_lt ((ZMod.natCast_eq_natCast_iff c c' p).mp he) h.2 h'.2

theorem IsBlock.cast_ne_zero {c : ℕ} (h : IsBlock p c) : (c : ZMod p) ≠ 0 := fun h0 =>
  absurd (Nat.le_of_dvd h.1 ((ZMod.natCast_eq_zero_iff c p).mp h0)) (Nat.not_le_of_lt h.2)

/-- **Messages whose polynomials differ by a constant are the same.** -/
theorem eq_of_message_sub_eq_C {blocks blocks' : List ℕ} (hb : ∀ c ∈ blocks, IsBlock p c)
    (hb' : ∀ c ∈ blocks', IsBlock p c) {d : ZMod p} (h : message p blocks - message p blocks' = C d) :
    blocks = blocks' := by
  -- without the last blocks the coefficients are one lower
  have hcoeff : ∀ (l : List ℕ) (c n : ℕ), (message p (l ++ [c])).coeff (n + 1) =
      (message p l).coeff n + (C (c : ZMod p)).coeff n := fun l c n => by
    rw [message_concat, coeff_mul_X, coeff_add]
  have hnil : ∀ (l : List ℕ) (c : ℕ), IsBlock p c → (message p (l ++ [c])).coeff 1 ≠ 0 := fun l c hc => by
    rw [hcoeff, coeff_zero_message, zero_add, coeff_C_zero]
    exact hc.cast_ne_zero
  induction blocks using List.reverseRecOn generalizing blocks' d with
  | nil =>
    cases blocks' using List.reverseRecOn with
    | nil => rfl
    | append_singleton l' c' =>
      have h1 := congrArg (coeff · 1) h
      simp only [coeff_sub, coeff_C_succ] at h1
      rw [show (message p []).coeff 1 = 0 from coeff_zero 1, zero_sub, neg_eq_zero] at h1
      exact absurd h1 (hnil l' c' (hb' c' (List.mem_append_right _ (List.mem_singleton_self c'))))
  | append_singleton l c ih =>
    have hc := hb c (List.mem_append_right _ (List.mem_singleton_self c))
    cases blocks' using List.reverseRecOn with
    | nil =>
      have h1 := congrArg (coeff · 1) h
      simp only [coeff_sub, coeff_C_succ] at h1
      rw [show (message p []).coeff 1 = 0 from coeff_zero 1, sub_zero] at h1
      exact absurd h1 (hnil l c hc)
    | append_singleton l' c' =>
      have hc' := hb' c' (List.mem_append_right _ (List.mem_singleton_self c'))
      have hrest : message p l - message p l' = C ((c' : ZMod p) - c) := by
        refine Polynomial.ext fun n => ?_
        have hn := congrArg (coeff · (n + 1)) h
        simp only [coeff_sub, hcoeff, coeff_C_succ] at hn
        rw [coeff_sub, C_sub, coeff_sub]
        linear_combination hn
      have hll := ih (fun a ha => hb a (List.mem_append_left _ ha))
        (fun a ha => hb' a (List.mem_append_left _ ha)) hrest
      subst hll
      have hcc : (c : ZMod p) = c' := by
        rw [sub_self] at hrest
        exact (sub_eq_zero.mp (C_eq_zero.mp hrest.symm)).symm
      rw [hc.cast_inj hc' hcc]

/-- The differences of two hashes that agree modulo `n` with a given one. -/
theorem card_residues_le {n k : ℕ} (hn : 0 < n) (hp : 2 * p ≤ k * n) (e : ℤ) :
    ((Finset.Ioo (-(p : ℤ)) p).filter fun x => x ≡ e [ZMOD n]).card ≤ k := by
  have hn' : (0 : ℤ) < n := by exact_mod_cast hn
  have hp' : 2 * (p : ℤ) ≤ k * n := by exact_mod_cast hp
  set a := (-(p : ℤ) - e) / n + 1 with ha
  have hfloor := Int.emod_add_mul_ediv (-(p : ℤ) - e) n
  have hmod := Int.emod_nonneg (-(p : ℤ) - e) hn'.ne'
  have hmod' := Int.emod_lt_of_pos (-(p : ℤ) - e) hn'
  calc _ ≤ ((Finset.Ico a (a + k)).image fun q => e + n * q).card := Finset.card_le_card fun x hx => ?_
    _ ≤ (Finset.Ico a (a + k)).card := Finset.card_image_le
    _ = k := by rw [Int.card_Ico, add_sub_cancel_left, Int.toNat_natCast]
  obtain ⟨hmem, hx⟩ := Finset.mem_filter.mp hx
  obtain ⟨hlow, hhigh⟩ := Finset.mem_Ioo.mp hmem
  obtain ⟨q, hq⟩ := hx.symm.dvd
  refine Finset.mem_image.mpr ⟨q, Finset.mem_Ico.mpr ⟨?_, ?_⟩, by omega⟩
  · -- `n * q` is above `- p - e`
    by_contra hlt
    have hle : q ≤ (-(p : ℤ) - e) / n := by omega
    have := Int.mul_le_mul_of_nonneg_left hle hn'.le
    omega
  · by_contra hge
    have hle : (-(p : ℤ) - e) / n + 1 + k ≤ q := by omega
    have hmul := Int.mul_le_mul_of_nonneg_left hle hn'.le
    rw [mul_add, mul_add, mul_one, mul_comm (n : ℤ) (k : ℤ)] at hmul
    omega

/-! ### Keys -/

variable [Fact p.Prime]

/-- **The keys at which two hashes differ by `d`** are the roots of a polynomial. -/
theorem card_hash_sub_eq_le {blocks blocks' : List ℕ} (hb : ∀ c ∈ blocks, IsBlock p c)
    (hb' : ∀ c ∈ blocks', IsBlock p c) (hne : blocks ≠ blocks') (d : ZMod p) {keys : Finset ℕ}
    (hkeys : ∀ r ∈ keys, r < p) :
    (keys.filter fun r => (hash p r blocks : ZMod p) - hash p r blocks' = d).card ≤
      max blocks.length blocks'.length := by
  set f := message p blocks - message p blocks' - C d with hf
  have hf0 : f ≠ 0 := fun h0 => hne (eq_of_message_sub_eq_C hb hb' (sub_eq_zero.mp h0))
  have hdeg : f.natDegree ≤ max blocks.length blocks'.length := by
    rw [hf, natDegree_sub_C]
    exact (natDegree_sub_le _ _).trans (max_le_max (natDegree_message_le _) (natDegree_message_le _))
  calc _ ≤ f.roots.toFinset.card := ?_
    _ ≤ f.natDegree := (Multiset.toFinset_card_le _).trans (card_roots' f)
    _ ≤ _ := hdeg
  refine Finset.card_le_card_of_injOn (fun r : ℕ => (r : ZMod p)) (fun r hr => ?_) fun r hr r' hr' he => ?_
  · have heq := (Finset.mem_filter.mp hr).2
    refine Multiset.mem_toFinset.mpr ((mem_roots hf0).mpr ?_)
    rw [IsRoot.def, hf, eval_sub, eval_sub, eval_C, eval_message, eval_message, heq, sub_self]
  · exact Nat.ModEq.eq_of_lt_of_lt ((ZMod.natCast_eq_natCast_iff r r' p).mp he)
      (hkeys r (Finset.mem_filter.mp hr).1) (hkeys r' (Finset.mem_filter.mp hr').1)

/-- **The keys under which two messages have given tags**, where a tag is the hash and a pad modulo `n`:
for any of the differences of the two hashes there are as many as blocks. -/
theorem card_tags_le {n k : ℕ} (hn : 0 < n) (hp : 2 * p ≤ k * n) {blocks blocks' : List ℕ}
    (hb : ∀ c ∈ blocks, IsBlock p c) (hb' : ∀ c ∈ blocks', IsBlock p c) (hne : blocks ≠ blocks') (e : ℤ)
    {keys : Finset ℕ} (hkeys : ∀ r ∈ keys, r < p) :
    (keys.filter fun r => (hash p r blocks : ℤ) - hash p r blocks' ≡ e [ZMOD n]).card ≤
      max blocks.length blocks'.length * k := by
  have hpos : 0 < p := (Fact.out : p.Prime).pos
  refine (Finset.card_le_mul_card_image_of_maps_to
    (t := (Finset.Ioo (-(p : ℤ)) p).filter fun x => x ≡ e [ZMOD n])
    (f := fun r => (hash p r blocks : ℤ) - hash p r blocks') (fun r hr => ?_) _ fun x _ => ?_).trans
    (Nat.mul_le_mul_left _ (card_residues_le hn hp e))
  · have h := hash_lt (r := r) hpos blocks
    have h' := hash_lt (r := r) hpos blocks'
    exact Finset.mem_filter.mpr ⟨Finset.mem_Ioo.mpr ⟨by omega, by omega⟩, (Finset.mem_filter.mp hr).2⟩
  · refine (Finset.card_le_card fun r hr => ?_).trans (card_hash_sub_eq_le hb hb' hne (x : ZMod p) hkeys)
    obtain ⟨hr, hx⟩ := Finset.mem_filter.mp hr
    refine Finset.mem_filter.mpr ⟨(Finset.mem_filter.mp hr).1, ?_⟩
    rw [← hx]
    push_cast
    rfl

end Snuffleupagus.Lib.PolynomialHash
