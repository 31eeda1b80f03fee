import Mathlib.Algebra.BigOperators.Intervals
import Mathlib.Algebra.BigOperators.Ring.Finset
import Mathlib.Algebra.BigOperators.ModEq
import Mathlib.Algebra.Order.BigOperators.Group.Finset
import Mathlib.Data.List.GetD
import Mathlib.Data.Nat.Digits.Lemmas
import Mathlib.Tactic.Ring

/-! # Numbers as digits, least significant first

The digits of `Nat.ofDigits` may be larger than the base here: sums and products are taken digit by digit
and put in order afterwards.

* `carry` is one pass over the digits that puts them in order; `ofDigits_carry` says that no value is lost;
* `wrapped` is a product of numbers of `n` digits in `n` digits, where what is behind the last one comes
  back at the first, `k` times: `sum_wrapped` says that this is the product modulo every `m` for which
  `k` is `b ^ n`;
* `littleEndian` is the number of some bytes, and `bytes` are those of a number. -/

namespace Snuffleupagus.Lib.Radix

variable {b : ℕ}

/-! ### Carries -/

/-- Put the digits in order: each keeps its remainder, the quotient goes to the next one. -/
def carry (b : ℕ) : List ℕ → ℕ → List ℕ × ℕ
  | [], u => ([], u)
  | x :: l, u => ((u + x) % b :: (carry b l ((u + x) / b)).1, (carry b l ((u + x) / b)).2)

@[simp] theorem length_carry (l : List ℕ) (u : ℕ) : (carry b l u).1.length = l.length := by
  induction l generalizing u with
  | nil => rfl
  | cons x l ih => rw [carry, List.length_cons, List.length_cons, ih]

theorem carry_lt (hb : 0 < b) {l : List ℕ} {u : ℕ} : ∀ d ∈ (carry b l u).1, d < b := by
  induction l generalizing u with
  | nil => exact List.forall_mem_nil _
  | cons x l ih => exact List.forall_mem_cons.mpr ⟨Nat.mod_lt _ hb, ih⟩

/-- **No value is lost.** -/
theorem ofDigits_carry (l : List ℕ) (u : ℕ) :
    Nat.ofDigits b (carry b l u).1 + b ^ l.length * (carry b l u).2 = Nat.ofDigits b l + u := by
  induction l generalizing u with
  | nil => simp [carry]
  | cons x l ih =>
    have hx := Nat.mod_add_div (u + x) b
    rw [carry, Nat.ofDigits_cons, Nat.ofDigits_cons, List.length_cons, pow_succ]
    calc (u + x) % b + b * Nat.ofDigits b (carry b l ((u + x) / b)).1 +
          b ^ l.length * b * (carry b l ((u + x) / b)).2
        = (u + x) % b + b * (Nat.ofDigits b (carry b l ((u + x) / b)).1 +
            b ^ l.length * (carry b l ((u + x) / b)).2) := by ring
      _ = (u + x) % b + b * ((u + x) / b) + b * Nat.ofDigits b l := by rw [ih]; ring
      _ = x + b * Nat.ofDigits b l + u := by rw [hx]; ring

/-- What is carried on does not grow while the digits do not. -/
theorem carry_le (hb : 0 < b) {c : ℕ} {l : List ℕ} (hl : ∀ x ∈ l, x ≤ c * (b - 1)) {u : ℕ} (hu : u ≤ c) :
    (carry b l u).2 ≤ c := by
  induction l generalizing u with
  | nil => exact hu
  | cons x l ih =>
    obtain ⟨hx, hl⟩ := List.forall_mem_cons.mp hl
    refine ih hl (Nat.div_le_of_le_mul ?_)
    calc u + x ≤ c + c * (b - 1) := Nat.add_le_add hu hx
      _ = b * c := by obtain ⟨b, rfl⟩ := Nat.exists_eq_succ_of_ne_zero hb.ne'; simp; ring

/-- Digits in order are the remainder, and what is carried out of them the quotient. -/
theorem carry_eq (hb : 1 < b) (l : List ℕ) (u : ℕ) :
    Nat.ofDigits b (carry b l u).1 = (Nat.ofDigits b l + u) % b ^ l.length ∧
      (carry b l u).2 = (Nat.ofDigits b l + u) / b ^ l.length := by
  have hlt : Nat.ofDigits b (carry b l u).1 < b ^ l.length := by
    have h := Nat.ofDigits_lt_base_pow_length hb (carry_lt (Nat.lt_of_succ_lt hb) (l := l) (u := u))
    rwa [length_carry] at h
  rw [← ofDigits_carry]
  exact ⟨by rw [Nat.add_mul_mod_self_left, Nat.mod_eq_of_lt hlt],
    by rw [Nat.add_mul_div_left _ _ (Nat.pos_of_ne_zero (by positivity)), Nat.div_eq_of_lt hlt, Nat.zero_add]⟩

/-! ### Digits of functions -/

/-- The value of the first `n` digits of `f`. -/
def value (b : ℕ) (f : ℕ → ℕ) (n : ℕ) : ℕ := ∑ i ∈ Finset.range n, f i * b ^ i

theorem ofDigits_eq_value (l : List ℕ) : Nat.ofDigits b l = value b (fun i => l.getD i 0) l.length := by
  induction l with
  | nil => rfl
  | cons x l ih =>
    unfold value at ih ⊢
    rw [Nat.ofDigits_cons, ih, List.length_cons, Finset.sum_range_succ', Finset.mul_sum]
    simp only [List.getD_cons_succ, List.getD_cons_zero, pow_zero, mul_one, pow_succ]
    rw [add_comm]
    exact congrArg (· + x) (Finset.sum_congr rfl fun i _ => by ring)

theorem ofDigits_map_range (f : ℕ → ℕ) (n : ℕ) : Nat.ofDigits b ((List.range n).map f) = value b f n := by
  rw [ofDigits_eq_value, List.length_map, List.length_range]
  refine Finset.sum_congr rfl fun i hi => ?_
  have hi := Finset.mem_range.mp hi
  dsimp only
  rw [List.getD_eq_getElem _ _ (by simpa using hi), List.getElem_map, List.getElem_range]

/-! ### Products -/

/-- Digit `i` of the product, with the digits from `n` on put back `k` times at the front. -/
def wrapped (k : ℕ) (h r : ℕ → ℕ) (n i : ℕ) : ℕ :=
  ∑ j ∈ Finset.range n, h j * if j ≤ i then r (i - j) else k * r (i + n - j)

/-- One digit of the first factor: the second one, moved up by `j` digits. -/
theorem sum_shifted {k n m j : ℕ} {r : ℕ → ℕ} (hk : k ≡ b ^ n [MOD m]) (hj : j ≤ n) :
    ∑ i ∈ Finset.range n, (if j ≤ i then r (i - j) else k * r (i + n - j)) * b ^ i ≡
      b ^ j * value b r n [MOD m] := by
  have hlow : ∑ i ∈ Finset.range j, (if j ≤ i then r (i - j) else k * r (i + n - j)) * b ^ i =
      k * ∑ i ∈ Finset.range j, r (n - j + i) * b ^ i := by
    rw [Finset.mul_sum]
    refine Finset.sum_congr rfl fun i hi => ?_
    have hi := Finset.mem_range.mp hi
    rw [if_neg (by omega), show i + n - j = n - j + i by omega, mul_assoc]
  have hhigh : ∑ i ∈ Finset.range (n - j),
        (if j ≤ j + i then r (j + i - j) else k * r (j + i + n - j)) * b ^ (j + i) =
      b ^ j * ∑ i ∈ Finset.range (n - j), r i * b ^ i := by
    rw [Finset.mul_sum]
    refine Finset.sum_congr rfl fun i _ => ?_
    rw [if_pos (by omega), show j + i - j = i by omega]
    ring
  have hvalue : b ^ j * value b r n = b ^ j * ∑ i ∈ Finset.range (n - j), r i * b ^ i +
      b ^ n * ∑ i ∈ Finset.range j, r (n - j + i) * b ^ i := by
    unfold value
    rw [← Nat.sub_add_cancel hj, Finset.sum_range_add, Nat.sub_add_cancel hj, mul_add, Finset.mul_sum
      (Finset.range j), Finset.mul_sum (Finset.range j)]
    refine congrArg₂ _ rfl (Finset.sum_congr rfl fun i _ => ?_)
    calc b ^ j * (r (n - j + i) * b ^ (n - j + i)) = b ^ (j + (n - j)) * (r (n - j + i) * b ^ i) := by ring
      _ = b ^ n * (r (n - j + i) * b ^ i) := by rw [Nat.add_sub_cancel' hj]
  have hsplit : n = j + (n - j) := by omega
  conv_lhs => rw [hsplit]
  rw [Finset.sum_range_add, ← hsplit, hlow, hhigh, hvalue, add_comm]
  exact Nat.ModEq.add_left _ (hk.mul_right _)

/-- **The product.** -/
theorem sum_wrapped {k n m : ℕ} {h r : ℕ → ℕ} (hk : k ≡ b ^ n [MOD m]) :
    value b (wrapped k h r n) n ≡ value b h n * value b r n [MOD m] := by
  have hswap : value b (wrapped k h r n) n = ∑ j ∈ Finset.range n, h j *
      ∑ i ∈ Finset.range n, (if j ≤ i then r (i - j) else k * r (i + n - j)) * b ^ i := by
    unfold value wrapped
    simp only [Finset.sum_mul, Finset.mul_sum]
    rw [Finset.sum_comm]
    exact Finset.sum_congr rfl fun j _ => Finset.sum_congr rfl fun i _ => by ring
  have hprod : value b h n * value b r n = ∑ j ∈ Finset.range n, h j * (b ^ j * value b r n) := by
    unfold value
    rw [Finset.sum_mul]
    exact Finset.sum_congr rfl fun j _ => by ring
  rw [hswap, hprod]
  refine Nat.ModEq.sum fun j hj => ?_
  exact (sum_shifted hk (Finset.mem_range.mp hj).le).mul_left _

/-! ### Bytes -/

/-- The number of some bytes, least significant first. -/
def littleEndian (l : List UInt8) : ℕ := Nat.ofDigits 256 (l.map UInt8.toNat)

theorem littleEndian_cons (c : UInt8) (l : List UInt8) :
    littleEndian (c :: l) = c.toNat + 256 * littleEndian l := by
  unfold littleEndian
  rw [List.map_cons, Nat.ofDigits_cons]

theorem littleEndian_append (l l' : List UInt8) :
    littleEndian (l ++ l') = littleEndian l + 256 ^ l.length * littleEndian l' := by
  unfold littleEndian
  rw [List.map_append, Nat.ofDigits_append, List.length_map]

theorem littleEndian_lt (l : List UInt8) : littleEndian l < 256 ^ l.length := by
  have h := Nat.ofDigits_lt_base_pow_length (b := 256) (l := l.map UInt8.toNat) (by decide)
    (List.forall_mem_map.mpr fun c _ => c.toNat_lt)
  rwa [List.length_map] at h

/-- Strings of one length with the same number are the same. -/
theorem littleEndian_inj {l l' : List UInt8} (hl : l.length = l'.length)
    (h : littleEndian l = littleEndian l') : l = l' := by
  induction l generalizing l' with
  | nil => exact (List.length_eq_zero_iff.mp hl.symm).symm
  | cons c l ih =>
    cases l' with
    | nil => cases hl
    | cons c' l' =>
      rw [littleEndian_cons, littleEndian_cons] at h
      have hc := c.toNat_lt
      have hc' := c'.toNat_lt
      rw [UInt8.toNat_inj.mp (show c.toNat = c'.toNat by omega), ih (Nat.succ.inj hl) (by omega)]

/-- Masking byte by byte. -/
theorem littleEndian_zipWith_and {l l' : List UInt8} (hl : l.length = l'.length) :
    littleEndian (List.zipWith (· &&& ·) l l') = littleEndian l &&& littleEndian l' := by
  induction l generalizing l' with
  | nil => rw [List.zipWith_nil_left]; exact (Nat.zero_and _).symm
  | cons c l ih =>
    cases l' with
    | nil => cases hl
    | cons c' l' =>
      have hc := c.toNat_lt
      have hc' := c'.toNat_lt
      have hmod := Nat.and_mod_two_pow (a := c.toNat + 256 * littleEndian l)
        (b := c'.toNat + 256 * littleEndian l') (n := 8)
      have hdiv := Nat.and_div_two_pow (a := c.toNat + 256 * littleEndian l)
        (b := c'.toNat + 256 * littleEndian l') (n := 8)
      rw [show (c.toNat + 256 * littleEndian l) % 2 ^ 8 = c.toNat by omega,
        show (c'.toNat + 256 * littleEndian l') % 2 ^ 8 = c'.toNat by omega] at hmod
      rw [show (c.toNat + 256 * littleEndian l) / 2 ^ 8 = littleEndian l by omega,
        show (c'.toNat + 256 * littleEndian l') / 2 ^ 8 = littleEndian l' by omega] at hdiv
      rw [List.zipWith_cons_cons, littleEndian_cons, littleEndian_cons, littleEndian_cons,
        ih (Nat.succ.inj hl), UInt8.toNat_and, ← hmod, ← hdiv]
      exact Nat.mod_add_div _ 256

/-- The first `n` bytes of a number. -/
def bytes : ℕ → ℕ → List UInt8
  | 0, _ => []
  | n + 1, x => UInt8.ofNat x :: bytes n (x / 256)

@[simp] theorem length_bytes (n x : ℕ) : (bytes n x).length = n := by
  induction n generalizing x with
  | zero => rfl
  | succ n ih => rw [bytes, List.length_cons, ih]

theorem littleEndian_bytes (n x : ℕ) : littleEndian (bytes n x) = x % 256 ^ n := by
  induction n generalizing x with
  | zero => rw [pow_zero, Nat.mod_one]; rfl
  | succ n ih =>
    rw [bytes, littleEndian_cons, ih, UInt8.toNat_ofNat', pow_succ' 256 n]
    exact Nat.mod_mul.symm

end Snuffleupagus.Lib.Radix
