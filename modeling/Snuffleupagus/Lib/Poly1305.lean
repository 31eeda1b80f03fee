import Mathlib.Data.Nat.Digits.Lemmas
import Mathlib.Data.Nat.Size
import Mathlib.Data.Set.Card
import Mathlib.NumberTheory.LucasPrimality
import Mathlib.Tactic.NormNum.Prime
import Mathlib.Tactic.ReduceModChar
import Snuffleupagus.Lib.PolynomialHash
import Snuffleupagus.Lib.Radix

/-! # Poly1305

The message is cut into blocks of 16 bytes, read as numbers with a 1 behind the last byte, and hashed by a
polynomial modulo `2 ^ 130 - 5` at the first half of the key, of which 22 bits are masked out. The tag is
the hash and the second half of the key, modulo `2 ^ 128`.

* `prime_prime`: the modulus is a prime;
* `ncard_keys`: with half of the key unknown every tag is as likely as any other;
* `ncard_forgery_le`: of the keys that give one message its tag, at most `8 * ⌈L / 16⌉` in `2 ^ 106` give
  another one the tag that has been guessed for it, where `L` is the length of the longer message. -/

namespace Snuffleupagus.Lib.Poly1305

open Snuffleupagus.Lib.PolynomialHash Snuffleupagus.Lib.Radix

/-! ### The modulus -/

/-- A number is prime if there is an element of order `p - 1` modulo `p`. -/
theorem prime_of_generator {p : ℕ} (a : ZMod p) (factors : List ℕ) (hprime : ∀ q ∈ factors, q.Prime)
    (hprod : factors.prod = p - 1) (h : a ^ (p - 1) = 1) (hne : ∀ q ∈ factors, a ^ ((p - 1) / q) ≠ 1) :
    p.Prime := by
  refine lucas_primality p a h fun q hq hdvd => hne q ?_
  rw [← hprod] at hdvd
  obtain ⟨q', hmem, hdvd⟩ := (Prime.dvd_prod_iff hq.prime).mp hdvd
  rwa [(Nat.prime_dvd_prime_iff_eq hq (hprime q' hmem)).mp hdvd]

theorem prime_4024685905107147541 : Nat.Prime 4024685905107147541 := by
  refine prime_of_generator 2 [2, 2, 3, 3, 5, 13, 43, 4889, 37003, 221101] ?_ (by norm_num)
    (by reduce_mod_char) ?_
  · simp only [List.forall_mem_cons, List.not_mem_nil, false_imp_iff, implies_true, and_true]
    norm_num
  · simp only [List.forall_mem_cons, List.not_mem_nil, false_imp_iff, implies_true, and_true]
    norm_num
    refine ⟨?_, ?_, ?_, ?_, ?_, ?_, ?_, ?_⟩ <;> reduce_mod_char <;> decide

theorem prime_897064739519922787230182993783 : Nat.Prime 897064739519922787230182993783 := by
  refine prime_of_generator 5 [2, 73, 487, 3134801, 4024685905107147541] ?_ (by norm_num)
    (by reduce_mod_char) ?_
  · simp only [List.forall_mem_cons, List.not_mem_nil, false_imp_iff, implies_true, and_true]
    exact ⟨by norm_num, by norm_num, by norm_num, by norm_num, prime_4024685905107147541⟩
  · simp only [List.forall_mem_cons, List.not_mem_nil, false_imp_iff, implies_true, and_true]
    norm_num
    refine ⟨?_, ?_, ?_, ?_, ?_⟩ <;> reduce_mod_char <;> decide

/-- `2 ^ 130 - 5`. -/
def modulus : ℕ := 2 ^ 130 - 5

/-- **The modulus is a prime.** -/
theorem prime_modulus : modulus.Prime := by
  have h : Nat.Prime 1361129467683753853853498429727072845819 := by
    refine prime_of_generator 2 [2, 23, 32985101, 897064739519922787230182993783] ?_
      (by norm_num) (by reduce_mod_char) ?_
    · simp only [List.forall_mem_cons, List.not_mem_nil, false_imp_iff, implies_true, and_true]
      exact ⟨by norm_num, by norm_num, by norm_num, prime_897064739519922787230182993783⟩
    · simp only [List.forall_mem_cons, List.not_mem_nil, false_imp_iff, implies_true, and_true]
      norm_num
      refine ⟨?_, ?_, ?_, ?_⟩ <;> reduce_mod_char <;> decide
  exact h

instance : Fact modulus.Prime := ⟨prime_modulus⟩

/-! ### The tag -/

/-- The blocks of a message. -/
def blocks (m : List UInt8) : List ℕ :=
  if m = [] then []
  else littleEndian (m.take 16 ++ [1]) :: blocks (m.drop 16)
termination_by m.length
decreasing_by
  have hpos := List.length_pos_iff.mpr ‹m ≠ []›
  rw [List.length_drop]
  omega

/-- The bits of the key that are used. -/
def clampMask : ℕ := 0x0ffffffc0ffffffc0ffffffc0fffffff

/-- The hash of a message under the first half of a key, as a number. -/
def keyed (m : List UInt8) (r : ℕ) : ℕ := hash modulus (r &&& clampMask) (blocks m)

/-- **The tag of a message under a key.** -/
def tag (m k : List UInt8) : ℕ :=
  (keyed m (littleEndian (k.take 16)) + littleEndian (k.drop 16)) % 2 ^ 128

/-! ### Blocks -/

theorem blocks_nil : blocks [] = [] := by rw [blocks, if_pos rfl]

theorem blocks_of_ne_nil {m : List UInt8} (h : m ≠ []) :
    blocks m = littleEndian (m.take 16 ++ [1]) :: blocks (m.drop 16) := by
  rw [blocks, if_neg h]

/-- There is a block for every 16 bytes. -/
theorem length_blocks (m : List UInt8) : (blocks m).length = (m.length + 15) / 16 := by
  induction m using blocks.induct with
  | case1 => rw [blocks_nil]; rfl
  | case2 m h ih =>
    have hpos := List.length_pos_iff.mpr h
    rw [blocks_of_ne_nil h, List.length_cons, ih, List.length_drop]
    omega

theorem littleEndian_block (m : List UInt8) : littleEndian (m.take 16 ++ [1]) =
    littleEndian (m.take 16) + 256 ^ (m.take 16).length := by
  rw [littleEndian_append]
  exact congrArg (_ + 256 ^ _ * ·) rfl |>.trans (by rw [mul_one])

theorem isBlock_blocks (m : List UInt8) : ∀ c ∈ blocks m, IsBlock modulus c := by
  induction m using blocks.induct with
  | case1 => rw [blocks_nil]; exact List.forall_mem_nil _
  | case2 m h ih =>
    rw [blocks_of_ne_nil h]
    refine List.forall_mem_cons.mpr ⟨?_, ih⟩
    have hlt := littleEndian_lt (m.take 16)
    have hle : 256 ^ (m.take 16).length ≤ 256 ^ 16 :=
      Nat.pow_le_pow_right (by decide) (List.length_take_le 16 m)
    have hpos : 0 < 256 ^ (m.take 16).length := by positivity
    rw [littleEndian_block]
    have hmod : 2 * 256 ^ 16 < modulus := by decide
    exact ⟨by omega, by omega⟩

/-- The 1 behind a block tells how long it is. -/
theorem take_eq_of_block {m m' : List UInt8}
    (h : littleEndian (m.take 16 ++ [1]) = littleEndian (m'.take 16 ++ [1])) : m.take 16 = m'.take 16 := by
  rw [littleEndian_block, littleEndian_block] at h
  have hlt := littleEndian_lt (m.take 16)
  have hlt' := littleEndian_lt (m'.take 16)
  have hstep : ∀ {a b : ℕ}, a < b → 2 * 256 ^ a ≤ 256 ^ b := fun {a b} hab =>
    calc 2 * 256 ^ a ≤ 256 ^ (a + 1) := by rw [pow_succ]; omega
      _ ≤ 256 ^ b := Nat.pow_le_pow_right (by decide) hab
  have hl : (m.take 16).length = (m'.take 16).length := by
    rcases lt_trichotomy (m.take 16).length (m'.take 16).length with hlen | hlen | hlen
    · have := hstep hlen
      omega
    · exact hlen
    · have := hstep hlen
      omega
  rw [hl] at h
  exact littleEndian_inj hl (Nat.add_right_cancel h)

theorem blocks_injective {m m' : List UInt8} (h : blocks m = blocks m') : m = m' := by
  induction m using blocks.induct generalizing m' with
  | case1 =>
    by_contra hne
    rw [blocks_nil, blocks_of_ne_nil (Ne.symm hne)] at h
    cases h
  | case2 m hm ih =>
    by_cases hm' : m' = []
    · rw [hm', blocks_nil, blocks_of_ne_nil hm] at h
      cases h
    · rw [blocks_of_ne_nil hm, blocks_of_ne_nil hm'] at h
      obtain ⟨hhead, htail⟩ := List.cons_eq_cons.mp h
      rw [← List.take_append_drop 16 m, ← List.take_append_drop 16 m', take_eq_of_block hhead, ih htail]

/-! ### Masks -/

/-- The numbers that are the same behind a mask differ in the bits that are masked out. -/
theorem card_masked_le (n mask ρ : ℕ) : ((Finset.range (2 ^ n)).filter fun x => x &&& mask = ρ).card ≤
    2 ^ ((Finset.range n).filter fun i => mask.testBit i = false).card := by
  rw [← Finset.card_powerset]
  refine Finset.card_le_card_of_injOn
    (fun x => (Finset.range n).filter fun i => mask.testBit i = false ∧ x.testBit i = true)
    (fun x _ => Finset.mem_powerset.mpr fun i hi => ?_) fun x hx y hy he => ?_
  · obtain ⟨hi, hmask, -⟩ := Finset.mem_filter.mp hi
    exact Finset.mem_filter.mpr ⟨hi, hmask⟩
  · obtain ⟨hxn, hx⟩ := Finset.mem_filter.mp hx
    obtain ⟨hyn, hy⟩ := Finset.mem_filter.mp hy
    refine Nat.eq_of_testBit_eq fun i => ?_
    by_cases hi : i < n
    · cases hmask : mask.testBit i with
      | true =>
        have hbit := congrArg (Nat.testBit · i) (hx.trans hy.symm)
        simpa [Nat.testBit_and, hmask] using hbit
      | false =>
        have hmem := Finset.ext_iff.mp he i
        simp only [Finset.mem_filter, Finset.mem_range, hi, hmask, true_and] at hmem
        exact Bool.eq_iff_iff.mpr hmem
    · have hle : 2 ^ n ≤ 2 ^ i := Nat.pow_le_pow_right (by decide) (by omega)
      rw [Nat.testBit_lt_two_pow ((Finset.mem_range.mp hxn).trans_le hle),
        Nat.testBit_lt_two_pow ((Finset.mem_range.mp hyn).trans_le hle)]

/-- 22 bits of the first half of the key are not used. -/
theorem card_clamped_le (ρ : ℕ) :
    ((Finset.range (2 ^ 128)).filter fun x => x &&& clampMask = ρ).card ≤ 2 ^ 22 :=
  (card_masked_le 128 clampMask ρ).trans (Nat.pow_le_pow_right (by decide) (by decide))

/-! ### Keys -/

/-- The keys of 32 bytes under which a message has a given tag. -/
def keys (m : List UInt8) (t : ℕ) : Set (List UInt8) := { k | k.length = 32 ∧ tag m k = t }

theorem mem_keys {m k : List UInt8} {t : ℕ} : k ∈ keys m t ↔ k.length = 32 ∧ tag m k = t := Iff.rfl

theorem length_take_of_mem {m k : List UInt8} {t : ℕ} (hk : k ∈ keys m t) : (k.take 16).length = 16 := by
  rw [List.length_take, hk.1]
  rfl

/-- What the tag tells of the second half, if the first one is known. -/
theorem drop_modEq {m k : List UInt8} {t : ℕ} (hk : k ∈ keys m t) :
    (keyed m (littleEndian (k.take 16)) : ℤ) + littleEndian (k.drop 16) ≡ t [ZMOD (2 ^ 128 : ℕ)] := by
  rw [← hk.2]
  unfold tag
  push_cast
  exact (Int.mod_modEq _ _).symm

theorem littleEndian_take_lt {m k : List UInt8} {t : ℕ} (hk : k ∈ keys m t) :
    littleEndian (k.take 16) < 2 ^ 128 := by
  have h := littleEndian_lt (k.take 16)
  rw [length_take_of_mem hk] at h
  exact h

/-- The second half of a key is determined by the first one and a tag. -/
theorem keys_injOn (m : List UInt8) (t : ℕ) : Set.InjOn (fun k => littleEndian (k.take 16)) (keys m t) := by
  intro k hk k' hk' he
  dsimp only at he
  have hl : (k.drop 16).length = 16 := by rw [List.length_drop, hk.1]
  have hl' : (k'.drop 16).length = 16 := by rw [List.length_drop, hk'.1]
  have hlt := littleEndian_lt (k.drop 16)
  have hlt' := littleEndian_lt (k'.drop 16)
  rw [hl] at hlt
  rw [hl'] at hlt'
  have hmod := (drop_modEq hk).trans (drop_modEq hk').symm
  rw [he] at hmod
  have hdrop := Nat.ModEq.eq_of_lt_of_lt ((Int.natCast_modEq_iff).mp (Int.ModEq.add_left_cancel' _ hmod))
    hlt hlt'
  rw [← List.take_append_drop 16 k, ← List.take_append_drop 16 k',
    littleEndian_inj ((length_take_of_mem hk).trans (length_take_of_mem hk').symm) he,
    littleEndian_inj (hl.trans hl'.symm) hdrop]

/-- The key with the first half `r` under which `m` has the tag `t`. -/
def keyOf (m : List UInt8) (t r : ℕ) : List UInt8 :=
  bytes 16 r ++ bytes 16 (t + (modulus - keyed m r + (2 ^ 128 - modulus % 2 ^ 128)))

theorem keyOf_mem {m : List UInt8} {t r : ℕ} (ht : t < 2 ^ 128) (hr : r < 2 ^ 128) :
    keyOf m t r ∈ keys m t ∧ littleEndian ((keyOf m t r).take 16) = r := by
  have htake : littleEndian ((keyOf m t r).take 16) = r := by
    unfold keyOf
    rw [List.take_left' (length_bytes 16 r), littleEndian_bytes]
    exact Nat.mod_eq_of_lt hr
  have hlt : keyed m r < modulus := hash_lt prime_modulus.pos _
  refine ⟨⟨by simp [keyOf], ?_⟩, htake⟩
  unfold tag
  rw [htake]
  unfold keyOf
  rw [List.drop_left' (length_bytes 16 r), littleEndian_bytes]
  have hpow : (256 : ℕ) ^ 16 = 2 ^ 128 := by norm_num
  rw [hpow, Nat.add_mod_mod]
  have hdiv := Nat.mod_add_div modulus (2 ^ 128)
  have hmod := Nat.mod_lt modulus (Nat.two_pow_pos 128)
  have hsum : keyed m r + (t + (modulus - keyed m r + (2 ^ 128 - modulus % 2 ^ 128))) =
      t + 2 ^ 128 * (modulus / 2 ^ 128 + 1) := by
    rw [mul_add, mul_one]
    omega
  rw [hsum, Nat.add_mul_mod_self_left, Nat.mod_eq_of_lt ht]

/-- **Every tag is as likely as any other.** -/
theorem ncard_keys (m : List UInt8) {t : ℕ} (ht : t < 2 ^ 128) : (keys m t).ncard = 2 ^ 128 := by
  have himage : (fun k => littleEndian (k.take 16)) '' keys m t = (Finset.range (2 ^ 128) : Set ℕ) := by
    refine Set.ext fun r => ⟨?_, fun hr => ?_⟩
    · rintro ⟨k, hk, rfl⟩
      exact Finset.mem_coe.mpr (Finset.mem_range.mpr (littleEndian_take_lt hk))
    · obtain ⟨hmem, htake⟩ := keyOf_mem (m := m) ht (Finset.mem_range.mp (Finset.mem_coe.mp hr))
      exact ⟨_, hmem, htake⟩
  rw [← (keys_injOn m t).ncard_image, himage, Set.ncard_coe_finset, Finset.card_range]

/-- **Forgeries**: the keys under which two messages have given tags. -/
theorem ncard_forgery_le {m m' : List UInt8} (hne : m ≠ m') (t t' : ℕ) :
    (keys m t ∩ keys m' t').ncard ≤ 8 * ((max m.length m'.length + 15) / 16) * 2 ^ 22 := by
  -- the first halves, masked, at which the hashes differ as the tags do
  set halves := (Finset.range (2 ^ 128)).filter fun x =>
    (keyed m x : ℤ) - keyed m' x ≡ (t : ℤ) - t' [ZMOD (2 ^ 128 : ℕ)] with hhalves
  set clamped := ((Finset.range (2 ^ 128)).image (· &&& clampMask)).filter fun r =>
    (hash modulus r (blocks m) : ℤ) - hash modulus r (blocks m') ≡ (t : ℤ) - t' [ZMOD (2 ^ 128 : ℕ)]
    with hclamped
  have hkeys : (keys m t ∩ keys m' t').ncard ≤ halves.card := by
    rw [← Set.ncard_coe_finset]
    refine Set.ncard_le_ncard_of_injOn (fun k => littleEndian (k.take 16)) (fun k hk => ?_)
      ((keys_injOn m t).mono Set.inter_subset_left) (Finset.finite_toSet _)
    refine Finset.mem_coe.mpr (Finset.mem_filter.mpr ⟨Finset.mem_range.mpr (littleEndian_take_lt hk.1), ?_⟩)
    have h := (drop_modEq hk.1).sub (drop_modEq hk.2)
    rwa [add_sub_add_right_eq_sub] at h
  have hhalf : halves.card ≤ 2 ^ 22 * clamped.card := by
    refine Finset.card_le_mul_card_image_of_maps_to (f := (· &&& clampMask)) (fun x hx => ?_) _ fun r _ => ?_
    · obtain ⟨hx, hmod⟩ := Finset.mem_filter.mp hx
      exact Finset.mem_filter.mpr ⟨Finset.mem_image_of_mem _ hx, hmod⟩
    · refine (Finset.card_le_card fun x hx => ?_).trans (card_clamped_le r)
      obtain ⟨hx, hr⟩ := Finset.mem_filter.mp hx
      exact Finset.mem_filter.mpr ⟨(Finset.mem_filter.mp hx).1, hr⟩
  have hroots : clamped.card ≤ max (blocks m).length (blocks m').length * 8 := by
    refine card_tags_le (by positivity) (by decide) (isBlock_blocks m) (isBlock_blocks m')
      (fun h => hne (blocks_injective h)) _ fun r hr => ?_
    obtain ⟨x, -, rfl⟩ := Finset.mem_image.mp hr
    exact (Nat.and_le_right (n := x)).trans_lt (by decide)
  have hlen : max (blocks m).length (blocks m').length = (max m.length m'.length + 15) / 16 := by
    rw [length_blocks, length_blocks]
    omega
  calc _ ≤ 2 ^ 22 * clamped.card := hkeys.trans hhalf
    _ ≤ 2 ^ 22 * (max (blocks m).length (blocks m').length * 8) := Nat.mul_le_mul_left _ hroots
    _ = _ := by rw [hlen]; ring

end Snuffleupagus.Lib.Poly1305
