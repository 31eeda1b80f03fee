import Snuffleupagus.Lib.Poly1305
import Snuffleupagus.Lib.Radix
import Snuffleupagus.Nacl.Word

/-! # The one-time authenticator

`crypto_onetimeauth` works on numbers of 17 digits to base 256, each in a word: it adds a block of the
message, multiplies by the first half of the key, and keeps the result below `2 ^ 130 + 2 ^ 128` by putting
back what stands above `2 ^ 130`, five times. At the end it subtracts `2 ^ 130 - 5` if it can and adds the
second half of the key.

* `squeeze_spec`, `mulmod_spec`, `add1305_spec`: what the passes over the digits do to the numbers;
* `loop_spec`: the number behind the blocks, which none of the additions and products overflows;
* `onetimeauth_poly1305`: the tag is that of Poly1305. -/

namespace Snuffleupagus.Nacl.OneTimeAuth

open Snuffleupagus.Lib.Radix Snuffleupagus.Lib.PolynomialHash Snuffleupagus.Lib.Poly1305
open Snuffleupagus.Php.Bytes Snuffleupagus.Nacl.Word

/-! ### The code -/

section Code
variable {w : ℕ}

/-- The loop of `add1305`: `u` is what is carried. -/
def add1305From : List (U32 w) → List (U32 w) → U32 w → List (U32 w)
  | h :: hs, c :: cs, u =>
    let u := u + (h + c)
    (u &&& 255#w) :: add1305From hs cs (u >>> 8)
  | _, _, _ => []

/-- `add1305`. -/
def add1305 (h c : List (U32 w)) : List (U32 w) := add1305From h c 0#w

/-- `minusp`. -/
def minusp : List (U32 w) :=
  [5#w, 0#w, 0#w, 0#w, 0#w, 0#w, 0#w, 0#w, 0#w, 0#w, 0#w, 0#w, 0#w, 0#w, 0#w, 0#w, 252#w]

/-- The digits of `r`: the first half of the key, with some bits cleared. -/
def clamp (k : ZendString) : ZendString :=
  let r := k.take 16
  let r := r.modify 3 (· &&& 15)
  let r := r.modify 4 (· &&& 252)
  let r := r.modify 7 (· &&& 15)
  let r := r.modify 8 (· &&& 252)
  let r := r.modify 11 (· &&& 15)
  let r := r.modify 12 (· &&& 252)
  r.modify 15 (· &&& 15)

/-- `c`, for the rest `m` of the message: at most 16 bytes of it, and a 1 behind them. -/
def block (m : ZendString) : List (U32 w) :=
  (m.take 16).map ofByte ++ 1#w :: List.replicate (16 - m.length) 0#w

/-- `(j <= i) ? r[i - j] : 320 * r[i + 17 - j]`. -/
def factor (r : List (U32 w)) (i j : ℕ) : U32 w :=
  if j ≤ i then r.getD (i - j) 0#w else 320#w * r.getD (i + 17 - j) 0#w

/-- `x[i]`. -/
def mulmodDigit (h r : List (U32 w)) (i : ℕ) : U32 w :=
  (List.range 17).foldl (fun x j => x + h.getD j 0#w * factor r i j) 0#w

/-- `x`. -/
def mulmod (h r : List (U32 w)) : List (U32 w) := (List.range 17).map (mulmodDigit h r)

/-- The loop over the first 16 digits: the digits and `u`. -/
def carryPass : List (U32 w) → U32 w → List (U32 w) × U32 w
  | [], u => ([], u)
  | h :: hs, u =>
    let u := u + h
    let rest := carryPass hs (u >>> 8)
    ((u &&& 255#w) :: rest.1, rest.2)

/-- The two passes behind a product. -/
def squeeze (h : List (U32 w)) : List (U32 w) :=
  let (low, u) := carryPass (h.take 16) 0#w
  let u := u + h.getD 16 0#w
  let h16 := u &&& 3#w
  let (low, u) := carryPass low (5#w * (u >>> 2))
  low ++ [u + h16]

/-- The loop over the message. -/
def loop (r : List (U32 w)) (h : List (U32 w)) (m : ZendString) : List (U32 w) :=
  if m = [] then h
  else loop r (squeeze (mulmod (add1305 h (block m)) r)) (m.drop 16)
termination_by m.length
decreasing_by
  have hpos := List.length_pos_iff.mpr ‹m ≠ []›
  rw [List.length_drop]
  omega

/-- `h` without a multiple of `2 ^ 130 - 5`: the subtraction, and the choice between both. -/
def freeze (h : List (U32 w)) : List (U32 w) :=
  let g := h
  let h := add1305 h minusp
  let s := -(h.getD 16 0#w >>> 7)
  List.zipWith (fun h g => h ^^^ (s &&& (g ^^^ h))) h g

/-- `crypto_onetimeauth`: the tag that is written to `out`. -/
def cryptoOnetimeauth (w : ℕ) (m k : ZendString) : ZendString :=
  let r : List (U32 w) := (clamp k).map ofByte ++ [0#w]
  let h := freeze (loop r (List.replicate 17 0#w) m)
  let c := ((k.drop 16).take 16).map ofByte ++ [0#w]
  ((add1305 h c).take 16).map toByte

end Code

variable {w : ℕ}

/-- The number of an array of digits. -/
def val (h : List (U32 w)) : ℕ := Nat.ofDigits 256 (h.map BitVec.toNat)

/-- 17 digits in order. -/
structure Ordered (h : List (U32 w)) : Prop where
  length_eq : h.length = 17
  lt : ∀ x ∈ h, x.toNat < 256

/-! ### Passes over the digits -/

section Passes
variable (hw : 32 ≤ w) {U M : ℕ} (hM : M ≤ U * 255) (hUM : U + M < 2 ^ 32)
include hw hM hUM

/-- One step of a pass: nothing overflows. -/
theorem carry_step {u x : U32 w} (hu : u.toNat ≤ U) (hx : x.toNat ≤ M) :
    (u + x).toNat = u.toNat + x.toNat ∧ ((u + x) >>> 8).toNat = (u.toNat + x.toNat) / 256 ∧
      (u.toNat + x.toNat) / 256 ≤ U := by
  have hadd : (u + x).toNat = u.toNat + x.toNat := toNat_add hw (by omega)
  exact ⟨hadd, by rw [toNat_shiftRight, hadd]; rfl, by omega⟩

theorem carryPass_spec {l : List (U32 w)} (hl : ∀ x ∈ l, x.toNat ≤ M) {u : U32 w} (hu : u.toNat ≤ U) :
    (carryPass l u).1.map BitVec.toNat = (carry 256 (l.map BitVec.toNat) u.toNat).1 ∧
      (carryPass l u).2.toNat = (carry 256 (l.map BitVec.toNat) u.toNat).2 := by
  induction l generalizing u with
  | nil => exact ⟨rfl, rfl⟩
  | cons x l ih =>
    obtain ⟨hx, hl⟩ := List.forall_mem_cons.mp hl
    obtain ⟨hadd, hshift, hle⟩ := carry_step hw hM hUM hu hx
    have hrest := ih hl (u := (u + x) >>> 8) (by rw [hshift]; exact hle)
    rw [hshift] at hrest
    simp only [carryPass, carry, List.map_cons, toNat_and_255 hw, hadd, hrest, and_self]

theorem add1305From_spec {h c : List (U32 w)} (hlen : h.length = c.length)
    (hl : ∀ p ∈ h.zip c, p.1.toNat + p.2.toNat ≤ M) {u : U32 w} (hu : u.toNat ≤ U) :
    (add1305From h c u).map BitVec.toNat =
      (carry 256 (List.zipWith (fun x y => x.toNat + y.toNat) h c) u.toNat).1 := by
  induction h generalizing c u with
  | nil => rfl
  | cons x h ih =>
    cases c with
    | nil => cases hlen
    | cons y c =>
      obtain ⟨hxy, hl⟩ := List.forall_mem_cons.mp hl
      dsimp only at hxy
      have hsum : (x + y).toNat = x.toNat + y.toNat := toNat_add hw (by omega)
      obtain ⟨hadd, hshift, hle⟩ := carry_step hw hM hUM hu (x := x + y) (by rw [hsum]; exact hxy)
      rw [hsum] at hadd hshift hle
      have hrest := ih (Nat.succ.inj hlen) hl (u := (u + (x + y)) >>> 8) (by rw [hshift]; exact hle)
      rw [hshift] at hrest
      simp only [add1305From, carry, List.map_cons, List.zipWith_cons_cons, toNat_and_255 hw, hadd, hrest]

end Passes

/-- **Addition** keeps 17 digits. -/
theorem add1305_spec (hw : 32 ≤ w) {h c : List (U32 w)} (hh : Ordered h) (hc : Ordered c) :
    Ordered (add1305 h c) ∧ val (add1305 h c) = (val h + val c) % 256 ^ 17 := by
  have hlen : h.length = c.length := hh.length_eq.trans hc.length_eq.symm
  have hl : ∀ p ∈ h.zip c, p.1.toNat + p.2.toNat ≤ 510 := fun p hp => by
    have h₁ := hh.lt _ (List.of_mem_zip hp).1
    have h₂ := hc.lt _ (List.of_mem_zip hp).2
    omega
  have hmap : (add1305 h c).map BitVec.toNat = _ :=
    add1305From_spec hw (U := 2) (M := 510) (by decide) (by decide) hlen hl (u := 0#w) (by simp)
  rw [BitVec.toNat_zero] at hmap
  have hsum : (List.zipWith (fun x y : U32 w => x.toNat + y.toNat) h c).length = 17 := by
    rw [List.length_zipWith, ← hlen, hh.length_eq, Nat.min_self]
  refine ⟨⟨?_, ?_⟩, ?_⟩
  · have hl := congrArg List.length hmap
    rwa [List.length_map, length_carry, hsum] at hl
  · intro x hx
    have hx := List.mem_map_of_mem (f := BitVec.toNat) hx
    rw [hmap] at hx
    exact carry_lt (by decide) _ hx
  · have hzip : Nat.ofDigits 256 (List.zipWith (fun x y : U32 w => x.toNat + y.toNat) h c) =
        val h + val c := by
      unfold val
      rw [Nat.ofDigits_add_ofDigits_eq_ofDigits_zipWith_of_length_eq (by simpa using hlen),
        List.zipWith_map]
    show Nat.ofDigits 256 ((add1305 h c).map BitVec.toNat) = _
    rw [hmap, (carry_eq (by decide) _ _).1, hsum, hzip, Nat.add_zero]

/-! ### Products -/

theorem Ordered.getD_le {h : List (U32 w)} (ho : Ordered h) (j : ℕ) : (h.getD j 0#w).toNat ≤ 255 := by
  by_cases hj : j < h.length
  · rw [List.getD_eq_getElem _ _ hj]
    exact Nat.le_of_lt_succ (ho.lt _ (List.getElem_mem hj))
  · rw [List.getD_eq_default _ _ (by omega), BitVec.toNat_zero]
    exact Nat.zero_le _

/-- The number of digit `j` of an array. -/
def digit (h : List (U32 w)) (j : ℕ) : ℕ := (h.getD j 0#w).toNat

theorem toNat_factor (hw : 32 ≤ w) {r : List (U32 w)} (hr : Ordered r) (i j : ℕ) :
    (factor r i j).toNat = (if j ≤ i then digit r (i - j) else 320 * digit r (i + 17 - j)) ∧
      (factor r i j).toNat ≤ 81600 := by
  have hlow : digit r (i - j) ≤ 255 := hr.getD_le _
  have hhigh : digit r (i + 17 - j) ≤ 255 := hr.getD_le _
  unfold factor
  split_ifs
  · exact ⟨rfl, hlow.trans (by decide)⟩
  · have h320 : (320#w : U32 w).toNat = 320 := toNat_ofNat hw (by decide)
    have hmul : (320#w * r.getD (i + 17 - j) 0#w).toNat = 320 * digit r (i + 17 - j) := by
      have hle : (320#w : U32 w).toNat * digit r (i + 17 - j) < 2 ^ 32 := by rw [h320]; omega
      rw [toNat_mul hw hle, h320]
      rfl
    exact ⟨hmul, hmul.trans_le (by omega)⟩

/-- The sum of the first `n` terms, without overflow. -/
theorem toNat_terms (hw : 32 ≤ w) {h r : List (U32 w)} (hh : Ordered h) (hr : Ordered r) (i : ℕ) {n : ℕ}
    (hn : n ≤ 17) :
    ((List.range n).foldl (fun x j => x + h.getD j 0#w * factor r i j) 0#w).toNat =
        ∑ j ∈ Finset.range n, digit h j * (factor r i j).toNat ∧
      ∑ j ∈ Finset.range n, digit h j * (factor r i j).toNat ≤ n * 20808000 := by
  induction n with
  | zero => simp
  | succ n ih =>
    obtain ⟨heq, hle⟩ := ih (by omega)
    have hterm : digit h n * (factor r i n).toNat ≤ 20808000 :=
      (Nat.mul_le_mul (hh.getD_le n) (toNat_factor hw hr i n).2).trans (by decide)
    have hmul : (h.getD n 0#w * factor r i n).toNat = digit h n * (factor r i n).toNat :=
      toNat_mul hw (hterm.trans_lt (by decide))
    rw [List.range_succ, List.foldl_concat, Finset.sum_range_succ]
    have hadd := toNat_add hw (x := (List.range n).foldl (fun x j => x + h.getD j 0#w * factor r i j) 0#w)
      (y := h.getD n 0#w * factor r i n) (by rw [heq, hmul]; omega)
    rw [hadd, heq, hmul]
    exact ⟨rfl, by omega⟩

/-- One digit of the product. -/
theorem toNat_mulmodDigit (hw : 32 ≤ w) {h r : List (U32 w)} (hh : Ordered h) (hr : Ordered r) (i : ℕ) :
    (mulmodDigit h r i).toNat = wrapped 320 (digit h) (digit r) 17 i ∧
      (mulmodDigit h r i).toNat ≤ 353736000 := by
  obtain ⟨heq, hle⟩ := toNat_terms hw hh hr i le_rfl
  refine ⟨heq.trans ?_, heq.trans_le hle⟩
  exact Finset.sum_congr rfl fun j _ => by rw [(toNat_factor hw hr i j).1]

theorem val_eq_value {h : List (U32 w)} (ho : Ordered h) : val h = value 256 (digit h) 17 := by
  unfold val
  rw [ofDigits_eq_value, List.length_map, ho.length_eq]
  refine Finset.sum_congr rfl fun i hi => ?_
  have hi : i < h.length := by rw [ho.length_eq]; exact Finset.mem_range.mp hi
  dsimp only
  rw [digit, List.getD_eq_getElem _ _ hi, List.getD_eq_getElem _ _ (by simpa using hi), List.getElem_map]

/-- **The product**, modulo `2 ^ 130 - 5`; its digits are not in order. -/
theorem mulmod_spec (hw : 32 ≤ w) {h r : List (U32 w)} (hh : Ordered h) (hr : Ordered r) :
    val (mulmod h r) ≡ val h * val r [MOD modulus] ∧ ∀ x ∈ mulmod h r, x.toNat ≤ 353736000 := by
  constructor
  · have hval : val (mulmod h r) = value 256 (wrapped 320 (digit h) (digit r) 17) 17 := by
      unfold val mulmod
      rw [List.map_map, ofDigits_map_range]
      exact Finset.sum_congr rfl fun i _ => by rw [Function.comp_apply, (toNat_mulmodDigit hw hh hr i).1]
    rw [hval, val_eq_value hh, val_eq_value hr]
    exact sum_wrapped (by decide)
  · refine List.forall_mem_map.mpr fun i _ => ?_
    exact (toNat_mulmodDigit hw hh hr i).2

@[simp] theorem length_mulmod (h r : List (U32 w)) : (mulmod h r).length = 17 := by simp [mulmod]

/-! ### The passes behind a product -/

theorem val_append (l l' : List (U32 w)) : val (l ++ l') = val l + 256 ^ l.length * val l' := by
  unfold val
  rw [List.map_append, Nat.ofDigits_append, List.length_map]

theorem val_singleton (x : U32 w) : val [x] = x.toNat := Nat.ofDigits_singleton

/-- A pass keeps the value, and leaves its digits in order. -/
theorem carryPass_val (hw : 32 ≤ w) {U M : ℕ} (hM : M ≤ U * 255) (hUM : U + M < 2 ^ 32) {l : List (U32 w)}
    (hl : ∀ x ∈ l, x.toNat ≤ M) {u : U32 w} (hu : u.toNat ≤ U) :
    (carryPass l u).1.length = l.length ∧ (∀ x ∈ (carryPass l u).1, x.toNat < 256) ∧
      val (carryPass l u).1 + 256 ^ l.length * (carryPass l u).2.toNat = val l + u.toNat ∧
      (carryPass l u).2.toNat ≤ U := by
  obtain ⟨hd, hc⟩ := carryPass_spec hw hM hUM hl hu
  refine ⟨?_, fun x hx => ?_, ?_, ?_⟩
  · have h := congrArg List.length hd
    rwa [List.length_map, length_carry, List.length_map] at h
  · have hx := List.mem_map_of_mem (f := BitVec.toNat) hx
    rw [hd] at hx
    exact carry_lt (by decide) _ hx
  · have h := ofDigits_carry (b := 256) (l.map BitVec.toNat) u.toNat
    rwa [← hd, ← hc, List.length_map] at h
  · rw [hc]
    exact carry_le (by decide) (List.forall_mem_map.mpr fun x hx => (hl x hx).trans hM) hu

theorem val_lt {l : List (U32 w)} (hl : ∀ x ∈ l, x.toNat < 256) : val l < 256 ^ l.length := by
  have h := Nat.ofDigits_lt_base_pow_length (b := 256) (l := l.map BitVec.toNat) (by decide)
    (List.forall_mem_map.mpr hl)
  rwa [List.length_map] at h

/-- The two passes on 16 digits and what stands above them. -/
theorem squeeze_append {l : List (U32 w)} (hl : l.length = 16) (t : U32 w) : squeeze (l ++ [t]) =
    (carryPass (carryPass l 0#w).1 (5#w * (((carryPass l 0#w).2 + t) >>> 2))).1 ++
      [(carryPass (carryPass l 0#w).1 (5#w * (((carryPass l 0#w).2 + t) >>> 2))).2 +
        (((carryPass l 0#w).2 + t) &&& 3#w)] := by
  unfold squeeze
  rw [List.take_left' hl, List.getD_append_right _ _ _ _ hl.le, hl]
  rfl

/-- **What stands above `2 ^ 130` is put back five times.** -/
theorem squeeze_spec (hw : 32 ≤ w) {h : List (U32 w)} (hlen : h.length = 17)
    (hle : ∀ x ∈ h, x.toNat ≤ 353736000) : Ordered (squeeze h) ∧ val (squeeze h) ≡ val h [MOD modulus] ∧
      val (squeeze h) < 5 * 256 ^ 16 := by
  obtain ⟨l, t, rfl⟩ : ∃ l t, h = l ++ [t] :=
    ⟨h.dropLast, h.getLast (List.ne_nil_of_length_eq_add_one hlen), (List.dropLast_concat_getLast _).symm⟩
  rw [List.length_append, List.length_singleton] at hlen
  have hl16 : l.length = 16 := Nat.succ.inj hlen
  obtain ⟨hl, ht⟩ := List.forall_mem_append.mp hle
  have ht := ht t (List.mem_singleton_self t)
  have hsqueeze := squeeze_append hl16 t
  -- the first pass
  obtain ⟨hdlen, hdlt, hdval, hule⟩ := carryPass_val hw (U := 2 ^ 23) (M := 353736000) (by decide)
    (by decide) hl (u := 0#w) (by simp)
  rw [BitVec.toNat_zero, hl16, Nat.add_zero] at hdval
  set d := (carryPass l 0#w).1
  set u := (carryPass l 0#w).2
  -- the digits above
  have hut : (u + t).toNat = u.toNat + t.toNat := toNat_add hw (by omega)
  have h16 : ((u + t) &&& 3#w).toNat = (u.toNat + t.toNat) % 4 := by rw [toNat_and_3 hw, hut]
  have hq : ((u + t) >>> 2).toNat = (u.toNat + t.toNat) / 4 := by rw [toNat_shiftRight, hut]; rfl
  have h5 : (5#w : U32 w).toNat = 5 := toNat_ofNat hw (by decide)
  have h5q : (5#w * ((u + t) >>> 2)).toNat = 5 * ((u.toNat + t.toNat) / 4) := by
    rw [toNat_mul hw (by rw [h5, hq]; omega), h5, hq]
  -- the second pass
  obtain ⟨hdlen', hdlt', hdval', -⟩ := carryPass_val hw (U := 2 ^ 30) (M := 255) (by decide) (by decide)
    (fun x hx => Nat.le_of_lt_succ (hdlt x hx)) (u := 5#w * ((u + t) >>> 2)) (by rw [h5q]; omega)
  rw [h5q, hdlen, hl16] at hdval'
  rw [hdlen, hl16] at hdlen'
  set d' := (carryPass d (5#w * ((u + t) >>> 2))).1
  set u' := (carryPass d (5#w * ((u + t) >>> 2))).2
  have hdmax := val_lt hdlt
  have hdmax' := val_lt hdlt'
  rw [hdlen, hl16] at hdmax
  rw [hdlen'] at hdmax'
  have hule' : u'.toNat ≤ 1 := by omega
  have htop : (u' + ((u + t) &&& 3#w)).toNat = u'.toNat + (u.toNat + t.toNat) % 4 := by
    rw [toNat_add hw (by rw [h16]; omega), h16]
  have hval : val (squeeze (l ++ [t])) = val d' + 256 ^ 16 * (u'.toNat + (u.toNat + t.toNat) % 4) := by
    rw [hsqueeze, val_append, hdlen', val_singleton, htop]
  have hvalh : val (l ++ [t]) = val l + 256 ^ 16 * t.toNat := by rw [val_append, hl16, val_singleton]
  refine ⟨⟨?_, ?_⟩, ?_, ?_⟩
  · rw [hsqueeze, List.length_append, hdlen', List.length_singleton]
  · rw [hsqueeze]
    refine List.forall_mem_append.mpr ⟨hdlt', fun x hx => ?_⟩
    rw [List.mem_singleton.mp hx, htop]
    omega
  · have hdiff : val (l ++ [t]) = val (squeeze (l ++ [t])) + modulus * ((u.toNat + t.toNat) / 4) := by
      rw [hval, hvalh, show modulus = 4 * 256 ^ 16 - 5 from by decide, Nat.sub_mul]
      omega
    rw [hdiff, Nat.ModEq, Nat.add_mul_mod_self_left]
  · rw [hval]
    omega

/-! ### The loop over the message -/

/-- The number of some bytes in words. -/
theorem val_map_ofByte (hw : 32 ≤ w) (l : ZendString) :
    val (l.map (ofByte : UInt8 → U32 w)) = littleEndian l := by
  unfold val littleEndian
  rw [List.map_map]
  exact congrArg _ (List.map_congr_left fun c _ => toNat_ofByte (by omega) c)

theorem ofByte_lt (hw : 32 ≤ w) (l : ZendString) : ∀ x ∈ l.map (ofByte : UInt8 → U32 w), x.toNat < 256 :=
  List.forall_mem_map.mpr fun c _ => by rw [toNat_ofByte (by omega)]; exact c.toNat_lt

theorem val_replicate_zero (n : ℕ) : val (List.replicate n 0#w) = 0 := by
  unfold val
  rw [List.map_replicate, BitVec.toNat_zero, Nat.ofDigits_replicate_zero]

theorem ordered_append {l l' : List (U32 w)} (hlen : l.length + l'.length = 17)
    (hl : ∀ x ∈ l, x.toNat < 256) (hl' : ∀ x ∈ l', x.toNat < 256) : Ordered (l ++ l') :=
  ⟨by rw [List.length_append, hlen], List.forall_mem_append.mpr ⟨hl, hl'⟩⟩

/-- A block, with the 1 behind it and zeros behind that. -/
theorem block_spec (hw : 32 ≤ w) (m : ZendString) : Ordered (block m : List (U32 w)) ∧
    val (block m : List (U32 w)) = littleEndian (m.take 16 ++ [1]) := by
  have h1 : (1#w : U32 w).toNat = 1 := toNat_ofNat hw (by decide)
  constructor
  · refine ordered_append (by simp; omega) (ofByte_lt hw _) (List.forall_mem_cons.mpr ⟨?_, fun x hx => ?_⟩)
    · rw [h1]
      decide
    · rw [List.eq_of_mem_replicate hx, BitVec.toNat_zero]
      decide
  · have hone : val (1#w :: List.replicate (16 - m.length) 0#w) = 1 := by
      rw [show (1#w :: List.replicate (16 - m.length) 0#w) = [1#w] ++ List.replicate (16 - m.length) 0#w
        from rfl, val_append, val_singleton, val_replicate_zero, h1, Nat.mul_zero]
    unfold block
    rw [val_append, val_map_ofByte hw, hone, littleEndian_block, List.length_map, Nat.mul_one]

/-- One turn of the loop. -/
theorem turn_spec (hw : 32 ≤ w) {r h : List (U32 w)} (hr : Ordered r) (hh : Ordered h)
    (hlt : val h < 5 * 256 ^ 16) (m : ZendString) :
    Ordered (squeeze (mulmod (add1305 h (block m)) r)) ∧
      val (squeeze (mulmod (add1305 h (block m)) r)) < 5 * 256 ^ 16 ∧
      val (squeeze (mulmod (add1305 h (block m)) r)) ≡
        absorb modulus (val r) (val h) (littleEndian (m.take 16 ++ [1])) [MOD modulus] := by
  obtain ⟨hb, hbval⟩ := block_spec hw m
  obtain ⟨ho, hval⟩ := add1305_spec hw hh hb
  obtain ⟨hmul, hle⟩ := mulmod_spec hw ho hr
  obtain ⟨hs, hmod, hslt⟩ := squeeze_spec hw (length_mulmod _ _) hle
  have hblt := littleEndian_lt (m.take 16 ++ [1])
  have hblen : 256 ^ (m.take 16 ++ [1]).length ≤ 256 ^ 17 :=
    Nat.pow_le_pow_right (by decide) (by simp)
  have hbmax : littleEndian (m.take 16 ++ [1]) < 2 * 256 ^ 16 := by
    have hlt := littleEndian_lt (m.take 16)
    have hle : 256 ^ (m.take 16).length ≤ 256 ^ 16 := Nat.pow_le_pow_right (by decide) (List.length_take_le 16 m)
    rw [littleEndian_block]
    omega
  refine ⟨hs, hslt, hmod.trans (hmul.trans ?_)⟩
  rw [hval, hbval, Nat.mod_eq_of_lt (by omega)]
  exact (Nat.mod_modEq _ _).symm

/-- **The number behind the blocks** of a message. -/
theorem loop_spec (hw : 32 ≤ w) {r : List (U32 w)} (hr : Ordered r) (m : ZendString) {h : List (U32 w)}
    (hh : Ordered h) (hlt : val h < 5 * 256 ^ 16) : Ordered (loop r h m) ∧
      val (loop r h m) < 5 * 256 ^ 16 ∧
      val (loop r h m) ≡ (blocks m).foldl (absorb modulus (val r)) (val h) [MOD modulus] := by
  induction m using blocks.induct generalizing h with
  | case1 =>
    rw [loop, if_pos rfl, blocks_nil]
    exact ⟨hh, hlt, Nat.ModEq.refl _⟩
  | case2 m hne ih =>
    obtain ⟨ho, hlt, hmod⟩ := turn_spec hw hr hh hlt m
    obtain ⟨ho', hlt', hmod'⟩ := ih ho hlt
    rw [loop, if_neg hne, blocks_of_ne_nil hne, List.foldl_cons]
    exact ⟨ho', hlt', hmod'.trans (foldl_absorb_modEq hmod _)⟩

/-! ### The end -/

theorem minusp_spec (hw : 32 ≤ w) :
    Ordered (minusp : List (U32 w)) ∧ val (minusp : List (U32 w)) = 256 ^ 17 - modulus := by
  have hmap : (minusp : List (U32 w)).map BitVec.toNat = [5, 0, 0, 0, 0, 0, 0, 0, 0, 0, 0, 0, 0, 0, 0, 0, 252] := by
    have h5 : (5#w : U32 w).toNat = 5 := toNat_ofNat hw (by decide)
    have h252 : (252#w : U32 w).toNat = 252 := toNat_ofNat hw (by decide)
    simp only [minusp, List.map_cons, List.map_nil, h5, h252, BitVec.toNat_zero]
  refine ⟨⟨rfl, fun x hx => ?_⟩, ?_⟩
  · have hx := List.mem_map_of_mem (f := BitVec.toNat) hx
    rw [hmap] at hx
    exact (by decide : ∀ d ∈ [5, 0, 0, 0, 0, 0, 0, 0, 0, 0, 0, 0, 0, 0, 0, 0, 252], d < 256) _ hx
  · unfold val
    rw [hmap]
    decide

/-- The last digit. -/
theorem Ordered.digit_top {h : List (U32 w)} (ho : Ordered h) : (h.getD 16 0#w).toNat = val h / 256 ^ 16 := by
  obtain ⟨l, t, rfl⟩ : ∃ l t, h = l ++ [t] := ⟨h.dropLast,
    h.getLast (List.ne_nil_of_length_eq_add_one ho.length_eq), (List.dropLast_concat_getLast _).symm⟩
  have hlen := ho.length_eq
  rw [List.length_append, List.length_singleton] at hlen
  have hl : l.length = 16 := Nat.succ.inj hlen
  have hlt := val_lt (List.forall_mem_append.mp ho.lt).1
  rw [hl] at hlt
  rw [val_append, hl, val_singleton, List.getD_append_right _ _ _ _ hl.le, hl,
    Nat.add_mul_div_left _ _ (by positivity), Nat.div_eq_of_lt hlt, Nat.zero_add]
  rfl

/-- The choice between two arrays by a mask of all ones or zeros. -/
theorem zipWith_choose (s : U32 w) {h g : List (U32 w)} (hlen : h.length = g.length) :
    (s = 0#w → List.zipWith (fun h g => h ^^^ (s &&& (g ^^^ h))) h g = h) ∧
      (s = BitVec.allOnes w → List.zipWith (fun h g => h ^^^ (s &&& (g ^^^ h))) h g = g) := by
  constructor
  · rintro rfl
    refine List.ext_getElem (by rw [List.length_zipWith, hlen, Nat.min_self]) fun i _ _ => ?_
    rw [List.getElem_zipWith, BitVec.zero_and, BitVec.xor_zero]
  · rintro rfl
    refine List.ext_getElem (by rw [List.length_zipWith, hlen, Nat.min_self]) fun i _ _ => ?_
    rw [List.getElem_zipWith, BitVec.allOnes_and, BitVec.xor_comm (g[i]), ← BitVec.xor_assoc,
      BitVec.xor_self, BitVec.zero_xor]

/-- **The remainder**: the number is smaller than twice the modulus. -/
theorem freeze_spec (hw : 32 ≤ w) {h : List (U32 w)} (hh : Ordered h) (hlt : val h < 5 * 256 ^ 16) :
    Ordered (freeze h) ∧ val (freeze h) = val h % modulus := by
  obtain ⟨hp, hpval⟩ := minusp_spec hw
  obtain ⟨ho, hval⟩ := add1305_spec hw hh hp
  rw [hpval] at hval
  have hlen : (add1305 h minusp).length = h.length := ho.length_eq.trans hh.length_eq.symm
  have htop : ((add1305 h minusp).getD 16 0#w >>> 7).toNat = val (add1305 h minusp) / 256 ^ 16 / 128 := by
    rw [toNat_shiftRight, ho.digit_top]
    rfl
  have hmod : modulus = 4 * 256 ^ 16 - 5 := by decide
  unfold freeze
  by_cases hge : modulus ≤ val h
  · have hsub : val (add1305 h minusp) = val h - modulus := by
      rw [hval, show val h + (256 ^ 17 - modulus) = val h - modulus + 256 ^ 17 by omega,
        Nat.add_mod_right, Nat.mod_eq_of_lt (by omega)]
    have hzero : (add1305 h minusp).getD 16 0#w >>> 7 = 0#w := by
      refine BitVec.eq_of_toNat_eq ?_
      rw [htop, hsub, BitVec.toNat_zero]
      omega
    rw [(zipWith_choose _ hlen).1 (by rw [hzero, BitVec.neg_zero])]
    refine ⟨ho, hsub.trans ?_⟩
    rw [Nat.mod_eq_sub_mod hge, Nat.mod_eq_of_lt (by omega)]
  · have hsub : val (add1305 h minusp) = val h + (256 ^ 17 - modulus) := by
      rw [hval, Nat.mod_eq_of_lt (by omega)]
    have hone : (add1305 h minusp).getD 16 0#w >>> 7 = 1#w := by
      refine BitVec.eq_of_toNat_eq ?_
      rw [htop, hsub, toNat_ofNat hw (by decide)]
      omega
    rw [(zipWith_choose _ hlen).2 (by rw [hone, BitVec.neg_one_eq_allOnes])]
    exact ⟨hh, (Nat.mod_eq_of_lt (by omega)).symm⟩

/-- The bytes that the first half of the key is masked with. -/
def clampBytes : ZendString := [255, 255, 255, 15, 252, 255, 255, 15, 252, 255, 255, 15, 252, 255, 255, 15]

theorem clamp_eq {k : ZendString} (hk : 16 ≤ k.length) :
    clamp k = List.zipWith (· &&& ·) (k.take 16) clampBytes := by
  have hlen : (k.take 16).length = 16 := by rw [List.length_take, Nat.min_eq_left hk]
  have h255 : ∀ c : UInt8, c &&& 255 = c := fun c => UInt8.and_neg_one
  unfold clamp
  generalize k.take 16 = l at hlen
  match l, hlen with
  | [_, _, _, _, _, _, _, _, _, _, _, _, _, _, _, _], _ =>
    simp only [List.modify_succ_cons, List.modify_zero_cons, clampBytes, List.zipWith_cons_cons,
      List.zipWith_nil_left, h255]

theorem length_clamp {k : ZendString} (hk : 16 ≤ k.length) : (clamp k).length = 16 := by
  rw [clamp_eq hk, List.length_zipWith, List.length_take, Nat.min_eq_left hk]
  rfl

theorem littleEndian_clamp {k : ZendString} (hk : 16 ≤ k.length) :
    littleEndian (clamp k) = littleEndian (k.take 16) &&& clampMask := by
  have hlen : (k.take 16).length = clampBytes.length := by
    rw [List.length_take, Nat.min_eq_left hk]
    rfl
  rw [clamp_eq hk, littleEndian_zipWith_and hlen]
  rfl

/-- The first 16 digits, as bytes. -/
theorem littleEndian_out {h : List (U32 w)} (hh : Ordered h) :
    littleEndian ((h.take 16).map toByte) = val h % 256 ^ 16 := by
  have hlen : (h.take 16).length = 16 := by rw [List.length_take, hh.length_eq]; rfl
  have hlt : ∀ x ∈ h.take 16, x.toNat < 256 := fun x hx => hh.lt x (List.mem_of_mem_take hx)
  have hval : littleEndian ((h.take 16).map toByte) = val (h.take 16) := by
    unfold littleEndian val
    rw [List.map_map]
    refine congrArg _ (List.map_congr_left fun x hx => ?_)
    rw [Function.comp_apply, toNat_toByte, Nat.mod_eq_of_lt (hlt x hx)]
  have hmax := val_lt hlt
  rw [hlen] at hmax
  rw [hval, ← List.take_append_drop 16 h, val_append, List.take_append_drop, hlen,
    Nat.add_mul_mod_self_left, Nat.mod_eq_of_lt hmax]

variable (w) in
theorem cryptoOnetimeauth_spec (hw : 32 ≤ w) (m : ZendString) {k : ZendString} (hk : k.length = 32) :
    (cryptoOnetimeauth w m k).length = 16 ∧
      littleEndian (cryptoOnetimeauth w m k) = tag m k := by
  have hk16 : 16 ≤ k.length := by omega
  have hr : Ordered ((clamp k).map ofByte ++ [0#w]) :=
    ordered_append (by simp [length_clamp hk16]) (ofByte_lt hw _) (by simp)
  have hrval : val ((clamp k).map ofByte ++ [0#w]) = littleEndian (k.take 16) &&& clampMask := by
    rw [val_append, val_map_ofByte hw, val_singleton, littleEndian_clamp hk16, BitVec.toNat_zero,
      Nat.mul_zero, Nat.add_zero]
  have hc : Ordered (((k.drop 16).take 16).map ofByte ++ [0#w]) :=
    ordered_append (by simp [hk]) (ofByte_lt hw _) (by simp)
  have hcval : val (((k.drop 16).take 16).map ofByte ++ [0#w]) = littleEndian (k.drop 16) := by
    rw [val_append, val_map_ofByte hw, val_singleton, BitVec.toNat_zero, Nat.mul_zero, Nat.add_zero,
      List.take_of_length_le (by rw [List.length_drop, hk])]
  have hzero : Ordered (List.replicate 17 0#w) := ⟨List.length_replicate, fun x hx => by
    rw [List.eq_of_mem_replicate hx, BitVec.toNat_zero]; decide⟩
  obtain ⟨ho, hlt, hmod⟩ := loop_spec hw hr m hzero (by rw [val_replicate_zero]; decide)
  obtain ⟨hf, hfval⟩ := freeze_spec hw ho hlt
  obtain ⟨ha, haval⟩ := add1305_spec hw hf hc
  have hslt := littleEndian_lt (k.drop 16)
  rw [List.length_drop, hk] at hslt
  have hhash : val (freeze (loop ((clamp k).map ofByte ++ [0#w]) (List.replicate 17 0#w) m)) =
      keyed m (littleEndian (k.take 16)) := by
    rw [val_replicate_zero, hrval] at hmod
    rw [hfval, hmod]
    exact Nat.mod_eq_of_lt (hash_lt prime_modulus.pos _)
  have hhlt : keyed m (littleEndian (k.take 16)) < modulus := hash_lt prime_modulus.pos _
  have hmax : modulus < 4 * 256 ^ 16 := by decide
  refine ⟨?_, ?_⟩
  · unfold cryptoOnetimeauth
    rw [List.length_map, List.length_take, ha.length_eq]
    rfl
  · unfold cryptoOnetimeauth
    dsimp only
    rw [littleEndian_out ha, haval, hhash, hcval, Nat.mod_eq_of_lt (b := 256 ^ 17) (by omega)]
    rfl

/-- The tag, in bytes. -/
theorem cryptoOnetimeauth_eq (hw : 32 ≤ w) (m : ZendString) {k : ZendString} (hk : k.length = 32) :
    cryptoOnetimeauth w m k = bytes 16 (tag m k) := by
  obtain ⟨hlen, hval⟩ := cryptoOnetimeauth_spec w hw m hk
  refine littleEndian_inj (hlen.trans (length_bytes 16 _).symm) ?_
  rw [hval, littleEndian_bytes]
  exact (Nat.mod_eq_of_lt (Nat.mod_lt _ (by decide))).symm

/-- **The tag**, in bytes: that of Poly1305, whatever the width of a word. -/
theorem onetimeauth_poly1305 (hw : 32 ≤ w) (m : ZendString) {k : ZendString} (hk : k.length = 32) :
    cryptoOnetimeauth w m k = bytes 16 (tag m k) := cryptoOnetimeauth_eq hw m hk

theorem onetimeauth_poly1305_sevens :
    cryptoOnetimeauth 64 (zstr "a message") (List.replicate 32 7) =
      bytes 16 (tag (zstr "a message") (List.replicate 32 7)) :=
  onetimeauth_poly1305 (by decide) _ List.length_replicate

end Snuffleupagus.Nacl.OneTimeAuth
