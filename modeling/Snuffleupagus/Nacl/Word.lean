import Mathlib.Data.BitVec
import Mathlib.Data.List.GetD
import Snuffleupagus.Php.Bytes

/-! # The words of TweetNaCl

`u32` is an `unsigned long`: 32 bits on some machines and 64 on others. Its width is a parameter here, and
what the code computes does not depend on it as long as there are 32 bits at least. -/

namespace Snuffleupagus.Nacl.Word

open Snuffleupagus.Php.Bytes

/-- `u32`. -/
abbrev U32 (w : ℕ) := BitVec w

variable {w : ℕ}

/-- A `u8` where a `u32` is expected. -/
def ofByte (x : UInt8) : U32 w := x.toBitVec.setWidth w

/-- A `u32` stored to a `u8`. -/
def toByte (u : U32 w) : UInt8 := ⟨u.setWidth 8⟩

/-- `L32`. -/
def l32 (x : U32 w) (c : ℕ) : U32 w := (x <<< c) ||| ((x &&& 0xffffffff#w) >>> (32 - c))

/-- `ld32(x + i)`. -/
def ld32 (x : ZendString) (i : ℕ) : U32 w :=
  let u := ofByte (x.getD (i + 3) 0)
  let u := u <<< 8 ||| ofByte (x.getD (i + 2) 0)
  let u := u <<< 8 ||| ofByte (x.getD (i + 1) 0)
  u <<< 8 ||| ofByte (x.getD i 0)

/-- The bytes that `st32` writes. -/
def st32 (u : U32 w) : ZendString := (List.range 4).map fun i => toByte (u >>> (8 * i))

/-! ### Words as numbers -/

theorem toNat_ofByte (hw : 8 ≤ w) (x : UInt8) : (ofByte x : U32 w).toNat = x.toNat := by
  unfold ofByte
  rw [BitVec.toNat_setWidth]
  exact Nat.mod_eq_of_lt (x.toNat_lt.trans_le (Nat.pow_le_pow_right (by decide) hw))

@[simp] theorem toNat_toByte (u : U32 w) : (toByte u).toNat = u.toNat % 256 := by
  show (u.setWidth 8).toNat = _
  rw [BitVec.toNat_setWidth]

theorem toNat_ofNat (hw : 32 ≤ w) {n : ℕ} (hn : n < 2 ^ 32) : (BitVec.ofNat w n).toNat = n := by
  rw [BitVec.toNat_ofNat]
  exact Nat.mod_eq_of_lt (hn.trans_le (Nat.pow_le_pow_right (by decide) hw))

theorem toNat_add (hw : 32 ≤ w) {x y : U32 w} (h : x.toNat + y.toNat < 2 ^ 32) :
    (x + y).toNat = x.toNat + y.toNat := by
  rw [BitVec.toNat_add]
  exact Nat.mod_eq_of_lt (h.trans_le (Nat.pow_le_pow_right (by decide) hw))

theorem toNat_mul (hw : 32 ≤ w) {x y : U32 w} (h : x.toNat * y.toNat < 2 ^ 32) :
    (x * y).toNat = x.toNat * y.toNat := by
  rw [BitVec.toNat_mul]
  exact Nat.mod_eq_of_lt (h.trans_le (Nat.pow_le_pow_right (by decide) hw))

/-- `u & 255`. -/
theorem toNat_and_255 (hw : 32 ≤ w) (u : U32 w) : (u &&& 255#w).toNat = u.toNat % 256 := by
  rw [BitVec.toNat_and, toNat_ofNat hw (by decide)]
  exact Nat.and_two_pow_sub_one_eq_mod _ 8

/-- `u & 3`. -/
theorem toNat_and_3 (hw : 32 ≤ w) (u : U32 w) : (u &&& 3#w).toNat = u.toNat % 4 := by
  rw [BitVec.toNat_and, toNat_ofNat hw (by decide)]
  exact Nat.and_two_pow_sub_one_eq_mod _ 2

theorem toNat_shiftRight (u : U32 w) (n : ℕ) : (u >>> n).toNat = u.toNat / 2 ^ n := by
  rw [BitVec.toNat_ushiftRight, Nat.shiftRight_eq_div_pow]

/-! ### The low 32 bits -/

/-- The low 32 bits. -/
def low (u : U32 w) : BitVec 32 := u.setWidth 32

theorem low_add (hw : 32 ≤ w) (x y : U32 w) : low (x + y) = low x + low y := BitVec.setWidth_add x y hw

theorem low_sub (hw : 32 ≤ w) (x y : U32 w) : low (x - y) = low x - low y := by
  have h : low (x - y) + low y = low x := by rw [← low_add hw, BitVec.sub_add_cancel]
  rw [← h, BitVec.add_sub_cancel]

@[simp] theorem low_xor (x y : U32 w) : low (x ^^^ y) = low x ^^^ low y := BitVec.setWidth_xor

@[simp] theorem low_zero : low (0#w) = 0#32 := by simp [low]

/-- **`L32` rotates the low 32 bits**, whatever stands above them. -/
theorem low_l32 (hw : 32 ≤ w) (x : U32 w) {c : ℕ} (hc : c < 32) : low (l32 x c) = (low x).rotateLeft c := by
  refine BitVec.eq_of_getLsbD_eq fun i hi => ?_
  have hmask : (0xffffffff#w).getLsbD (32 - c + i) = decide (32 - c + i < 32) := by
    rw [show (0xffffffff#w) = (BitVec.allOnes 32).setWidth w from by
      refine BitVec.eq_of_toNat_eq ?_
      rw [BitVec.toNat_setWidth, BitVec.toNat_ofNat]
      rfl]
    rw [BitVec.getLsbD_setWidth, BitVec.getLsbD_allOnes]
    by_cases h : 32 - c + i < 32
    · simp [h]; omega
    · simp [h]
  unfold low l32
  rw [BitVec.getLsbD_setWidth, BitVec.getLsbD_or, BitVec.getLsbD_shiftLeft, BitVec.getLsbD_ushiftRight,
    BitVec.getLsbD_and, hmask, BitVec.getLsbD_rotateLeft, BitVec.getLsbD_setWidth, BitVec.getLsbD_setWidth]
  by_cases h : i < c
  · simp [h, hi, Nat.mod_eq_of_lt hc, Bool.and_comm]
  · -- the bit comes from below, and nothing is or'ed to it
    have hhigh : ¬ 32 - c + i < 32 := by omega
    have hw : i < w := by omega
    have hlow : i - c < 32 := by omega
    simp [h, hi, hhigh, hw, hlow, Nat.mod_eq_of_lt hc]

end Snuffleupagus.Nacl.Word
