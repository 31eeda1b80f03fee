import Mathlib.Data.List.Basic
import Mathlib.Tactic.SplitIfs

/-! # A secret box over a stream cipher and a one-time authenticator

The construction of `crypto_secretbox`: the message starts with 32 zeros, so that the cipher leaves
the first 32 bytes of its stream there. They are the key of the authenticator and are replaced by 16
zeros and the tag of the rest. Opening a box computes this key afresh, compares the tags and undoes
the cipher.

* `length_box`: a box is as long as its message;
* `open_box`: opening undoes boxing, for every message that starts with 32 zeros;
* `open_eq_some_iff`: nothing else opens, but for the first 16 bytes, which nothing compares. -/

namespace Snuffleupagus.Lib.SecretBox

/-- A stream cipher, by the bytes of its stream under a nonce and a key, and an authenticator with
tags of 16 bytes. -/
structure Primitives where
  stream : List UInt8 → List UInt8 → ℕ → UInt8
  auth : List UInt8 → List UInt8 → List UInt8
  length_auth : ∀ m k, (auth m k).length = 16

namespace Primitives
variable (P : Primitives) (n k : List UInt8)

/-- The message under the cipher: byte `i` is xored with byte `i` of the stream. -/
def xor (m : List UInt8) : List UInt8 := m.mapIdx fun i b => b ^^^ P.stream n k i

/-- The first `d` bytes of the stream. -/
def streamBytes (d : ℕ) : List UInt8 := (List.range d).map (P.stream n k)

/-- Box a message; one of less than 32 bytes is refused. -/
def box (m : List UInt8) : Option (List UInt8) :=
  if m.length < 32 then none
  else
    let c := P.xor n k m
    some (List.replicate 16 0 ++ P.auth (c.drop 32) (c.take 32) ++ c.drop 32)

/-- Open a box: nothing, if it is too short or its tag is not that of the rest. -/
def open? (c : List UInt8) : Option (List UInt8) :=
  if c.length < 32 then none
  else if P.auth (c.drop 32) (P.streamBytes n k 32) = (c.drop 16).take 16 then
    some (List.replicate 32 0 ++ (P.xor n k c).drop 32)
  else none

/-- The message starts with 32 zeros. -/
def ZeroPadded (m : List UInt8) : Prop := ∃ s, m = List.replicate 32 0 ++ s

variable {P n k} {m c : List UInt8}

@[simp] theorem length_xor (m : List UInt8) : (P.xor n k m).length = m.length := by simp [xor]

theorem getElem_xor {i : ℕ} (h : i < (P.xor n k m).length) (hi : i < m.length) :
    (P.xor n k m)[i] = m[i] ^^^ P.stream n k i := by simp [xor]

/-- The cipher undoes itself. -/
theorem xor_xor (m : List UInt8) : P.xor n k (P.xor n k m) = m := by
  refine List.ext_getElem (by simp) fun i h₁ h₂ => ?_
  have hi : i < (P.xor n k m).length := by simpa using h₂
  rw [getElem_xor h₁ hi, getElem_xor hi h₂, UInt8.xor_assoc, UInt8.xor_self, UInt8.xor_zero]

/-- Behind its head, the cipher does not see the head. -/
theorem drop_xor_congr {m m' : List UInt8} {d : ℕ} (hl : m.length = m'.length)
    (h : m.drop d = m'.drop d) : (P.xor n k m).drop d = (P.xor n k m').drop d := by
  refine List.ext_getElem (by simp [hl]) fun i h₁ h₂ => ?_
  have hi : i < (m.drop d).length := by simpa using h₁
  have hd : d + i < m.length := by
    rw [List.length_drop] at hi
    omega
  have hd' : d + i < m'.length := hl ▸ hd
  have hm : m[d + i] = m'[d + i] := by
    rw [← List.getElem_drop (h := hi), List.getElem_of_eq h hi, List.getElem_drop]
  rw [List.getElem_drop, List.getElem_drop, getElem_xor (by simpa using hd) hd,
    getElem_xor (by simpa using hd') hd', hm]

/-- On zeros the cipher leaves its stream. -/
theorem take_xor_zeroPadded (hz : ZeroPadded m) : (P.xor n k m).take 32 = P.streamBytes n k 32 := by
  obtain ⟨s, rfl⟩ := hz
  refine List.ext_getElem (by simp [streamBytes]) fun i h₁ h₂ => ?_
  have hi : i < 32 := by simpa [streamBytes] using h₂
  rw [List.getElem_take, getElem_xor _ (by simp; omega), List.getElem_append_left (by simpa using hi),
    List.getElem_replicate, UInt8.zero_xor]
  simp [streamBytes]

theorem length_of_zeroPadded (hz : ZeroPadded m) : 32 ≤ m.length := by
  obtain ⟨s, rfl⟩ := hz
  simp

/-- A padded message has a box. -/
theorem box_eq (hz : ZeroPadded m) : P.box n k m =
    some (List.replicate 16 0 ++ P.auth ((P.xor n k m).drop 32) (P.streamBytes n k 32) ++
      (P.xor n k m).drop 32) := by
  have hl := length_of_zeroPadded hz
  unfold box
  dsimp only
  rw [if_neg (by omega), take_xor_zeroPadded hz]

/-- A box is as long as its message. -/
theorem length_box (h : P.box n k m = some c) : c.length = m.length := by
  unfold box at h
  split_ifs at h with hl
  cases h
  simp [P.length_auth]
  omega

/-- A box starts with 16 zeros. -/
theorem box_head (h : P.box n k m = some c) : c = List.replicate 16 0 ++ c.drop 16 := by
  unfold box at h
  split_ifs at h
  cases h
  rw [List.append_assoc, List.drop_left' List.length_replicate]

/-- **Opening undoes boxing.** -/
theorem open_box (hz : ZeroPadded m) (h : P.box n k m = some c) : P.open? n k c = some m := by
  have hl := length_of_zeroPadded hz
  have hlc := length_box h
  rw [box_eq hz] at h
  set tag := P.auth ((P.xor n k m).drop 32) (P.streamBytes n k 32) with htag
  have htl : tag.length = 16 := P.length_auth _ _
  have hc : c = List.replicate 16 0 ++ (tag ++ (P.xor n k m).drop 32) := by
    rw [← Option.some.inj h, List.append_assoc]
  have h16 : c.drop 16 = tag ++ (P.xor n k m).drop 32 := by
    rw [hc, List.drop_left' (by simp)]
  have h32 : c.drop 32 = (P.xor n k m).drop 32 := by
    rw [show (32 : ℕ) = 16 + 16 from rfl, ← List.drop_drop, h16, List.drop_left' htl]
  have hrest : (P.xor n k c).drop 32 = m.drop 32 := by
    rw [drop_xor_congr (by simpa using hlc) h32, xor_xor]
  have hpad : m = List.replicate 32 0 ++ m.drop 32 := by
    obtain ⟨s, hs⟩ := hz
    rw [hs, List.drop_left' (by simp)]
  unfold open?
  rw [if_neg (by omega), h16, List.take_left' htl, h32, if_pos htag.symm, hrest, ← hpad]

/-- What an opened box holds is padded, and as long as the box. -/
theorem open_eq_some (h : P.open? n k c = some m) :
    ZeroPadded m ∧ m.length = c.length ∧ 32 ≤ c.length := by
  unfold open? at h
  split_ifs at h with hl
  cases h
  refine ⟨⟨_, rfl⟩, ?_, by omega⟩
  simp
  omega

/-- The first 16 bytes of a box are not looked at. -/
theorem open_congr {c' : List UInt8} (hl : c.length = c'.length) (h : c.drop 16 = c'.drop 16) :
    P.open? n k c = P.open? n k c' := by
  have h32 : c.drop 32 = c'.drop 32 := by
    rw [show (32 : ℕ) = 16 + 16 from rfl, ← List.drop_drop, h, List.drop_drop]
  unfold open?
  rw [hl, h, h32, drop_xor_congr hl h32]

/-- **What opens** is the box of a padded message, up to its first 16 bytes. -/
theorem open_eq_some_iff : P.open? n k c = some m ↔
    ZeroPadded m ∧ ∃ b, P.box n k m = some b ∧ c.length = b.length ∧ c.drop 16 = b.drop 16 := by
  constructor
  · intro h
    obtain ⟨hz, hl, h32⟩ := open_eq_some h
    refine ⟨hz, _, box_eq hz, ?_, ?_⟩
    · rw [← hl, ← length_box (box_eq hz)]
    · -- the cipher undoes itself behind the head, so the tag is that of the rest
      unfold open? at h
      split_ifs at h with hshort htag
      cases h
      have hlen : (List.replicate 32 0 ++ (P.xor n k c).drop 32).length = (P.xor n k c).length := by
        rw [hl, length_xor]
      have hrest : (P.xor n k (List.replicate 32 0 ++ (P.xor n k c).drop 32)).drop 32 = c.drop 32 := by
        rw [drop_xor_congr hlen (List.drop_left' List.length_replicate), xor_xor]
      rw [hrest, htag, List.append_assoc, List.drop_left' List.length_replicate,
        show (32 : ℕ) = 16 + 16 from rfl, ← List.drop_drop, List.take_append_drop]
  · rintro ⟨hz, b, hb, hl, h⟩
    rw [open_congr hl h]
    exact open_box hz hb

end Primitives

end Snuffleupagus.Lib.SecretBox
