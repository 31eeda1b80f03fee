import Mathlib.Data.List.Basic
import Mathlib.Tactic.SplitIfs

/-! # Base 64

Three bytes are four digits of six bits, each written as a letter; an unfinished group of one or two
bytes is written with two or three letters and filled up with padding. The decoder skips whatever is
not a letter, and drops the bits of an unfinished byte at the end.

* `decode_encode`: decoding gives back what has been encoded;
* `eq_nil_of_encode`: only the empty string has an empty code;
* `length_encode`: how long a code is. -/

namespace Snuffleupagus.Lib.Base64

/-- The letters, in the order of their values. -/
def alphabet : List UInt8 :=
  "ABCDEFGHIJKLMNOPQRSTUVWXYZabcdefghijklmnopqrstuvwxyz0123456789+/".toList.map
    fun c => UInt8.ofNat c.toNat

/-- The letter of a digit. -/
def letter (n : ℕ) : UInt8 := alphabet.getD n 0

/-- The digit of a letter. -/
def digit? (c : UInt8) : Option ℕ := alphabet.idxOf? c

/-- The padding. -/
def pad : UInt8 := 61

/-- Encode. -/
def encode : List UInt8 → List UInt8
  | a :: b :: c :: s =>
    letter (a.toNat / 4) :: letter (a.toNat % 4 * 16 + b.toNat / 16) ::
      letter (b.toNat % 16 * 4 + c.toNat / 64) :: letter (c.toNat % 64) :: encode s
  | [a, b] =>
    [letter (a.toNat / 4), letter (a.toNat % 4 * 16 + b.toNat / 16), letter (b.toNat % 16 * 4), pad]
  | [a] => [letter (a.toNat / 4), letter (a.toNat % 4 * 16), pad, pad]
  | [] => []

/-- The bytes of a list of digits. -/
def bytes : List ℕ → List UInt8
  | x :: y :: z :: u :: l =>
    UInt8.ofNat (x * 4 + y / 16) :: UInt8.ofNat (y % 16 * 16 + z / 4) ::
      UInt8.ofNat (z % 4 * 64 + u) :: bytes l
  | [x, y, z] => [UInt8.ofNat (x * 4 + y / 16), UInt8.ofNat (y % 16 * 16 + z / 4)]
  | [x, y] => [UInt8.ofNat (x * 4 + y / 16)]
  | [_] => []
  | [] => []

/-- Decode. -/
def decode (s : List UInt8) : List UInt8 := bytes (s.filterMap digit?)

/-- A letter stands for its digit. -/
theorem digit?_letter {n : ℕ} (h : n < 64) : digit? (letter n) = some n := by
  have hall : ∀ n < 64, digit? (letter n) = some n := by decide +kernel
  exact hall n h

theorem digit?_pad : digit? pad = none := by decide

theorem filterMap_letter {n : ℕ} (h : n < 64) (s : List UInt8) :
    (letter n :: s).filterMap digit? = n :: s.filterMap digit? := by
  rw [List.filterMap_cons, digit?_letter h]

theorem filterMap_pad (s : List UInt8) : (pad :: s).filterMap digit? = s.filterMap digit? := by
  rw [List.filterMap_cons, digit?_pad]

theorem ofNat_eq {a : UInt8} {n : ℕ} (h : n = a.toNat) : UInt8.ofNat n = a := by
  rw [h, UInt8.ofNat_toNat]

/-- **Decoding gives back what has been encoded.** -/
theorem decode_encode : ∀ s : List UInt8, decode (encode s) = s
  | [] => rfl
  | [a] => by
    have ha := a.toNat_lt
    unfold decode encode
    rw [filterMap_letter (by omega), filterMap_letter (by omega), filterMap_pad, filterMap_pad]
    show [UInt8.ofNat _] = [a]
    rw [ofNat_eq (a := a) (by omega)]
  | [a, b] => by
    have ha := a.toNat_lt
    have hb := b.toNat_lt
    unfold decode encode
    rw [filterMap_letter (by omega), filterMap_letter (by omega), filterMap_letter (by omega),
      filterMap_pad]
    show [UInt8.ofNat _, UInt8.ofNat _] = [a, b]
    rw [ofNat_eq (a := a) (by omega), ofNat_eq (a := b) (by omega)]
  | a :: b :: c :: s => by
    have ha := a.toNat_lt
    have hb := b.toNat_lt
    have hc := c.toNat_lt
    have ih := decode_encode s
    unfold decode at ih
    unfold decode encode
    rw [filterMap_letter (by omega), filterMap_letter (by omega), filterMap_letter (by omega),
      filterMap_letter (by omega), bytes, ih, ofNat_eq (a := a) (by omega),
      ofNat_eq (a := b) (by omega), ofNat_eq (a := c) (by omega)]

/-- Only the empty string has an empty code. -/
theorem eq_nil_of_encode : ∀ {s : List UInt8}, encode s = [] → s = []
  | [], _ => rfl
  | [_], h => by cases h
  | [_, _], h => by cases h
  | _ :: _ :: _ :: _, h => by cases h

/-- **Four letters for three bytes.** -/
theorem length_encode : ∀ s : List UInt8, (encode s).length = 4 * ((s.length + 2) / 3)
  | [] => rfl
  | [_] => by simp [encode]
  | [_, _] => by simp [encode]
  | a :: b :: c :: s => by
    have ih := length_encode s
    unfold encode
    simp only [List.length_cons]
    omega

end Snuffleupagus.Lib.Base64
