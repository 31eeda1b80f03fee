import Snuffleupagus.Match.VarValue
import Snuffleupagus.Php.Numeral

/-! # The index of a path

An index in a path is a string. PHP takes the canonical decimal numerals among the strings for integers
(`symtableKey`), and every other string for itself. `get_entry_hashtable` looks for the string, and if there
is no such key for the number `atol` reads in it. For a canonical numeral this is the integer it stands for
(`atol_of_symtableKey`), but `atol` reads a number in every string: where the text says none, it is zero. -/

namespace Snuffleupagus.Match.Index

open Snuffleupagus.Lib.Table Snuffleupagus.Php.Bytes Snuffleupagus.Php.Numeral Snuffleupagus.Php.Value
open Snuffleupagus.Match.VarValue

/-! ### Numerals -/

namespace PhpArray

variable (a : PhpArray)

variable {a}

end PhpArray

end Snuffleupagus.Match.Index
