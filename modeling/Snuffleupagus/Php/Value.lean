import Snuffleupagus.Lib.Table
import Snuffleupagus.Php.Bytes

/-! # PHP values

A `zval` is an inductive value. Arrays are lists of entries under string or integer keys, objects are
handles into the object store (`World.objects`), and a reference holds the value it points to.
`indirect` and `ptr` are the slots that symbol tables, property tables and constant tables hold
instead of values. A double is its bit pattern: it is printed and never computed with. -/

namespace Snuffleupagus.Php.Value

open Snuffleupagus.Lib.Table Snuffleupagus.Php.Bytes

/-- A key of a `HashTable`: a string, or an index (a `zend_ulong`). -/
inductive HashKey
  | str (s : ZendString)
  | idx (h : BitVec 64)
  deriving DecidableEq

/-- The type tags of `zval`s. -/
inductive ZType
  | undef | null | false | true | long | double | string | array | object | resource | reference
  | indirect | ptr
  deriving DecidableEq, Repr

/-- A PHP value. -/
inductive Zval
  | undef
  | null
  | false
  | true
  | long (n : Int)
  | double (bits : BitVec 64)
  | string (s : ZendString)
  | array (ht : List (HashKey × Zval))
  | object (handle : ℕ)
  | resource (handle : ℕ)
  | reference (v : Zval)
  | indirect (v : Zval)
  | ptr (v : Zval)

namespace Zval

/-- `Z_TYPE_P`. -/
def type : Zval → ZType
  | undef => .undef
  | null => .null
  | false => .false
  | true => .true
  | long _ => .long
  | double _ => .double
  | string _ => .string
  | array _ => .array
  | object _ => .object
  | resource _ => .resource
  | reference _ => .reference
  | indirect _ => .indirect
  | ptr _ => .ptr

/-- What the slots of a table finally hold. -/
def strip : Zval → Zval
  | indirect v => v.strip
  | ptr v => v.strip
  | v => v

end Zval

/-- A hash table with values, in the order of insertion. -/
abbrev HashTable := List (HashKey × Zval)

/-- `zend_hash_find` and `zend_hash_index_find`. -/
def zendHashFind (ht : HashTable) (k : HashKey) : Option Zval := OrdTable.lookup k ht

/-- The digits of a numeral without a superfluous zero in front. -/
def isCanonicalNumeral : ZendString → Bool
  | [] => .false
  | [c] => isDigit c
  | c :: s => isDigit c && c != 48 && s.all isDigit

/-- `ZEND_HANDLE_NUMERIC_STR`: the key a string stands for in a symbol table. The canonical decimal
numerals within the range of a `long`, its smallest value excepted, stand for their number. -/
def symtableKey (s : ZendString) : HashKey :=
  match s with
  | [] => .str []
  | c :: t =>
    let v : Int := if c = 45 then -(digits 0 t : Int) else digits 0 s
    if (if c = 45 then isCanonicalNumeral t && t != [48] else isCanonicalNumeral s) &&
        decide (longMin < v ∧ v ≤ longMax) then
      .idx (BitVec.ofInt 64 v)
    else .str s

/-- A string that starts with neither a digit nor a sign stands for itself. -/
theorem symtableKey_of_head {c : UInt8} {t : ZendString} (hd : isDigit c = .false) (hm : c ≠ 45) :
    symtableKey (c :: t) = .str (c :: t) := by
  have hn : isCanonicalNumeral (c :: t) = .false := by
    cases t <;> simp [isCanonicalNumeral, hd]
  unfold symtableKey
  simp only [hm, if_false, hn, Bool.false_and]
  rfl

theorem symtableKey_nil : symtableKey [] = .str [] := rfl

end Snuffleupagus.Php.Value
