import Mathlib.Data.Int.Notation
import Mathlib.Data.List.TakeWhile
import Mathlib.Tactic.Ring

/-! # Byte strings and the C string functions

A `zend_string` is a list of bytes, of any length and with any contents, NULs included. Its C view
(`cstr`) ends before the first NUL: it is what `strcmp`, `strlen` and the `%s` of a format see.

The functions of the C library the module calls are defined here as the C standard describes them:
the tokens of `strtok_r`, the numerals of `strtol` and its relatives, and the case-insensitive
comparison of PHP. -/

namespace Snuffleupagus.Php.Bytes

/-- A string of bytes. -/
abbrev ZendString := List UInt8

instance : LawfulBEq ZendString := inferInstance

/-- The bytes of a literal. -/
def zstr (s : String) : ZendString := s.toList.map fun c => UInt8.ofNat c.toNat

/-- The C view of a string: everything before the first NUL. -/
def cstr (s : ZendString) : ZendString := s.takeWhile (· ≠ 0)

theorem cstr_eq_self {s : ZendString} (h : ∀ c ∈ s, c ≠ 0) : cstr s = s :=
  List.takeWhile_eq_self_iff.mpr fun c hc => by simpa using h c hc

theorem cstr_cstr (s : ZendString) : cstr (cstr s) = cstr s :=
  cstr_eq_self fun c hc => by simpa using List.mem_takeWhile_imp hc

/-- The tokens `strtok_r` returns one after the other: the nonempty stretches between separators. -/
def strtok (sep : UInt8) (s : ZendString) : List ZendString := (s.splitOn sep).filter (· ≠ [])

/-- Strings without the separator, joined by it, are the tokens of the result. -/
theorem strtok_intercalate {sep : UInt8} {l : List ZendString} (hne : l ≠ [])
    (hsep : ∀ s ∈ l, sep ∉ s) (hpos : ∀ s ∈ l, s ≠ []) : strtok sep ([sep].intercalate l) = l := by
  unfold strtok
  rw [List.splitOn_intercalate sep hsep hne]
  exact List.filter_eq_self.mpr fun s hs => by simpa using hpos s hs

/-! ### Characters -/

/-- `isdigit` of the C locale. -/
def isDigit (c : UInt8) : Bool := 48 ≤ c && c ≤ 57

/-- `isspace` of the C locale. -/
def isSpace (c : UInt8) : Bool := c == 32 || (9 ≤ c && c ≤ 13)

/-- ASCII lower case. -/
def toLower (c : UInt8) : UInt8 := if 65 ≤ c && c ≤ 90 then c + 32 else c

/-- `zend_string_equals_literal_ci`. -/
def equalsCi (s t : ZendString) : Bool := s.map toLower == t.map toLower

/-! ### Numerals -/

/-- The digits at the head of a string, and their value appended to `acc`. -/
def digits (acc : ℕ) : ZendString → ℕ
  | c :: s => if isDigit c then digits (10 * acc + (c.toNat - 48)) s else acc
  | [] => acc

/-- The number `strtol` reads at the head of a string, before any limit on its range: blanks, a
sign, digits. Without a digit nothing is read. -/
def strtoNum (s : ZendString) : Option ℤ :=
  match s.dropWhile isSpace with
  | [] => none
  | c :: t =>
    let u := if c = 43 ∨ c = 45 then t else c :: t
    match u with
    | [] => none
    | e :: _ => if isDigit e then some (if c = 45 then -(digits 0 u : ℤ) else digits 0 u) else none

/-- The largest and the smallest `long`. -/
def longMax : ℤ := 2 ^ 63 - 1
def longMin : ℤ := -2 ^ 63

/-- `strtoimax`: the value read, and whether it left the range (`ERANGE`). -/
def strtoimax (s : ZendString) : Option (ℤ × Bool) :=
  (strtoNum s).map fun v => (max longMin (min longMax v), decide (v < longMin ∨ longMax < v))

/-- `strtoul`: a sign negates modulo `2 ^ 64`. -/
def strtoul (s : ZendString) : Option (ℕ × Bool) :=
  (strtoNum s).map fun v =>
    if v.natAbs < 2 ^ 64 then ((v % 2 ^ 64).toNat, false) else (2 ^ 64 - 1, true)

/-- `atol`. -/
def atol (s : ZendString) : ℤ := ((strtoimax s).map Prod.fst).getD 0

/-- `atoi`: `strtol` cut to an `int`. -/
def atoi (s : ZendString) : ℤ := (atol s).bmod (2 ^ 32)

/-- The decimal numeral of a number. -/
def decimal (n : ℕ) : ZendString := (Nat.toDigits 10 n).map fun c => UInt8.ofNat c.toNat

/-- The decimal numeral with its sign. -/
def decimalInt (z : ℤ) : ZendString := if z < 0 then 45 :: decimal z.natAbs else decimal z.natAbs

/-! ### Encodings -/

/-- The digit of a number below 16, in the given alphabet. -/
def nibble (alphabet : ZendString) (n : ℕ) : UInt8 := alphabet.getD n 0

/-- The characters `php_raw_url_encode` keeps. -/
def isUnreserved (c : UInt8) : Bool :=
  isDigit c || (65 ≤ c && c ≤ 90) || (97 ≤ c && c ≤ 122) || c == 45 || c == 46 || c == 95 || c == 126

/-- `php_raw_url_encode`. -/
def rawUrlEncode (s : ZendString) : ZendString :=
  s.flatMap fun c => if isUnreserved c then [c] else
    [37, nibble (zstr "0123456789ABCDEF") (c.toNat / 16), nibble (zstr "0123456789ABCDEF") (c.toNat % 16)]

/-- `php_hash_bin2hex`: two lower-case digits a byte. -/
def bin2hex (s : ZendString) : ZendString :=
  s.flatMap fun c => [nibble (zstr "0123456789abcdef") (c.toNat / 16),
    nibble (zstr "0123456789abcdef") (c.toNat % 16)]

theorem length_bin2hex (s : ZendString) : (bin2hex s).length = 2 * s.length := by
  induction s with
  | nil => rfl
  | cons c s ih =>
    rw [bin2hex, List.flatMap_cons, List.length_append, ← bin2hex, ih]
    simp only [List.length_cons, List.length_nil]
    ring

end Snuffleupagus.Php.Bytes
