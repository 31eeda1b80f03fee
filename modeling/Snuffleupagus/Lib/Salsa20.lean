import Mathlib.Data.List.FinRange
import Mathlib.Logic.Function.Iterate
import Mathlib.Data.BitVec
import Snuffleupagus.Lib.Radix

/-! # Salsa20 and XSalsa20

The words of a block stand in a square. A quarter-round mixes four words; a column round does so with every
column, starting on the diagonal, and a row round with every row. Twenty rounds, ten on the columns and ten
on the rows, and the block from before them make a block of the stream (`salsa20`). `hsalsa20` leaves out the
last step and makes a key from the first part of a long nonce; the stream of `xsalsa20` is the one under this
key. -/

namespace Snuffleupagus.Lib.Salsa20

open Snuffleupagus.Lib.Radix

/-- Four words. -/
abbrev Line := Vector (BitVec 32) 4

/-- The words of a block, by rows and columns. -/
abbrev Square := Vector Line 4

/-- A square by its words. -/
def ofWords (f : Fin 4 → Fin 4 → BitVec 32) : Square := Vector.ofFn fun r => Vector.ofFn (f r)

/-- Mix four words. -/
def quarterround (y : Line) : Line :=
  let z1 := y[1] ^^^ (y[0] + y[3]).rotateLeft 7
  let z2 := y[2] ^^^ (z1 + y[0]).rotateLeft 9
  let z3 := y[3] ^^^ (z2 + z1).rotateLeft 13
  let z0 := y[0] ^^^ (z3 + z2).rotateLeft 18
  #v[z0, z1, z2, z3]

/-- Every row, from the diagonal on. -/
def rowround (x : Square) : Square :=
  ofWords fun r c => (quarterround (Vector.ofFn fun m => x[r][r + m]))[c - r]

/-- Every column, from the diagonal on. -/
def columnround (x : Square) : Square :=
  ofWords fun r c => (quarterround (Vector.ofFn fun m => x[c + m][c]))[r - c]

/-- Columns, then rows. -/
def doubleround (x : Square) : Square := rowround (columnround x)

/-- Twenty rounds. -/
def rounds (x : Square) : Square := doubleround^[10] x

/-- Rows and columns exchanged. -/
def transpose (x : Square) : Square := ofWords fun r c => x[c][r]

@[simp] theorem getElem_ofWords (f : Fin 4 → Fin 4 → BitVec 32) (r c : Fin 4) : (ofWords f)[r][c] = f r c := by
  simp [ofWords]

/-- A row round is a column round of the other square. -/
theorem rowround_eq (x : Square) : rowround x = transpose (columnround (transpose x)) := by
  unfold rowround transpose columnround
  simp only [getElem_ofWords]

/-- **Two rounds on columns**, each followed by an exchange of rows and columns, are a double round. -/
theorem doubleround_eq (x : Square) :
    doubleround x = transpose (columnround (transpose (columnround x))) := rowround_eq (columnround x)

/-! ### Bytes -/

/-- Word `i` of some bytes. -/
def word (l : List UInt8) (i : ℕ) : BitVec 32 :=
  (l.getD (4 * i + 3) 0).toBitVec ++ (l.getD (4 * i + 2) 0).toBitVec ++ (l.getD (4 * i + 1) 0).toBitVec ++
    (l.getD (4 * i) 0).toBitVec

/-- The bytes of a word. -/
def wordBytes (u : BitVec 32) : List UInt8 := (List.range 4).map fun i => ⟨u.extractLsb' (8 * i) 8⟩

/-- `expand 32-byte k`. -/
def sigma : List UInt8 := [101, 120, 112, 97, 110, 100, 32, 51, 50, 45, 98, 121, 116, 101, 32, 107]

/-- The square of a key `k` and 16 bytes `n`, with the words of `sigma` on the diagonal. -/
def square (k n : List UInt8) : Square :=
  #v[#v[word sigma 0, word k 0, word k 1, word k 2],
    #v[word k 3, word sigma 1, word n 0, word n 1],
    #v[word n 2, word n 3, word sigma 2, word k 4],
    #v[word k 5, word k 6, word k 7, word sigma 3]]

/-- The 64 bytes of a block of the stream. -/
def salsa20 (k n : List UInt8) : List UInt8 :=
  let x := square k n
  let z := rounds x
  (List.finRange 4).flatMap fun r => (List.finRange 4).flatMap fun c => wordBytes (x[r][c] + z[r][c])

/-- A key of 32 bytes: the diagonal, and the words where `n` has been. -/
def hsalsa20 (k n : List UInt8) : List UInt8 :=
  let z := rounds (square k n)
  [z[0][0], z[1][1], z[2][2], z[3][3], z[1][2], z[1][3], z[2][0], z[2][1]].flatMap wordBytes

/-- Byte `i` of the stream under a nonce of 8 bytes: the blocks are numbered behind it. -/
def stream (k n : List UInt8) (i : ℕ) : UInt8 :=
  (salsa20 k (n.take 8 ++ bytes 8 (i / 64))).getD (i % 64) 0

/-- Byte `i` of the stream under a nonce of 24 bytes. -/
def xstream (k n : List UInt8) (i : ℕ) : UInt8 := stream (hsalsa20 k n) (n.drop 16) i

end Snuffleupagus.Lib.Salsa20
