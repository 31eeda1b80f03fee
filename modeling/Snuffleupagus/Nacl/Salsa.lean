import Mathlib.Tactic.FinCases
import Snuffleupagus.Lib.Salsa20
import Snuffleupagus.Nacl.Word

/-! # The stream cipher

`core` computes a block of Salsa20: every round mixes the columns of the square and exchanges its rows and
columns. The words have more than 32 bits where `unsigned long` does; what stands in the upper ones never
comes down.

* `core_salsa20`, `core_hsalsa20`: the blocks are those of Salsa20;
* `cryptoStreamSalsa20Xor_spec`: the message is xored with the stream, byte by byte, whatever its length;
* `stream_xsalsa20`: the same, with a nonce of 24 bytes. -/

namespace Snuffleupagus.Nacl.Salsa

open Snuffleupagus.Lib.Radix Snuffleupagus.Lib.Salsa20 Snuffleupagus.Php.Bytes Snuffleupagus.Nacl.Word

/-! ### The code -/

section Code
variable (w : ℕ)

/-- The words `x` that `core` starts with. -/
def coreInput (inp k c : ZendString) : List (U32 w) :=
  (List.range 4).foldl (fun x i =>
    let x := x.set (5 * i) (ld32 c (4 * i))
    let x := x.set (1 + i) (ld32 k (4 * i))
    let x := x.set (6 + i) (ld32 inp (4 * i))
    x.set (11 + i) (ld32 k (16 + 4 * i))) (List.replicate 16 0#w)

variable {w}

/-- The words `t`, mixed. -/
def coreMix (x : List (U32 w)) (j : ℕ) : List (U32 w) :=
  let t := (List.range 4).map fun m => x.getD ((5 * j + 4 * m) % 16) 0#w
  let t := t.set 1 (t.getD 1 0#w ^^^ l32 (t.getD 0 0#w + t.getD 3 0#w) 7)
  let t := t.set 2 (t.getD 2 0#w ^^^ l32 (t.getD 1 0#w + t.getD 0 0#w) 9)
  let t := t.set 3 (t.getD 3 0#w ^^^ l32 (t.getD 2 0#w + t.getD 1 0#w) 13)
  t.set 0 (t.getD 0 0#w ^^^ l32 (t.getD 3 0#w + t.getD 2 0#w) 18)

/-- The body of the loop over `j`: it writes to four of the words of `o`. -/
def coreColumn (x : List (U32 w)) (j : ℕ) (o : List (U32 w)) : List (U32 w) :=
  let t := coreMix x j
  (List.range 4).foldl (fun o m => o.set (4 * j + (j + m) % 4) (t.getD m 0#w)) o

/-- One of the twenty rounds. -/
def coreRound (x : List (U32 w)) : List (U32 w) :=
  (List.range 4).foldl (fun o j => coreColumn x j o) (List.replicate 16 0#w)

/-- `x[i] += y[i]`. -/
def addWords (x y : List (U32 w)) : List (U32 w) :=
  (List.range 16).foldl (fun x i => x.set i (x.getD i 0#w + y.getD i 0#w)) x

/-- The words that `core` takes out again where it makes a key. -/
def subWords (inp c : ZendString) (x : List (U32 w)) : List (U32 w) :=
  (List.range 4).foldl (fun x i =>
    let x := x.set (5 * i) (x.getD (5 * i) 0#w - ld32 c (4 * i))
    x.set (6 + i) (x.getD (6 + i) 0#w - ld32 inp (4 * i))) x

variable (w)

/-- `core`: what it writes to `out`. -/
def core (inp k c : ZendString) (h : Bool) : ZendString :=
  let y := coreInput w inp k c
  let x := coreRound^[20] y
  if h then
    let x := subWords inp c (addWords x y)
    (List.range 4).flatMap (fun i => st32 (x.getD (5 * i) 0#w)) ++
      (List.range 4).flatMap fun i => st32 (x.getD (6 + i) 0#w)
  else (List.range 16).flatMap fun i => st32 (x.getD i 0#w + y.getD i 0#w)

/-- `crypto_core_salsa20`. -/
def cryptoCoreSalsa20 (inp k c : ZendString) : ZendString := core w inp k c false

/-- `crypto_core_hsalsa20`. -/
def cryptoCoreHsalsa20 (inp k c : ZendString) : ZendString := core w inp k c true

variable {w} in
/-- The loop over the counter: `u` is what is carried. -/
def incrementFrom : ZendString → U32 w → ZendString
  | [], _ => []
  | c :: z, u =>
    let u := u + ofByte c
    toByte u :: incrementFrom z (u >>> 8)

/-- The next block: the counter is in the second half of `z`. -/
def increment (z : ZendString) : ZendString := z.take 8 ++ incrementFrom (z.drop 8) 1#w

/-- `(m?m[i]:0) ^ x[i]` for `b` bytes. -/
def xorBytes (m : Option ZendString) (b : ℕ) (x : ZendString) : ZendString :=
  (List.range b).map fun i => (m.elim 0 fun m => m.getD i 0) ^^^ x.getD i 0

/-- The loop of `crypto_stream_salsa20_xor`, with `b` bytes to go. -/
def xorLoop (k : ZendString) (m : Option ZendString) (b : ℕ) (z : ZendString) : ZendString :=
  if 64 ≤ b then
    xorBytes m 64 (cryptoCoreSalsa20 w z k sigma) ++
      xorLoop k (m.map fun m => m.drop 64) (b - 64) (increment w z)
  else if b ≠ 0 then xorBytes m b (cryptoCoreSalsa20 w z k sigma)
  else []
termination_by b

/-- `crypto_stream_salsa20_xor`; without a message it is the stream. -/
def cryptoStreamSalsa20Xor (m : Option ZendString) (b : ℕ) (n k : ZendString) : ZendString :=
  if b = 0 then [] else xorLoop w k m b (n.take 8 ++ List.replicate 8 0)

/-- `crypto_stream`. -/
def cryptoStream (d : ℕ) (n k : ZendString) : ZendString :=
  cryptoStreamSalsa20Xor w none d (n.drop 16) (cryptoCoreHsalsa20 w n k sigma)

/-- `crypto_stream_xor`, of a message of `m.length` bytes. -/
def cryptoStreamXor (m n k : ZendString) : ZendString :=
  cryptoStreamSalsa20Xor w (some m) m.length (n.drop 16) (cryptoCoreHsalsa20 w n k sigma)

end Code

variable {w : ℕ}

/-! ### Rounds -/

/-- The square that the low bits of 16 words make. -/
def squareOf (x : List (U32 w)) : Square := ofWords fun r c => low (x.getD (4 * r + c) 0#w)

/-- What the loops over `j` and `m` write, and where. -/
theorem foldl_rotated {α : Type*} (f : ℕ → ℕ → α) (z : α) :
    (List.range 4).foldl (fun o j => (List.range 4).foldl (fun o m => o.set (4 * j + (j + m) % 4) (f j m)) o)
      (List.replicate 16 z) =
    [f 0 0, f 0 1, f 0 2, f 0 3, f 1 3, f 1 0, f 1 1, f 1 2, f 2 2, f 2 3, f 2 0, f 2 1, f 3 1, f 3 2, f 3 3,
      f 3 0] := by
  have h4 : List.range 4 = [0, 1, 2, 3] := rfl
  simp [h4, List.replicate]

theorem getD_coreRound (x : List (U32 w)) (r c : Fin 4) :
    (coreRound x).getD (4 * r + c) 0#w = (coreMix x r).getD (c - r : Fin 4) 0#w := by
  unfold coreRound coreColumn
  rw [foldl_rotated fun j m => (coreMix x j).getD m 0#w]
  generalize coreMix x = t
  fin_cases r <;> fin_cases c <;> rfl

theorem low_coreMix (hw : 32 ≤ w) (x : List (U32 w)) (r m : Fin 4) :
    low ((coreMix x r).getD m 0#w) =
      (quarterround (Vector.ofFn fun m : Fin 4 => low (x.getD ((5 * r + 4 * m) % 16) 0#w)))[m] := by
  fin_cases m <;> simp [coreMix, quarterround, low_add hw, low_l32 hw, List.range_succ]

/-- **A round** mixes the columns and exchanges rows and columns. -/
theorem squareOf_coreRound (hw : 32 ≤ w) (x : List (U32 w)) :
    squareOf (coreRound x) = transpose (columnround (squareOf x)) := by
  have hdiag (r m : Fin 4) : (5 * r + 4 * m : ℕ) % 16 = 4 * ((r + m : Fin 4) : ℕ) + r := by
    fin_cases r <;> fin_cases m <;> rfl
  unfold squareOf transpose columnround
  simp only [getElem_ofWords, getD_coreRound, low_coreMix hw, hdiag]

theorem squareOf_iterate (hw : 32 ≤ w) (x : List (U32 w)) :
    squareOf (coreRound^[20] x) = rounds (squareOf x) := by
  have htwo : Function.Semiconj (squareOf (w := w)) coreRound^[2] doubleround := fun x => by
    rw [doubleround_eq]
    show squareOf (coreRound (coreRound x)) = _
    rw [squareOf_coreRound hw, squareOf_coreRound hw]
  show squareOf (coreRound^[2 * 10] x) = _
  rw [Function.iterate_mul]
  exact htwo.iterate_right 10 x

/-! ### Words and bytes -/

theorem shiftLeft_or_setWidth {n : ℕ} (x : BitVec n) (y : BitVec 8) :
    (x.setWidth w <<< 8 ||| y.setWidth w) = (x ++ y).setWidth w := by
  refine BitVec.eq_of_getLsbD_eq fun i hi => ?_
  by_cases h : i < 8
  · simp [BitVec.getLsbD_append, h, hi]
  · have hy : y.getLsbD i = false := BitVec.getLsbD_of_ge _ _ (by omega)
    simp [BitVec.getLsbD_append, h, hi, hy]

theorem low_ld32 (hw : 32 ≤ w) (x : ZendString) (i : ℕ) : low (ld32 x (4 * i) : U32 w) = word x i := by
  have hld : (ld32 x (4 * i) : U32 w) = (word x i).setWidth w := by
    unfold ld32 word ofByte
    dsimp only
    rw [shiftLeft_or_setWidth, shiftLeft_or_setWidth, shiftLeft_or_setWidth]
  unfold low
  rw [hld, BitVec.setWidth_setWidth_of_le _ hw]
  simp

theorem st32_eq (u : U32 w) : st32 u = wordBytes (low u) := by
  unfold st32 wordBytes
  refine List.map_congr_left fun i hi => ?_
  rw [List.mem_range] at hi
  unfold toByte low
  congr 1
  refine BitVec.eq_of_getLsbD_eq fun j hj => ?_
  have hlow : 8 * i + j < 32 := by omega
  simp [hj, hlow]

/-! ### Blocks -/

/-- The square of 16 words in a row. -/
theorem ofWords_getD {α : Type*} (f : α → BitVec 32)
    (z x0 x1 x2 x3 x4 x5 x6 x7 x8 x9 x10 x11 x12 x13 x14 x15 : α) :
    (ofWords fun r c =>
      f ([x0, x1, x2, x3, x4, x5, x6, x7, x8, x9, x10, x11, x12, x13, x14, x15].getD (4 * r + c) z)) =
    #v[#v[f x0, f x1, f x2, f x3], #v[f x4, f x5, f x6, f x7], #v[f x8, f x9, f x10, f x11],
      #v[f x12, f x13, f x14, f x15]] := rfl

/-- What the loop over the input writes, and where. -/
theorem foldl_input {α : Type*} (c k inp l : ℕ → α) (z : α) :
    (List.range 4).foldl
      (fun x i => (((x.set (5 * i) (c i)).set (1 + i) (k i)).set (6 + i) (inp i)).set (11 + i) (l i))
      (List.replicate 16 z) =
    [c 0, k 0, k 1, k 2, k 3, c 1, inp 0, inp 1, inp 2, inp 3, c 2, l 0, l 1, l 2, l 3, c 3] := by
  have h4 : List.range 4 = [0, 1, 2, 3] := rfl
  simp [h4, List.replicate]

theorem coreInput_eq (inp k c : ZendString) :
    coreInput w inp k c =
      [ld32 c 0, ld32 k 0, ld32 k 4, ld32 k 8, ld32 k 12, ld32 c 4, ld32 inp 0, ld32 inp 4, ld32 inp 8,
        ld32 inp 12, ld32 c 8, ld32 k 16, ld32 k 20, ld32 k 24, ld32 k 28, ld32 c 12] :=
  foldl_input (fun i => ld32 c (4 * i)) (fun i => ld32 k (4 * i)) (fun i => ld32 inp (4 * i))
    (fun i => ld32 k (16 + 4 * i)) 0#w

theorem squareOf_coreInput (hw : 32 ≤ w) (n k : ZendString) :
    squareOf (coreInput w n k sigma) = square k n := by
  have hlow (x : ZendString) (i : ℕ) : word x i = low (ld32 x (4 * i) : U32 w) := (low_ld32 hw x i).symm
  unfold square squareOf
  rw [coreInput_eq, ofWords_getD]
  simp only [hlow, Nat.reduceMul]

theorem flatMap_range_16 {α : Type*} (f : ℕ → List α) : (List.range 16).flatMap f =
    (List.finRange 4).flatMap fun r : Fin 4 => (List.finRange 4).flatMap fun c : Fin 4 => f (4 * r + c) := by
  have h16 : List.range 16 = [0, 1, 2, 3, 4, 5, 6, 7, 8, 9, 10, 11, 12, 13, 14, 15] := rfl
  simp [h16, List.finRange_succ]

/-- **A block of the stream** is one of Salsa20. -/
theorem core_salsa20 (hw : 32 ≤ w) (n k : ZendString) : cryptoCoreSalsa20 w n k sigma = salsa20 k n := by
  set y := coreInput w n k sigma with hy
  have hin : squareOf y = square k n := squareOf_coreInput hw n k
  have hout : squareOf (coreRound^[20] y) = rounds (square k n) := by rw [squareOf_iterate hw, hin]
  have hword (r c : Fin 4) : wordBytes ((square k n)[r][c] + (rounds (square k n))[r][c]) =
      st32 ((coreRound^[20] y).getD (4 * r + c) 0#w + y.getD (4 * r + c) 0#w) := by
    rw [st32_eq, low_add hw, ← hout, ← hin, squareOf, squareOf, getElem_ofWords, getElem_ofWords,
      BitVec.add_comm]
  unfold cryptoCoreSalsa20 core salsa20
  simp only [hword, ← hy, Bool.false_eq_true, if_false, flatMap_range_16]

/-- What the loop that adds `y` writes. -/
theorem addWords_eq (y : List (U32 w)) (x0 x1 x2 x3 x4 x5 x6 x7 x8 x9 x10 x11 x12 x13 x14 x15 : U32 w) :
    addWords [x0, x1, x2, x3, x4, x5, x6, x7, x8, x9, x10, x11, x12, x13, x14, x15] y =
      List.zipWith (fun x i => x + y.getD i 0#w)
        [x0, x1, x2, x3, x4, x5, x6, x7, x8, x9, x10, x11, x12, x13, x14, x15] (List.range 16) := by
  have h16 : List.range 16 = [0, 1, 2, 3, 4, 5, 6, 7, 8, 9, 10, 11, 12, 13, 14, 15] := rfl
  simp [addWords, h16]

theorem getD_subWords (inp c : ZendString) (x y : List (U32 w)) (i : Fin 4) :
    (subWords inp c (addWords (coreRound x) y)).getD (5 * i) 0#w =
        (coreRound x).getD (5 * i) 0#w + y.getD (5 * i) 0#w - ld32 c (4 * i) ∧
      (subWords inp c (addWords (coreRound x) y)).getD (6 + i) 0#w =
        (coreRound x).getD (6 + i) 0#w + y.getD (6 + i) 0#w - ld32 inp (4 * i) := by
  have h4 : List.range 4 = [0, 1, 2, 3] := rfl
  have h16 : List.range 16 = [0, 1, 2, 3, 4, 5, 6, 7, 8, 9, 10, 11, 12, 13, 14, 15] := rfl
  have hround := foldl_rotated (fun j m => (coreMix x j).getD m 0#w) 0#w
  unfold coreRound coreColumn
  dsimp only
  rw [hround, addWords_eq]
  generalize coreMix x = t
  fin_cases i <;> simp [subWords, h4, h16]

theorem getD_coreInput (inp k c : ZendString) (i : Fin 4) :
    (coreInput w inp k c).getD (5 * i) 0#w = ld32 c (4 * i) ∧
      (coreInput w inp k c).getD (6 + i) 0#w = ld32 inp (4 * i) := by
  rw [coreInput_eq]
  fin_cases i <;> simp

/-- What is taken out again is what has been put in. -/
theorem low_subWords (hw : 32 ≤ w) (inp k c : ZendString) (i : Fin 4) :
    low ((subWords inp c (addWords (coreRound^[20] (coreInput w inp k c)) (coreInput w inp k c))).getD
        (5 * i) 0#w) = low ((coreRound^[20] (coreInput w inp k c)).getD (5 * i) 0#w) ∧
      low ((subWords inp c (addWords (coreRound^[20] (coreInput w inp k c)) (coreInput w inp k c))).getD
        (6 + i) 0#w) = low ((coreRound^[20] (coreInput w inp k c)).getD (6 + i) 0#w) := by
  rw [Function.iterate_succ_apply']
  obtain ⟨hdiag, hmid⟩ := getD_subWords inp c (coreRound^[19] (coreInput w inp k c)) (coreInput w inp k c) i
  obtain ⟨hc, hn⟩ := getD_coreInput (w := w) inp k c i
  rw [hdiag, hmid, hc, hn, low_sub hw, low_sub hw, low_add hw, low_add hw, BitVec.add_sub_cancel,
    BitVec.add_sub_cancel]
  exact ⟨rfl, rfl⟩

/-- **The key that is made from the first part of a nonce** is that of HSalsa20. -/
theorem core_hsalsa20 (hw : 32 ≤ w) (n k : ZendString) : cryptoCoreHsalsa20 w n k sigma = hsalsa20 k n := by
  have h4 : List.range 4 = [0, 1, 2, 3] := rfl
  have hout : squareOf (coreRound^[20] (coreInput w n k sigma)) = rounds (square k n) := by
    rw [squareOf_iterate hw, squareOf_coreInput hw]
  have hword (r c : Fin 4) : (rounds (square k n))[r][c] =
      low ((coreRound^[20] (coreInput w n k sigma)).getD (4 * r + c) 0#w) := by
    rw [← hout, squareOf, getElem_ofWords]
  have hsub := low_subWords hw n k sigma
  unfold cryptoCoreHsalsa20 core hsalsa20
  dsimp only
  generalize subWords n sigma (addWords (coreRound^[20] (coreInput w n k sigma)) (coreInput w n k sigma)) = x
    at hsub
  generalize coreRound^[20] (coreInput w n k sigma) = z at hsub hword
  have hdiag (i : Fin 4) : st32 (x.getD (5 * i) 0#w) = wordBytes ((rounds (square k n))[i][i]) := by
    rw [st32_eq, (hsub i).1, hword, show (5 * (i : ℕ)) = 4 * i + i by omega]
  have hmid (i r c : Fin 4) (hi : (6 + i : ℕ) = 4 * r + c) :
      st32 (x.getD (6 + i) 0#w) = wordBytes ((rounds (square k n))[r][c]) := by
    rw [st32_eq, (hsub i).2, hword, hi]
  have h0 : st32 (x.getD 0 0#w) = wordBytes ((rounds (square k n))[0][0]) := hdiag 0
  have h5 : st32 (x.getD 5 0#w) = wordBytes ((rounds (square k n))[1][1]) := hdiag 1
  have h10 : st32 (x.getD 10 0#w) = wordBytes ((rounds (square k n))[2][2]) := hdiag 2
  have h15 : st32 (x.getD 15 0#w) = wordBytes ((rounds (square k n))[3][3]) := hdiag 3
  have h6 : st32 (x.getD 6 0#w) = wordBytes ((rounds (square k n))[1][2]) := hmid 0 1 2 rfl
  have h7 : st32 (x.getD 7 0#w) = wordBytes ((rounds (square k n))[1][3]) := hmid 1 1 3 rfl
  have h8 : st32 (x.getD 8 0#w) = wordBytes ((rounds (square k n))[2][0]) := hmid 2 2 0 rfl
  have h9 : st32 (x.getD 9 0#w) = wordBytes ((rounds (square k n))[2][1]) := hmid 3 2 1 rfl
  simp only [h4, List.flatMap_cons, List.flatMap_nil, Nat.reduceMul, Nat.reduceAdd, h0, h5, h10, h15, h6, h7, h8,
    h9, if_true, List.append_nil, List.append_assoc]

/-! ### The counter -/

theorem incrementFrom_bytes (hw : 32 ≤ w) (n x : ℕ) {u : U32 w} (hu : u.toNat ≤ 1) :
    incrementFrom (bytes n x) u = bytes n (x + u.toNat) := by
  induction n generalizing x u with
  | zero => rfl
  | succ n ih =>
    have hc : (ofByte (UInt8.ofNat x) : U32 w).toNat = x % 256 := by
      rw [toNat_ofByte (by omega), UInt8.toNat_ofNat']
    have hadd : (u + ofByte (UInt8.ofNat x)).toNat = u.toNat + x % 256 := by
      rw [toNat_add hw (by omega), hc]
    have hshift : ((u + ofByte (UInt8.ofNat x)) >>> 8).toNat = (u.toNat + x % 256) / 256 := by
      rw [toNat_shiftRight, hadd]
      rfl
    have hbyte : toByte (u + ofByte (UInt8.ofNat x)) = UInt8.ofNat (x + u.toNat) := by
      refine UInt8.toNat_inj.mp ?_
      rw [toNat_toByte, hadd, UInt8.toNat_ofNat']
      omega
    have hrest := ih (x / 256) (u := (u + ofByte (UInt8.ofNat x)) >>> 8) (by omega)
    rw [bytes, bytes, incrementFrom, hbyte, hrest, hshift,
      show x / 256 + (u.toNat + x % 256) / 256 = (x + u.toNat) / 256 by omega]

/-- **The next block** has the next number. -/
theorem increment_bytes (hw : 32 ≤ w) {n : ZendString} (hn : n.length = 8) (q : ℕ) :
    increment w (n ++ bytes 8 q) = n ++ bytes 8 (q + 1) := by
  have hone : (1#w).toNat = 1 := toNat_ofNat hw (by decide)
  unfold increment
  rw [List.take_left' hn, List.drop_left' hn, incrementFrom_bytes hw 8 q hone.le, hone]

/-! ### The stream -/

/-- Byte `i` of a message, which may be absent. -/
def messageByte (m : Option ZendString) (i : ℕ) : UInt8 := m.elim 0 fun m => m.getD i 0

theorem xorBytes_eq (m : Option ZendString) (b : ℕ) (x : ZendString) :
    xorBytes m b x = (List.range b).map fun i => messageByte m i ^^^ x.getD i 0 := rfl

/-- The message behind its first 64 bytes. -/
theorem messageByte_drop (m : Option ZendString) (i : ℕ) :
    messageByte (m.map fun m => m.drop 64) i = messageByte m (64 + i) := by
  cases m with
  | none => rfl
  | some m =>
    show (m.drop 64).getD i 0 = m.getD (64 + i) 0
    rw [List.getD_eq_getElem?_getD, List.getElem?_drop, List.getD_eq_getElem?_getD]

/-- The loop, from the block on that `q` numbers. -/
theorem xorLoop_spec (hw : 32 ≤ w) {n : ZendString} (hn : n.length = 8) (k : ZendString) (b : ℕ) :
    ∀ (m : Option ZendString) (q : ℕ), xorLoop w k m b (n ++ bytes 8 q) = (List.range b).map fun i =>
      messageByte m i ^^^ (salsa20 k (n ++ bytes 8 (q + i / 64))).getD (i % 64) 0 := by
  induction b using Nat.strongRecOn with
  | ind b ih =>
    intro m q
    have hfirst {d : ℕ} (hd : d ≤ 64) : xorBytes m d (cryptoCoreSalsa20 w (n ++ bytes 8 q) k sigma) =
        (List.range d).map fun i =>
          messageByte m i ^^^ (salsa20 k (n ++ bytes 8 (q + i / 64))).getD (i % 64) 0 := by
      rw [core_salsa20 hw, xorBytes_eq]
      refine List.map_congr_left fun i hi => ?_
      rw [List.mem_range] at hi
      rw [Nat.div_eq_of_lt (by omega), Nat.mod_eq_of_lt (by omega), Nat.add_zero]
    rw [xorLoop]
    split_ifs with h64 hb
    · -- a whole block, and the loop goes on with the next
      obtain ⟨d, rfl⟩ := Nat.exists_eq_add_of_le h64
      rw [Nat.add_sub_cancel_left, increment_bytes hw hn, ih d (by omega), hfirst le_rfl, List.range_add,
        List.map_append, List.map_map]
      refine congrArg _ (List.map_congr_left fun i _ => ?_)
      rw [messageByte_drop, Function.comp_apply, Nat.add_div_left _ (by decide), Nat.add_mod_left,
        Nat.add_right_comm, Nat.add_assoc, Nat.add_succ]
    · exact hfirst (by omega)
    · rw [not_not.mp hb]
      rfl

/-- **The message is xored with the stream**, byte by byte; without one, the stream is written. -/
theorem cryptoStreamSalsa20Xor_spec (hw : 32 ≤ w) (m : Option ZendString) (b : ℕ) {n : ZendString}
    (hn : 8 ≤ n.length) (k : ZendString) : cryptoStreamSalsa20Xor w m b n k =
      (List.range b).map fun i => messageByte m i ^^^ stream k n i := by
  have hzero : List.replicate 8 0 = bytes 8 0 := rfl
  unfold cryptoStreamSalsa20Xor stream
  split_ifs with hb
  · rw [hb]
    rfl
  · rw [hzero, xorLoop_spec hw (List.length_take_of_le hn)]
    simp only [Nat.zero_add]

/-- **The stream under a long nonce.** -/
theorem cryptoStream_spec (hw : 32 ≤ w) (d : ℕ) {n : ZendString} (hn : n.length = 24) (k : ZendString) :
    cryptoStream w d n k = (List.range d).map (xstream k n) := by
  unfold cryptoStream
  rw [cryptoStreamSalsa20Xor_spec hw _ _ (by rw [List.length_drop]; omega), core_hsalsa20 hw]
  exact List.map_congr_left fun i _ => UInt8.zero_xor

/-- **A message under a long nonce.** -/
theorem cryptoStreamXor_spec (hw : 32 ≤ w) (m : ZendString) {n : ZendString} (hn : n.length = 24)
    (k : ZendString) : cryptoStreamXor w m n k = m.mapIdx fun i b => b ^^^ xstream k n i := by
  unfold cryptoStreamXor
  rw [cryptoStreamSalsa20Xor_spec hw _ _ (by rw [List.length_drop]; omega), core_hsalsa20 hw]
  refine List.ext_getElem (by simp) fun i h₁ h₂ => ?_
  have hi : i < m.length := by simpa using h₁
  rw [List.getElem_map, List.getElem_range, List.getElem_mapIdx]
  show m.getD i 0 ^^^ _ = _
  rw [List.getD_eq_getElem m 0 hi]
  rfl

/-- **The stream cipher** is XSalsa20, for messages of every length and words of every width. -/
theorem stream_xsalsa20 (hw : 32 ≤ w) {n : ZendString} (hn : n.length = 24) (k : ZendString) :
    (∀ d, cryptoStream w d n k = (List.range d).map (xstream k n)) ∧
      ∀ m, cryptoStreamXor w m n k = m.mapIdx fun i b => b ^^^ xstream k n i :=
  ⟨fun d => cryptoStream_spec hw d hn k, fun m => cryptoStreamXor_spec hw m hn k⟩

theorem stream_xsalsa20_sevens :
    (∀ d, cryptoStream 32 d (List.replicate 24 7) (List.replicate 32 7) =
        (List.range d).map (xstream (List.replicate 32 7) (List.replicate 24 7))) ∧
      ∀ m, cryptoStreamXor 32 m (List.replicate 24 7) (List.replicate 32 7) =
        m.mapIdx fun i b => b ^^^ xstream (List.replicate 32 7) (List.replicate 24 7) i :=
  stream_xsalsa20 le_rfl List.length_replicate _

end Snuffleupagus.Nacl.Salsa
