import Mathlib.Data.List.GetD
import Snuffleupagus.Lib.SuffixTag
import Snuffleupagus.Log

/-! # HMAC-SHA256 and its comparison

`sp_do_hash_hmac_sha256` is PHP's HMAC written with one key buffer: the padded key is xored with
`0x36` for the inner round and then with `0x6A = 0x36 ^ 0x5C` for the outer one. `hmac` is the HMAC of
the standard, and `spDoHashHmacSha256_some` says that the two agree, in hexadecimal.

`hmacStatus` is the loop that compares two digests without an early exit: it is zero exactly on equal
digests (`hmacStatus_eq_zero`). -/

namespace Snuffleupagus.Unserialize.Hmac

open Snuffleupagus.Lib.Effect Snuffleupagus.Php.Bytes Snuffleupagus.Php.Engine
open Snuffleupagus.Config.Rule Snuffleupagus.Log

/-- SHA-256: a function with digests of 32 bytes. -/
structure Sha256 where
  hash : ZendString → ZendString
  length_hash : ∀ s, (hash s).length = 32

/-- `ops->block_size`. -/
def blockSize : ℕ := 64

/-- `php_hash_string_xor_char`. -/
def phpHashStringXorChar (s : ZendString) (c : UInt8) : ZendString := s.map (· ^^^ c)

/-- A key brought to the size of a block. -/
def paddedKey (sha : Sha256) (key : ZendString) : ZendString :=
  let k := if blockSize < key.length then sha.hash key else key
  k ++ List.replicate (blockSize - k.length) 0

/-- `php_hash_hmac_prep_key`. -/
def phpHashHmacPrepKey (sha : Sha256) (key : ZendString) : ZendString :=
  phpHashStringXorChar (paddedKey sha key) 0x36

/-- `php_hash_hmac_round`. -/
def phpHashHmacRound (sha : Sha256) (k data : ZendString) : ZendString := sha.hash (k ++ data)

/-- `sp_do_hash_hmac_sha256`; `ops` is what `php_hash_fetch_ops` answers for `sha256`. -/
def spDoHashHmacSha256 (w : World) (g : SpGlobals) (ops : Option Sha256) (data key : ZendString) :
    Sp (Option ZendString) :=
  match ops with
  | none => do
    spLogErr w g "hmac" "unsupported hash algorithm: sha256" []
    pure none
  | some sha =>
    let k := phpHashHmacPrepKey sha key
    let digest := phpHashHmacRound sha k data
    let k := phpHashStringXorChar k 0x6A
    let digest := phpHashHmacRound sha k digest
    pure (some (bin2hex digest))

/-! ### The HMAC of the standard -/

/-- The hexadecimal HMAC: `H (K ⊕ opad, H (K ⊕ ipad, data))`. -/
def hmac (sha : Sha256) (key data : ZendString) : ZendString :=
  let k := paddedKey sha key
  bin2hex (sha.hash (k.map (· ^^^ 0x5C) ++ sha.hash (k.map (· ^^^ 0x36) ++ data)))

variable {w : World} {g : SpGlobals} {sha : Sha256}

/-- The two paddings differ by `0x6A`. -/
theorem xorChar_xorChar (s : ZendString) :
    phpHashStringXorChar (phpHashStringXorChar s 0x36) 0x6A = s.map (· ^^^ 0x5C) := by
  unfold phpHashStringXorChar
  rw [List.map_map]
  refine List.map_congr_left fun c _ => ?_
  show (c ^^^ 0x36) ^^^ 0x6A = c ^^^ 0x5C
  rw [UInt8.xor_assoc]
  rfl

/-- **The module computes the HMAC of the standard.** -/
theorem spDoHashHmacSha256_some (data key : ZendString) :
    spDoHashHmacSha256 w g (some sha) data key = pure (some (hmac sha key data)) := by
  unfold spDoHashHmacSha256 phpHashHmacRound phpHashHmacPrepKey
  dsimp only
  rw [xorChar_xorChar]
  rfl

/-- A tag has 64 characters. -/
theorem length_hmac (key data : ZendString) : (hmac sha key data).length = 64 := by
  unfold hmac
  rw [length_bin2hex, sha.length_hash]

/-! ### The comparison -/

/-- A `char` as an `int`. -/
def charToInt (c : UInt8) : BitVec 32 := c.toBitVec.signExtend 32

/-- The loop `for (i = 0; i < 64; i++) status |= hmac[i] ^ expected[i]`. -/
def hmacStatus (received expected : ZendString) : BitVec 32 :=
  (List.range 64).foldl (fun status i =>
    status ||| (charToInt (received.getD i 0) ^^^ charToInt (expected.getD i 0))) 0

theorem charToInt_injective {a b : UInt8} (h : charToInt a = charToInt b) : a = b := by
  have hi : a.toBitVec.toInt = b.toBitVec.toInt := by
    have := congrArg BitVec.toInt h
    unfold charToInt at this
    rwa [BitVec.toInt_signExtend_of_le (by decide), BitVec.toInt_signExtend_of_le (by decide)] at this
  exact UInt8.toBitVec_inj.mp (BitVec.eq_of_toInt_eq hi)

/-- Bits collected by `|` stay zero only if none was ever set. -/
theorem foldl_or_eq_zero {f : ℕ → BitVec 32} : ∀ {l : List ℕ} {s : BitVec 32},
    l.foldl (fun s i => s ||| f i) s = 0 ↔ s = 0 ∧ ∀ i ∈ l, f i = 0
  | [], s => by simp
  | i :: l, s => by
    rw [List.foldl_cons, foldl_or_eq_zero, List.forall_mem_cons, ← and_assoc]
    exact and_congr_left fun _ => BitVec.or_eq_zero_iff

/-- **The loop accepts exactly equality** of two strings of 64 characters. -/
theorem hmacStatus_eq_zero {a b : ZendString} (ha : a.length = 64) (hb : b.length = 64) :
    hmacStatus a b = 0 ↔ a = b := by
  unfold hmacStatus
  rw [foldl_or_eq_zero]
  constructor
  · rintro ⟨-, h⟩
    refine List.ext_getElem (ha.trans hb.symm) fun i hi hi' => ?_
    have hc := charToInt_injective (BitVec.xor_eq_zero_iff.mp (h i (List.mem_range.mpr (by omega))))
    rwa [List.getD_eq_getElem _ _ hi, List.getD_eq_getElem _ _ hi'] at hc
  · rintro rfl
    exact ⟨rfl, fun i _ => BitVec.xor_self⟩

end Snuffleupagus.Unserialize.Hmac
