import Snuffleupagus.Lib.SecretBox
import Snuffleupagus.Nacl.OneTimeAuth
import Snuffleupagus.Nacl.Salsa

/-! # The secret box

`crypto_secretbox` puts the message under the stream, makes the tag with the first 32 bytes of the stream, and
writes it between 16 zeros and the rest. `crypto_secretbox_open` compares the tags without a branch.

* `vn_eq`: the comparison, whatever the width of a word;
* `cryptoSecretbox_eq`, `cryptoSecretboxOpen_eq`: the box is that of XSalsa20 and Poly1305;
* `secretbox_open_iff`: what opens;
* `verifying_other_le`: how many keys accept a tag that has been made up. -/

namespace Snuffleupagus.Nacl.SecretBox

open Snuffleupagus.Lib.Radix Snuffleupagus.Lib.SecretBox Snuffleupagus.Lib.Poly1305 Snuffleupagus.Lib.Salsa20
open Snuffleupagus.Php.Bytes Snuffleupagus.Nacl.Word Snuffleupagus.Nacl.OneTimeAuth Snuffleupagus.Nacl.Salsa

/-! ### The code -/

section Code
variable (w : ℕ)

/-- The loop of `vn`: `d`. -/
def vnFold (x y : ZendString) (n : ℕ) : U32 w :=
  (List.range n).foldl (fun d i => d ||| ofByte (x.getD i 0 ^^^ y.getD i 0)) 0#w

/-- `vn`: 0, or -1 where the first `n` bytes differ. -/
def vn (x y : ZendString) (n : ℕ) : ℤ :=
  let d := vnFold w x y n
  (((1#w &&& ((d - 1#w) >>> 8)) - 1#w).setWidth 32).toInt

/-- `crypto_verify_16`. -/
def cryptoVerify16 (x y : ZendString) : ℤ := vn w x y 16

/-- `crypto_onetimeauth_verify`. -/
def cryptoOnetimeauthVerify (h m k : ZendString) : ℤ := cryptoVerify16 w h (cryptoOnetimeauth w m k)

/-- `crypto_secretbox`: what it writes to `c`, or nothing where it answers -1. -/
def cryptoSecretbox (m n k : ZendString) : Option ZendString :=
  if m.length < 32 then none
  else
    let c := cryptoStreamXor w m n k
    let c := c.take 16 ++ cryptoOnetimeauth w (c.drop 32) c ++ c.drop 32
    some (List.replicate 16 0 ++ c.drop 16)

/-- `crypto_secretbox_open`: what it writes to `m`, or nothing where it answers -1. -/
def cryptoSecretboxOpen (c n k : ZendString) : Option ZendString :=
  if c.length < 32 then none
  else
    let x := cryptoStream w 32 n k
    if cryptoOnetimeauthVerify w (c.drop 16) (c.drop 32) x ≠ 0 then none
    else some (List.replicate 32 0 ++ (cryptoStreamXor w c n k).drop 32)

end Code

/-- XSalsa20 and Poly1305. -/
def xsalsa20Poly1305 : Primitives where
  stream n k := xstream k n
  auth m k := bytes 16 (tag m k)
  length_auth _ _ := length_bytes 16 _

variable {w : ℕ}

/-! ### The comparison -/

theorem ofByte_eq_zero_iff (hw : 32 ≤ w) (x : UInt8) : (ofByte x : U32 w) = 0#w ↔ x = 0 := by
  rw [← BitVec.toNat_inj, toNat_ofByte (by omega), BitVec.toNat_zero, ← UInt8.toNat_inj]
  rfl

/-- Nothing has been or'ed but zeros. -/
theorem foldl_or_eq_zero_iff (f : ℕ → U32 w) (l : List ℕ) (d : U32 w) :
    l.foldl (fun d i => d ||| f i) d = 0#w ↔ d = 0#w ∧ ∀ i ∈ l, f i = 0#w := by
  induction l generalizing d with
  | nil => simp
  | cons i l ih =>
    rw [List.foldl_cons, ih, BitVec.or_eq_zero_iff, List.forall_mem_cons, and_assoc]

/-- What has been or'ed is a byte. -/
theorem foldl_or_lt (hw : 32 ≤ w) (f : ℕ → UInt8) (l : List ℕ) {d : U32 w} (hd : d.toNat < 256) :
    (l.foldl (fun d i => d ||| ofByte (f i)) d).toNat < 256 := by
  induction l generalizing d with
  | nil => exact hd
  | cons i l ih =>
    refine ih ?_
    rw [BitVec.toNat_or, toNat_ofByte (by omega)]
    exact Nat.or_lt_two_pow (n := 8) hd (f i).toNat_lt

theorem vnFold_eq_zero_iff (hw : 32 ≤ w) (x y : ZendString) (n : ℕ) :
    vnFold w x y n = 0#w ↔ ∀ i < n, x.getD i 0 = y.getD i 0 := by
  unfold vnFold
  rw [foldl_or_eq_zero_iff]
  simp only [true_and, List.mem_range, ofByte_eq_zero_iff hw, UInt8.xor_eq_zero_iff]

/-- The bit that says whether `d` is zero. -/
theorem borrow_eq (hw : 32 ≤ w) {d : U32 w} (hd : d.toNat < 256) :
    1#w &&& ((d - 1#w) >>> 8) = if d = 0#w then 1#w else 0#w := by
  have hone : (1#w).toNat = 1 := toNat_ofNat hw (by decide)
  split_ifs with h
  · -- the difference is all ones
    rw [h, BitVec.zero_sub, BitVec.neg_one_eq_allOnes]
    refine BitVec.eq_of_getLsbD_eq fun i hi => ?_
    rw [BitVec.getLsbD_and, BitVec.getLsbD_ushiftRight, BitVec.getLsbD_one]
    by_cases hi0 : i = 0
    · have h8 : 8 < w := by omega
      simp [hi0, h8]
    · simp [hi0]
  · have hpos : d.toNat ≠ 0 := fun h0 => h (BitVec.eq_of_toNat_eq (by rw [h0, BitVec.toNat_zero]))
    have hsub : (d - 1#w).toNat = d.toNat - 1 := by
      rw [BitVec.toNat_sub_of_le (by rw [BitVec.le_def, hone]; omega), hone]
    have hzero : (d - 1#w) >>> 8 = 0#w := by
      refine BitVec.eq_of_toNat_eq ?_
      rw [toNat_shiftRight, hsub, BitVec.toNat_zero]
      omega
    rw [hzero, BitVec.and_zero]

/-- **The comparison** answers 0 if nothing differs, and -1 if something does. -/
theorem vn_eq (hw : 32 ≤ w) (x y : ZendString) (n : ℕ) :
    vn w x y n = if ∀ i < n, x.getD i 0 = y.getD i 0 then 0 else -1 := by
  have hlt : (vnFold w x y n).toNat < 256 := foldl_or_lt hw _ _ (by rw [BitVec.toNat_zero]; decide)
  unfold vn
  simp only [borrow_eq hw hlt, vnFold_eq_zero_iff hw]
  split_ifs with h
  · rw [BitVec.sub_self, BitVec.setWidth_zero]
    rfl
  · have hones : (BitVec.allOnes w).setWidth 32 = BitVec.allOnes 32 := by
      refine BitVec.eq_of_getLsbD_eq fun i hi => ?_
      rw [BitVec.getLsbD_setWidth, BitVec.getLsbD_allOnes, BitVec.getLsbD_allOnes]
      simp [hi, hi.trans_le hw]
    rw [BitVec.zero_sub, BitVec.neg_one_eq_allOnes, hones]
    rfl

theorem cryptoVerify16_eq_zero_iff (hw : 32 ≤ w) {x y : ZendString} (hy : y.length = 16) (hx : 16 ≤ x.length) :
    cryptoVerify16 w x y = 0 ↔ y = x.take 16 := by
  have hlen : (x.take 16).length = 16 := List.length_take_of_le hx
  unfold cryptoVerify16
  rw [vn_eq hw]
  split_ifs with h
  · refine iff_of_true rfl (List.ext_getElem (hy.trans hlen.symm) fun i hi _ => ?_)
    have := h i (hy ▸ hi)
    rw [List.getD_eq_getElem x 0 (by omega), List.getD_eq_getElem y 0 hi] at this
    rw [List.getElem_take, this]
  · refine iff_of_false (by decide) ?_
    rintro rfl
    exact h fun i hi => by
      rw [List.getD_eq_getElem?_getD, List.getD_eq_getElem?_getD, List.getElem?_take_of_lt hi]

/-! ### Boxes -/

/-- Of the key, the first 32 bytes are read. -/
theorem cryptoOnetimeauth_take (m k : ZendString) : cryptoOnetimeauth w m (k.take 32) = cryptoOnetimeauth w m k := by
  unfold cryptoOnetimeauth clamp
  rw [List.take_take, List.drop_take, List.take_take]
  rfl

variable {m c n : ZendString} (k : ZendString)

/-- **Boxing a message** is the construction, over XSalsa20 and Poly1305. -/
theorem cryptoSecretbox_eq (hw : 32 ≤ w) (hn : n.length = 24) :
    cryptoSecretbox w m n k = xsalsa20Poly1305.box n k m := by
  have hx : cryptoStreamXor w m n k = xsalsa20Poly1305.xor n k m := cryptoStreamXor_spec hw m hn k
  unfold cryptoSecretbox Primitives.box
  dsimp only
  rw [hx]
  split_ifs with hlen
  · rfl
  · have hl : (xsalsa20Poly1305.xor n k m).length = m.length := Primitives.length_xor m
    have htag : cryptoOnetimeauth w ((xsalsa20Poly1305.xor n k m).drop 32) (xsalsa20Poly1305.xor n k m) =
        xsalsa20Poly1305.auth ((xsalsa20Poly1305.xor n k m).drop 32) ((xsalsa20Poly1305.xor n k m).take 32) := by
      rw [← cryptoOnetimeauth_take, cryptoOnetimeauth_eq hw]
      · rfl
      · exact List.length_take_of_le (by omega)
    rw [htag, List.append_assoc, List.drop_left' (List.length_take_of_le (by omega)), List.append_assoc]

/-- **Opening a box.** -/
theorem cryptoSecretboxOpen_eq (hw : 32 ≤ w) (hn : n.length = 24) :
    cryptoSecretboxOpen w c n k = xsalsa20Poly1305.open? n k c := by
  have hx : cryptoStreamXor w c n k = xsalsa20Poly1305.xor n k c := cryptoStreamXor_spec hw c hn k
  have hs : cryptoStream w 32 n k = xsalsa20Poly1305.streamBytes n k 32 := cryptoStream_spec hw 32 hn k
  unfold cryptoSecretboxOpen Primitives.open?
  dsimp only
  rw [hx, hs]
  by_cases hlen : c.length < 32
  · rw [if_pos hlen, if_pos hlen]
  · have hauth : cryptoOnetimeauth w (c.drop 32) (xsalsa20Poly1305.streamBytes n k 32) =
        xsalsa20Poly1305.auth (c.drop 32) (xsalsa20Poly1305.streamBytes n k 32) :=
      cryptoOnetimeauth_eq hw _ (by simp [Primitives.streamBytes])
    have hverify : cryptoOnetimeauthVerify w (c.drop 16) (c.drop 32) (xsalsa20Poly1305.streamBytes n k 32) = 0 ↔
        xsalsa20Poly1305.auth (c.drop 32) (xsalsa20Poly1305.streamBytes n k 32) = (c.drop 16).take 16 := by
      unfold cryptoOnetimeauthVerify
      rw [hauth]
      exact cryptoVerify16_eq_zero_iff hw (xsalsa20Poly1305.length_auth _ _) (by rw [List.length_drop]; omega)
    rw [if_neg hlen, if_neg hlen]
    simp only [ne_eq, hverify, ite_not]

/-! ### What is sealed -/

/-- **The box of a padded message** opens to it, and nothing opens to it but what is this box from byte 16 on. -/
theorem secretbox_open_iff (hw : 32 ≤ w) (hn : n.length = 24) :
    cryptoSecretboxOpen w c n k = some m ↔ Primitives.ZeroPadded m ∧
      ∃ b, cryptoSecretbox w m n k = some b ∧ c.length = b.length ∧ c.drop 16 = b.drop 16 := by
  rw [cryptoSecretboxOpen_eq k hw hn, cryptoSecretbox_eq k hw hn]
  exact Primitives.open_eq_some_iff

theorem secretbox_open_iff_sevens :
    cryptoSecretboxOpen 64 (List.replicate 40 7) (List.replicate 24 7) (List.replicate 32 7) =
        some (List.replicate 40 0) ↔ Primitives.ZeroPadded (List.replicate 40 0) ∧
      ∃ b, cryptoSecretbox 64 (List.replicate 40 0) (List.replicate 24 7) (List.replicate 32 7) = some b ∧
        (List.replicate 40 7).length = b.length ∧ (List.replicate 40 7).drop 16 = b.drop 16 :=
  secretbox_open_iff _ (by decide) List.length_replicate

/-- The keys under which `crypto_onetimeauth_verify` accepts a tag. -/
def verifying (w : ℕ) (t m : ZendString) : Set ZendString :=
  { k | k.length = 32 ∧ cryptoOnetimeauthVerify w t m k = 0 }

theorem verifying_eq (hw : 32 ≤ w) {t : ZendString} (ht : t.length = 16) (m : ZendString) :
    verifying w t m = keys m (littleEndian t) := by
  refine Set.ext fun k => and_congr_right fun hk => ?_
  have hlen : (cryptoOnetimeauth w m k).length = 16 := (cryptoOnetimeauth_spec w hw m hk).1
  have htag : littleEndian (bytes 16 (tag m k)) = tag m k := by
    rw [littleEndian_bytes]
    exact Nat.mod_eq_of_lt (Nat.mod_lt _ (by decide))
  unfold cryptoOnetimeauthVerify
  rw [cryptoVerify16_eq_zero_iff hw hlen ht.ge, cryptoOnetimeauth_eq hw m hk, List.take_of_length_le ht.le]
  refine ⟨fun h => by rw [← h, htag], fun h => littleEndian_inj ((length_bytes 16 _).trans ht.symm) ?_⟩
  rw [htag, h]

/-- **A forged tag**: of the keys that a tag of one message leaves possible, few accept any given tag of another
one. -/
theorem verifying_other_le (hw : 32 ≤ w) {m m' t t' : ZendString} (hne : m ≠ m') (ht : t.length = 16)
    (ht' : t'.length = 16) : (verifying w t m).ncard = 2 ^ 128 ∧
      (verifying w t m ∩ verifying w t' m').ncard ≤ 8 * ((max m.length m'.length + 15) / 16) * 2 ^ 22 := by
  have hlt := littleEndian_lt t
  rw [ht] at hlt
  rw [verifying_eq hw ht, verifying_eq hw ht']
  exact ⟨ncard_keys m hlt, ncard_forgery_le hne _ _⟩

theorem verifying_other_le_sevens :
    (verifying 32 (List.replicate 16 7) (zstr "yes")).ncard = 2 ^ 128 ∧
      (verifying 32 (List.replicate 16 7) (zstr "yes") ∩ verifying 32 (List.replicate 16 8) (zstr "no")).ncard ≤
        8 * ((max (zstr "yes").length (zstr "no").length + 15) / 16) * 2 ^ 22 :=
  verifying_other_le le_rfl (by decide) List.length_replicate List.length_replicate

end Snuffleupagus.Nacl.SecretBox
