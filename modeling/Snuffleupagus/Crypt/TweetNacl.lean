import Snuffleupagus.Cookie.Encryption
import Snuffleupagus.Crypt.Bounds
import Snuffleupagus.Nacl.SecretBox

/-! # Encryption with TweetNaCl

The module is built with its own copy of TweetNaCl. What is accepted is described here by its code: a nonce, 16
bytes that nothing looks at, and the rest of a box. The byte behind the text, where `encrypt_zval` puts a NUL, is
not looked at either.

* `decryptZval_keeps_iff`: what `decrypt_zval` accepts, and the text it leaves;
* `encryptZval_tweetnacl`: what `encrypt_zval` writes. -/

namespace Snuffleupagus.Crypt.TweetNacl

open Snuffleupagus.Lib.Effect Snuffleupagus.Lib.SecretBox Snuffleupagus.Php.Bytes Snuffleupagus.Php.Engine
open Snuffleupagus.Config.Rule Snuffleupagus.Unserialize.Hmac Snuffleupagus.Crypt.Zval
open Snuffleupagus.Cookie.Encryption Snuffleupagus.Crypt.Separation Snuffleupagus.Crypt.Bounds
open Snuffleupagus.Nacl.SecretBox

/-- PHP's base 64, and XSalsa20 and Poly1305. -/
def tweetnacl (sha256 : Sha256) : Crypto where
  base64 := .php
  nacl := xsalsa20Poly1305
  sha256 := sha256

variable {w : World} {g : SpGlobals} {value s : ZendString} {hashKey : Option ZendString} {u : ℕ}

/-- **What is kept outside of simulation is authentic**, and everything authentic is kept. -/
theorem decryptZval_keep_iff_authentic {c : Crypto} (hk : KeySet g)
    (hv : ∀ debase64, c.base64.decode value = some debase64 → debase64.length + zeroBytes < 2 ^ 64) :
    Yields (decryptZval w g c value false hashKey) (.keep, s) ↔ Authentic w g c value s := by
  refine ⟨fun h => (authentic_of_decryptZval h).resolve_left (by decide), ?_⟩
  rintro ⟨debase64, b, hd, hn, hopen⟩
  obtain ⟨-, hl, -⟩ := Primitives.open_eq_some hopen
  have hlen : debase64.length = nonceBytes + (zeroBytes + (s.length + 1)) := by
    simp only [List.length_append, List.length_replicate, List.length_singleton, List.length_drop] at hl
    omega
  unfold Yields
  rw [← decryptZvalWatched_eq, out_decryptZvalWatched hk hd hn (hv debase64 hd)]
  have hrun : (SecretboxOpen.ofPrimitives c.nacl).run = c.nacl.open? := rfl
  rw [hrun, hopen]
  dsimp only
  rw [if_neg (by omega), List.drop_left' List.length_replicate, List.take_left' (by omega)]

/-- **What `decrypt_zval` accepts** outside of simulation: a nonce, any 16 bytes, and what `crypto_secretbox` writes
behind its first 16 bytes for the text and one more byte, under the key of the environment. -/
theorem decryptZval_keeps_iff (sha256 : Sha256) (hu : 32 ≤ u) (hk : KeySet g)
    (hv : (Lib.Base64.decode value).length + zeroBytes < 2 ^ 64) :
    Yields (decryptZval w g (tweetnacl sha256) value false hashKey) (.keep, s) ↔
      ∃ (nonce : Nonce) (head rest : ZendString) (b : UInt8), head.length = 16 ∧
        Lib.Base64.decode value = nonce.bytes ++ (head ++ rest) ∧
        cryptoSecretbox u (List.replicate zeroBytes 0 ++ (s ++ [b])) nonce.bytes
          (environmentKey w g (tweetnacl sha256)) = some (List.replicate 16 0 ++ rest) := by
  rw [decryptZval_keep_iff_authentic hk fun debase64 hd => by cases hd; exact hv]
  constructor
  · rintro ⟨debase64, b, hd, hn, hopen⟩
    cases hd
    have hnonce : ((Lib.Base64.decode value).take nonceBytes).length = nonceBytes := List.length_take_of_le hn
    obtain ⟨-, box, hbox, hl, hdrop⟩ := Primitives.open_eq_some_iff.mp hopen
    have hlong := (Primitives.open_eq_some hopen).2.2
    refine ⟨⟨_, hnonce⟩, ((Lib.Base64.decode value).drop nonceBytes).take 16,
      ((Lib.Base64.decode value).drop nonceBytes).drop 16, b, List.length_take_of_le (by omega), ?_, ?_⟩
    · rw [List.take_append_drop, List.take_append_drop]
    · rw [cryptoSecretbox_eq _ hu hnonce, hdrop, ← Primitives.box_head hbox]
      exact hbox
  · rintro ⟨nonce, head, rest, b, hhead, hd, hbox⟩
    rw [cryptoSecretbox_eq _ hu nonce.length_bytes] at hbox
    refine ⟨_, b, rfl, ?_, ?_⟩
    · rw [hd, List.length_append, nonce.length_bytes]
      omega
    · rw [hd, List.take_left' nonce.length_bytes, List.drop_left' nonce.length_bytes]
      refine Primitives.open_eq_some_iff.mpr ⟨⟨_, rfl⟩, _, hbox, ?_, ?_⟩
      · rw [List.length_append, List.length_append, hhead, List.length_replicate]
      · rw [List.drop_left' hhead, List.drop_left' List.length_replicate]

theorem decryptZval_keeps_iff_short :
    Yields (decryptZval (World.empty 80200) remoteAddrGlobals (tweetnacl ⟨fun _ => List.replicate 32 0, fun _ =>
        List.length_replicate⟩) (zstr "AAAA") false none) (.keep, []) ↔
      ∃ (nonce : Nonce) (head rest : ZendString) (b : UInt8), head.length = 16 ∧
        Lib.Base64.decode (zstr "AAAA") = nonce.bytes ++ (head ++ rest) ∧
        cryptoSecretbox 64 (List.replicate zeroBytes 0 ++ ([] ++ [b])) nonce.bytes
          (environmentKey (World.empty 80200) remoteAddrGlobals (tweetnacl ⟨fun _ => List.replicate 32 0, fun _ =>
            List.length_replicate⟩)) = some (List.replicate 16 0 ++ rest) :=
  decryptZval_keeps_iff _ (by decide) ⟨rfl, rfl⟩ (by decide)

/-- **What `encrypt_zval` writes**: the nonce and the box, which has a NUL behind the text. -/
theorem encryptZval_tweetnacl (sha256 : Sha256) (hu : 32 ≤ u) (hk : KeySet g) (nonce : Nonce) (data : ZendString) :
    ∃ box, cryptoSecretbox u (List.replicate zeroBytes 0 ++ (data ++ [0])) nonce.bytes
        (environmentKey w g (tweetnacl sha256)) = some box ∧
      Yields (encryptZval w g (tweetnacl sha256) nonce data) (Lib.Base64.encode (nonce.bytes ++ box)) :=
  ⟨_, (cryptoSecretbox_eq _ hu nonce.length_bytes).trans
    (box_plaintext (w := w) (g := g) (c := tweetnacl sha256) nonce data), encryptZval_yields hk nonce data⟩

end Snuffleupagus.Crypt.TweetNacl
