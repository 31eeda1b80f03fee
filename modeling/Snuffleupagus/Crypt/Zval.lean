import Snuffleupagus.Lib.Base64
import Snuffleupagus.Lib.SecretBox
import Snuffleupagus.Unserialize.Hmac

/-! # Encrypting strings

The module encrypts the values of cookies and the data of sessions in the same way: the plaintext,
32 zeros before it and one behind, is put into a secret box, and the nonce and the box are written in
base 64. The key is the digest of the user agent, a variable of the environment and the secret of the
configuration.

* `generateKey_yields`: with a secret and the name of a variable there is a key;
* `encryptZval_yields`: what is sent out;
* `decryptZval_encryptZval`: it comes back as it was. -/

namespace Snuffleupagus.Crypt.Zval

open Snuffleupagus.Lib.Effect Snuffleupagus.Lib.SecretBox Snuffleupagus.Php.Bytes
open Snuffleupagus.Php.Engine Snuffleupagus.Config.Rule Snuffleupagus.Log Snuffleupagus.Unserialize.Hmac

/-- `php_base64_encode` and `php_base64_decode`. -/
structure Base64 where
  encode : ZendString → ZendString
  decode : ZendString → Option ZendString
  decode_encode : ∀ s, decode (encode s) = some s
  eq_nil_of_encode : ∀ s, encode s = [] → s = []

/-- Those of PHP: the decoder, which is not strict, never fails. -/
def Base64.php : Base64 where
  encode := Lib.Base64.encode
  decode s := some (Lib.Base64.decode s)
  decode_encode s := congrArg some (Lib.Base64.decode_encode s)
  eq_nil_of_encode _ := Lib.Base64.eq_nil_of_encode

/-- The primitives: base 64, the ones of `crypto_secretbox`, and SHA-256. -/
structure Crypto where
  base64 : Base64
  nacl : Primitives
  sha256 : Sha256

/-- `crypto_secretbox_NONCEBYTES`. -/
def nonceBytes : ℕ := 24

/-- `crypto_secretbox_ZEROBYTES`. -/
def zeroBytes : ℕ := 32

/-- A nonce, as `php_random_bytes` fills it. -/
structure Nonce where
  bytes : ZendString
  length_bytes : bytes.length = nonceBytes

/-- What becomes of an element of a table: `ZEND_HASH_APPLY_KEEP`, `ZEND_HASH_APPLY_REMOVE`. -/
inductive HashApply
  | keep | remove
  deriving DecidableEq

variable (w : World) (g : SpGlobals) (c : Crypto)

/-- The variable of the environment the key depends on. -/
def envVar : Option ZendString := g.cookiesEnvVar.bind fun name => w.getenv (cstr name)

/-- What is hashed: the user agent, the variable of the environment, and the secret. -/
def keyInput (encryptionKey : ZendString) : ZendString :=
  ((w.getenv (zstr "HTTP_USER_AGENT")).map cstr).getD [] ++ ((envVar w g).map cstr).getD [] ++
    cstr encryptionKey

/-- `generate_key`. -/
def generateKey : Sp ZendString :=
  match g.encryptionKey with
  | none => abort .assertion
  | some encryptionKey => do
    match envVar w g with
    | some _ => pure ()
    | none => do
      let name ← fetch g.cookiesEnvVar
      spLogWarn w g "cookie_encryption"
        "The environment variable '%s' is empty, cookies are weakly encrypted" [cstr name]
    pure (c.sha256.hash (keyInput w g encryptionKey))

/-- What is being decrypted, in a log line. -/
def decryptedName (hashKey : Option ZendString) : ZendString :=
  match hashKey with
  | some key => cstr key
  | none => zstr "the session"

/-- `decrypt_zval`: what becomes of the element, and its value. -/
def decryptZval (value : ZendString) (simulation : Bool) (hashKey : Option ZendString) :
    Sp (HashApply × ZendString) :=
  match c.base64.decode value with
  | none => do
    spLogDrop w g "cookie_encryption" "Unable to base64-decode the cookie" []
    pure (.remove, value)
  | some debase64 =>
    if debase64.length < nonceBytes then
      if simulation then do
        spLogSimulation w g "cookie_encryption"
          "Buffer underflow tentative detected in cookie encryption handling for %s. Using the cookie 'as is' instead of decrypting it"
          [decryptedName hashKey]
        pure (.keep, value)
      else do
        spLogDrop w g "cookie_encryption"
          "Buffer underflow (tentative) detected in cookie encryption handling" []
        pure (.remove, value)
    else if (debase64.length + zeroBytes) % 2 ^ 64 < debase64.length then
      if simulation then do
        spLogSimulation w g "cookie_encryption"
          "Integer overflow (tentative) detected in cookie encryption handling for %s. Using the cookie 'as it' instead of decrypting it."
          [decryptedName hashKey]
        pure (.keep, value)
      else do
        spLogDrop w g "cookie_encryption"
          "Integer overflow (tentative) detected in cookie encryption handling." []
        pure (.remove, value)
    else do
      let key ← generateKey w g c
      match c.nacl.open? (debase64.take nonceBytes) key (debase64.drop nonceBytes) with
      | none =>
        if simulation then do
          spLogSimulation w g "cookie_encryption"
            "Something went wrong with the decryption of %s. Using the cookie 'as is' instead of decrypting it"
            [decryptedName hashKey]
          pure (.keep, value)
        else do
          spLogWarn w g "cookie_encryption" "Something went wrong with the decryption of %s"
            [decryptedName hashKey]
          pure (.remove, value)
      | some decrypted =>
        -- the length is a `size_t`, and the buffer has `zeroBytes` more than has been decoded
        let len := (debase64.length + (2 ^ 64 - nonceBytes - 1 - zeroBytes)) % 2 ^ 64
        if len ≤ debase64.length then pure (.keep, (decrypted.drop zeroBytes).take len)
        else abort .outOfBounds

/-- `encrypt_zval`. -/
def encryptZval (nonce : Nonce) (data : ZendString) : Sp ZendString := do
  let dataToEncrypt := List.replicate zeroBytes 0 ++ (data ++ [0])
  let key ← generateKey w g c
  match c.nacl.box nonce.bytes key dataToEncrypt with
  | none => do
    spLogErr w g "cookie_encryption" "something went wrong during encryption" []
    pure (zstr "<sp_encryption_error>")
  | some encryptedData => pure (c.base64.encode (nonce.bytes ++ encryptedData))

/-! ### The round trip -/

/-- The secret is there, and the name of the variable of the environment: what the parsers of the
configuration ask for before anything is encrypted. -/
structure KeySet (g : SpGlobals) : Prop where
  encryptionKey : g.encryptionKey.isSome = true
  cookiesEnvVar : g.cookiesEnvVar.isSome = true

/-- The length of the string encrypted, and of the buffer it is decrypted to, is a `size_t`. -/
def Encryptable (data : ZendString) : Prop :=
  nonceBytes + (zeroBytes + data.length + 1) + zeroBytes < 2 ^ 64

instance (data : ZendString) : Decidable (Encryptable data) := by
  unfold Encryptable; infer_instance

/-- The key of the environment. -/
def environmentKey : ZendString := c.sha256.hash (keyInput w g (g.encryptionKey.getD []))

/-- The box of a plaintext under the key of the environment. -/
def boxed (nonce : Nonce) (data : ZendString) : ZendString :=
  (c.nacl.box nonce.bytes (environmentKey w g c) (List.replicate zeroBytes 0 ++ (data ++ [0]))).getD []

variable {w g c}

/-- **With a secret and the name of a variable there is a key.** -/
theorem generateKey_yields (hk : KeySet g) : Yields (generateKey w g c) (environmentKey w g c) := by
  obtain ⟨key, hkey⟩ := Option.isSome_iff_exists.mp hk.encryptionKey
  obtain ⟨name, hname⟩ := Option.isSome_iff_exists.mp hk.cookiesEnvVar
  unfold Yields generateKey environmentKey
  rw [hkey]
  cases henv : envVar w g with
  | some v => simp
  | none => simp [hname, fetch]

theorem box_plaintext (nonce : Nonce) (data : ZendString) :
    c.nacl.box nonce.bytes (environmentKey w g c) (List.replicate zeroBytes 0 ++ (data ++ [0])) =
      some (boxed w g c nonce data) := by
  have hz : Primitives.ZeroPadded (List.replicate zeroBytes 0 ++ (data ++ [0])) := ⟨_, rfl⟩
  unfold boxed
  rw [Primitives.box_eq hz, Option.getD_some]

theorem length_boxed (nonce : Nonce) (data : ZendString) :
    (boxed w g c nonce data).length = zeroBytes + data.length + 1 := by
  rw [Primitives.length_box (box_plaintext nonce data)]
  simp
  omega

/-- No code is empty. -/
theorem encode_boxed_ne_nil (nonce : Nonce) (data : ZendString) :
    c.base64.encode (nonce.bytes ++ boxed w g c nonce data) ≠ [] := by
  intro he
  have hnil := c.base64.eq_nil_of_encode _ he
  have hl := congrArg List.length hnil
  rw [List.length_append, nonce.length_bytes, List.length_nil] at hl
  unfold nonceBytes at hl
  omega

/-- **What is sent out**: the nonce and the box, in base 64. -/
theorem encryptZval_yields (hk : KeySet g) (nonce : Nonce) (data : ZendString) :
    Yields (encryptZval w g c nonce data)
      (c.base64.encode (nonce.bytes ++ boxed w g c nonce data)) := by
  unfold encryptZval
  refine yields_bind.mpr ⟨_, generateKey_yields hk, ?_⟩
  rw [box_plaintext]
  exact yields_pure.mpr rfl

/-- **What has been encrypted comes back as it was**, in simulation or not. -/
theorem decryptZval_encryptZval (hk : KeySet g) (nonce : Nonce) {data : ZendString}
    (hd : Encryptable data) (simulation : Bool) (hashKey : Option ZendString) :
    Yields (decryptZval w g c (c.base64.encode (nonce.bytes ++ boxed w g c nonce data)) simulation
      hashKey) (.keep, data) := by
  have hn := nonce.length_bytes
  have hb := length_boxed (w := w) (g := g) (c := c) nonce data
  have hl : (nonce.bytes ++ boxed w g c nonce data).length =
      nonceBytes + (zeroBytes + data.length + 1) := by
    rw [List.length_append, hn, hb]
  have hopen : c.nacl.open? nonce.bytes (environmentKey w g c) (boxed w g c nonce data) =
      some (List.replicate zeroBytes 0 ++ (data ++ [0])) :=
    Primitives.open_box ⟨_, rfl⟩ (box_plaintext nonce data)
  unfold Encryptable at hd
  unfold decryptZval
  rw [c.base64.decode_encode]
  dsimp only
  rw [hl, if_neg (by omega), Nat.mod_eq_of_lt (by omega), if_neg (by omega)]
  refine yields_bind.mpr ⟨_, generateKey_yields hk, ?_⟩
  rw [List.take_left' hn, List.drop_left' hn, hopen]
  dsimp only
  have hlen : (nonceBytes + (zeroBytes + data.length + 1) + (2 ^ 64 - nonceBytes - 1 - zeroBytes)) %
      2 ^ 64 = data.length := by
    unfold nonceBytes zeroBytes at *
    omega
  rw [hlen, if_pos (by omega), List.drop_left' (by simp), List.take_left' rfl]
  exact yields_pure.mpr rfl

end Snuffleupagus.Crypt.Zval
