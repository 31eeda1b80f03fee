import Snuffleupagus.Crypt.Zval

/-! # Separation of the keys

The key is the digest of the user agent, the variable of the environment and the secret, one written behind the
other. Nothing stands between them, so what is hashed does not tell where the user agent ends.

* `keyInput_eq_iff`: two visitors share what is hashed exactly if the one is the other with a piece moved between
  the two strings (`Moved`);
* `separated_iff`: all others are kept apart, and what has been encrypted for one does not decrypt for the other,
  if the digest and the box are what they are taken for (`Ideal`);
* `decrypts_of_moved`: if a piece is moved, it decrypts. -/

namespace Snuffleupagus.Crypt.Separation

open Snuffleupagus.Lib.Effect Snuffleupagus.Lib.SecretBox Snuffleupagus.Php.Bytes
open Snuffleupagus.Php.Engine Snuffleupagus.Config.Rule Snuffleupagus.Log Snuffleupagus.Crypt.Zval
open Snuffleupagus.Unserialize.Hmac

/-- What the key depends on besides the secret: two strings without a NUL, and each may be absent. -/
@[ext] structure Visitor where
  userAgent : Option ZendString
  envVar : Option ZendString
  userAgent_ne : ∀ s ∈ userAgent, ∀ b ∈ s, b ≠ 0
  envVar_ne : ∀ s ∈ envVar, ∀ b ∈ s, b ≠ 0

namespace Visitor
variable (v v' : Visitor)

/-- The user agent as it is hashed: nothing, if it is absent. -/
def agentText : ZendString := v.userAgent.getD []

/-- The variable as it is hashed. -/
def envText : ZendString := v.envVar.getD []

/-- A piece, which may be empty, is moved from the end of the user agent to the front of the variable. -/
def Moved : Prop := ∃ t, v.agentText = v'.agentText ++ t ∧ v'.envText = t ++ v.envText

end Visitor

section Input
variable (w w' : World) (g : SpGlobals)

theorem cstr_ne {o : Option ZendString} : ∀ s ∈ o.map cstr, ∀ b ∈ s, b ≠ 0 := by
  intro s hs b hb
  obtain ⟨s', -, rfl⟩ := Option.mem_map.mp hs
  simpa using List.mem_takeWhile_imp hb

/-- The visitor `generate_key` sees. -/
def visitor : Visitor where
  userAgent := (w.getenv (zstr "HTTP_USER_AGENT")).map cstr
  envVar := (envVar w g).map cstr
  userAgent_ne := cstr_ne
  envVar_ne := cstr_ne

theorem keyInput_eq (key : ZendString) :
    keyInput w g key = (visitor w g).agentText ++ (visitor w g).envText ++ cstr key := rfl

variable {w w' g}

/-- **The same is hashed** exactly if a piece is moved. -/
theorem keyInput_eq_iff {key : ZendString} : keyInput w g key = keyInput w' g key ↔
    (visitor w g).Moved (visitor w' g) ∨ (visitor w' g).Moved (visitor w g) := by
  rw [keyInput_eq, keyInput_eq, List.append_cancel_right_eq, List.append_eq_append_iff]
  exact or_comm

end Input

/-! ### The cookies -/

section Cookies
variable (w w' : World) (g : SpGlobals) (c : Crypto)

/-- **What the primitives are taken for**: the digest has no collision here, and what has been boxed under one
of the keys does not open under the other. -/
structure Ideal : Prop where
  hash : environmentKey w g c = environmentKey w' g c →
    keyInput w g (g.encryptionKey.getD []) = keyInput w' g (g.encryptionKey.getD [])
  box : environmentKey w g c ≠ environmentKey w' g c → ∀ n m b, Primitives.ZeroPadded m →
    c.nacl.box n (environmentKey w g c) m = some b → c.nacl.open? n (environmentKey w' g c) b = none

/-- What is encrypted for the first does not decrypt for the second: it is left as it is in simulation, and
removed otherwise. -/
def Refuses : Prop := ∀ nonce data, Encryptable data → ∀ z, Yields (encryptZval w g c nonce data) z →
  ∀ simulation hashKey,
    Yields (decryptZval w' g c z simulation hashKey) (if simulation then .keep else .remove, z)

/-- **The visitors are kept apart**: what is hashed differs, and nothing decrypts for the other. -/
def Separated : Prop :=
  keyInput w g (g.encryptionKey.getD []) ≠ keyInput w' g (g.encryptionKey.getD []) ∧
    ∀ c, Ideal w w' g c → Refuses w w' g c

variable {w w' g c}

/-- A box that does not open. -/
theorem decryptZval_of_open_none (hk : KeySet g) {value debase64 : ZendString}
    (hdecode : c.base64.decode value = some debase64) (hnonce : nonceBytes ≤ debase64.length)
    (hsize : debase64.length + zeroBytes < 2 ^ 64)
    (hopen : c.nacl.open? (debase64.take nonceBytes) (environmentKey w g c) (debase64.drop nonceBytes) = none)
    (simulation : Bool) (hashKey : Option ZendString) :
    Yields (decryptZval w g c value simulation hashKey) (if simulation then .keep else .remove, value) := by
  unfold decryptZval
  rw [hdecode]
  dsimp only
  rw [if_neg (by omega), Nat.mod_eq_of_lt hsize, if_neg (by omega)]
  refine yields_bind.mpr ⟨_, generateKey_yields hk, ?_⟩
  rw [hopen]
  cases simulation with
  | true => exact yields_bind.mpr ⟨(), out_spLogSimulation w g _ _ _, yields_pure.mpr rfl⟩
  | false => exact yields_bind.mpr ⟨(), out_spLogWarn w g _ _ _, yields_pure.mpr rfl⟩

/-- With different keys nothing decrypts. -/
theorem refuses_of_ne (hk : KeySet g) (hi : Ideal w w' g c)
    (hne : keyInput w g (g.encryptionKey.getD []) ≠ keyInput w' g (g.encryptionKey.getD [])) :
    Refuses w w' g c := by
  intro nonce data hd z hz simulation hashKey
  rw [(encryptZval_yields hk nonce data).unique hz |>.symm]
  have hn := nonce.length_bytes
  have hl : (nonce.bytes ++ boxed w g c nonce data).length = nonceBytes + (zeroBytes + data.length + 1) := by
    rw [List.length_append, hn, length_boxed]
  unfold Encryptable at hd
  refine decryptZval_of_open_none hk (c.base64.decode_encode _) (by omega) (by omega) ?_ simulation hashKey
  rw [List.take_left' hn, List.drop_left' hn]
  exact hi.box (fun h => hne (hi.hash h)) _ _ _ ⟨_, rfl⟩ (box_plaintext nonce data)

/-- **If a piece is moved, what is encrypted for one visitor decrypts for the other.** -/
theorem decrypts_of_moved (hk : KeySet g)
    (hm : (visitor w g).Moved (visitor w' g) ∨ (visitor w' g).Moved (visitor w g)) (c : Crypto)
    (nonce : Nonce) {data : ZendString} (hd : Encryptable data) (simulation : Bool)
    (hashKey : Option ZendString) : ∃ z, Yields (encryptZval w g c nonce data) z ∧
      Yields (decryptZval w' g c z simulation hashKey) (.keep, data) := by
  have hkey : environmentKey w g c = environmentKey w' g c := by
    unfold environmentKey
    rw [keyInput_eq_iff.mpr hm]
  have hboxed : boxed w g c nonce data = boxed w' g c nonce data := by
    unfold boxed
    rw [hkey]
  refine ⟨_, encryptZval_yields hk nonce data, ?_⟩
  rw [hboxed]
  exact decryptZval_encryptZval hk nonce hd simulation hashKey

/-- **Two visitors are kept apart** exactly if neither is the other with a piece moved between the strings. -/
theorem separated_iff (hk : KeySet g) : Separated w w' g ↔
    ¬((visitor w g).Moved (visitor w' g) ∨ (visitor w' g).Moved (visitor w g)) := by
  have hinput : keyInput w g (g.encryptionKey.getD []) ≠ keyInput w' g (g.encryptionKey.getD []) ↔
      ¬((visitor w g).Moved (visitor w' g) ∨ (visitor w' g).Moved (visitor w g)) :=
    not_congr keyInput_eq_iff
  constructor
  · rintro ⟨h, -⟩
    exact hinput.mp h
  · intro h
    have hdiffers := hinput.mpr h
    exact ⟨hdiffers, fun c hi => refuses_of_ne hk hi hdiffers⟩

end Cookies

/-! ### Two visitors -/

/-- The environment of a visitor. -/
def environment (userAgent remoteAddr : Option ZendString) : World :=
  { World.empty 80200 with
    getenv := fun name =>
      if name = zstr "HTTP_USER_AGENT" then userAgent
      else if name = zstr "REMOTE_ADDR" then remoteAddr else none }

/-- `sp.global.secret_key("secret").cookie_env_var("REMOTE_ADDR");`. -/
def remoteAddrGlobals : SpGlobals :=
  { encryptionKey := some (zstr "secret"), cookiesEnvVar := some (zstr "REMOTE_ADDR") }

/-- Any two strings are those of a visitor. -/
theorem visitor_environment (v : Visitor) :
    visitor (environment v.userAgent v.envVar) remoteAddrGlobals = v := by
  have hcstr : ∀ o : Option ZendString, (∀ s ∈ o, ∀ b ∈ s, b ≠ 0) → o.map cstr = o := by
    intro o h
    cases o with
    | none => rfl
    | some s => exact congrArg some (cstr_eq_self (h s rfl))
  exact Visitor.ext (hcstr _ v.userAgent_ne) (hcstr _ v.envVar_ne)

/-- Primitives under which two keys are told apart by their first bytes. -/
def prefixCrypto : Crypto where
  base64 := .php
  nacl := ⟨fun _ k i => k.getD i 0, fun _ k => (k ++ List.replicate 16 0).take 16, fun _ _ => by simp⟩
  sha256 := ⟨fun s => (s ++ List.replicate 32 0).take 32, fun _ => by simp⟩

/-- Two visitors with different user agents at one address. -/
def firefox : World := environment (some (zstr "Firefox")) (some (zstr "192.0.2.1"))

def chrome : World := environment (some (zstr "Chrome")) (some (zstr "192.0.2.1"))

theorem ideal_prefixCrypto : Ideal firefox chrome remoteAddrGlobals prefixCrypto where
  hash h := absurd h (by decide)
  box := by
    intro _ n m b hz hb
    -- a tag is the start of the key
    have htag : ∀ w, prefixCrypto.nacl.streamBytes n (environmentKey w remoteAddrGlobals prefixCrypto) 32 =
        (List.range 32).map fun i => (environmentKey w remoteAddrGlobals prefixCrypto).getD i 0 := fun _ => rfl
    rw [Primitives.box_eq hz, htag] at hb
    have h16 : (b.drop 16).take 16 = (zstr "Firefox192.0.2.1secret").take 16 := by
      rw [← Option.some.inj hb, List.append_assoc, List.drop_left' (by simp), List.take_left' (by rfl)]
      rfl
    unfold Primitives.open?
    rw [h16, htag]
    split_ifs with hl heq
    · rfl
    · have hchrome : prefixCrypto.nacl.auth (b.drop 32) ((List.range 32).map fun i =>
          (environmentKey chrome remoteAddrGlobals prefixCrypto).getD i 0) =
          (zstr "Chrome192.0.2.1secret").take 16 := rfl
      exact absurd (hchrome.symm.trans heq) (by decide)
    · rfl

theorem separated_firefox_chrome : Ideal firefox chrome remoteAddrGlobals prefixCrypto ∧
    (Separated firefox chrome remoteAddrGlobals ↔
      ¬((visitor firefox remoteAddrGlobals).Moved (visitor chrome remoteAddrGlobals) ∨
        (visitor chrome remoteAddrGlobals).Moved (visitor firefox remoteAddrGlobals))) :=
  ⟨ideal_prefixCrypto, separated_iff ⟨rfl, rfl⟩⟩

/-- **A cookie of 198.51.100.7 decrypts at 8.51.100.7**, with a longer user agent. -/
theorem not_separated_moved :
    visitor (environment (some (zstr "Mozilla")) (some (zstr "198.51.100.7"))) remoteAddrGlobals ≠
        visitor (environment (some (zstr "Mozilla19")) (some (zstr "8.51.100.7"))) remoteAddrGlobals ∧
      ¬Separated (environment (some (zstr "Mozilla")) (some (zstr "198.51.100.7")))
        (environment (some (zstr "Mozilla19")) (some (zstr "8.51.100.7"))) remoteAddrGlobals := by
  refine ⟨fun h => ?_, fun h => h.1 rfl⟩
  have hagent := congrArg Visitor.userAgent h
  exact absurd hagent (by decide)

end Snuffleupagus.Crypt.Separation
