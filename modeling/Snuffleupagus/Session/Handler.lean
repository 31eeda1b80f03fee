import Snuffleupagus.Crypt.Zval
import Snuffleupagus.Unserialize.Handler

/-! # Session data

The module puts itself between PHP and the save handler of the sessions: it refuses session IDs whose
length is out of bounds, encrypts what is written and decrypts what is read. Nothing is done to empty
data. The save handler itself is a parameter.

* `readData_writeData`: what is read is what has been written;
* `encryption_round_trip`: strings and sessions come back as they were. -/

namespace Snuffleupagus.Session.Handler

open Snuffleupagus.Lib.Effect Snuffleupagus.Php.Bytes Snuffleupagus.Php.Engine
open Snuffleupagus.Config.Rule Snuffleupagus.Log Snuffleupagus.Unserialize.Handler
open Snuffleupagus.Crypt.Zval

/-- `ps_module`, as far as it is wrapped: a save handler over a store of type `σ`. -/
structure PsModule (σ : Type) where
  sRead : Option ZendString → σ → Bool × Option ZendString × σ
  sWrite : Option ZendString → ZendString → σ → Bool × σ

variable (w : World) (g : SpGlobals) (c : Crypto) {σ : Type} (m : PsModule σ)

/-- The lower bound of `check_sid_length`. -/
def checkSidMinLength (sid : ZendString) : Sp Unit :=
  if g.session.sidMinLength ≠ 0 ∧ sid.length < g.session.sidMinLength then
    spLogAuto w g "session" g.session.simulation "Session ID is too short (sid=%zu min=%lu)"
      [decimal sid.length, decimal g.session.sidMinLength]
  else pure ()

/-- The upper bound of `check_sid_length`. -/
def checkSidMaxLength (sid : ZendString) : Sp Unit :=
  if g.session.sidMaxLength ≠ 0 ∧ g.session.sidMaxLength < sid.length then
    spLogAuto w g "session" g.session.simulation "Session ID is too long (sid=%zu max=%lu)"
      [decimal sid.length, decimal g.session.sidMaxLength]
  else pure ()

/-- `check_sid_length`. -/
def checkSidLength (sid : Option ZendString) : Sp Unit :=
  match sid with
  | none => pure ()
  | some sid => do
    checkSidMinLength w g sid
    checkSidMaxLength w g sid

/-- What `sp_hook_s_read` makes of the data that has been read. -/
def readData (r : Bool) (val : Option ZendString) : Sp (Option ZendString) :=
  match val with
  | none => pure none
  | some val =>
    if val = [] then pure (some val)
    else if r && g.session.encrypt then do
      match ← decryptZval w g c val g.session.simulation none with
      | (.keep, val) => pure (some val)
      | (.remove, _) => zendBailout
    else pure (some val)

/-- `sp_hook_s_read`. -/
def spHookSRead (key : Option ZendString) (st : σ) : Sp (Bool × Option ZendString × σ) := do
  checkSidLength w g key
  let (r, val, st) := m.sRead key st
  let val ← readData w g c r val
  pure (r, val, st)

/-- What `sp_hook_s_write` stores. -/
def writeData (nonce : Nonce) (val : ZendString) : Sp ZendString :=
  if 0 < val.length && g.session.encrypt then encryptZval w g c nonce val else pure val

/-- `sp_hook_s_write`. -/
def spHookSWrite (nonce : Nonce) (key : Option ZendString) (val : ZendString) (st : σ) :
    Sp (Bool × σ) := do
  checkSidLength w g key
  let newVal ← writeData w g c nonce val
  pure (m.sWrite key newVal st)

/-- The save handler reads what it has written. -/
def Stores (m : PsModule σ) : Prop :=
  ∀ key val st st', m.sWrite key val st = (true, st') → ∃ st'', m.sRead key st' = (true, some val, st'')

section Lemmas
variable {w g c m} {key : Option ZendString} {val stored : ZendString} {nonce : Nonce} {st st' : σ}

/-- **What is read is what has been written**, whatever has been stored for it. -/
theorem readData_writeData (hk : KeySet g) (hv : Encryptable val)
    (h : Yields (writeData w g c nonce val) stored) :
    Yields (readData w g c true (some stored)) (some val) := by
  unfold writeData at h
  unfold readData
  dsimp only
  by_cases hc : 0 < val.length && g.session.encrypt
  · rw [if_pos hc] at h
    rw [Bool.and_eq_true] at hc
    have he := Yields.unique h (encryptZval_yields hk nonce val)
    rw [he, if_neg (encode_boxed_ne_nil nonce val), hc.2]
    exact yields_bind.mpr ⟨_, decryptZval_encryptZval hk nonce hv _ _, yields_pure.mpr rfl⟩
  · rw [if_neg hc] at h
    have hs : val = stored := yields_pure.mp h
    subst hs
    split_ifs with hnil he
    · exact yields_pure.mpr rfl
    · -- data that is not empty is encrypted if the data read is decrypted
      refine absurd ?_ hc
      rw [Bool.true_and] at he
      rw [he, Bool.and_true]
      exact decide_eq_true (List.length_pos_iff.mpr hnil)
    · exact yields_pure.mpr rfl

/-- The session hooks give back what has been written. -/
theorem spHookSRead_spHookSWrite (hm : Stores m) (hk : KeySet g) (hv : Encryptable val)
    (h : Yields (spHookSWrite w g c m nonce key val st) (true, st')) :
    ∃ st'', Yields (spHookSRead w g c m key st') (true, some val, st'') := by
  unfold spHookSWrite at h
  obtain ⟨u, hsid, h⟩ := yields_bind.mp h
  obtain ⟨stored, hstored, h⟩ := yields_bind.mp h
  obtain ⟨st'', hr⟩ := hm _ _ _ _ (yields_pure.mp h)
  refine ⟨st'', ?_⟩
  unfold spHookSRead
  refine yields_bind.mpr ⟨u, hsid, ?_⟩
  rw [hr]
  exact yields_bind.mpr ⟨_, readData_writeData hk hv hstored, yields_pure.mpr rfl⟩

/-- An accepted session ID is all it takes to write. -/
theorem spHookSWrite_yields (hk : KeySet g) (hsid : Yields (checkSidLength w g key) ())
    (nonce : Nonce) (val : ZendString) (st : σ) :
    ∃ x, Yields (spHookSWrite w g c m nonce key val st) x := by
  have hd : ∃ stored, Yields (writeData w g c nonce val) stored := by
    unfold writeData
    split_ifs
    · exact ⟨_, encryptZval_yields hk nonce val⟩
    · exact ⟨_, yields_pure.mpr rfl⟩
  obtain ⟨stored, hstored⟩ := hd
  refine ⟨m.sWrite key stored st, ?_⟩
  unfold spHookSWrite
  exact yields_bind.mpr ⟨(), hsid, yields_bind.mpr ⟨stored, hstored, yields_pure.mpr rfl⟩⟩

end Lemmas

/-- **Nothing is changed by encryption and decryption**: a string, and the data of a session, come back
as they were. -/
theorem encryption_round_trip (hk : KeySet g) (nonce : Nonce) :
    (∀ data, Encryptable data → ∀ simulation hashKey, ∃ z, Yields (encryptZval w g c nonce data) z ∧
      Yields (decryptZval w g c z simulation hashKey) (.keep, data)) ∧
    ∀ (σ : Type) (m : PsModule σ), Stores m → ∀ key val, Encryptable val → ∀ st,
      (Yields (checkSidLength w g key) () → ∃ x, Yields (spHookSWrite w g c m nonce key val st) x) ∧
      ∀ st', Yields (spHookSWrite w g c m nonce key val st) (true, st') →
        ∃ st'', Yields (spHookSRead w g c m key st') (true, some val, st'') := by
  refine ⟨fun data hd simulation hashKey => ?_, fun σ m hm key val hv st => ⟨fun hsid => ?_, ?_⟩⟩
  · exact ⟨_, encryptZval_yields hk nonce data, decryptZval_encryptZval hk nonce hd simulation hashKey⟩
  · exact spHookSWrite_yields hk hsid nonce val st
  · exact fun st' h => spHookSRead_spHookSWrite hm hk hv h

/-- A save handler that keeps one string, in memory. -/
def memoryModule : PsModule (Option ZendString) where
  sRead _ st := (true, st, st)
  sWrite _ val _ := (true, some val)

/-- A secret box with an empty stream. -/
def plainCrypto : Crypto where
  base64 := .php
  nacl := ⟨fun _ _ _ => 0, fun _ _ => List.replicate 16 0, fun _ _ => List.length_replicate⟩
  sha256 := ⟨fun _ => List.replicate 32 0, fun _ => List.length_replicate⟩

/-- The globals with a secret and encrypted sessions. -/
def keyGlobals : SpGlobals :=
  { encryptionKey := some (zstr "a very long secret"), cookiesEnvVar := some (zstr "REMOTE_ADDR")
    session := { encrypt := true } }

theorem encryption_round_trip_memory :
    (∃ z, Yields (encryptZval (.empty 80000) keyGlobals plainCrypto ⟨List.replicate 24 7, rfl⟩ [0, 1]) z ∧
      Yields (decryptZval (.empty 80000) keyGlobals plainCrypto z false none) (.keep, [0, 1])) ∧
    ∀ st', Yields (spHookSWrite (.empty 80000) keyGlobals plainCrypto memoryModule
        ⟨List.replicate 24 7, rfl⟩ none [1, 0] none) (true, st') →
      ∃ st'', Yields (spHookSRead (.empty 80000) keyGlobals plainCrypto memoryModule none st')
        (true, some [1, 0], st'') := by
  have hk : KeySet keyGlobals := ⟨rfl, rfl⟩
  have h := encryption_round_trip (.empty 80000) keyGlobals plainCrypto hk ⟨List.replicate 24 7, rfl⟩
  have hstores : Stores memoryModule := by
    intro key val st st' hw
    cases hw
    exact ⟨_, rfl⟩
  exact ⟨h.1 [0, 1] (by decide) false none, (h.2 _ memoryModule hstores none [1, 0] (by decide) none).2⟩

end Snuffleupagus.Session.Handler
