import Snuffleupagus.Crypt.Zval
import Snuffleupagus.Lib.Apply
import Snuffleupagus.Match.Value

/-! # Encrypted cookies

The cookies of a request are looked at one by one when it starts: the first rule that matches the name
decides whether the value is decrypted. `setcookie` looks up the same rules, by the name the application
writes, and encrypts the value.

* `yields_spLookupCookieConfig`: the first rule that matches;
* `authentic_of_decryptZval`: what decryption leaves outside of simulation is authentic;
* `find?_decryptCookies`: what the request finds under a key. -/

namespace Snuffleupagus.Cookie.Encryption

open Snuffleupagus.Lib.Effect Snuffleupagus.Lib.Table Snuffleupagus.Lib.Apply Snuffleupagus.Lib.SecretBox
open Snuffleupagus.Php.Bytes Snuffleupagus.Php.Value Snuffleupagus.Php.Engine
open Snuffleupagus.Config.Rule Snuffleupagus.Log Snuffleupagus.Match.Value Snuffleupagus.Crypt.Zval

variable (w : World) (g : SpGlobals) (c : Crypto)

/-! ### The rules -/

/-- The loop of `sp_lookup_cookie_config`. -/
def lookupCookieFrom (key : ZendString) : List SpCookie → Sp (Option SpCookie)
  | [] => pure none
  | config :: l => do
    if ← spMatchValue w g key config.name config.nameR then pure (some config)
    else lookupCookieFrom key l

/-- `sp_lookup_cookie_config`. -/
def spLookupCookieConfig (key : ZendString) : Sp (Option SpCookie) := lookupCookieFrom w g key g.cookies

/-- A rule is about the cookies of a name. -/
def matchesName (name : ZendString) (config : SpCookie) : Bool :=
  match config.name with
  | some s => s == name
  | none =>
    match config.nameR with
    | some rx => decide (0 ≤ w.pcreExec rx.pattern name)
    | none => true

/-! ### The request starts -/

/-- `decrypt_cookie`: an element of the table is kept, with its value, or removed. -/
def decryptCookie (hashKey : HashKey) (dest : Zval) : Sp (HashApply × Zval) :=
  match hashKey with
  | .idx _ => pure (.keep, dest)
  | .str key => do
    match ← spLookupCookieConfig w g key with
    | none => pure (.keep, dest)
    | some cookie =>
      if !cookie.encrypt then pure (.keep, dest)
      else
        match dest with
        | .string value =>
          if value.length = 0 then pure (.keep, dest)
          else do
            let (ret, value) ← decryptZval w g c value cookie.simulation (some key)
            pure (ret, .string value)
        | dest => pure (.keep, dest)

/-- `decrypt_cookie`, for `zend_hash_apply_with_arguments`. -/
def decryptEntry (hashKey : HashKey) (dest : Zval) : Sp (Option Zval) := do
  match ← decryptCookie w g c hashKey dest with
  | (.keep, dest) => pure (some dest)
  | (.remove, _) => pure none

/-- The end of `PHP_RINIT_FUNCTION`, on the cookies of the request. -/
def decryptCookies (cookies : OrdTable HashKey Zval) : Sp (OrdTable HashKey Zval) :=
  if g.encryptionKey.isSome && g.cookies ≠ [] then apply (decryptEntry w g c) cookies else pure cookies

/-! ### The application sets a cookie -/

/-- The arguments of `setcookie`, those in the array of options included, and of `php_setcookie`. -/
structure PhpSetcookie where
  name : ZendString
  value : Option ZendString := none
  expires : ℤ := 0
  path : Option ZendString := none
  domain : Option ZendString := none
  secure : Bool := false
  httponly : Bool := false
  samesite : Option ZendString := none
  partitioned : Bool := false

/-- The request has been issued over HTTPS. -/
def isHttps : Zval → Bool
  | .array serverVars => (zendHashFind serverVars (.str (zstr "HTTPS"))).isSome
  | _ => false

/-- The token of a rule. -/
def samesiteToken (samesite : SamesiteType) : ZendString :=
  if samesite = .lax then zstr "Lax" else zstr "Strict"

/-- The attribute `samesite` of the rule: before PHP 7.3 it is written behind the path. -/
def withSamesite (samesite : SamesiteType) (a : PhpSetcookie) : PhpSetcookie :=
  if samesite = .unset then a
  else
    let path := a.path.getD []
    if w.phpVersionId < 70300 then
      { a with path := some (path ++ zstr "; samesite=" ++ samesiteToken samesite) }
    else { a with path := some path, samesite := some (samesiteToken samesite) }

/-- What `sp_setcookie` makes of the arguments according to the rule on the name. -/
def applyRule (nonce : Nonce) (cookieNode : Option SpCookie) (a : PhpSetcookie) : Sp PhpSetcookie :=
  match cookieNode with
  | none => pure a
  | some cookieNode =>
    if cookieNode.encrypt then do
      let a := { a with httponly := true }
      match a.value with
      | none => pure (withSamesite w cookieNode.samesite a)
      | some value => do
        let valueEnc ← encryptZval w g c nonce value
        pure (withSamesite w cookieNode.samesite { a with value := some valueEnc })
    else pure (withSamesite w cookieNode.samesite a)

/-- `sp_setcookie`, with the arguments parsed: how it calls `php_setcookie`. -/
def spSetcookie (nonce : Nonce) (serverVars : Zval) (a : PhpSetcookie) : Sp PhpSetcookie := do
  let a := { a with secure := a.secure || (g.autoCookieSecure && isHttps serverVars) }
  let cookieNode ← spLookupCookieConfig w g a.name
  let a ← applyRule w g c nonce cookieNode a
  pure { a with partitioned := a.partitioned && a.secure }

/-! ### The first rule that matches -/

section Lookup
variable {w g} {key : ZendString} {config : SpCookie} {r : Option SpCookie} {b : Bool}

theorem yields_spMatchValue (h : Yields (spMatchValue w g key config.name config.nameR) b) :
    b = matchesName w key config := by
  unfold spMatchValue at h
  unfold matchesName
  cases hn : config.name with
  | some s =>
    rw [hn] at h
    exact (yields_pure.mp h).symm
  | none =>
    rw [hn] at h
    cases hr : config.nameR with
    | none =>
      rw [hr] at h
      exact (yields_pure.mp h).symm
    | some rx =>
      rw [hr] at h
      unfold spIsRegexpMatchingLen at h
      dsimp only at h ⊢
      split_ifs at h with hneg hno
      · obtain ⟨-, -, h⟩ := yields_bind.mp h
        rw [← yields_pure.mp h, decide_eq_false (not_le.mpr hneg)]
      · rw [← yields_pure.mp h, decide_eq_false (not_le.mpr hneg)]
      · rw [← yields_pure.mp h, decide_eq_true (not_lt.mp hneg)]

theorem yields_lookupCookieFrom : ∀ {l : List SpCookie}, Yields (lookupCookieFrom w g key l) r →
    r = l.find? (matchesName w key)
  | [], h => (yields_pure.mp h).symm
  | config :: l, h => by
    unfold lookupCookieFrom at h
    obtain ⟨b, hb, h⟩ := yields_bind.mp h
    rw [List.find?_cons, ← yields_spMatchValue hb]
    cases b with
    | true => exact (yields_pure.mp h).symm
    | false => exact yields_lookupCookieFrom h

/-- **The rule found is the first that matches.** -/
theorem yields_spLookupCookieConfig (h : Yields (spLookupCookieConfig w g key) r) :
    r = g.cookies.find? (matchesName w key) := yields_lookupCookieFrom h

/-- Without a rule nothing is looked up. -/
theorem spLookupCookieConfig_nil (h : g.cookies = []) : spLookupCookieConfig w g key = pure none := by
  unfold spLookupCookieConfig
  rw [h]
  rfl

end Lookup

/-! ### What is decrypted -/

/-- **`s` is what the box in `received` holds**, opened with the key of the environment. -/
def Authentic (received s : ZendString) : Prop :=
  ∃ debase64 b, c.base64.decode received = some debase64 ∧ nonceBytes ≤ debase64.length ∧
    c.nacl.open? (debase64.take nonceBytes) (environmentKey w g c) (debase64.drop nonceBytes) =
      some (List.replicate zeroBytes 0 ++ (s ++ [b]))

section Decrypt
variable {w g c} {value s : ZendString} {simulation : Bool} {hashKey : Option ZendString} {ret : HashApply}

theorem yields_generateKey {key : ZendString} (h : Yields (generateKey w g c) key) :
    key = environmentKey w g c := by
  unfold generateKey at h
  unfold environmentKey
  cases hk : g.encryptionKey with
  | none =>
    rw [hk] at h
    cases h
  | some encryptionKey =>
    rw [hk] at h
    dsimp only at h
    cases henv : envVar w g with
    | some v =>
      rw [henv] at h
      exact (yields_pure.mp h).symm
    | none =>
      rw [henv] at h
      obtain ⟨name, -, h⟩ := yields_bind.mp h
      obtain ⟨-, -, h⟩ := yields_bind.mp h
      exact (yields_pure.mp h).symm

/-- The opened box, cut to the length the module computes. -/
theorem authentic_of_open {debase64 decrypted : ZendString} (hd : c.base64.decode value = some debase64)
    (hn : nonceBytes ≤ debase64.length) (ho : debase64.length + zeroBytes < 2 ^ 64)
    (hopen : c.nacl.open? (debase64.take nonceBytes) (environmentKey w g c) (debase64.drop nonceBytes) =
      some decrypted)
    (hlen : (debase64.length + (2 ^ 64 - nonceBytes - 1 - zeroBytes)) % 2 ^ 64 ≤ debase64.length) :
    Authentic w g c value ((decrypted.drop zeroBytes).take
      ((debase64.length + (2 ^ 64 - nonceBytes - 1 - zeroBytes)) % 2 ^ 64)) := by
  obtain ⟨⟨plain, rfl⟩, hl, hbox⟩ := Primitives.open_eq_some hopen
  rw [List.length_append, List.length_replicate, List.length_drop] at hl
  rw [List.length_drop] at hbox
  -- a box without even the byte behind the plaintext is not cut, but overruns its buffer
  have hpos : plain ≠ [] := by
    rintro rfl
    rw [List.length_nil] at hl
    unfold nonceBytes zeroBytes at *
    omega
  have hcut : (debase64.length + (2 ^ 64 - nonceBytes - 1 - zeroBytes)) % 2 ^ 64 =
      plain.dropLast.length := by
    have hp := List.length_pos_iff.mpr hpos
    rw [List.length_dropLast]
    unfold nonceBytes zeroBytes at *
    omega
  have htake : plain.take plain.dropLast.length = plain.dropLast := by
    rw [List.length_dropLast, ← List.dropLast_eq_take]
  refine ⟨debase64, plain.getLast hpos, hd, hn, ?_⟩
  rw [hcut, hopen, List.drop_left' (by rfl : (List.replicate 32 (0 : UInt8)).length = zeroBytes), htake,
    List.dropLast_append_getLast hpos]
  rfl

/-- **Outside of simulation, what is kept is authentic.** -/
theorem authentic_of_decryptZval (h : Yields (decryptZval w g c value false hashKey) (ret, s)) :
    ret = .remove ∨ Authentic w g c value s := by
  unfold decryptZval at h
  cases hd : c.base64.decode value with
  | none =>
    rw [hd] at h
    obtain ⟨-, -, h⟩ := yields_bind.mp h
    cases yields_pure.mp h
    exact Or.inl rfl
  | some debase64 =>
    rw [hd] at h
    dsimp only at h
    simp only [Bool.false_eq_true, if_false] at h
    by_cases hshort : debase64.length < nonceBytes
    · rw [if_pos hshort] at h
      obtain ⟨-, -, h⟩ := yields_bind.mp h
      cases yields_pure.mp h
      exact Or.inl rfl
    rw [if_neg hshort] at h
    by_cases hover : (debase64.length + zeroBytes) % 2 ^ 64 < debase64.length
    · rw [if_pos hover] at h
      obtain ⟨-, -, h⟩ := yields_bind.mp h
      cases yields_pure.mp h
      exact Or.inl rfl
    rw [if_neg hover] at h
    obtain ⟨key, hkey, h⟩ := yields_bind.mp h
    rw [yields_generateKey hkey] at h
    cases hopen : c.nacl.open? (debase64.take nonceBytes) (environmentKey w g c)
        (debase64.drop nonceBytes) with
    | none =>
      rw [hopen] at h
      obtain ⟨-, -, h⟩ := yields_bind.mp h
      cases yields_pure.mp h
      exact Or.inl rfl
    | some decrypted =>
      rw [hopen] at h
      dsimp only at h
      split_ifs at h with hlen
      · cases yields_pure.mp h
        refine Or.inr (authentic_of_open hd (not_lt.mp hshort) ?_ hopen hlen)
        unfold zeroBytes at *
        omega
      · cases h

end Decrypt

/-! ### What the request finds -/

/-- A rule encrypts the cookies of the name. -/
def Encrypted (name : ZendString) : Prop :=
  ∃ rule, g.cookies.find? (matchesName w name) = some rule ∧ rule.encrypt = true

/-- A rule encrypts the cookies of the name, and is not in simulation. -/
def Protected (name : ZendString) : Prop :=
  ∃ rule, g.cookies.find? (matchesName w name) = some rule ∧ rule.encrypt = true ∧ rule.simulation = false

section Find
variable {w g c} {cookies cookies' : OrdTable HashKey Zval} {k : HashKey} {v : Zval} {r : Option Zval}
  {name received : ZendString} {rule : SpCookie}

/-- An element that is no string under the name of encrypted cookies is left alone. -/
theorem yields_decryptEntry_kept (h : Yields (decryptEntry w g c k v) r)
    (hn : ∀ name received, k = .str name → v = .string received → received ≠ [] → ¬ Encrypted w g name) :
    r = some v := by
  unfold decryptEntry at h
  obtain ⟨⟨ret, dest⟩, hd, hend⟩ := yields_bind.mp h
  have hkeep : ret = .keep ∧ dest = v := by
    unfold decryptCookie at hd
    cases k with
    | idx i =>
      cases yields_pure.mp hd
      exact ⟨rfl, rfl⟩
    | str name =>
      obtain ⟨found, hfound, hd⟩ := yields_bind.mp hd
      rw [yields_spLookupCookieConfig hfound] at hd
      cases hf : g.cookies.find? (matchesName w name) with
      | none =>
        rw [hf] at hd
        cases yields_pure.mp hd
        exact ⟨rfl, rfl⟩
      | some rule =>
        rw [hf] at hd
        dsimp only at hd
        split_ifs at hd with he
        · cases yields_pure.mp hd
          exact ⟨rfl, rfl⟩
        · rw [Bool.not_eq_true', Bool.not_eq_false] at he
          cases v with
          | string received =>
            dsimp only at hd
            by_cases hnil : received.length = 0
            · rw [if_pos hnil] at hd
              cases yields_pure.mp hd
              exact ⟨rfl, rfl⟩
            · have hne : received ≠ [] := fun e => hnil (by rw [e]; rfl)
              exact absurd ⟨rule, hf, he⟩ (hn name received rfl rfl hne)
          | _ =>
            cases yields_pure.mp hd
            exact ⟨rfl, rfl⟩
  obtain ⟨rfl, rfl⟩ := hkeep
  exact (yields_pure.mp hend).symm

/-- **A string under the name of encrypted cookies is decrypted.** -/
theorem yields_decryptEntry_encrypted
    (h : Yields (decryptEntry w g c (.str name) (.string received)) r)
    (hrule : g.cookies.find? (matchesName w name) = some rule) (he : rule.encrypt = true)
    (hne : received ≠ []) : ∃ ret s,
      Yields (decryptZval w g c received rule.simulation (some name)) (ret, s) ∧
      r = if ret = .keep then some (.string s) else none := by
  unfold decryptEntry decryptCookie at h
  obtain ⟨⟨ret, dest⟩, hd, hend⟩ := yields_bind.mp h
  obtain ⟨found, hfound, hd⟩ := yields_bind.mp hd
  rw [yields_spLookupCookieConfig hfound, hrule] at hd
  dsimp only at hd
  rw [he, if_neg (by decide), if_neg fun e => hne (List.length_eq_zero_iff.mp e)] at hd
  obtain ⟨⟨a, s⟩, hz, hd⟩ := yields_bind.mp hd
  cases yields_pure.mp hd
  refine ⟨a, s, hz, ?_⟩
  cases a <;> exact (yields_pure.mp hend).symm

/-- No cookie is added. -/
theorem find?_decryptCookies_none (h : Yields (decryptCookies w g c cookies) cookies')
    (hk : cookies.find? k = none) : cookies'.find? k = none := by
  unfold decryptCookies at h
  split_ifs at h
  · exact find?_apply_none h hk
  · rwa [← yields_pure.mp h]

/-- **What is not encrypted is left alone.** -/
theorem find?_decryptCookies_kept (h : Yields (decryptCookies w g c cookies) cookies')
    (hn : ∀ name received, k = .str name → cookies.find? k = some (.string received) → received ≠ [] →
      ¬ Encrypted w g name) : cookies'.find? k = cookies.find? k := by
  cases hk : cookies.find? k with
  | none => exact find?_decryptCookies_none h hk
  | some v =>
    unfold decryptCookies at h
    split_ifs at h
    · refine yields_decryptEntry_kept (find?_apply_some h hk) fun name received hname hv => ?_
      exact hn name received hname (hk.trans (congrArg some hv))
    · rwa [← yields_pure.mp h]

/-- With a rule that encrypts, and a key, the cookies of the request are looked at. -/
theorem decryptCookies_on (hk : KeySet g) (he : Encrypted w g name) :
    decryptCookies w g c cookies = apply (decryptEntry w g c) cookies := by
  obtain ⟨rule, hrule, -⟩ := he
  have hne : g.cookies ≠ [] := by
    rintro hnil
    rw [hnil] at hrule
    cases hrule
  unfold decryptCookies
  rw [hk.encryptionKey, if_pos (by simpa using hne)]

end Find

end Snuffleupagus.Cookie.Encryption
