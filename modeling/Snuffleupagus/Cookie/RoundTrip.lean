import Snuffleupagus.Load.Cookies

/-! # Cookies that come back

`setcookie` looks up the rule by the name the application writes, the start of a request by the name PHP
gives to the cookie that comes back: dots have become underscores, an integer is no string, and brackets
make arrays. Encryption cannot be seen by the application exactly if both lookups agree
(`setcookie_transparent_iff`).

How PHP names the cookies of a request is a parameter. -/

namespace Snuffleupagus.Cookie.RoundTrip

open Snuffleupagus.Lib.Effect Snuffleupagus.Lib.Table Snuffleupagus.Lib.Apply
open Snuffleupagus.Php.Bytes Snuffleupagus.Php.Value Snuffleupagus.Php.Engine Snuffleupagus.Config.Rule
open Snuffleupagus.Log hiding Event
open Snuffleupagus.Config.Keyword hiding spProcessRule
open Snuffleupagus.Config.Sound Snuffleupagus.Ini.Hook Snuffleupagus.Load.Module
open Snuffleupagus.Load.History Snuffleupagus.Load.Cookies Snuffleupagus.Crypt.Zval
open Snuffleupagus.Cookie.Encryption Snuffleupagus.Session.Handler

/-- Where PHP puts a cookie of a request: a key, and the keys of the arrays under it. -/
structure CookieName where
  key : HashKey
  path : List HashKey

/-- An element of nested arrays. -/
def nested : List HashKey → ZendString → Zval
  | [], z => .string z
  | k :: path, z => .array [(k, nested path z)]

/-- The cookies of a request with one cookie. -/
def loneCookie (name : CookieName) (z : ZendString) : OrdTable HashKey Zval :=
  OrdTable.empty.insert name.key (nested name.path z)

variable (w : World) (g : SpGlobals) (c : Crypto)

/-- `setcookie` encrypts the values under the name. -/
def encrypts (n : ZendString) : Sp Bool := (fun r => r.any SpCookie.encrypt) <$> spLookupCookieConfig w g n

/-- The start of a request decrypts the values under the name: not without a secret, and neither those
under an integer nor those in an array. -/
def decrypts (name : CookieName) : Sp Bool :=
  match name.key with
  | .idx _ => pure false
  | .str key =>
    if g.encryptionKey.isNone then pure false
    else (fun r => r.any SpCookie.encrypt && name.path.isEmpty) <$> spLookupCookieConfig w g key

/-- **The application reads `v`** in a request, under the name PHP gives to the cookie with the value
`z`; a request with this cookie only comes that far. -/
structure ReadBack (name : CookieName) (z v : ZendString) : Prop where
  starts : ∃ cookies, Yields (decryptCookies w g c (loneCookie name z)) cookies
  reads : ∀ cookies cookies', readCookie cookies name.key name.path = some z →
    Yields (decryptCookies w g c cookies) cookies' → readCookie cookies' name.key name.path = some v

variable (w' : World)

/-- **Encryption cannot be seen**: what `setcookie` is given under the name `n`, in the world `w`, is read
in a later request, in the world `w'`, under the name PHP gives to the cookie. An empty cookie is deleted
and does not come back. -/
def Transparent (n : ZendString) (name : CookieName) : Prop :=
  ∀ (nonce : Nonce) (serverVars : Zval) (a : PhpSetcookie) (v : ZendString), a.name = n → a.value = some v →
    Encryptable v → ∃ a' z, Yields (spSetcookie w g c nonce serverVars a) a' ∧ a'.value = some z ∧
      (z ≠ [] → ReadBack w' g c name z v)

section Lemmas
variable {w g c w'} {n : ZendString} {name : CookieName} {z v : ZendString} {nonce : Nonce} {serverVars : Zval}
  {a a' : PhpSetcookie} {r : Option SpCookie}

theorem stringAt_nested : ∀ (path : List HashKey) (z : ZendString), stringAt path (nested path z) = some z
  | [], _ => rfl
  | k :: path, z => by
    rw [nested, stringAt, zendHashFind, OrdTable.lookup, if_pos rfl]
    exact stringAt_nested path z

theorem readCookie_loneCookie : readCookie (loneCookie name z) name.key name.path = some z := by
  unfold readCookie loneCookie
  rw [OrdTable.find?_insert, if_pos rfl]
  exact stringAt_nested name.path z

/-- The rule found is a rule of the configuration. -/
theorem encrypted_of_any (h : Yields (spLookupCookieConfig w g n) r) (ha : r.any SpCookie.encrypt = true) :
    ∃ rule, r = some rule ∧ g.cookies.find? (matchesName w n) = some rule ∧ rule.encrypt = true := by
  cases r with
  | none => cases ha
  | some rule => exact ⟨rule, rfl, (yields_spLookupCookieConfig h).symm, ha⟩

theorem not_encrypted_of_any (h : Yields (spLookupCookieConfig w g n) r)
    (ha : r.any SpCookie.encrypt = false) : ¬ Encrypted w g n := by
  rintro ⟨rule, hrule, he⟩
  rw [yields_spLookupCookieConfig h, hrule, Option.any_some, he] at ha
  cases ha

theorem keySet_of_any (hg : Tested g) (h : Yields (spLookupCookieConfig w g n) r)
    (ha : r.any SpCookie.encrypt = true) : KeySet g := by
  obtain ⟨rule, -, hrule, he⟩ := encrypted_of_any h ha
  obtain ⟨hkey, henv⟩ := hg.cookies rule (List.mem_of_find?_eq_some hrule) he
  exact ⟨hkey, henv⟩

/-! ### What is sent -/

theorem value_withSamesite (samesite : SamesiteType) (a : PhpSetcookie) :
    (withSamesite w samesite a).value = a.value := by
  unfold withSamesite
  dsimp only
  split_ifs <;> rfl

/-- What `setcookie` looks up first. -/
theorem exists_lookup_of_spSetcookie (h : Yields (spSetcookie w g c nonce serverVars a) a') :
    ∃ r, Yields (spLookupCookieConfig w g a.name) r := by
  unfold spSetcookie at h
  obtain ⟨r, hr, -⟩ := yields_bind.mp h
  exact ⟨r, hr⟩

/-- **The value sent**: it is encrypted if the rule says so. -/
theorem exists_spSetcookie (hg : Tested g) (hr : Yields (spLookupCookieConfig w g a.name) r)
    (hv : a.value = some v) (nonce : Nonce) (serverVars : Zval) :
    ∃ a', Yields (spSetcookie w g c nonce serverVars a) a' ∧ a'.value =
      some (if r.any SpCookie.encrypt then c.base64.encode (nonce.bytes ++ boxed w g c nonce v) else v) := by
  have hrule : ∀ a : PhpSetcookie, a.value = some v → ∃ a', Yields (applyRule w g c nonce r a) a' ∧
      a'.value = some (if r.any SpCookie.encrypt then c.base64.encode (nonce.bytes ++ boxed w g c nonce v)
        else v) := by
    intro a hv
    cases hcase : r with
    | none => exact ⟨a, yields_pure.mpr rfl, hv⟩
    | some rule =>
      unfold applyRule
      dsimp only
      cases he : rule.encrypt with
      | false =>
        rw [if_neg (by decide)]
        refine ⟨_, yields_pure.mpr rfl, ?_⟩
        rw [value_withSamesite, hv, Option.any_some, he, if_neg (by decide)]
      | true =>
        have hk : KeySet g := keySet_of_any hg hr (by rw [hcase, Option.any_some, he])
        rw [if_pos rfl, hv]
        refine ⟨_, yields_bind.mpr ⟨_, encryptZval_yields hk nonce v, yields_pure.mpr rfl⟩, ?_⟩
        rw [value_withSamesite, Option.any_some, he, if_pos rfl]
  obtain ⟨a', ha', hval⟩ := hrule
    { a with secure := a.secure || (g.autoCookieSecure && isHttps serverVars) } hv
  refine ⟨{ a' with partitioned := a'.partitioned && a'.secure }, ?_, hval⟩
  unfold spSetcookie
  exact yields_bind.mpr ⟨r, hr, yields_bind.mpr ⟨a', ha', yields_pure.mpr rfl⟩⟩

/-! ### What is read -/

/-- In the same environment there is the same key, and so the same box. -/
theorem boxed_congr (henv : keyInput w g = keyInput w' g) (nonce : Nonce) (v : ZendString) :
    boxed w g c nonce v = boxed w' g c nonce v := by
  unfold boxed environmentKey
  rw [henv]

/-- The key `decrypt_cookie` looks up, and what it finds. -/
theorem yields_decrypts {b : Bool} (h : Yields (decrypts w g name) b) :
    (b = false ∧ ((∃ i, name.key = .idx i) ∨ g.encryptionKey = none)) ∨
    ∃ key r, name.key = .str key ∧ Yields (spLookupCookieConfig w g key) r ∧
      b = (r.any SpCookie.encrypt && name.path.isEmpty) := by
  unfold decrypts at h
  cases hkey : name.key with
  | idx i =>
    rw [hkey] at h
    exact Or.inl ⟨(yields_pure.mp h).symm, Or.inl ⟨i, rfl⟩⟩
  | str key =>
    rw [hkey] at h
    dsimp only at h
    split_ifs at h with hnone
    · exact Or.inl ⟨(yields_pure.mp h).symm, Or.inr (Option.isNone_iff_eq_none.mp hnone)⟩
    · obtain ⟨r, hr, hb⟩ := yields_map.mp h
      exact Or.inr ⟨key, r, rfl, hr, hb.symm⟩

theorem exists_decryptEntry_idx (i : BitVec 64) (v : Zval) :
    Yields (decryptEntry w g c (.idx i) v) (some v) :=
  yields_bind.mpr ⟨(.keep, v), yields_pure.mpr rfl, yields_pure.mpr rfl⟩

theorem exists_decryptEntry_kept {key : ZendString} {v : Zval} (hr : Yields (spLookupCookieConfig w g key) r)
    (hn : r.any SpCookie.encrypt = false ∨ ∀ s, v ≠ .string s) :
    Yields (decryptEntry w g c (.str key) v) (some v) := by
  unfold decryptEntry decryptCookie
  refine yields_bind.mpr ⟨(.keep, v), yields_bind.mpr ⟨r, hr, ?_⟩, yields_pure.mpr rfl⟩
  cases r with
  | none => exact yields_pure.mpr rfl
  | some rule =>
    dsimp only
    split_ifs with he
    · exact yields_pure.mpr rfl
    · rcases hn with hn | hn
      · rw [Option.any_some] at hn
        rw [hn] at he
        exact absurd rfl he
      · cases v with
        | string s => exact absurd rfl (hn s)
        | _ => exact yields_pure.mpr rfl

/-- A box under the name of encrypted cookies is opened. -/
theorem exists_decryptEntry_encrypted {key : ZendString} (hr : Yields (spLookupCookieConfig w g key) r)
    (ha : r.any SpCookie.encrypt = true) (hk : KeySet g) (nonce : Nonce) (hv : Encryptable v) :
    Yields (decryptEntry w g c (.str key)
      (.string (c.base64.encode (nonce.bytes ++ boxed w g c nonce v)))) (some (.string v)) := by
  obtain ⟨rule, rfl, -, he⟩ := encrypted_of_any hr ha
  unfold decryptEntry decryptCookie
  refine yields_bind.mpr ⟨(.keep, .string v), yields_bind.mpr ⟨_, hr, ?_⟩, yields_pure.mpr rfl⟩
  dsimp only
  rw [he, if_neg (by decide), if_neg fun e => encode_boxed_ne_nil nonce v (List.length_eq_zero_iff.mp e)]
  exact yields_bind.mpr ⟨_, decryptZval_encryptZval hk nonce hv _ _, yields_pure.mpr rfl⟩

/-- The only cookie decides whether the request starts. -/
theorem exists_loneCookie (h : ∃ r, Yields (decryptEntry w g c name.key (nested name.path z)) r) :
    ∃ cookies, Yields (decryptCookies w g c (loneCookie name z)) cookies := by
  unfold decryptCookies
  split_ifs
  · refine exists_apply fun k v hv => ?_
    unfold loneCookie at hv
    rw [OrdTable.find?_insert] at hv
    split_ifs at hv with hk
    · cases hv
      rw [← hk]
      exact h
    · cases hv
  · exact ⟨_, yields_pure.mpr rfl⟩

/-- Without a secret nothing is decrypted. -/
theorem decryptCookies_off (hk : g.encryptionKey = none) (cookies : OrdTable HashKey Zval) :
    decryptCookies w g c cookies = pure cookies := by
  unfold decryptCookies
  rw [hk]
  rfl

/-- **What is not decrypted is read as it has been sent.** -/
theorem readBack_plain (hd : Yields (decrypts w g name) false) (z : ZendString) :
    ReadBack w g c name z z := by
  rcases yields_decrypts hd with ⟨-, ⟨i, hi⟩ | hnone⟩ | ⟨key, r, hkey, hr, hb⟩
  · refine ⟨exists_loneCookie ⟨_, hi ▸ exists_decryptEntry_idx i _⟩, fun cookies cookies' hz hy => ?_⟩
    unfold readCookie at *
    rwa [find?_decryptCookies_kept hy fun key _ e => by rw [hi] at e; cases e]
  · refine ⟨⟨_, by rw [decryptCookies_off hnone]; exact yields_pure.mpr rfl⟩, fun cookies cookies' hz hy => ?_⟩
    rw [decryptCookies_off hnone] at hy
    rwa [← yields_pure.mp hy]
  · have hplain : name.path = [] → r.any SpCookie.encrypt = false := by
      intro hpath
      rw [hpath, List.isEmpty_nil, Bool.and_true] at hb
      exact hb.symm
    have hkept : r.any SpCookie.encrypt = false ∨ ∀ s, nested name.path z ≠ .string s := by
      cases hpath : name.path with
      | nil => exact Or.inl (hplain hpath)
      | cons k path => exact Or.inr fun s e => by cases e
    refine ⟨exists_loneCookie ⟨_, hkey ▸ exists_decryptEntry_kept hr hkept⟩, fun cookies cookies' hz hy => ?_⟩
    unfold readCookie at *
    rw [find?_decryptCookies_kept hy]
    · exact hz
    · intro key' received e hs _
      -- a string is at the end of the empty path only
      cases hkey.symm.trans e
      rw [hs, Option.bind_some] at hz
      cases hpath : name.path with
      | nil => exact not_encrypted_of_any hr (hplain hpath)
      | cons k path =>
        rw [hpath] at hz
        cases hz

/-- **What is decrypted is read as it has been encrypted.** -/
theorem readBack_encrypted (hg : Tested g) (hd : Yields (decrypts w g name) true) (nonce : Nonce)
    (hv : Encryptable v) :
    ReadBack w g c name (c.base64.encode (nonce.bytes ++ boxed w g c nonce v)) v := by
  obtain ⟨key, path⟩ := name
  rcases yields_decrypts hd with ⟨h, -⟩ | ⟨key, r, hkey, hr, hb⟩
  · cases h
  · obtain ⟨ha, hpath⟩ := (Bool.and_eq_true _ _).mp hb.symm
    cases hkey
    cases List.isEmpty_iff.mp hpath
    have hk := keySet_of_any hg hr ha
    obtain ⟨rule, -, hrule, he⟩ := encrypted_of_any hr ha
    have hentry := exists_decryptEntry_encrypted (c := c) hr ha hk nonce hv
    refine ⟨exists_loneCookie ⟨_, hentry⟩, fun cookies cookies' hz hy => ?_⟩
    rw [decryptCookies_on hk ⟨rule, hrule, he⟩] at hy
    obtain ⟨u, hu, hat⟩ := Option.bind_eq_some_iff.mp hz
    cases u with
    | string s =>
      cases hat
      unfold readCookie
      rw [(find?_apply_some hy hu).unique hentry]
      rfl
    | _ => cases hat

/-- Only one value is read. -/
theorem ReadBack.unique {v v' : ZendString} (h : ReadBack w g c name z v) (h' : ReadBack w g c name z v') :
    v = v' := by
  obtain ⟨cookies, hy⟩ := h.starts
  exact Option.some.inj
    ((h.reads _ _ readCookie_loneCookie hy).symm.trans (h'.reads _ _ readCookie_loneCookie hy))

/-- A request that starts has looked up the name of its only cookie. -/
theorem exists_decrypts (h : ∃ cookies, Yields (decryptCookies w g c (loneCookie name z)) cookies) :
    ∃ b, Yields (decrypts w g name) b := by
  obtain ⟨cookies, hy⟩ := h
  unfold decrypts
  cases hkey : name.key with
  | idx i => exact ⟨_, yields_pure.mpr rfl⟩
  | str key =>
    dsimp only
    split_ifs with hnone
    · exact ⟨_, yields_pure.mpr rfl⟩
    · by_cases hnil : g.cookies = []
      · rw [spLookupCookieConfig_nil hnil]
        exact ⟨_, yields_map.mpr ⟨_, yields_pure.mpr rfl, rfl⟩⟩
      · have hon : (g.encryptionKey.isSome && g.cookies ≠ []) = true := by
          cases hk : g.encryptionKey with
          | none => exact absurd (by rw [hk]; rfl) hnone
          | some k => exact decide_eq_true hnil
        unfold decryptCookies at hy
        rw [if_pos hon] at hy
        have hfind : (loneCookie name z).find? name.key = some (nested name.path z) := by
          unfold loneCookie
          rw [OrdTable.find?_insert, if_pos rfl]
        have hentry := find?_apply_some hy hfind
        rw [hkey] at hentry
        unfold decryptEntry decryptCookie at hentry
        obtain ⟨x, hx, -⟩ := yields_bind.mp hentry
        obtain ⟨r, hr, -⟩ := yields_bind.mp hx
        exact ⟨_, yields_map.mpr ⟨r, hr, rfl⟩⟩

/-- Two nonces give two codes. -/
theorem encode_ne {nonce nonce' : Nonce} (hne : nonce.bytes ≠ nonce'.bytes) (s s' : ZendString) :
    c.base64.encode (nonce.bytes ++ s) ≠ c.base64.encode (nonce'.bytes ++ s') := by
  intro he
  have hd := congrArg c.base64.decode he
  rw [c.base64.decode_encode, c.base64.decode_encode] at hd
  exact hne (List.append_inj_left (Option.some.inj hd) (nonce.length_bytes.trans nonce'.length_bytes.symm))

/-- A nonce of one byte, repeated. -/
def constNonce (b : UInt8) : Nonce := ⟨List.replicate nonceBytes b, List.length_replicate⟩

theorem constNonce_ne : (constNonce 0).bytes ≠ (constNonce 1).bytes := by decide

/-- Base 64 writes four characters for three bytes. -/
def WritesFour (b : Base64) : Prop := ∀ s, (b.encode s).length = 4 * ((s.length + 2) / 3)

/-- The code of the box of one byte is short. -/
theorem encryptable_code (hlen : WritesFour c.base64) (nonce : Nonce) (b : UInt8) :
    Encryptable (c.base64.encode (nonce.bytes ++ boxed w g c nonce [b])) := by
  have hl := hlen (nonce.bytes ++ boxed w g c nonce [b])
  rw [List.length_append, nonce.length_bytes, length_boxed, List.length_singleton] at hl
  unfold Encryptable
  rw [hl]
  decide

/-- If the lookups agree, encryption cannot be seen. -/
theorem transparent_of_agree {b : Bool} (hg : Tested g) (henv : keyInput w g = keyInput w' g)
    (he : Yields (encrypts w g n) b) (hd : Yields (decrypts w' g name) b) : Transparent w g c w' n name := by
  rintro nonce serverVars a v rfl hv hencryptable
  obtain ⟨r, hr, rfl⟩ := yields_map.mp he
  obtain ⟨a', hy, hz⟩ := exists_spSetcookie (c := c) hg hr hv nonce serverVars
  refine ⟨a', _, hy, hz, fun _ => ?_⟩
  cases ha : r.any SpCookie.encrypt with
  | true =>
    rw [ha] at hd
    rw [if_pos rfl, boxed_congr henv]
    exact readBack_encrypted hg hd nonce hencryptable
  | false =>
    rw [ha] at hd
    rw [if_neg (by decide)]
    exact readBack_plain hd v

/-- If encryption cannot be seen, the lookups agree. -/
theorem agree_of_transparent (hg : Tested g)
    (hlen : WritesFour c.base64) (h : Transparent w g c w' n name) :
    ∃ b, Yields (encrypts w g n) b ∧ Yields (decrypts w' g name) b := by
  obtain ⟨r, hr⟩ : ∃ r, Yields (spLookupCookieConfig w g n) r := by
    obtain ⟨a', z, hy, -⟩ := h (constNonce 0) .null { name := n, value := some [0] } [0] rfl rfl (by decide)
    exact exists_lookup_of_spSetcookie hy
  -- what is sent for a value, and that it comes back
  have hsent : ∀ nonce v, v ≠ [] → Encryptable v → ReadBack w' g c name
      (if r.any SpCookie.encrypt then c.base64.encode (nonce.bytes ++ boxed w g c nonce v) else v) v := by
    intro nonce v hne hv
    obtain ⟨a₁, z, hy, hz, hback⟩ := h nonce .null { name := n, value := some v } v rfl rfl hv
    obtain ⟨a₂, hy', hz'⟩ := exists_spSetcookie (c := c) (a := { name := n, value := some v }) hg hr rfl
      nonce .null
    cases hy.unique hy'
    cases hz.symm.trans hz'
    refine hback ?_
    split_ifs
    · exact encode_boxed_ne_nil nonce v
    · exact hne
  obtain ⟨b, hb⟩ := exists_decrypts (hsent (constNonce 0) [0] (by decide) (by decide)).starts
  refine ⟨r.any SpCookie.encrypt, yields_map.mpr ⟨r, hr, rfl⟩, ?_⟩
  cases ha : r.any SpCookie.encrypt with
  | true =>
    cases b with
    | true => exact hb
    | false =>
      -- every code of the byte is read as itself, hence as the byte
      have hcode : ∀ nonce : Nonce, c.base64.encode (nonce.bytes ++ boxed w g c nonce [0]) = [0] := by
        intro nonce
        have hback := hsent nonce [0] (by decide) (by decide)
        rw [ha, if_pos rfl] at hback
        exact (readBack_plain hb _).unique hback
      exact absurd ((hcode (constNonce 0)).trans (hcode (constNonce 1)).symm) (encode_ne constNonce_ne _ _)
  | false =>
    cases b with
    | false => exact hb
    | true =>
      -- every code of the byte is sent as it is, and read as the byte
      have hcode : ∀ nonce : Nonce, c.base64.encode (nonce.bytes ++ boxed w' g c nonce [0]) = [0] := by
        intro nonce
        have hback := hsent nonce (c.base64.encode (nonce.bytes ++ boxed w' g c nonce [0]))
          (encode_boxed_ne_nil nonce [0]) (encryptable_code hlen nonce 0)
        rw [ha, if_neg (by decide)] at hback
        exact hback.unique (readBack_encrypted hg hb nonce (by decide))
      exact absurd ((hcode (constNonce 0)).trans (hcode (constNonce 1)).symm) (encode_ne constNonce_ne _ _)

end Lemmas

/-- **When encryption cannot be seen**: exactly if `setcookie` encrypts the values under the name `n`, and
the start of a request decrypts those under the name PHP gives to the cookie, or neither. -/
theorem setcookie_transparent_iff (allowBroken : Bool) (e : Environment) (newValue : ZendString)
    (g : SpGlobals) (hg : readConfiguration allowBroken e newValue = some g) (w w' : World)
    (henv : keyInput w g = keyInput w' g) (c : Crypto) (hlen : WritesFour c.base64)
    (phpName : ZendString → CookieName) (n : ZendString) :
    Transparent w g c w' n (phpName n) ↔
      ∃ b, Yields (encrypts w g n) b ∧ Yields (decrypts w' g (phpName n)) b := by
  have ht := (tested_of_readConfiguration hg).1
  constructor
  · exact agree_of_transparent ht hlen
  · rintro ⟨b, he, hd⟩
    exact transparent_of_agree ht henv he hd

/-- PHP's name for a cookie without brackets in its name: dots and blanks become underscores. -/
def plainName (n : ZendString) : CookieName :=
  ⟨symtableKey (n.map fun b => if b = 46 ∨ b = 32 then 95 else b), []⟩

theorem setcookie_transparent_iff_sample : ∃ g,
    readConfiguration false (cookieRules [encryptName "user"]) (zstr "a.rules") = some g ∧
    (Transparent (World.empty 80000) g plainCrypto (World.empty 80000) (zstr "user") (plainName (zstr "user")) ↔
      ∃ b, Yields (encrypts (World.empty 80000) g (zstr "user")) b ∧
        Yields (decrypts (World.empty 80000) g (plainName (zstr "user"))) b) := by
  have hsome : (readConfiguration false (cookieRules [encryptName "user"]) (zstr "a.rules")).isSome = true := by
    decide +kernel
  obtain ⟨g, hg⟩ := Option.isSome_iff_exists.mp hsome
  exact ⟨g, hg, setcookie_transparent_iff false _ _ g hg _ _ rfl plainCrypto Lib.Base64.length_encode plainName _⟩

/-- What is read of a cookie that has been set with the value `v` and comes back. -/
def setAndRead (e : Environment) (n v : ZendString) (name : CookieName) : Sp (Option ZendString) := do
  let (_, m) ← spLoadConfig cliProcess e (zstr "a.rules") (freshModule false ⟨.empty, Hook.Table.FunctionTable.valid_empty⟩ .empty .empty)
  let a ← spSetcookie (World.empty 80000) m.globals plainCrypto (constNonce 0) .null
    { name := n, value := some v }
  let cookies ← rinitCookies (World.empty 80000) plainCrypto m (loneCookie name (a.value.getD []))
  pure (readCookie cookies name.key name.path)

/-- The cookie `a.b` comes back as `a_b`, and there is no rule for that. -/
theorem cookie_with_dot_stays_encrypted :
    ∃ r, Yields (setAndRead (cookieRules [encryptName "a.b"]) (zstr "a.b") (zstr "v") (plainName (zstr "a.b"))) r ∧
      r.isSome = true ∧ r ≠ some (zstr "v") :=
  exists_of_yieldsA (by decide +kernel)

end Snuffleupagus.Cookie.RoundTrip
