import Snuffleupagus.Cookie.Encryption
import Snuffleupagus.Load.History
import Snuffleupagus.Session.Handler

/-! # The cookies of a request

When a request starts, its cookies are decrypted by the rules of the configuration loaded. A cookie that
is a string, and whose first rule encrypts and is not in simulation, is authentic then, or gone
(`cookies_authentic`). Cookies with an integer for a name, and arrays, are left as they have been
received. -/

namespace Snuffleupagus.Load.Cookies

open Snuffleupagus.Lib.Effect Snuffleupagus.Lib.Table
open Snuffleupagus.Php.Bytes Snuffleupagus.Php.Value Snuffleupagus.Php.Engine Snuffleupagus.Config.Rule
open Snuffleupagus.Log hiding Event
open Snuffleupagus.Config.Keyword hiding spProcessRule
open Snuffleupagus.Config.Sound Snuffleupagus.Hook.Table Snuffleupagus.Ini.Hook
open Snuffleupagus.Wrapper.Table Snuffleupagus.Load.Module Snuffleupagus.Load.Cases
open Snuffleupagus.Load.History Snuffleupagus.Crypt.Zval Snuffleupagus.Cookie.Encryption
open Snuffleupagus.Session.Handler

/-- `PHP_RINIT_FUNCTION`, as far as the cookies go. -/
def rinitCookies (w : World) (c : Crypto) (m : SpModule) (cookies : OrdTable HashKey Zval) :
    Sp (OrdTable HashKey Zval) :=
  if m.isConfigValid = .invalid then
    if m.globals.allowBrokenConfiguration then pure cookies
    else do
      spLogErr w { m.globals with configParsing := true } "config" "Invalid configuration file" []
      abort .error
  else if !m.globals.allowBrokenConfiguration && decide (m.isConfigValid = .none) then do
    spLogWarn w m.globals "config" "No configuration specified via sp.configuration_file" []
    pure cookies
  else decryptCookies w m.globals c cookies

/-- The string at the end of a path of keys. -/
def stringAt : List HashKey → Zval → Option ZendString
  | [], .string s => some s
  | k :: path, .array ht => (zendHashFind ht k).bind (stringAt path)
  | _, _ => none

/-- What the application reads of its cookies. -/
def readCookie (cookies : OrdTable HashKey Zval) (k : HashKey) (path : List HashKey) : Option ZendString :=
  (cookies.find? k).bind (stringAt path)

/-! ### The rules there are -/

section Configured
variable {p : PhpProcess} {e : Environment} {allowBroken : Bool} {t₀ : FunctionTable} {d₀ : IniDirectives}
  {w₀ : StreamWrappers} {m m' : SpModule} {newValue : ZendString} {ok : Bool}

/-- There are no rules on cookies unless a configuration has been accepted. -/
def Configured (m : SpModule) : Prop := m.isConfigValid ≠ .valid → m.globals.cookies = []

theorem Configured.request (hm : Configured m) : Configured (rinitModule m) := by
  obtain ⟨_, _, _, hrinit⟩ := exists_rinitModule m
  rw [hrinit]
  exact hm

theorem Configured.load (hy : Yields (spLoadConfig p e newValue m) (ok, m')) : Configured m' := by
  cases spLoadConfig_cases hy with
  | failed _ => exact fun _ => rfl
  | dumped _ _ => exact fun h => absurd rfl h
  | started _ _ hwrappers hsession hini hrules =>
    obtain ⟨s, hs⟩ := startedAs hwrappers hsession hini hrules
    exact fun h => absurd hs.isConfigValid h

theorem Configured.history {l : List Event} (hm : Configured m) (hy : Yields (history p l m) m') :
    Configured m' :=
  history_preserve (fun _ hy => Configured.load hy) (fun _ _ h => h) (fun h => h.request) hm hy

theorem configured_freshModule : Configured (freshModule allowBroken t₀ d₀ w₀) := fun _ => rfl

end Configured

/-! ### What the request finds -/

section Request
variable {w : World} {c : Crypto} {allowBroken : Bool} {t₀ : FunctionTable} {m : SpModule}
  {cookies cookies' : OrdTable HashKey Zval} {k : HashKey} {name received s : ZendString}
  {path : List HashKey}

/-- The cookies are decrypted, or left alone. -/
theorem yields_rinitCookies (h : Yields (rinitCookies w c m cookies) cookies') :
    Yields (decryptCookies w m.globals c cookies) cookies' ∨ m.isConfigValid ≠ .valid ∧ cookies' = cookies := by
  unfold rinitCookies at h
  split_ifs at h with hi ha hn
  · exact Or.inr ⟨by rw [hi]; decide, (yields_pure.mp h).symm⟩
  · obtain ⟨-, -, h⟩ := yields_bind.mp h
    cases h
  · obtain ⟨-, -, h⟩ := yields_bind.mp h
    rw [Bool.and_eq_true, decide_eq_true_eq] at hn
    exact Or.inr ⟨by rw [hn.2]; decide, (yields_pure.mp h).symm⟩
  · exact Or.inl h

theorem keySet_of_protected (hm : Tested m.globals) (hp : Protected w m.globals name) :
    KeySet m.globals := by
  obtain ⟨rule, hrule, he, -⟩ := hp
  obtain ⟨hkey, henv⟩ := hm.cookies rule (List.mem_of_find?_eq_some hrule) he
  exact ⟨hkey, henv⟩

/-- **A cookie that is protected is authentic, empty or gone.** -/
theorem authentic_of_protected (hm : Reached allowBroken t₀ m) (hc : Configured m)
    (hy : Yields (rinitCookies w c m cookies) cookies') (hp : Protected w m.globals name)
    (hr : cookies.find? (.str name) = some (.string received))
    (hs : readCookie cookies' (.str name) path = some s) :
    s = [] ∨ path = [] ∧ Authentic w m.globals c received s := by
  obtain ⟨rule, hrule, he, hsim⟩ := hp
  obtain ⟨v, hv, hat⟩ := Option.bind_eq_some_iff.mp hs
  -- under a key there is a string before and afterwards
  have hstring : ∀ {u}, v = .string u → path = [] ∧ u = s := by
    rintro u rfl
    cases path with
    | nil => exact ⟨rfl, Option.some.inj hat⟩
    | cons k path => cases hat
  rcases yields_rinitCookies hy with hy | ⟨hv, -⟩
  · rw [decryptCookies_on (keySet_of_protected hm.tested ⟨rule, hrule, he, hsim⟩) ⟨rule, hrule, he⟩] at hy
    by_cases hne : received = []
    · subst hne
      have hkept := yields_decryptEntry_kept (Lib.Apply.find?_apply_some hy hr) fun name' received' _ hv' hne' =>
        absurd (Zval.string.inj hv').symm hne'
      rw [hv] at hkept
      obtain ⟨-, rfl⟩ := hstring (Option.some.inj hkept)
      exact Or.inl rfl
    · obtain ⟨ret, u, hz, hret⟩ :=
        yields_decryptEntry_encrypted (Lib.Apply.find?_apply_some hy hr) hrule he hne
      rw [hsim] at hz
      rw [hv] at hret
      split_ifs at hret with hkeep
      · obtain ⟨rfl, rfl⟩ := hstring (Option.some.inj hret)
        rcases authentic_of_decryptZval hz with hremove | ha
        · rw [hkeep] at hremove
          cases hremove
        · exact Or.inr ⟨rfl, ha⟩
  · -- without a configuration there are no rules
    rw [hc hv] at hrule
    cases hrule

/-- What no rule encrypts, and what is no string, is left alone. -/
theorem find?_rinitCookies (hy : Yields (rinitCookies w c m cookies) cookies')
    (hn : ∀ name received, k = .str name → cookies.find? k = some (.string received) → received ≠ [] →
      ¬ Encrypted w m.globals name) : cookies'.find? k = cookies.find? k := by
  rcases yields_rinitCookies hy with hy | ⟨-, rfl⟩
  · exact find?_decryptCookies_kept hy hn
  · rfl

end Request

/-- **What the application reads** of the cookies of a request, whatever has happened before. A string
under the name of protected cookies is authentic, or empty; whatever is no string, has an integer for a
name, or is not encrypted by the first rule that matches, is what has been received. -/
theorem cookies_authentic (p : PhpProcess) (allowBroken : Bool) (t₀ : FunctionTable) (d₀ : IniDirectives)
    (w₀ : StreamWrappers) (l : List Event) :
    ∃ m, Yields (history p l (freshModule allowBroken t₀ d₀ w₀)) m ∧
      ∀ (w : World) (c : Crypto) (cookies cookies' : OrdTable HashKey Zval),
        Yields (rinitCookies w c m cookies) cookies' →
        (∀ name received, Protected w m.globals name → cookies.find? (.str name) = some (.string received) →
          ∀ path s, readCookie cookies' (.str name) path = some s →
            s = [] ∨ path = [] ∧ Authentic w m.globals c received s) ∧
        ∀ k, (∀ name received, k = .str name → cookies.find? k = some (.string received) →
            received ≠ [] → ¬ Encrypted w m.globals name) → cookies'.find? k = cookies.find? k := by
  obtain ⟨m, hm⟩ := exists_history p l (freshModule allowBroken t₀ d₀ w₀)
  have hr : Reached allowBroken t₀ m := reached_freshModule.history hm
  have hc : Configured m := configured_freshModule.history hm
  refine ⟨m, hm, fun w c cookies cookies' hy => ⟨fun name received hp hrec path s hs => ?_, fun k hn => ?_⟩⟩
  · exact authentic_of_protected hr hc hy hp hrec hs
  · exact find?_rinitCookies hy hn

/-- The rules `rules` on cookies, with a secret. -/
def cookieRules (rules : List (List SpParsedKeyword)) : Environment :=
  ofRules ([keyword "global", strKeyword "secret_key" "a very long secret",
    strKeyword "cookie_env_var" "REMOTE_ADDR"] :: rules)

/-- The cookies of one name are encrypted. -/
def encryptName (name : String) : List SpParsedKeyword :=
  [keyword "cookie", strKeyword "name" name, emptyKeyword "encrypt"]

/-- A rule on all names. -/
def samesiteAll : List SpParsedKeyword :=
  [keyword "cookie", strKeyword "name_r" ".", strKeyword "samesite" "lax"]

/-- A world in which every pattern matches. -/
def matchingWorld : World := { World.empty 80000 with pcreExec := fun _ _ => 0 }

/-- What a request reads of one cookie, at the end of `path`. -/
def readOne (e : Environment) (name : ZendString) (v : Zval) (path : List HashKey) :
    Sp (SpModule × Option ZendString) := do
  let (_, m) ← spLoadConfig cliProcess e (zstr "a.rules") (freshModule false ⟨.empty, FunctionTable.valid_empty⟩ .empty .empty)
  let cookies ← rinitCookies matchingWorld plainCrypto m (OrdTable.empty.insert (symtableKey name) v)
  pure (m, readCookie cookies (symtableKey name) path)

/-- The application reads `v` as the client has sent it, although a rule that is not in simulation
encrypts the cookies of the name. -/
def ReadsPlain (e : Environment) (name : ZendString) (v : Zval) (path : List HashKey) : Prop :=
  stringAt path v = some (zstr "v") ∧ ∃ m, Yields (readOne e name v path) (m, some (zstr "v")) ∧
    (∃ rule ∈ m.globals.cookies, matchesName matchingWorld name rule = true ∧ rule.encrypt = true ∧
      rule.simulation = false) ∧
    ¬ Authentic matchingWorld m.globals plainCrypto (zstr "v") (zstr "v")

/-- `v` is too short for a nonce. -/
theorem not_authentic_v (w : World) (g : SpGlobals) (s : ZendString) :
    ¬ Authentic w g plainCrypto (zstr "v") s := by
  rintro ⟨d, b, hd, hl, -⟩
  have hv : plainCrypto.base64.decode (zstr "v") = some [] := by decide +kernel
  rw [hv] at hd
  cases hd
  revert hl
  decide

theorem readsPlain_of_yieldsA {e : Environment} {name : ZendString} {v : Zval} {path : List HashKey}
    (hv : stringAt path v = some (zstr "v"))
    (h : yieldsA (fun r => r.2 = some (zstr "v") ∧ (r.1.globals.cookies.any fun rule =>
      matchesName matchingWorld name rule && (rule.encrypt && !rule.simulation)) = true)
      (readOne e name v path) = true) : ReadsPlain e name v path := by
  obtain ⟨⟨m, r⟩, hy, hr, hrule⟩ := exists_of_yieldsA h
  cases hr
  obtain ⟨rule, hmem, hrule⟩ := List.any_eq_true.mp hrule
  rw [Bool.and_eq_true, Bool.and_eq_true, Bool.not_eq_true'] at hrule
  exact ⟨hv, m, hy, ⟨rule, hmem, hrule⟩, not_authentic_v _ _ _⟩

/-- **Arrays pass, and integer names, and names with another rule before**: `user[a][b]=v`, `1=v`, and
`user=v` behind a rule on all names. -/
theorem plain_cookies_pass :
    ReadsPlain (cookieRules [encryptName "user"]) (zstr "user")
      (.array [(.str (zstr "a"), .array [(.str (zstr "b"), .string (zstr "v"))])])
      [.str (zstr "a"), .str (zstr "b")] ∧
    ReadsPlain (cookieRules [encryptName "1"]) (zstr "1") (.string (zstr "v")) [] ∧
    ReadsPlain (cookieRules [samesiteAll, encryptName "user"]) (zstr "user") (.string (zstr "v")) [] :=
  ⟨readsPlain_of_yieldsA (by decide +kernel) (by decide +kernel),
    readsPlain_of_yieldsA (by decide +kernel) (by decide +kernel),
    readsPlain_of_yieldsA (by decide +kernel) (by decide +kernel)⟩

end Snuffleupagus.Load.Cookies
