import Snuffleupagus.Config.Frame
import Snuffleupagus.Crypt.Zval

/-! # What an accepted configuration is like

The parsers of `session`, `cookie` and `wrappers_whitelist` refuse what the hooks cannot deal with:
encryption without a key, streams without a whitelist. They look at the configuration as it is at the
end of their rule, and no later rule takes a key away (`keeps_spProcessConfigRoot`). -/

namespace Snuffleupagus.Config.Sound

open Snuffleupagus.Lib.Attempts Snuffleupagus.Lib.Table Snuffleupagus.Php.Bytes
open Snuffleupagus.Php.Engine Snuffleupagus.Config.Rule
open Snuffleupagus.Config.Keyword hiding spProcessRule
open Snuffleupagus.Config.Parser Snuffleupagus.Config.Features Snuffleupagus.Config.Root
open Snuffleupagus.Config.Frame Snuffleupagus.Crypt.Zval

/-- **What the rules read so far have been tested for**: a key, and the name of a variable, if anything
is encrypted; a whitelist, if there is one for streams. -/
structure Tested (g : SpGlobals) : Prop where
  session : g.session.encrypt = true → g.encryptionKey.isSome = true ∧ g.cookiesEnvVar.isSome = true
  cookies : ∀ c ∈ g.cookies, c.encrypt = true →
    g.encryptionKey.isSome = true ∧ g.cookiesEnvVar.isSome = true
  wrapper : g.wrapper.phpStreamAllowlist ≠ [] → g.wrapper.enabled = true
  entries : ∀ k e, g.ini.entries.find? k = some e → e.key = k

/-- The same, if something is done to the configuration first. -/
def TestedAfter (f : SpGlobals → SpGlobals) (g : SpGlobals) : Prop := Tested (f g)

section Setters

/-- Setters of other options keep it. -/
theorem tested_of_eq {g g' : SpGlobals} (h : Tested g) (hs : g'.session = g.session) (hc : g'.cookies = g.cookies)
    (hw : g'.wrapper = g.wrapper) (hi : g'.ini.entries = g.ini.entries)
    (hk : g.encryptionKey.isSome = true → g'.encryptionKey.isSome = true)
    (he : g.cookiesEnvVar.isSome = true → g'.cookiesEnvVar.isSome = true) : Tested g' where
  session hse := (h.session (hs ▸ hse)).imp hk he
  cookies c hmem hce := (h.cookies c (hc ▸ hmem) hce).imp hk he
  wrapper := by rw [hw]; exact h.wrapper
  entries := by rw [hi]; exact h.entries

theorem tested_iniEntry {g : SpGlobals} {k : ZendString} {e : SpIniEntry} (hk : e.key = k) (h : Tested g) :
    Tested (onIni (fun c => { c with entries := c.entries.insert k e }) g) where
  session := h.session
  cookies := h.cookies
  wrapper := h.wrapper
  entries k' e' hf := by
    change (g.ini.entries.insert k e).find? k' = some e' at hf
    rw [OrdTable.find?_insert] at hf
    split_ifs at hf with hkk
    · cases hf
      exact hk.trans hkk
    · exact h.entries k' e' hf

/-- What the parsers without tests set. -/
theorem plainSetters_tested : PlainSetters (Kept Tested) where
  encryptionKey _ _ h := tested_of_eq h rfl rfl rfl rfl (fun _ => rfl) id
  cookiesEnvVar _ _ h := tested_of_eq h rfl rfl rfl rfl id fun _ => rfl
  logMedia _ _ h := tested_of_eq h rfl rfl rfl rfl id id
  logMaxLen _ _ h := tested_of_eq h rfl rfl rfl rfl id id
  maxExecutionDepth _ _ h := tested_of_eq h rfl rfl rfl rfl id id
  serverEncode _ _ h := tested_of_eq h rfl rfl rfl rfl id id
  serverStrip _ _ h := tested_of_eq h rfl rfl rfl rfl id id
  random _ _ h := tested_of_eq h rfl rfl rfl rfl id id
  globalStrict _ _ h := tested_of_eq h rfl rfl rfl rfl id id
  autoCookieSecure _ _ h := tested_of_eq h rfl rfl rfl rfl id id
  xxeProtection _ _ h := tested_of_eq h rfl rfl rfl rfl id id
  sloppy _ _ h := tested_of_eq h rfl rfl rfl rfl id id
  unserialize _ _ h := tested_of_eq h rfl rfl rfl rfl id id
  unserializeNoclass _ _ h := tested_of_eq h rfl rfl rfl rfl id id
  readonlyExec _ _ h := tested_of_eq h rfl rfl rfl rfl id id
  eval _ _ h := tested_of_eq h rfl rfl rfl rfl id id
  upload _ _ h := tested_of_eq h rfl rfl rfl rfl id id
  stores _ _ h := tested_of_eq h rfl rfl rfl rfl id id
  ini _ hf _ h := tested_of_eq h rfl rfl rfl (hf _) id id
  iniEntry _ _ _ hk := tested_iniEntry hk

theorem tested_atLine (n : ℕ) (g : SpGlobals) (h : Tested g) : Tested (atLine n g) :=
  tested_of_eq h rfl rfl rfl rfl id id

end Setters

section Rules
variable {g g₁ g₂ : SpGlobals} {kw : SpParsedKeyword} {w : World}

/-- Keywords that keep something leave it. -/
theorem leaves_spProcessConfigKeywords {ℓ : Type} {I : SpGlobals → Prop} (hline : ∀ n g, I g → I (atLine n g))
    {kws : SpConfigKeywords (ℓ × SpGlobals)}
    (hp : Parsers (fun p q : ℓ × SpGlobals => Kept I p.2 q.2) kws) {rule : List SpParsedKeyword} {l l' : ℓ}
    (h : Leaves (spProcessConfigKeywords kw rule l kws) g l' g₁) (hI : I g) : I g₁ :=
  (moves_spProcessConfigKeywords kept_refl kept_trans hline hp kw rule l).leaves h hI

theorem keeps_parseSession (token : ZendString) (kw : SpParsedKeyword) (rule : List SpParsedKeyword) :
    Keeps Tested (parseSession token kw rule) := by
  intro g r g' hl h
  unfold parseSession at hl
  obtain ⟨u, g₁, hkws, hl⟩ := leaves_bind.mp hl
  obtain ⟨a, g₂, hget, hl⟩ := leaves_bind.mp hl
  obtain ⟨rfl, rfl⟩ := leaves_get.mp hget
  -- the keywords write to the configuration of the sessions only
  have hrest : TestedAfter (onSession fun _ => {}) g₁ :=
    leaves_spProcessConfigKeywords (fun n g => tested_atLine n (onSession (fun _ => {}) g))
      (parsers_sessionKeywords (R := Kept _) kept_refl kept_trans fun _ _ h => h) hkws
      ⟨(by intro e; cases e), h.cookies, h.wrapper, h.entries⟩
  have hkey : g₁ = g' ∧ (g₁.session.encrypt = true →
      g₁.encryptionKey.isSome = true ∧ g₁.cookiesEnvVar.isSome = true) := by
    split_ifs at hl with henv hsec
    · exact absurd hl not_leaves_throw
    · exact absurd hl not_leaves_throw
    · obtain ⟨-, heq⟩ := leaves_pure.mp hl
      refine ⟨heq, fun he => ⟨?_, ?_⟩⟩
      · rw [he, Bool.true_and] at hsec
        cases hk : g₁.encryptionKey with
        | none => rw [hk] at hsec; exact absurd rfl hsec
        | some k => rfl
      · rw [he, Bool.true_and] at henv
        cases hk : g₁.cookiesEnvVar with
        | none => rw [hk] at henv; exact absurd rfl henv
        | some k => rfl
  obtain ⟨rfl, hkey⟩ := hkey
  exact ⟨hkey, hrest.cookies, hrest.wrapper, hrest.entries⟩

theorem keeps_parseWrapperWhitelist (token : ZendString) (kw : SpParsedKeyword)
    (rule : List SpParsedKeyword) : Keeps Tested (parseWrapperWhitelist token kw rule) := by
  intro g r g' hl h
  unfold parseWrapperWhitelist at hl
  obtain ⟨u, g₁, hkws, hl⟩ := leaves_bind.mp hl
  obtain ⟨_, g₂, hset, hl⟩ := leaves_bind.mp hl
  have hset := leaves_modify.mp hset
  subst hset
  obtain ⟨-, rfl⟩ := leaves_pure.mp hl
  have hrest : TestedAfter (onWrapper fun _ => {}) g₁ :=
    leaves_spProcessConfigKeywords (fun n g => tested_atLine n (onWrapper (fun _ => {}) g))
      (parsers_wrapperKeywords (R := Kept _) kept_refl fun _ _ _ h => h) hkws
      ⟨h.session, h.cookies, fun hne => absurd rfl hne, h.entries⟩
  exact ⟨hrest.session, hrest.cookies, fun _ => rfl, hrest.entries⟩

/-- The tests of `parse_cookie`. -/
theorem leaves_checkCookie {s : CookieState} {u : Unit} (h : Leaves (checkCookie g kw s) g₁ u g₂) :
    g₁ = g₂ ∧ (s.cookie.encrypt = true →
      g.encryptionKey.isSome = true ∧ g.cookiesEnvVar.isSome = true) := by
  unfold checkCookie at h
  dsimp only at h
  split_ifs at h with henv hsec
  all_goals first
    | exact absurd h not_leaves_throw
    | obtain ⟨-, rfl⟩ := leaves_pure.mp h
  refine ⟨rfl, fun he => ⟨?_, ?_⟩⟩
  · rw [he, Bool.true_and] at hsec
    cases hk : g.encryptionKey with
    | none => rw [hk] at hsec; exact absurd rfl hsec
    | some k => rfl
  · rw [he, Bool.true_and] at henv
    cases hk : g.cookiesEnvVar with
    | none => rw [hk] at henv; exact absurd rfl henv
    | some k => rfl

/-- A cookie is encrypted if a rule on it says so. -/
theorem encrypt_mergeCookie {cookie c : SpCookie} : ∀ {l : List SpCookie}, c ∈ mergeCookie cookie l →
    c.encrypt = true → cookie.encrypt = true ∨ ∃ c' ∈ l, c'.encrypt = true
  | [], hmem, he => by
    rw [List.mem_singleton.mp hmem] at he
    exact Or.inl he
  | entry :: l, hmem, he => by
    unfold mergeCookie at hmem
    split_ifs at hmem
    · rcases List.mem_cons.mp hmem with rfl | hmem
      · unfold overrideCookie at he
        dsimp only at he
        split_ifs at he with hc
        · exact Or.inl hc
        · exact Or.inr ⟨entry, List.mem_cons_self, he⟩
      · exact Or.inr ⟨c, List.mem_cons_of_mem _ hmem, he⟩
    · rcases List.mem_cons.mp hmem with rfl | hmem
      · exact Or.inr ⟨c, List.mem_cons_self, he⟩
      · rcases encrypt_mergeCookie hmem he with h | ⟨c', hc', he'⟩
        · exact Or.inl h
        · exact Or.inr ⟨c', List.mem_cons_of_mem _ hc', he'⟩

theorem keeps_parseCookie (token : ZendString) (kw : SpParsedKeyword) (rule : List SpParsedKeyword) :
    Keeps Tested (parseCookie w token kw rule) := by
  intro g r g' hl h
  unfold parseCookie at hl
  obtain ⟨s, g₁, hkws, hl⟩ := leaves_bind.mp hl
  obtain ⟨a, g₂, hget, hl⟩ := leaves_bind.mp hl
  obtain ⟨rfl, rfl⟩ := leaves_get.mp hget
  obtain ⟨_, g₃, hcheck, hl⟩ := leaves_bind.mp hl
  obtain ⟨rfl, hkey⟩ := leaves_checkCookie hcheck
  obtain ⟨v, g₄, hsame, hl⟩ := leaves_bind.mp hl
  have heq : g₁ = g₄ := (moves_parseSamesite (R := fun g g' => g = g') (fun _ => rfl) _ _).leaves hsame
  subst heq
  obtain ⟨_, g₅, hset, hl⟩ := leaves_bind.mp hl
  have hset := leaves_modify.mp hset
  subst hset
  obtain ⟨-, rfl⟩ := leaves_pure.mp hl
  have h₁ : Tested g₁ :=
    leaves_spProcessConfigKeywords tested_atLine (parsers_onLocals (R := Kept _) kept_refl _) hkws h
  refine ⟨h₁.session, fun c hmem he => ?_, h₁.wrapper, h₁.entries⟩
  rcases encrypt_mergeCookie hmem he with hc | ⟨c', hmem', he'⟩
  · exact hkey hc
  · exact h₁.cookies c' hmem' he'

/-- **A rule that is accepted keeps the configuration so.** -/
theorem keeps_spProcessConfigRoot (access : ZendString → Bool) (rule : List SpParsedKeyword) :
    Keeps Tested (spProcessConfigRoot w access rule) := by
  refine keeps_spProcessRule tested_atLine (fun ckw hmem token kw rule => ?_) rule
  rcases rootKeywords_cases kept_refl kept_trans tested_atLine w access plainSetters_tested hmem with h | h | h | h
  · rw [h]; exact keeps_parseSession token kw rule
  · rw [h]; exact keeps_parseWrapperWhitelist token kw rule
  · rw [h]; exact keeps_parseCookie token kw rule
  · exact keeps_of_moves (h token kw rule)

end Rules

end Snuffleupagus.Config.Sound
