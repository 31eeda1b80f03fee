import Snuffleupagus.Lib.Merge
import Snuffleupagus.Config.Application
import Snuffleupagus.Config.Sound
import Snuffleupagus.Cookie.Encryption
import Snuffleupagus.Load.Module

/-! # Rules on the same cookies

`parse_cookie` keeps one entry for a name, or for a pattern. A rule on a name that has an entry changes the settings
of this entry, any other rule is put at the end. What is left of a sequence of accepted rules is described by
`Merged`: no name and no pattern has two entries, the entries stand in the order in which they were first declared,
and each has the settings of all its rules.

* `merged_of_run`: the list a configuration leaves, and what is found in it;
* `cookieRun_of_rule`, `cookieRun_of_scan`: the lines of a configuration that are accepted are such a sequence;
* `flags_ruleCookie`: when a rule turns a setting on. -/

namespace Snuffleupagus.Cookie.Merge

open Snuffleupagus.Lib.Attempts Snuffleupagus.Lib.Merge Snuffleupagus.Php.Bytes Snuffleupagus.Php.Engine
open Snuffleupagus.Config.Rule
open Snuffleupagus.Config.Keyword hiding spProcessRule
open Snuffleupagus.Config.Parser Snuffleupagus.Config.Features Snuffleupagus.Config.Root
open Snuffleupagus.Config.Frame Snuffleupagus.Cookie.Encryption
open Snuffleupagus.Lib.Effect (Yields yields_bind yields_pure)

/-! ### What a rule says -/

/-- The value of a `samesite` that is accepted. -/
def samesiteOf : Option ZendString → SamesiteType
  | none => .unset
  | some value =>
    if equalsCi value (zstr "Lax") then .lax
    else if equalsCi value (zstr "Strict") then .strict else .unset

/-- The cookies a rule is about, and its settings, if its keywords are accepted. -/
def ruleCookie (w : World) (rule : List SpParsedKeyword) : Option SpCookie :=
  match Config.Keyword.spProcessRule (cookieKeywords w) rule {} with
  | .ok s => some { s.cookie with samesite := samesiteOf s.samesite }
  | .error _ => none

/-- A rule has a name or a pattern, and not both. -/
def Exclusive (c : SpCookie) : Prop := c.name.isSome = !c.nameR.isSome

section Rule
variable {w : World} {g g' : SpGlobals} {token : ZendString} {kw : SpParsedKeyword}
  {rule : List SpParsedKeyword} {c : SpCookie}

theorem leaves_parseSamesite {v : Option ZendString} {t : SamesiteType}
    (h : Leaves (parseSamesite kw v) g t g') : t = samesiteOf v := by
  unfold parseSamesite at h
  unfold samesiteOf
  cases v with
  | none => exact (leaves_pure.mp h).1.symm
  | some value =>
    dsimp only at h ⊢
    split_ifs at h ⊢
    · exact (leaves_pure.mp h).1.symm
    · exact (leaves_pure.mp h).1.symm
    · exact absurd h not_leaves_throw

/-- The tests of `parse_cookie` leave a name or a pattern. -/
theorem exclusive_of_checkCookie {s : CookieState} {u : Unit} {g₁ g₂ : SpGlobals}
    (h : Leaves (checkCookie g kw s) g₁ u g₂) : Exclusive s.cookie := by
  unfold checkCookie at h
  unfold Exclusive
  dsimp only at h
  split_ifs at h with _ _ _ hnone hboth
  all_goals first
    | exact absurd h not_leaves_throw
    | skip
  cases hn : s.cookie.name <;> cases hr : s.cookie.nameR <;> simp_all

/-- What does not write to the cookies leaves them. -/
abbrev SameCookies (g g' : SpGlobals) : Prop := g'.cookies = g.cookies

theorem sameCookies_trans (g₁ g₂ g₃ : SpGlobals) (h : SameCookies g₁ g₂) (h' : SameCookies g₂ g₃) :
    SameCookies g₁ g₃ := h'.trans h

/-- **A rule that is accepted is merged into the list.** -/
theorem leaves_parseCookie {r : ParserResult} (h : Leaves (parseCookie w token kw rule) g r g') :
    r = .stop ∧ ∃ c, ruleCookie w rule = some c ∧ Exclusive c ∧ g'.cookies = mergeCookie c g.cookies := by
  unfold parseCookie at h
  obtain ⟨s, g₁, hkws, h⟩ := leaves_bind.mp h
  obtain ⟨a, g₂, hget, h⟩ := leaves_bind.mp h
  obtain ⟨rfl, rfl⟩ := leaves_get.mp hget
  obtain ⟨_, g₃, hcheck, h⟩ := leaves_bind.mp h
  obtain ⟨rfl, -⟩ := Config.Sound.leaves_checkCookie hcheck
  obtain ⟨t, g₄, hsame, h⟩ := leaves_bind.mp h
  have heq : g₁ = g₄ := (moves_parseSamesite (R := fun g g' => g = g') (fun _ => rfl) _ _).leaves hsame
  subst heq
  obtain ⟨_, g₅, hset, h⟩ := leaves_bind.mp h
  have hset := leaves_modify.mp hset
  subst hset
  obtain ⟨rfl, rfl⟩ := leaves_pure.mp h
  have hold : g₁.cookies = g.cookies :=
    (moves_spProcessConfigKeywords (R := SameCookies) (fun _ => rfl) sameCookies_trans (fun _ _ => rfl)
      (parsers_onLocals (R := SameCookies) (fun _ => rfl) _) kw rule _).leaves hkws
  obtain ⟨g₆, hkws, -⟩ := Config.Application.leaves_spProcessConfigKeywords.mp hkws
  refine ⟨rfl, { s.cookie with samesite := t }, ?_, exclusive_of_checkCookie hcheck, ?_⟩
  · unfold ruleCookie
    rw [Config.Application.spProcessRule_onLocals hkws, leaves_parseSamesite hsame]
  · rw [hold]

/-- What a keyword does to the two flags. -/
def Flagged (token : ZendString) (s s₁ : CookieState) : Prop :=
  s₁.cookie.encrypt = (s.cookie.encrypt || token == zstr "encrypt") ∧
    s₁.cookie.simulation = (s.cookie.simulation || (token == zstr "simulation" || token == zstr "sim"))

/-- One keyword of a rule on cookies. -/
theorem flagged_cookieKeywords : ∀ e ∈ cookieKeywords w, ∀ kw s p, e.2 e.1 kw s = .ok p →
    p.1 = .success ∧ Flagged e.1 s p.2 := by
  have hempty : ∀ (set : CookieState → CookieState) (token : ZendString), (∀ s, Flagged token s (set s)) →
      ∀ kw s p, parseEmpty set token kw s = .ok p → p.1 = .success ∧ Flagged token s p.2 := by
    intro set token hset kw s p h
    unfold parseEmpty at h
    split_ifs at h
    cases h
    exact ⟨rfl, hset s⟩
  simp only [cookieKeywords, List.forall_mem_cons]
  refine ⟨fun kw s p h => ?_, fun kw s p h => ?_, fun kw s p h => ?_, hempty _ _ fun s => ?_, hempty _ _ fun s => ?_,
    hempty _ _ fun s => ?_, List.forall_mem_nil _⟩
  · obtain ⟨_, -, h⟩ := Lib.Effect.bind_eq_ok.mp h
    obtain ⟨_, -, h⟩ := Lib.Effect.bind_eq_ok.mp h
    cases h
    exact ⟨rfl, (Bool.or_false _).symm, (Bool.or_false _).symm⟩
  · obtain ⟨_, -, h⟩ := Lib.Effect.bind_eq_ok.mp h
    obtain ⟨_, -, h⟩ := Lib.Effect.bind_eq_ok.mp h
    split_ifs at h
    cases h
    exact ⟨rfl, (Bool.or_false _).symm, (Bool.or_false _).symm⟩
  · obtain ⟨_, -, h⟩ := Lib.Effect.bind_eq_ok.mp h
    obtain ⟨_, -, h⟩ := Lib.Effect.bind_eq_ok.mp h
    cases h
    exact ⟨rfl, (Bool.or_false _).symm, (Bool.or_false _).symm⟩
  · exact ⟨(Bool.or_true _).symm, (Bool.or_false _).symm⟩
  · exact ⟨(Bool.or_false _).symm, (Bool.or_true _).symm⟩
  · exact ⟨(Bool.or_false _).symm, (Bool.or_true _).symm⟩

/-- The keywords of a rule. -/
theorem flags_spProcessRule : ∀ {rule : List SpParsedKeyword} {s s' : CookieState},
    Config.Keyword.spProcessRule (cookieKeywords w) rule s = .ok s' →
    s'.cookie.encrypt = (s.cookie.encrypt || rule.any fun kw => kw.kw == zstr "encrypt") ∧
      s'.cookie.simulation =
        (s.cookie.simulation || rule.any fun kw => kw.kw == zstr "simulation" || kw.kw == zstr "sim")
  | [], s, s', h => by
    cases h
    exact ⟨(Bool.or_false _).symm, (Bool.or_false _).symm⟩
  | kw :: rule, s, s', h => by
    unfold Config.Keyword.spProcessRule at h
    cases hf : (cookieKeywords w).find? fun ckw => ckw.1 == kw.kw with
    | none =>
      rw [hf] at h
      cases h
    | some ckw =>
      rw [hf] at h
      dsimp only at h
      have hkw : ckw.1 = kw.kw := by simpa using List.find?_some hf
      cases hfn : ckw.2 ckw.1 kw s with
      | error e =>
        rw [hfn] at h
        cases h
      | ok p =>
        obtain ⟨r, s₁⟩ := p
        obtain ⟨hr, henc, hsim⟩ := flagged_cookieKeywords ckw (List.mem_of_find?_eq_some hf) kw s _ hfn
        dsimp only at hr henc hsim
        rw [hfn, hr] at h
        obtain ⟨henc', hsim'⟩ := flags_spProcessRule h
        rw [henc', hsim', henc, hsim, hkw, List.any_cons, List.any_cons, Bool.or_assoc, Bool.or_assoc]
        exact ⟨rfl, rfl⟩

/-- **A rule encrypts, or is in simulation,** if it has the keyword. -/
theorem flags_ruleCookie (h : ruleCookie w rule = some c) :
    c.encrypt = (rule.any fun kw => kw.kw == zstr "encrypt") ∧
      c.simulation = rule.any fun kw => kw.kw == zstr "simulation" || kw.kw == zstr "sim" := by
  unfold ruleCookie at h
  cases hp : Config.Keyword.spProcessRule (cookieKeywords w) rule {} with
  | error e =>
    rw [hp] at h
    cases h
  | ok s =>
    rw [hp] at h
    cases h
    exact flags_spProcessRule hp

end Rule

/-! ### Runs -/

/-- **A configuration in which rules on cookies are accepted**, one after the other; what else is done to it leaves
its list of cookies. -/
inductive CookieRun (w : World) : SpGlobals → List (List SpParsedKeyword) → SpGlobals → Prop
  | done {g : SpGlobals} : CookieRun w g [] g
  | rule {g g₁ g' : SpGlobals} {token : ZendString} {kw : SpParsedKeyword} {rule : List SpParsedKeyword}
      {rules : List (List SpParsedKeyword)} (hrule : Leaves (parseCookie w token kw rule) g .stop g₁)
      (hrest : CookieRun w g₁ rules g') : CookieRun w g (rule :: rules) g'
  | other {g g₁ g' : SpGlobals} {rules : List (List SpParsedKeyword)} (hsame : g₁.cookies = g.cookies)
      (hrest : CookieRun w g₁ rules g') : CookieRun w g rules g'

section Run
variable {w : World} {g g₁ g' : SpGlobals} {rules rules' : List (List SpParsedKeyword)}

/-- The rules of a run, merged into the list. -/
theorem cookies_of_run (h : CookieRun w g rules g') : ∃ l : List SpCookie,
    rules.map (ruleCookie w) = l.map some ∧ (∀ c ∈ l, Exclusive c) ∧
      g'.cookies = l.foldl (fun cookies c => mergeCookie c cookies) g.cookies := by
  induction h with
  | done => exact ⟨[], rfl, nofun, rfl⟩
  | rule hrule _ ih =>
    obtain ⟨-, c, hc, hex, hmerge⟩ := leaves_parseCookie hrule
    obtain ⟨l, hl, hexs, hcookies⟩ := ih
    refine ⟨c :: l, ?_, List.forall_mem_cons.mpr ⟨hex, hexs⟩, ?_⟩
    · rw [List.map_cons, List.map_cons, hc, hl]
    · rw [hcookies, hmerge]
      rfl
  | other hsame _ ih => rwa [hsame] at ih

theorem CookieRun.append (h : CookieRun w g rules g₁) (h' : CookieRun w g₁ rules' g') :
    CookieRun w g (rules ++ rules') g' := by
  induction h with
  | done => exact h'
  | rule hrule _ ih => exact .rule hrule (ih h')
  | other hsame _ ih => exact .other hsame (ih h')

theorem CookieRun.same (h : SameCookies g g') : CookieRun w g [] g' := .other h .done

/-- The parsers of the other features leave the list. -/
theorem plainSetters_sameCookies : PlainSetters SameCookies where
  encryptionKey _ _ := rfl
  cookiesEnvVar _ _ := rfl
  logMedia _ _ := rfl
  logMaxLen _ _ := rfl
  maxExecutionDepth _ _ := rfl
  serverEncode _ _ := rfl
  serverStrip _ _ := rfl
  random _ _ := rfl
  globalStrict _ _ := rfl
  autoCookieSecure _ _ := rfl
  xxeProtection _ _ := rfl
  sloppy _ _ := rfl
  unserialize _ _ := rfl
  unserializeNoclass _ _ := rfl
  readonlyExec _ _ := rfl
  eval _ _ := rfl
  upload _ _ := rfl
  stores _ _ := rfl
  ini _ _ _ := rfl
  iniEntry _ _ _ _ := rfl

/-- Any other parser leaves the list. -/
theorem sameCookies_of_keyword {access : ZendString → Bool} {ckw : ZendString × SpParser SpGlobals}
    (hmem : ckw ∈ rootKeywords w access) (hne : ckw.2 ≠ parseCookie w) {token : ZendString} {kw : SpParsedKeyword}
    {rule : List SpParsedKeyword} {r : ParserResult} (h : Leaves (ckw.2 token kw rule) g r g') :
    SameCookies g g' := by
  have hr : ∀ g, SameCookies g g := fun _ => rfl
  have hline : ∀ n g, SameCookies g (atLine n g) := fun _ _ => rfl
  rcases rootKeywords_cases hr sameCookies_trans hline w access plainSetters_sameCookies hmem with
    hf | hf | hf | hf
  · rw [hf] at h
    exact (moves_parseSession hr sameCookies_trans hline (fun _ _ => rfl) token kw rule).leaves h
  · rw [hf] at h
    exact (moves_parseWrapperWhitelist hr sameCookies_trans hline (fun _ _ _ => rfl) token kw rule).leaves h
  · exact absurd hf hne
  · exact (hf token kw rule).leaves h

/-- **A line that is accepted** is a rule on cookies, or leaves the list. -/
theorem cookieRun_of_rule {access : ZendString → Bool} : ∀ {rule : List SpParsedKeyword} {g g' : SpGlobals},
    Leaves (spProcessConfigRoot w access rule) g () g' → ∃ rules, CookieRun w g rules g' ∧
      ∀ kw rest, rule = kw :: rest → kw.kw = zstr "cookie" → rules = [rest]
  | [], g, g', h => by
    obtain ⟨-, rfl⟩ := leaves_pure.mp h
    exact ⟨[], .done, nofun⟩
  | kw :: rule, g, g', h => by
    obtain ⟨token, func, r, g₁, hfind, hrun, hstop, hnext⟩ :=
      Config.Application.leaves_spProcessRule_cons (v := Config.Application.View.root) h
    have hmark : SameCookies g (atLine kw.lineno g) := rfl
    by_cases hf : func = parseCookie w
    · subst hf
      obtain ⟨rfl, -⟩ := leaves_parseCookie hrun
      obtain rfl := hstop rfl
      refine ⟨[rule], .other hmark (.rule hrun .done), fun kw' rest heq _ => ?_⟩
      rw [(List.cons.inj heq).2]
    · have hsame := sameCookies_of_keyword (Config.Application.entryOf_mem hfind).1 hf hrun
      have hrest : ∃ rules, CookieRun w g₁ rules g' := by
        cases r with
        | stop => exact ⟨[], hstop rfl ▸ .done⟩
        | success =>
          obtain ⟨rules, hr, -⟩ := cookieRun_of_rule (hnext rfl)
          exact ⟨rules, hr⟩
      obtain ⟨rules, hr⟩ := hrest
      refine ⟨rules, .other (hsame.trans hmark) hr, fun kw' rest heq hkw => ?_⟩
      -- the table has this parser for the keyword
      obtain ⟨rfl, -⟩ := List.cons.inj heq
      unfold Config.Application.entryOf at hfind
      rw [hkw] at hfind
      cases hfind
      exact absurd rfl hf

/-- **A file that is read to its end** is a sequence of such rules. -/
theorem cookieRun_of_scan {e : Load.Module.Environment} {error : Option (ℕ × ConfigError)} :
    ∀ {l : List Load.Module.Statement} {g g' : SpGlobals},
      Yields (Load.Module.spConfigScan e error l g) (true, g') → ∃ rules, CookieRun e.world g rules g'
  | [], g, g', h => by
    unfold Load.Module.spConfigScan at h
    cases error with
    | none =>
      cases yields_pure.mp h
      exact ⟨[], .done⟩
    | some err =>
      obtain ⟨_, -, h⟩ := yields_bind.mp h
      cases yields_pure.mp h
  | .rule parsedRule :: l, g, g', h => by
    unfold Load.Module.spConfigScan at h
    rcases hrun : runOn (spProcessConfigRoot e.world e.access parsedRule) g with ⟨err | _, g₁⟩
    · rw [hrun] at h
      obtain ⟨_, -, h⟩ := yields_bind.mp h
      cases yields_pure.mp h
    · rw [hrun] at h
      have hleaves : Leaves (spProcessConfigRoot e.world e.access parsedRule) g () g₁ := hrun
      obtain ⟨rules, hrule, -⟩ := cookieRun_of_rule hleaves
      obtain ⟨rules', hrest⟩ := cookieRun_of_scan h
      exact ⟨rules ++ rules', hrule.append hrest⟩
  | .message lineno level fmt args :: l, g, g', h => by
    unfold Load.Module.spConfigScan at h
    obtain ⟨_, -, h⟩ := yields_bind.mp h
    obtain ⟨rules, hrest⟩ := cookieRun_of_scan h
    have hline : SameCookies g { g with configLineno := lineno } := rfl
    exact ⟨rules, .other hline hrest⟩

end Run

/-! ### What is left -/

/-- What an entry is kept for. -/
def cookieKey (c : SpCookie) : Option ZendString × Option SpRegexp := (c.name, c.nameR)

theorem cookieKey_overrideCookie (entry cookie : SpCookie) :
    cookieKey (overrideCookie entry cookie) = cookieKey entry := rfl

theorem encrypt_overrideCookie (entry cookie : SpCookie) :
    (overrideCookie entry cookie).encrypt = (entry.encrypt || cookie.encrypt) := by
  unfold overrideCookie
  cases cookie.encrypt <;> simp

theorem simulation_overrideCookie (entry cookie : SpCookie) :
    (overrideCookie entry cookie).simulation = (entry.simulation || cookie.simulation) := by
  unfold overrideCookie
  cases cookie.simulation <;> simp

/-- The rules on the cookies of an entry. -/
def rulesOn (l : List SpCookie) (e : SpCookie) : List SpCookie := l.filter fun c => cookieKey c = cookieKey e

/-- The last `samesite` that is given. -/
def lastSamesite (l : List SpCookie) : SamesiteType :=
  ((l.filter fun c => c.samesite ≠ .unset).getLast?.map SpCookie.samesite).getD .unset

/-- **The list a sequence of rules leaves**: every rule has its entry, no name and no pattern has two, the entries
are in the order of the first rules on them, and have the settings of all the rules on them. -/
structure Merged (l cookies : List SpCookie) : Prop where
  key_mem_iff : ∀ k, k ∈ cookies.map cookieKey ↔ k ∈ l.map cookieKey
  distinct : cookies.Pairwise fun e e' => sameCookie e e' = false
  order : cookies.Pairwise fun e e' => firstAt (l.map cookieKey) (cookieKey e) < firstAt (l.map cookieKey) (cookieKey e')
  encrypt : ∀ e ∈ cookies, e.encrypt = (rulesOn l e).any SpCookie.encrypt
  simulation : ∀ e ∈ cookies, e.simulation = (rulesOn l e).any SpCookie.simulation
  samesite : ∀ e ∈ cookies, e.samesite = lastSamesite (rulesOn l e)

section Merged
variable {e c : SpCookie} {l : List SpCookie}

/-- An entry is found by what it is kept for. -/
theorem sameCookie_iff (he : Exclusive e) (hc : Exclusive c) :
    sameCookie e c = true ↔ cookieKey e = cookieKey c := by
  unfold Exclusive at he hc
  unfold sameCookie cookieKey
  cases hn : e.name <;> cases hr : e.nameR <;> cases hn' : c.name <;> cases hr' : c.nameR <;> simp_all

theorem exclusive_overrideCookie (he : Exclusive e) : Exclusive (overrideCookie e c) := he

theorem exclusive_mergeCookie (hc : Exclusive c) : ∀ {l : List SpCookie}, (∀ e ∈ l, Exclusive e) →
    ∀ e ∈ mergeCookie c l, Exclusive e
  | [], _, e, he => by
    rw [List.mem_singleton.mp he]
    exact hc
  | entry :: l, hl, e, he => by
    rw [List.forall_mem_cons] at hl
    unfold mergeCookie at he
    split_ifs at he
    · rcases List.mem_cons.mp he with rfl | he
      · exact exclusive_overrideCookie hl.1
      · exact hl.2 e he
    · rcases List.mem_cons.mp he with rfl | he
      · exact hl.1
      · exact exclusive_mergeCookie hc hl.2 e he

theorem mergeCookie_eq (hc : Exclusive c) : ∀ {l : List SpCookie}, (∀ e ∈ l, Exclusive e) →
    mergeCookie c l = merge cookieKey overrideCookie c l
  | [], _ => rfl
  | entry :: l, hl => by
    rw [List.forall_mem_cons] at hl
    unfold mergeCookie merge
    rw [mergeCookie_eq hc hl.2]
    by_cases h : cookieKey entry = cookieKey c
    · rw [if_pos h, if_pos ((sameCookie_iff hl.1 hc).mpr h)]
    · rw [if_neg h, if_neg fun hs => h ((sameCookie_iff hl.1 hc).mp hs)]

/-- The list is a list merged by what the rules are kept for. -/
theorem foldl_mergeCookie (h : ∀ c ∈ l, Exclusive c) :
    l.foldl (fun cookies c => mergeCookie c cookies) [] = mergeAll cookieKey overrideCookie l ∧
      ∀ e ∈ mergeAll cookieKey overrideCookie l, Exclusive e := by
  induction l using List.reverseRecOn with
  | nil => exact ⟨rfl, nofun⟩
  | append_singleton l c ih =>
    obtain ⟨hl, hc⟩ := List.forall_mem_append.mp h
    obtain ⟨heq, hexs⟩ := ih hl
    have hex : Exclusive c := hc c (List.mem_singleton_self c)
    rw [List.foldl_append, heq, mergeAll_concat, ← mergeCookie_eq hex hexs]
    exact ⟨rfl, exclusive_mergeCookie hex hexs⟩

theorem lastSamesite_concat (l : List SpCookie) (c : SpCookie) :
    lastSamesite (l ++ [c]) = if c.samesite ≠ .unset then c.samesite else lastSamesite l := by
  unfold lastSamesite
  rw [List.filter_append]
  split_ifs with h
  · rw [List.filter_cons_of_pos (by simpa using h), List.filter_nil, List.getLast?_concat]
    rfl
  · rw [List.filter_cons_of_neg (by simpa using h), List.filter_nil, List.append_nil]

/-- **The settings of an entry** are those of the rules it is combined from. -/
theorem settings_of_combineAll : ∀ e, combineAll overrideCookie l = some e →
    e.encrypt = l.any SpCookie.encrypt ∧ e.simulation = l.any SpCookie.simulation ∧ e.samesite = lastSamesite l := by
  induction l using List.reverseRecOn with
  | nil => nofun
  | append_singleton l c ih =>
    intro e he
    rw [combineAll_concat] at he
    rw [List.any_append, List.any_append, lastSamesite_concat]
    cases hl : combineAll overrideCookie l with
    | none =>
      -- the first rule
      have hnil : l = [] := by
        cases l with
        | nil => rfl
        | cons a l => cases hl
      rw [hl] at he
      subst hnil
      cases he
      refine ⟨by simp, by simp, ?_⟩
      split_ifs with h
      · rfl
      · exact not_not.mp h
    | some a =>
      obtain ⟨henc, hsim, hsame⟩ := ih a hl
      rw [hl] at he
      cases he
      rw [← henc, ← hsim, ← hsame]
      show (overrideCookie a c).encrypt = _ ∧ (overrideCookie a c).simulation = _ ∧ _
      rw [encrypt_overrideCookie, simulation_overrideCookie]
      refine ⟨by simp, by simp, rfl⟩

theorem merged_mergeAll (h : ∀ c ∈ l, Exclusive c) : Merged l (mergeAll cookieKey overrideCookie l) := by
  have hkey : ∀ a c, cookieKey (overrideCookie a c) = cookieKey a := cookieKey_overrideCookie
  have hsettings : ∀ e ∈ mergeAll cookieKey overrideCookie l, _ := fun e he =>
    settings_of_combineAll e (combineAll_filter hkey l e he)
  refine ⟨mem_keys_mergeAll hkey l, ?_, ?_, fun e he => (hsettings e he).1, fun e he => (hsettings e he).2.1,
    fun e he => (hsettings e he).2.2⟩
  · have hex := (foldl_mergeCookie h).2
    refine (List.pairwise_map.mp (nodup_keys_mergeAll hkey l)).imp_of_mem fun {e e'} he he' hne => ?_
    exact Bool.eq_false_iff.mpr fun hs => hne ((sameCookie_iff (hex e he) (hex e' he')).mp hs)
  · have horder := pairwise_keys_mergeAll hkey l
    rw [List.pairwise_map] at horder
    exact horder

end Merged

/-! ### What is found -/

section Lookup
variable {w : World} {g g' : SpGlobals} {key : ZendString}

/-- No pattern fails on the name. -/
def Searchable (w : World) (cookies : List SpCookie) (key : ZendString) : Prop :=
  ∀ c ∈ cookies, ∀ rx ∈ c.nameR, -1 ≤ w.pcreExec rx.pattern key

theorem spMatchValue_yields {config : SpCookie} (h : ∀ rx ∈ config.nameR, -1 ≤ w.pcreExec rx.pattern key) :
    Yields (Match.Value.spMatchValue w g key config.name config.nameR) (matchesName w key config) := by
  unfold Match.Value.spMatchValue matchesName
  cases config.name with
  | some s => exact yields_pure.mpr rfl
  | none =>
    cases hr : config.nameR with
    | none => exact yields_pure.mpr rfl
    | some rx =>
      have hok := h rx (by rw [hr]; rfl)
      unfold Match.Value.spIsRegexpMatchingLen
      dsimp only
      split_ifs with hneg hno
      · exact absurd hno (by omega)
      · rw [decide_eq_false (not_le.mpr hneg)]
        exact yields_pure.mpr rfl
      · rw [decide_eq_true (not_lt.mp hneg)]
        exact yields_pure.mpr rfl

theorem lookupCookieFrom_yields : ∀ {l : List SpCookie}, Searchable w l key →
    Yields (lookupCookieFrom w g key l) (l.find? (matchesName w key))
  | [], _ => yields_pure.mpr rfl
  | config :: l, h => by
    unfold Searchable at h
    rw [List.forall_mem_cons] at h
    unfold lookupCookieFrom
    refine yields_bind.mpr ⟨_, spMatchValue_yields h.1, ?_⟩
    rw [List.find?_cons]
    cases matchesName w key config with
    | true => exact yields_pure.mpr rfl
    | false => exact lookupCookieFrom_yields h.2

/-- **The first entry that matches is found**: nothing else is ever returned, and it is returned unless a pattern
fails. -/
def FindsFirst (w : World) (g : SpGlobals) : Prop := ∀ key,
  (∀ r, Yields (spLookupCookieConfig w g key) r → r = g.cookies.find? (matchesName w key)) ∧
    (Searchable w g.cookies key → Yields (spLookupCookieConfig w g key) (g.cookies.find? (matchesName w key)))

/-- **What a sequence of accepted rules on cookies leaves**, and what is found in it. -/
theorem merged_of_run {rules : List (List SpParsedKeyword)} (hg : g.cookies = [])
    (h : CookieRun w g rules g') : ∃ l : List SpCookie, rules.map (ruleCookie w) = l.map some ∧
      Merged l g'.cookies ∧ ∀ w g, g.cookies = g'.cookies → FindsFirst w g := by
  obtain ⟨l, hl, hexs, hcookies⟩ := cookies_of_run h
  refine ⟨l, hl, ?_, fun w g _ key => ⟨fun r => yields_spLookupCookieConfig, lookupCookieFrom_yields⟩⟩
  rw [hcookies, hg, (foldl_mergeCookie hexs).1]
  exact merged_mergeAll hexs

end Lookup

/-- `.name("user").samesite("lax")`. -/
def laxUser : List SpParsedKeyword :=
  [{ kw := zstr "name", arg := some (zstr "user"), argtype := .str },
    { kw := zstr "samesite", arg := some (zstr "lax"), argtype := .str }]

/-- `.name("user").encrypt().sim()`. -/
def encryptUser : List SpParsedKeyword :=
  [{ kw := zstr "name", arg := some (zstr "user"), argtype := .str },
    { kw := zstr "encrypt", argtype := .empty }, { kw := zstr "sim", argtype := .empty }]

/-- A configuration with a secret. -/
def secretGlobals : SpGlobals :=
  { encryptionKey := some (zstr "secret"), cookiesEnvVar := some (zstr "REMOTE_ADDR") }

/-- The entry of both rules. -/
def userCookie : SpCookie := { name := some (zstr "user"), samesite := .lax, encrypt := true, simulation := true }

theorem cookieRun_user : CookieRun (World.empty 80200) secretGlobals [laxUser, encryptUser]
    { secretGlobals with cookies := [userCookie], configLineno := 1 } := by
  have hlax : Leaves (parseCookie (World.empty 80200) (zstr "cookie") { kw := zstr "cookie" } laxUser)
      secretGlobals .stop
      { secretGlobals with cookies := [{ name := some (zstr "user"), samesite := .lax }], configLineno := 1 } := rfl
  have hencrypt : Leaves (parseCookie (World.empty 80200) (zstr "cookie") { kw := zstr "cookie" } encryptUser)
      { secretGlobals with cookies := [{ name := some (zstr "user"), samesite := .lax }], configLineno := 1 } .stop
      { secretGlobals with cookies := [userCookie], configLineno := 1 } := rfl
  exact .rule hlax (.rule hencrypt .done)

theorem merged_of_run_user : ∃ l : List SpCookie,
    [laxUser, encryptUser].map (ruleCookie (World.empty 80200)) = l.map some ∧ Merged l [userCookie] ∧
      ∀ w g, g.cookies = [userCookie] → FindsFirst w g := merged_of_run rfl cookieRun_user

end Snuffleupagus.Cookie.Merge
