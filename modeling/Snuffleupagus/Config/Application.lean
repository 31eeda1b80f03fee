import Snuffleupagus.Config.Root

/-! # No keyword is lost

`sp_process_rule` goes through a rule from left to right. The parser of a keyword says how it goes on:
`SP_PARSER_SUCCESS` with the next keyword, `SP_PARSER_STOP` that the rule is complete, since the parser
has gone through the rest itself, with a table of its own. `Applied` says that the keywords of a rule
have been applied to the state, every one of them, at its position: by the parser it has in the table
valid there.

`parse_log_media` is a parser of a single keyword and stops, so what stands behind it is lost, and the
rule accepted all the same: `keywords_applied_iff` says that nothing else gets lost. -/

namespace Snuffleupagus.Config.Application

open Snuffleupagus.Lib.Attempts Snuffleupagus.Php.Bytes Snuffleupagus.Php.Engine
open Snuffleupagus.Config.Rule
open Snuffleupagus.Config.Keyword hiding spProcessRule
open Snuffleupagus.Config.Parser Snuffleupagus.Config.Features Snuffleupagus.Config.Root

/-! ### Tables -/

/-- Where the configuration is in the state of a table. -/
structure View (σ : Type) where
  get : σ → SpGlobals
  put : SpGlobals → σ → σ
  get_put : ∀ g s, get (put g s) = g
  put_put : ∀ g g' s, put g (put g' s) = put g s

/-- The table of `sp_process_config_root` has no variables. -/
def View.root : View SpGlobals where
  get := id
  put g _ := g
  get_put _ _ := rfl
  put_put _ _ _ := rfl

/-- The other tables have local variables. -/
def View.locals (ℓ : Type) : View (ℓ × SpGlobals) where
  get := Prod.snd
  put g s := (s.1, g)
  get_put _ _ := rfl
  put_put _ _ _ := rfl

variable {σ : Type}

/-- `SPG(config_lineno) = lineno`. -/
def View.mark (v : View σ) (lineno : ℕ) (s : σ) : σ := v.put (atLine lineno (v.get s)) s

/-- A parser that writes to the configuration only. -/
def View.lift (v : View σ) (f : SpParser SpGlobals) : SpParser σ := fun token kw rule s =>
  let (r, g) := runOn (f token kw rule) (v.get s)
  (r, v.put g s)

/-- What a parser with a table of its own brings to `SP_PROCESS_CONFIG_KEYWORDS`. -/
structure Own where
  Locals : Type
  start : Locals
  table : SpConfigKeywords (Locals × SpGlobals)

/-- What a parser does once its keywords have been gone through. -/
abbrev Own.Finish (own : Own) :=
  ZendString → SpParsedKeyword → List SpParsedKeyword → own.Locals → Attempt ConfigError SpGlobals ParserResult

/-- A parser with a table of its own. -/
def Own.parser (own : Own) (finish : own.Finish) : SpParser SpGlobals := fun token kw rule => do
  let l ← spProcessConfigKeywords kw rule own.start own.table
  finish token kw rule l

/-- Of the keywords themselves only their text is used once they have been gone through. -/
def Own.OnText (own : Own) (finish : own.Finish) : Prop :=
  ∀ token kw rule rule', spGetTextualRepresentation (kw :: rule) = spGetTextualRepresentation (kw :: rule') →
    finish token kw rule = finish token kw rule'

/-- The tables of all features. -/
def ownTables (w : World) : List (ZendString × Own) :=
  [(zstr "unserialize_hmac", ⟨Flags, {}, unserializeKeywords⟩),
    (zstr "unserialize_noclass", ⟨Flags, {}, enableDisable⟩),
    (zstr "harden_random", ⟨Flags, {}, enableDisable⟩),
    (zstr "disable_function",
      ⟨DisabledFunctions.RuleState, {}, (DisabledFunctions.configKeywords w).map (Prod.map id onLocals)⟩),
    (zstr "readonly_exec", ⟨Flags, {}, readonlyExecKeywords⟩),
    (zstr "global_strict", ⟨Flags, {}, enableDisable⟩),
    (zstr "upload_validation", ⟨Flags, {}, uploadKeywords⟩),
    (zstr "cookie", ⟨CookieState, {}, (cookieKeywords w).map (Prod.map id onLocals)⟩),
    (zstr "global", ⟨Unit, (), globalKeywords⟩),
    (zstr "auto_cookie_secure", ⟨Flags, {}, enableDisable⟩),
    (zstr "xxe_protection", ⟨Flags, {}, enableDisable⟩),
    (zstr "eval_blacklist", ⟨Unit, (), evalKeywords (·.blacklist) fun v c => { c with blacklist := v }⟩),
    (zstr "eval_whitelist", ⟨Unit, (), evalKeywords (·.whitelist) fun v c => { c with whitelist := v }⟩),
    (zstr "session", ⟨Unit, (), sessionKeywords⟩),
    (zstr "sloppy_comparison", ⟨Flags, {}, enableDisable⟩),
    (zstr "wrappers_whitelist", ⟨Unit, (), wrapperKeywords⟩),
    (zstr "ini_protection", ⟨Flags, {}, iniKeywords⟩),
    (zstr "ini", ⟨IniEntryState, {}, (iniEntryKeywords w).map (Prod.map id onLocals)⟩),
    (zstr "server_encode", ⟨Flags, {}, enableDisable⟩),
    (zstr "server_strip", ⟨Flags, {}, enableDisable⟩)]

/-! ### A rule that has been applied -/

/-- The entry of a keyword in a table. -/
def entryOf (table : SpConfigKeywords σ) (kw : SpParsedKeyword) : Option (ZendString × SpParser σ) :=
  table.find? fun ckw => ckw.1 == kw.kw

/-- The parser is about a single keyword. -/
def Single (f : SpParser σ) : Prop := ∀ token kw rule, Answers (· = .success) (f token kw rule)

/-- A parser that writes nothing when it fails, about a single keyword. -/
def SingleFn (f : SpParseFn σ) : Prop := ∀ token kw s p, f token kw s = .ok p → p.1 = .success

section Single
open Snuffleupagus.Lib.Effect

@[simp] theorem single_parseRegexp {w : World} {get : σ → Option SpRegexp} {set : SpRegexp → σ → σ} :
    SingleFn (parseRegexp w get set) := by
  intro token kw s p h
  obtain ⟨_, -, h⟩ := bind_eq_ok.mp h
  obtain ⟨_, -, h⟩ := bind_eq_ok.mp h
  split_ifs at h
  cases h
  rfl

@[simp] theorem single_parseCidr {w : World} {get : σ → Option SpCidr} {set : SpCidr → σ → σ} :
    SingleFn (parseCidr w get set) := by
  intro token kw s p h
  obtain ⟨_, -, h⟩ := bind_eq_ok.mp h
  obtain ⟨_, -, h⟩ := bind_eq_ok.mp h
  obtain ⟨_, -, h⟩ := bind_eq_ok.mp h
  cases h
  rfl

@[simp] theorem single_parseInt {set : ℤ → σ → σ} : SingleFn (parseInt set) := by
  intro token kw s p h
  obtain ⟨value, -, h⟩ := bind_eq_ok.mp h
  rcases hn : strtoimax (cstr value) with _ | ⟨n, _ | _⟩ <;> rw [hn] at h <;> cases h
  rfl

@[simp] theorem single_parseUint {set : ℕ → σ → σ} : SingleFn (parseUint set) := by
  intro token kw s p h
  obtain ⟨value, -, h⟩ := bind_eq_ok.mp h
  rcases hn : strtoul (cstr value) with _ | ⟨n, _ | _⟩ <;> rw [hn] at h <;> cases h
  rfl

@[simp] theorem single_parsePhpType {set : Php.Value.ZType → σ → σ} : SingleFn (parsePhpType set) := by
  intro token kw s p h
  obtain ⟨value, -, h⟩ := bind_eq_ok.mp h
  rcases ht : phpTypes.find? (fun t => equalsCi value t.1) with _ | ⟨_, type⟩ <;> rw [ht] at h <;> cases h
  rfl

end Single

/-- An entry of a table: a parser of a single keyword, or `parse_log_media`, or one with a table of
its own. -/
inductive Entry (w : World) (v : View σ) : ZendString × SpParser σ → Prop
  | single {k : ZendString} {f : SpParser σ} (hk : k ≠ zstr "log_media") (hf : Single f) :
      Entry w v (k, f)
  | media : Entry w v (zstr "log_media", v.lift parseLogMedia)
  | feature {k : ZendString} {own : Own} {finish : own.Finish} (hown : (k, own) ∈ ownTables w)
      (htext : own.OnText finish) (hstop : ∀ token kw rule l, Answers (· = .stop) (finish token kw rule l)) :
      Entry w v (k, v.lift (own.parser finish))

variable {w : World} {v : View σ} {table table' : SpConfigKeywords σ}

theorem entryOf_mem {kw : SpParsedKeyword} {ckw : ZendString × SpParser σ}
    (h : entryOf table kw = some ckw) : ckw ∈ table ∧ ckw.1 = kw.kw :=
  ⟨List.mem_of_find?_eq_some h, by simpa using List.find?_some h⟩

/-- The keywords behind a parser with a table of its own, from its local variables. -/
theorem leaves_spProcessConfigKeywords {ℓ : Type} {kw : SpParsedKeyword} {rule : List SpParsedKeyword}
    {start l : ℓ} {kws : SpConfigKeywords (ℓ × SpGlobals)} {g g' : SpGlobals} :
    Leaves (spProcessConfigKeywords kw rule start kws) g l g' ↔
      ∃ g₁, Leaves (spProcessRule (View.mark (.locals ℓ)) kws rule) (start, g) () (l, g₁) ∧
        atLine kw.lineno g₁ = g' := by
  unfold spProcessConfigKeywords
  constructor
  · intro h
    obtain ⟨p, g₁, hp, h⟩ := leaves_bind.mp h
    obtain ⟨_, g₂, hm, h⟩ := leaves_bind.mp h
    obtain ⟨rfl, rfl⟩ := leaves_pure.mp h
    exact ⟨g₁, leaves_withLocals.mp hp, leaves_modify.mp hm⟩
  · rintro ⟨g₁, h, rfl⟩
    exact leaves_bind.mpr ⟨((), l), g₁, leaves_withLocals.mpr h,
      leaves_bind.mpr ⟨(), _, leaves_modify.mpr rfl, leaves_pure.mpr ⟨rfl, rfl⟩⟩⟩

/-- One keyword of a rule that is accepted. -/
theorem leaves_spProcessRule_cons {kw : SpParsedKeyword} {rule : List SpParsedKeyword} {s s' : σ}
    (h : Leaves (spProcessRule v.mark table (kw :: rule)) s () s') :
    ∃ token func r s₁, entryOf table kw = some (token, func) ∧
      Leaves (func token kw rule) (v.mark kw.lineno s) r s₁ ∧
        (r = .stop → s₁ = s') ∧ (r = .success → Leaves (spProcessRule v.mark table rule) s₁ () s') := by
  unfold spProcessRule at h
  obtain ⟨_, s₀, hm, h⟩ := leaves_bind.mp h
  have hm := leaves_modify.mp hm
  subst hm
  cases hf : table.find? fun ckw => ckw.1 == kw.kw with
  | none =>
    rw [hf] at h
    exact absurd h not_leaves_throw
  | some ckw =>
    obtain ⟨token, func⟩ := ckw
    rw [hf] at h
    obtain ⟨r, s₁, hr, h⟩ := leaves_bind.mp h
    refine ⟨token, func, r, s₁, hf, hr, ?_, ?_⟩
    · rintro rfl
      exact (leaves_pure.mp h).2
    · rintro rfl
      exact h

/-! ### The tables of the features -/

/-- The two passes over the keywords of a function agree. -/
theorem spProcessRule_onLocals {ℓ : Type} {kws : List (ZendString × SpParseFn ℓ)} {l' : ℓ} {g' : SpGlobals} :
    ∀ {rule : List SpParsedKeyword} {l : ℓ} {g : SpGlobals},
      Leaves (spProcessRule (View.mark (.locals ℓ)) (kws.map (Prod.map id onLocals)) rule) (l, g) () (l', g') →
        Keyword.spProcessRule kws rule l = .ok l'
  | [], l, g, h => by
    obtain ⟨-, h⟩ := leaves_pure.mp h
    cases h
    rfl
  | kw :: rule, l, g, h => by
    obtain ⟨token, func, r, s₁, hf, hr, hstop, hnext⟩ := leaves_spProcessRule_cons h
    rw [entryOf, List.find?_map, Option.map_eq_some_iff] at hf
    obtain ⟨⟨token', f⟩, hf, hmap⟩ := hf
    cases hmap
    obtain ⟨s, s₂, hget, hr⟩ := leaves_bind.mp hr
    obtain ⟨rfl, rfl⟩ := leaves_get.mp hget
    obtain ⟨p, s₃, hp, hr⟩ := leaves_bind.mp hr
    obtain ⟨hans, rfl⟩ := leaves_ofAnswer.mp hp
    obtain ⟨_, s₄, hm, hr⟩ := leaves_bind.mp hr
    have hm := leaves_modify.mp hm
    obtain ⟨rfl, rfl⟩ := leaves_pure.mp hr
    unfold Keyword.spProcessRule
    rw [show kws.find? (fun ckw => ckw.1 == kw.kw) = some (token', f) from hf]
    dsimp only
    have hp : (f token' kw l).map (fun q => (q.1, (q.2, atLine kw.lineno g))) = .ok p := hans
    cases hfl : f token' kw l with
    | error e => rw [hfl] at hp; cases hp
    | ok q =>
      rw [hfl] at hp
      cases hp
      subst hm
      obtain ⟨r, l₁⟩ := q
      cases r with
      | stop => exact congrArg Except.ok (congrArg Prod.fst (hstop rfl))
      | success => exact spProcessRule_onLocals (hnext rfl)

end Snuffleupagus.Config.Application
