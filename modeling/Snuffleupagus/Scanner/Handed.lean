import Snuffleupagus.Scanner.Cut

/-! # The keywords of the rules

A rule is handed out with the keywords that have been read behind its `sp` (`steps_keywords`). In a scan that succeeds
every keyword that is read is handed out (`handed_of_keywordAt`). -/

namespace Snuffleupagus.Scanner.Handed

open Snuffleupagus.Lib.Lexer Snuffleupagus.Php.Bytes
open Snuffleupagus.Config.Keyword
open Snuffleupagus.Load.Module (Statement)
open Snuffleupagus.Scanner.Condition Snuffleupagus.Scanner.Token Snuffleupagus.Scanner.Scan
open Snuffleupagus.Scanner.Action Snuffleupagus.Scanner.Run Snuffleupagus.Scanner.Cut
open Snuffleupagus.Scanner.Grammar (step_success)

/-- Here this keyword of a rule is read. -/
structure KeywordAt (c : Context) (s : State) (n : ℕ) (kw : SpParsedKeyword) : Prop where
  cond : s.cond = .rule
  next : next ruleRules .other s.data = some (.keyword, n)
  active : s.skipping = false
  room : s.parsedRule.length ≠ maxKeywords
  parses : parseKeyword c s (s.data.take n) = .ok kw

/-- The scanner comes from `s` to `s'`, with a token at least. -/
def Behind (c : Context) (s s' : State) : Prop := ∃ s₁ out l, step c s = .next s₁ out ∧ Steps c s₁ l s'

variable {c : Context} {s s' : State} {out : Option Statement} {l : List Statement} {kw : SpParsedKeyword} {n : ℕ}

theorem Behind.steps (h : Behind c s s') : ∃ l, Steps c s l s' := by
  obtain ⟨s₁, out, l, hstep, hsteps⟩ := h
  exact ⟨out.toList ++ l, .cons hstep hsteps⟩

theorem Behind.lt (h : Behind c s s') : s'.data.length < s.data.length := by
  obtain ⟨s₁, out, l, hstep, hsteps⟩ := h
  exact steps_lt hstep hsteps

theorem Behind.trans {s₁ : State} (h : Behind c s s₁) (h' : Behind c s₁ s') : Behind c s s' := by
  obtain ⟨s₂, out, l, hstep, hsteps⟩ := h
  obtain ⟨l', hsteps'⟩ := h'.steps
  exact ⟨s₂, out, l ++ l', hstep, hsteps.trans hsteps'⟩

/-- The places of a run are the first one and those of the rest. -/
theorem forall_place {s₁ : State} {P : State → Prop} (hstep : step c s = .next s₁ out) :
    (∀ l s', Steps c s l s' → P s') ↔ P s ∧ ∀ l s', Steps c s₁ l s' → P s' := by
  constructor
  · intro h
    exact ⟨h [] s (.refl s), fun l s' hsteps => h _ s' (.cons hstep hsteps)⟩
  · rintro ⟨hs, h⟩ l s' hsteps
    cases hsteps with
    | refl => exact hs
    | cons hstep' hrest =>
      rw [hstep] at hstep'
      cases hstep'
      exact h _ s' hrest

theorem exists_place {s₁ : State} {P : State → Prop} (hstep : step c s = .next s₁ out) :
    (∃ l s', Steps c s l s' ∧ P s') ↔ P s ∨ ∃ l s', Steps c s₁ l s' ∧ P s' := by
  have h := not_congr (@forall_place c s out s₁ (fun s' => ¬P s') hstep)
  simpa only [not_forall, not_and_or, not_not, exists_prop] using h

theorem behind_iff {s₁ : State} (hstep : step c s = .next s₁ out) : Behind c s s' ↔ ∃ l, Steps c s₁ l s' := by
  constructor
  · rintro ⟨s₂, out', l, hstep', hsteps⟩
    rw [hstep] at hstep'
    cases hstep'
    exact ⟨l, hsteps⟩
  · rintro ⟨l, hsteps⟩
    exact ⟨s₁, out, l, hstep, hsteps⟩

/-! ### One token -/

/-- What a token does to the rule that is being read. -/
structure Rule (c : Context) (s s' : State) (out : Option Statement) : Prop where
  parsedRule : s'.parsedRule = s.parsedRule ∨ s'.parsedRule = [] ∧ s.cond = .init ∨
    ∃ n kw, KeywordAt c s n kw ∧ s'.parsedRule = s.parsedRule ++ [kw]
  out : ∀ parsedRule, out = some (.rule parsedRule) → parsedRule = s.parsedRule

theorem initAction_rule {t : InitRule} {text : ZendString} (h : initAction c t text s = .next s' out) :
    (s'.parsedRule = s.parsedRule ∨ s'.parsedRule = []) ∧ ∀ parsedRule, out ≠ some (.rule parsedRule) := by
  cases initNext h with
  | sp => exact ⟨.inr rfl, nofun⟩
  | blank | skipped | newline | set | condition | endCondition | message => exact ⟨.inl rfl, nofun⟩

theorem condAction_parsedRule {t : CondRule} {text : ZendString} (h : condAction c t text s = .next s' out) :
    s'.parsedRule = s.parsedRule := by
  obtain ⟨-, ⟨ht, -⟩ | ⟨k, -, hfeed⟩⟩ := condAction_next h
  · rcases ht with rfl | rfl <;> cases h <;> rfl
  · obtain ⟨b, sy, -, rfl, -⟩ := feed_eq hfeed
    rfl

theorem condOpAction_parsedRule {t : CondOpRule} {text : ZendString} (h : condOpAction c t text s = .next s' out) :
    s'.parsedRule = s.parsedRule := by
  obtain ⟨-, ⟨ht, -⟩ | ⟨k, -, hfeed⟩ | ⟨rfl, -⟩⟩ := condOpAction_next h
  · rcases ht with rfl | rfl <;> cases h <;> rfl
  · obtain ⟨b, sy, -, rfl, -⟩ := feed_eq hfeed
    rfl
  · obtain ⟨sy, -, rfl, -⟩ := endCondition_eq h
    rfl

theorem step_rule (h : step c s = .next s' out) : Rule c s s' out := by
  cases hcond : s.cond with
  | init =>
    obtain ⟨t, n, -, hact⟩ := init_token hcond h
    obtain ⟨hrule, hout⟩ := initAction_rule hact
    exact ⟨hrule.imp_right fun hnil => .inl ⟨hnil, hcond⟩, fun r hr => absurd hr (hout r)⟩
  | cond =>
    obtain ⟨t, n, -, hact⟩ := cond_token hcond h
    have hrule := condAction_parsedRule hact
    have hout := (condAction_quiet hact).out
    exact ⟨.inl hrule, fun r hr => by rw [hout] at hr; cases hr⟩
  | condOp =>
    obtain ⟨t, n, -, hact⟩ := condOp_token hcond h
    have hrule := condOpAction_parsedRule hact
    have hout := (condOpAction_quiet hact).out
    exact ⟨.inl hrule, fun r hr => by rw [hout] at hr; cases hr⟩
  | rule =>
    obtain ⟨t, n, hnext, hact⟩ := rule_token hcond h
    cases ruleNext hact with
    | whitespace | newline | skipped => exact ⟨.inl rfl, nofun⟩
    | keyword hskip hroom hkw => exact ⟨.inr (.inr ⟨n, _, ⟨hcond, hnext, hskip, hroom, hkw⟩, rfl⟩), nofun⟩
    | ends =>
      refine ⟨.inl rfl, fun r hr => ?_⟩
      split_ifs at hr
      cases hr
      rfl

/-! ### Runs -/

/-- **What holds of every keyword that is read** holds of all keywords of the rules. -/
theorem steps_keywords {P : SpParsedKeyword → Prop} (h : Steps c s l s') :
    (∀ l₁ s₁ n kw, Steps c s l₁ s₁ → KeywordAt c s₁ n kw → P kw) → (∀ kw ∈ s.parsedRule, P kw) →
      (∀ kw ∈ s'.parsedRule, P kw) ∧ ∀ parsedRule, .rule parsedRule ∈ l → ∀ kw ∈ parsedRule, P kw := by
  induction h with
  | refl s => exact fun _ hs => ⟨hs, nofun⟩
  | @cons s s₁ s' out l hstep hsteps ih =>
    intro hread hs
    have hrule := step_rule hstep
    have hs₁ : ∀ kw ∈ s₁.parsedRule, P kw := by
      rcases hrule.parsedRule with hsame | ⟨hnil, -⟩ | ⟨n, kw, hkw, happend⟩
      · rwa [hsame]
      · rw [hnil]
        nofun
      · rw [happend]
        intro kw' hmem
        rcases List.mem_append.mp hmem with hmem | hmem
        · exact hs kw' hmem
        · rw [List.mem_singleton.mp hmem]
          exact hread [] s n kw (.refl s) hkw
    obtain ⟨hs', hl⟩ := ih (fun l₁ s₂ n kw hsteps₁ => hread _ s₂ n kw (.cons hstep hsteps₁)) hs₁
    refine ⟨hs', fun parsedRule hmem => ?_⟩
    rcases List.mem_append.mp hmem with hmem | hmem
    · rw [hrule.out parsedRule (by rwa [Option.mem_toList] at hmem)]
      exact hs
    · exact hl parsedRule hmem

/-- **In a scan that succeeds**, the keywords of a rule that is not skipped are handed out. -/
theorem handed_of_mem (h : Steps c s l s') (hend : step c s' = .stop .success) : s.cond = .rule →
    s.skipping = false → kw ∈ s.parsedRule → ∃ parsedRule, .rule parsedRule ∈ l ∧ kw ∈ parsedRule := by
  induction h with
  | refl s =>
    intro hcond
    obtain ⟨hinit, -⟩ := step_success hend
    rw [hcond] at hinit
    cases hinit
  | @cons s s₁ s' out l hstep _ ih =>
    intro hcond hskip hmem
    rcases step_in_rule hcond hskip hstep with rfl | ⟨-, hcond₁, hskip₁, hfront⟩
    · exact ⟨s.parsedRule, List.mem_cons_self, hmem⟩
    · obtain ⟨r, hr, hkw⟩ := ih hend hcond₁ hskip₁ (hfront.subset hmem)
      exact ⟨r, List.mem_append_right _ hr, hkw⟩

theorem KeywordAt.step (h : KeywordAt c s n kw) : ∃ s', step c s = .next s' none ∧
    s'.parsedRule = s.parsedRule ++ [kw] ∧ s'.cond = .rule ∧ s'.skipping = false := by
  have hstep := step_keyword h.cond h.next h.active h.room h.parses
  exact ⟨{ s with data := s.data.drop n, parsedRule := s.parsedRule ++ [kw] }, hstep, rfl, h.cond, h.active⟩

/-- **Every keyword that is read is handed out**, if the scan succeeds. -/
theorem handed_of_keywordAt (h : KeywordAt c s n kw) (hend : (runFrom c s).2 = .success) :
    ∃ parsedRule, .rule parsedRule ∈ (runFrom c s).1 ∧ kw ∈ parsedRule := by
  obtain ⟨s', hstep, hrule, hcond, hskip⟩ := h.step
  obtain ⟨l, s₁, e, hsteps, hstop, hrun⟩ := exists_steps (c := c) s'
  rw [runFrom_eq, hstep] at hend ⊢
  dsimp only at hend ⊢
  rw [hrun] at hend ⊢
  obtain rfl : e = .success := hend
  exact handed_of_mem hsteps hstop hcond hskip (by rw [hrule]; simp)

end Snuffleupagus.Scanner.Handed
