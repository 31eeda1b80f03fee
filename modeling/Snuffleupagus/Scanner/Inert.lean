import Snuffleupagus.Scanner.Cut
import Snuffleupagus.Scanner.Lines

/-! # Blocks that are skipped

If the condition in front of a block is false, the scanner reads the statements of the block, but does
nothing, and what is behind the block is read as if nothing had been in front. This holds as long as the
text before the block and the block itself are read to their ends (`InPlace`, `Block`): a string that
runs on behind a backslash can take the end of the block with it. -/

namespace Snuffleupagus.Scanner.Inert

open Snuffleupagus.Lib.Lexer Snuffleupagus.Lib.Derivative Snuffleupagus.Php.Bytes
open Snuffleupagus.Config.Keyword
open Snuffleupagus.Load.Module (Statement)
open Snuffleupagus.Scanner.Condition Snuffleupagus.Scanner.Token Snuffleupagus.Scanner.Scan
open Snuffleupagus.Scanner.Action Snuffleupagus.Scanner.Run Snuffleupagus.Scanner.Grammar
open Snuffleupagus.Scanner.Cut Snuffleupagus.Scanner.Lines
open Snuffleupagus.Scanner.Word (not_blank_of_nonascii)

/-! ### The text -/

/-- Complete statements other than conditions, each token the longest at its place. -/
inductive Block : ZendString → ZendString → Prop
  | nil (rest : ZendString) : Block rest rest
  | plain {data rest : ZendString} {t : InitRule} {n : ℕ} (h : Longest initRules data t n)
      (ht : plain t = true) (hend : t ≠ .endCondition) (hrest : Block (data.drop n) rest) : Block data rest
  | rule {data mid rest : ZendString} {n : ℕ} (h : Longest initRules data .sp n)
      (hrule : Rule (data.drop n) mid) (hrest : Block mid rest) : Block data rest

variable {c : Context} {s s' : State} {out : Option Statement}

/-! ### Blanks -/

/-- The scanner comes to `rest`, between two statements, and nothing else has happened. -/
structure Passes (c : Context) (s s' : State) (rest : ZendString) : Prop where
  steps : Steps c s [] s'
  cond : s'.cond = .init
  data : s'.data = rest
  sy : s'.sy = s.sy
  vars : s'.vars = s.vars
  active : s'.conditionActive = s.conditionActive

/-- A step without a statement in front. -/
theorem Passes.cons {s₁ : State} {rest : ZendString} (h : Passes c s₁ s' rest) (hstep : step c s = .next s₁ none)
    (hsy : s₁.sy = s.sy) (hvars : s₁.vars = s.vars) (hactive : s₁.conditionActive = s.conditionActive) :
    Passes c s s' rest :=
  ⟨.cons hstep h.steps, h.cond, h.data, h.sy.trans hsy, h.vars.trans hvars, h.active.trans hactive⟩

theorem Passes.trans {s₁ : State} {mid rest : ZendString} (h : Passes c s s₁ mid) (h' : Passes c s₁ s' rest) :
    Passes c s s' rest :=
  ⟨h.steps.trans h'.steps, h'.cond, h'.data, h'.sy.trans h.sy, h'.vars.trans h.vars, h'.active.trans h.active⟩

/-- A rule that is skipped. -/
theorem passes_rule {data rest : ZendString} (h : Rule data rest) : ∀ {s : State}, s.cond = .rule →
    s.data = data → s.skipping = true → ∃ s', Passes c s s' rest := by
  induction h with
  | @blank data rest n hl _ ih =>
    rintro s hcond rfl hskip
    have hstep : step c s = .next { s with data := s.data.drop n } none :=
      step_rule_of_next hcond (next_of_longest bounded_ruleRules hl)
    obtain ⟨s', h⟩ := ih (s := { s with data := s.data.drop n }) hcond rfl hskip
    exact ⟨s', h.cons hstep rfl rfl rfl⟩
  | @keyword data rest n hl _ ih =>
    rintro s hcond rfl hskip
    have hstep : step c s = .next { s with data := s.data.drop n } none :=
      (step_rule_of_next hcond (next_of_longest bounded_ruleRules hl)).trans (if_pos hskip)
    obtain ⟨s', h⟩ := ih (s := { s with data := s.data.drop n }) hcond rfl hskip
    exact ⟨s', h.cons hstep rfl rfl rfl⟩
  | @continued nl data rest n hl hnl _ ih =>
    rintro s hcond hdata hskip
    have hnext : next ruleRules .other (nl ++ data) = some (.newline, n) := next_of_longest bounded_ruleRules hl
    obtain ⟨nl', hnl', hsplit⟩ := newline_split hl
    obtain rfl := newline_unique hnl hnl' hsplit
    rw [← hdata] at hnext hsplit
    have hstep : step c s = .next { s with lineno := s.lineno + 1, data := data } none := by
      rw [step_rule_of_next hcond hnext]
      show Outcome.next { s with lineno := s.lineno + 1, data := _ ++ s.data.drop n } none = _
      rw [← List.append_cancel_left (hdata.symm.trans hsplit)]
    obtain ⟨s', h⟩ := ih (s := { s with lineno := s.lineno + 1, data := data }) hcond rfl hskip
    exact ⟨s', h.cons hstep rfl rfl rfl⟩
  | @semicolon data n hl =>
    rintro s hcond rfl hskip
    have hstep : step c s = .next { s with cond := .init, data := s.data.drop n } none := by
      rw [step_endOfRule hcond (next_of_longest bounded_ruleRules hl) (.inl rfl), hskip]
      rfl
    exact ⟨_, .cons hstep (.refl _), rfl, rfl, rfl, rfl, rfl⟩
  | @endOfLine nl data hnone hnl =>
    rintro s hcond hdata hskip
    have hne : s.data ≠ [] := by
      rw [hdata]
      rcases mem_newline.mp hnl with rfl | rfl <;> exact List.cons_ne_nil _ _
    have hstep : step c s = .next { s with cond := .init, data := s.data.drop 1 } none := by
      rw [step_endOfRule hcond (next_eq_other (hdata ▸ hnone) hne) (.inr rfl), hskip]
      rfl
    rcases mem_newline.mp hnl with rfl | rfl
    · refine ⟨_, .cons hstep (.refl _), rfl, ?_, rfl, rfl, rfl⟩
      show s.data.drop 1 = data
      rw [hdata]
      rfl
    · -- the carriage return ends the rule, and the line feed is read behind it
      have hdrop : s.data.drop 1 = 10 :: data := by
        rw [hdata]
        rfl
      rw [hdrop] at hstep
      have hline : step c { s with cond := .init, data := 10 :: data } =
          .next { s with cond := .init, data := data, lineno := s.lineno + 1 } none := by
        have hnext : next initRules .other (10 :: data) = some (.newline, 1) :=
          (longest_newline data).next_eq (List.cons_ne_nil _ _)
        exact step_init_of_next (s := { s with cond := .init, data := 10 :: data }) rfl hnext
      exact ⟨_, .cons hstep (.cons hline (.refl _)), rfl, rfl, rfl, rfl, rfl⟩

end Snuffleupagus.Scanner.Inert
