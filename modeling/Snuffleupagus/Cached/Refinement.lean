import Snuffleupagus.Cached.Parts

/-! # The generated scanner is the scanner

The labels of a start condition find the token that its rules find, with the same parts, so an action does the same
with them (`initAction_eq`, and so on). So one token leads to the same state (`step_eq`), and a whole scan hands out
the same statements and ends in the same way, whatever the variables for the tags hold at first. -/

namespace Snuffleupagus.Cached.Refinement

open Snuffleupagus.Lib.Lexer Snuffleupagus.Lib.Derivative
open Snuffleupagus.Lib.Backup (Machine)
open Snuffleupagus.Lib.Coded (CodedRules rulesOf)
open Snuffleupagus.Lib.Segments (TagOp Tags Plan Good)
open Snuffleupagus.Php.Bytes
open Snuffleupagus.Scanner.Token (Bounded InitRule CondRule CondOpRule RuleRule bounded_initRules bounded_condRules
  bounded_condOpRules bounded_ruleRules)
open Snuffleupagus.Scanner.Scan (Context State Outcome)
open Snuffleupagus.Scanner.Textual (setWord)
open Snuffleupagus.Cached.Machine (ByteClass Tag Passes rulesOf_coded)
open Snuffleupagus.Cached.Scan Snuffleupagus.Cached.Parts

variable {c : Context} {s : State} {w data : ZendString} {n : ℕ} {yyt : Tags Tag}

/-! ### Actions -/

theorem initAction_eq {t : InitRule} (hnext : next Scanner.Token.initRules .other data = some (t, n))
    (hgood : Good ByteClass.has Init.plan t (data.take n) yyt) :
    initAction c t (data.take n) yyt s = Scanner.Scan.initAction c t (data.take n) s := by
  have hnames (ht : t ≠ .other) := (longest_of_next hnext ht).names
  have hmessage (k k' : String) (hk : (zstr k).all (· != 34) = true) (hk' : (zstr k').all (· != 34) = true)
      (ht : t ≠ .other) (hfinal : Init.plan.final t = some [(Init.messageString, [])])
      (hunique : ∀ r, (r, t) ∈ Scanner.Token.initRules → r = Scanner.Token.message k k') :=
    messageTags_eq (List.all_eq_true.mp hk) (List.all_eq_true.mp hk') ((hnames ht).mem_of_unique hunique) hfinal hgood
  unfold initAction Scanner.Scan.initAction
  cases t with
  | set =>
    have hmem := (hnames (by decide)).mem_of_unique (r := setWord) fun r hr => by
      simpa [Scanner.Token.initRules, setWord] using hr
    dsimp only
    rw [setTags_eq hmem hgood]
    rfl
  | info =>
    have htag := hmessage "@log" "@info" rfl rfl (by decide) rfl fun r hr => by
      simpa [Scanner.Token.initRules] using hr
    dsimp only
    rw [htag]
    rfl
  | warning =>
    have htag := hmessage "@warn" "@warning" rfl rfl (by decide) rfl fun r hr => by
      simpa [Scanner.Token.initRules] using hr
    dsimp only
    rw [htag]
    rfl
  | error =>
    have htag := hmessage "@err" "@error" rfl rfl (by decide) rfl fun r hr => by
      simpa [Scanner.Token.initRules] using hr
    dsimp only
    rw [htag]
    rfl
  | _ => rfl

theorem condAction_eq {t : CondRule} (hgood : Good ByteClass.has Cond.plan t w yyt) :
    condAction c t w yyt s = Scanner.Scan.condAction c t w s := by
  unfold condAction Scanner.Scan.condAction
  cases t with
  | call =>
    dsimp only
    rw [callTags_eq hgood]
    rfl
  | keyword =>
    dsimp only
    rw [wordTags_eq rfl hgood]
    rfl
  | number =>
    dsimp only
    rw [wordTags_eq rfl hgood]
    rfl
  | _ => rfl

theorem condOpAction_eq {t : CondOpRule} (hgood : Good ByteClass.has CondOp.plan t w yyt) :
    condOpAction c t w yyt s = Scanner.Scan.condOpAction c t w s := by
  unfold condOpAction Scanner.Scan.condOpAction
  cases t with
  | operator =>
    dsimp only
    rw [wordTags_eq rfl hgood]
    rfl
  | _ => rfl

theorem ruleAction_eq {t : RuleRule} (hgood : Good ByteClass.has Rule.plan t w yyt) :
    ruleAction c t w yyt s = Scanner.Scan.ruleAction c t w s := by
  unfold ruleAction Scanner.Scan.ruleAction
  cases t with
  | newline =>
    dsimp only
    rw [newlineTag_eq hgood]
    rfl
  | keyword =>
    dsimp only
    rw [keywordTags_eq hgood]
    rfl
  | _ => rfl

/-! ### Tokens -/

/-- A token of a start condition that passes the check. -/
theorem token_eq {Q τ : Type} [DecidableEq τ] {M : Machine UInt8 Q (TagOp Tag) τ (Tags Tag)}
    {rules : CodedRules ByteClass τ} {texts : Q → List ZendString} {P : Plan Q τ ByteClass Tag}
    (h : Passes M rules texts P) {rules' : Rules UInt8 τ} {other : τ}
    (hrules : rulesOf ByteClass.den rules = rules' ++ [(.cls (ByteClass.den .any), other)]) (hbounded : Bounded rules')
    {action : τ → ZendString → Tags Tag → State → Outcome} {action' : τ → ZendString → State → Outcome}
    (haction : ∀ {t n yyt s'}, next rules' other s.data = some (t, n) →
      Good ByteClass.has P t (s.data.take n) yyt → action t (s.data.take n) yyt s' = action' t (s.data.take n) s') :
    (token M action s yyt).1 = s.token rules' other action' := by
  obtain ⟨hnext, hgood⟩ := h.scan hrules hbounded s.data yyt
  unfold token State.token
  cases hscan : M.scan s.data yyt with
  | none =>
    rw [hscan] at hnext
    rw [← hnext]
    rfl
  | some x =>
    obtain ⟨t, n, yyt'⟩ := x
    rw [hscan] at hnext
    rw [← hnext]
    exact haction hnext.symm (hgood t n yyt' hscan)

/-- **One token leads to the same state**, or to the same end. -/
theorem step_eq (s : State) (yyt : Tags Tag) : (step c s yyt).1 = Scanner.Scan.step c s := by
  obtain ⟨hinit, hcond, hcondOp, hrule⟩ := rulesOf_coded
  unfold step Scanner.Scan.step
  cases s.cond with
  | init => exact token_eq Init.passes_init hinit bounded_initRules initAction_eq
  | cond => exact token_eq Cond.passes_cond hcond bounded_condRules fun _ => condAction_eq
  | condOp => exact token_eq CondOp.passes_condOp hcondOp bounded_condOpRules fun _ => condOpAction_eq
  | rule => exact token_eq Rule.passes_rule hrule bounded_ruleRules fun _ => ruleAction_eq

/-! ### Scans -/

theorem run_eq (fuel : ℕ) (s : State) (yyt : Tags Tag) : run c fuel s yyt = Scanner.Scan.run c fuel s := by
  induction fuel generalizing s yyt with
  | zero => rfl
  | succ fuel ih =>
    unfold run Scanner.Scan.run
    rw [← step_eq s yyt]
    obtain ⟨o, yyt'⟩ := step c s yyt
    cases o with
    | stop e => rfl
    | next s' out =>
      dsimp only
      rw [ih]

/-- **The generated scanner is the scanner**: for all contents, and whatever is in the variables for the tags, it hands
out the same statements and ends in the same way. -/
theorem cached_scan (contents : ZendString) (yyt : Tags Tag) :
    spConfigScan c contents yyt = Scanner.Scan.spConfigScan c contents := run_eq _ _ yyt

end Snuffleupagus.Cached.Refinement
