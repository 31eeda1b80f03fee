import Snuffleupagus.Scanner.Scan

/-! # What an action does

Each rule of the scanner leads to another state or ends the scan (`initAction_next`, `initAction_stop`,
and so on). In a condition the stacks are those of the tokens read so far (`History`); a condition that
is accepted is an expression, and its value is all that is left (`condition_end`). -/

namespace Snuffleupagus.Scanner.Action

open Snuffleupagus.Lib.Precedence Snuffleupagus.Php.Bytes
open Snuffleupagus.Config.Keyword
open Snuffleupagus.Load.Module (Statement)
open Snuffleupagus.Scanner.Condition Snuffleupagus.Scanner.Token Snuffleupagus.Scanner.Scan

variable {c : Context} {s s' : State} {out : Option Statement} {ts : List CondToken}

/-! ### Where an action leads -/

/-- What is between statements, and the statements that are one token. -/
def plain : InitRule → Bool
  | .whitespace | .comment | .newline | .set | .endCondition | .info | .warning | .error => true
  | _ => false

/-- What a rule of `<init>` leads to. -/
inductive InitNext (c : Context) (text : ZendString) (s : State) : InitRule → State → Option Statement → Prop
  | blank {t : InitRule} (ht : t = .whitespace ∨ t = .comment) : InitNext c text s t s none
  | skipped {t : InitRule} (hskip : s.skipping = true) (ht : t = .set ∨ t = .info ∨ t = .warning ∨ t = .error) :
      InitNext c text s t s none
  | newline : InitNext c text s .newline { s with lineno := s.lineno + 1 } none
  | sp : InitNext c text s .sp { s with cond := .rule, parsedRule := [] } none
  | set (hskip : s.skipping = false) : InitNext c text s .set { s with vars := setParts text :: s.vars } none
  | condition (hactive : s.conditionActive = false) : InitNext c text s .condition
      { s with cond := .cond, conditionActive := true, sy := { s.sy with condRes := [] } } none
  | endCondition : InitNext c text s .endCondition
      { s with conditionActive := false, sy := { s.sy with condRes := [], condRes0 := 1 } } none
  | message {t : InitRule} (hskip : s.skipping = false) (ht : t = .info ∨ t = .warning) (level : Log.Level) (fmt : String)
      (args : List ZendString) : InitNext c text s t s (some (.message s.lineno level fmt args))

theorem initNext {t : InitRule} {text : ZendString} (h : initAction c t text s = .next s' out) :
    InitNext c text s t s' out := by
  unfold initAction at h
  cases t with
  | nonascii | other | endByte => cases h
  | whitespace => cases h; exact .blank (.inl rfl)
  | comment => cases h; exact .blank (.inr rfl)
  | newline => cases h; exact .newline
  | sp => cases h; exact .sp
  | endCondition => cases h; exact .endCondition
  | condition =>
    dsimp only at h
    split_ifs at h with hactive
    · cases h
    · cases h; exact .condition (Bool.eq_false_iff.mpr hactive)
  | set =>
    dsimp only at h
    split_ifs at h with hskip
    · cases h; exact .skipped hskip (.inl rfl)
    · cases h; exact .set (Bool.eq_false_iff.mpr hskip)
  | info =>
    dsimp only at h
    split_ifs at h with hskip
    · cases h; exact .skipped hskip (.inr (.inl rfl))
    · cases h; exact .message (Bool.eq_false_iff.mpr hskip) (.inl rfl) _ _ _
  | warning =>
    dsimp only at h
    split_ifs at h with hskip
    · cases h; exact .skipped hskip (.inr (.inr (.inl rfl)))
    · cases h; exact .message (Bool.eq_false_iff.mpr hskip) (.inr rfl) _ _ _
  | error =>
    dsimp only at h
    split_ifs at h with hskip
    cases h
    exact .skipped hskip (.inr (.inr (.inr rfl)))

theorem initAction_next {t : InitRule} {text : ZendString} (h : initAction c t text s = .next s' out) :
    s'.data = s.data ∧
      (plain t = true ∧ s'.cond = s.cond ∧ s'.sy.condOp = s.sy.condOp ∨
        t = .condition ∧ s'.cond = .cond ∧ s'.sy = { s.sy with condRes := [] } ∨
        t = .sp ∧ s'.cond = .rule ∧ s'.sy = s.sy) := by
  cases initNext h with
  | blank ht => rcases ht with rfl | rfl <;> exact ⟨rfl, .inl ⟨rfl, rfl, rfl⟩⟩
  | skipped _ ht => rcases ht with rfl | rfl | rfl | rfl <;> exact ⟨rfl, .inl ⟨rfl, rfl, rfl⟩⟩
  | message _ ht => rcases ht with rfl | rfl <;> exact ⟨rfl, .inl ⟨rfl, rfl, rfl⟩⟩
  | newline | set | endCondition => exact ⟨rfl, .inl ⟨rfl, rfl, rfl⟩⟩
  | condition => exact ⟨rfl, .inr (.inl ⟨rfl, rfl, rfl⟩)⟩
  | sp => exact ⟨rfl, .inr (.inr ⟨rfl, rfl, rfl⟩)⟩

/-- A token that is fed changes the stacks, and what is expected next. -/
theorem feed_eq {k : CondToken} (h : s.feed c k = .next s' out) : ∃ b sy,
    syToken k (s.cond == .condOp, s.sy) = .ok (b, sy) ∧
      s' = { s with cond := if b then .condOp else .cond, sy := sy } ∧ out = none := by
  unfold State.feed at h
  split at h
  · rename_i b sy htok
    cases h
    exact ⟨b, sy, htok, rfl, rfl⟩
  · cases h

theorem feed_next {k : CondToken} (h : s.feed c k = .next s' out) : s'.data = s.data ∧
    ∃ b, syToken k (s.cond == .condOp, s.sy) = .ok (b, s'.sy) ∧ s'.cond = if b then .condOp else .cond := by
  obtain ⟨b, sy, htok, rfl, -⟩ := feed_eq h
  exact ⟨rfl, b, htok, rfl⟩

/-- The end of a condition leaves its value. -/
theorem endCondition_eq (h : s.endCondition c = .next s' out) :
    ∃ sy, syEnd s.sy = .ok sy ∧ s' = { s with cond := .init, sy := sy } ∧ out = none := by
  unfold State.endCondition at h
  split at h
  · rename_i sy hend
    cases h
    exact ⟨sy, hend, rfl, rfl⟩
  · cases h

/-- A rule of `<cond>` is a blank, or feeds a token. -/
theorem condAction_next {t : CondRule} {text : ZendString} (h : condAction c t text s = .next s' out) :
    s'.data = s.data ∧ ((t = .whitespace ∨ t = .newline) ∧ s'.cond = s.cond ∧ s'.sy = s.sy ∨
      ∃ k, ((∃ v, k = .value v ∧ (t = .call ∨ t = .keyword ∨ t = .number)) ∨ k = .unary ∧ t = .not ∨
        k = .lparen ∧ t = .lparen) ∧ s.feed c k = .next s' out) := by
  cases t with
  | whitespace => cases h; exact ⟨rfl, Or.inl ⟨Or.inl rfl, rfl, rfl⟩⟩
  | newline => cases h; exact ⟨rfl, Or.inl ⟨Or.inr rfl, rfl, rfl⟩⟩
  | call =>
    have h : s.call c text = .next s' out := h
    unfold State.call at h
    dsimp only at h
    split_ifs at h
    · exact ⟨(feed_next h).1, Or.inr ⟨_, Or.inl ⟨_, rfl, Or.inl rfl⟩, h⟩⟩
    · cases h
  | keyword =>
    have h : s.variableValue c text = .next s' out := h
    unfold State.variableValue at h
    split at h
    · exact ⟨(feed_next h).1, Or.inr ⟨_, Or.inl ⟨_, rfl, Or.inr (Or.inl rfl)⟩, h⟩⟩
    · cases h
  | number => exact ⟨(feed_next h).1, Or.inr ⟨_, Or.inl ⟨_, rfl, Or.inr (Or.inr rfl)⟩, h⟩⟩
  | not => exact ⟨(feed_next h).1, Or.inr ⟨_, Or.inr (Or.inl ⟨rfl, rfl⟩), h⟩⟩
  | lparen => exact ⟨(feed_next h).1, Or.inr ⟨_, Or.inr (Or.inr ⟨rfl, rfl⟩), h⟩⟩
  | other => cases h

/-- A rule of `<cond_op>` is a blank, feeds a token, or ends the condition. -/
theorem condOpAction_next {t : CondOpRule} {text : ZendString} (h : condOpAction c t text s = .next s' out) :
    s'.data = s.data ∧ ((t = .whitespace ∨ t = .newline) ∧ s'.cond = s.cond ∧ s'.sy = s.sy ∨
      (∃ k, (k = .binary (binOp text) ∧ t = .operator ∨ k = .rparen ∧ t = .rparen) ∧
        s.feed c k = .next s' out) ∨
      t = .semicolon ∧ syEnd s.sy = .ok s'.sy ∧ s'.cond = .init) := by
  cases t with
  | whitespace => cases h; exact ⟨rfl, Or.inl ⟨Or.inl rfl, rfl, rfl⟩⟩
  | newline => cases h; exact ⟨rfl, Or.inl ⟨Or.inr rfl, rfl, rfl⟩⟩
  | operator => exact ⟨(feed_next h).1, Or.inr (Or.inl ⟨_, Or.inl ⟨rfl, rfl⟩, h⟩)⟩
  | rparen => exact ⟨(feed_next h).1, Or.inr (Or.inl ⟨_, Or.inr ⟨rfl, rfl⟩, h⟩)⟩
  | semicolon =>
    obtain ⟨sy, hend, rfl, -⟩ := endCondition_eq h
    exact ⟨rfl, Or.inr (Or.inr ⟨rfl, hend, rfl⟩)⟩
  | other => cases h

/-- What a rule of `<rule>` leads to. -/
inductive RuleNext (c : Context) (text : ZendString) (s : State) : RuleRule → State → Option Statement → Prop
  | whitespace : RuleNext c text s .whitespace s none
  | newline : RuleNext c text s .newline
      { s with lineno := s.lineno + 1, data := text.drop (newlineLength text) ++ s.data } none
  | skipped (hskip : s.skipping = true) : RuleNext c text s .keyword s none
  | keyword {kw : SpParsedKeyword} (hskip : s.skipping = false) (hroom : s.parsedRule.length ≠ maxKeywords)
      (hkw : parseKeyword c s text = .ok kw) :
      RuleNext c text s .keyword { s with parsedRule := s.parsedRule ++ [kw] } none
  | ends {t : RuleRule} (ht : t = .semicolon ∨ t = .other) : RuleNext c text s t { s with cond := .init }
      (if s.skipping then none else some (.rule s.parsedRule))

theorem endOfRule_eq (s : State) : s.endOfRule =
    .next { s with cond := .init } (if s.skipping then none else some (.rule s.parsedRule)) := by
  unfold State.endOfRule
  split_ifs <;> rfl

theorem ruleNext {t : RuleRule} {text : ZendString} (h : ruleAction c t text s = .next s' out) :
    RuleNext c text s t s' out := by
  cases t with
  | whitespace => cases h; exact .whitespace
  | newline => cases h; exact .newline
  | nonascii => cases h
  | semicolon =>
    cases (endOfRule_eq s).symm.trans h
    exact .ends (.inl rfl)
  | other =>
    cases (endOfRule_eq s).symm.trans h
    exact .ends (.inr rfl)
  | keyword =>
    have h : s.keyword c text = .next s' out := h
    unfold State.keyword at h
    split_ifs at h with hskip hroom
    · cases h; exact .skipped hskip
    · cases h
    · split at h
      · rename_i kw hkw
        cases h
        exact .keyword (Bool.eq_false_iff.mpr hskip) hroom hkw
      · cases h

/-- A rule of `<rule>` goes on with the rule, or ends it. -/
theorem ruleAction_next {t : RuleRule} {text : ZendString} (h : ruleAction c t text s = .next s' out) :
    s'.sy = s.sy ∧
      ((t = .whitespace ∨ t = .keyword) ∧ s'.cond = s.cond ∧ s'.data = s.data ∨
        t = .newline ∧ s'.cond = s.cond ∧ s'.data = text.drop (newlineLength text) ++ s.data ∨
        (t = .semicolon ∨ t = .other) ∧ s'.cond = .init ∧ s'.data = s.data) := by
  cases ruleNext h with
  | whitespace => exact ⟨rfl, Or.inl ⟨Or.inl rfl, rfl, rfl⟩⟩
  | skipped | keyword => exact ⟨rfl, Or.inl ⟨Or.inr rfl, rfl, rfl⟩⟩
  | newline => exact ⟨rfl, Or.inr (Or.inl ⟨rfl, rfl, rfl⟩)⟩
  | ends ht => exact ⟨rfl, Or.inr (Or.inr ⟨ht, rfl, rfl⟩)⟩

/-! ### What an action leaves alone -/

/-- In a condition nothing is handed out, and neither the variables nor the flag change. -/
structure Quiet (s s' : State) (out : Option Statement) : Prop where
  out : out = none
  vars : s'.vars = s.vars
  active : s'.conditionActive = s.conditionActive

theorem feed_quiet {k : CondToken} (h : s.feed c k = .next s' out) : Quiet s s' out := by
  obtain ⟨b, sy, -, rfl, rfl⟩ := feed_eq h
  exact ⟨rfl, rfl, rfl⟩

theorem condAction_quiet {t : CondRule} {text : ZendString} (h : condAction c t text s = .next s' out) :
    Quiet s s' out := by
  obtain ⟨-, ⟨ht, -⟩ | ⟨k, -, hfeed⟩⟩ := condAction_next h
  · rcases ht with rfl | rfl <;> cases h <;> exact ⟨rfl, rfl, rfl⟩
  · exact feed_quiet hfeed

theorem condOpAction_quiet {t : CondOpRule} {text : ZendString} (h : condOpAction c t text s = .next s' out) :
    Quiet s s' out := by
  obtain ⟨-, ⟨ht, -⟩ | ⟨k, -, hfeed⟩ | ⟨rfl, -⟩⟩ := condOpAction_next h
  · rcases ht with rfl | rfl <;> cases h <;> exact ⟨rfl, rfl, rfl⟩
  · exact feed_quiet hfeed
  · obtain ⟨sy, -, rfl, rfl⟩ := endCondition_eq h
    exact ⟨rfl, rfl, rfl⟩

/-- An error of the line the scanner is on, which is also in its text. -/
def Fails (s : State) (e : End) : Prop := ∃ err, e = .failure s.lineno err ∧ decimal s.lineno ∈ err.args

theorem Fails.answer {e : End} (h : Fails s e) : e.answer = .failure := by
  obtain ⟨err, rfl, -⟩ := h
  rfl

theorem fail_stop {fmt : String} {args : List ZendString} {e : End} (h : s.fail c fmt args = .stop e) : Fails s e := by
  cases h
  exact ⟨_, rfl, by simp⟩

theorem feed_stop {t : CondToken} {e : End} (h : s.feed c t = .stop e) : Fails s e := by
  unfold State.feed at h
  split at h
  · cases h
  · exact fail_stop h

/-- Only the NUL of `<init>` is a success. -/
theorem initAction_stop {t : InitRule} {text : ZendString} {e : End} (h : initAction c t text s = .stop e) :
    Fails s e ∨ t = .endByte ∧ e = .success := by
  unfold initAction at h
  cases t with
  | endByte => cases h; exact .inr ⟨rfl, rfl⟩
  | nonascii | other => exact .inl (fail_stop h)
  | condition =>
    dsimp only at h
    split_ifs at h
    exact .inl (fail_stop h)
  | error =>
    dsimp only at h
    split_ifs at h
    cases h
    exact .inl ⟨_, rfl, by simp⟩
  | whitespace | comment | newline | sp | endCondition => cases h
  | set | info | warning => dsimp only at h; split_ifs at h

theorem condAction_stop {t : CondRule} {text : ZendString} {e : End} (h : condAction c t text s = .stop e) :
    Fails s e := by
  cases t with
  | call =>
    have h : s.call c text = .stop e := h
    unfold State.call at h
    dsimp only at h
    split_ifs at h
    · exact feed_stop h
    · exact fail_stop h
  | keyword =>
    have h : s.variableValue c text = .stop e := h
    unfold State.variableValue at h
    split at h
    · exact feed_stop h
    · exact fail_stop h
  | number | not | lparen => exact feed_stop h
  | whitespace | newline => cases h
  | other => exact fail_stop h

theorem condOpAction_stop {t : CondOpRule} {text : ZendString} {e : End}
    (h : condOpAction c t text s = .stop e) : Fails s e := by
  cases t with
  | operator | rparen => exact feed_stop h
  | semicolon =>
    have h : s.endCondition c = .stop e := h
    unfold State.endCondition at h
    split at h
    · cases h
    · exact fail_stop h
  | whitespace | newline => cases h
  | other => exact fail_stop h

theorem ruleAction_stop {t : RuleRule} {text : ZendString} {e : End} (h : ruleAction c t text s = .stop e) :
    Fails s e := by
  cases t with
  | keyword =>
    have h : s.keyword c text = .stop e := h
    unfold State.keyword at h
    split_ifs at h
    · exact fail_stop h
    · split at h
      · cases h
      · exact fail_stop h
  | semicolon | other =>
    have h : s.endOfRule = .stop e := h
    rw [endOfRule_eq] at h
    cases h
  | whitespace | newline => cases h
  | nonascii => exact fail_stop h

/-! ### The tokens of a condition -/

/-- The stacks are those of the tokens `ts` in a condition, and no operator is left outside. -/
def History (s : State) (ts : List CondToken) : Prop :=
  match s.cond with
  | .init | .rule => s.sy.condOp = []
  | .cond => ∃ v, syTokens ts (false, { condRes0 := v }) = .ok (false, s.sy)
  | .condOp => ∃ v, syTokens ts (false, { condRes0 := v }) = .ok (true, s.sy)

theorem history_outside (hcond : s.cond = .init ∨ s.cond = .rule) : History s ts ↔ s.sy.condOp = [] := by
  unfold History
  rcases hcond with hcond | hcond <;> rw [hcond]

theorem history_cond (hcond : s.cond = .cond) :
    History s ts ↔ ∃ v, syTokens ts (false, { condRes0 := v }) = .ok (false, s.sy) := by
  unfold History
  rw [hcond]

theorem history_condOp (hcond : s.cond = .condOp) :
    History s ts ↔ ∃ v, syTokens ts (false, { condRes0 := v }) = .ok (true, s.sy) := by
  unfold History
  rw [hcond]

/-- A condition that is accepted is an expression, and its value is all that is left. -/
theorem condition_end {v : ℤ} {sy sy' : SyState} (h : syTokens ts (false, { condRes0 := v }) = .ok (true, sy))
    (hend : syEnd sy = .ok sy') : ∃ e, Parses operators 0 ts e ∧
      sy' = { condRes := [e.value operators], condRes0 := e.value operators } := by
  have heval : evalCondition v ts = .ok sy' := by
    unfold evalCondition
    rw [h]
    exact hend
  rcases evalCondition_sound v ts with ⟨s₁, e, -, hparse, -⟩ | ⟨e, he, -⟩
  · refine ⟨e, hparse, ?_⟩
    rcases evalCondition_complete v hparse with he | he
    · rw [heval] at he
      cases he
    · rw [heval] at he
      cases he
      rfl
  · rw [heval] at he
    cases he

/-- A token that is fed is behind the others. -/
theorem history_feed {k : CondToken} {b b' : Bool} {v : ℤ} {sy : SyState}
    (h : syTokens ts (false, { condRes0 := v }) = .ok (b, sy)) (htok : syToken k (b, sy) = .ok (b', s'.sy))
    (hcond : s'.cond = if b' then .condOp else .cond) : History s' (ts ++ [k]) := by
  have hall : syTokens (ts ++ [k]) (false, { condRes0 := v }) = .ok (b', s'.sy) := by
    rw [syTokens_append, h]
    show syTokens [k] (b, sy) = _
    unfold syTokens
    rw [htok]
    rfl
  cases b' with
  | false => exact (history_cond hcond).mpr ⟨v, hall⟩
  | true => exact (history_condOp hcond).mpr ⟨v, hall⟩

theorem flag_of_map {b d : Bool} {r : Except SyError SyState} {sy : SyState}
    (h : r.map (fun s => (d, s)) = .ok (b, sy)) : b = d := by
  cases r with
  | error e => cases h
  | ok s => cases h; rfl

/-- An operator is expected behind an operand. -/
def operatorBehind : CondToken → Bool
  | .value _ | .rparen => true
  | .unary | .lparen | .binary _ => false

theorem flag_of_syToken {k : CondToken} {b b' : Bool} {sy sy' : SyState}
    (h : syToken k (b, sy) = .ok (b', sy')) : b' = operatorBehind k := by
  unfold syToken at h
  split at h
  case h_6 => cases h
  all_goals exact flag_of_map h

end Snuffleupagus.Scanner.Action
