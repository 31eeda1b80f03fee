import Snuffleupagus.Scanner.Action

/-! # The scanner in its input

A token never runs over the NUL that ends the input, except where the scanner is behind that NUL
already: the rule `*` of `<rule>` takes it for the end of a rule, and `<init>` then reads on.
`scan_in_range_iff` says that this is the only way.

`Steps` are the tokens that do not end the scan, with the statements they give. -/

namespace Snuffleupagus.Scanner.Run

open Snuffleupagus.Lib.Lexer Snuffleupagus.Lib.Derivative Snuffleupagus.Php.Bytes
open Snuffleupagus.Config.Keyword
open Snuffleupagus.Load.Module (Statement)
open Snuffleupagus.Scanner.Condition Snuffleupagus.Scanner.Token Snuffleupagus.Scanner.Scan
open Snuffleupagus.Scanner.Action

variable {c : Context} {s s' s₁ : State} {out : Option Statement}

/-! ### Tokens and the end of the input -/

section Tokens
variable {τ : Type} {rules : Rules UInt8 τ} {other t : τ} {n : ℕ} {data : ZendString}

/-- A token has a byte, and none behind the end. -/
theorem next_bounds (hb : Bounded rules) (h : next rules other data = some (t, n)) :
    0 < n ∧ n ≤ data.length := by
  rcases next_eq_some h with hl | ⟨-, rfl, hne, -⟩
  · refine ⟨Nat.pos_of_ne_zero fun hn => ?_, hl.le⟩
    obtain ⟨r, hr, hw⟩ := hl.names.word
    rw [hn, List.take_zero] at hw
    exact absurd (Regex.nullable_iff.mpr hw) (by rw [(hb r hr).1]; exact Bool.false_ne_true)
  · exact ⟨Nat.one_pos, List.length_pos_iff.mpr hne⟩

variable (other) in
/-- Where a NUL ends the input, there is a token, and it ends in front of the NUL unless it is the
NUL. -/
theorem next_of_nul (hb : Bounded rules) (h0 : ∃ x, data = x ++ [0]) :
    ∃ t n, next rules other data = some (t, n) ∧ (n = data.length → data = [0]) := by
  obtain ⟨x, rfl⟩ := h0
  have hmem : (0 : UInt8) ∈ x ++ [0] := List.mem_append_right _ (List.mem_singleton_self 0)
  have hne : next rules other (x ++ [0]) ≠ none := by
    intro hnone
    rcases next_eq_none.mp hnone with hnil | ⟨y, hy, r, hr, hw⟩
    · exact List.append_ne_nil_of_right_ne_nil x (List.cons_ne_nil 0 []) hnil
    · have hw := (hb r hr).2 _ hw (List.mem_append_left y hmem)
      have hlen := congrArg List.length hw
      have hpos := List.length_pos_iff.mpr hy
      simp only [List.length_append, List.length_singleton] at hlen
      omega
  obtain ⟨⟨t, n⟩, hsome⟩ := Option.ne_none_iff_exists'.mp hne
  refine ⟨t, n, hsome, fun hn => ?_⟩
  rcases next_eq_some hsome with hl | ⟨-, rfl, -, -⟩
  · obtain ⟨r, hr, hw⟩ := hl.names.word
    rw [hn, List.take_length] at hw
    exact (hb r hr).2 _ hw hmem
  · rw [List.length_append, List.length_singleton] at hn
    rw [List.length_eq_zero_iff.mp (show x.length = 0 by omega), List.nil_append]

end Tokens

theorem mem_newline {w : ZendString} : w ∈ newline.language ↔ w = [10] ∨ w = [13, 10] := by
  unfold newline
  rw [Regex.mem_seq]
  constructor
  · rintro ⟨u, hu, v, hv, rfl⟩
    rw [mem_byte.mp hv]
    rcases Regex.mem_opt.mp hu with hu | rfl
    · exact Or.inr (by rw [mem_byte.mp hu]; rfl)
    · exact Or.inl rfl
  · rintro (rfl | rfl)
    · exact ⟨[], Regex.mem_opt.mpr (Or.inr rfl), [10], mem_byte.mpr rfl, rfl⟩
    · exact ⟨[13], Regex.mem_opt.mpr (Or.inl (mem_byte.mpr rfl)), [10], mem_byte.mpr rfl, rfl⟩

/-- The text of a newline of a rule, up to the dot in front of the next keyword. -/
theorem newline_text {data : ZendString} {n : ℕ} (h : Longest ruleRules data .newline n) :
    ∃ nl ∈ newline.language, ∃ Y ∈ (Regex.star (.alt newline whitespace)).language,
      data.take n = nl ++ (Y ++ [46]) ∧ newlineLength (data.take n) = nl.length := by
  have hw := h.names.mem_of_unique (r := seqs [newline, .star (.alt newline whitespace), byte 46]) fun r hr => by
    simpa [ruleRules] using hr
  obtain ⟨nl, hnl, v, hv, hnlv⟩ := mem_seqs.mp hw
  obtain ⟨Y, hY, d, hd, rfl⟩ := mem_seqs.mp hv
  obtain rfl : d = [46] := mem_byte.mp hd
  refine ⟨nl, hnl, Y, hY, hnlv.symm, ?_⟩
  rw [← hnlv]
  rcases mem_newline.mp hnl with rfl | rfl <;> rfl

/-- A newline of a rule, in front of its context. -/
theorem newline_token {data : ZendString} {n : ℕ}
    (h : next ruleRules .other data = some (.newline, n)) :
    0 < newlineLength (data.take n) ∧ newlineLength (data.take n) < n ∧ n ≤ data.length := by
  rcases next_eq_some h with hl | ⟨h, -⟩
  · obtain ⟨nl, hnl, Y, -, htext, hlen⟩ := newline_text hl
    have hpos : 0 < nl.length := by rcases mem_newline.mp hnl with rfl | rfl <;> exact Nat.succ_pos _
    have hn := congrArg List.length htext
    rw [List.length_take, Nat.min_eq_left hl.le, List.length_append, List.length_append, List.length_singleton] at hn
    rw [hlen]
    exact ⟨hpos, by omega, hl.le⟩
  · cases h

theorem token_next {τ : Type} {rules : Rules UInt8 τ} {other : τ} {action : τ → ZendString → State → Outcome}
    (h : s.token rules other action = .next s' out) :
    ∃ t n, next rules other s.data = some (t, n) ∧
      action t (s.data.take n) { s with data := s.data.drop n } = .next s' out := by
  unfold State.token at h
  split at h
  · cases h
  · exact ⟨_, _, by assumption, h⟩

theorem token_of_next {τ : Type} {rules : Rules UInt8 τ} {other : τ}
    {action : τ → ZendString → State → Outcome} {t : τ} {n : ℕ} (h : next rules other s.data = some (t, n)) :
    s.token rules other action = action t (s.data.take n) { s with data := s.data.drop n } := by
  unfold State.token
  rw [h]

theorem step_of_init (hcond : s.cond = .init) : step c s = s.token initRules .other (initAction c) := by
  unfold step
  rw [hcond]

theorem step_of_cond (hcond : s.cond = .cond) : step c s = s.token condRules .other (condAction c) := by
  unfold step
  rw [hcond]

theorem step_of_condOp (hcond : s.cond = .condOp) :
    step c s = s.token condOpRules .other (condOpAction c) := by
  unfold step
  rw [hcond]

theorem step_of_rule (hcond : s.cond = .rule) : step c s = s.token ruleRules .other (ruleAction c) := by
  unfold step
  rw [hcond]

theorem step_init_of_next {t : InitRule} {n : ℕ} (hcond : s.cond = .init)
    (h : next initRules .other s.data = some (t, n)) :
    step c s = initAction c t (s.data.take n) { s with data := s.data.drop n } :=
  (step_of_init hcond).trans (token_of_next h)

theorem step_rule_of_next {t : RuleRule} {n : ℕ} (hcond : s.cond = .rule)
    (h : next ruleRules .other s.data = some (t, n)) :
    step c s = ruleAction c t (s.data.take n) { s with data := s.data.drop n } :=
  (step_of_rule hcond).trans (token_of_next h)

/-- A keyword is put behind those of the rule. -/
theorem step_keyword {n : ℕ} {kw : SpParsedKeyword} (hcond : s.cond = .rule)
    (h : next ruleRules .other s.data = some (.keyword, n)) (hskip : s.skipping = false)
    (hroom : s.parsedRule.length ≠ maxKeywords) (hparses : parseKeyword c s (s.data.take n) = .ok kw) :
    step c s = .next { s with data := s.data.drop n, parsedRule := s.parsedRule ++ [kw] } none := by
  have hparses' : parseKeyword c { s with data := s.data.drop n } (s.data.take n) = .ok kw := hparses
  have hskip' : State.skipping { s with data := s.data.drop n } = false := hskip
  rw [step_rule_of_next hcond h]
  show State.keyword c _ { s with data := s.data.drop n } = _
  unfold State.keyword
  rw [hskip', if_neg Bool.false_ne_true, if_neg hroom, hparses']

/-- The end of a rule. -/
theorem step_endOfRule {t : RuleRule} {n : ℕ} (hcond : s.cond = .rule)
    (h : next ruleRules .other s.data = some (t, n)) (ht : t = .semicolon ∨ t = .other) :
    step c s = .next { s with cond := .init, data := s.data.drop n }
      (if s.skipping then none else some (.rule s.parsedRule)) := by
  rw [step_rule_of_next hcond h]
  rcases ht with rfl | rfl <;> exact endOfRule_eq { s with data := s.data.drop n }

/-! A step that goes on has taken a token, by the table of its condition. -/

theorem init_token (hcond : s.cond = .init) (h : step c s = .next s' out) :
    ∃ t n, next initRules .other s.data = some (t, n) ∧
      initAction c t (s.data.take n) { s with data := s.data.drop n } = .next s' out :=
  token_next ((step_of_init hcond).symm.trans h)

theorem cond_token (hcond : s.cond = .cond) (h : step c s = .next s' out) :
    ∃ t n, next condRules .other s.data = some (t, n) ∧
      condAction c t (s.data.take n) { s with data := s.data.drop n } = .next s' out :=
  token_next ((step_of_cond hcond).symm.trans h)

theorem condOp_token (hcond : s.cond = .condOp) (h : step c s = .next s' out) :
    ∃ t n, next condOpRules .other s.data = some (t, n) ∧
      condOpAction c t (s.data.take n) { s with data := s.data.drop n } = .next s' out :=
  token_next ((step_of_condOp hcond).symm.trans h)

theorem rule_token (hcond : s.cond = .rule) (h : step c s = .next s' out) :
    ∃ t n, next ruleRules .other s.data = some (t, n) ∧
      ruleAction c t (s.data.take n) { s with data := s.data.drop n } = .next s' out :=
  token_next ((step_of_rule hcond).symm.trans h)

theorem longest_ne_nil {τ : Type} {rules : Rules UInt8 τ} {t : τ} {n : ℕ} {data : ZendString}
    (hb : Bounded rules) (h : Longest rules data t n) : data ≠ [] := by
  rintro rfl
  obtain ⟨r, hr, hw⟩ := h.names.word
  rw [List.take_nil] at hw
  exact absurd (Regex.nullable_iff.mpr hw) (by rw [(hb r hr).1]; exact Bool.false_ne_true)

theorem next_of_longest {τ : Type} {rules : Rules UInt8 τ} {t other : τ} {n : ℕ} {data : ZendString}
    (hb : Bounded rules) (h : Longest rules data t n) : next rules other data = some (t, n) :=
  h.next_eq (longest_ne_nil hb h)

/-- **A token that does not end the scan takes some bytes**, all of them only if the rest is a NUL that
ends a rule. -/
theorem step_next (h : step c s = .next s' out) :
    ∃ m, 0 < m ∧ m ≤ s.data.length ∧ s'.data = s.data.drop m ∧
      ((∃ x, s.data = x ++ [0]) → m = s.data.length → s.cond = .rule ∧ s.data = [0]) := by
  have hnul : ∀ {τ : Type} {rules : Rules UInt8 τ} {other t : τ} {n : ℕ}, Bounded rules →
      next rules other s.data = some (t, n) → (∃ x, s.data = x ++ [0]) → n = s.data.length → s.data = [0] := by
    intro τ rules other t n hb hsome h0 hn
    obtain ⟨t', n', hsome', hlast⟩ := next_of_nul other hb h0
    rw [hsome] at hsome'
    cases hsome'
    exact hlast hn
  cases hcond : s.cond with
  | init =>
    obtain ⟨t, n, hsome, hact⟩ := init_token hcond h
    obtain ⟨hpos, hle⟩ := next_bounds bounded_initRules hsome
    refine ⟨n, hpos, hle, (initAction_next hact).1, fun h0 hn => ?_⟩
    have hz := hnul bounded_initRules hsome h0 hn
    have ht : next initRules .other [0] = some (.endByte, 1) := rfl
    rw [hz, ht] at hsome
    cases hsome
    cases hact
  | cond =>
    obtain ⟨t, n, hsome, hact⟩ := cond_token hcond h
    obtain ⟨hpos, hle⟩ := next_bounds bounded_condRules hsome
    refine ⟨n, hpos, hle, (condAction_next hact).1, fun h0 hn => ?_⟩
    have hz := hnul bounded_condRules hsome h0 hn
    have ht : next condRules .other [0] = some (.other, 1) := rfl
    rw [hz, ht] at hsome
    cases hsome
    cases hact
  | condOp =>
    obtain ⟨t, n, hsome, hact⟩ := condOp_token hcond h
    obtain ⟨hpos, hle⟩ := next_bounds bounded_condOpRules hsome
    refine ⟨n, hpos, hle, (condOpAction_next hact).1, fun h0 hn => ?_⟩
    have hz := hnul bounded_condOpRules hsome h0 hn
    have ht : next condOpRules .other [0] = some (.other, 1) := rfl
    rw [hz, ht] at hsome
    cases hsome
    cases hact
  | rule =>
    obtain ⟨t, n, hsome, hact⟩ := rule_token hcond h
    obtain ⟨hpos, hle⟩ := next_bounds bounded_ruleRules hsome
    have hlast := fun h0 hn => (⟨rfl, hnul bounded_ruleRules hsome h0 hn⟩ : Cond.rule = .rule ∧ s.data = [0])
    obtain ⟨-, ⟨-, -, hdata⟩ | ⟨rfl, -, hdata⟩ | ⟨-, -, hdata⟩⟩ := ruleAction_next hact
    · exact ⟨n, hpos, hle, hdata, hlast⟩
    · obtain ⟨hk, hkn, hle⟩ := newline_token hsome
      refine ⟨newlineLength (s.data.take n), hk, by omega, ?_, fun _ hn => by omega⟩
      rw [hdata]
      show (s.data.take n).drop _ ++ s.data.drop n = _
      rw [← List.drop_append_of_le_length (by rw [List.length_take]; omega), List.take_append_drop]
    · exact ⟨n, hpos, hle, hdata, hlast⟩

/-- A rule that is not skipped goes on, or is handed out. -/
theorem step_in_rule (hcond : s.cond = .rule) (hskip : s.skipping = false) (h : step c s = .next s' out) :
    out = some (.rule s.parsedRule) ∨
      out = none ∧ s'.cond = .rule ∧ s'.skipping = false ∧ s.parsedRule <+: s'.parsedRule := by
  obtain ⟨t, n, -, hact⟩ := rule_token hcond h
  cases ruleNext hact with
  | whitespace | newline | skipped => exact Or.inr ⟨rfl, hcond, hskip, List.prefix_rfl⟩
  | keyword => exact Or.inr ⟨rfl, hcond, hskip, List.prefix_append _ _⟩
  | ends =>
    have hactive : State.skipping { s with data := s.data.drop n } = false := hskip
    exact Or.inl (by rw [hactive]; rfl)

/-! ### Runs -/

/-- Some tokens, with the statements they give. -/
inductive Steps (c : Context) : State → List Statement → State → Prop
  | refl (s : State) : Steps c s [] s
  | cons {s s₁ s' : State} {out : Option Statement} {l : List Statement} (h : step c s = .next s₁ out)
      (hrest : Steps c s₁ l s') : Steps c s (out.toList ++ l) s'

theorem run_of_le : ∀ {n m : ℕ} {s : State}, s.data.length < n → n ≤ m → run c n s = run c m s
  | 0, _, _, h, _ => absurd h (Nat.not_lt_zero _)
  | n + 1, m + 1, s, h, hle => by
    unfold run
    cases hstep : step c s with
    | stop e => rfl
    | next s' out =>
      obtain ⟨k, hk, hkle, hdata, -⟩ := step_next hstep
      have hlen : s'.data.length < n := by
        rw [hdata, List.length_drop]
        omega
      dsimp only
      rw [run_of_le hlen (Nat.le_of_succ_le_succ hle)]

/-- **The scan, one token after the other.** -/
theorem runFrom_eq (s : State) : runFrom c s =
    match step c s with
    | .stop e => ([], e)
    | .next s' out => (out.toList ++ (runFrom c s').1, (runFrom c s').2) := by
  rw [runFrom, run]
  cases hstep : step c s with
  | stop e => rfl
  | next s' out =>
    obtain ⟨k, hk, hkle, hdata, -⟩ := step_next hstep
    have hlen : s'.data.length + 1 ≤ s.data.length := by
      rw [hdata, List.length_drop]
      omega
    dsimp only
    rw [runFrom, run_of_le (Nat.lt_succ_self _) hlen]

theorem runFrom_of_steps {l : List Statement} (h : Steps c s l s') :
    runFrom c s = (l ++ (runFrom c s').1, (runFrom c s').2) := by
  induction h with
  | refl s => rfl
  | cons h _ ih =>
    rw [runFrom_eq, h]
    dsimp only
    rw [ih, List.append_assoc]

theorem Steps.trans {l l' : List Statement} {s₂ : State} (h : Steps c s l s₁) (h' : Steps c s₁ l' s₂) :
    Steps c s (l ++ l') s₂ := by
  induction h with
  | refl s => exact h'
  | cons h _ ih =>
    rw [List.append_assoc]
    exact .cons h (ih h')

/-- Every scan is some tokens, and one that ends it. -/
theorem exists_steps (s : State) :
    ∃ l s' e, Steps c s l s' ∧ step c s' = .stop e ∧ runFrom c s = (l, e) := by
  induction hn : s.data.length using Nat.strong_induction_on generalizing s with
  | _ n ih =>
    cases hstep : step c s with
    | stop e => exact ⟨[], s, e, .refl s, hstep, by rw [runFrom_eq, hstep]⟩
    | next s₁ out =>
      obtain ⟨k, hk, hkle, hdata, -⟩ := step_next hstep
      have hlen : s₁.data.length < n := by
        rw [hdata, List.length_drop]
        omega
      obtain ⟨l, s', e, hsteps, hstop, hrun⟩ := ih _ hlen s₁ rfl
      refine ⟨out.toList ++ l, s', e, .cons hstep hsteps, hstop, ?_⟩
      rw [runFrom_eq, hstep]
      dsimp only
      rw [hrun]

/-! ### Overruns -/

/-- In front of the NUL no token runs over the end. -/
theorem step_ne_overrun (h0 : ∃ x, s.data = x ++ [0]) : step c s ≠ .stop .overrun := by
  have htoken : ∀ {τ : Type} {rules : Rules UInt8 τ} {other : τ} {action : τ → ZendString → State → Outcome},
      Bounded rules → (∀ t text s, action t text s ≠ .stop .overrun) →
        s.token rules other action ≠ .stop .overrun := by
    intro τ rules other action hb hact
    obtain ⟨t, n, hsome, -⟩ := next_of_nul other hb h0
    unfold State.token
    rw [hsome]
    exact hact _ _ _
  unfold step
  cases s.cond with
  | init =>
    refine htoken bounded_initRules fun _ _ _ h => ?_
    rcases initAction_stop h with h | ⟨-, h⟩
    · cases h.answer
    · cases h
  | cond => exact htoken bounded_condRules fun _ _ _ h => nomatch (condAction_stop h).answer
  | condOp => exact htoken bounded_condOpRules fun _ _ _ h => nomatch (condOpAction_stop h).answer
  | rule => exact htoken bounded_ruleRules fun _ _ _ h => nomatch (ruleAction_stop h).answer

/-- The scanner takes the NUL for the end of a rule. -/
def AtNul (s : State) : Prop := s.cond = .rule ∧ s.data = [0]

/-- A token in front of the NUL ends in front of it, or is the NUL that ends a rule. -/
theorem step_in_range (h0 : ∃ x, s.data = x ++ [0]) (h : step c s = .next s' out) :
    (∃ x, s'.data = x ++ [0]) ∨ AtNul s := by
  obtain ⟨m, -, hle, hdata, hlast⟩ := step_next h
  by_cases hm : m = s.data.length
  · exact Or.inr (hlast h0 hm)
  · obtain ⟨x, hx⟩ := h0
    refine Or.inl ⟨x.drop m, ?_⟩
    rw [hx, List.length_append, List.length_singleton] at hm hle
    rw [hdata, hx, List.drop_append_of_le_length (by omega)]

/-- The NUL that ends a rule is followed by an attempt to read on. -/
theorem overrun_of_atNul (h : AtNul s) : (runFrom c s).2 = .overrun := by
  obtain ⟨hcond, hdata⟩ := h
  have ht : next ruleRules .other [0] = some (.other, 1) := rfl
  have hstep : step c s = State.endOfRule { s with data := [] } := by
    unfold step State.token
    rw [hcond]
    dsimp only
    rw [hdata, ht]
    rfl
  rw [endOfRule_eq] at hstep
  have hstop : step c { s with data := [], cond := .init } = .stop .overrun := rfl
  rw [runFrom_eq, hstep]
  dsimp only
  rw [runFrom_eq, hstop]

theorem steps_in_range {l : List Statement} (h : Steps c s l s') (h0 : ∃ x, s.data = x ++ [0]) :
    (∃ x, s'.data = x ++ [0]) ∨ ∃ l₁ s₁, Steps c s l₁ s₁ ∧ AtNul s₁ := by
  induction h with
  | refl s => exact Or.inl h0
  | cons h _ ih =>
    rcases step_in_range h0 h with hx | hnul
    · refine (ih hx).imp_right ?_
      rintro ⟨l₁, s₂, hsteps, hnul⟩
      exact ⟨_, s₂, .cons h hsteps, hnul⟩
    · exact Or.inr ⟨[], _, .refl _, hnul⟩

theorem end_eq_overrun_iff (contents : ZendString) : (spConfigScan c contents).2 = .overrun ↔
    ∃ l s, Steps c (start c (contents ++ [0])) l s ∧ AtNul s := by
  unfold spConfigScan
  constructor
  · intro h
    obtain ⟨l, s, e, hsteps, hstop, hrun⟩ := exists_steps (c := c) (start c (contents ++ [0]))
    rw [hrun] at h
    have h : e = .overrun := h
    rw [h] at hstop
    rcases steps_in_range hsteps ⟨contents, rfl⟩ with hx | hnul
    · exact absurd hstop (step_ne_overrun hx)
    · exact hnul
  · rintro ⟨l, s, hsteps, hnul⟩
    rw [runFrom_of_steps hsteps]
    exact overrun_of_atNul hnul

/-! ### With the rules handed out -/

section Answer
variable {σ : Type} (processRule : List SpParsedKeyword → σ → Option σ)

/-- All rules are accepted, and lead to a state. -/
def accepts : List Statement → σ → Option σ
  | [], g => some g
  | .rule parsedRule :: l, g => (processRule parsedRule g).bind (accepts l)
  | .message .. :: l, g => accepts l g

theorem answer_eq_success (e : End) : ∀ (l : List Statement) (g : σ),
    answer processRule e l g = .success ↔ e = .success ∧ accepts processRule l g ≠ none
  | [], g => by
    cases e with
    | success => exact iff_of_true rfl ⟨rfl, nofun⟩
    | failure => exact iff_of_false nofun fun h => nomatch h.1
    | overrun => exact iff_of_false nofun fun h => nomatch h.1
  | .rule parsedRule :: l, g => by
    unfold answer accepts
    cases processRule parsedRule g with
    | none => exact iff_of_false nofun fun h => h.2 rfl
    | some g => exact answer_eq_success e l g
  | .message .. :: l, g => answer_eq_success e l g

theorem answer_eq_overrun (e : End) : ∀ (l : List Statement) (g : σ),
    answer processRule e l g = .overrun ↔ e = .overrun ∧ accepts processRule l g ≠ none
  | [], g => by
    cases e with
    | success => exact iff_of_false nofun fun h => nomatch h.1
    | failure => exact iff_of_false nofun fun h => nomatch h.1
    | overrun => exact iff_of_true rfl ⟨rfl, nofun⟩
  | .rule parsedRule :: l, g => by
    unfold answer accepts
    cases processRule parsedRule g with
    | none => exact iff_of_false nofun fun h => h.2 rfl
    | some g => exact answer_eq_overrun e l g
  | .message .. :: l, g => answer_eq_overrun e l g

end Answer

/-- **The scanner stays in its input and ends with success or with an error, if and only if it does not
arrive at the terminating NUL in `<rule>`**, or a rule has been refused before it reads on. -/
theorem scan_in_range_iff {σ : Type} (c : Context) (processRule : List SpParsedKeyword → σ → Option σ)
    (contents : ZendString) (g : σ) :
    (answer processRule (spConfigScan c contents).2 (spConfigScan c contents).1 g = .success ∨
      answer processRule (spConfigScan c contents).2 (spConfigScan c contents).1 g = .failure) ↔
    (∀ l s, Steps c (start c (contents ++ [0])) l s → ¬ (s.cond = .rule ∧ s.data = [0])) ∨
      accepts processRule (spConfigScan c contents).1 g = none := by
  have hthree : ∀ a : Answer, a = .success ∨ a = .failure ↔ a ≠ .overrun := by
    intro a
    cases a <;> simp
  rw [hthree, Ne, answer_eq_overrun, end_eq_overrun_iff, not_and_or, not_not]
  refine or_congr_left ?_
  constructor
  · rintro h l s hsteps hnul
    exact h ⟨l, s, hsteps, hnul⟩
  · rintro h ⟨l, s, hsteps, hnul⟩
    exact h l s hsteps hnul

/-- **A rule at the end of a file, without a semicolon or a newline**: the scanner reads on behind the
NUL. -/
theorem unterminated_rule_overrun :
    answer (fun _ (g : Unit) => some g)
      (spConfigScan ⟨fun _ => false, 80000, zstr "sp.rules"⟩ (zstr "sp.harden_random.enable()")).2
      (spConfigScan ⟨fun _ => false, 80000, zstr "sp.rules"⟩ (zstr "sp.harden_random.enable()")).1 () =
        .overrun := rfl

end Snuffleupagus.Scanner.Run
