import Snuffleupagus.Scanner.Handed

/-! # The numbers of the lines

The number of the line and the newlines that are still to come are always as many together, except where a newline ends a
rule: the rule `*` takes it and does not count (`step_newlines`). So the lines of keywords and errors are right as far as
no such rule is in front of them (`lineno_iff`, `line_numbers_iff`). -/

namespace Snuffleupagus.Scanner.Newlines

open Snuffleupagus.Lib.Lexer Snuffleupagus.Lib.Derivative Snuffleupagus.Php.Bytes
open Snuffleupagus.Config.Keyword
open Snuffleupagus.Load.Module (Statement)
open Snuffleupagus.Scanner.Condition Snuffleupagus.Scanner.Token Snuffleupagus.Scanner.Scan
open Snuffleupagus.Scanner.Action Snuffleupagus.Scanner.Run Snuffleupagus.Scanner.Cut Snuffleupagus.Scanner.Handed
open Snuffleupagus.Scanner.Grammar (newline_split)

/-- A rule ends here, at a newline. -/
def EndsAtNewline (s : State) : Prop :=
  s.cond = .rule ∧ s.data.head? = some 10 ∧ next ruleRules .other s.data = some (.other, 1)

instance (s : State) : Decidable (EndsAtNewline s) := by
  unfold EndsAtNewline; infer_instance

/-- The newlines in front of a place. -/
def newlinesBefore (contents : ZendString) (s : State) : ℕ :=
  ((contents ++ [0]).take ((contents ++ [0]).length - s.data.length)).count 10

/-- A keyword that is read here, or an error, carries the number. -/
def Carries (c : Context) (s : State) (lineno : ℕ) : Prop :=
  (∃ n kw, KeywordAt c s n kw ∧ kw.lineno = lineno) ∨ ∃ err, step c s = .stop (.failure lineno err)

variable {c : Context} {s s' : State} {out : Option Statement} {l : List Statement}

/-! ### The newlines of a token -/

theorem count_eq_zero_of_avoids {r : Regex UInt8} {w : ZendString} (h : r.avoids 10 = true) (hw : w ∈ r.language) :
    w.count 10 = 0 := List.count_eq_zero.mpr (Regex.notMem_of_avoids h w hw)

theorem count_newline {w : ZendString} (hw : w ∈ newline.language) : w.count 10 = 1 := by
  rcases mem_newline.mp hw with rfl | rfl <;> rfl

/-- Of the tokens of a table only `nl` has a newline. -/
theorem count_token {τ : Type} [DecidableEq τ] {rules : Rules UInt8 τ} {other nl t : τ} {data : ZendString} {n : ℕ}
    (hnl : ∀ r ∈ rules, r.2 = nl → r.1 = newline) (havoids : ∀ r ∈ rules, r.2 ≠ nl → r.1.avoids 10 = true)
    (h : next rules other data = some (t, n)) (ht : t ≠ other) :
    (data.take n).count 10 = if t = nl then 1 else 0 := by
  obtain ⟨r, hr, hw⟩ := (longest_of_next h ht).names.mem
  split_ifs with htnl
  · exact count_newline (hnl _ hr htnl ▸ hw)
  · exact count_eq_zero_of_avoids (havoids _ hr htnl) hw

theorem count_take_add_drop (n : ℕ) (data : ZendString) :
    (data.take n).count 10 + (data.drop n).count 10 = data.count 10 := by
  rw [← List.count_append, List.take_append_drop]

/-! ### The line of an action -/

theorem initAction_lineno {t : InitRule} {text : ZendString} (h : initAction c t text s = .next s' out) :
    t ≠ .other ∧ s'.lineno = s.lineno + if t = .newline then 1 else 0 := by
  cases initNext h with
  | blank ht => rcases ht with rfl | rfl <;> exact ⟨nofun, rfl⟩
  | skipped _ ht => rcases ht with rfl | rfl | rfl | rfl <;> exact ⟨nofun, rfl⟩
  | message _ ht => rcases ht with rfl | rfl <;> exact ⟨nofun, rfl⟩
  | newline | sp | set | condition | endCondition => exact ⟨nofun, rfl⟩

theorem condAction_lineno {t : CondRule} {text : ZendString} (h : condAction c t text s = .next s' out) :
    t ≠ .other ∧ s'.lineno = s.lineno + if t = .newline then 1 else 0 := by
  obtain ⟨-, ⟨ht, -⟩ | ⟨k, hk, hfeed⟩⟩ := condAction_next h
  · rcases ht with rfl | rfl <;> cases h <;> exact ⟨nofun, rfl⟩
  · obtain ⟨b, sy, -, rfl, -⟩ := feed_eq hfeed
    rcases hk with ⟨v, -, rfl | rfl | rfl⟩ | ⟨-, rfl⟩ | ⟨-, rfl⟩ <;> exact ⟨nofun, rfl⟩

theorem condOpAction_lineno {t : CondOpRule} {text : ZendString} (h : condOpAction c t text s = .next s' out) :
    t ≠ .other ∧ s'.lineno = s.lineno + if t = .newline then 1 else 0 := by
  obtain ⟨-, ⟨ht, -⟩ | ⟨k, hk, hfeed⟩ | ⟨rfl, -⟩⟩ := condOpAction_next h
  · rcases ht with rfl | rfl <;> cases h <;> exact ⟨nofun, rfl⟩
  · obtain ⟨b, sy, -, rfl, -⟩ := feed_eq hfeed
    rcases hk with ⟨-, rfl⟩ | ⟨-, rfl⟩ <;> exact ⟨nofun, rfl⟩
  · obtain ⟨sy, -, rfl, -⟩ := endCondition_eq h
    exact ⟨nofun, rfl⟩

theorem ruleAction_lineno {t : RuleRule} {text : ZendString} (h : ruleAction c t text s = .next s' out) :
    s'.lineno = s.lineno + if t = .newline then 1 else 0 := by
  cases ruleNext h with
  | ends ht => rcases ht with rfl | rfl <;> rfl
  | whitespace | newline | skipped | keyword => rfl

/-! ### One token -/

/-- The byte that ends a rule as no other token does. -/
theorem next_other {data : ZendString} {n : ℕ} (h : next ruleRules .other data = some (.other, n)) :
    n = 1 ∧ (data.take n).count 10 = if data.head? = some 10 then 1 else 0 := by
  obtain ⟨rfl, hne⟩ : n = 1 ∧ data ≠ [] := by
    rcases next_eq_some h with hlong | ⟨-, hn, hne, -⟩
    · obtain ⟨r, hr, -⟩ := hlong.names.mem
      simp [ruleRules] at hr
    · exact ⟨hn, hne⟩
  obtain ⟨b, data, rfl⟩ := List.exists_cons_of_ne_nil hne
  refine ⟨rfl, ?_⟩
  simp [List.count_singleton]

/-- A token of a table whose only rule with a newline is `nl`. -/
theorem newlines_of_next {τ : Type} [DecidableEq τ] {rules : Rules UInt8 τ} {other t : τ} {n : ℕ} (nl : τ)
    (hnl : ∀ r ∈ rules, r.2 = nl → r.1 = newline) (havoids : ∀ r ∈ rules, r.2 ≠ nl → r.1.avoids 10 = true)
    (hnext : next rules other s.data = some (t, n)) (hdata : s'.data = s.data.drop n)
    (hlineno : t ≠ other ∧ s'.lineno = s.lineno + if t = nl then 1 else 0) (hcond : s.cond ≠ .rule) :
    s'.lineno + s'.data.count 10 + (if EndsAtNewline s then 1 else 0) = s.lineno + s.data.count 10 := by
  have htake := count_token hnl havoids hnext hlineno.1
  have hsplit := count_take_add_drop n s.data
  rw [if_neg fun hend => hcond hend.1, hlineno.2, hdata]
  omega

/-- A token of a rule: the rule `*` takes any byte and does not count it. -/
theorem newlines_of_rule (hcond : s.cond = .rule) (h : step c s = .next s' out) :
    s'.lineno + s'.data.count 10 + (if EndsAtNewline s then 1 else 0) = s.lineno + s.data.count 10 := by
  obtain ⟨t, n, hnext, hact⟩ := rule_token hcond h
  have hlineno := ruleAction_lineno hact
  have hsplit := count_take_add_drop n s.data
  have hends : EndsAtNewline s ↔ s.data.head? = some 10 ∧ t = .other := by
    unfold EndsAtNewline
    rw [hnext, hcond]
    constructor
    · rintro ⟨-, hhead, hother⟩
      exact ⟨hhead, (Prod.mk.inj (Option.some.inj hother)).1⟩
    · rintro ⟨hhead, rfl⟩
      exact ⟨rfl, hhead, by rw [(next_other hnext).1]⟩
  by_cases hnewline : t = .newline
  · subst hnewline
    obtain ⟨nl, hnl, hdata⟩ := newline_split (longest_of_next hnext nofun)
    have hfront : s.data = nl ++ s'.data := by
      cases hact
      exact hdata
    have hcount := congrArg (List.count 10) hfront
    have hlineno : s'.lineno = s.lineno + 1 := hlineno
    rw [List.count_append, count_newline hnl] at hcount
    rw [if_neg fun hend => nomatch (hends.mp hend).2]
    omega
  · have hdata : s'.data = s.data.drop n := by
      obtain ⟨-, ⟨-, -, hdata⟩ | ⟨ht, -⟩ | ⟨-, -, hdata⟩⟩ := ruleAction_next hact
      · exact hdata
      · exact absurd ht hnewline
      · exact hdata
    have htake : (s.data.take n).count 10 = if EndsAtNewline s then 1 else 0 := by
      simp only [hends]
      by_cases hother : t = .other
      · subst hother
        simp only [and_true]
        exact (next_other hnext).2
      · have havoids : ∀ r ∈ ruleRules, r.2 ≠ .newline → r.1.avoids 10 = true := by decide
        obtain ⟨r, hr, hw⟩ := (longest_of_next hnext hother).names.mem
        rw [if_neg fun hend => hother hend.2]
        exact count_eq_zero_of_avoids (havoids _ hr hnewline) hw
    rw [if_neg hnewline] at hlineno
    rw [hlineno, hdata, ← htake]
    show s.lineno + 0 + _ + _ = _
    omega

/-- **A token that does not end the scan** counts its newlines, unless it ends a rule. -/
theorem step_newlines (h : step c s = .next s' out) :
    s'.lineno + s'.data.count 10 + (if EndsAtNewline s then 1 else 0) = s.lineno + s.data.count 10 := by
  cases hcond : s.cond with
  | init =>
    obtain ⟨t, n, hnext, hact⟩ := init_token hcond h
    exact newlines_of_next .newline (by simp [initRules]) (by decide) hnext (initAction_next hact).1
      (initAction_lineno hact) (by rw [hcond]; decide)
  | cond =>
    obtain ⟨t, n, hnext, hact⟩ := cond_token hcond h
    exact newlines_of_next .newline (by simp [condRules]) (by decide) hnext (condAction_next hact).1
      (condAction_lineno hact) (by rw [hcond]; decide)
  | condOp =>
    obtain ⟨t, n, hnext, hact⟩ := condOp_token hcond h
    exact newlines_of_next .newline (by simp [condOpRules]) (by decide) hnext (condOpAction_next hact).1
      (condOpAction_lineno hact) (by rw [hcond]; decide)
  | rule => exact newlines_of_rule hcond h

/-! ### Runs -/

/-- **The line is right behind some tokens**, if it was, and if no rule has ended at a newline among them. -/
theorem steps_newlines (h : Steps c s l s') :
    s'.lineno + s'.data.count 10 ≤ s.lineno + s.data.count 10 ∧
    (s'.lineno + s'.data.count 10 = s.lineno + s.data.count 10 ↔
      ∀ l₁ s₁, Steps c s l₁ s₁ → Behind c s₁ s' → ¬EndsAtNewline s₁) := by
  induction h with
  | refl s =>
    refine ⟨le_rfl, iff_of_true rfl fun l₁ s₁ hsteps hbehind _ => ?_⟩
    have hle := steps_le hsteps
    have hlt := hbehind.lt
    omega
  | @cons s s₁ s' out l hstep hsteps ih =>
    have hfirst := step_newlines hstep
    obtain ⟨hle, hiff⟩ := ih
    refine ⟨by omega, ?_⟩
    have hbehind := (behind_iff hstep).mpr ⟨l, hsteps⟩
    have hplaces := @forall_place c s out s₁ (fun s₂ => Behind c s₂ s' → ¬EndsAtNewline s₂) hstep
    rw [forall_prop_of_true hbehind] at hplaces
    rw [hplaces, ← hiff]
    split_ifs at hfirst with hends
    · exact iff_of_false (by omega) fun hright => hright.1 hends
    · rw [and_iff_right hends]
      omega

theorem suffix_of_steps (h : Steps c s l s') : s'.data <:+ s.data := by
  induction h with
  | refl s => exact List.suffix_rfl
  | cons hstep _ ih =>
    obtain ⟨m, -, -, hdata, -⟩ := step_next hstep
    exact ih.trans (hdata ▸ List.drop_suffix m _)

/-- **A place has the right line** exactly if no rule has ended at a newline in front of it. -/
theorem lineno_iff {contents : ZendString} (h : Steps c (start c (contents ++ [0])) l s) :
    s.lineno ≤ 1 + newlinesBefore contents s ∧
    (s.lineno = 1 + newlinesBefore contents s ↔
      ∀ l₁ s₁, Steps c (start c (contents ++ [0])) l₁ s₁ → Behind c s₁ s → ¬EndsAtNewline s₁) := by
  obtain ⟨hle, hiff⟩ := steps_newlines h
  obtain ⟨front, hfront⟩ := suffix_of_steps h
  have hfront : front ++ s.data = contents ++ [0] := hfront
  have hbefore : newlinesBefore contents s = front.count 10 := by
    rw [newlinesBefore, ← hfront, List.length_append, Nat.add_sub_cancel, List.take_left]
  have htotal : (start c (contents ++ [0])).lineno + (start c (contents ++ [0])).data.count 10 =
      1 + (front.count 10 + s.data.count 10) := by
    rw [← List.count_append, hfront]
    rfl
  rw [htotal] at hle hiff
  rw [hbefore, ← hiff]
  omega

/-! ### Keywords and errors -/

theorem parseKeyword_lineno {text : ZendString} {kw : SpParsedKeyword} (h : parseKeyword c s text = .ok kw) :
    kw.lineno = s.lineno := by
  unfold parseKeyword at h
  dsimp only at h
  split at h
  · cases h; rfl
  · split at h
    · cases h
    · split_ifs at h
      · cases h; rfl
      · cases h; rfl
      · split at h
        · cases h; rfl
        · cases h

/-- **An error carries the line the scanner is on**, as a number and in its text. -/
theorem step_fails {e : End} (h : step c s = .stop e) : Fails s e ∨ e = .success ∨ e = .overrun := by
  have htoken : ∀ {τ : Type} {rules : Rules UInt8 τ} {other : τ} {action : τ → ZendString → State → Outcome},
      (∀ t text s₁, action t text s₁ = .stop e → Fails s₁ e ∨ e = .success) →
      s.token rules other action = .stop e → Fails s e ∨ e = .success ∨ e = .overrun := by
    intro τ rules other action hact h
    unfold State.token at h
    split at h
    · cases h
      exact .inr (.inr rfl)
    · have hfails := hact _ _ _ h
      exact hfails.imp_right .inl
  unfold step at h
  cases hcond : s.cond with
  | init => rw [hcond] at h; exact htoken (fun _ _ _ hact => (initAction_stop hact).imp_right And.right) h
  | cond => rw [hcond] at h; exact htoken (fun _ _ _ hact => .inl (condAction_stop hact)) h
  | condOp => rw [hcond] at h; exact htoken (fun _ _ _ hact => .inl (condOpAction_stop hact)) h
  | rule => rw [hcond] at h; exact htoken (fun _ _ _ hact => .inl (ruleAction_stop hact)) h

theorem Carries.eq {lineno : ℕ} (h : Carries c s lineno) : lineno = s.lineno := by
  rcases h with ⟨n, kw, hkw, rfl⟩ | ⟨err, hstop⟩
  · exact parseKeyword_lineno hkw.parses
  · obtain ⟨err', he, -⟩ := (step_fails hstop).resolve_right (by simp)
    cases he
    rfl

/-! ### The result -/

/-- **Every keyword and every error has its line**, one plus the newlines in front of it, exactly if no keyword that is
read and no error is behind a rule that a newline ends. The keywords of the rules are keywords that are read. -/
theorem line_numbers_iff (c : Context) (contents : ZendString) :
    (∀ parsedRule, .rule parsedRule ∈ (spConfigScan c contents).1 → ∀ kw ∈ parsedRule,
      ∃ l s n, Steps c (start c (contents ++ [0])) l s ∧ KeywordAt c s n kw) ∧
    ((∀ l s, Steps c (start c (contents ++ [0])) l s → ∀ lineno, Carries c s lineno →
        lineno = 1 + newlinesBefore contents s) ↔
      ∀ l s, Steps c (start c (contents ++ [0])) l s → EndsAtNewline s →
        ∀ s', Behind c s s' → ∀ lineno, ¬Carries c s' lineno) := by
  refine ⟨?_, fun h l s hsteps hends s' hbehind lineno hcarries => ?_, fun h l s hsteps lineno hcarries => ?_⟩
  · obtain ⟨l, s, e, hsteps, -, hrun⟩ := exists_steps (c := c) (start c (contents ++ [0]))
    have hread := steps_keywords (P := fun kw => ∃ l s n, Steps c (start c (contents ++ [0])) l s ∧ KeywordAt c s n kw)
      hsteps (fun l₁ s₁ n kw hsteps₁ hkw => ⟨l₁, s₁, n, hsteps₁, hkw⟩) nofun
    rw [spConfigScan, hrun]
    exact hread.2
  · obtain ⟨l', hsteps'⟩ := hbehind.steps
    have hall := hsteps.trans hsteps'
    have hline := h _ s' hall lineno hcarries
    rw [hcarries.eq] at hline
    exact (lineno_iff hall).2.mp hline l s hsteps hbehind hends
  · rw [hcarries.eq, (lineno_iff hsteps).2]
    exact fun l₁ s₁ hsteps₁ hbehind hends => h l₁ s₁ hsteps₁ hends s hbehind lineno hcarries

/-- `sp.a()` without a semicolon: the keyword on the second line is given the first one. -/
theorem line_numbers_newline : ∃ l s n kw,
    Steps ⟨fun _ => false, 80000, []⟩ (start ⟨fun _ => false, 80000, []⟩ (zstr "sp.a()\nsp.b();" ++ [0])) l s ∧
    KeywordAt ⟨fun _ => false, 80000, []⟩ s n kw ∧ kw.kw = zstr "b" ∧ kw.lineno = 1 ∧
    newlinesBefore (zstr "sp.a()\nsp.b();") s = 1 :=
  ⟨_, _, _, _, .cons rfl (.cons rfl (.cons rfl (.cons rfl (.refl _)))), ⟨rfl, rfl, rfl, nofun, rfl⟩, rfl, rfl, rfl⟩

end Snuffleupagus.Scanner.Newlines
