import Snuffleupagus.Scanner.Grammar
import Snuffleupagus.Scanner.Word

/-! # A text in front of another

A text `T` is read to its end in front of `R` if the scanner comes by the place between the two, in
`<init>`. Then its tokens, and what they do, are the same in front of every other text where it is read to
its end (`cut_same`): a token there is no longer than here. Only the newline of a rule looks behind the
place; but then the rule goes on, and the scanner does not come by in `<init>`. -/

namespace Snuffleupagus.Scanner.Cut

open Snuffleupagus.Lib.Lexer Snuffleupagus.Lib.Derivative Snuffleupagus.Php.Bytes
open Snuffleupagus.Load.Module (Statement)
open Snuffleupagus.Scanner.Condition Snuffleupagus.Scanner.Token Snuffleupagus.Scanner.Scan
open Snuffleupagus.Scanner.Action Snuffleupagus.Scanner.Run Snuffleupagus.Scanner.Grammar
open Snuffleupagus.Scanner.Word

variable {c : Context} {s s' : State} {T R R' : ZendString}

/-- `T` is read to its end in front of `R`. -/
structure InPlace (c : Context) (s : State) (T R : ZendString) (l : List Statement) (s' : State) : Prop where
  steps : Steps c { s with data := T ++ R } l s'
  cond : s'.cond = .init
  data : s'.data = R

theorem steps_le {l : List Statement} (h : Steps c s l s') : s'.data.length ≤ s.data.length := by
  induction h with
  | refl s => exact le_rfl
  | cons h _ ih =>
    obtain ⟨m, -, -, hdata, -⟩ := step_next h
    rw [hdata, List.length_drop] at ih
    omega

theorem steps_lt {l : List Statement} {s₁ : State} {out : Option Statement} (h : step c s = .next s₁ out)
    (hrest : Steps c s₁ l s') : s'.data.length < s.data.length := by
  obtain ⟨m, hpos, hle, hdata, -⟩ := step_next h
  have hlen := steps_le hrest
  rw [hdata, List.length_drop] at hlen
  omega

/-! ### What an action does not look at -/

/-- The outcome, with another text behind the cursor. -/
def withData (d : ZendString) : Outcome → Outcome
  | .next s out => .next { s with data := d } out
  | .stop e => .stop e

theorem feed_data (k : CondToken) (d : ZendString) :
    State.feed c k { s with data := d } = withData d (s.feed c k) := by
  unfold State.feed
  dsimp only
  cases syToken k (s.cond == .condOp, s.sy) <;> rfl

theorem initAction_data (t : InitRule) (text d : ZendString) :
    initAction c t text { s with data := d } = withData d (initAction c t text s) := by
  have hskip : State.skipping { s with data := d } = s.skipping := rfl
  unfold initAction
  cases t with
  | nonascii => rfl
  | other => rfl
  | whitespace => rfl
  | comment => rfl
  | newline => rfl
  | sp => rfl
  | endByte => rfl
  | endCondition => rfl
  | condition => dsimp only; split_ifs <;> rfl
  | set => dsimp only; rw [hskip]; split_ifs <;> rfl
  | info => dsimp only; rw [hskip]; split_ifs <;> rfl
  | warning => dsimp only; rw [hskip]; split_ifs <;> rfl
  | error => dsimp only; rw [hskip]; split_ifs <;> rfl

theorem condAction_data (t : CondRule) (text d : ZendString) :
    condAction c t text { s with data := d } = withData d (condAction c t text s) := by
  cases t with
  | whitespace => rfl
  | newline => rfl
  | call =>
    show State.call c text _ = withData d (s.call c text)
    unfold State.call
    dsimp only
    split_ifs
    · exact feed_data _ d
    · rfl
  | keyword =>
    show State.variableValue c text _ = withData d (s.variableValue c text)
    unfold State.variableValue
    dsimp only
    cases s.vars.lookup text with
    | some value => exact feed_data _ d
    | none => rfl
  | number => exact feed_data _ d
  | not => exact feed_data _ d
  | lparen => exact feed_data _ d
  | other => rfl

theorem condOpAction_data (t : CondOpRule) (text d : ZendString) :
    condOpAction c t text { s with data := d } = withData d (condOpAction c t text s) := by
  cases t with
  | whitespace => rfl
  | newline => rfl
  | operator => exact feed_data _ d
  | rparen => exact feed_data _ d
  | semicolon =>
    show State.endCondition c _ = withData d (s.endCondition c)
    unfold State.endCondition
    dsimp only
    cases syEnd s.sy <;> rfl
  | other => rfl

theorem endOfRule_data (d : ZendString) : State.endOfRule { s with data := d } = withData d s.endOfRule := by
  rw [endOfRule_eq, endOfRule_eq]
  rfl

/-- The newline of a rule puts its context back. -/
theorem ruleAction_data {t : RuleRule} (ht : t ≠ .newline) (text d : ZendString) :
    ruleAction c t text { s with data := d } = withData d (ruleAction c t text s) := by
  cases t with
  | whitespace => rfl
  | newline => exact absurd rfl ht
  | keyword =>
    have hskip : State.skipping { s with data := d } = s.skipping := rfl
    have hparse : parseKeyword c { s with data := d } text = parseKeyword c s text := rfl
    show State.keyword c text _ = withData d (s.keyword c text)
    unfold State.keyword
    rw [hskip, hparse]
    dsimp only
    split_ifs
    · rfl
    · rfl
    · cases parseKeyword c s text <;> rfl
  | semicolon => exact endOfRule_data d
  | nonascii => rfl
  | other => exact endOfRule_data d

/-! ### A rule that goes on -/

/-- What may stand between the lines of a rule. -/
def gap : Regex UInt8 := .star (.alt newline whitespace)

theorem gap_cases {b : UInt8} {Y : ZendString} (h : b :: Y ∈ gap.language) :
    isBlank b = true ∧ Y ∈ gap.language ∨
      ∃ nl ∈ newline.language, ∃ Y' ∈ gap.language, b :: Y = nl ++ Y' := by
  unfold gap at h
  obtain ⟨u, v, hu, hv, rfl⟩ := Regex.cons_mem_star.mp h
  rcases Regex.mem_alt.mp hu with hu | hu
  · exact Or.inr ⟨b :: u, hu, v, hv, rfl⟩
  · obtain ⟨hb, rfl⟩ := Regex.cons_mem_cls.mp hu
    exact Or.inl ⟨hb, hv⟩

theorem gap_drop : ∀ {n : ℕ} {Y : ZendString}, Y ∈ gap.language → (∀ b ∈ Y.take n, isBlank b = true) →
    Y.drop n ∈ gap.language
  | 0, _, h, _ => h
  | n + 1, Y, h, hblank => by
    cases Y with
    | nil => exact h
    | cons b Y =>
      rw [List.take_succ_cons] at hblank
      obtain ⟨hb, hrest⟩ := List.forall_mem_cons.mp hblank
      rcases gap_cases h with ⟨-, hY⟩ | ⟨nl, hnl, Y', -, hsplit⟩
      · show Y.drop n ∈ gap.language
        exact gap_drop hY hrest
      · rcases mem_newline.mp hnl with rfl | rfl
        · obtain ⟨rfl, -⟩ := List.cons_eq_cons.mp hsplit
          cases hb
        · obtain ⟨rfl, -⟩ := List.cons_eq_cons.mp hsplit
          cases hb

/-- The rule goes on: behind blanks and newlines comes a dot, which is not farther from the end than `k`. -/
def GoesOn (s : State) (k : ℕ) : Prop :=
  s.cond = .rule ∧ ∃ Y ∈ gap.language, ∃ z : ZendString, s.data = Y ++ 46 :: z ∧ z.length < k

/-- The word of a line that goes on. -/
theorem word_newline {nl Y : ZendString} (hnl : nl ∈ newline.language) (hY : Y ∈ gap.language) :
    Word ruleRules (nl ++ (Y ++ [46])) := by
  refine ⟨(seqs [newline, .star (.alt newline whitespace), byte 46], .newline), by simp [ruleRules], ?_⟩
  exact mem_seqs.mpr ⟨nl, hnl, Y ++ [46], mem_seqs.mpr ⟨Y, hY, [46], mem_byte.mpr rfl, rfl⟩, rfl⟩

/-- The token where a word begins. -/
theorem token_of_word {data w : ZendString} {t : RuleRule} {n : ℕ} {b : UInt8} {d : ZendString}
    (hsome : next ruleRules .other data = some (t, n)) (hw : Word ruleRules w) (hfit : w <+: data)
    (hd : data = b :: d) : Longest ruleRules data t n ∧ ∃ v, data.take n = b :: v := by
  rcases next_eq_some hsome with hlong | ⟨-, -, -, hnone⟩
  · refine ⟨hlong, ?_⟩
    cases htake : data.take n with
    | nil => exact absurd htake (ruleRules_ne_nil hlong.names)
    | cons x v =>
      have hpre := List.take_prefix n data
      rw [htake, hd] at hpre
      obtain ⟨rfl, -⟩ := List.cons_prefix_cons.mp hpre
      exact ⟨v, rfl⟩
  · exact absurd (Or.inl hfit) (hnone w hw)

theorem word_blank {b : UInt8} (hb : isBlank b = true) : Word ruleRules [b] :=
  ⟨_, List.mem_cons_self .., Regex.mem_plus_cls.mpr ⟨List.cons_ne_nil _ _, List.forall_mem_singleton.mpr hb⟩⟩

theorem not_blank_of_newline {b : UInt8} {nl Y Y' : ZendString} (hnl : nl ∈ newline.language)
    (h : b :: Y = nl ++ Y') : (b = 10 ∨ b = 13) ∧ isBlank b = false := by
  rcases mem_newline.mp hnl with rfl | rfl
  · obtain ⟨rfl, -⟩ := List.cons_eq_cons.mp h
    exact ⟨Or.inl rfl, rfl⟩
  · obtain ⟨rfl, -⟩ := List.cons_eq_cons.mp h
    exact ⟨Or.inr rfl, rfl⟩

/-- A rule that goes on, at a blank: what is taken is blank, so it ends in front of the dot. -/
theorem goesOn_blank {out : Option Statement} {k : ℕ} {b : UInt8} {Y z : ZendString} (hcond : s.cond = .rule)
    (hb : isBlank b = true) (hY : b :: Y ∈ gap.language) (hdata : s.data = b :: Y ++ 46 :: z) (hz : z.length < k)
    (hstep : step c s = .next s' out) : GoesOn s' k := by
  obtain ⟨t, n, hsome, hact⟩ := rule_token hcond hstep
  obtain ⟨-, hcases⟩ := ruleAction_next hact
  obtain ⟨hlong, v, hv⟩ := token_of_word hsome (word_blank hb) ⟨_, hdata.symm⟩ hdata
  have hnames := hlong.names
  rw [hv] at hnames
  obtain ⟨rfl, hblank⟩ := names_of_blank hnames hb
  rw [← hv, hdata] at hblank
  have hn : n ≤ (b :: Y).length := by
    by_contra hn
    have hdot : b :: Y ++ [46] <+: (b :: Y ++ 46 :: z).take n := by
      rw [List.prefix_take_iff, List.length_append, List.length_singleton]
      exact ⟨⟨z, by simp⟩, by omega⟩
    exact Bool.false_ne_true (hblank 46 (hdot.mem (by simp)))
  rcases hcases with ⟨-, hcond', hdata'⟩ | ⟨ht, -⟩ | ⟨ht, -⟩
  · have hdata' : s'.data = s.data.drop n := hdata'
    rw [hdata, List.drop_append_of_le_length hn] at hdata'
    rw [List.take_append_of_le_length hn] at hblank
    exact ⟨hcond'.trans hcond, (b :: Y).drop n, gap_drop hY hblank, z, hdata', hz⟩
  · cases ht
  · simp at ht

/-- A rule that goes on, at a newline: what has been looked at behind it is put back. -/
theorem goesOn_line {out : Option Statement} {k : ℕ} {nl Y z : ZendString} (hcond : s.cond = .rule)
    (hnl : nl ∈ newline.language) (hY : Y ∈ gap.language) (hdata : s.data = nl ++ (Y ++ 46 :: z)) (hz : z.length < k)
    (hstep : step c s = .next s' out) : GoesOn s' k := by
  obtain ⟨t, n, hsome, hact⟩ := rule_token hcond hstep
  obtain ⟨-, hcases⟩ := ruleAction_next hact
  obtain ⟨b, d, hd⟩ : ∃ b d, s.data = b :: d :=
    List.exists_cons_of_ne_nil (by rw [hdata]; rcases mem_newline.mp hnl with rfl | rfl <;> exact List.cons_ne_nil _ _)
  obtain ⟨hb, -⟩ := not_blank_of_newline hnl (hd.symm.trans hdata)
  obtain ⟨hlong, v, hv⟩ := token_of_word hsome (word_newline hnl hY) ⟨z, by rw [hdata]; simp⟩ hd
  have hnames := hlong.names
  rw [hv] at hnames
  obtain rfl := names_of_newline hnames hb
  obtain ⟨nl', hnl', hsplit⟩ := newline_split hlong
  rcases hcases with ⟨ht, -⟩ | ⟨-, hcond', hdata'⟩ | ⟨ht, -⟩
  · simp at ht
  · have hdata' : s'.data = (s.data.take n).drop (newlineLength (s.data.take n)) ++ s.data.drop n := hdata'
    rw [← hdata'] at hsplit
    have hboth := hdata.symm.trans hsplit
    obtain rfl := newline_unique hnl hnl' hboth
    exact ⟨hcond'.trans hcond, Y, hY, z, (List.append_cancel_left hboth).symm, hz⟩
  · simp at ht

/-- A rule that goes on does so up to the dot. -/
theorem goesOn_next {out : Option Statement} {k : ℕ} (h : GoesOn s k) (hstep : step c s = .next s' out)
    (hlen : k ≤ s'.data.length) : GoesOn s' k := by
  obtain ⟨hcond, Y, hY, z, hdata, hz⟩ := h
  cases Y with
  | nil =>
    obtain ⟨m, hpos, -, hm, -⟩ := step_next hstep
    rw [hm, hdata, List.length_drop, List.nil_append, List.length_cons] at hlen
    omega
  | cons b Y =>
    rcases gap_cases hY with ⟨hb, -⟩ | ⟨nl, hnl, Y', hY', hsplit⟩
    · exact goesOn_blank hcond hb hY hdata hz hstep
    · rw [hsplit, List.append_assoc] at hdata
      exact goesOn_line hcond hnl hY' hdata hz hstep

theorem goesOn_steps {l : List Statement} {k : ℕ} (hsteps : Steps c s l s') (h : GoesOn s k)
    (hlen : k ≤ s'.data.length) : s'.cond = .rule := by
  induction hsteps with
  | refl s => exact h.1
  | cons hstep hrest ih =>
    refine ih (goesOn_next h hstep ?_) hlen
    have hle := steps_le hrest
    omega

/-! ### The same tokens -/

/-- A token within `T` is the same in front of every text where it is within `T`. -/
theorem next_same {τ : Type} {rules : Rules UInt8 τ} {other t t' : τ} {n n' : ℕ}
    (h : next rules other (T ++ R) = some (t, n)) (h' : next rules other (T ++ R') = some (t', n'))
    (hn : n ≤ T.length) (hn' : n' ≤ T.length) : t = t' ∧ n = n' := by
  have hfits : ∀ {R R' : ZendString} {t : τ} {n : ℕ}, n ≤ T.length → Longest rules (T ++ R) t n →
      Word rules (T.take n) ∧ Names rules (T.take n) t ∧ Fits (T ++ R') (T.take n) := by
    intro R R' t n hn hlong
    have hnames := hlong.names
    rw [List.take_append_of_le_length hn] at hnames
    exact ⟨hnames.word, hnames, Or.inl ((List.take_prefix n T).trans (List.prefix_append T R'))⟩
  rcases next_eq_some h with hlong | ⟨rfl, rfl, -, hnone⟩
  · obtain ⟨hw, hnames, hfit⟩ := hfits hn hlong
    rcases next_eq_some h' with hlong' | ⟨-, -, -, hnone⟩
    · obtain ⟨hw', hnames', hfit'⟩ := hfits hn' hlong'
      have hle := hlong'.max _ hw hfit
      have hle' := hlong.max _ hw' hfit'
      rw [List.length_take_of_le hn] at hle
      rw [List.length_take_of_le hn'] at hle'
      obtain rfl := Nat.le_antisymm hle hle'
      exact ⟨hnames.unique hnames', rfl⟩
    · exact absurd hfit (hnone _ hw)
  · rcases next_eq_some h' with hlong' | ⟨rfl, rfl, -⟩
    · obtain ⟨hw', -, hfit'⟩ := hfits hn' hlong'
      exact absurd hfit' (hnone _ hw')
    · exact ⟨rfl, rfl⟩

theorem same_of_withData {o : Outcome} {a b : State} {out out' : Option Statement} {d d' : ZendString}
    (h : withData d o = .next a out) (h' : withData d' o = .next b out') :
    a.data = d ∧ b = { a with data := d' } ∧ out = out' := by
  cases o with
  | next s out =>
    cases h
    cases h'
    exact ⟨rfl, rfl, rfl⟩
  | stop e => cases h

/-- What a token within `T` leads to is the same, whatever is behind `T`. -/
def SameStep (T R R' : ZendString) (a b : State) (out out' : Option Statement) : Prop :=
  ∃ T' : ZendString, T'.length < T.length ∧ a.data = T' ++ R ∧ b = { a with data := T' ++ R' } ∧ out = out'

section Same
variable {a b : State} {out out' : Option Statement}

theorem sameStep_of_next {τ : Type} {rules : Rules UInt8 τ} {other t t' : τ} {n n' : ℕ}
    {action : τ → ZendString → State → Outcome} (hb : Bounded rules)
    (hsome : next rules other (T ++ R) = some (t, n)) (hsome' : next rules other (T ++ R') = some (t', n'))
    (hframe : ∀ text d, action t text { s with data := d } = withData d (action t text s))
    (hframe' : ∀ text d, action t' text { s with data := d } = withData d (action t' text s))
    (hact : action t ((T ++ R).take n) { s with data := (T ++ R).drop n } = .next a out)
    (hact' : action t' ((T ++ R').take n') { s with data := (T ++ R').drop n' } = .next b out')
    (hlen : R.length ≤ a.data.length) (hlen' : R'.length ≤ b.data.length) : SameStep T R R' a b out out' := by
  obtain ⟨hpos, hle⟩ := next_bounds hb hsome
  obtain ⟨-, hle'⟩ := next_bounds hb hsome'
  rw [hframe] at hact
  rw [hframe'] at hact'
  have hn : n ≤ T.length := by
    rw [(same_of_withData hact hact).1, List.length_drop] at hlen
    rw [List.length_append] at hlen hle
    omega
  have hn' : n' ≤ T.length := by
    rw [(same_of_withData hact' hact').1, List.length_drop] at hlen'
    rw [List.length_append] at hlen' hle'
    omega
  obtain ⟨rfl, rfl⟩ := next_same hsome hsome' hn hn'
  rw [List.take_append_of_le_length hn] at hact hact'
  obtain ⟨hdata, hab, hout⟩ := same_of_withData hact hact'
  refine ⟨T.drop n, ?_, ?_, ?_, hout⟩
  · rw [List.length_drop]
    omega
  · rw [hdata, List.drop_append_of_le_length hn]
  · rw [hab, List.drop_append_of_le_length hn]

/-- A newline that looks behind `T`. -/
theorem goesOn_of_newline {n : ℕ} (hlong : Longest ruleRules (T ++ R) .newline n)
    (hn : T.length < n) (ha : a.cond = .rule)
    (hdata : a.data = ((T ++ R).take n).drop (newlineLength ((T ++ R).take n)) ++ (T ++ R).drop n) :
    GoesOn a R.length := by
  obtain ⟨nl, -, Y, hY, htext, hlen⟩ := newline_text hlong
  refine ⟨ha, Y, hY, (T ++ R).drop n, ?_, ?_⟩
  · rw [hdata, hlen, htext, List.drop_left, List.append_assoc]
    rfl
  · have hle := hlong.le
    rw [List.length_drop]
    rw [List.length_append] at hle ⊢
    omega

/-- The token in front of `R'` is a newline as well, if that in front of `R` does not look behind `T`. -/
theorem newline_same {t' : RuleRule} {n n' : ℕ} (hlong : Longest ruleRules (T ++ R) .newline n)
    (hn : n ≤ T.length) (hsome' : next ruleRules .other (T ++ R') = some (t', n')) : t' = .newline := by
  have hnames := hlong.names
  rw [List.take_append_of_le_length hn] at hnames
  cases htake : T.take n with
  | nil => exact absurd htake (ruleRules_ne_nil hnames)
  | cons x v =>
    have hpre : T.take n <+: T ++ R' := (List.take_prefix n T).trans (List.prefix_append T R')
    obtain ⟨y, hy⟩ := htake ▸ hpre
    obtain ⟨hlong', w, hw⟩ := token_of_word hsome' hnames.word hpre hy.symm
    have hnames' := hlong'.names
    rw [hw] at hnames'
    rw [htake] at hnames
    have hx : x = 10 ∨ x = 13 := by
      rcases ruleRules_head hnames with ⟨h, -⟩ | ⟨-, h⟩ | ⟨h, -⟩ | ⟨h, -⟩ | ⟨h, -⟩
      · cases h
      · exact h
      · cases h
      · cases h
      · cases h
    exact names_of_newline hnames' hx

/-- The newline at the head of `T`. -/
theorem newline_within {nl d x : ZendString} (h : T ++ x = nl ++ d)
    (hlen : x.length ≤ d.length) : ∃ T', T = nl ++ T' ∧ d = T' ++ x := by
  have hlength := congrArg List.length h
  rw [List.length_append, List.length_append] at hlength
  obtain ⟨T', rfl⟩ : nl <+: T :=
    List.prefix_of_prefix_length_le ⟨d, h.symm⟩ (List.prefix_append T x) (by omega)
  rw [List.append_assoc] at h
  exact ⟨T', rfl, (List.append_cancel_left h).symm⟩

theorem sameStep_of_newline {n n' : ℕ} (hlong : Longest ruleRules (T ++ R) .newline n)
    (hlong' : Longest ruleRules (T ++ R') .newline n')
    (hact : ruleAction c .newline ((T ++ R).take n) { s with data := (T ++ R).drop n } = .next a out)
    (hact' : ruleAction c .newline ((T ++ R').take n') { s with data := (T ++ R').drop n' } = .next b out')
    (hlen : R.length ≤ a.data.length) (hlen' : R'.length ≤ b.data.length) : SameStep T R R' a b out out' := by
  obtain ⟨nl, hnl, hsplit⟩ := newline_split hlong
  obtain ⟨nl', hnl', hsplit'⟩ := newline_split hlong'
  cases hact
  cases hact'
  obtain ⟨T', hT, hd⟩ := newline_within hsplit hlen
  obtain ⟨T'', hT', hd'⟩ := newline_within hsplit' hlen'
  obtain rfl := newline_unique hnl hnl' (hT.symm.trans hT')
  obtain rfl := List.append_cancel_left (hT.symm.trans hT')
  refine ⟨T', ?_, hd, ?_, rfl⟩
  · rw [hT, List.length_append]
    rcases mem_newline.mp hnl with rfl | rfl <;> simp
  · rw [← hd']

/-- **A step that leaves what is behind `T` does the same in front of every text**, or a rule goes on
there. -/
theorem step_same (h : step c { s with data := T ++ R } = .next a out)
    (h' : step c { s with data := T ++ R' } = .next b out') (hlen : R.length ≤ a.data.length)
    (hlen' : R'.length ≤ b.data.length) :
    SameStep T R R' a b out out' ∨ GoesOn a R.length ∨ GoesOn b R'.length := by
  cases hcond : s.cond with
  | init =>
    obtain ⟨t, n, hsome, hact⟩ := init_token (s := { s with data := T ++ R }) hcond h
    obtain ⟨t', n', hsome', hact'⟩ := init_token (s := { s with data := T ++ R' }) hcond h'
    exact Or.inl (sameStep_of_next (s := s) bounded_initRules hsome hsome'
      (fun _ _ => initAction_data ..) (fun _ _ => initAction_data ..) hact hact' hlen hlen')
  | cond =>
    obtain ⟨t, n, hsome, hact⟩ := cond_token (s := { s with data := T ++ R }) hcond h
    obtain ⟨t', n', hsome', hact'⟩ := cond_token (s := { s with data := T ++ R' }) hcond h'
    exact Or.inl (sameStep_of_next (s := s) bounded_condRules hsome hsome'
      (fun _ _ => condAction_data ..) (fun _ _ => condAction_data ..) hact hact' hlen hlen')
  | condOp =>
    obtain ⟨t, n, hsome, hact⟩ := condOp_token (s := { s with data := T ++ R }) hcond h
    obtain ⟨t', n', hsome', hact'⟩ := condOp_token (s := { s with data := T ++ R' }) hcond h'
    exact Or.inl (sameStep_of_next (s := s) bounded_condOpRules hsome hsome'
      (fun _ _ => condOpAction_data ..) (fun _ _ => condOpAction_data ..) hact hact' hlen hlen')
  | rule =>
    obtain ⟨t, n, hsome, hact⟩ := rule_token (s := { s with data := T ++ R }) hcond h
    obtain ⟨t', n', hsome', hact'⟩ := rule_token (s := { s with data := T ++ R' }) hcond h'
    -- the newline whose context is behind `T`
    have hcross : ∀ {x : ZendString} {k : ℕ} {d : State} {o : Option Statement},
        next ruleRules .other (T ++ x) = some (.newline, k) → T.length < k →
        ruleAction c .newline ((T ++ x).take k) { s with data := (T ++ x).drop k } = .next d o →
        GoesOn d x.length := by
      intro x k d o hnext hk hd
      cases hd
      exact goesOn_of_newline (longest_of_next hnext nofun) hk hcond rfl
    by_cases ht : t = .newline
    · subst ht
      have hlong := longest_of_next hsome nofun
      by_cases hn : n ≤ T.length
      · obtain rfl := newline_same hlong hn hsome'
        have hlong' := longest_of_next hsome' nofun
        exact Or.inl (sameStep_of_newline (s := s) hlong hlong' hact hact' hlen hlen')
      · exact Or.inr (Or.inl (hcross hsome (Nat.lt_of_not_le hn) hact))
    · by_cases ht' : t' = .newline
      · subst ht'
        by_cases hn' : n' ≤ T.length
        · exact absurd (newline_same (longest_of_next hsome' nofun) hn' hsome) ht
        · exact Or.inr (Or.inr (hcross hsome' (Nat.lt_of_not_le hn') hact'))
      · exact Or.inl (sameStep_of_next (s := s) bounded_ruleRules hsome hsome'
          (ruleAction_data ht) (ruleAction_data ht') hact hact' hlen hlen')

end Same

/-- **A text that is read to its end in front of two texts does the same in front of both.** -/
theorem InPlace.same {l l' : List Statement} {s₁ s₂ : State} (h : InPlace c s T R l s₁)
    (h' : InPlace c s T R' l' s₂) : l = l' ∧ s₂ = { s₁ with data := R' } := by
  induction hn : T.length using Nat.strong_induction_on generalizing s T l l' with
  | _ n ih =>
    obtain ⟨hsteps, hcond, hdata⟩ := h
    obtain ⟨hsteps', hcond', hdata'⟩ := h'
    have hlen : R.length = s₁.data.length := by rw [hdata]
    have hlen' : R'.length = s₂.data.length := by rw [hdata']
    cases hsteps with
    | refl =>
      -- nothing is read in front of `R`, so `T` is empty
      obtain rfl : T = [] := List.append_left_eq_self.mp hdata
      cases hsteps' with
      | refl => exact ⟨rfl, rfl⟩
      | cons hstep' hrest' =>
        have hlt := steps_lt hstep' hrest'
        exact absurd hlt (by rw [← hlen']; exact Nat.lt_irrefl _)
    | @cons _ a _ out l hstep hrest =>
      cases hsteps' with
      | refl =>
        obtain rfl : T = [] := List.append_left_eq_self.mp hdata'
        have hlt := steps_lt hstep hrest
        exact absurd hlt (by rw [← hlen]; exact Nat.lt_irrefl _)
      | @cons _ b _ out' l' hstep' hrest' =>
        have hle := steps_le hrest
        have hle' := steps_le hrest'
        rcases step_same hstep hstep' (by omega) (by omega) with
          ⟨T', hT', ha, rfl, rfl⟩ | hgoes | hgoes
        · have hafter : InPlace c a T' R l s₁ := ⟨by rw [← ha]; exact hrest, hcond, hdata⟩
          obtain ⟨rfl, hs⟩ := ih T'.length (hn ▸ hT') hafter ⟨hrest', hcond', hdata'⟩ rfl
          exact ⟨rfl, hs⟩
        · have hrule := goesOn_steps hrest hgoes (by omega)
          rw [hcond] at hrule
          cases hrule
        · have hrule := goesOn_steps hrest' hgoes (by omega)
          rw [hcond'] at hrule
          cases hrule

end Snuffleupagus.Scanner.Cut
