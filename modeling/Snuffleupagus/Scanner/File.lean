import Snuffleupagus.Scanner.RoundTrip
import Snuffleupagus.Scanner.Textual

/-! # A file of rules

A file with one rule a line is scanned to its rules, in their order, each keyword with the line it stands in
(`scan_file`). The keywords are those the scanner makes, except that an argument does not end with a backslash:
such an argument may run on into the next one. -/

namespace Snuffleupagus.Scanner.File

open Snuffleupagus.Lib.Lexer Snuffleupagus.Php.Bytes
open Snuffleupagus.Config.Keyword (SpParsedKeyword)
open Snuffleupagus.Load.Module (Statement)
open Snuffleupagus.Scanner.Token Snuffleupagus.Scanner.Scan Snuffleupagus.Scanner.Run Snuffleupagus.Scanner.Word
open Snuffleupagus.Scanner.Textual

variable {c : Context} {s : State} {kw : SpParsedKeyword} {kws : List SpParsedKeyword} {a w rest : ZendString}

/-! ### Where a keyword ends -/

/-- A keyword that is read as it is written. -/
structure Clean (kw : SpParsedKeyword) : Prop where
  made : Made kw
  ascii : ∀ arg ∈ kw.arg, ∀ b ∈ arg, isNonascii b = false
  ends : ∀ arg ∈ kw.arg, arg.getLast? ≠ some 92

/-- What stands behind a keyword: another one, or the end of the rule. -/
def Follows (rest : ZendString) : Prop := ∃ b x, rest = b :: x ∧ (b = 46 ∨ b = 59)

theorem Follows.head (h : Follows rest) : ∃ b x, rest = b :: x ∧ isWord b = false ∧ b ≠ 40 := by
  obtain ⟨b, x, rfl, rfl | rfl⟩ := h
  · exact ⟨46, x, rfl, rfl, by decide⟩
  · exact ⟨59, x, rfl, rfl, by decide⟩

/-- A string at the head of an argument is not longer, unless the argument ends with a backslash. -/
theorem length_body_le {body : ZendString} (hbody : QuotesEscaped false body) (hlast : a.getLast? ≠ some 92)
    (hpre : body ++ [34, 41] <+: a ++ 34 :: 41 :: rest) : body.length ≤ a.length := by
  by_contra hlen
  have hquote : a ++ [34] <+: a ++ 34 :: 41 :: rest := ⟨41 :: rest, by simp⟩
  have hshort : a ++ [34] <+: body := by
    refine List.prefix_of_prefix_length_le hquote ((List.prefix_append body [34, 41]).trans hpre) ?_
    rw [List.length_append, List.length_singleton]
    omega
  obtain ⟨v, rfl⟩ := hshort
  rw [List.append_assoc] at hbody
  -- the quote behind the argument stands in the string
  rcases hbody.getLast with ⟨-, hnot⟩ | hback
  · exact Bool.false_ne_true hnot
  · exact hlast hback

/-- No token at the head of a keyword is longer. -/
theorem length_le_token (h : Clean kw) (hrest : Follows rest) (hw : w ∈ ruleKeyword.language)
    (hpre : w <+: token kw ++ rest) : w.length ≤ (token kw).length := by
  have hword := isWord_of_mem_keyword h.made.name
  obtain ⟨k, hk, hcases⟩ := mem_ruleKeyword.mp hw
  have hwk := isWord_of_mem_keyword hk
  obtain ⟨htype, harg⟩ | ⟨htype, harg⟩ | ⟨htype, body, harg, hbody⟩ := h.made.arg
  · -- there is no argument
    obtain ⟨b, x, rfl, hb, hne⟩ := hrest.head
    have hwritten : written kw = none := by
      unfold written
      rw [htype]
    rw [token_of_none hwritten] at hpre ⊢
    rcases hcases with rfl | ⟨arg, -, rfl⟩
    · have hle := length_le_of_prefix hb hwk (List.cons_prefix_cons.mp hpre).2
      exact Nat.succ_le_succ hle
    · -- the word goes on with a parenthesis, the text with something else
      obtain ⟨z, hz⟩ := (List.cons_prefix_cons.mp hpre).2
      have hz : k ++ (40 :: (arg ++ [41]) ++ z) = kw.kw ++ b :: x := (List.append_assoc _ _ _).symm.trans hz
      have hname := congrArg (List.takeWhile isWord) hz
      rw [List.takeWhile_append_of_pos hwk, List.takeWhile_append_of_pos hword, List.cons_append,
        List.takeWhile_cons_of_neg (Bool.eq_false_iff.mp rfl), List.takeWhile_cons_of_neg (Bool.eq_false_iff.mp hb),
        List.append_nil, List.append_nil] at hname
      rw [hname] at hz
      exact absurd (List.cons_eq_cons.mp (List.append_cancel_left hz)).1.symm hne
  · -- the argument is empty
    have hwritten : written kw = some [] := by
      unfold written
      rw [htype]
    rw [token_of_some hwritten] at hpre ⊢
    rcases hcases with rfl | ⟨arg, hmem, rfl⟩
    · have hspan : k <+: kw.kw ++ 40 :: (41 :: rest) := by simpa using hpre
      have hle := length_le_of_prefix rfl hwk hspan
      simp only [List.length_cons, List.length_append]
      omega
    · have hspan : k ++ 40 :: (arg ++ [41]) <+: kw.kw ++ 40 :: (41 :: rest) := by simpa using hpre
      obtain ⟨rfl, harg⟩ := word_span rfl hwk hword hspan
      rcases hmem with hstring | rfl | hkeyword
      · obtain ⟨body, rfl, -⟩ := mem_string.mp hstring
        cases (List.cons_prefix_cons.mp harg).1
      · exact le_rfl
      · obtain ⟨b, u, rfl, hb, -⟩ := mem_keyword.mp hkeyword
        rw [(List.cons_prefix_cons.mp harg).1] at hb
        cases hb
  · -- the argument is a string
    have hwritten : written kw = some (34 :: (body ++ [34])) := by
      unfold written
      rw [htype, harg]
      rfl
    rw [token_of_some hwritten] at hpre ⊢
    have hpre : w <+: 46 :: (kw.kw ++ 40 :: 34 :: (body ++ 34 :: 41 :: rest)) := by simpa using hpre
    rcases keyword_word hw hword hpre with hle | ⟨body', hbody', rfl, hpre'⟩
    · simp only [List.length_cons, List.length_append]
      omega
    · have hle := length_body_le hbody' (h.ends body harg) hpre'
      rw [RoundTrip.length_keywordText]
      simp only [List.length_cons, List.length_append, List.length_nil]
      omega

/-- **The token at a keyword** is the keyword. -/
theorem next_token (h : Clean kw) (hrest : Follows rest) (h0 : ∃ x, rest = x ++ [0]) :
    next ruleRules .other (token kw ++ rest) = some (.keyword, (token kw).length) := by
  obtain ⟨x, rfl⟩ := h0
  have hword : Word ruleRules (token kw) :=
    ⟨(ruleKeyword, .keyword), by simp [ruleRules, ruleKeyword], h.made.spells.mem⟩
  have hfit : Fits (token kw ++ (x ++ [0])) (token kw) := Or.inl (List.prefix_append _ _)
  have hnul : ∃ y, token kw ++ (x ++ [0]) = y ++ [0] := ⟨token kw ++ x, (List.append_assoc _ _ _).symm⟩
  obtain ⟨t, n, hsome, -⟩ := next_of_nul .other bounded_ruleRules hnul
  rcases next_eq_some hsome with hl | ⟨-, -, -, hnone⟩
  · have hpre : (token kw ++ (x ++ [0])).take n <+: token kw ++ (x ++ [0]) := List.take_prefix _ _
    obtain ⟨rfl, hmem⟩ := ruleRules_dot hl.names hpre
    have hle := length_le_token h hrest hmem hpre
    have hge := hl.max _ hword hfit
    rw [List.length_take_of_le hl.le] at hle
    rw [hsome, Nat.le_antisymm hle hge]
  · exact absurd hfit (hnone _ hword)

/-! ### One rule -/

/-- The keyword, read in line `n`. -/
def placed (c : Context) (n : ℕ) (kw : SpParsedKeyword) : SpParsedKeyword :=
  { kw with lineno := n, filename := c.filename }

/-- What the scanner makes of the text of a keyword. -/
theorem parseKeyword_token (h : Clean kw) : parseKeyword c s (token kw) = .ok (placed c s.lineno kw) := by
  obtain ⟨kw', arg', type, lineno, filename⟩ := kw
  have hparts := h.made.spells.parts
  unfold parseKeyword
  obtain ⟨rfl, rfl⟩ | ⟨rfl, rfl⟩ | ⟨rfl, body, rfl, -⟩ := h.made.arg
  · rw [hparts]
    rfl
  · rw [hparts]
    rfl
  · have hfind : (34 :: (body ++ [34])).find? isNonascii = none := by
      rw [List.find?_eq_none]
      intro b hb
      simp only [List.mem_cons, List.mem_append, List.not_mem_nil, or_false] at hb
      rcases hb with rfl | hb | rfl
      · exact Bool.false_ne_true
      · rw [h.ascii body rfl b hb]
        exact Bool.false_ne_true
      · exact Bool.false_ne_true
    rw [hparts]
    simp [written, placed, hfind, inner_concat]

/-- A keyword is read. -/
theorem step_token (h : Clean kw) (hrest : Follows rest) (h0 : ∃ x, rest = x ++ [0]) (hcond : s.cond = .rule)
    (hskip : s.skipping = false) (hroom : s.parsedRule.length < maxKeywords) (hdata : s.data = token kw ++ rest) :
    step c s = .next { s with data := rest, parsedRule := s.parsedRule ++ [placed c s.lineno kw] } none := by
  have hnext := next_token h hrest h0
  rw [← hdata] at hnext
  have htake : s.data.take (token kw).length = token kw := by rw [hdata, List.take_left]
  have hdrop : s.data.drop (token kw).length = rest := by rw [hdata, List.drop_left]
  have hparses : parseKeyword c s (s.data.take (token kw).length) = .ok (placed c s.lineno kw) := by
    rw [htake]
    exact parseKeyword_token h
  rw [step_keyword hcond hnext hskip (Nat.ne_of_lt hroom) hparses, hdrop]

theorem follows_flatMap (x : ZendString) : Follows (kws.flatMap token ++ 59 :: x) := by
  cases kws with
  | nil => exact ⟨59, x, rfl, .inr rfl⟩
  | cons kw kws => exact ⟨46, _, rfl, .inl rfl⟩

/-- The keywords of a rule are read, one after the other. -/
theorem steps_tokens {x : ZendString} (h0 : ∃ y, x = y ++ [0]) : ∀ {kws : List SpParsedKeyword} {s : State},
    (∀ kw ∈ kws, Clean kw) → s.cond = .rule → s.skipping = false →
    s.parsedRule.length + kws.length ≤ maxKeywords → s.data = kws.flatMap token ++ 59 :: x →
    Steps c s [] { s with data := 59 :: x, parsedRule := s.parsedRule ++ kws.map (placed c s.lineno) }
  | [], s, _, _, _, _, hdata => by
    have hsame : s.data = 59 :: x := hdata
    rw [List.map_nil, List.append_nil, ← hsame]
    exact .refl s
  | kw :: kws, s, hclean, hcond, hskip, hroom, hdata => by
    obtain ⟨hkw, hkws⟩ := List.forall_mem_cons.mp hclean
    rw [List.length_cons] at hroom
    rw [List.flatMap_cons, List.append_assoc] at hdata
    have hnul : ∃ y, kws.flatMap token ++ 59 :: x = y ++ [0] := by
      obtain ⟨y, rfl⟩ := h0
      exact ⟨kws.flatMap token ++ 59 :: y, by simp⟩
    have hstep := step_token (c := c) hkw (follows_flatMap x) hnul hcond hskip (by omega) hdata
    have hrest := steps_tokens h0 hkws
      (s := { s with data := kws.flatMap token ++ 59 :: x, parsedRule := s.parsedRule ++ [placed c s.lineno kw] })
      hcond hskip (by simp only [List.length_append, List.length_singleton]; omega) rfl
    rw [List.append_assoc] at hrest
    exact .cons hstep hrest

/-! ### One line after the other -/

/-- The scanner is between two rules, at the head of a line. -/
structure AtLine (s : State) (n : ℕ) (data : ZendString) : Prop where
  cond : s.cond = .init
  active : s.skipping = false
  lineno : s.lineno = n
  data : s.data = data

/-- A line with a rule. -/
def line (kws : List SpParsedKeyword) : ZendString := text kws ++ [10]

theorem next_sp (x : ZendString) : next initRules .other (115 :: 112 :: x) = some (.sp, 2) := by
  cases x <;> rfl

theorem next_newline (x : ZendString) : next initRules .other (10 :: x) = some (.newline, 1) := by
  cases x <;> rfl

theorem next_semicolon (x : ZendString) : next ruleRules .other (59 :: x) = some (.semicolon, 1) := by
  cases x <;> rfl

/-- **A line gives its rule.** -/
theorem steps_line {n : ℕ} (hs : AtLine s n (line kws ++ rest)) (hclean : ∀ kw ∈ kws, Clean kw)
    (hlen : kws.length ≤ maxKeywords) (h0 : ∃ y, rest = y ++ [0]) :
    ∃ s', Steps c s [.rule (kws.map (placed c n))] s' ∧ AtLine s' (n + 1) rest := by
  have hdata : s.data = 115 :: 112 :: (kws.flatMap token ++ 59 :: (10 :: rest)) := by
    rw [hs.data]
    simp [line, text, zstr]
  have hnul : ∃ y, 10 :: rest = y ++ [0] := by
    obtain ⟨y, rfl⟩ := h0
    exact ⟨10 :: y, rfl⟩
  -- `sp`
  set s₁ : State := { s with cond := .rule, data := kws.flatMap token ++ 59 :: (10 :: rest), parsedRule := [] } with hs₁
  have hsp : step c s = .next s₁ none := by
    rw [step_init_of_next hs.cond (hdata ▸ next_sp _), hdata]
    rfl
  -- the keywords
  have hkws := steps_tokens (c := c) (s := s₁) hnul hclean rfl hs.active (by simpa [hs₁] using hlen) rfl
  set s₂ : State := { s₁ with data := 59 :: (10 :: rest), parsedRule := s₁.parsedRule ++ kws.map (placed c s₁.lineno) }
    with hs₂
  -- the semicolon, and the newline
  have hend : step c s₂ = .next { s₂ with cond := .init, data := 10 :: rest } (some (.rule (kws.map (placed c n)))) := by
    have hskip : s₂.skipping = false := hs.active
    rw [step_endOfRule rfl (next_semicolon _) (.inl rfl), hskip, ← hs.lineno]
    rfl
  have hnewline : step c { s₂ with cond := .init, data := 10 :: rest } =
      .next { s₂ with cond := .init, data := rest, lineno := s.lineno + 1 } none := by
    rw [step_init_of_next rfl (next_newline rest)]
    rfl
  refine ⟨_, .cons hsp (hkws.trans (.cons hend (.cons hnewline (.refl _)))), rfl, hs.active, ?_, rfl⟩
  rw [← hs.lineno]

/-- The rules of the lines, from line `n` on. -/
def rulesFrom (c : Context) : ℕ → List (List SpParsedKeyword) → List Statement
  | _, [] => []
  | n, kws :: rules => .rule (kws.map (placed c n)) :: rulesFrom c (n + 1) rules

/-- **The lines give their rules**, and the scan ends behind them. -/
theorem run_lines : ∀ {rules : List (List SpParsedKeyword)} {s : State} {n : ℕ},
    AtLine s n (rules.flatMap line ++ [0]) → (∀ kws ∈ rules, kws.length ≤ maxKeywords ∧ ∀ kw ∈ kws, Clean kw) →
    runFrom c s = (rulesFrom c n rules, .success)
  | [], s, n, hs, _ => by
    have hnext : next initRules .other s.data = some (InitRule.endByte, 1) := by
      rw [hs.data]
      rfl
    have hstop : step c s = .stop .success := by
      rw [step_init_of_next hs.cond hnext]
      rfl
    rw [runFrom_eq, hstop]
    rfl
  | kws :: rules, s, n, hs, hrules => by
    obtain ⟨⟨hlen, hclean⟩, hrest⟩ := List.forall_mem_cons.mp hrules
    rw [List.flatMap_cons, List.append_assoc] at hs
    obtain ⟨s', hsteps, hs'⟩ := steps_line hs hclean hlen ⟨_, rfl⟩
    rw [runFrom_of_steps hsteps, run_lines hs' hrest]
    rfl

/-- **A file with one rule a line is scanned to its rules.** -/
theorem scan_file (c : Context) {rules : List (List SpParsedKeyword)}
    (h : ∀ kws ∈ rules, kws.length ≤ maxKeywords ∧ ∀ kw ∈ kws, Clean kw) :
    spConfigScan c (rules.flatMap line) = (rulesFrom c 1 rules, .success) :=
  run_lines ⟨rfl, rfl, rfl, rfl⟩ h

end Snuffleupagus.Scanner.File
