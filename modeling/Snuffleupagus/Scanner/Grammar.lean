import Snuffleupagus.Load.Cases
import Snuffleupagus.Scanner.Run

/-! # The grammar of a configuration

What a file may consist of: blanks, newlines, comments, statements, conditions whose expression is one,
and rules that a semicolon or an end of line ends. `Reads`, `Rule` and `Tail` say so with the tokens of
the scanner, each the longest at its place, but know nothing of its states.

The scanner takes more: any byte ends a rule, and the first NUL between two statements ends the file.
`whole_iff` says that a file it takes has the grammar exactly if neither happens. -/

namespace Snuffleupagus.Scanner.Grammar

open Snuffleupagus.Lib.Lexer Snuffleupagus.Lib.Derivative Snuffleupagus.Lib.Precedence
open Snuffleupagus.Lib.Attempts Snuffleupagus.Lib.Effect Snuffleupagus.Php.Bytes
open Snuffleupagus.Config.Keyword Snuffleupagus.Config.Rule Snuffleupagus.Config.Root
open Snuffleupagus.Load.Module (Statement Environment spParseConfig)
open Snuffleupagus.Load.Cases (readsTo_configError)
open Snuffleupagus.Scanner.Condition Snuffleupagus.Scanner.Token Snuffleupagus.Scanner.Scan
open Snuffleupagus.Scanner.Action Snuffleupagus.Scanner.Run

/-! ### The grammar -/

/-- No token of a rule begins here. -/
def NoToken (data : ZendString) : Prop := ∀ w, Word ruleRules w → ¬ Fits data w

/-- A rule behind its `sp`: keywords, up to a semicolon or the end of a line. A line goes on in the next
one if that begins with a dot. -/
inductive Rule : ZendString → ZendString → Prop
  | blank {data rest : ZendString} {n : ℕ} (h : Longest ruleRules data .whitespace n)
      (hrest : Rule (data.drop n) rest) : Rule data rest
  | continued {nl data rest : ZendString} {n : ℕ} (h : Longest ruleRules (nl ++ data) .newline n)
      (hnl : nl ∈ newline.language) (hrest : Rule data rest) : Rule (nl ++ data) rest
  | keyword {data rest : ZendString} {n : ℕ} (h : Longest ruleRules data .keyword n)
      (hrest : Rule (data.drop n) rest) : Rule data rest
  | semicolon {data : ZendString} {n : ℕ} (h : Longest ruleRules data .semicolon n) : Rule data (data.drop n)
  | endOfLine {nl data : ZendString} (h : NoToken (nl ++ data)) (hnl : nl ∈ newline.language) :
      Rule (nl ++ data) data

/-- A condition up to its semicolon, where an operand is expected or an operator. What a value is
depends on more than the text. -/
inductive Tail : Bool → List CondToken → ZendString → ZendString → Prop
  | blank {ts : List CondToken} {data rest : ZendString} {t : CondRule} {n : ℕ}
      (h : Longest condRules data t n) (ht : t = .whitespace ∨ t = .newline)
      (hrest : Tail false ts (data.drop n) rest) : Tail false ts data rest
  | value {ts : List CondToken} {data rest : ZendString} {t : CondRule} {n : ℕ} (v : ℤ)
      (h : Longest condRules data t n) (ht : t = .call ∨ t = .keyword ∨ t = .number)
      (hrest : Tail true ts (data.drop n) rest) : Tail false (.value v :: ts) data rest
  | unary {ts : List CondToken} {data rest : ZendString} {n : ℕ} (h : Longest condRules data .not n)
      (hrest : Tail false ts (data.drop n) rest) : Tail false (.unary :: ts) data rest
  | lparen {ts : List CondToken} {data rest : ZendString} {n : ℕ} (h : Longest condRules data .lparen n)
      (hrest : Tail false ts (data.drop n) rest) : Tail false (.lparen :: ts) data rest
  | blankOp {ts : List CondToken} {data rest : ZendString} {t : CondOpRule} {n : ℕ}
      (h : Longest condOpRules data t n) (ht : t = .whitespace ∨ t = .newline)
      (hrest : Tail true ts (data.drop n) rest) : Tail true ts data rest
  | binary {ts : List CondToken} {data rest : ZendString} {n : ℕ} (h : Longest condOpRules data .operator n)
      (hrest : Tail false ts (data.drop n) rest) : Tail true (.binary (binOp (data.take n)) :: ts) data rest
  | rparen {ts : List CondToken} {data rest : ZendString} {n : ℕ} (h : Longest condOpRules data .rparen n)
      (hrest : Tail true ts (data.drop n) rest) : Tail true (.rparen :: ts) data rest
  | semicolon {data : ZendString} {n : ℕ} (h : Longest condOpRules data .semicolon n) :
      Tail true [] data (data.drop n)

/-- The tokens are an expression. -/
def WellFormed (ts : List CondToken) : Prop := ∃ e, Parses operators 0 ts e

/-- The rest of a file, with the NUL behind it. -/
inductive Reads : ZendString → Prop
  | done : Reads [0]
  | plain {data : ZendString} {t : InitRule} {n : ℕ} (h : Longest initRules data t n) (ht : plain t = true)
      (hrest : Reads (data.drop n)) : Reads data
  | condition {data rest : ZendString} {ts : List CondToken} {n : ℕ} (h : Longest initRules data .condition n)
      (htail : Tail false ts (data.drop n) rest) (hwf : WellFormed ts) (hrest : Reads rest) : Reads data
  | rule {data rest : ZendString} {n : ℕ} (h : Longest initRules data .sp n) (hrule : Rule (data.drop n) rest)
      (hrest : Reads rest) : Reads data

/-- The contents of a file that has the grammar. -/
def InGrammar (contents : ZendString) : Prop := Reads (contents ++ [0])

/-- The next token is none of those the grammar has no place for: a rule is ended by a semicolon or an
end of line, and a NUL between statements is the one behind the file. -/
def Tame (s : State) : Prop :=
  (s.cond = .rule → NoToken s.data → ∃ nl ∈ newline.language, nl <+: s.data) ∧
    (s.cond = .init → s.data.head? = some 0 → s.data = [0])

variable {c : Context} {s s' : State} {out : Option Statement} {ts : List CondToken}

/-! ### What the scanner still demands -/

/-- What has to follow in each start condition; `ts` is what has been read of a condition. -/
def Demands : Cond → List CondToken → ZendString → Prop
  | .init, _, data => Reads data
  | .rule, _, data => ∃ rest, Rule data rest ∧ Reads rest
  | .cond, ts, data => ∃ us rest, Tail false us data rest ∧ WellFormed (ts ++ us) ∧ Reads rest
  | .condOp, ts, data => ∃ us rest, Tail true us data rest ∧ WellFormed (ts ++ us) ∧ Reads rest

/-! ### A file that is taken has the grammar -/

/-- What a token of `<init>` leads to, if the rest has the grammar. -/
theorem demands_init (hcond : s.cond = .init) (hist : History s ts) (h : step c s = .next s' out) :
    ∃ ts', History s' ts' ∧ (Demands s'.cond ts' s'.data → Reads s.data) := by
  have hops := (history_outside (Or.inl hcond)).mp hist
  obtain ⟨t, n, hsome, hact⟩ := init_token hcond h
  have hlong := longest_of_next hsome (by rintro rfl; cases hact)
  obtain ⟨hdata, ⟨ht, hcond', hsy⟩ | ⟨rfl, hcond', hsy⟩ | ⟨rfl, hcond', hsy⟩⟩ := initAction_next hact
  · have hcond' : s'.cond = .init := hcond'.trans hcond
    refine ⟨[], (history_outside (Or.inl hcond')).mpr (hsy.trans hops), ?_⟩
    rw [hcond', hdata]
    exact fun hrest => .plain hlong ht hrest
  · refine ⟨[], (history_cond hcond').mpr ⟨s.sy.condRes0, ?_⟩, ?_⟩
    · have hsy : s'.sy = { condRes := [], condRes0 := s.sy.condRes0, condOp := s.sy.condOp } := hsy
      rw [hsy, hops]
      rfl
    · rw [hcond', hdata]
      rintro ⟨us, rest, htail, hwf, hrest⟩
      exact .condition hlong htail hwf hrest
  · refine ⟨[], (history_outside (Or.inr hcond')).mpr (by rw [hsy]; exact hops), ?_⟩
    rw [hcond', hdata]
    rintro ⟨rest, hrule, hrest⟩
    exact .rule hlong hrule hrest

/-- The same for a condition, where an operand is expected. -/
theorem demands_cond (hcond : s.cond = .cond) (hist : History s ts) (h : step c s = .next s' out) :
    ∃ ts', History s' ts' ∧ (Demands s'.cond ts' s'.data → Demands .cond ts s.data) := by
  obtain ⟨v, hts⟩ := (history_cond hcond).mp hist
  obtain ⟨t, n, hsome, hact⟩ := cond_token hcond h
  have hlong := longest_of_next hsome (by rintro rfl; cases hact)
  obtain ⟨hdata, ⟨ht, hcond', hsy⟩ | ⟨k, hk, hfeed⟩⟩ := condAction_next hact
  · have hcond' : s'.cond = .cond := hcond'.trans hcond
    refine ⟨ts, (history_cond hcond').mpr ⟨v, by rw [hsy]; exact hts⟩, ?_⟩
    rw [hcond', hdata]
    rintro ⟨us, rest, htail, hwf, hrest⟩
    exact ⟨us, rest, .blank hlong ht htail, hwf, hrest⟩
  · obtain ⟨-, b, htok, hcond'⟩ := feed_next hfeed
    have htok : syToken k (s.cond == .condOp, s.sy) = .ok (b, s'.sy) := htok
    rw [hcond] at htok
    refine ⟨ts ++ [k], history_feed hts htok hcond', ?_⟩
    rw [hcond', hdata, flag_of_syToken htok]
    rcases hk with ⟨w, rfl, ht⟩ | ⟨rfl, rfl⟩ | ⟨rfl, rfl⟩
    · rintro ⟨us, rest, htail, hwf, hrest⟩
      exact ⟨.value w :: us, rest, .value w hlong ht htail, List.append_cons ts _ us ▸ hwf, hrest⟩
    · rintro ⟨us, rest, htail, hwf, hrest⟩
      exact ⟨.unary :: us, rest, .unary hlong htail, List.append_cons ts _ us ▸ hwf, hrest⟩
    · rintro ⟨us, rest, htail, hwf, hrest⟩
      exact ⟨.lparen :: us, rest, .lparen hlong htail, List.append_cons ts _ us ▸ hwf, hrest⟩

/-- And where an operator is expected. -/
theorem demands_condOp (hcond : s.cond = .condOp) (hist : History s ts) (h : step c s = .next s' out) :
    ∃ ts', History s' ts' ∧ (Demands s'.cond ts' s'.data → Demands .condOp ts s.data) := by
  obtain ⟨v, hts⟩ := (history_condOp hcond).mp hist
  obtain ⟨t, n, hsome, hact⟩ := condOp_token hcond h
  have hlong := longest_of_next hsome (by rintro rfl; cases hact)
  obtain ⟨hdata, ⟨ht, hcond', hsy⟩ | ⟨k, hk, hfeed⟩ | ⟨rfl, hend, hcond'⟩⟩ := condOpAction_next hact
  · have hcond' : s'.cond = .condOp := hcond'.trans hcond
    refine ⟨ts, (history_condOp hcond').mpr ⟨v, by rw [hsy]; exact hts⟩, ?_⟩
    rw [hcond', hdata]
    rintro ⟨us, rest, htail, hwf, hrest⟩
    exact ⟨us, rest, .blankOp hlong ht htail, hwf, hrest⟩
  · obtain ⟨-, b, htok, hcond'⟩ := feed_next hfeed
    have htok : syToken k (s.cond == .condOp, s.sy) = .ok (b, s'.sy) := htok
    rw [hcond] at htok
    refine ⟨ts ++ [k], history_feed hts htok hcond', ?_⟩
    rw [hcond', hdata, flag_of_syToken htok]
    rcases hk with ⟨rfl, rfl⟩ | ⟨rfl, rfl⟩
    · rintro ⟨us, rest, htail, hwf, hrest⟩
      exact ⟨_ :: us, rest, .binary hlong htail, List.append_cons ts _ us ▸ hwf, hrest⟩
    · rintro ⟨us, rest, htail, hwf, hrest⟩
      exact ⟨.rparen :: us, rest, .rparen hlong htail, List.append_cons ts _ us ▸ hwf, hrest⟩
  · obtain ⟨e, hparse, hsy⟩ := condition_end hts hend
    refine ⟨[], (history_outside (Or.inl hcond')).mpr (by rw [hsy]), ?_⟩
    rw [hcond', hdata]
    exact fun hrest => ⟨[], _, .semicolon hlong, ⟨e, (List.append_nil ts).symm ▸ hparse⟩, hrest⟩

theorem longest_newline (data : ZendString) : Longest initRules (10 :: data) .newline 1 := by
  refine munch_eq_token.mp ?_
  cases data <;> rfl

/-- A newline is no more than that. -/
theorem reads_newline {data : ZendString} : Reads (10 :: data) ↔ Reads data := by
  have hlong := longest_newline data
  constructor
  · intro h
    generalize hd : (10 : UInt8) :: data = d at h hlong
    cases h with
    | done => exact absurd (List.cons_eq_cons.mp hd).1 (by decide)
    | plain h ht hrest =>
      obtain ⟨rfl, rfl⟩ := h.unique hlong
      rw [← hd] at hrest
      exact hrest
    | condition h => cases (h.unique hlong).1
    | rule h => cases (h.unique hlong).1
  · exact fun h => .plain hlong rfl h

/-- A line that goes on, at its newline. -/
theorem newline_split {data : ZendString} {n : ℕ} (h : Longest ruleRules data .newline n) :
    ∃ nl ∈ newline.language, data = nl ++ ((data.take n).drop (newlineLength (data.take n)) ++ data.drop n) := by
  obtain ⟨nl, hnl, Y, -, htext, hlen⟩ := newline_text h
  refine ⟨nl, hnl, ?_⟩
  rw [hlen, htext, List.drop_left, ← List.append_assoc nl, ← htext, List.take_append_drop]

/-- And for a rule, which has to be ended the right way. -/
theorem demands_rule (hcond : s.cond = .rule) (htame : Tame s) (hist : History s ts)
    (h : step c s = .next s' out) : ∃ ts', History s' ts' ∧
      (Demands s'.cond ts' s'.data → Demands .rule ts s.data) := by
  have hops := (history_outside (Or.inr hcond)).mp hist
  obtain ⟨t, n, hsome, hact⟩ := rule_token hcond h
  obtain ⟨hsy, hcases⟩ := ruleAction_next hact
  have hops' : s'.sy.condOp = [] := by
    rw [hsy]
    exact hops
  refine ⟨[], ?_⟩
  rcases next_eq_some hsome with hlong | ⟨rfl, rfl, -, hnone⟩
  · rcases hcases with ⟨ht, hcond', hdata⟩ | ⟨rfl, hcond', hdata⟩ | ⟨ht, hcond', hdata⟩
    · have hcond' : s'.cond = .rule := hcond'.trans hcond
      refine ⟨(history_outside (Or.inr hcond')).mpr hops', ?_⟩
      rw [hcond', hdata]
      rintro ⟨rest, hrule, hrest⟩
      rcases ht with rfl | rfl
      · exact ⟨rest, .blank hlong hrule, hrest⟩
      · exact ⟨rest, .keyword hlong hrule, hrest⟩
    · have hcond' : s'.cond = .rule := hcond'.trans hcond
      refine ⟨(history_outside (Or.inr hcond')).mpr hops', ?_⟩
      obtain ⟨nl, hnl, hsplit⟩ := newline_split hlong
      have hsplit : s.data = nl ++ s'.data := hsplit.trans (by rw [hdata])
      rw [hcond']
      rintro ⟨rest, hrule, hrest⟩
      rw [hsplit] at hlong ⊢
      exact ⟨rest, .continued hlong hnl hrule, hrest⟩
    · refine ⟨(history_outside (Or.inl hcond')).mpr hops', ?_⟩
      rw [hcond', hdata]
      rcases ht with rfl | rfl
      · exact fun hrest => ⟨_, .semicolon hlong, hrest⟩
      · obtain ⟨r, hr, -⟩ := hlong.names.mem
        simp [ruleRules] at hr
  · rcases hcases with ⟨ht, -⟩ | ⟨ht, -⟩ | ⟨-, hcond', hdata⟩
    · rcases ht with ht | ht <;> cases ht
    · cases ht
    · refine ⟨(history_outside (Or.inl hcond')).mpr hops', ?_⟩
      obtain ⟨nl, hnl, rest, hrest⟩ := htame.1 hcond hnone
      rw [hcond', hdata]
      show Reads (s.data.drop 1) → _
      rw [← hrest] at hnone ⊢
      intro hreads
      refine ⟨rest, .endOfLine hnone hnl, ?_⟩
      rcases mem_newline.mp hnl with rfl | rfl
      · exact hreads
      · exact reads_newline.mp hreads

/-- **A tame token keeps what the grammar demands.** -/
theorem demands_of_next (htame : Tame s) (hist : History s ts) (h : step c s = .next s' out) :
    ∃ ts', History s' ts' ∧ (Demands s'.cond ts' s'.data → Demands s.cond ts s.data) := by
  cases hcond : s.cond with
  | init => exact demands_init hcond hist h
  | cond => exact demands_cond hcond hist h
  | condOp => exact demands_condOp hcond hist h
  | rule => exact demands_rule hcond htame hist h

/-! ### A file with the grammar is read so -/

theorem longest_nul (data : ZendString) : Longest initRules (0 :: data) .endByte 1 := by
  refine munch_eq_token.mp ?_
  cases data <;> rfl

theorem reads_init (hd : Reads s.data) (hcond : s.cond = .init) (h : step c s = .next s' out) :
    ∃ ts', Demands s'.cond ts' s'.data := by
  obtain ⟨t, n, hsome, hact⟩ := init_token hcond h
  have hlong := longest_of_next hsome (by rintro rfl; cases hact)
  have hne : t ≠ .endByte := by rintro rfl; cases hact
  obtain ⟨hdata, hcases⟩ := initAction_next hact
  have hdata : s'.data = s.data.drop n := hdata
  rw [hdata]
  generalize s.data = data at hd hlong
  cases hd with
  | done => exact absurd (hlong.unique (longest_nul [])).1 hne
  | plain h ht hrest =>
    obtain ⟨rfl, rfl⟩ := h.unique hlong
    rcases hcases with ⟨-, hcond', -⟩ | ⟨rfl, -⟩ | ⟨rfl, -⟩
    · refine ⟨[], ?_⟩
      rw [hcond', hcond]
      exact hrest
    · cases ht
    · cases ht
  | condition h htail hwf hrest =>
    obtain ⟨rfl, rfl⟩ := h.unique hlong
    rcases hcases with ⟨ht, -⟩ | ⟨-, hcond', -⟩ | ⟨ht, -⟩
    · cases ht
    · refine ⟨[], ?_⟩
      rw [hcond']
      exact ⟨_, _, htail, hwf, hrest⟩
    · cases ht
  | rule h hrule hrest =>
    obtain ⟨rfl, rfl⟩ := h.unique hlong
    rcases hcases with ⟨ht, -⟩ | ⟨ht, -⟩ | ⟨-, hcond', -⟩
    · cases ht
    · cases ht
    · refine ⟨[], ?_⟩
      rw [hcond']
      exact ⟨_, hrule, hrest⟩

/-- What has been fed, and where the scanner then is. -/
theorem demands_feed {b : Bool} {k k' : CondToken} {us : List CondToken} {s₁ : State} {data rest : ZendString}
    (hfeed : s₁.feed c k' = .next s' out) (hb : operatorBehind k' = b) (htail : Tail b us data rest)
    (hwf : WellFormed (ts ++ k :: us)) (hrest : Reads rest) : ∃ ts', Demands s'.cond ts' data := by
  obtain ⟨-, b', htok, hcond⟩ := feed_next hfeed
  refine ⟨ts ++ [k], ?_⟩
  rw [hcond, flag_of_syToken htok, hb]
  cases b with
  | false => exact ⟨us, rest, htail, List.append_cons ts k us ▸ hwf, hrest⟩
  | true => exact ⟨us, rest, htail, List.append_cons ts k us ▸ hwf, hrest⟩

theorem reads_cond (hd : Demands .cond ts s.data) (hcond : s.cond = .cond) (h : step c s = .next s' out) :
    ∃ ts', Demands s'.cond ts' s'.data := by
  obtain ⟨us, rest, htail, hwf, hrest⟩ := hd
  obtain ⟨t, n, hsome, hact⟩ := cond_token hcond h
  have hlong := longest_of_next hsome (by rintro rfl; cases hact)
  obtain ⟨hdata, hcases⟩ := condAction_next hact
  have hdata : s'.data = s.data.drop n := hdata
  rw [hdata]
  generalize s.data = data at htail hlong
  cases htail with
  | blank h ht htail =>
    obtain ⟨rfl, rfl⟩ := h.unique hlong
    rcases hcases with ⟨-, hcond', -⟩ | ⟨k, hk, -⟩
    · refine ⟨ts, ?_⟩
      rw [hcond', hcond]
      exact ⟨us, rest, htail, hwf, hrest⟩
    · rcases ht with rfl | rfl <;> simp at hk
  | value v h ht htail =>
    obtain ⟨rfl, rfl⟩ := h.unique hlong
    rcases hcases with ⟨ht', -⟩ | ⟨k, hk, hfeed⟩
    · rcases ht with rfl | rfl | rfl <;> simp at ht'
    · obtain ⟨w, rfl⟩ : ∃ w, k = .value w := by
        rcases hk with ⟨w, rfl, -⟩ | ⟨-, rfl⟩ | ⟨-, rfl⟩
        · exact ⟨w, rfl⟩
        · simp at ht
        · simp at ht
      exact demands_feed hfeed rfl htail hwf hrest
  | unary h htail =>
    obtain ⟨rfl, rfl⟩ := h.unique hlong
    rcases hcases with ⟨ht', -⟩ | ⟨k, hk, hfeed⟩
    · simp at ht'
    · obtain rfl : k = .unary := by simpa using hk
      exact demands_feed hfeed rfl htail hwf hrest
  | lparen h htail =>
    obtain ⟨rfl, rfl⟩ := h.unique hlong
    rcases hcases with ⟨ht', -⟩ | ⟨k, hk, hfeed⟩
    · simp at ht'
    · obtain rfl : k = .lparen := by simpa using hk
      exact demands_feed hfeed rfl htail hwf hrest

theorem reads_condOp (hd : Demands .condOp ts s.data) (hcond : s.cond = .condOp)
    (h : step c s = .next s' out) : ∃ ts', Demands s'.cond ts' s'.data := by
  obtain ⟨us, rest, htail, hwf, hrest⟩ := hd
  obtain ⟨t, n, hsome, hact⟩ := condOp_token hcond h
  have hlong := longest_of_next hsome (by rintro rfl; cases hact)
  obtain ⟨hdata, hcases⟩ := condOpAction_next hact
  have hdata : s'.data = s.data.drop n := hdata
  rw [hdata]
  generalize s.data = data at htail hlong hcases
  cases htail with
  | blankOp h ht htail =>
    obtain ⟨rfl, rfl⟩ := h.unique hlong
    rcases hcases with ⟨-, hcond', -⟩ | ⟨k, hk, -⟩ | ⟨rfl, -⟩
    · refine ⟨ts, ?_⟩
      rw [hcond', hcond]
      exact ⟨us, rest, htail, hwf, hrest⟩
    · rcases ht with rfl | rfl <;> simp at hk
    · simp at ht
  | binary h htail =>
    obtain ⟨rfl, rfl⟩ := h.unique hlong
    rcases hcases with ⟨ht', -⟩ | ⟨k, hk, hfeed⟩ | ⟨ht', -⟩
    · simp at ht'
    · obtain rfl : k = .binary (binOp (data.take _)) := by simpa using hk
      exact demands_feed hfeed rfl htail hwf hrest
    · cases ht'
  | rparen h htail =>
    obtain ⟨rfl, rfl⟩ := h.unique hlong
    rcases hcases with ⟨ht', -⟩ | ⟨k, hk, hfeed⟩ | ⟨ht', -⟩
    · simp at ht'
    · obtain rfl : k = .rparen := by simpa using hk
      exact demands_feed hfeed rfl htail hwf hrest
    · cases ht'
  | semicolon h =>
    obtain ⟨rfl, rfl⟩ := h.unique hlong
    rcases hcases with ⟨ht', -⟩ | ⟨k, hk, -⟩ | ⟨-, -, hcond'⟩
    · simp at ht'
    · simp at hk
    · refine ⟨[], ?_⟩
      rw [hcond']
      exact hrest

theorem ne_nil_of_token {τ : Type} {rules : Rules UInt8 τ} {other : τ} {data : ZendString} {x : τ × ℕ}
    (h : next rules other data = some x) : data ≠ [] := by
  rintro rfl
  cases h

theorem newline_unique {u v x y : ZendString} (hu : u ∈ newline.language) (hv : v ∈ newline.language)
    (h : u ++ x = v ++ y) : u = v := by
  rcases mem_newline.mp hu with rfl | rfl <;> rcases mem_newline.mp hv with rfl | rfl
  · rfl
  · exact absurd (List.cons_eq_cons.mp h).1 (by decide)
  · exact absurd (List.cons_eq_cons.mp h).1 (by decide)
  · rfl

theorem reads_rule {rest : ZendString} (hrule : Rule s.data rest) (hrest : Reads rest) (hcond : s.cond = .rule)
    (h : step c s = .next s' out) : ∃ ts', Demands s'.cond ts' s'.data := by
  obtain ⟨t, n, hsome, hact⟩ := rule_token hcond h
  obtain ⟨-, hcases⟩ := ruleAction_next hact
  refine ⟨[], ?_⟩
  generalize s.data = data at hrule hsome hcases
  cases hrule with
  | blank hl hrule =>
    cases hsome.symm.trans (hl.next_eq (ne_nil_of_token hsome))
    rcases hcases with ⟨-, hcond', hdata⟩ | ⟨ht, -⟩ | ⟨ht, -⟩
    · rw [hcond', hdata, hcond]
      exact ⟨_, hrule, hrest⟩
    · cases ht
    · simp at ht
  | keyword hl hrule =>
    cases hsome.symm.trans (hl.next_eq (ne_nil_of_token hsome))
    rcases hcases with ⟨-, hcond', hdata⟩ | ⟨ht, -⟩ | ⟨ht, -⟩
    · rw [hcond', hdata, hcond]
      exact ⟨_, hrule, hrest⟩
    · cases ht
    · simp at ht
  | continued hl hnl hrule =>
    cases hsome.symm.trans (hl.next_eq (ne_nil_of_token hsome))
    rcases hcases with ⟨ht, -⟩ | ⟨-, hcond', hdata⟩ | ⟨ht, -⟩
    · simp at ht
    · obtain ⟨nl', hnl', hsplit⟩ := newline_split hl
      rw [hcond', hdata, hcond]
      obtain rfl := newline_unique hnl hnl' hsplit
      exact ⟨_, (List.append_cancel_left hsplit) ▸ hrule, hrest⟩
    · simp at ht
  | semicolon hl =>
    cases hsome.symm.trans (hl.next_eq (ne_nil_of_token hsome))
    rcases hcases with ⟨ht, -⟩ | ⟨ht, -⟩ | ⟨-, hcond', hdata⟩
    · simp at ht
    · cases ht
    · rw [hcond', hdata]
      exact hrest
  | endOfLine hnone hnl =>
    cases hsome.symm.trans (next_eq_other hnone (ne_nil_of_token hsome))
    rcases hcases with ⟨ht, -⟩ | ⟨ht, -⟩ | ⟨-, hcond', hdata⟩
    · simp at ht
    · cases ht
    · rw [hcond', hdata]
      rcases mem_newline.mp hnl with rfl | rfl
      · exact hrest
      · exact reads_newline.mpr hrest

/-- **What the grammar demands it still demands behind a token.** -/
theorem demands_next (hd : Demands s.cond ts s.data) (h : step c s = .next s' out) :
    ∃ ts', Demands s'.cond ts' s'.data := by
  cases hcond : s.cond with
  | init =>
    rw [hcond] at hd
    exact reads_init hd hcond h
  | cond =>
    rw [hcond] at hd
    exact reads_cond hd hcond h
  | condOp =>
    rw [hcond] at hd
    exact reads_condOp hd hcond h
  | rule =>
    rw [hcond] at hd
    obtain ⟨rest, hrule, hrest⟩ := hd
    exact reads_rule hrule hrest hcond h

theorem Rule.tame {data rest : ZendString} (h : Rule data rest) (hnone : NoToken data) :
    ∃ nl ∈ newline.language, nl <+: data := by
  have hword : ∀ {t : RuleRule} {n : ℕ}, ¬ Longest ruleRules data t n := fun hl =>
    hnone _ hl.names.word (Or.inl (List.take_prefix _ data))
  cases h with
  | blank hl => exact absurd hl hword
  | continued hl => exact absurd hl hword
  | keyword hl => exact absurd hl hword
  | semicolon hl => exact absurd hl hword
  | endOfLine _ hnl => exact ⟨_, hnl, List.prefix_append _ _⟩

theorem Reads.tame {data : ZendString} (h : Reads data) (h0 : data.head? = some 0) : data = [0] := by
  obtain ⟨rest, rfl⟩ := List.head?_eq_some_iff.mp h0
  have hlong := longest_nul rest
  generalize hd : (0 : UInt8) :: rest = data at h hlong
  cases h with
  | done => rfl
  | plain h ht =>
    obtain ⟨rfl, -⟩ := h.unique hlong
    cases ht
  | condition h => cases (h.unique hlong).1
  | rule h => cases (h.unique hlong).1

theorem tame_of_demands (hd : Demands s.cond ts s.data) : Tame s := by
  constructor
  · intro hcond hnone
    rw [hcond] at hd
    obtain ⟨rest, hrule, -⟩ := hd
    exact hrule.tame hnone
  · intro hcond h0
    rw [hcond] at hd
    exact Reads.tame hd h0

/-- Every token of a file with the grammar is tame. -/
theorem tame_of_steps {l : List Statement} (h : Steps c s l s') (hd : Demands s.cond ts s.data) : Tame s' := by
  induction h generalizing ts with
  | refl s => exact tame_of_demands hd
  | cons hstep _ ih =>
    obtain ⟨ts', hd'⟩ := demands_next hd hstep
    exact ih hd'

theorem tame_of_inGrammar {contents : ZendString} {l : List Statement} (hin : InGrammar contents)
    (h : Steps c (start c (contents ++ [0])) l s) : Tame s := by
  have hd : Demands .init [] (contents ++ [0]) := hin
  exact tame_of_steps h hd

/-- A scan that succeeds does so at a NUL. -/
theorem step_success (h : step c s = .stop .success) : s.cond = .init ∧ s.data.head? = some 0 := by
  have htoken : ∀ {τ : Type} {rules : Rules UInt8 τ} {other : τ} {action : τ → ZendString → State → Outcome},
      s.token rules other action = .stop .success →
        ∃ t n, next rules other s.data = some (t, n) ∧
          action t (s.data.take n) { s with data := s.data.drop n } = .stop .success := by
    intro τ rules other action h
    unfold State.token at h
    split at h
    · cases h
    · exact ⟨_, _, by assumption, h⟩
  unfold step at h
  cases hcond : s.cond with
  | init =>
    rw [hcond] at h
    obtain ⟨t, n, hsome, hact⟩ := htoken h
    refine ⟨rfl, ?_⟩
    rcases initAction_stop hact with hbad | ⟨rfl, -⟩
    · cases hbad.answer
    · have hmem := (longest_of_next hsome nofun).names.mem_of_unique (r := endByte) fun r hr => by
        simpa [initRules] using hr
      have hw : s.data.take n = [0] := mem_byte.mp hmem
      rw [← List.take_append_drop n s.data, hw]
      rfl
  | cond =>
    rw [hcond] at h
    obtain ⟨t, n, -, hact⟩ := htoken h
    cases (condAction_stop hact).answer
  | condOp =>
    rw [hcond] at h
    obtain ⟨t, n, -, hact⟩ := htoken h
    cases (condOpAction_stop hact).answer
  | rule =>
    rw [hcond] at h
    obtain ⟨t, n, -, hact⟩ := htoken h
    cases (ruleAction_stop hact).answer

/-- A scan of tame tokens that succeeds has read what the grammar demands. -/
theorem demands_of_run (htame : ∀ l s', Steps c s l s' → Tame s') (hist : History s ts)
    (h : (runFrom c s).2 = .success) : Demands s.cond ts s.data := by
  induction hn : s.data.length using Nat.strong_induction_on generalizing s ts with
  | _ n ih =>
    rw [runFrom_eq] at h
    cases hstep : step c s with
    | stop e =>
      rw [hstep] at h
      obtain rfl : e = .success := h
      obtain ⟨hcond, h0⟩ := step_success hstep
      rw [hcond, (htame _ _ (.refl s)).2 hcond h0]
      exact .done
    | next s₁ out =>
      rw [hstep] at h
      obtain ⟨k, hk, hle, hdata, -⟩ := step_next hstep
      obtain ⟨ts', hist', hback⟩ := demands_of_next (htame _ _ (.refl s)) hist hstep
      refine hback (ih s₁.data.length ?_ (fun l s' hsteps => htame _ _ (.cons hstep hsteps)) hist' h rfl)
      rw [hdata, List.length_drop]
      omega

theorem not_tame_of_atNul (h : AtNul s) : ¬ Tame s := by
  obtain ⟨hcond, hdata⟩ := h
  have hnone : NoToken s.data := by
    rw [hdata]
    exact munch_eq_nothing.mp rfl
  intro htame
  obtain ⟨nl, hnl, hpre⟩ := htame.1 hcond hnone
  rw [hdata] at hpre
  rcases mem_newline.mp hnl with rfl | rfl <;> exact absurd (List.cons_prefix_cons.mp hpre).1 (by decide)

/-- **A file that is not refused has the grammar if and only if all its tokens are tame.** -/
theorem inGrammar_iff {contents : ZendString} (h : (spConfigScan c contents).2.answer ≠ .failure) :
    InGrammar contents ↔ ∀ l s, Steps c (start c (contents ++ [0])) l s → Tame s := by
  have htames : InGrammar contents → ∀ l s, Steps c (start c (contents ++ [0])) l s → Tame s :=
    fun hin l s hsteps => tame_of_inGrammar hin hsteps
  cases hend : (spConfigScan c contents).2 with
  | success =>
    refine ⟨htames, fun htame => ?_⟩
    have hist : History (start c (contents ++ [0])) [] := rfl
    exact demands_of_run htame hist hend
  | overrun =>
    obtain ⟨l, s, hsteps, hnul⟩ := (end_eq_overrun_iff contents).mp hend
    have hbad : ¬ ∀ l s, Steps c (start c (contents ++ [0])) l s → Tame s :=
      fun htame => not_tame_of_atNul hnul (htame l s hsteps)
    exact iff_of_false (fun hin => hbad (htames hin)) hbad
  | failure lineno err =>
    rw [hend] at h
    exact absurd rfl h

/-! ### The result -/

/-- What a load knows of a scan. -/
def scan (c : Context) (contents filename : ZendString) : Load.Module.Scan where
  statements := (spConfigScan { c with filename := filename } contents).1
  error :=
    match (spConfigScan { c with filename := filename } contents).2 with
    | .failure lineno err => some (lineno, err)
    | _ => none

/-- The files are read by this scanner, as long as it stays in its input. -/
def Scans (c : Context) (e : Environment) : Prop := ∀ contents filename,
  (spConfigScan { c with filename := filename } contents).2 ≠ .overrun →
    e.scan contents filename = scan c contents filename

theorem error_of_yields {e : Environment} {error : Option (ℕ × ConfigError)} {g' : SpGlobals} :
    ∀ {l : List Statement} {g : SpGlobals}, Yields (Load.Module.spConfigScan e error l g) (true, g') →
      error = none
  | [], g, h => by
    cases error with
    | none => rfl
    | some x => cases (readsTo_configError e { g with configLineno := x.1 } x.2).yields.unique h
  | .rule parsedRule :: l, g, h => by
    unfold Load.Module.spConfigScan at h
    rcases hrun : runOn (spProcessConfigRoot e.world e.access parsedRule) g with ⟨r, g₁⟩
    rw [hrun] at h
    cases r with
    | ok u => exact error_of_yields h
    | error err => cases (readsTo_configError e g₁ err).yields.unique h
  | .message lineno level fmt args :: l, g, h => by
    unfold Load.Module.spConfigScan at h
    obtain ⟨u, -, h⟩ := yields_bind.mp h
    exact error_of_yields h

/-- A file that is taken has been scanned without an error. -/
theorem scan_of_yields {e : Environment} {filename contents : ZendString} {g g' : SpGlobals}
    (hread : e.read filename = .ok contents) (h : Yields (spParseConfig e filename g) (true, g')) :
    (e.scan contents filename).error = none := by
  unfold spParseConfig at h
  dsimp only at h
  rw [hread] at h
  obtain ⟨⟨ret, g₁⟩, hscan, h⟩ := yields_bind.mp h
  cases ret with
  | true => exact error_of_yields hscan
  | false => cases yields_pure.mp h

/-- **A file that `sp_parse_config` takes has the grammar if and only if no rule of it is ended by
another byte than a semicolon or an end of line, and the scanner does not stop at a NUL inside.** -/
theorem whole_iff {c : Context} {e : Environment} {filename contents : ZendString} {g g' : SpGlobals}
    (hscans : Scans c e) (hread : e.read filename = .ok contents)
    (h : Yields (spParseConfig e filename g) (true, g')) :
    InGrammar contents ↔ ∀ l s, Steps { c with filename := filename }
      (start { c with filename := filename } (contents ++ [0])) l s → Tame s := by
  refine inGrammar_iff fun hfail => ?_
  have herror := scan_of_yields hread h
  cases hend : (spConfigScan { c with filename := filename } contents).2 with
  | success =>
    rw [hend] at hfail
    cases hfail
  | overrun =>
    rw [hend] at hfail
    cases hfail
  | failure lineno err =>
    rw [hscans contents filename (by rw [hend]; nofun)] at herror
    unfold scan at herror
    simp only [hend, reduceCtorEq] at herror

/-- A system without modules. -/
def bare : Context := ⟨fun _ => false, 80000, []⟩

/-- An environment whose files have these contents. -/
def reading (contents : ZendString) : Environment :=
  { Load.Module.ofRules [] with read := fun _ => .ok contents, scan := scan bare }

theorem whole_iff_sample : InGrammar (zstr "sp.harden_random.enable();\n") ↔
    ∀ l s, Steps { bare with filename := zstr "sp.rules" } (start { bare with filename := zstr "sp.rules" }
      (zstr "sp.harden_random.enable();\n" ++ [0])) l s → Tame s :=
  have htaken : ∃ g', Yields (spParseConfig (reading (zstr "sp.harden_random.enable();\n"))
      (zstr "sp.rules") {}) (true, g') := ⟨_, rfl⟩
  whole_iff (c := bare) (e := reading (zstr "sp.harden_random.enable();\n"))
    (fun _ _ _ => rfl) rfl htaken.choose_spec

/-- **A byte behind a rule, and whatever is behind a NUL**: both files are taken, and neither has the
grammar. -/
theorem stray_bytes_taken :
    ((∃ g', Yields (spParseConfig (reading (zstr "sp.harden_random.enable()x\n")) (zstr "sp.rules") {})
        (true, g')) ∧ ¬ InGrammar (zstr "sp.harden_random.enable()x\n")) ∧
      (∃ g', Yields (spParseConfig (reading (0 :: zstr "sp.harden_random.enable();\n")) (zstr "sp.rules") {})
        (true, g')) ∧ ¬ InGrammar (0 :: zstr "sp.harden_random.enable();\n") := by
  refine ⟨⟨⟨_, rfl⟩, fun hin => ?_⟩, ⟨_, rfl⟩, fun hin => ?_⟩
  · -- behind the two keywords is the `x`
    have hsteps : Steps bare (start bare (zstr "sp.harden_random.enable()x\n" ++ [0])) _ _ :=
      .cons rfl (.cons rfl (.cons rfl (.refl _)))
    obtain ⟨nl, hnl, hpre⟩ := (tame_of_inGrammar hin hsteps).1 rfl (munch_eq_nothing.mp rfl)
    rcases mem_newline.mp hnl with rfl | rfl <;> exact absurd (List.cons_prefix_cons.mp hpre).1 (by decide)
  · have hsteps := Steps.refl (c := bare) (start bare (0 :: zstr "sp.harden_random.enable();\n" ++ [0]))
    exact absurd ((tame_of_inGrammar hin hsteps).2 rfl rfl) (by decide)

end Snuffleupagus.Scanner.Grammar
