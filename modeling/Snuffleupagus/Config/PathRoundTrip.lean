import Snuffleupagus.Config.Path
import Snuffleupagus.Config.PathBounds

/-! # The parser reads back what a path is written as

The parser is followed along the text of a path. Outside of brackets each delimiter takes off one element
(`Steps.parse`). Between the brackets of an index nothing is taken off, whatever the index is: the brackets in
it are counted, and what is in quotes is skipped (`Index.skip`). -/

namespace Snuffleupagus.Config.PathRoundTrip

open Snuffleupagus.Php.Bytes Snuffleupagus.Php.Engine Snuffleupagus.Config.Rule
open Snuffleupagus.Config.VarParser Snuffleupagus.Config.PathTokens Snuffleupagus.Config.PathBounds
open Snuffleupagus.Config.Path

/-! ### Names -/

theorem isPlain_of_ne {c : UInt8} (h : c ∉ ([45, 91, 93, 34, 39, 58] : List UInt8)) : isPlain c = true := by
  have hheads : ∀ d ∈ delimiterList, ∃ e ∈ ([45, 91, 93, 34, 39, 58] : List UInt8), d.2.head? = some e := by decide
  refine List.all_eq_true.mpr fun d hd => ?_
  obtain ⟨e, he, hhead⟩ := hheads d hd
  rw [hhead, bne_iff_ne, Ne, Option.some_inj]
  rintro rfl
  exact h he

theorem isPlain_of_isConstChar {c : UInt8} (h : isConstChar c = true) : isPlain c = true := by
  refine isPlain_of_ne fun hmem => ?_
  have hno : (([45, 91, 93, 34, 39, 58] : List UInt8).all fun e => !isConstChar e) = true := by decide
  have hc := List.all_eq_true.mp hno c hmem
  rw [h] at hc
  exact absurd hc (by decide)

theorem isConstChar_of_isDigit {c : UInt8} (h : isDigit c = true) : isConstChar c = true := by
  simp [isConstChar, isNameChar, h]

theorem plain_const (n : ConstName) : ∀ c ∈ n.1, isPlain c = true :=
  fun c hc => isPlain_of_isConstChar (n.2.2 c hc)

theorem plain_var (n : VarName) : ∀ c ∈ (36 :: n.1 : ZendString), isPlain c = true := by
  obtain ⟨-, c, s, rfl, hc, hs⟩ := n
  have hname : ∀ d ∈ c :: s, isNameChar d = true := by
    rw [List.forall_mem_cons]
    exact ⟨by simp [isNameChar, hc], hs⟩
  rw [List.forall_mem_cons]
  refine ⟨by decide, fun d hd => isPlain_of_isConstChar ?_⟩
  simp [isConstChar, hname d hd]

section Names
variable {w : World} (hw : MatchesNames w)
include hw

theorem valid_of_const {n : ZendString} (h : ∀ c ∈ n, isConstChar c = true) : isVarNameValid w n = true := by
  have hmatch := hw.const n h
  simp [isVarNameValid, hmatch]

theorem valid_of_var (n : VarName) : isVarNameValid w (36 :: n.1) = true := by
  obtain ⟨-, c, s, rfl, hc, hs⟩ := n
  have hmatch := hw.var c s hc hs
  simp [isVarNameValid, hmatch]

end Names

/-! ### What follows -/

/-- The rest of a path behind a name or an index: nothing, or a delimiter that is no quote. -/
def Follows (str : ZendString) (pos : ℕ) (r : ZendString) : Prop :=
  (r = [] ∧ str.length = pos) ∨
    ∃ d ∈ delimiterList, (d.1 ≠ .literalString ∧ d.1 ≠ .interpretedString) ∧ ∃ r', r = d.2 ++ r'

section Follows
variable {str r : ZendString} {p : ℕ}

theorem follows_close : Follows str p (zstr "]" ++ r) :=
  Or.inr ⟨(.arrayEnd, zstr "]"), by decide, by decide, r, rfl⟩

theorem follows_steps (steps : Steps) (h : Follows str (p + steps.text.length) r) : Follows str p (steps.text ++ r) := by
  cases steps with
  | nil => simpa [Steps.text] using h
  | index i rest =>
    refine Or.inr ⟨(.array, zstr "["), by decide, by decide, i.text ++ zstr "]" ++ rest.text ++ r, ?_⟩
    simp [Steps.text]
  | prop name rest =>
    refine Or.inr ⟨(.object, zstr "->"), by decide, by decide, name.1 ++ rest.text ++ r, ?_⟩
    simp [Steps.text]

/-- The next delimiter is right here, or the text has ended. -/
theorem next_of_follows (h : Follows str p r) : ((scan p 0 r).head? = none ∧ str.length = p) ∨
    ∃ t, (scan p 0 r).head? = some t ∧ t.pos = p ∧ t.type ≠ .literalString ∧ t.type ≠ .interpretedString := by
  rcases h with ⟨rfl, hlen⟩ | ⟨d, hd, hquote, r', rfl⟩
  · exact Or.inl ⟨rfl, hlen⟩
  · rw [scan_delimiter hd]
    exact Or.inr ⟨_, rfl, rfl, hquote⟩

/-- A name is not empty. -/
theorem not_isNextTokenEmpty {t : SpConfToken} {name : ZendString} (hname : name ≠ [])
    (hplain : ∀ c ∈ name, isPlain c = true) (hlen : str.length ≤ 2 ^ 31)
    (h : Follows str (t.pos + t.textRepr.length + name.length) r) :
    isNextTokenEmpty t (scan (t.pos + t.textRepr.length) 0 (name ++ r)).head? str = false := by
  have hpos := List.length_pos_iff.mpr hname
  rw [scan_plain hplain]
  rcases next_of_follows h with ⟨hnext, hend⟩ | ⟨u, hnext, hu, -⟩
  · rw [hnext]
    unfold isNextTokenEmpty
    dsimp only
    rw [sizeSub_of_le (by omega) (by omega), beq_eq_false_iff_ne]
    omega
  · rw [hnext]
    unfold isNextTokenEmpty
    rw [beq_eq_false_iff_ne]
    omega

end Follows

/-! ### One delimiter -/

def arrowAt (p : ℕ) : SpConfToken := ⟨.object, zstr "->", p⟩
def openAt (p : ℕ) : SpConfToken := ⟨.array, zstr "[", p⟩
def closeAt (p : ℕ) : SpConfToken := ⟨.arrayEnd, zstr "]", p⟩
def scopeAt (p : ℕ) : SpConfToken := ⟨.classConst, zstr "::", p⟩

def Quote.type : Quote → ElemType
  | .single => .literalString
  | .double => .interpretedString

def Quote.tokenAt (q : Quote) (p : ℕ) : SpConfToken := ⟨Quote.type q, [q.char], p⟩

theorem scan_arrow (r : ZendString) (p : ℕ) : scan p 0 (zstr "->" ++ r) = arrowAt p :: scan (p + 2) 0 r :=
  scan_delimiter (show (.object, zstr "->") ∈ delimiterList by decide) r p

theorem scan_open (r : ZendString) (p : ℕ) : scan p 0 (zstr "[" ++ r) = openAt p :: scan (p + 1) 0 r :=
  scan_delimiter (show (.array, zstr "[") ∈ delimiterList by decide) r p

theorem scan_close (r : ZendString) (p : ℕ) : scan p 0 (zstr "]" ++ r) = closeAt p :: scan (p + 1) 0 r :=
  scan_delimiter (show (.arrayEnd, zstr "]") ∈ delimiterList by decide) r p

theorem scan_scope (r : ZendString) (p : ℕ) : scan p 0 (zstr "::" ++ r) = scopeAt p :: scan (p + 2) 0 r :=
  scan_delimiter (show (.classConst, zstr "::") ∈ delimiterList by decide) r p

theorem mem_delimiterList_quote (q : Quote) : (Quote.type q, [q.char]) ∈ delimiterList := by
  cases q <;> decide

theorem scan_quote (q : Quote) (r : ZendString) (p : ℕ) :
    scan p 0 (q.char :: r) = Quote.tokenAt q p :: scan (p + 1) 0 r :=
  scan_delimiter (mem_delimiterList_quote q) r p

section Step
variable {w : World} {parseVar : ZendString → Option SpTree} {str r : ZendString} {t : SpConfToken}
  {next : Option SpConfToken} {s : PathState} {p : ℕ}

/-- A `->` stands behind an object. -/
def Dereferences (str : ZendString) (s : PathState) : Prop := s.pos ≠ 0 ∨ str.head? = some 36

theorem not_empty {quote : ElemType} (hnext : quote = .undefined → isNextTokenEmpty t next str = false) :
    ¬(quote = .undefined ∧ isNextTokenEmpty t next str = true) := by
  rintro ⟨hquote, hempty⟩
  rw [hnext hquote] at hempty
  exact Bool.false_ne_true hempty

theorem valid_object {quote : ElemType} {count : ℤ} (htype : t.type = .object) (hd : Dereferences str s)
    (hnext : quote = .undefined → isNextTokenEmpty t next str = false) :
    isTokenValid t next quote count str s.pos = true := by
  unfold isTokenValid
  rw [htype]
  dsimp only
  rw [if_neg (not_empty hnext)]
  rcases hd with h | h <;> simp [h]

theorem invalid_object {quote : ElemType} {count : ℤ} (htype : t.type = .object) (hhead : str.head? ≠ some 36) :
    isTokenValid t next quote count str 0 = false := by
  have hdollar : (str.head? != some 36) = true := bne_iff_ne.mpr hhead
  unfold isTokenValid
  rw [htype]
  dsimp only
  rw [hdollar]
  simp

theorem valid_classConst {quote : ElemType} {count : ℤ} {pos : ℕ} (htype : t.type = .classConst)
    (hnext : quote = .undefined → isNextTokenEmpty t next str = false) :
    isTokenValid t next quote count str pos = true := by
  unfold isTokenValid
  rw [htype]
  dsimp only
  rw [decide_eq_false (not_empty hnext)]
  rfl

theorem valid_close {count : ℤ} {pos : ℕ} (hcount : 0 < count) (hlen : str.length ≤ 2 ^ 31)
    (h : Follows str (p + 1) r) :
    isTokenValid (closeAt p) (scan (p + 1) 0 r).head? .undefined count str pos = true := by
  have hone : (zstr "]").length = 1 := by decide
  unfold isTokenValid
  dsimp only [closeAt]
  rw [if_pos rfl, if_neg (by omega)]
  rcases next_of_follows h with ⟨hnext, hend⟩ | ⟨u, hnext, -, hlit, hint⟩
  · rw [hnext, hone]
    dsimp only
    rw [sizeSub_of_le (by omega) (by omega), beq_iff_eq]
    omega
  · rw [hnext]
    simp [hlit, hint]

/-- A delimiter that a quote hides. -/
theorem tokenStep_hidden (hv : isTokenValid t next s.quote s.arrayCount str s.pos = true) {b : ElemType × PathState}
    (hq : quoteStep t s = b) (hquote : b.2.quote ≠ .undefined) : tokenStep w parseVar str t next s = some b.2 := by
  rw [tokenStep_eq, if_neg (by simp [hv]), hq, if_pos hquote]

/-- A delimiter that no quote hides. -/
theorem tokenStep_seen (hv : isTokenValid t next s.quote s.arrayCount str s.pos = true) {b c : ElemType × PathState}
    (hq : quoteStep t s = b) (hquote : b.2.quote = .undefined) (hb : bracketStep t b.1 b.2 = c) :
    tokenStep w parseVar str t next s =
      if c.2.arrayCount ≠ 0 then some c.2 else takeOff w parseVar str t c.1 c.2 := by
  rw [tokenStep_eq, if_neg (by simp [hv]), hq, if_neg (not_not.mpr hquote), hb]

end Step

/-! ### Between quotes -/

section Quote
variable {str : ZendString} {next : Option SpConfToken} {s : PathState} {p : ℕ} {count : ℤ} {pos : ℕ}

theorem Quote.type_ne (q : Quote) : Quote.type q ≠ .undefined := by cases q <;> decide

theorem Quote.type_tokenAt (q : Quote) (p : ℕ) :
    (Quote.tokenAt q p).type = .interpretedString ∨ (Quote.tokenAt q p).type = .literalString := by
  cases q
  · exact Or.inr rfl
  · exact Or.inl rfl

theorem valid_quoteOpen (q : Quote) (hs : s.quote = .undefined) :
    isTokenValid (Quote.tokenAt q p) next s.quote count str pos = true := by
  rw [hs]
  cases q <;> rfl

theorem isTokenValid_quoteClose (q : Quote) : isTokenValid (Quote.tokenAt q p) next (Quote.type q) count str pos =
    match next with
    | some next => next.pos == p + 1
    | none => p == sizeSub str.length 1 := by
  cases q <;> rfl

theorem quoteStep_open (q : Quote) (hs : s.quote = .undefined) : quoteStep (Quote.tokenAt q p) s =
    (.interpretedString,
      { s with pos := if s.arrayCount = 0 then s.pos + 1 else s.pos, quote := Quote.type q }) := by
  unfold quoteStep
  rw [if_pos (Quote.type_tokenAt q p), if_pos hs]
  simp only [hs, true_and]
  rfl

theorem quoteStep_close (q : Quote) (hs : s.quote = Quote.type q) : quoteStep (Quote.tokenAt q p) s =
    (.interpretedString, { s with quote := .undefined }) := by
  have hopen : ¬s.quote = .undefined := by
    rw [hs]
    exact Quote.type_ne q
  have hsame : s.quote = (Quote.tokenAt q p).type := hs
  unfold quoteStep
  rw [if_pos (Quote.type_tokenAt q p), if_neg (fun h => hopen h.1), if_neg hopen, if_pos hsame]

end Quote

section Quoted
variable {w : World} {parseVar : ZendString → Option SpTree} {str r : ZendString} {t : SpConfToken}
  {next : Option SpConfToken} {s : PathState}

theorem valid_hidden {count : ℤ} (hquote : s.quote ≠ .undefined) (hne : t.type ≠ s.quote)
    (hd : t.type = .object → Dereferences str s) : isTokenValid t next s.quote count str s.pos = true := by
  have hno : ¬s.quote = t.type := fun h => hne h.symm
  cases htype : t.type with
  | object => exact valid_object htype (hd htype) fun h => absurd h hquote
  | classConst => exact valid_classConst htype fun h => absurd h hquote
  | _ => simp [isTokenValid, htype, hquote, htype ▸ hno]

theorem quoteStep_hidden (hquote : s.quote ≠ .undefined) (hne : t.type ≠ s.quote) : (quoteStep t s).2 = s := by
  have hno : ¬s.quote = t.type := fun h => hne h.symm
  unfold quoteStep
  simp only [hquote, hno, false_and, if_false]
  split_ifs <;> rfl

/-- A delimiter in quotes changes nothing. -/
theorem tokenStep_quoted (hquote : s.quote ≠ .undefined) (hne : t.type ≠ s.quote)
    (hd : t.type = .object → Dereferences str s) : tokenStep w parseVar str t next s = some s := by
  have hsame := quoteStep_hidden hquote hne
  rw [tokenStep_hidden (valid_hidden hquote hne hd) rfl (by rwa [hsame]), hsame]

/-- A delimiter in front of the closing quote ends there. -/
theorem delimiter_before_quote {q : Quote} {d : ElemType × ZendString} {c : UInt8} {a : ZendString}
    (hq : q.char ∉ c :: a) (hd : d ∈ delimiterList) (hpre : d.2.isPrefixOf (c :: (a ++ q.char :: r)) = true) :
    d.1 ≠ Quote.type q ∧ d.2.length - 1 ≤ a.length ∧ d.2 <+: c :: a := by
  have hne : d ≠ (Quote.type q, [q.char]) := by
    rintro rfl
    have hhead := getElem?_of_isPrefixOf hpre (show 0 < 1 by omega)
    simp only [List.getElem?_cons_zero, Option.some_inj] at hhead
    exact hq (hhead ▸ List.mem_cons_self)
  have hlen : d.2.length - 1 ≤ a.length := by
    by_contra hlen
    have hnil : a = [] := by
      by_contra ha
      have hpos := List.length_pos_iff.mpr ha
      have hone := (delimiter_second _ (mem_delimiterList_quote q) d hd hne.symm (by omega)).1
      omega
    subst hnil
    have hno := (not_isPrefixOf_of_ne (mem_delimiterList_quote q) hd hne.symm hpre (by simpa using hlen)).2
    simp at hno
  refine ⟨fun htype => hne (delimiter_inj d hd _ (mem_delimiterList_quote q) (Or.inr htype)), hlen, ?_⟩
  have hpre := List.isPrefixOf_iff_prefix.mp hpre
  rw [← List.cons_append] at hpre
  refine List.prefix_of_prefix_length_le hpre (List.prefix_append _ _) ?_
  rw [List.length_cons]
  omega

/-- **What is in quotes is skipped.** -/
theorem skip_quoted (q : Quote) (hquote : s.quote = Quote.type q) {a : ZendString} (hq : q.char ∉ a)
    (hd : Dereferences str s ∨ ¬zstr "->" <:+: a) (p : ℕ) {k : ℕ} (hk : k ≤ a.length) :
    tokenLoop w parseVar str (scan p k (a ++ q.char :: r)) s =
      tokenLoop w parseVar str (scan (p + a.length) 0 (q.char :: r)) s := by
  have hopen : s.quote ≠ .undefined := by
    rw [hquote]
    exact Quote.type_ne q
  induction a generalizing p k with
  | nil =>
    obtain rfl : k = 0 := by simpa using hk
    rfl
  | cons c a ih =>
    have hqa : q.char ∉ a := fun h => hq (List.mem_cons_of_mem c h)
    have hda : Dereferences str s ∨ ¬zstr "->" <:+: a := hd.imp_right fun h ha => h (ha.trans (List.suffix_cons c a).isInfix)
    have hpos : p + (c :: a).length = p + 1 + a.length := by
      rw [List.length_cons]
      omega
    rw [hpos, List.cons_append]
    cases k with
    | succ k =>
      rw [scan]
      exact ih hqa hda (p + 1) (by simpa using hk)
    | zero =>
      rw [scan]
      cases hat : delimiterAt (c :: (a ++ q.char :: r)) with
      | none => exact ih hqa hda (p + 1) (Nat.zero_le _)
      | some d =>
        obtain ⟨hmem, hpre⟩ := isPrefixOf_of_delimiterAt hat
        obtain ⟨htype, hlen, hin⟩ := delimiter_before_quote hq hmem hpre
        have hobject : d.1 = .object → Dereferences str s := by
          intro h
          refine hd.resolve_right fun hno => hno ?_
          have harrow := delimiter_inj d hmem (.object, zstr "->") (by decide) (Or.inr h)
          rw [harrow] at hin
          exact hin.isInfix
        dsimp only
        rw [tokenLoop, tokenStep_quoted hopen (by rwa [hquote]) hobject]
        exact ih hqa hda (p + 1) hlen

end Quoted

/-! ### Between brackets -/

section Brackets
variable {w : World} {parseVar : ZendString → Option SpTree} {str : ZendString} {t : SpConfToken}
  {next : Option SpConfToken} {s : PathState} {p : ℕ}

/-- An open bracket that no quote hides. -/
structure Inside (s : PathState) : Prop where
  quote : s.quote = .undefined
  count : 0 < s.arrayCount

theorem tokenStep_name (hs : Inside s) (htype : t.type = .object ∨ t.type = .classConst)
    (hv : isTokenValid t next s.quote s.arrayCount str s.pos = true) : tokenStep w parseVar str t next s = some s := by
  have hcount := hs.count
  have hq : quoteStep t s = (t.type, s) := by
    unfold quoteStep
    rw [if_neg]
    rcases htype with h | h <;> rw [h] <;> decide
  have hb : bracketStep t t.type s = (t.type, s) := by rcases htype with h | h <;> rw [h] <;> rfl
  rw [tokenStep_seen hv hq hs.quote hb, if_pos (by dsimp only; omega)]

theorem tokenStep_openAt (hs : Inside s) :
    tokenStep w parseVar str (openAt p) next s = some { s with arrayCount := s.arrayCount + 1 } := by
  have hcount := hs.count
  have hb : bracketStep (openAt p) .array s = (.array, { s with arrayCount := s.arrayCount + 1 }) := by
    unfold bracketStep
    dsimp only
    rw [if_pos (by omega)]
  rw [tokenStep_seen rfl (show quoteStep (openAt p) s = (.array, s) from rfl) hs.quote hb,
    if_pos (by dsimp only; omega)]

theorem tokenStep_closeAt (hs : Inside s)
    (hv : isTokenValid (closeAt p) next .undefined (s.arrayCount + 1) str s.pos = true) :
    tokenStep w parseVar str (closeAt p) next { s with arrayCount := s.arrayCount + 1 } = some s := by
  have hcount := hs.count
  have hv' : isTokenValid (closeAt p) next s.quote (s.arrayCount + 1) str s.pos = true := by rwa [hs.quote]
  have hq : quoteStep (closeAt p) { s with arrayCount := s.arrayCount + 1 } =
      (.arrayEnd, { s with arrayCount := s.arrayCount + 1 }) := rfl
  have hb : bracketStep (closeAt p) .arrayEnd { s with arrayCount := s.arrayCount + 1 } = (.array, s) := by
    unfold bracketStep
    dsimp only
    rw [Int.add_sub_cancel]
  rw [tokenStep_seen hv' hq hs.quote hb, if_pos (by dsimp only; omega)]

theorem tokenStep_quoteOpen (q : Quote) (hs : Inside s) :
    tokenStep w parseVar str (Quote.tokenAt q p) next s = some { s with quote := Quote.type q } := by
  have hcount := hs.count
  have hq : quoteStep (Quote.tokenAt q p) s = (.interpretedString, { s with quote := Quote.type q }) := by
    rw [quoteStep_open q hs.quote, if_neg (by omega)]
  exact tokenStep_hidden (valid_quoteOpen q hs.quote) hq (Quote.type_ne q)

theorem tokenStep_quoteClose (q : Quote) (hs : Inside s) (hnext : ∃ u, next = some u ∧ u.pos = p + 1) :
    tokenStep w parseVar str (Quote.tokenAt q p) next { s with quote := Quote.type q } = some s := by
  have hcount := hs.count
  obtain ⟨u, rfl, hu⟩ := hnext
  have hv : isTokenValid (Quote.tokenAt q p) (some u) (Quote.type q) s.arrayCount str s.pos = true := by
    rw [isTokenValid_quoteClose]
    simpa using hu
  have hq : quoteStep (Quote.tokenAt q p) { s with quote := Quote.type q } = (.interpretedString, s) := by
    rw [quoteStep_close q rfl, ← hs.quote]
  have hb : bracketStep (Quote.tokenAt q p) .interpretedString s = (.interpretedString, s) := rfl
  rw [tokenStep_seen hv hq hs.quote hb, if_pos (by dsimp only; omega)]

theorem Dereferences.of_infix {a b : ZendString} (h : Dereferences str s ∨ ¬zstr "->" <:+: b) (hab : a <:+: b) :
    Dereferences str s ∨ ¬zstr "->" <:+: a := h.imp_right fun hno ha => hno (ha.trans hab)

theorem infix_of_eq {a b l r : ZendString} (h : b = l ++ a ++ r) : a <:+: b := ⟨l, r, h.symm⟩

/-- The name of an object, behind a `->` in brackets. -/
theorem skip_arrow (hs : Inside s) (hlen : str.length ≤ 2 ^ 31) (hd : Dereferences str s) (name : ConstName)
    {r : ZendString} (hr : Follows str (p + 2 + name.1.length) r) :
    tokenLoop w parseVar str (scan p 0 (zstr "->" ++ (name.1 ++ r))) s =
      tokenLoop w parseVar str (scan (p + 2 + name.1.length) 0 r) s := by
  have hnext : isNextTokenEmpty (arrowAt p) (scan (p + 2) 0 (name.1 ++ r)).head? str = false :=
    not_isNextTokenEmpty name.2.1 (plain_const name) hlen hr
  have hv : isTokenValid (arrowAt p) (scan (p + 2) 0 (name.1 ++ r)).head? s.quote s.arrayCount str s.pos = true :=
    valid_object rfl hd fun _ => hnext
  rw [scan_arrow, tokenLoop, tokenStep_name hs (Or.inl rfl) hv]
  dsimp only
  rw [scan_plain (plain_const name)]

/-- The head of a path in brackets. -/
theorem skip_head (hs : Inside s) (hlen : str.length ≤ 2 ^ 31) (head : Head) {r : ZendString}
    (hr : Follows str (p + (head.scope ++ head.name).length) r) :
    tokenLoop w parseVar str (scan p 0 (head.scope ++ head.name ++ r)) s =
      tokenLoop w parseVar str (scan (p + (head.scope ++ head.name).length) 0 r) s := by
  cases head with
  | var name =>
    dsimp only [Head.scope, Head.name, List.nil_append]
    rw [scan_plain (plain_var name)]
  | const name =>
    dsimp only [Head.scope, Head.name, List.nil_append]
    rw [scan_plain (plain_const name)]
  | classConst class_ name =>
    dsimp only [Head.scope, Head.name] at hr ⊢
    have hpos : p + (class_.1 ++ zstr "::" ++ name.1).length = p + class_.1.length + 2 + name.1.length := by
      have htwo : (zstr "::").length = 2 := by decide
      rw [List.length_append, List.length_append, htwo]
      omega
    rw [hpos] at hr ⊢
    have hnext : isNextTokenEmpty (scopeAt (p + class_.1.length))
        (scan (p + class_.1.length + 2) 0 (name.1 ++ r)).head? str = false :=
      not_isNextTokenEmpty name.2.1 (plain_const name) hlen hr
    rw [List.append_assoc, List.append_assoc, scan_plain (plain_const class_), scan_scope, tokenLoop,
      tokenStep_name hs (Or.inr rfl) (valid_classConst rfl fun _ => hnext)]
    dsimp only
    rw [scan_plain (plain_const name)]

mutual

/-- **Between brackets nothing is taken off.** -/
theorem Index.skip (hlen : str.length ≤ 2 ^ 31) : ∀ (i : Index) (_ : i.Supported) (r : ZendString) (p : ℕ)
    (s : PathState) (_ : Inside s) (_ : Dereferences str s ∨ ¬zstr "->" <:+: i.text),
      tokenLoop w parseVar str (scan p 0 (i.text ++ (zstr "]" ++ r))) s =
        tokenLoop w parseVar str (scan (p + i.text.length) 0 (zstr "]" ++ r)) s
  | .quoted q a, _, r, p, s, hs, hd => by
    have htext : (Index.quoted q a).text ++ (zstr "]" ++ r) = q.char :: (a.1 ++ q.char :: (zstr "]" ++ r)) := by
      simp [Index.text]
    have hpos : p + (Index.quoted q a).text.length = p + 1 + a.1.length + 1 := by
      simp only [Index.text, List.length_append, List.length_cons, List.length_nil]
      omega
    have hda : Dereferences str { s with quote := Quote.type q } ∨ ¬zstr "->" <:+: a.1 :=
      Dereferences.of_infix hd (infix_of_eq (show (Index.quoted q a).text = [q.char] ++ a.1 ++ [q.char] from rfl))
    rw [htext, hpos, scan_quote, tokenLoop, tokenStep_quoteOpen q hs]
    dsimp only
    rw [skip_quoted q rfl a.2.1 hda (p + 1) (Nat.zero_le _), scan_quote, tokenLoop, scan_close, List.head?_cons,
      tokenStep_quoteClose q hs ⟨_, rfl, rfl⟩]
  | .number negative digits, hsup, r, p, s, _, _ => by
    obtain rfl : negative = false := hsup
    have hplain : ∀ c ∈ digits.1, isPlain c = true :=
      fun c hc => isPlain_of_isConstChar (isConstChar_of_isDigit (digits.2.2 c hc))
    have htext : (Index.number false digits).text = digits.1 := rfl
    rw [htext, scan_plain hplain]
  | .path head steps, hsup, r, p, s, hs, hd => by
    have htext : (Index.path head steps).text = head.scope ++ head.name ++ steps.text := by simp [Index.text]
    have hr : Follows str (p + (head.scope ++ head.name).length) (steps.text ++ (zstr "]" ++ r)) :=
      follows_steps steps follows_close
    have hd' : Dereferences str s ∨ ¬zstr "->" <:+: steps.text :=
      Dereferences.of_infix hd (infix_of_eq (show _ = head.scope ++ head.name ++ steps.text ++ [] by simp [htext]))
    have hpos : p + (head.scope ++ head.name ++ steps.text).length =
        p + (head.scope ++ head.name).length + steps.text.length := by
      rw [List.length_append, Nat.add_assoc]
    rw [htext, hpos, List.append_assoc, skip_head hs hlen head hr, Steps.skip hlen steps hsup.2 r _ s hs hd']

theorem Steps.skip (hlen : str.length ≤ 2 ^ 31) : ∀ (steps : Steps) (_ : steps.Supported) (r : ZendString) (p : ℕ)
    (s : PathState) (_ : Inside s) (_ : Dereferences str s ∨ ¬zstr "->" <:+: steps.text),
      tokenLoop w parseVar str (scan p 0 (steps.text ++ (zstr "]" ++ r))) s =
        tokenLoop w parseVar str (scan (p + steps.text.length) 0 (zstr "]" ++ r)) s
  | .nil, _, r, p, s, _, _ => by simp [Steps.text]
  | .index i rest, hsup, r, p, s, hs, hd => by
    have htext : (Steps.index i rest).text ++ (zstr "]" ++ r) =
        zstr "[" ++ (i.text ++ (zstr "]" ++ (rest.text ++ (zstr "]" ++ r)))) := by simp [Steps.text]
    have hpos : p + (Steps.index i rest).text.length = p + 1 + i.text.length + 1 + rest.text.length := by
      have hopen : (zstr "[").length = 1 := by decide
      have hclose : (zstr "]").length = 1 := by decide
      simp only [Steps.text, List.length_append, hopen, hclose]
      omega
    have hsplit : (Steps.index i rest).text = zstr "[" ++ i.text ++ (zstr "]" ++ rest.text) := by simp [Steps.text]
    have hsplit' : (Steps.index i rest).text = zstr "[" ++ i.text ++ zstr "]" ++ rest.text ++ [] := by simp [Steps.text]
    have hi : Inside { s with arrayCount := s.arrayCount + 1 } := ⟨hs.quote, Int.lt_add_one_of_le hs.count.le⟩
    have hr : Follows str (p + 1 + i.text.length + 1) (rest.text ++ (zstr "]" ++ r)) := follows_steps rest follows_close
    have hv : isTokenValid (closeAt (p + 1 + i.text.length)) (scan _ 0 (rest.text ++ (zstr "]" ++ r))).head? .undefined
        (s.arrayCount + 1) str s.pos = true := valid_close hi.count hlen hr
    rw [htext, hpos, scan_open, tokenLoop, tokenStep_openAt hs]
    dsimp only
    rw [Index.skip hlen i hsup.1 _ _ _ hi (Dereferences.of_infix hd (infix_of_eq hsplit)), scan_close, tokenLoop,
      tokenStep_closeAt hs hv]
    dsimp only
    exact Steps.skip hlen rest hsup.2 r _ s hs (Dereferences.of_infix hd (infix_of_eq hsplit'))
  | .prop name rest, hsup, r, p, s, hs, hd => by
    have htext : (Steps.prop name rest).text ++ (zstr "]" ++ r) =
        zstr "->" ++ (name.1 ++ (rest.text ++ (zstr "]" ++ r))) := by simp [Steps.text]
    have hpos : p + (Steps.prop name rest).text.length = p + 2 + name.1.length + rest.text.length := by
      have htwo : (zstr "->").length = 2 := by decide
      simp only [Steps.text, List.length_append, htwo]
      omega
    have hsplit : (Steps.prop name rest).text = [] ++ zstr "->" ++ (name.1 ++ rest.text) := by simp [Steps.text]
    have hsplit' : (Steps.prop name rest).text = zstr "->" ++ name.1 ++ rest.text ++ [] := by simp [Steps.text]
    have hobject : Dereferences str s := hd.resolve_right fun hno => hno (infix_of_eq hsplit)
    rw [htext, hpos, skip_arrow hs hlen hobject name (follows_steps rest follows_close)]
    exact Steps.skip hlen rest hsup r _ s hs (Dereferences.of_infix hd (infix_of_eq hsplit'))

end

end Brackets

/-! ### Outside of brackets -/

section Outside
variable {w : World} {parseVar : ZendString → Option SpTree} {str pre name next r : ZendString} {t : SpConfToken}
  {tree : List VarNode}

/-- What `parse_tokens` does behind its loop. -/
def finish (w : World) (str : ZendString) : Option PathState → Option (List VarNode)
  | none => none
  | some s =>
    if s.arrayCount ≠ 0 then none
    else if s.quote ≠ .undefined then none
    else if s.pos = str.length then some s.tree
    else (createVar w (str.drop s.pos) (sizeSub str.length s.pos) .constant .nil).map fun node => s.tree ++ [node]

theorem parseTokens_eq (tokens : List SpConfToken) :
    parseTokens w parseVar str tokens = finish w str (tokenLoop w parseVar str tokens {}) := by
  unfold parseTokens finish
  cases tokenLoop w parseVar str tokens {} with
  | none => rfl
  | some s =>
    dsimp only
    congr 3
    cases createVar w (str.drop s.pos) (sizeSub str.length s.pos) .constant .nil <;> rfl

/-- An element of a known kind. -/
theorem createVar_name {type : ElemType} (htype : type ≠ .constant)
    (hname : type = .interpretedString ∨ isVarNameValid w name = true) (idx : SpTree) :
    createVar w (name ++ r) name.length type idx = some ⟨type, name, idx⟩ := by
  have hkeep : (if (name ++ r).head? = some 36 ∧ type = .constant then ElemType.var else type) = type :=
    if_neg fun h => htype h.2
  have hvalid : ¬(type ≠ .interpretedString ∧ (!isVarNameValid w name) = true) := by
    rintro ⟨hne, hno⟩
    rw [hname.resolve_left hne] at hno
    exact absurd hno (by decide)
  unfold createVar
  rw [List.take_left]
  dsimp only
  rw [hkeep, if_neg hvalid]

/-- The last element. -/
theorem createVar_last (hname : isVarNameValid w name = true) : createVar w name name.length .constant .nil =
    some ⟨if name.head? = some 36 then .var else .constant, name, .nil⟩ := by
  unfold createVar
  rw [List.take_length]
  simp [hname]

theorem takeOff_name {type : ElemType} (hstr : str = pre ++ (name ++ r)) (hlen : str.length ≤ 2 ^ 31)
    (hpos : t.pos = pre.length + name.length) (htype : type ≠ .constant ∧ type ≠ .array)
    (hname : type = .interpretedString ∨ isVarNameValid w name = true) :
    takeOff w parseVar str t type { pos := pre.length, tree := tree } =
      some { pos := t.pos + t.textRepr.length, tree := tree ++ [⟨type, name, .nil⟩] } := by
  have hle : t.pos ≤ str.length := by
    rw [hpos, hstr, List.length_append, List.length_append]
    omega
  have hsub : t.pos - pre.length = name.length := by omega
  have hno : ¬(-1 : ℤ) > 0 := by omega
  unfold takeOff
  simp only [if_neg htype.2, if_neg hno]
  rw [sizeSub_of_le (by omega) (by omega), hsub, hstr, List.drop_left, createVar_name htype.1 hname]
  rfl

theorem takeOff_index {idx : ZendString} {q : ℕ} (hstr : str = pre ++ (name ++ (zstr "[" ++ (idx ++ r))))
    (hlen : str.length ≤ 2 ^ 31) (hq : q = pre.length + name.length + 1) (hpos : t.pos = q + idx.length)
    (hle : t.pos < str.length) (hone : t.textRepr.length = 1) (hname : isVarNameValid w name = true) :
    takeOff w parseVar str t .array { pos := pre.length, posIdxStart := q, tree := tree } =
      some { pos := t.pos + 1, tree := tree ++ [⟨.array, name, (parseVar idx).getD .nil⟩] } := by
  have hstart : (q : ℤ) > 0 := by omega
  have hidx : t.pos - q = idx.length := by omega
  have hsub : t.pos - pre.length - 1 - idx.length = name.length := by omega
  have hdrop : (str.drop q).take idx.length = idx := by
    have hsplit : str = (pre ++ name ++ zstr "[") ++ (idx ++ r) := by simp [hstr]
    have hlen : q = (pre ++ name ++ zstr "[").length := by
      have hopen : (zstr "[").length = 1 := by decide
      rw [List.length_append, List.length_append, hopen, hq]
    rw [hsplit, hlen, List.drop_left, List.take_left]
  unfold takeOff
  simp only [if_pos hstart, if_true, Int.toNat_natCast, hone]
  rw [sizeSub_of_le (show pre.length ≤ t.pos by omega) (by omega), sizeSub_of_le (show q ≤ t.pos by omega) (by omega),
    hidx, sizeSub_of_le (show 1 ≤ t.pos - pre.length by omega) (by omega),
    sizeSub_of_le (show idx.length ≤ t.pos - pre.length - 1 by omega) (by omega), hsub, hdrop]
  rw [hstr, List.drop_left, createVar_name (by decide) (Or.inr hname)]
  rfl

theorem finish_end {pos : ℕ} (h : pos = str.length) :
    finish w str (some { pos := pos, tree := tree }) = some tree := by
  simp [finish, h]

theorem finish_name (hstr : str = pre ++ name)
    (hlen : str.length ≤ 2 ^ 31) (hname : name ≠ []) (hvalid : isVarNameValid w name = true) :
    finish w str (some { pos := pre.length, tree := tree }) =
      some (tree ++ [⟨if name.head? = some 36 then .var else .constant, name, .nil⟩]) := by
  have hpos := List.length_pos_iff.mpr hname
  have hle : str.length = pre.length + name.length := by rw [hstr, List.length_append]
  have hsub : str.length - pre.length = name.length := by omega
  unfold finish
  dsimp only
  rw [if_neg (by decide), if_neg (by decide), if_neg (by omega), sizeSub_of_le (by omega) (by omega), hsub, hstr,
    List.drop_left, createVar_last hvalid]
  rfl

/-- A name in front of a `->` or `::` is taken off. -/
theorem tokenLoop_name {d : ElemType × ZendString} (hd : d = (.object, zstr "->") ∨ d = (.classConst, zstr "::"))
    (hstr : str = pre ++ (name ++ (d.2 ++ (next ++ r)))) (hlen : str.length ≤ 2 ^ 31)
    (hname : isVarNameValid w name = true) (hderef : d.1 = .object → pre ≠ [] ∨ str.head? = some 36)
    (hnext : next ≠ []) (hplain : ∀ c ∈ next, isPlain c = true)
    (hr : Follows str ((pre ++ name ++ d.2).length + next.length) r) :
    tokenLoop w parseVar str (scan (pre.length + name.length) 0 (d.2 ++ (next ++ r)))
        { pos := pre.length, tree := tree } =
      tokenLoop w parseVar str (scan ((pre ++ name ++ d.2).length + next.length) 0 r)
        { pos := (pre ++ name ++ d.2).length, tree := tree ++ [⟨d.1, name, .nil⟩] } := by
  have hpos : (pre ++ name ++ d.2).length = pre.length + name.length + d.2.length := by
    rw [List.length_append, List.length_append]
  have hmem : d ∈ delimiterList := by rcases hd with rfl | rfl <;> decide
  rw [hpos] at hr ⊢
  rw [scan_delimiter hmem, tokenLoop]
  generalize ht : (⟨d.1, d.2, pre.length + name.length⟩ : SpConfToken) = t
  have htype : t.type = d.1 := by rw [← ht]
  have hrepr : t.textRepr = d.2 := by rw [← ht]
  have htpos : t.pos = pre.length + name.length := by rw [← ht]
  rw [← htpos, ← hrepr] at hr ⊢
  have hempty := not_isNextTokenEmpty hnext hplain hlen hr
  have hv : isTokenValid t (scan (t.pos + t.textRepr.length) 0 (next ++ r)).head? .undefined 0 str pre.length = true := by
    rcases hd with rfl | rfl
    · refine valid_object (s := { pos := pre.length }) htype ?_ fun _ => hempty
      exact (hderef rfl).imp_left fun h => (List.length_pos_iff.mpr h).ne'
    · exact valid_classConst htype fun _ => hempty
  have hq : quoteStep t { pos := pre.length, tree := tree } = (d.1, { pos := pre.length, tree := tree }) := by
    unfold quoteStep
    rw [if_neg, htype]
    rw [htype]
    rcases hd with rfl | rfl <;> decide
  have hb : bracketStep t d.1 { pos := pre.length, tree := tree } = (d.1, { pos := pre.length, tree := tree }) := by
    rcases hd with rfl | rfl <;> rfl
  have hkind : d.1 ≠ .constant ∧ d.1 ≠ .array := by rcases hd with rfl | rfl <;> decide
  rw [tokenStep_seen hv hq rfl hb, if_neg (not_not.mpr rfl), takeOff_name hstr hlen htpos hkind (Or.inr hname)]
  dsimp only
  rw [scan_plain hplain]

/-- The first bracket of an index, outside of all brackets. -/
theorem tokenStep_openTop (hlen : pre.length + name.length + 1 < 2 ^ 31) {next : Option SpConfToken} :
    tokenStep w parseVar str (openAt (pre.length + name.length)) next { pos := pre.length, tree := tree } =
      some { pos := pre.length, arrayCount := 1, posIdxStart := (pre.length + name.length + 1 : ℕ), tree := tree } := by
  have hb : bracketStep (openAt (pre.length + name.length)) .array { pos := pre.length, tree := tree } =
      (.array,
        { pos := pre.length, arrayCount := 1, posIdxStart := (pre.length + name.length + 1 : ℕ), tree := tree }) := by
    unfold bracketStep
    dsimp only
    rw [if_neg (not_not.mpr rfl), ← bmod_of_lt hlen]
    rfl
  rw [tokenStep_seen rfl (show quoteStep (openAt _) _ = (.array, { pos := pre.length, tree := tree }) from rfl) rfl hb,
    if_pos one_ne_zero]

/-- **An index is taken off with the name in front of it.** -/
theorem tokenLoop_index (i : Index) (hsup : i.Supported)
    (hstr : str = pre ++ (name ++ (zstr "[" ++ (i.text ++ (zstr "]" ++ r))))) (hlen : str.length ≤ 2 ^ 31)
    (hname : isVarNameValid w name = true) (hd : (pre ≠ [] ∨ str.head? = some 36) ∨ ¬zstr "->" <:+: i.text)
    (hr : Follows str (pre ++ name ++ zstr "[" ++ i.text ++ zstr "]").length r) :
    tokenLoop w parseVar str (scan (pre.length + name.length) 0 (zstr "[" ++ (i.text ++ (zstr "]" ++ r))))
        { pos := pre.length, tree := tree } =
      tokenLoop w parseVar str (scan (pre ++ name ++ zstr "[" ++ i.text ++ zstr "]").length 0 r)
        { pos := (pre ++ name ++ zstr "[" ++ i.text ++ zstr "]").length
          tree := tree ++ [⟨.array, name, (parseVar i.text).getD .nil⟩] } := by
  have hopen : (zstr "[").length = 1 := by decide
  have hclose : (zstr "]").length = 1 := by decide
  have hpos : (pre ++ name ++ zstr "[" ++ i.text ++ zstr "]").length =
      pre.length + name.length + 1 + i.text.length + 1 := by
    simp only [List.length_append, hopen, hclose]
  have hle : pre.length + name.length + 1 + i.text.length + 1 ≤ str.length := by
    rw [hstr]
    simp only [List.length_append, hopen, hclose]
    omega
  rw [hpos] at hr ⊢
  generalize hq : pre.length + name.length + 1 = q at hr hle ⊢
  have hinside : Inside { pos := pre.length, arrayCount := 1, posIdxStart := q, tree := tree } := ⟨rfl, one_pos⟩
  have hderef : Dereferences str { pos := pre.length, arrayCount := 1, posIdxStart := q, tree := tree } ∨
      ¬zstr "->" <:+: i.text :=
    hd.imp_left fun h => h.imp_left fun h => (List.length_pos_iff.mpr h).ne'
  have hv : isTokenValid (closeAt (q + i.text.length)) (scan (q + i.text.length + 1) 0 r).head? .undefined 1 str
      pre.length = true := valid_close one_pos hlen hr
  have hb : bracketStep (closeAt (q + i.text.length)) .arrayEnd
      { pos := pre.length, arrayCount := 1, posIdxStart := q, tree := tree } =
        (.array, { pos := pre.length, posIdxStart := q, tree := tree }) := rfl
  have hqs : quoteStep (closeAt (q + i.text.length))
      { pos := pre.length, arrayCount := 1, posIdxStart := q, tree := tree } =
        (.arrayEnd, { pos := pre.length, arrayCount := 1, posIdxStart := q, tree := tree }) := rfl
  rw [scan_open, tokenLoop, tokenStep_openTop (by omega), hq]
  dsimp only
  rw [Index.skip hlen i hsup r q _ hinside hderef, scan_close, tokenLoop, tokenStep_seen hv hqs rfl hb,
    if_neg (not_not.mpr rfl),
    takeOff_index hstr hlen hq.symm rfl (show q + i.text.length < str.length by omega) hclose hname]
  rfl

end Outside

/-! ### Whole paths -/

theorem treeOf_some {nodes : List VarNode} (h : nodes ≠ []) : treeOf (some nodes) = some (link nodes) := by
  cases nodes with
  | nil => exact absurd rfl h
  | cons n nodes => rfl

theorem elements_ne_nil (steps : Steps) {name : ZendString} (h : name ≠ []) : steps.elements name ≠ [] := by
  cases steps with
  | nil => simp [Steps.elements, h]
  | index i rest => simp [Steps.elements]
  | prop next rest => simp [Steps.elements]

theorem spParseVar_scan {w : World} {str : ZendString} (hlen : str.length ≤ 2 ^ 31) : spParseVar w str =
    treeOf (finish w str (tokenLoop w (spParseVar w) str (scan 0 0 str) {})) := by
  rw [spParseVar_eq, sorted_eq_scan hlen, parseTokens_eq]

/-- A quoted string is all that is in its quotes. -/
theorem parse_quoted (w : World) (q : Quote) (a : {s : ZendString // q.char ∉ s ∧ 0 ∉ s})
    (hlen : (Index.quoted q a).text.length ≤ 2 ^ 31) :
    spParseVar w (Index.quoted q a).text = some (Index.quoted q a).tree := by
  have htext : (Index.quoted q a).text = q.char :: (a.1 ++ [q.char]) := by simp [Index.text]
  rw [htext] at hlen ⊢
  generalize hstr : (q.char :: (a.1 ++ [q.char]) : ZendString) = str at hlen ⊢
  have hsize : str.length = a.1.length + 2 := by
    rw [← hstr]
    simp
  have hscan : scan 0 0 str = Quote.tokenAt q 0 :: scan 1 0 (a.1 ++ [q.char]) := by rw [← hstr, scan_quote]
  have hopen : tokenStep w (spParseVar w) str (Quote.tokenAt q 0) (scan 1 0 (a.1 ++ [q.char])).head? {} =
      some { pos := 1, quote := Quote.type q } :=
    tokenStep_hidden (valid_quoteOpen q rfl) (quoteStep_open q rfl) (Quote.type_ne q)
  have hv : isTokenValid (Quote.tokenAt q (1 + a.1.length)) none (Quote.type q) 0 str 1 = true := by
    rw [isTokenValid_quoteClose]
    dsimp only
    rw [sizeSub_of_le (by omega) (by omega), beq_iff_eq]
    omega
  have hb : bracketStep (Quote.tokenAt q (1 + a.1.length)) .interpretedString { pos := 1 } =
      (.interpretedString, { pos := 1 }) := rfl
  have hname : takeOff w (spParseVar w) str (Quote.tokenAt q (1 + a.1.length)) .interpretedString { pos := 1 } =
      some { pos := 1 + a.1.length + 1, tree := [⟨.interpretedString, a.1, .nil⟩] } :=
    takeOff_name (show str = [q.char] ++ (a.1 ++ [q.char]) from hstr.symm) hlen rfl (by decide) (Or.inl rfl)
  rw [spParseVar_scan hlen, hscan, tokenLoop, hopen]
  dsimp only
  rw [skip_quoted q rfl a.2.1 (Or.inl (Or.inl one_ne_zero)) _ (Nat.zero_le _), scan_quote, scan, tokenLoop,
    List.head?_nil, tokenStep_seen hv (quoteStep_close q rfl) rfl hb, if_neg (not_not.mpr rfl), hname]
  dsimp only
  rw [tokenLoop, finish_end (by omega)]
  rfl

/-- A constant has no properties. -/
theorem parse_const_prop (w : World) (c : ConstName) {r : ZendString}
    (hlen : (c.1 ++ (zstr "->" ++ r)).length ≤ 2 ^ 31) : spParseVar w (c.1 ++ (zstr "->" ++ r)) = none := by
  have hhead : (c.1 ++ (zstr "->" ++ r)).head? ≠ some 36 := by
    rw [List.head?_append_of_ne_nil _ c.2.1]
    intro h
    have hconst := c.2.2 36 (List.mem_of_mem_head? h)
    exact absurd hconst (by decide)
  have hinvalid (next : Option SpConfToken) :
      isTokenValid (arrowAt c.1.length) next .undefined 0 (c.1 ++ (zstr "->" ++ r)) 0 = false := invalid_object rfl hhead
  have hstep (next : Option SpConfToken) :
      tokenStep w (spParseVar w) (c.1 ++ (zstr "->" ++ r)) (arrowAt c.1.length) next {} = none := by
    rw [tokenStep_eq, if_pos (hinvalid next)]
  rw [spParseVar_scan hlen, scan_plain (plain_const c), Nat.zero_add, scan_arrow, tokenLoop, hstep]
  rfl

section Parse
variable {w : World} (hw : MatchesNames w)
include hw

theorem parse_number (digits : {s : ZendString // s ≠ [] ∧ ∀ c ∈ s, isDigit c = true})
    (hlen : (Index.number false digits).text.length ≤ 2 ^ 31) :
    spParseVar w (Index.number false digits).text = some (Index.number false digits).tree := by
  have hconst : ∀ c ∈ digits.1, isConstChar c = true := fun c hc => isConstChar_of_isDigit (digits.2.2 c hc)
  have hplain : ∀ c ∈ digits.1, isPlain c = true := fun c hc => isPlain_of_isConstChar (hconst c hc)
  have htext : (Index.number false digits).text = digits.1 := rfl
  have hscan : scan 0 0 digits.1 = [] := by
    have h := scan_plain hplain [] 0
    rwa [List.append_nil] at h
  have hhead : ¬digits.1.head? = some 36 := by
    intro h
    have hdigit := digits.2.2 36 (List.mem_of_mem_head? h)
    exact absurd hdigit (by decide)
  rw [htext] at hlen ⊢
  have hlast : finish w digits.1 (some {}) = some [⟨.constant, digits.1, .nil⟩] := by
    have h : finish w digits.1 (some {}) =
        some ([] ++ [⟨if digits.1.head? = some 36 then .var else .constant, digits.1, .nil⟩]) :=
      finish_name (List.nil_append digits.1).symm hlen digits.2.1 (valid_of_const hw hconst)
    rwa [if_neg hhead] at h
  rw [spParseVar_scan hlen, hscan, tokenLoop, hlast]
  rfl

theorem valid_nil : isVarNameValid w [] = true := valid_of_const hw (List.forall_mem_nil _)

mutual

/-- **The parser reads an index back.** -/
theorem Index.parse : ∀ (i : Index) (_ : i.Supported) (_ : i.text.length ≤ 2 ^ 31), spParseVar w i.text = some i.tree
  | .quoted q a, _, hlen => parse_quoted w q a hlen
  | .number negative digits, hsup, hlen => by
    obtain rfl : negative = false := hsup
    exact parse_number hw digits hlen
  | .path head steps, hsup, hlen => by
    have htext : (Index.path head steps).text = head.scope ++ (head.name ++ steps.text) := by simp [Index.text]
    rw [htext] at hlen ⊢
    have hloop : finish w (head.scope ++ (head.name ++ steps.text)) (tokenLoop w (spParseVar w)
        (head.scope ++ (head.name ++ steps.text)) (scan 0 0 (head.scope ++ (head.name ++ steps.text))) {}) =
          some (head.elements ++ steps.elements head.name) := by
      cases head with
      | var name =>
        have h := Steps.parse steps hsup.2 _ [] (36 :: name.1) [] rfl hlen (valid_of_var hw name) (Or.inl (Or.inr rfl))
        rw [List.length_nil, ← scan_plain (plain_var name)] at h
        exact h
      | const name =>
        have h := Steps.parse steps hsup.2 _ [] name.1 [] rfl hlen (valid_of_const hw name.2.2) (Or.inr hsup.1)
        rw [List.length_nil, ← scan_plain (plain_const name)] at h
        exact h
      | classConst class_ name =>
        have hstr : class_.1 ++ zstr "::" ++ (name.1 ++ steps.text) =
            [] ++ (class_.1 ++ (zstr "::" ++ (name.1 ++ steps.text))) := by simp
        have hr : Follows (class_.1 ++ zstr "::" ++ (name.1 ++ steps.text))
            (([] ++ class_.1 ++ zstr "::").length + name.1.length) steps.text := by
          rw [← List.append_nil steps.text]
          refine follows_steps steps (Or.inl ⟨rfl, ?_⟩)
          simp only [List.length_append, List.append_nil, List.length_nil]
          omega
        have h := Steps.parse steps hsup.2 _ (class_.1 ++ zstr "::") name.1 [⟨.classConst, class_.1, .nil⟩] rfl hlen
          (valid_of_const hw name.2.2) (Or.inl (Or.inl (by simp [zstr])))
        have hscan : scan 0 0 (class_.1 ++ zstr "::" ++ (name.1 ++ steps.text)) =
            scan (0 + class_.1.length) 0 (zstr "::" ++ (name.1 ++ steps.text)) := by
          rw [List.append_assoc, scan_plain (plain_const class_)]
        dsimp only [Head.scope, Head.name]
        rw [hscan]
        refine (congrArg (finish w _) ?_).trans h
        exact tokenLoop_name (Or.inr rfl) hstr hlen (valid_of_const hw class_.2.2) nofun name.2.1 (plain_const name) hr
    have hne : head.name ≠ [] := by
      cases head with
      | var name => exact List.cons_ne_nil _ _
      | const name => exact name.2.1
      | classConst _ name => exact name.2.1
    rw [spParseVar_scan hlen, hloop, Index.tree]
    exact treeOf_some (List.append_ne_nil_of_right_ne_nil _ (elements_ne_nil steps hne))

/-- **Each step takes off its element.** -/
theorem Steps.parse : ∀ (steps : Steps) (_ : steps.Supported) (str pre name : ZendString) (tree : List VarNode)
    (_ : str = pre ++ (name ++ steps.text)) (_ : str.length ≤ 2 ^ 31) (_ : isVarNameValid w name = true)
    (_ : (pre ≠ [] ∨ str.head? = some 36) ∨ steps.afterConst),
      finish w str (tokenLoop w (spParseVar w) str (scan (pre.length + name.length) 0 steps.text)
        { pos := pre.length, tree := tree }) = some (tree ++ steps.elements name)
  | .nil, _, str, pre, name, tree, hstr, hlen, hvalid, _ => by
    rw [Steps.text, List.append_nil] at hstr
    rw [Steps.text, Steps.elements]
    by_cases hname : name = []
    · rw [if_pos hname, List.append_nil]
      exact finish_end (by rw [hstr, hname, List.append_nil])
    · rw [if_neg hname]
      exact finish_name hstr hlen hname hvalid
  | .index i rest, hsup, str, pre, name, tree, hstr, hlen, hvalid, hd => by
    have htext : (Steps.index i rest).text = zstr "[" ++ (i.text ++ (zstr "]" ++ rest.text)) := by simp [Steps.text]
    have hstr' : str = (pre ++ name ++ zstr "[" ++ i.text ++ zstr "]") ++ ([] ++ rest.text) := by
      rw [hstr, htext]
      simp
    have hidx : i.text.length ≤ 2 ^ 31 := by
      refine le_trans ?_ hlen
      rw [hstr, htext]
      simp only [List.length_append]
      omega
    have hr : Follows str (pre ++ name ++ zstr "[" ++ i.text ++ zstr "]").length rest.text := by
      rw [← List.append_nil rest.text]
      refine follows_steps rest (Or.inl ⟨rfl, ?_⟩)
      rw [hstr', List.nil_append, List.length_append]
    rw [htext] at hstr ⊢
    rw [tokenLoop_index i hsup.1 hstr hlen hvalid hd hr, Index.parse i hsup.1 hidx]
    have hrest := Steps.parse rest hsup.2 str _ [] (tree ++ [⟨.array, name, i.tree⟩]) hstr' hlen (valid_nil hw)
      (Or.inl (Or.inl (by simp [zstr])))
    have helements : tree ++ (Steps.index i rest).elements name =
        tree ++ [⟨.array, name, i.tree⟩] ++ rest.elements [] := by simp [Steps.elements]
    rw [helements]
    exact hrest
  | .prop next rest, hsup, str, pre, name, tree, hstr, hlen, hvalid, hd => by
    have htext : (Steps.prop next rest).text = zstr "->" ++ (next.1 ++ rest.text) := by simp [Steps.text]
    have hstr' : str = (pre ++ name ++ zstr "->") ++ (next.1 ++ rest.text) := by
      rw [hstr, htext]
      simp
    have hr : Follows str ((pre ++ name ++ zstr "->").length + next.1.length) rest.text := by
      rw [← List.append_nil rest.text]
      refine follows_steps rest (Or.inl ⟨rfl, ?_⟩)
      rw [hstr']
      simp only [List.length_append]
      omega
    rw [htext] at hstr ⊢
    rw [tokenLoop_name (Or.inl rfl) hstr hlen hvalid (fun _ => hd.resolve_right id) next.2.1 (plain_const next) hr]
    have hrest := Steps.parse rest hsup str _ next.1 (tree ++ [⟨.object, name, .nil⟩]) hstr' hlen
      (valid_of_const hw next.2.2) (Or.inl (Or.inl (by simp [zstr])))
    have helements : tree ++ (Steps.prop next rest).elements name =
        tree ++ [⟨.object, name, .nil⟩] ++ rest.elements next.1 := by simp [Steps.elements]
    rw [helements]
    exact hrest

end

/-- **The parser reads a path back**: every path of at most `2 ^ 31` characters whose numbers have no sign, and in
which a constant has no property, nor a `->` in the text of its first index. A constant with a property is
rejected. -/
theorem path_round_trip (p : VarPath) (hlen : p.text.length ≤ 2 ^ 31) :
    (p.Supported → spParseVar w p.text = some p.tree) ∧
      ∀ (c name : ConstName) (rest : Steps), p = ⟨.const c, .prop name rest⟩ → spParseVar w p.text = none := by
  have htext : p.text = (Index.path p.head p.steps).text := by simp [VarPath.text, Index.text]
  constructor
  · intro hsup
    rw [htext] at hlen ⊢
    rw [Index.parse hw (.path p.head p.steps) hsup hlen, VarPath.tree, Index.tree]
  · rintro c name rest rfl
    have hconst : VarPath.text ⟨.const c, .prop name rest⟩ = c.1 ++ (zstr "->" ++ (name.1 ++ rest.text)) := by
      simp [VarPath.text, Head.scope, Head.name, Steps.text]
    rw [hconst] at hlen ⊢
    exact parse_const_prop w c hlen

end Parse

/-! ### Some paths -/

/-- `$foo[bar][$object->array['123']][$batman]`. -/
def nestedPath : VarPath where
  head := .var ⟨zstr "foo", 102, zstr "oo", by decide +kernel, by decide +kernel, by decide +kernel⟩
  steps :=
    .index (.path (.const ⟨zstr "bar", by decide +kernel⟩) .nil)
      (.index (.path (.var ⟨zstr "object", 111, zstr "bject", by decide +kernel, by decide +kernel, by decide +kernel⟩)
          (.prop ⟨zstr "array", by decide +kernel⟩ (.index (.quoted .single ⟨zstr "123", by decide +kernel⟩) .nil)))
        (.index (.path (.var ⟨zstr "batman", 98, zstr "atman", by decide +kernel, by decide +kernel, by decide +kernel⟩) .nil) .nil))

theorem nestedPath_round_trip : nestedPath.text = zstr "$foo[bar][$object->array['123']][$batman]" ∧
    nestedPath.Supported ∧ spParseVar nameWorld nestedPath.text = some nestedPath.tree := by
  have hlen : nestedPath.text.length ≤ 2 ^ 31 := by decide +kernel
  have hsup : nestedPath.Supported := by
    simp [nestedPath, VarPath.Supported, Head.takes, Steps.Supported, Index.Supported, Steps.afterConst]
  exact ⟨by decide +kernel, hsup, (path_round_trip matchesNames_nameWorld nestedPath hlen).1 hsup⟩

/-- `FOO->bar`. -/
def constantPath : VarPath where
  head := .const ⟨zstr "FOO", by decide +kernel⟩
  steps := .prop ⟨zstr "bar", by decide +kernel⟩ .nil

/-- `$a[-1]`. -/
def negativePath : VarPath where
  head := .var ⟨zstr "a", 97, [], by decide +kernel, by decide +kernel, by decide +kernel⟩
  steps := .index (.number true ⟨zstr "1", by decide +kernel⟩) .nil

/-- The property of a constant is rejected, and a negative index is lost. -/
theorem not_round_trip : constantPath.text = zstr "FOO->bar" ∧ spParseVar nameWorld constantPath.text = none ∧
    negativePath.text = zstr "$a[-1]" ∧ spParseVar nameWorld negativePath.text ≠ some negativePath.tree ∧
      ¬∀ p : VarPath, spParseVar nameWorld p.text = some p.tree := by
  have hnone : spParseVar nameWorld constantPath.text = none := by decide +kernel
  refine ⟨by decide +kernel, hnone, by decide +kernel, by decide +kernel, fun h => ?_⟩
  have hsome := h constantPath
  rw [hnone] at hsome
  exact absurd hsome nofun

end Snuffleupagus.Config.PathRoundTrip
