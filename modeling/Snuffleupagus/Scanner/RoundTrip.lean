import Snuffleupagus.Scanner.Word
import Mathlib.Data.List.Chain

/-! # Printing a rule and scanning it

A rule is printed as `sp.k("e")...;`, with a backslash in front of each backslash and each quote of its
arguments, as `sp_get_arg_string` takes them away. The scanner finds the end of an argument by the
longest match: the quote that ends an argument with a backslash in front may as well be an escaped one,
and the string then goes on to the next quote with a `)` behind it. In a printed rule this is the one
that begins the next argument, if that one starts with `)`.

`round_trip_iff` says that a rule comes back exactly if this happens nowhere in it. -/

namespace Snuffleupagus.Scanner.RoundTrip

open Snuffleupagus.Lib.Lexer Snuffleupagus.Lib.Derivative Snuffleupagus.Php.Bytes
open Snuffleupagus.Config.Keyword
open Snuffleupagus.Load.Module (Statement)
open Snuffleupagus.Scanner.Token Snuffleupagus.Scanner.Scan Snuffleupagus.Scanner.Run
open Snuffleupagus.Scanner.Word

/-! ### Printed rules -/

/-- A backslash in front of each backslash and each quote. -/
def escape (s : ZendString) : ZendString := s.flatMap fun b => if b = 34 ∨ b = 92 then [92, b] else [b]

/-- `.k("e")`. -/
def printKeyword (p : ZendString × ZendString) : ZendString := keywordText p.1 (escape p.2)

/-- `sp.k1("e1").k2("e2")...;`. -/
def printRule (pairs : List (ZendString × ZendString)) : ZendString :=
  zstr "sp" ++ (pairs.flatMap printKeyword ++ zstr ";")

/-- A keyword of the scanner, with a printable argument. -/
def Printable (p : ZendString × ZendString) : Prop :=
  p.1 ∈ keyword.language ∧ ∀ b ∈ p.2, 32 ≤ b ∧ b ≤ 126

/-- The first of two arguments ends with a backslash, and the second starts with a parenthesis. -/
def RunsOn (p q : ZendString × ZendString) : Prop := p.2.getLast? = some 92 ∧ q.2.head? = some 41

/-! ### Escaped arguments -/

theorem escape_cons (b : UInt8) (s : ZendString) :
    escape (b :: s) = (if b = 34 ∨ b = 92 then [92, b] else [b]) ++ escape s := rfl

theorem unescape_cons {b : UInt8} (h : b ≠ 92) (s : ZendString) : unescape (b :: s) = b :: unescape s := by
  cases s with
  | nil => exact if_neg h
  | cons d s => exact if_neg h

theorem unescape_escape (s t : ZendString) : unescape (escape s ++ t) = s ++ unescape t := by
  induction s with
  | nil => rfl
  | cons b s ih =>
    rw [escape_cons, List.append_assoc]
    split_ifs with h
    · show b :: unescape (escape s ++ t) = b :: s ++ unescape t
      rw [ih]
      rfl
    · show unescape (b :: (escape s ++ t)) = b :: s ++ unescape t
      rw [unescape_cons (fun hb => h (Or.inr hb)), ih]
      rfl

theorem quotesEscaped_escape : ∀ {s : ZendString}, (∀ b ∈ s, 32 ≤ b ∧ b ≤ 126) → QuotesEscaped false (escape s)
  | [], _ => trivial
  | b :: s, h => by
    obtain ⟨hb, hs⟩ := List.forall_mem_cons.mp h
    have hline : isInLine b = true := by
      unfold isInLine
      have h1 : b ≠ 13 := by rintro rfl; exact absurd hb.1 (by decide)
      have h2 : b ≠ 10 := by rintro rfl; exact absurd hb.1 (by decide)
      have h3 : b ≠ 0 := by rintro rfl; exact absurd hb.1 (by decide)
      simp [h1, h2, h3]
    have hrest := quotesEscaped_escape hs
    rw [escape_cons]
    split_ifs with hspecial
    · exact ⟨rfl, nofun, hline, fun _ => rfl, hrest.mono⟩
    · exact ⟨hline, fun hq => absurd (Or.inl hq) hspecial, hrest.mono⟩

theorem getLast_escape : ∀ {s : ZendString}, (escape s).getLast? = s.getLast?
  | [] => rfl
  | [b] => by
    rw [escape_cons]
    split_ifs <;> rfl
  | b :: d :: s => by
    rw [escape_cons, List.getLast?_append_of_ne_nil, getLast_escape (s := d :: s), List.getLast?_cons_cons]
    rw [escape_cons]
    split_ifs <;> exact List.cons_ne_nil _ _

/-- An argument starts with a parenthesis if its text does, with the quote behind it. -/
theorem head_escape {s t : ZendString} : (escape s ++ 34 :: t).head? = some 41 ↔ s.head? = some 41 := by
  cases s with
  | nil => exact iff_of_false (show ¬ some (34 : UInt8) = some 41 by decide) nofun
  | cons b s =>
    rw [escape_cons]
    split_ifs with h
    · refine iff_of_false (show ¬ some (92 : UInt8) = some 41 by decide) ?_
      rintro hb
      cases hb
      exact absurd h (by decide)
    · exact Iff.rfl

/-! ### Where the string ends -/

theorem keywordText_append (k body rest : ZendString) :
    keywordText k body ++ rest = 46 :: (k ++ 40 :: 34 :: (body ++ 34 :: 41 :: rest)) := by
  simp [keywordText]

theorem length_keywordText (k body : ZendString) : (keywordText k body).length = k.length + body.length + 5 := by
  simp only [keywordText, List.length_cons, List.length_append, List.length_nil]
  omega

/-- Two quotes in one text. -/
theorem quote_cases {v x y z : ZendString} (hy : (34 : UInt8) ∉ y) (h : v ++ 34 :: x <+: y ++ 34 :: z) :
    v = y ∧ x <+: z ∨ ∃ v', v = y ++ 34 :: v' := by
  induction y generalizing v with
  | nil =>
    cases v with
    | nil => exact Or.inl ⟨rfl, (List.cons_prefix_cons.mp h).2⟩
    | cons b v =>
      obtain ⟨rfl, -⟩ := List.cons_prefix_cons.mp h
      exact Or.inr ⟨v, rfl⟩
  | cons b y ih =>
    obtain ⟨hb, hy'⟩ := not_or.mp (fun hm => hy (List.mem_cons.mpr hm))
    cases v with
    | nil => exact absurd (List.cons_prefix_cons.mp h).1 hb
    | cons d v =>
      obtain ⟨rfl, htail⟩ := List.cons_prefix_cons.mp h
      rcases ih hy' htail with ⟨rfl, hx⟩ | ⟨v', rfl⟩
      · exact Or.inl ⟨rfl, hx⟩
      · exact Or.inr ⟨v', rfl⟩

/-- A string at the head of a printed argument ends with it, or runs on behind a backslash. -/
theorem body_cases {body s rest : ZendString} (hbody : QuotesEscaped false body)
    (hpre : body ++ [34, 41] <+: escape s ++ 34 :: 41 :: rest) (hlen : (escape s).length ≤ body.length) :
    body = escape s ∨ ∃ v, body = escape s ++ 34 :: 41 :: v ∧ s.getLast? = some 92 ∧
      QuotesEscaped false v ∧ v ++ [34, 41] <+: rest := by
  have hs : escape s <+: body := by
    refine List.prefix_of_prefix_length_le (List.prefix_append _ (34 :: 41 :: rest)) ?_ hlen
    exact (List.prefix_append body [34, 41]).trans hpre
  obtain ⟨x, rfl⟩ := hs
  cases x with
  | nil => exact Or.inl (List.append_nil _)
  | cons b x =>
    right
    rw [List.append_assoc, List.prefix_append_right_inj] at hpre
    obtain ⟨rfl, htail⟩ := List.cons_prefix_cons.mp hpre
    have htail : x ++ [34, 41] <+: 41 :: rest := htail
    cases x with
    | nil =>
      have hbad := (List.cons_prefix_cons.mp htail).1
      cases hbad
    | cons d v =>
      obtain ⟨rfl, hv⟩ := List.cons_prefix_cons.mp htail
      have hparen : QuotesEscaped false (41 :: v) := hbody.of_append rfl
      refine ⟨v, rfl, ?_, hparen.2.2, hv⟩
      rcases hbody.getLast with ⟨-, hf⟩ | hlast
      · exact absurd hf Bool.false_ne_true
      · rw [← hlast, getLast_escape]

theorem not_runsOn_end {v : ZendString} : ¬ v ++ [34, 41] <+: [59, 0] := fun h => by
  have hmem := h.mem (List.mem_append_right v (List.mem_cons_self ..) : (34 : UInt8) ∈ v ++ [34, 41])
  exact absurd hmem (by decide)

/-- A string that runs on ends with the quote that begins the next argument. -/
theorem runsOn_next {v k s rest : ZendString} (hk : k ∈ keyword.language) (hv : QuotesEscaped false v)
    (h : v ++ [34, 41] <+: keywordText k (escape s) ++ rest) :
    v = 46 :: (k ++ [40]) ∧ s.head? = some 41 := by
  have hquote : (34 : UInt8) ∉ 46 :: (k ++ [40]) := by
    intro hm
    rcases List.mem_cons.mp hm with hm | hm
    · cases hm
    · rcases List.mem_append.mp hm with hm | hm
      · exact absurd (isWord_of_mem_keyword hk 34 hm) (by decide)
      · exact absurd hm (by decide)
  have hsplit : keywordText k (escape s) ++ rest =
      46 :: (k ++ [40]) ++ 34 :: (escape s ++ 34 :: 41 :: rest) := by
    rw [keywordText_append]
    simp
  rw [hsplit] at h
  rcases quote_cases hquote h with ⟨rfl, hx⟩ | ⟨v', rfl⟩
  · obtain ⟨y, hy⟩ := hx
    have hhead : (escape s ++ 34 :: (41 :: rest)).head? = some 41 := by
      rw [← hy]
      rfl
    exact ⟨rfl, head_escape.mp hhead⟩
  · rcases hv.getLast with ⟨hnil, -⟩ | hlast
    · cases hnil
    · rw [← List.cons_append, List.getLast?_append] at hlast
      cases hlast

/-! ### One printed keyword -/

theorem word_keywordText {k body : ZendString} (hk : k ∈ keyword.language) (hbody : QuotesEscaped false body) :
    Word ruleRules (keywordText k body) := by
  refine ⟨(ruleKeyword, .keyword), by simp [ruleRules, ruleKeyword], mem_ruleKeyword.mpr ⟨k, hk, Or.inr ?_⟩⟩
  refine ⟨34 :: (body ++ [34]), Or.inl (mem_string.mpr ⟨body, rfl, hbody⟩), ?_⟩
  simp [keywordText]

theorem prefix_keywordText {k body z : ZendString} (h : body ++ [34, 41] <+: z) :
    keywordText k body <+: 46 :: (k ++ 40 :: 34 :: z) := by
  refine List.cons_prefix_cons.mpr ⟨rfl, (List.prefix_append_right_inj k).mpr ?_⟩
  exact List.cons_prefix_cons.mpr ⟨rfl, List.cons_prefix_cons.mpr ⟨rfl, h⟩⟩

/-- The longest of the strings at the head of a printed argument, and what is behind it. -/
structure Body (a rest body : ZendString) : Prop where
  escaped : QuotesEscaped false body
  fits : body ++ [34, 41] <+: escape a ++ 34 :: 41 :: rest
  max : ∀ body', QuotesEscaped false body' → body' ++ [34, 41] <+: escape a ++ 34 :: 41 :: rest →
    body'.length ≤ body.length

theorem body_escape {p : ZendString × ZendString} (hp : Printable p) (rest : ZendString) :
    QuotesEscaped false (escape p.2) ∧ escape p.2 ++ [34, 41] <+: escape p.2 ++ 34 :: 41 :: rest :=
  ⟨quotesEscaped_escape hp.2, (List.prefix_append_right_inj _).mpr ⟨rest, rfl⟩⟩

/-- The token at a printed keyword. -/
theorem next_printed {p : ZendString × ZendString} {rest : ZendString} (hp : Printable p)
    (h0 : ∃ x, rest = x ++ [0]) : ∃ body, Body p.2 rest body ∧
      next ruleRules .other (printKeyword p ++ rest) = some (.keyword, (keywordText p.1 body).length) := by
  obtain ⟨k, a⟩ := p
  have hk : k ∈ keyword.language := hp.1
  obtain ⟨hesc, hfits⟩ : QuotesEscaped false (escape a) ∧ _ := body_escape hp rest
  obtain ⟨x, hx⟩ := h0
  have hdata : printKeyword (k, a) ++ rest = 46 :: (k ++ 40 :: 34 :: (escape a ++ 34 :: 41 :: rest)) :=
    keywordText_append k (escape a) rest
  have hlonger : ∀ body, QuotesEscaped false body → body ++ [34, 41] <+: escape a ++ 34 :: 41 :: rest →
      Word ruleRules (keywordText k body) ∧ Fits (printKeyword (k, a) ++ rest) (keywordText k body) := by
    intro body hbody hpre
    rw [hdata]
    exact ⟨word_keywordText hk hbody, Or.inl (prefix_keywordText hpre)⟩
  obtain ⟨hw, hfit⟩ := hlonger _ hesc hfits
  have hnul : ∃ x, printKeyword (k, a) ++ rest = x ++ [0] :=
    ⟨printKeyword (k, a) ++ x, by rw [hx, List.append_assoc]⟩
  obtain ⟨t, n, hsome, -⟩ : ∃ t n, next ruleRules .other (printKeyword (k, a) ++ rest) = some (t, n) ∧ _ :=
    next_of_nul _ bounded_ruleRules hnul
  rcases next_eq_some hsome with hl | ⟨-, -, -, hnone⟩
  · have hpre : (printKeyword (k, a) ++ rest).take n <+: 46 :: (k ++ 40 :: 34 :: (escape a ++ 34 :: 41 :: rest)) :=
      hdata ▸ List.take_prefix _ _
    obtain ⟨rfl, hmem⟩ := ruleRules_dot hl.names hpre
    have hlen : ((printKeyword (k, a) ++ rest).take n).length = n := List.length_take_of_le hl.le
    rcases keyword_word hmem (isWord_of_mem_keyword hk) hpre with hshort | ⟨body, hbody, htext, hfits⟩
    · have hmax := hl.max _ hw hfit
      rw [length_keywordText] at hmax
      omega
    · rw [htext] at hlen
      refine ⟨body, ⟨hbody, hfits, fun body' hbody' hpre' => ?_⟩, by rw [hlen]; exact hsome⟩
      obtain ⟨hw', hfit'⟩ := hlonger body' hbody' hpre'
      have hmax := hl.max _ hw' hfit'
      rw [length_keywordText] at hlen hmax
      omega
  · exact absurd hfit (hnone _ hw)

/-- What stands behind the keywords of a printed rule. -/
def printed (pairs : List (ZendString × ZendString)) : ZendString := pairs.flatMap printKeyword ++ [59, 0]

theorem printed_cons (p : ZendString × ZendString) (ps : List (ZendString × ZendString)) :
    printed (p :: ps) = printKeyword p ++ printed ps := by
  unfold printed
  rw [List.flatMap_cons, List.append_assoc]

theorem printed_nul (ps : List (ZendString × ZendString)) : ∃ x, printed ps = x ++ [0] :=
  ⟨ps.flatMap printKeyword ++ [59], by rw [List.append_assoc]; rfl⟩

/-- **The string of an argument is its text, unless it runs on.** -/
theorem Body.eq_or_runsOn {p : ZendString × ZendString} {ps : List (ZendString × ZendString)}
    {body : ZendString} (h : Body p.2 (printed ps) body) (hp : Printable p) (hps : ∀ q ∈ ps, Printable q) :
    body = escape p.2 ∧ (∀ q ∈ ps.head?, ¬ RunsOn p q) ∨
      unescape body ≠ p.2 ∧ ∃ q ∈ ps.head?, RunsOn p q := by
  obtain ⟨hesc, hfits⟩ := body_escape hp (printed ps)
  rcases body_cases h.escaped h.fits (h.max _ hesc hfits) with rfl | ⟨v, rfl, hlast, hv, hpre⟩
  · refine Or.inl ⟨rfl, ?_⟩
    rintro q hq ⟨hlast, hhead⟩
    obtain ⟨qs, rfl⟩ : ∃ qs, ps = q :: qs := List.head?_eq_some_iff.mp hq
    have hq := hps q (List.mem_cons_self ..)
    have hnext : (escape q.2 ++ 34 :: 41 :: printed qs).head? = some 41 := head_escape.mpr hhead
    obtain ⟨z, hz⟩ := List.head?_eq_some_iff.mp hnext
    have hword : QuotesEscaped false (41 :: 46 :: (q.1 ++ [40])) := quotesEscaped_of_isInString (by
      intro b hb
      rcases List.mem_cons.mp hb with rfl | hb
      · rfl
      rcases List.mem_cons.mp hb with rfl | hb
      · rfl
      rcases List.mem_append.mp hb with hb | hb
      · exact isInString_of_isWord (isWord_of_mem_keyword hq.1 b hb)
      · rw [List.mem_singleton.mp hb]
        rfl)
    have hlonger := QuotesEscaped.append hword hesc (getLast_escape.trans hlast)
    have hbad := h.max _ hlonger ⟨z, by
      rw [printed_cons, printKeyword, keywordText_append, hz]
      simp⟩
    rw [List.length_append] at hbad
    simp at hbad
  · refine Or.inr ⟨fun hbad => ?_, ?_⟩
    · rw [unescape_escape] at hbad
      have hnil := List.append_right_eq_self.mp hbad
      rw [unescape_cons (by decide)] at hnil
      cases hnil
    · cases ps with
      | nil => exact absurd hpre not_runsOn_end
      | cons q qs =>
        rw [printed_cons] at hpre
        exact ⟨q, rfl, hlast, (runsOn_next (hps q (List.mem_cons_self ..)).1 hv hpre).2⟩

/-! ### The scan of a printed rule -/

variable {c : Context} {s : State}

/-- What the scanner hands to `process_rule`. -/
def calls : List Statement → List (List SpParsedKeyword)
  | [] => []
  | .rule parsedRule :: l => parsedRule :: calls l
  | .message .. :: l => calls l

/-- A keyword and its argument, as `process_rule` sees them. -/
def view (kw : SpParsedKeyword) : ZendString × Option ZendString := (kw.kw, spGetArgString kw)

/-- The printed rule comes back: one call, with the keywords and their arguments. -/
def RoundTrips (c : Context) (pairs : List (ZendString × ZendString)) : Prop :=
  ∃ l, calls (spConfigScan c (printRule pairs)).1 = [l] ∧ l.map view = pairs.map fun p => (p.1, some p.2)

/-- The entry of a keyword with a string. -/
def entry (c : Context) (s : State) (kw body : ZendString) : SpParsedKeyword :=
  { kw := kw, arg := some body, argtype := .str, lineno := s.lineno, filename := c.filename }

/-- The state behind a keyword with a string. -/
def behind (c : Context) (s : State) (kw body : ZendString) : State :=
  { s with data := s.data.drop (keywordText kw body).length, parsedRule := s.parsedRule ++ [entry c s kw body] }

theorem keywordParts_keywordText {k : ZendString} (hk : k ∈ keyword.language) (body : ZendString) :
    keywordParts (keywordText k body) = (k, some (34 :: (body ++ [34]))) := by
  have hparts := keywordParts_arg (isWord_of_mem_keyword hk) (34 :: (body ++ [34]))
  rw [List.cons_append, List.append_assoc] at hparts
  exact hparts

/-- A string of ASCII bytes becomes the argument. -/
theorem parseKeyword_keywordText {k body : ZendString} (hk : k ∈ keyword.language)
    (hascii : ∀ b ∈ body, isNonascii b = false) :
    parseKeyword c s (keywordText k body) = .ok (entry c s k body) := by
  have hfind : (34 :: (body ++ [34])).find? isNonascii = none := by
    rw [List.find?_eq_none]
    intro b hb
    simp only [List.mem_cons, List.mem_append, List.not_mem_nil, or_false] at hb
    rcases hb with rfl | hb | rfl
    · exact Bool.false_ne_true
    · rw [hascii b hb]
      exact Bool.false_ne_true
    · exact Bool.false_ne_true
  unfold parseKeyword entry
  rw [keywordParts_keywordText hk]
  simp [hfind, inner_concat]

theorem isNonascii_of_le {b : UInt8} (h : b ≤ 126) : isNonascii b = false :=
  decide_eq_false fun hb => absurd (UInt8.le_trans hb h) (by decide)

theorem isNonascii_of_isWord {b : UInt8} (h : isWord b = true) : isNonascii b = false := by
  refine isNonascii_of_le ?_
  simp only [isWord, isAlpha, isDigit, Bool.or_eq_true, Bool.and_eq_true, decide_eq_true_eq, beq_iff_eq] at h
  rcases h with ((⟨-, h⟩ | ⟨-, h⟩) | ⟨-, h⟩) | rfl
  · exact UInt8.le_trans h (by decide)
  · exact UInt8.le_trans h (by decide)
  · exact UInt8.le_trans h (by decide)
  · decide

theorem isNonascii_printed {ps : List (ZendString × ZendString)} (h : ∀ p ∈ ps, Printable p) :
    ∀ b ∈ printed ps, isNonascii b = false := by
  intro b hb
  rcases List.mem_append.mp hb with hb | hb
  · obtain ⟨p, hp, hb⟩ := List.mem_flatMap.mp hb
    obtain ⟨hk, ha⟩ := h p hp
    simp only [printKeyword, keywordText, List.mem_cons, List.mem_append, List.not_mem_nil, or_false] at hb
    rcases hb with rfl | hb | rfl | rfl | hb | rfl | rfl
    · rfl
    · exact isNonascii_of_isWord (isWord_of_mem_keyword hk b hb)
    · rfl
    · rfl
    · obtain ⟨d, hd, hb⟩ := List.mem_flatMap.mp hb
      split_ifs at hb
      · rcases List.mem_cons.mp hb with rfl | hb
        · rfl
        · rw [List.mem_singleton.mp hb]
          exact isNonascii_of_le (ha d hd).2
      · rw [List.mem_singleton.mp hb]
        exact isNonascii_of_le (ha d hd).2
    · rfl
    · rfl
  · simp only [List.mem_cons, List.not_mem_nil, or_false] at hb
    rcases hb with rfl | rfl <;> rfl

/-- The token at a printed keyword, with its entry. -/
theorem step_printed {p : ZendString × ZendString} {ps : List (ZendString × ZendString)}
    (hcond : s.cond = .rule) (hskip : s.skipping = false) (hlen : s.parsedRule.length < maxKeywords)
    (hdata : s.data = printed (p :: ps)) (hp : ∀ q ∈ p :: ps, Printable q) :
    ∃ body, Body p.2 (printed ps) body ∧ step c s = .next (behind c s p.1 body) none := by
  have hk : p.1 ∈ keyword.language := (hp p (List.mem_cons_self ..)).1
  obtain ⟨body, hbody, hnext⟩ := next_printed (hp p (List.mem_cons_self ..)) (printed_nul ps)
  rw [← printed_cons, ← hdata] at hnext
  have htext : s.data.take (keywordText p.1 body).length = keywordText p.1 body := by
    refine (List.prefix_iff_eq_take.mp ?_).symm
    rw [hdata, printed_cons, printKeyword, keywordText_append]
    exact prefix_keywordText hbody.fits
  have hascii : ∀ b ∈ body, isNonascii b = false := by
    intro b hb
    refine isNonascii_printed hp b (hdata ▸ List.mem_of_mem_take (i := (keywordText p.1 body).length) ?_)
    rw [htext]
    simp [keywordText, hb]
  refine ⟨body, hbody, ?_⟩
  refine step_keyword hcond hnext hskip (Nat.ne_of_lt hlen) ?_
  rw [htext]
  exact parseKeyword_keywordText hk hascii

/-- The rule that is handed out begins with the keywords the scanner has. -/
theorem prefix_of_calls {l : List SpParsedKeyword} {ls : List (List SpParsedKeyword)} (hcond : s.cond = .rule)
    (hskip : s.skipping = false) (h : calls (runFrom c s).1 = l :: ls) : s.parsedRule <+: l := by
  induction hn : s.data.length using Nat.strong_induction_on generalizing s with
  | _ n ih =>
    rw [runFrom_eq] at h
    cases hstep : step c s with
    | stop e =>
      rw [hstep] at h
      cases h
    | next s' out =>
      rw [hstep] at h
      rcases step_in_rule hcond hskip hstep with rfl | ⟨rfl, hcond', hskip', hpre⟩
      · cases h
        exact List.prefix_rfl
      · obtain ⟨m, hpos, hle, hdata, -⟩ := step_next hstep
        refine hpre.trans (ih s'.data.length ?_ hcond' hskip' h rfl)
        rw [hdata, List.length_drop]
        omega

/-- Behind the keywords the rule is handed out. -/
theorem calls_end (hcond : s.cond = .rule) (hskip : s.skipping = false) (hdata : s.data = printed []) :
    calls (runFrom c s).1 = [s.parsedRule] := by
  have hnext : next ruleRules .other s.data = some (.semicolon, 1) := by
    rw [hdata]
    rfl
  have hstep : step c s = .next { s with cond := .init, data := s.data.drop 1 } (some (.rule s.parsedRule)) := by
    rw [step_endOfRule hcond hnext (.inl rfl), hskip]
    rfl
  have hstop : step c { s with cond := .init, data := s.data.drop 1 } = .stop .success := by
    rw [hdata]
    rfl
  rw [runFrom_eq, hstep]
  dsimp only
  rw [runFrom_eq, hstop]
  rfl

/-- **What comes back of the rest of a rule.** -/
theorem comes_back_iff : ∀ {ps : List (ZendString × ZendString)} {s : State}, s.cond = .rule →
    s.skipping = false → s.parsedRule.length + ps.length ≤ maxKeywords → s.data = printed ps →
    (∀ p ∈ ps, Printable p) →
    ((∃ l, calls (runFrom c s).1 = [s.parsedRule ++ l] ∧ l.map view = ps.map fun p => (p.1, some p.2)) ↔
      ps.IsChain fun p q => ¬ RunsOn p q)
  | [], s, hcond, hskip, _, hdata, _ => by
    refine iff_of_true ⟨[], ?_, rfl⟩ .nil
    rw [calls_end hcond hskip hdata, List.append_nil]
  | p :: ps, s, hcond, hskip, hlen, hdata, hp => by
    rw [List.length_cons] at hlen
    obtain ⟨hpp, hps⟩ := List.forall_mem_cons.mp hp
    obtain ⟨body, hbody, hstep⟩ := step_printed (c := c) hcond hskip (by omega) hdata hp
    have hrun : (runFrom c s).1 = (runFrom c (behind c s p.1 body)).1 := by
      rw [runFrom_eq, hstep]
      rfl
    rw [hrun, List.isChain_cons]
    -- the entry of this keyword stays in front
    have hfront : ∀ l, calls (runFrom c (behind c s p.1 body)).1 = [s.parsedRule ++ l] →
        ∃ l', l = entry c s p.1 body :: l' := by
      intro l hl
      have hpre : s.parsedRule ++ [entry c s p.1 body] <+: s.parsedRule ++ l :=
        prefix_of_calls (s := behind c s p.1 body) hcond hskip hl
      obtain ⟨l', hl'⟩ := (List.prefix_append_right_inj _).mp hpre
      exact ⟨l', hl'.symm⟩
    rcases hbody.eq_or_runsOn hpp hps with ⟨rfl, hhead⟩ | ⟨hne, q, hq, hruns⟩
    · have hdrop : (behind c s p.1 (escape p.2)).data = printed ps := by
        show s.data.drop (keywordText p.1 (escape p.2)).length = printed ps
        rw [hdata, printed_cons, printKeyword, List.drop_left]
      have hlen' : (behind c s p.1 (escape p.2)).parsedRule.length + ps.length ≤ maxKeywords := by
        show (s.parsedRule ++ [_]).length + ps.length ≤ maxKeywords
        rw [List.length_append, List.length_singleton]
        omega
      have ih := comes_back_iff (s := behind c s p.1 (escape p.2)) hcond hskip hlen' hdrop hps
      have hview : view (entry c s p.1 (escape p.2)) = (p.1, some p.2) := by
        have hun := unescape_escape p.2 []
        rw [List.append_nil, show unescape [] = [] from rfl, List.append_nil] at hun
        exact congrArg (fun a => (p.1, some a)) hun
      rw [and_iff_right hhead, ← ih]
      constructor
      · rintro ⟨l, hl, hmap⟩
        obtain ⟨l', rfl⟩ := hfront l hl
        refine ⟨l', ?_, (List.cons_eq_cons.mp hmap).2⟩
        rw [hl]
        exact congrArg (fun l => [l]) (List.append_cons _ _ _)
      · rintro ⟨l, hl, hmap⟩
        refine ⟨entry c s p.1 (escape p.2) :: l, ?_, ?_⟩
        · rw [hl]
          exact congrArg (fun l => [l]) (List.append_cons _ _ _).symm
        · rw [List.map_cons, List.map_cons, hview, hmap]
    · refine iff_of_false ?_ fun h => h.1 q hq hruns
      rintro ⟨l, hl, hmap⟩
      obtain ⟨l', rfl⟩ := hfront l hl
      have hview : view (entry c s p.1 body) = (p.1, some p.2) := (List.cons_eq_cons.mp hmap).1
      exact hne (Option.some.inj (congrArg Prod.snd hview))

/-- **A printed rule comes back if and only if no argument that ends with a backslash is in front of one
that starts with a parenthesis.** -/
theorem round_trip_iff (c : Context) (pairs : List (ZendString × ZendString))
    (hlen : pairs.length ≤ maxKeywords) (hp : ∀ p ∈ pairs, Printable p) :
    RoundTrips c pairs ↔ pairs.IsChain fun p q => ¬ RunsOn p q := by
  have htext : printRule pairs ++ [0] = 115 :: 112 :: printed pairs := by
    unfold printRule printed
    simp only [List.append_assoc]
    rfl
  have hnext : next initRules .other (115 :: 112 :: printed pairs) = some (.sp, 2) := by
    cases printed pairs <;> rfl
  have hstep : step c (start c (printRule pairs ++ [0])) =
      .next { start c (printed pairs) with cond := .rule } none := by
    rw [htext]
    show State.token initRules .other (initAction c) (start c (115 :: 112 :: printed pairs)) = _
    rw [token_of_next hnext]
    rfl
  have hrun : (spConfigScan c (printRule pairs)).1 =
      (runFrom c { start c (printed pairs) with cond := .rule }).1 := by
    unfold spConfigScan
    rw [runFrom_eq, hstep]
    rfl
  unfold RoundTrips
  rw [hrun]
  exact comes_back_iff (s := { start c (printed pairs) with cond := .rule }) rfl rfl
    (by rw [show State.parsedRule _ = [] from rfl, List.length_nil]; omega) rfl hp

/-- Two arguments with a parenthesis, a backslash and a quote come back. -/
theorem round_trip_quoted : RoundTrips ⟨fun _ => false, 80000, zstr "sp.rules"⟩
    [(zstr "a", zstr "x)\""), (zstr "b", zstr ")y\\")] := by
  refine (round_trip_iff _ _ (by decide) ?_).mpr ?_
  · refine List.forall_mem_cons.mpr ⟨⟨mem_keyword.mpr ⟨97, [], rfl, rfl, nofun⟩, by simp [zstr]⟩, ?_⟩
    exact List.forall_mem_singleton.mpr ⟨mem_keyword.mpr ⟨98, [], rfl, rfl, nofun⟩, by simp [zstr]⟩
  · exact List.isChain_cons_cons.mpr ⟨fun h => absurd h.1 (by decide), .singleton _⟩

/-- **The string of `a` runs on to the quote that begins the argument of `b`**: there is one keyword, and
behind it a rule that ends. -/
theorem printed_rule_runs_on :
    (∀ p ∈ [(zstr "a", zstr "x\\"), (zstr "b", zstr ")y")], Printable p) ∧
      ¬ RoundTrips ⟨fun _ => false, 80000, zstr "sp.rules"⟩
        [(zstr "a", zstr "x\\"), (zstr "b", zstr ")y")] := by
  refine ⟨?_, ?_⟩
  · refine List.forall_mem_cons.mpr ⟨⟨mem_keyword.mpr ⟨97, [], rfl, rfl, nofun⟩, by simp [zstr]⟩, ?_⟩
    exact List.forall_mem_singleton.mpr ⟨mem_keyword.mpr ⟨98, [], rfl, rfl, nofun⟩, by simp [zstr]⟩
  · rintro ⟨l, hl, hmap⟩
    have hcalls : calls (spConfigScan ⟨fun _ => false, 80000, zstr "sp.rules"⟩
        (printRule [(zstr "a", zstr "x\\"), (zstr "b", zstr ")y")])).1 =
          [[{ kw := zstr "a", arg := some (zstr "x\\\\\").b("), argtype := .str,
              filename := zstr "sp.rules" }]] := rfl
    rw [hcalls] at hl
    cases hl
    exact absurd (congrArg List.length hmap) (by decide)

end Snuffleupagus.Scanner.RoundTrip
