import Snuffleupagus.Scanner.Run

/-! # The words of the tokens

The tokens of a rule as byte strings. In a string a quote stands only behind a backslash
(`QuotesEscaped`), and this is all the scanner asks for: it does not see that the backslash may itself
be escaped. -/

namespace Snuffleupagus.Scanner.Word

open Snuffleupagus.Lib.Lexer Snuffleupagus.Lib.Derivative Snuffleupagus.Php.Bytes
open Snuffleupagus.Lib.Derivative.Regex (opt)
open Snuffleupagus.Scanner.Token Snuffleupagus.Scanner.Scan Snuffleupagus.Scanner.Run

/-! ### Keywords -/

theorem mem_keyword {w : ZendString} : w ∈ keyword.language ↔
    ∃ x u, w = x :: u ∧ isAlpha x = true ∧ ∀ y ∈ u, isWord y = true := by
  unfold keyword
  rw [Regex.mem_seq]
  constructor
  · rintro ⟨_, ⟨x, hx, rfl⟩, u, hu, rfl⟩
    exact ⟨x, u, rfl, hx, Regex.mem_star_cls.mp hu⟩
  · rintro ⟨x, u, rfl, hx, hu⟩
    exact ⟨[x], ⟨x, hx, rfl⟩, u, Regex.mem_star_cls.mpr hu, rfl⟩

theorem isWord_of_mem_keyword {w : ZendString} (h : w ∈ keyword.language) : ∀ y ∈ w, isWord y = true := by
  obtain ⟨x, u, rfl, hx, hu⟩ := mem_keyword.mp h
  refine List.forall_mem_cons.mpr ⟨?_, hu⟩
  unfold isWord
  rw [hx, Bool.true_or, Bool.true_or]

/-- A keyword ends where a byte stands that is in none. -/
theorem word_span {u v x y : ZendString} {b : UInt8} (hb : isWord b = false) (hu : ∀ c ∈ u, isWord c = true)
    (hv : ∀ c ∈ v, isWord c = true) (h : u ++ b :: x <+: v ++ b :: y) : u = v ∧ x <+: y := by
  induction u generalizing v with
  | nil =>
    cases v with
    | nil => exact ⟨rfl, (List.cons_prefix_cons.mp h).2⟩
    | cons c v =>
      obtain ⟨rfl, -⟩ := List.cons_prefix_cons.mp h
      rw [hv b (List.mem_cons_self ..)] at hb
      cases hb
  | cons c u ih =>
    obtain ⟨hc, hu⟩ := List.forall_mem_cons.mp hu
    cases v with
    | nil =>
      obtain ⟨rfl, -⟩ := List.cons_prefix_cons.mp h
      rw [hc] at hb
      cases hb
    | cons d v =>
      obtain ⟨rfl, htail⟩ := List.cons_prefix_cons.mp h
      obtain ⟨rfl, hxy⟩ := ih hu (List.forall_mem_cons.mp hv).2 htail
      exact ⟨rfl, hxy⟩

/-- A word of keyword bytes stays in front of a byte that is none. -/
theorem length_le_of_prefix {u v y : ZendString} {b : UInt8} (hb : isWord b = false)
    (hu : ∀ c ∈ u, isWord c = true) (h : u <+: v ++ b :: y) : u.length ≤ v.length := by
  by_contra hlen
  obtain ⟨z, hz⟩ := h
  have hv : v ++ [b] <+: u := by
    refine List.prefix_of_prefix_length_le ⟨y, by simp⟩ ⟨z, hz⟩ ?_
    rw [List.length_append, List.length_singleton]
    omega
  have hmem := hv.mem (List.mem_append_right v (List.mem_singleton_self b))
  rw [hu b hmem] at hb
  cases hb

/-! ### Strings -/

/-- A quote stands only behind a backslash; `behind` says that a backslash stands in front. -/
def QuotesEscaped (behind : Bool) : ZendString → Prop
  | [] => True
  | c :: s => isInLine c = true ∧ (c = 34 → behind = true) ∧ QuotesEscaped (c == 92) s

theorem QuotesEscaped.mono {b : Bool} {s : ZendString} (h : QuotesEscaped false s) : QuotesEscaped b s := by
  cases s with
  | nil => trivial
  | cons c s => exact ⟨h.1, fun hc => absurd (h.2.1 hc) Bool.false_ne_true, h.2.2⟩

theorem isInString_iff {c : UInt8} : isInString c = true ↔ c ≠ 34 ∧ isInLine c = true := by
  unfold isInString
  rw [Bool.and_eq_true, bne_iff_ne]

theorem isInString_of_isWord {c : UInt8} (h : isWord c = true) : isInString c = true := by
  have hne : ∀ d, isWord d = false → c ≠ d := by
    rintro d hd rfl
    exact Bool.false_ne_true (hd.symm.trans h)
  unfold isInString isInLine
  simp [hne 34 rfl, hne 13 rfl, hne 10 rfl, hne 0 rfl]

/-- **What stands between the quotes of a string.** -/
theorem mem_inString {w : ZendString} : w ∈ inString.language ↔ QuotesEscaped false w := by
  induction hn : w.length using Nat.strong_induction_on generalizing w with
  | _ n ih =>
    subst hn
    cases w with
    | nil => exact iff_of_true Regex.nil_mem_star trivial
    | cons c w =>
      unfold inString
      rw [Regex.cons_mem_star]
      constructor
      · rintro ⟨u, v, hu, hv, rfl⟩
        rcases Regex.mem_alt.mp hu with hu | hu
        · obtain ⟨rfl, rfl⟩ := List.cons_eq_cons.mp (Regex.mem_word.mp hu)
          have hv := (ih v.length (by simp only [List.length_cons, List.length_append]; omega) rfl).mp hv
          exact ⟨rfl, nofun, rfl, fun _ => rfl, hv.mono⟩
        · obtain ⟨hc, rfl⟩ := Regex.cons_mem_cls.mp hu
          have hv := (ih v.length (by simp) rfl).mp hv
          obtain ⟨hne, hline⟩ := isInString_iff.mp hc
          exact ⟨hline, fun h => absurd h hne, hv.mono⟩
      · rintro ⟨hline, hquote, hrest⟩
        have hne : c ≠ 34 := fun h => Bool.false_ne_true (hquote h)
        by_cases hesc : c = 92 ∧ ∃ v, w = 34 :: v
        · obtain ⟨rfl, v, rfl⟩ := hesc
          obtain ⟨-, -, hv⟩ := hrest
          exact ⟨[34], v, Regex.mem_alt.mpr (Or.inl (Regex.mem_word.mpr rfl)),
            (ih v.length (by simp only [List.length_cons]; omega) rfl).mpr hv, rfl⟩
        · have hw : QuotesEscaped false w := by
            cases w with
            | nil => trivial
            | cons d w =>
              obtain ⟨hd, hq, hw⟩ := hrest
              exact ⟨hd, fun h34 => absurd ⟨by simpa using hq h34, w, by rw [h34]⟩ hesc, hw⟩
          exact ⟨[], w, Regex.mem_alt.mpr (Or.inr (Regex.cons_mem_cls.mpr
            ⟨isInString_iff.mpr ⟨hne, hline⟩, rfl⟩)), (ih w.length (by simp) rfl).mpr hw, rfl⟩

theorem mem_string {w : ZendString} : w ∈ string.language ↔
    ∃ body, w = 34 :: (body ++ [34]) ∧ QuotesEscaped false body := by
  rw [string, mem_seqs]
  constructor
  · rintro ⟨u, hu, v, hv, rfl⟩
    obtain ⟨body, hbody, q, hq, rfl⟩ := mem_seqs.mp hv
    rw [mem_byte.mp hu, mem_byte.mp hq]
    exact ⟨body, rfl, mem_inString.mp hbody⟩
  · rintro ⟨body, rfl, hbody⟩
    exact ⟨[34], mem_byte.mpr rfl, body ++ [34],
      mem_seqs.mpr ⟨body, mem_inString.mpr hbody, [34], mem_byte.mpr rfl, rfl⟩, rfl⟩

theorem QuotesEscaped.of_append {b d : Bool} {c : UInt8} : ∀ {u v : ZendString},
    QuotesEscaped b (u ++ c :: v) → d = (c == 92) → QuotesEscaped d v
  | [], _, h, hd => hd ▸ h.2.2
  | _ :: _, _, h, hd => QuotesEscaped.of_append h.2.2 hd

/-- A string goes on behind an escaped quote. -/
theorem QuotesEscaped.append {x : ZendString} (hx : QuotesEscaped false x) : ∀ {b : Bool} {u : ZendString},
    QuotesEscaped b u → u.getLast? = some 92 → QuotesEscaped b (u ++ 34 :: x)
  | _, [], _, h => by cases h
  | _, [c], hu, h => by
    cases h
    exact ⟨hu.1, hu.2.1, rfl, fun _ => rfl, hx⟩
  | _, c :: d :: u, hu, h => by
    rw [List.getLast?_cons_cons] at h
    exact ⟨hu.1, hu.2.1, QuotesEscaped.append hx hu.2.2 h⟩

theorem quotesEscaped_of_isInString : ∀ {b : Bool} {u : ZendString}, (∀ c ∈ u, isInString c = true) →
    QuotesEscaped b u
  | _, [], _ => trivial
  | _, c :: u, h => by
    obtain ⟨hc, hu⟩ := List.forall_mem_cons.mp h
    obtain ⟨hne, hline⟩ := isInString_iff.mp hc
    exact ⟨hline, fun h34 => absurd h34 hne, quotesEscaped_of_isInString hu⟩

/-- In front of a quote stands a backslash. -/
theorem QuotesEscaped.getLast {b : Bool} : ∀ {u v : ZendString}, QuotesEscaped b (u ++ 34 :: v) →
    u = [] ∧ b = true ∨ u.getLast? = some 92
  | [], _, h => Or.inl ⟨rfl, h.2.1 rfl⟩
  | c :: u, v, h => by
    right
    rcases QuotesEscaped.getLast h.2.2 with ⟨rfl, hc⟩ | hlast
    · rw [List.getLast?_singleton, beq_iff_eq.mp hc]
    · rw [List.getLast?_cons, hlast]
      rfl

/-! ### Keywords of a rule -/

/-- A keyword with a string. -/
def keywordText (kw body : ZendString) : ZendString := 46 :: (kw ++ 40 :: 34 :: (body ++ [34, 41]))

/-- The expression of a keyword of a rule. -/
def ruleKeyword : Regex UInt8 :=
  seqs [byte 46, keyword, opt (seqs [byte 40, .alt (opt string) keyword, byte 41])]

theorem mem_ruleKeyword {w : ZendString} : w ∈ ruleKeyword.language ↔
    ∃ kw ∈ keyword.language, w = 46 :: kw ∨
      ∃ arg, (arg ∈ string.language ∨ arg = [] ∨ arg ∈ keyword.language) ∧
        w = 46 :: (kw ++ 40 :: (arg ++ [41])) := by
  have harg : ∀ x, x ∈ (opt (seqs [byte 40, .alt (opt string) keyword, byte 41])).language ↔
      x = [] ∨ ∃ arg, (arg ∈ string.language ∨ arg = [] ∨ arg ∈ keyword.language) ∧ x = 40 :: (arg ++ [41]) := by
    intro x
    rw [Regex.mem_opt, or_comm]
    refine or_congr_right ?_
    constructor
    · intro h
      obtain ⟨u, hu, v, hv, rfl⟩ := mem_seqs.mp h
      obtain ⟨arg, harg, q, hq, rfl⟩ := mem_seqs.mp hv
      rw [mem_byte.mp hu, mem_byte.mp hq]
      rw [Regex.mem_alt, Regex.mem_opt, or_assoc] at harg
      exact ⟨arg, harg, rfl⟩
    · rintro ⟨arg, harg, rfl⟩
      refine mem_seqs.mpr ⟨[40], mem_byte.mpr rfl, arg ++ [41], ?_, rfl⟩
      refine mem_seqs.mpr ⟨arg, ?_, [41], mem_byte.mpr rfl, rfl⟩
      rw [Regex.mem_alt, Regex.mem_opt, or_assoc]
      exact harg
  rw [ruleKeyword, mem_seqs]
  constructor
  · rintro ⟨u, hu, v, hv, rfl⟩
    obtain ⟨kw, hkw, x, hx, rfl⟩ := mem_seqs.mp hv
    rw [mem_byte.mp hu]
    refine ⟨kw, hkw, ?_⟩
    rcases (harg x).mp hx with rfl | ⟨arg, ha, rfl⟩
    · exact Or.inl (by rw [List.append_nil]; rfl)
    · exact Or.inr ⟨arg, ha, rfl⟩
  · rintro ⟨kw, hkw, rfl | ⟨arg, ha, rfl⟩⟩
    · exact ⟨[46], mem_byte.mpr rfl, kw, mem_seqs.mpr ⟨kw, hkw, [], (harg []).mpr (Or.inl rfl),
        List.append_nil kw⟩, rfl⟩
    · exact ⟨[46], mem_byte.mpr rfl, kw ++ 40 :: (arg ++ [41]), mem_seqs.mpr ⟨kw, hkw, _,
        (harg _).mpr (Or.inr ⟨arg, ha, rfl⟩), rfl⟩, rfl⟩

/-- What stands between the first byte and the last. -/
theorem inner_concat (b d : UInt8) (w : ZendString) : inner (b :: (w ++ [d])) = w := List.dropLast_concat

/-- The parts of a keyword without parentheses. -/
theorem keywordParts_name {kw : ZendString} (hkw : ∀ x ∈ kw, isWord x = true) :
    keywordParts (46 :: kw) = (kw, none) := by
  have hdrop : kw.dropWhile isWord = [] := List.dropWhile_eq_nil_iff.mpr hkw
  unfold keywordParts
  rw [List.drop_succ_cons, List.drop_zero, hdrop, List.takeWhile_eq_self_iff.mpr hkw]
  exact congrArg (Prod.mk kw) (if_pos rfl)

/-- The parts of a keyword with parentheses. -/
theorem keywordParts_arg {kw : ZendString} (hkw : ∀ x ∈ kw, isWord x = true) (arg : ZendString) :
    keywordParts (46 :: (kw ++ 40 :: (arg ++ [41]))) = (kw, some arg) := by
  have htake : (kw ++ 40 :: (arg ++ [41])).takeWhile isWord = kw := by
    rw [List.takeWhile_append_of_pos hkw]
    exact List.append_nil kw
  have hdrop : (kw ++ 40 :: (arg ++ [41])).dropWhile isWord = 40 :: (arg ++ [41]) := by
    rw [List.dropWhile_append_of_pos hkw]
    rfl
  unfold keywordParts
  rw [List.drop_succ_cons, List.drop_zero, htake, hdrop]
  dsimp only
  rw [if_neg (List.cons_ne_nil _ _), inner_concat]

/-- A token at the head of a keyword with a string: part of the keyword, or the keyword with some
string. -/
theorem keyword_word {w k z : ZendString} (hw : w ∈ ruleKeyword.language) (hk : ∀ y ∈ k, isWord y = true)
    (h : w <+: 46 :: (k ++ 40 :: 34 :: z)) : w.length ≤ k.length + 1 ∨
      ∃ body, QuotesEscaped false body ∧ w = keywordText k body ∧ body ++ [34, 41] <+: z := by
  obtain ⟨kw, hkw, rfl | ⟨arg, harg, rfl⟩⟩ := mem_ruleKeyword.mp hw
  · left
    have hlen := length_le_of_prefix rfl (isWord_of_mem_keyword hkw) (List.cons_prefix_cons.mp h).2
    exact Nat.succ_le_succ hlen
  · right
    obtain ⟨rfl, hpre⟩ := word_span rfl (isWord_of_mem_keyword hkw) hk (List.cons_prefix_cons.mp h).2
    rcases harg with harg | rfl | harg
    · obtain ⟨body, rfl, hbody⟩ := mem_string.mp harg
      refine ⟨body, hbody, by simp [keywordText], ?_⟩
      have hbody : body ++ [34] ++ [41] <+: z := (List.cons_prefix_cons.mp hpre).2
      rwa [List.append_assoc] at hbody
    · have hbad := (List.cons_prefix_cons.mp hpre).1
      cases hbad
    · obtain ⟨x, u, rfl, hx, -⟩ := mem_keyword.mp harg
      have hbad := (List.cons_prefix_cons.mp hpre).1
      subst hbad
      cases hx

/-- In `<rule>` the first byte of a word tells what it is. -/
theorem ruleRules_head {b : UInt8} {w : ZendString} {t : RuleRule} (h : Names ruleRules (b :: w) t) :
    t = .whitespace ∧ (∀ x ∈ b :: w, isBlank x = true) ∨ t = .newline ∧ (b = 10 ∨ b = 13) ∨
      t = .keyword ∧ b = 46 ∧ b :: w ∈ ruleKeyword.language ∨ t = .semicolon ∧ b = 59 ∨
      t = .nonascii ∧ isNonascii b = true := by
  obtain ⟨r, hr, hmem⟩ := h.mem
  simp only [ruleRules, List.mem_cons, Prod.mk.injEq, List.not_mem_nil, or_false] at hr
  rcases hr with ⟨rfl, rfl⟩ | ⟨rfl, rfl⟩ | ⟨rfl, rfl⟩ | ⟨rfl, rfl⟩ | ⟨rfl, rfl⟩
  · exact Or.inl ⟨rfl, (Regex.mem_plus_cls.mp hmem).2⟩
  · obtain ⟨u, hu, v, -, huv⟩ := mem_seqs.mp hmem
    rcases mem_newline.mp hu with rfl | rfl <;> cases huv
    · exact Or.inr (Or.inl ⟨rfl, Or.inl rfl⟩)
    · exact Or.inr (Or.inl ⟨rfl, Or.inr rfl⟩)
  · have hdot : b = 46 := by
      obtain ⟨kw, -, hw | ⟨arg, -, hw⟩⟩ := mem_ruleKeyword.mp hmem
      · exact (List.cons_eq_cons.mp hw).1
      · exact (List.cons_eq_cons.mp hw).1
    exact Or.inr (Or.inr (Or.inl ⟨rfl, hdot, hmem⟩))
  · cases mem_byte.mp hmem
    exact Or.inr (Or.inr (Or.inr (Or.inl ⟨rfl, rfl⟩)))
  · exact Or.inr (Or.inr (Or.inr (Or.inr ⟨rfl, (Regex.cons_mem_cls.mp hmem).1⟩)))

theorem not_blank_of_nonascii {b : UInt8} (h : isNonascii b = true) : ¬ isBlank b = true := by
  unfold isBlank
  simp only [Bool.or_eq_true, beq_iff_eq]
  rintro (rfl | rfl) <;> cases h

/-- A token of `<rule>` that begins with a blank has nothing else. -/
theorem names_of_blank {b : UInt8} {w : ZendString} {t : RuleRule} (h : Names ruleRules (b :: w) t)
    (hb : isBlank b = true) : t = .whitespace ∧ ∀ x ∈ b :: w, isBlank x = true := by
  rcases ruleRules_head h with h | ⟨-, rfl | rfl⟩ | ⟨-, rfl, -⟩ | ⟨-, rfl⟩ | ⟨-, h⟩
  · exact h
  · cases hb
  · cases hb
  · cases hb
  · cases hb
  · exact absurd hb (not_blank_of_nonascii h)

theorem names_of_newline {b : UInt8} {w : ZendString} {t : RuleRule} (h : Names ruleRules (b :: w) t)
    (hb : b = 10 ∨ b = 13) : t = .newline := by
  rcases ruleRules_head h with ⟨-, hblank⟩ | ⟨rfl, -⟩ | ⟨-, rfl, -⟩ | ⟨-, rfl⟩ | ⟨-, hnonascii⟩
  · have hblank := hblank b List.mem_cons_self
    rcases hb with rfl | rfl <;> cases hblank
  · rfl
  · rcases hb with hb | hb <;> cases hb
  · rcases hb with hb | hb <;> cases hb
  · rcases hb with rfl | rfl <;> cases hnonascii

/-- A token of `<rule>` has a byte. -/
theorem ruleRules_ne_nil {w : ZendString} {t : RuleRule} (h : Names ruleRules w t) : w ≠ [] := by
  rintro rfl
  obtain ⟨r, hr, hmem⟩ := h.mem
  have hnull := (bounded_ruleRules _ hr).1
  exact absurd (Regex.nullable_iff.mpr hmem) (by rw [hnull]; exact Bool.false_ne_true)

/-- In `<rule>` a dot begins a keyword. -/
theorem ruleRules_dot {w s : ZendString} {t : RuleRule} (h : Names ruleRules w t) (hw : w <+: 46 :: s) :
    t = .keyword ∧ w ∈ ruleKeyword.language := by
  cases w with
  | nil => exact absurd rfl (ruleRules_ne_nil h)
  | cons b w =>
    obtain ⟨rfl, -⟩ := List.cons_prefix_cons.mp hw
    rcases ruleRules_head h with ⟨-, hb⟩ | ⟨-, hb | hb⟩ | ⟨rfl, -, hmem⟩ | ⟨-, hb⟩ | ⟨-, hb⟩
    · cases hb 46 (List.mem_cons_self ..)
    · cases hb
    · cases hb
    · exact ⟨rfl, hmem⟩
    · cases hb
    · cases hb

end Snuffleupagus.Scanner.Word
