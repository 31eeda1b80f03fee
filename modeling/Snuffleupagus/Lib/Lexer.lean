import Snuffleupagus.Lib.Derivative

/-! # Longest match

A lexer tries several expressions at once: the longest word at the head of the input is its token, and
of several expressions with this word the first one names it. `munch` reads one character after the
other, and only as long as some expression can go on; it `overrun`s the input if that is still so at the
end.

`munch_eq_token` says which token that is, `munch_eq_overrun` when the input is not enough. -/

namespace Snuffleupagus.Lib.Lexer

open Snuffleupagus.Lib.Derivative

variable {α τ : Type}

/-- The expressions, each with the name of its tokens. -/
abbrev Rules (α τ : Type) := List (Regex α × τ)

/-- What the lexer finds. -/
inductive Lexed (τ : Type)
  | overrun
  | nothing
  | token (t : τ) (n : ℕ)
  deriving DecidableEq

/-- The name of the empty word. -/
def current (rules : Rules α τ) : Option τ := (rules.find? fun r => r.1.nullable).map Prod.snd

/-- Some expression can go on. -/
def live (rules : Rules α τ) : Bool := rules.any fun r => r.1.canMove

/-- The expressions behind one character. -/
def advance (c : α) (rules : Rules α τ) : Rules α τ := rules.map fun r => (r.1.deriv c, r.2)

/-- The token that ends here. -/
def here (rules : Rules α τ) : Lexed τ :=
  match current rules with
  | some t => .token t 0
  | none => .nothing

/-- The longest token at the head of the input. -/
def munch (rules : Rules α τ) : List α → Lexed τ
  | [] => if live rules then .overrun else here rules
  | c :: s =>
    if live rules then
      match munch (advance c rules) s with
      | .overrun => .overrun
      | .token t n => .token t (n + 1)
      | .nothing => here rules
    else here rules

/-- The longest token, or else a single character with the name `other`; nothing if the input is
overrun. -/
def next (rules : Rules α τ) (other : τ) : List α → Option (τ × ℕ)
  | [] => none
  | c :: s =>
    match munch rules (c :: s) with
    | .overrun => none
    | .token t n => some (t, n)
    | .nothing => some (other, 1)

/-! ### Names -/

/-- The word has the name `t`: that of the first expression it is a word of. -/
inductive Names : Rules α τ → List α → τ → Prop
  | head {rules : Rules α τ} {w : List α} {r : Regex α} {t : τ} (h : w ∈ r.language) :
      Names ((r, t) :: rules) w t
  | tail {rules : Rules α τ} {w : List α} {r : Regex α} {t t' : τ} (h : w ∉ r.language)
      (hrest : Names rules w t) : Names ((r, t') :: rules) w t

/-- The word belongs to one of the expressions. -/
def Word (rules : Rules α τ) (w : List α) : Prop := ∃ r ∈ rules, w ∈ r.1.language

variable {rules : Rules α τ} {w s : List α} {t t' : τ} {c : α} {n : ℕ}

theorem Names.mem (h : Names rules w t) : ∃ r, (r, t) ∈ rules ∧ w ∈ r.language := by
  induction h with
  | head h => exact ⟨_, List.mem_cons_self .., h⟩
  | tail _ _ ih =>
    obtain ⟨r, hr, hw⟩ := ih
    exact ⟨r, List.mem_cons_of_mem _ hr, hw⟩

theorem Names.word (h : Names rules w t) : Word rules w := by
  obtain ⟨r, hr, hw⟩ := h.mem
  exact ⟨(r, t), hr, hw⟩

/-- A name that one expression alone has. -/
theorem Names.mem_of_unique {r : Regex α} (h : Names rules w t) (hr : ∀ r', (r', t) ∈ rules → r' = r) :
    w ∈ r.language := by
  obtain ⟨r', hmem, hw⟩ := h.mem
  obtain rfl := hr r' hmem
  exact hw

theorem Names.unique (h : Names rules w t) (h' : Names rules w t') : t = t' := by
  induction h with
  | head h =>
    cases h' with
    | head => rfl
    | tail hn => exact absurd h hn
  | tail hn _ ih =>
    cases h' with
    | head h => exact absurd h hn
    | tail _ h' => exact ih h'

theorem names_advance : Names (advance c rules) w t ↔ Names rules (c :: w) t := by
  induction rules with
  | nil => exact iff_of_false nofun nofun
  | cons r rules ih =>
    obtain ⟨r, t'⟩ := r
    constructor
    · intro h
      cases h with
      | head h => exact .head (Regex.mem_deriv.mp h)
      | tail hn h => exact .tail (fun hw => hn (Regex.mem_deriv.mpr hw)) (ih.mp h)
    · intro h
      cases h with
      | head h => exact .head (Regex.mem_deriv.mpr h)
      | tail hn h => exact .tail (fun hw => hn (Regex.mem_deriv.mp hw)) (ih.mpr h)

theorem word_advance : Word (advance c rules) w ↔ Word rules (c :: w) := by
  constructor
  · rintro ⟨_, hr, hw⟩
    obtain ⟨r, hmem, rfl⟩ := List.mem_map.mp hr
    exact ⟨r, hmem, Regex.mem_deriv.mp hw⟩
  · rintro ⟨r, hr, hw⟩
    exact ⟨_, List.mem_map.mpr ⟨r, hr, rfl⟩, Regex.mem_deriv.mpr hw⟩

theorem current_eq_some : current rules = some t ↔ Names rules [] t := by
  induction rules with
  | nil => exact iff_of_false nofun nofun
  | cons r rules ih =>
    obtain ⟨r, t'⟩ := r
    unfold current
    rw [List.find?_cons]
    cases hn : r.nullable with
    | true =>
      have hr := Regex.nullable_iff.mp hn
      constructor
      · rintro h
        cases h
        exact .head hr
      · intro h
        rw [h.unique (.head hr)]
        rfl
    | false =>
      have hr : [] ∉ r.language := fun h => Bool.false_ne_true (hn ▸ Regex.nullable_iff.mpr h)
      constructor
      · intro h
        exact .tail hr (ih.mp h)
      · intro h
        cases h with
        | head h => exact absurd h hr
        | tail _ h => exact ih.mpr h

theorem current_eq_none : current rules = none ↔ ¬ Word rules [] := by
  unfold current Word
  rw [Option.map_eq_none_iff, List.find?_eq_none]
  simp only [Regex.nullable_iff, not_exists, not_and]

theorem live_iff : live rules = true ↔ ∃ w ≠ [], Word rules w := by
  unfold live Word
  simp only [List.any_eq_true, Regex.canMove_iff]
  constructor
  · rintro ⟨r, hr, w, hw, hne⟩
    exact ⟨w, hne, r, hr, hw⟩
  · rintro ⟨w, hne, r, hr, hw⟩
    exact ⟨r, hr, w, hw, hne⟩

/-! ### The longest word -/

/-- The word and the input agree as far as both go. -/
def Fits (s w : List α) : Prop := w <+: s ∨ s <+: w

/-- The token at the head of the input: no word that fits the input is longer. -/
structure Longest (rules : Rules α τ) (s : List α) (t : τ) (n : ℕ) : Prop where
  le : n ≤ s.length
  names : Names rules (s.take n) t
  max : ∀ w, Word rules w → Fits s w → w.length ≤ n

theorem fits_cons_cons {d : α} {w : List α} : Fits (c :: s) (d :: w) ↔ c = d ∧ Fits s w := by
  unfold Fits
  rw [List.cons_prefix_cons, List.cons_prefix_cons, @eq_comm _ d c, ← and_or_left]

theorem Longest.cons (h : Longest (advance c rules) s t n) : Longest rules (c :: s) t (n + 1) where
  le := Nat.succ_le_succ h.le
  names := names_advance.mp h.names
  max w hw hfit := by
    cases w with
    | nil => exact Nat.zero_le _
    | cons d w =>
      obtain ⟨rfl, hrest⟩ := fits_cons_cons.mp hfit
      exact Nat.succ_le_succ (h.max w (word_advance.mpr hw) hrest)

/-- What the lexer finds, in each of its answers. -/
theorem munch_spec : ∀ (s : List α) (rules : Rules α τ),
    match munch rules s with
    | .overrun => ∃ x ≠ [], Word rules (s ++ x)
    | .token t n => Longest rules s t n
    | .nothing => ∀ w, Word rules w → ¬ Fits s w := by
  have hstop : ∀ (s : List α) (rules : Rules α τ), (∀ w, Word rules w → Fits s w → w = []) →
      match here rules with
      | .overrun => ∃ x ≠ [], Word rules (s ++ x)
      | .token t n => Longest rules s t n
      | .nothing => ∀ w, Word rules w → ¬ Fits s w := by
    intro s rules hnil
    unfold here
    cases hc : current rules with
    | some t =>
      exact ⟨Nat.zero_le _, current_eq_some.mp hc, fun w hw hfit => by rw [hnil w hw hfit]; exact le_rfl⟩
    | none => exact fun w hw hfit => current_eq_none.mp hc (hnil w hw hfit ▸ hw)
  intro s
  induction s with
  | nil =>
    intro rules
    unfold munch
    split_ifs with hl
    · obtain ⟨w, hne, hw⟩ := live_iff.mp hl
      exact ⟨w, hne, hw⟩
    · exact hstop [] rules fun w hw _ => not_not.mp fun hne => hl (live_iff.mpr ⟨w, hne, hw⟩)
  | cons c s ih =>
    intro rules
    unfold munch
    split_ifs with hl
    · have hrest := ih (advance c rules)
      cases hm : munch (advance c rules) s with
      | overrun =>
        rw [hm] at hrest
        obtain ⟨x, hne, hw⟩ := hrest
        exact ⟨x, hne, word_advance.mp hw⟩
      | token t n =>
        rw [hm] at hrest
        exact hrest.cons
      | nothing =>
        rw [hm] at hrest
        refine hstop (c :: s) rules fun w hw hfit => ?_
        cases w with
        | nil => rfl
        | cons d w =>
          obtain ⟨rfl, hfits⟩ := fits_cons_cons.mp hfit
          exact absurd hfits (hrest w (word_advance.mpr hw))
    · exact hstop (c :: s) rules fun w hw _ => not_not.mp fun hne => hl (live_iff.mpr ⟨w, hne, hw⟩)

theorem Longest.unique {m : ℕ} (h : Longest rules s t n) (h' : Longest rules s t' m) : t = t' ∧ n = m := by
  have hfit : ∀ k, Fits s (s.take k) := fun k => Or.inl (List.take_prefix k s)
  have hle := h'.max _ h.names.word (hfit n)
  have hge := h.max _ h'.names.word (hfit m)
  rw [List.length_take, Nat.min_eq_left h.le] at hle
  rw [List.length_take, Nat.min_eq_left h'.le] at hge
  obtain rfl := Nat.le_antisymm hle hge
  exact ⟨h.names.unique h'.names, rfl⟩

/-- Nothing longer than the input is needed. -/
theorem Longest.not_word_append (h : Longest rules s t n) {x : List α} (hne : x ≠ []) :
    ¬ Word rules (s ++ x) := by
  intro hw
  have hle := h.max _ hw (Or.inr (List.prefix_append s x))
  rw [List.length_append] at hle
  have hpos := List.length_pos_iff.mpr hne
  have hn := h.le
  omega

/-- **The lexer finds the longest token.** -/
theorem munch_eq_token : munch rules s = .token t n ↔ Longest rules s t n := by
  have hspec := munch_spec s rules
  constructor
  · intro h
    rw [h] at hspec
    exact hspec
  · intro h
    cases hm : munch rules s with
    | overrun =>
      rw [hm] at hspec
      obtain ⟨x, hne, hw⟩ := hspec
      exact absurd hw (h.not_word_append hne)
    | token t' n' =>
      rw [hm] at hspec
      obtain ⟨rfl, rfl⟩ := h.unique hspec
      rfl
    | nothing =>
      rw [hm] at hspec
      exact absurd (Or.inl (List.take_prefix n s)) (hspec _ h.names.word)

/-- **It overruns the input if some token could go on behind it.** -/
theorem munch_eq_overrun : munch rules s = .overrun ↔ ∃ x ≠ [], Word rules (s ++ x) := by
  have hspec := munch_spec s rules
  constructor
  · intro h
    rw [h] at hspec
    exact hspec
  · rintro ⟨x, hne, hw⟩
    cases hm : munch rules s with
    | overrun => rfl
    | token t n =>
      rw [hm] at hspec
      exact absurd hw (hspec.not_word_append hne)
    | nothing =>
      rw [hm] at hspec
      exact absurd (Or.inr (List.prefix_append s x)) (hspec _ hw)

theorem munch_eq_nothing : munch rules s = .nothing ↔ ∀ w, Word rules w → ¬ Fits s w := by
  have hspec := munch_spec s rules
  constructor
  · intro h
    rw [h] at hspec
    exact hspec
  · intro h
    cases hm : munch rules s with
    | overrun =>
      rw [hm] at hspec
      obtain ⟨x, hne, hw⟩ := hspec
      exact absurd (Or.inr (List.prefix_append s x)) (h _ hw)
    | token t n =>
      rw [hm] at hspec
      exact absurd (Or.inl (List.take_prefix n s)) (h _ hspec.names.word)
    | nothing => rfl

theorem word_iff_names : Word rules w ↔ ∃ t, Names rules w t := by
  refine ⟨?_, fun ⟨t, h⟩ => h.word⟩
  rintro ⟨⟨r, t⟩, hmem, hw⟩
  induction rules with
  | nil => cases hmem
  | cons r' rules ih =>
    obtain ⟨r', t'⟩ := r'
    by_cases hw' : w ∈ r'.language
    · exact ⟨t', .head hw'⟩
    · rcases List.mem_cons.mp hmem with h | h
      · cases h
        exact absurd hw hw'
      · obtain ⟨t'', ht''⟩ := ih h
        exact ⟨t'', .tail hw' ht''⟩

/-- What is found depends on the names of the words alone. -/
theorem munch_congr {rules' : Rules α τ} (h : ∀ w t, Names rules w t ↔ Names rules' w t) :
    munch rules s = munch rules' s := by
  have hword : ∀ w, Word rules w ↔ Word rules' w := fun w => by
    rw [word_iff_names, word_iff_names]
    exact exists_congr (h w)
  cases hm : munch rules' s with
  | overrun =>
    obtain ⟨x, hne, hw⟩ := munch_eq_overrun.mp hm
    exact munch_eq_overrun.mpr ⟨x, hne, (hword _).mpr hw⟩
  | token t n =>
    obtain ⟨hle, hnames, hmax⟩ := munch_eq_token.mp hm
    exact munch_eq_token.mpr ⟨hle, (h _ _).mpr hnames, fun w hw => hmax w ((hword w).mp hw)⟩
  | nothing => exact munch_eq_nothing.mpr fun w hw => munch_eq_nothing.mp hm w ((hword w).mp hw)

theorem names_cons_congr {rules' : Rules α τ} {r : Regex α} (h : Names rules w t ↔ Names rules' w t) :
    Names ((r, t') :: rules) w t ↔ Names ((r, t') :: rules') w t := by
  constructor
  · intro hn
    cases hn with
    | head hw => exact .head hw
    | tail hw hrest => exact .tail hw (h.mp hrest)
  · intro hn
    cases hn with
    | head hw => exact .head hw
    | tail hw hrest => exact .tail hw (h.mpr hrest)

/-- An expression without a word gives no names. -/
theorem names_cons_empty : Names ((.empty, t') :: rules) w t ↔ Names rules w t := by
  refine ⟨fun h => ?_, .tail Regex.mem_empty⟩
  cases h with
  | head hw => exact absurd hw Regex.mem_empty
  | tail _ hrest => exact hrest

theorem next_cons (rules : Rules α τ) (other : τ) (c : α) (s : List α) : next rules other (c :: s) =
    match munch rules (c :: s) with
    | .overrun => none
    | .token t n => some (t, n)
    | .nothing => some (other, 1) := rfl

/-- A token that is the longest word, or else one character that begins no word. -/
theorem next_eq_some {other : τ} (h : next rules other s = some (t, n)) :
    Longest rules s t n ∨ t = other ∧ n = 1 ∧ s ≠ [] ∧ ∀ w, Word rules w → ¬ Fits s w := by
  cases s with
  | nil => cases h
  | cons c s =>
    rw [next_cons] at h
    cases hm : munch rules (c :: s) with
    | overrun => rw [hm] at h; cases h
    | token t' n' =>
      rw [hm] at h
      cases h
      exact Or.inl (munch_eq_token.mp hm)
    | nothing =>
      rw [hm] at h
      cases h
      exact Or.inr ⟨rfl, rfl, List.cons_ne_nil _ _, munch_eq_nothing.mp hm⟩

theorem longest_of_next {other : τ} (h : next rules other s = some (t, n)) (ht : t ≠ other) :
    Longest rules s t n := (next_eq_some h).resolve_right fun hother => ht hother.1

theorem Longest.next_eq {other : τ} (h : Longest rules s t n) (hne : s ≠ []) :
    next rules other s = some (t, n) := by
  cases s with
  | nil => exact absurd rfl hne
  | cons c s =>
    rw [next_cons, munch_eq_token.mpr h]

theorem next_eq_other {other : τ} (h : ∀ w, Word rules w → ¬ Fits s w) (hne : s ≠ []) :
    next rules other s = some (other, 1) := by
  cases s with
  | nil => exact absurd rfl hne
  | cons c s => rw [next_cons, munch_eq_nothing.mpr h]

theorem next_eq_none {other : τ} : next rules other s = none ↔
    s = [] ∨ ∃ x ≠ [], Word rules (s ++ x) := by
  cases s with
  | nil => exact iff_of_true rfl (Or.inl rfl)
  | cons c s =>
    rw [← munch_eq_overrun, next_cons]
    cases munch rules (c :: s) with
    | overrun => exact iff_of_true rfl (Or.inr rfl)
    | token t n => exact iff_of_false nofun (not_or.mpr ⟨nofun, nofun⟩)
    | nothing => exact iff_of_false nofun (not_or.mpr ⟨nofun, nofun⟩)

/-! ### A rule for every character -/

theorem Names.append (h : Names rules w t) (l : Rules α τ) : Names (rules ++ l) w t := by
  induction h with
  | head h => exact .head h
  | tail hn _ ih => exact .tail hn ih

theorem Names.append_right {l : Rules α τ} (hw : ¬ Word rules w) (h : Names l w t) : Names (rules ++ l) w t := by
  induction rules with
  | nil => exact h
  | cons r rules ih =>
    refine .tail (fun hr => hw ⟨r, List.mem_cons_self, hr⟩) (ih fun ⟨r', hr', hw'⟩ => hw ⟨r', List.mem_cons_of_mem r hr', hw'⟩)

/-- A rule for every character, behind all others, is the rule `other`. -/
theorem next_eq_munch {other : τ} {k : Class α} (hany : ∀ c, k.mem c = true) (hnil : ¬ Word rules []) (s : List α) :
    next rules other s =
      match munch (rules ++ [(.cls k, other)]) s with
      | .overrun => none
      | .token t n => some (t, n)
      | .nothing => none := by
  have hword {w : List α} (h : Word rules w) : Word (rules ++ [(.cls k, other)]) w := by
    obtain ⟨r, hr, hw⟩ := h
    exact ⟨r, List.mem_append_left _ hr, hw⟩
  have hchar (c : α) : [c] ∈ (Regex.cls k).language := ⟨c, hany c, rfl⟩
  have hcases {w : List α} (h : Word (rules ++ [(.cls k, other)]) w) : Word rules w ∨ w.length = 1 := by
    obtain ⟨r, hr, hw⟩ := h
    rcases List.mem_append.mp hr with hr | hr
    · exact .inl ⟨r, hr, hw⟩
    · cases List.mem_singleton.mp hr
      obtain ⟨c, -, rfl⟩ := hw
      exact .inr rfl
  cases s with
  | nil =>
    have hover : munch (rules ++ [(.cls k, other)]) [] = .overrun := munch_eq_overrun.mpr
      ⟨[k.witness], List.cons_ne_nil _ _, _, List.mem_append_right _ (List.mem_singleton_self _), hchar k.witness⟩
    rw [hover]
    rfl
  | cons c s =>
    rw [next_cons]
    cases hm : munch rules (c :: s) with
    | overrun =>
      obtain ⟨x, hne, hw⟩ := munch_eq_overrun.mp hm
      rw [munch_eq_overrun.mpr ⟨x, hne, hword hw⟩]
    | token t n =>
      obtain ⟨hle, hnames, hmax⟩ := munch_eq_token.mp hm
      have hpos : n ≠ 0 := by
        rintro rfl
        exact hnil hnames.word
      have hlong : Longest (rules ++ [(.cls k, other)]) (c :: s) t n := by
        refine ⟨hle, hnames.append _, fun w hw hfit => ?_⟩
        rcases hcases hw with hw | hlen
        · exact hmax w hw hfit
        · omega
      rw [munch_eq_token.mpr hlong]
    | nothing =>
      have hno := munch_eq_nothing.mp hm
      have hlong : Longest (rules ++ [(.cls k, other)]) (c :: s) other 1 := by
        refine ⟨Nat.succ_le_succ (Nat.zero_le _), ?_, fun w hw hfit => ?_⟩
        · exact .append_right (fun hw => hno [c] hw (.inl ⟨s, rfl⟩)) (.head (hchar c))
        · rcases hcases hw with hw | hlen
          · exact absurd hfit (hno w hw)
          · exact hlen.le
      rw [munch_eq_token.mpr hlong]

end Snuffleupagus.Lib.Lexer
