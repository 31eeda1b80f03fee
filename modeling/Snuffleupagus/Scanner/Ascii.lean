import Snuffleupagus.Php.Numeral
import Snuffleupagus.Scanner.Handed

/-! # The arguments and ASCII

An argument that is written in the rule has ASCII bytes only, or the scan ends. The value of a variable is not looked at,
neither where it is set nor where it is used. A variable has the value it was set to last (`lookup_iff`), so an argument
with other bytes comes from such a value (`ascii_iff`). -/

namespace Snuffleupagus.Scanner.Ascii

open Snuffleupagus.Lib.Lexer Snuffleupagus.Php.Bytes
open Snuffleupagus.Config.Keyword
open Snuffleupagus.Load.Module (Statement)
open Snuffleupagus.Scanner.Condition Snuffleupagus.Scanner.Token Snuffleupagus.Scanner.Scan
open Snuffleupagus.Scanner.Action Snuffleupagus.Scanner.Run Snuffleupagus.Scanner.Cut Snuffleupagus.Scanner.Handed

/-- Only ASCII bytes. -/
def IsAscii (w : ZendString) : Prop := ∀ b ∈ w, isNonascii b = false

instance (w : ZendString) : Decidable (IsAscii w) := List.decidableBAll _ w

/-- Here the variable is set, and not under a condition that is false. -/
def SetAt (s : State) (name value : ZendString) : Prop :=
  s.cond = .init ∧ s.skipping = false ∧
    ∃ n, next initRules .other s.data = some (.set, n) ∧ setParts (s.data.take n) = (name, value)

/-- Here a keyword is read whose argument is the variable. -/
def UsesAt (c : Context) (s : State) (name : ZendString) : Prop :=
  ∃ n kw, KeywordAt c s n kw ∧ (keywordParts (s.data.take n)).2 = some name ∧ name ≠ [] ∧
    ¬(2 ≤ name.length ∧ name.head? = some 34)

variable {c : Context} {s s' : State} {out : Option Statement} {l : List Statement} {kw : SpParsedKeyword} {n : ℕ}
variable {name value : ZendString}

/-! ### Keywords -/

theorem IsAscii.inner {w : ZendString} (h : IsAscii w) : IsAscii (inner w) := fun b hb =>
  h b (List.mem_of_mem_drop (List.mem_of_mem_dropLast hb))

theorem ascii_of_find {w : ZendString} (h : w.find? isNonascii = none) : IsAscii w := fun b hb =>
  Bool.eq_false_iff.mpr (List.find?_eq_none.mp h b hb)

/-- The argument of a keyword is ASCII, or the value of a variable. -/
theorem keyword_arg {arg : ZendString} (h : KeywordAt c s n kw) (harg : kw.arg = some arg) :
    IsAscii arg ∨ ∃ name, UsesAt c s name ∧ s.vars.lookup name = some arg := by
  have hparses := h.parses
  unfold parseKeyword at hparses
  dsimp only at hparses
  split at hparses
  · cases hparses
    cases harg
  · rename_i arg₁ hparts
    split at hparses
    · cases hparses
    · rename_i hascii
      split_ifs at hparses with hnil hquoted
      · cases hparses
        cases harg
        exact .inl (List.forall_mem_nil _)
      · cases hparses
        cases harg
        exact .inl (ascii_of_find hascii).inner
      · split at hparses
        · rename_i value hlookup
          cases hparses
          cases harg
          exact .inr ⟨arg₁, ⟨n, _, h, hparts, hnil, hquoted⟩, hlookup⟩
        · cases hparses

/-- A variable that is used has a value, and this is the argument. -/
theorem UsesAt.arg (h : UsesAt c s name) : ∃ n kw value, KeywordAt c s n kw ∧
    s.vars.lookup name = some value ∧ kw.arg = some value := by
  obtain ⟨n, kw, hkw, hparts, hnil, hquoted⟩ := h
  have hparses := hkw.parses
  unfold parseKeyword at hparses
  dsimp only at hparses
  rw [hparts] at hparses
  dsimp only at hparses
  split at hparses
  · cases hparses
  · rw [if_neg hnil, if_neg hquoted] at hparses
    split at hparses
    · rename_i value hlookup
      cases hparses
      exact ⟨n, _, value, hkw, hlookup, rfl⟩
    · cases hparses

/-! ### Variables -/

theorem SetAt.unique {name' value' : ZendString} (h : SetAt s name value) (h' : SetAt s name' value') :
    name = name' ∧ value = value' := by
  obtain ⟨-, -, n, hnext, hparts⟩ := h
  obtain ⟨-, -, n', hnext', hparts'⟩ := h'
  rw [hnext] at hnext'
  cases hnext'
  rw [hparts] at hparts'
  exact Prod.mk.inj hparts'

theorem initAction_vars {t : InitRule} {text : ZendString} (h : initAction c t text s = .next s' out) :
    t = .set ∧ s.skipping = false ∧ s'.vars = setParts text :: s.vars ∨
      ¬(t = .set ∧ s.skipping = false) ∧ s'.vars = s.vars := by
  cases initNext h with
  | set hskip => exact .inl ⟨rfl, hskip, rfl⟩
  | skipped hskip => exact .inr ⟨fun hset => Bool.false_ne_true (hset.2.symm.trans hskip), rfl⟩
  | blank ht => rcases ht with rfl | rfl <;> exact .inr ⟨nofun, rfl⟩
  | message _ ht => rcases ht with rfl | rfl <;> exact .inr ⟨nofun, rfl⟩
  | newline | sp | condition | endCondition => exact .inr ⟨nofun, rfl⟩

/-- **A token sets a variable**, or leaves all alone. -/
theorem step_vars (h : step c s = .next s' out) :
    (∃ name value, SetAt s name value ∧ s'.vars = (name, value) :: s.vars) ∨
      s'.vars = s.vars ∧ ∀ name value, ¬SetAt s name value := by
  have hother : s.cond ≠ .init → ∀ name value, ¬SetAt s name value := fun hcond _ _ hset => hcond hset.1
  cases hcond : s.cond with
  | init =>
    obtain ⟨t, n, hnext, hact⟩ := init_token hcond h
    rcases initAction_vars hact with ⟨rfl, hskip, hvars⟩ | ⟨hset, hvars⟩
    · exact .inl ⟨_, _, ⟨hcond, hskip, n, hnext, rfl⟩, hvars⟩
    · refine .inr ⟨hvars, ?_⟩
      rintro name value ⟨-, hskip, n', hnext', -⟩
      rw [hnext] at hnext'
      cases hnext'
      exact hset ⟨rfl, hskip⟩
  | cond =>
    obtain ⟨t, n, -, hact⟩ := cond_token hcond h
    have hvars := (condAction_quiet hact).vars
    exact .inr ⟨hvars, hother (by rw [hcond]; nofun)⟩
  | condOp =>
    obtain ⟨t, n, -, hact⟩ := condOp_token hcond h
    have hvars := (condOpAction_quiet hact).vars
    exact .inr ⟨hvars, hother (by rw [hcond]; nofun)⟩
  | rule =>
    obtain ⟨t, n, -, hact⟩ := rule_token hcond h
    have hvars : s'.vars = s.vars := by cases ruleNext hact <;> rfl
    exact .inr ⟨hvars, hother (by rw [hcond]; nofun)⟩

/-- What a variable is behind a token. -/
theorem lookup_next (h : step c s = .next s' out) : s'.vars.lookup name = some value ↔
    SetAt s name value ∨ s.vars.lookup name = some value ∧ ∀ value, ¬SetAt s name value := by
  rcases step_vars h with ⟨name', value', hset, hvars⟩ | ⟨hvars, hnone⟩
  · rw [hvars, List.lookup_cons]
    by_cases hname : name = name'
    · subst hname
      simp only [beq_self_eq_true, Option.some.injEq]
      constructor
      · rintro rfl
        exact .inl hset
      · rintro (hset' | ⟨-, hnone⟩)
        · exact (hset.unique hset').2
        · exact absurd hset (hnone value')
    · have hother : ∀ value, ¬SetAt s name value := fun value hset' => hname (hset'.unique hset).1
      rw [beq_false_of_ne hname]
      simp [hother]
  · rw [hvars]
    simp [hnone]

/-- **A variable has the value it was set to last**, or the one it had, if it has not been set. -/
theorem lookup_iff (h : Steps c s l s') : s'.vars.lookup name = some value ↔
    (∃ l₁ s₁, Steps c s l₁ s₁ ∧ Behind c s₁ s' ∧ SetAt s₁ name value ∧
      ∀ s₂, Behind c s₁ s₂ → Behind c s₂ s' → ∀ value', ¬SetAt s₂ name value') ∨
    s.vars.lookup name = some value ∧
      ∀ l₁ s₁, Steps c s l₁ s₁ → Behind c s₁ s' → ∀ value', ¬SetAt s₁ name value' := by
  induction h with
  | refl s =>
    have hnone : ∀ l₁ s₁, Steps c s l₁ s₁ → ¬Behind c s₁ s := by
      intro l₁ s₁ hsteps hbehind
      have hle := steps_le hsteps
      have hlt := hbehind.lt
      omega
    constructor
    · exact fun hlookup => .inr ⟨hlookup, fun l₁ s₁ hsteps hbehind => absurd hbehind (hnone l₁ s₁ hsteps)⟩
    · rintro (⟨l₁, s₁, hsteps, hbehind, -⟩ | ⟨hlookup, -⟩)
      · exact absurd hbehind (hnone l₁ s₁ hsteps)
      · exact hlookup
  | @cons s s₀ s' out l hstep hsteps ih =>
    have hbehind := (behind_iff hstep).mpr ⟨l, hsteps⟩
    have hbetween : (∀ s₂, Behind c s s₂ → Behind c s₂ s' → ∀ value', ¬SetAt s₂ name value') ↔
        ∀ l₁ s₂, Steps c s₀ l₁ s₂ → Behind c s₂ s' → ∀ value', ¬SetAt s₂ name value' := by
      simp only [behind_iff hstep]
      exact ⟨fun h l₁ s₂ hsteps₂ => h s₂ ⟨l₁, hsteps₂⟩, fun h s₂ ⟨l₁, hsteps₂⟩ => h l₁ s₂ hsteps₂⟩
    rw [ih, lookup_next hstep, exists_place (P := fun s₁ => Behind c s₁ s' ∧ SetAt s₁ name value ∧
      ∀ s₂, Behind c s₁ s₂ → Behind c s₂ s' → ∀ value', ¬SetAt s₂ name value') hstep,
      forall_place (P := fun s₁ => Behind c s₁ s' → ∀ value', ¬SetAt s₁ name value') hstep, hbetween]
    constructor
    · rintro (hlast | ⟨hset | ⟨hlookup, hnone⟩, hunset⟩)
      · exact .inl (.inr hlast)
      · exact .inl (.inl ⟨hbehind, hset, hunset⟩)
      · exact .inr ⟨hlookup, fun _ => hnone, hunset⟩
    · rintro ((⟨-, hset, hunset⟩ | hlast) | ⟨hlookup, hnone, hunset⟩)
      · exact .inr ⟨.inl hset, hunset⟩
      · exact .inl hlast
      · exact .inr ⟨.inr ⟨hlookup, hnone hbehind⟩, hunset⟩

/-! ### The result -/

theorem isAscii_decimal (n : ℕ) : IsAscii (decimal n) := by
  intro b hb
  have hdigit := Php.Numeral.isDigit_decimal n b hb
  simp only [isDigit, Bool.and_eq_true, decide_eq_true_eq] at hdigit
  exact decide_eq_false (UInt8.not_le.mpr (UInt8.lt_of_le_of_lt hdigit.2 (by decide)))

/-- **All arguments of the rules of a text that is accepted are ASCII** exactly if no variable that has been set to a value
with another byte is an argument before it is set again. -/
theorem ascii_iff (c : Context) {contents : ZendString} (h : (spConfigScan c contents).2 = .success) :
    (∀ parsedRule, .rule parsedRule ∈ (spConfigScan c contents).1 → ∀ kw ∈ parsedRule,
      ∀ arg, kw.arg = some arg → IsAscii arg) ↔
    ∀ l s name value, Steps c (start c (contents ++ [0])) l s → SetAt s name value → ¬IsAscii value →
      ∀ s', Behind c s s' → UsesAt c s' name →
        ∃ s₁ value', Behind c s s₁ ∧ Behind c s₁ s' ∧ SetAt s₁ name value' := by
  constructor
  · intro hascii l s name value hsteps hset hvalue s' hbehind huses
    by_contra hagain
    obtain ⟨n, kw, value', hkw, hlookup, harg⟩ := huses.arg
    obtain ⟨l', hsteps'⟩ := hbehind.steps
    have hall := hsteps.trans hsteps'
    have hvalue' : s'.vars.lookup name = some value := (lookup_iff hall).mpr <| .inl
      ⟨l, s, hsteps, hbehind, hset, fun s₁ hs₁ hs' value₁ hset₁ => hagain ⟨s₁, value₁, hs₁, hs', hset₁⟩⟩
    rw [hlookup] at hvalue'
    cases hvalue'
    have hrun : spConfigScan c contents = (l ++ l' ++ (runFrom c s').1, (runFrom c s').2) := runFrom_of_steps hall
    rw [hrun] at h hascii
    obtain ⟨r, hr, hmem⟩ := handed_of_keywordAt hkw h
    exact hvalue (hascii r (List.mem_append_right _ hr) kw hmem value harg)
  · intro hset
    obtain ⟨l, s, e, hsteps, -, hrun⟩ := exists_steps (c := c) (start c (contents ++ [0]))
    have hkeywords := steps_keywords (P := fun kw => ∀ arg, kw.arg = some arg → IsAscii arg) hsteps
      (fun l₁ s₁ n kw hsteps₁ hkw arg harg => ?_) nofun
    · rw [spConfigScan, hrun]
      exact hkeywords.2
    · rcases keyword_arg hkw harg with hascii | ⟨name, huses, hlookup⟩
      · exact hascii
      · rcases (lookup_iff hsteps₁).mp hlookup with ⟨l₂, s₂, hsteps₂, hbehind, hset₂, hlast⟩ | ⟨hinit, -⟩
        · by_contra hvalue
          obtain ⟨s₃, value', hs₃, hs₁, hset₃⟩ := hset l₂ s₂ name arg hsteps₂ hset₂ hvalue s₁ hbehind huses
          exact hlast s₃ hs₃ hs₁ value' hset₃
        · have hinit : List.lookup name [(zstr "PHP_VERSION_ID", decimal c.phpVersionId)] = some arg := hinit
          rw [List.lookup_cons] at hinit
          split at hinit
          · cases hinit
            exact isAscii_decimal _
          · cases hinit

/-- `@set A "ls"; sp.x(A);`. -/
theorem ascii_iff_sample :
    (∀ parsedRule, .rule parsedRule ∈ (spConfigScan ⟨fun _ => false, 80000, []⟩ (zstr "@set A \"ls\";sp.x(A);")).1 →
      ∀ kw ∈ parsedRule, ∀ arg, kw.arg = some arg → IsAscii arg) ↔
    ∀ l s name value, Steps ⟨fun _ => false, 80000, []⟩
        (start ⟨fun _ => false, 80000, []⟩ (zstr "@set A \"ls\";sp.x(A);" ++ [0])) l s →
      SetAt s name value → ¬IsAscii value →
      ∀ s', Behind ⟨fun _ => false, 80000, []⟩ s s' → UsesAt ⟨fun _ => false, 80000, []⟩ s' name →
        ∃ s₁ value', Behind ⟨fun _ => false, 80000, []⟩ s s₁ ∧ Behind ⟨fun _ => false, 80000, []⟩ s₁ s' ∧
          SetAt s₁ name value' :=
  ascii_iff _ rfl

/-- The same with the bytes of an `é` for the value: it is accepted, and they are the argument. -/
theorem nonascii_variable :
    (spConfigScan ⟨fun _ => false, 80000, []⟩ (zstr "@set A \"" ++ [195, 169] ++ zstr "\";sp.x(A);")).2 = .success ∧
    ∃ parsedRule, .rule parsedRule ∈
        (spConfigScan ⟨fun _ => false, 80000, []⟩ (zstr "@set A \"" ++ [195, 169] ++ zstr "\";sp.x(A);")).1 ∧
      ∃ kw ∈ parsedRule, kw.arg = some [195, 169] ∧ ¬IsAscii [195, 169] :=
  ⟨rfl, [{ kw := zstr "x", arg := some [195, 169], argtype := .str, lineno := 1, filename := [] }],
    List.mem_singleton.mpr rfl, _, List.mem_singleton_self _, rfl, by decide +kernel⟩

end Snuffleupagus.Scanner.Ascii
