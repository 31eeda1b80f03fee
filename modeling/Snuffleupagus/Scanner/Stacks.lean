import Snuffleupagus.Scanner.Conventional

/-! # How high the stacks of a condition get

Both stacks of the scanner hold `maxConditions` entries. On `condOp` are the parentheses and negations that are open, and
in each level of parentheses the binary operators that wait for their right operand: an operator closes off those that
bind at least as close (`pend`). `fits` follows both heights over what is written, whatever the operands are, and
`tooComplex_iff` says that nothing else makes a condition too complex. -/

namespace Snuffleupagus.Scanner.Conventional

open Snuffleupagus.Lib.Precedence
open Snuffleupagus.Scanner.Condition

/-- The binary operators of a level that wait, the last one first, once `op` has been read. -/
def pend (op : BinOp) (ops : List BinOp) : List BinOp :=
  op :: ops.dropWhile fun o => decide (operators.prec op ≤ operators.prec o)

mutual

/-- Both stacks suffice for the operand, from these heights on. -/
def Factor.fits (height values : ℕ) : Factor → Prop
  | .lit _ => values < maxConditions
  | .not u => height < maxConditions ∧ u.fits (height + 1) values
  | .paren u rest =>
    height < maxConditions ∧ u.fits (height + 1) values ∧ rest.fits (height + 1) values []

/-- For what follows in the level, where `ops` wait. -/
def Rest.fits (height values : ℕ) : List BinOp → Rest → Prop
  | _, .nil => True
  | ops, .cons op u rest =>
    height + (pend op ops).length ≤ maxConditions ∧
      u.fits (height + (pend op ops).length) (values + (pend op ops).length) ∧
      rest.fits height values (pend op ops)

end

/-- The condition is not too complex. -/
def Cond.fits (c : Cond) : Prop := c.first.fits 0 0 ∧ c.rest.fits 0 0 []

mutual

def Factor.decidableFits : ∀ (u : Factor) (height values : ℕ), Decidable (u.fits height values)
  | .lit _, _, values => inferInstanceAs (Decidable (values < maxConditions))
  | .not u, height, values => @instDecidableAnd _ _ inferInstance (Factor.decidableFits u (height + 1) values)
  | .paren u rest, height, values =>
    @instDecidableAnd _ _ inferInstance
      (@instDecidableAnd _ _ (Factor.decidableFits u (height + 1) values)
        (Rest.decidableFits rest (height + 1) values []))

def Rest.decidableFits : ∀ (rest : Rest) (height values : ℕ) (ops : List BinOp), Decidable (rest.fits height values ops)
  | .nil, _, _, _ => .isTrue trivial
  | .cons op u rest, height, values, ops =>
    @instDecidableAnd _ _ inferInstance
      (@instDecidableAnd _ _ (Factor.decidableFits u _ _) (Rest.decidableFits rest height values (pend op ops)))

end

instance (c : Cond) : Decidable c.fits :=
  @instDecidableAnd _ _ (Factor.decidableFits c.first 0 0) (Rest.decidableFits c.rest 0 0 [])

/-! ### One level -/

/-- The operators that wait are applied, as far as `q` closes them off; no value is added. -/
theorem syApplyWhile_pend {q n : ℕ} {base : List SyOp} (hbase : ∀ top ∈ base.head?, binds q top = false) :
    ∀ (ops : List BinOp) {s : SyState}, s.condRes.length = n + ops.length + 1 → s.condRes.length ≤ maxConditions →
      ∃ s', syApplyWhile (binds q) (ops.map .binary ++ base) s = .ok s' ∧
        s'.condOp = (ops.dropWhile fun o => decide (q ≤ operators.prec o)).map .binary ++ base ∧
        s'.condRes.length = n + (ops.dropWhile fun o => decide (q ≤ operators.prec o)).length + 1
  | [], s, hlen, _ => by
    rcases base with _ | ⟨top, base⟩
    · exact ⟨{ s with condOp := [] }, rfl, rfl, hlen⟩
    · refine ⟨{ s with condOp := top :: base }, ?_, rfl, hlen⟩
      simp [syApplyWhile, hbase top rfl]
  | op :: ops, ⟨res, res0, condOp⟩, hlen, hmax => by
    have hbinds : binds q (.binary op) = decide (q ≤ operators.prec op) := Bool.true_and _
    rw [List.map_cons, List.cons_append, syApplyWhile, hbinds, List.dropWhile_cons]
    by_cases hq : q ≤ operators.prec op
    · rcases res with _ | ⟨r, _ | ⟨l, vs⟩⟩
      · simp at hlen
      · simp at hlen
      · simp only [List.length_cons] at hlen hmax
        have happ : syApplyOpFromStack (.binary op) ⟨r :: l :: vs, res0, ops.map .binary ++ base⟩ =
            .ok (SyState.put (operators.binary op l r) ⟨vs, res0, ops.map .binary ++ base⟩) := by
          rw [syApplyOpFromStack_binary rfl]
          exact syResPush_of_lt (by simp only; omega)
        rw [if_pos (decide_eq_true hq), if_pos (decide_eq_true hq), happ]
        exact syApplyWhile_pend hbase ops (by simp [SyState.put]; omega) (by simp [SyState.put]; omega)
    · rw [if_neg (by simp [hq]), if_neg (by simp [hq])]
      exact ⟨_, rfl, rfl, hlen⟩

/-- An operand, and then an operator that is not closed off by what was there. -/
theorem syTokens_factor (u : Factor) (s : SyState) : syTokens u.tokens (false, s) = .error .tooComplex ∨
    ∃ s', syTokens u.tokens (false, s) = .ok (true, s') ∧ s.condRes.length < maxConditions ∧
      ∀ q ≤ operators.top, Condition.reduce q s' = Condition.reduce q (s.put (u.eval scannerOrder)) := by
  obtain ⟨e, hparse, hvalue⟩ := u.parses ordered_scannerOrder (by decide) rfl rfl
  rw [← hvalue]
  exact syTokens_of_parses hparse le_rfl s level_le_top

/-- A whole level. -/
theorem syTokens_cond (c : Cond) {s : SyState} (hs : level operators s.condOp = 0) :
    syTokens c.tokens (false, s) = .error .tooComplex ∨
    ∃ s', syTokens c.tokens (false, s) = .ok (true, s') ∧
      Condition.reduce 0 s' = Condition.reduce 0 (s.put (c.eval scannerOrder)) := by
  obtain ⟨e, hparse, hvalue⟩ := c.parses ordered_scannerOrder (by decide) rfl rfl
  rw [← hvalue]
  refine (syTokens_of_parses hparse (Nat.zero_le _) s (le_of_eq hs)).imp_right ?_
  rintro ⟨s', hrun, -, hred⟩
  exact ⟨s', hrun, hred 0 le_rfl⟩

/-- Below a level nothing binds. -/
theorem binds_of_level {base : List SyOp} (h : level operators base = 0) (q : ℕ) :
    ∀ top ∈ base.head?, binds q top = false := by
  rcases base with _ | ⟨_ | _ | op, base⟩
  · nofun
  · rintro top ⟨⟩
    rfl
  · cases h
  · cases h

theorem syTokens_cons (t : CondToken) (ts : List CondToken) (q : Bool × SyState) :
    syTokens (t :: ts) q = syToken t q >>= syTokens ts := rfl

theorem syOpPush_of_le {op : SyOp} {s : SyState} (h : maxConditions ≤ s.condOp.length) :
    syOpPush op s = .error .tooComplex := if_pos h

theorem syOpPush_of_lt {op : SyOp} {s : SyState} (h : s.condOp.length < maxConditions) :
    syOpPush op s = .ok { s with condOp := op :: s.condOp } := if_neg (not_le.mpr h)

/-- An operand and what follows it. -/
theorem tooComplex_append {u : Factor} {s : SyState} {ts : List CondToken} {P : Prop}
    (hu : syTokens u.tokens (false, s) = .error .tooComplex ↔ ¬u.fits s.condOp.length s.condRes.length)
    (hts : ∀ s', s.condRes.length < maxConditions →
      (∀ q ≤ operators.top, Condition.reduce q s' = Condition.reduce q (s.put (u.eval scannerOrder))) →
      (syTokens ts (true, s') = .error .tooComplex ↔ ¬P)) :
    syTokens (u.tokens ++ ts) (false, s) = .error .tooComplex ↔
      ¬(u.fits s.condOp.length s.condRes.length ∧ P) := by
  rw [syTokens_append]
  rcases syTokens_factor u s with he | ⟨s', hs', hlen, hred⟩
  · rw [he]
    exact iff_of_true rfl fun hfits => hu.mp he hfits.1
  · have hfits : u.fits s.condOp.length s.condRes.length := by
      by_contra hfits
      rw [hu.mpr hfits] at hs'
      cases hs'
    rw [hs', and_iff_right hfits]
    exact hts s' hlen hred

mutual

/-- **An operand is too complex** exactly if it does not fit. -/
theorem Factor.tooComplex_iff : ∀ (u : Factor) (s : SyState),
    syTokens u.tokens (false, s) = .error .tooComplex ↔ ¬u.fits s.condOp.length s.condRes.length
  | .lit v, s => by
    rw [Factor.tokens, syTokens_cons, syToken, Factor.fits, not_lt]
    by_cases h : maxConditions ≤ s.condRes.length
    · rw [syResPush, if_pos h]
      exact iff_of_true rfl h
    · rw [syResPush, if_neg h]
      exact iff_of_false nofun h
  | .not u, s => by
    rw [Factor.tokens, syTokens_cons, syToken, Factor.fits]
    by_cases h : maxConditions ≤ s.condOp.length
    · rw [syOpPush_of_le h]
      exact iff_of_true rfl fun hfits => absurd hfits.1 (not_lt.mpr h)
    · rw [syOpPush_of_lt (not_le.mp h), and_iff_right (not_le.mp h)]
      exact Factor.tooComplex_iff u { s with condOp := .unary :: s.condOp }
  | .paren u rest, s => by
    rw [Factor.tokens, syTokens_cons, syToken, Factor.fits]
    by_cases h : maxConditions ≤ s.condOp.length
    · rw [syOpPush_of_le h]
      exact iff_of_true rfl fun hfits => absurd hfits.1 (not_lt.mpr h)
    · rw [syOpPush_of_lt (not_le.mp h), and_iff_right (not_le.mp h)]
      set s₁ : SyState := { s with condOp := .lparen :: s.condOp } with hs₁
      show syTokens (u.tokens ++ rest.tokens ++ [.rparen]) (false, s₁) = _ ↔ _
      rw [syTokens_append]
      have hlevel : syTokens (u.tokens ++ rest.tokens) (false, s₁) = .error .tooComplex ↔
          ¬(u.fits s₁.condOp.length s₁.condRes.length ∧ rest.fits s₁.condOp.length s₁.condRes.length []) := by
        refine tooComplex_append (Factor.tooComplex_iff u s₁) fun s₂ hlen hred => ?_
        exact @Rest.tooComplex_iff rest s₁.condOp [] _ _ s₁ s₂ rfl rfl rfl hlen hred
      rcases syTokens_cond ⟨u, rest⟩ (s := s₁) rfl with he | ⟨s₂, hs₂, hred⟩
      · rw [show syTokens (u.tokens ++ rest.tokens) (false, s₁) = _ from he]
        exact iff_of_true rfl (hlevel.mp he)
      · have hclose : syClose s₂ = .ok _ := syClose_lparen hred rfl
        have hne : syTokens (u.tokens ++ rest.tokens) (false, s₁) ≠ .error .tooComplex := by
          rw [show syTokens (u.tokens ++ rest.tokens) (false, s₁) = _ from hs₂]
          nofun
        rw [show syTokens (u.tokens ++ rest.tokens) (false, s₁) = _ from hs₂]
        refine iff_of_false ?_ fun hfits => hne (hlevel.mpr hfits)
        simp [syTokens, syToken, hclose]

/-- **And what follows in its level**, where `ops` wait in front of the operand. -/
theorem Rest.tooComplex_iff : ∀ (rest : Rest) {base : List SyOp} {ops : List BinOp} {n : ℕ} {v : ℤ} {s s' : SyState},
    level operators base = 0 → s.condOp = ops.map .binary ++ base → s.condRes.length = n + ops.length →
      s.condRes.length < maxConditions →
      (∀ q ≤ operators.top, Condition.reduce q s' = Condition.reduce q (s.put v)) →
      (syTokens rest.tokens (true, s') = .error .tooComplex ↔ ¬rest.fits base.length n ops)
  | .nil, base, ops, n, v, s, s', _, _, _, _, _ => iff_of_false nofun (not_not.mpr trivial)
  | .cons op u rest, base, ops, n, v, s, s', hbase, hops, hlen, hmax, hred => by
    have hput : (s.put v).condRes.length = n + ops.length + 1 := congrArg (· + 1) hlen
    obtain ⟨s₂, hs₂, hops₂, hlen₂⟩ := syApplyWhile_pend (binds_of_level hbase (operators.prec op)) ops hput
      (by rw [hput, ← hlen]; exact hmax)
    have hred₂ : Condition.reduce (operators.prec op) s' = .ok s₂ := by
      rw [hred _ (le_of_lt (operators.prec_lt op)), Condition.reduce, ← hs₂, ← hops]
      rfl
    have hheight : s₂.condOp.length + 1 = base.length + (pend op ops).length := by
      rw [hops₂, pend, List.length_append, List.length_map, List.length_cons]
      omega
    rw [Rest.tokens, syTokens_cons, syToken, syBinary_ok hred₂, Rest.fits, ← hheight]
    by_cases h : maxConditions ≤ s₂.condOp.length
    · rw [syOpPush_of_le h]
      exact iff_of_true rfl fun hfits => absurd hfits.1 (by omega)
    · rw [syOpPush_of_lt (not_le.mp h), and_iff_right (Nat.succ_le_of_lt (not_le.mp h))]
      set s₃ : SyState := { s₂ with condOp := .binary op :: s₂.condOp } with hs₃
      have hops₃ : s₃.condOp = (pend op ops).map .binary ++ base := congrArg (.binary op :: ·) hops₂
      have hlen₃ : s₃.condRes.length = n + (pend op ops).length := hlen₂
      rw [← hlen₃]
      refine tooComplex_append (Factor.tooComplex_iff u s₃) fun s₄ hmax₄ hred₄ => ?_
      exact Rest.tooComplex_iff rest hbase hops₃ hlen₃ hmax₄ hred₄

end

/-- **A condition is too complex** exactly if it does not fit. -/
theorem tooComplex_iff (v : ℤ) (c : Cond) : evalCondition v c.tokens = .error .tooComplex ↔ ¬c.fits := by
  have hlevel : syTokens c.tokens (false, { condRes0 := v }) = .error .tooComplex ↔ ¬c.fits := by
    refine tooComplex_append (c.first.tooComplex_iff _) fun s hlen hred => ?_
    exact @Rest.tooComplex_iff c.rest [] [] _ _ { condRes0 := v } s rfl rfl rfl hlen hred
  rw [← hlevel, evalCondition]
  rcases syTokens_cond c (s := { condRes0 := v }) rfl with he | ⟨s, hs, hred⟩
  · rw [he]
    exact iff_of_true rfl rfl
  · rw [hs]
    have hend : syEnd s = .ok _ := syEnd_ok hred rfl le_rfl
    exact iff_of_false (by simp [hend]) nofun

/-! ### The same but for the values -/

mutual

theorem Factor.Same.fits : ∀ {u u' : Factor}, u.Same u' → ∀ height values : ℕ,
    u.fits height values ↔ u'.fits height values
  | .lit _, .lit _, _, _, _ => Iff.rfl
  | .not u, .not u', h, height, values => and_congr Iff.rfl (@Factor.Same.fits u u' h (height + 1) values)
  | .paren u rest, .paren u' rest', h, height, values =>
    and_congr Iff.rfl (and_congr (@Factor.Same.fits u u' h.1 (height + 1) values)
      (@Rest.Same.fits rest rest' h.2 (height + 1) values []))

theorem Rest.Same.fits : ∀ {rest rest' : Rest}, rest.Same rest' → ∀ (height values : ℕ) (ops : List BinOp),
    rest.fits height values ops ↔ rest'.fits height values ops
  | .nil, .nil, _, _, _, _ => Iff.rfl
  | .cons op u rest, .cons op' u' rest', ⟨hop, hu, hrest⟩, height, values, ops => by
    subst hop
    exact and_congr Iff.rfl (and_congr (@Factor.Same.fits u u' hu _ _)
      (@Rest.Same.fits rest rest' hrest height values (pend op ops)))

end

theorem Cond.Same.fits {c c' : Cond} (h : c.Same c') : c.fits ↔ c'.fits :=
  and_congr (h.1.fits 0 0) (h.2.fits 0 0 [])

end Snuffleupagus.Scanner.Conventional
