import Snuffleupagus.Scanner.Arrays

/-! # The arrays of the scanner are not left

The scanner with arrays does what the one with lists does (`run_eq`), and every access is to a cell of its array
(`arrays_in_bounds`): the stacks are as high as the lists, a push looks at the height, the loops and the `;` take nothing
off an empty stack, and `sp` sets the index of the keywords back. -/

namespace Snuffleupagus.Scanner.ArrayBounds

open Snuffleupagus.Lib.Effect Snuffleupagus.Lib.ArrayStack Snuffleupagus.Lib.Lexer Snuffleupagus.Php.Bytes
open Snuffleupagus.Config.Keyword
open Snuffleupagus.Load.Module (Statement)
open Snuffleupagus.Scanner.Condition Snuffleupagus.Scanner.Token Snuffleupagus.Scanner.Arrays
open Snuffleupagus.Scanner.Scan (State End Outcome Context Cond maxKeywords syErrorFmt)

/-! ### The stacks of a condition -/

/-- The arrays hold the stacks. -/
structure HoldsSy (a : SyArrays) (s : SyState) : Prop where
  res : Holds a.condRes s.condRes.reverse
  res0 : a.condRes.cells 0 = s.condRes0
  res_le : s.condRes.length ≤ maxConditions
  op : Holds a.condOp (s.condOp.reverse.map some)
  op_le : s.condOp.length ≤ maxConditions

/-- A computation of a condition does to the arrays what it does to the lists. -/
abbrev Does (x : Sy SyArrays) (y : Except SyError SyState) : Prop := Mirrors Access.InBounds HoldsSy x y

section Stacks
variable {a : SyArrays} {s : SyState}

theorem HoldsSy.res_top (h : HoldsSy a s) : a.condRes.top = s.condRes.length := by
  rw [h.res.top, List.length_reverse]

theorem HoldsSy.op_top (h : HoldsSy a s) : a.condOp.top = s.condOp.length := by
  rw [h.op.top, List.length_map, List.length_reverse]

theorem HoldsSy.op_top_eq_zero (h : HoldsSy a s) : a.condOp.top = 0 ↔ s.condOp = [] := by
  rw [h.op_top, Int.natCast_eq_zero, List.length_eq_zero_iff]

/-- A cell below a height that fits. -/
theorem inBounds_of_lt {name : ArrayName} {i : ℕ} (h : i < name.size) : Access.InBounds ⟨name, i⟩ :=
  ⟨Int.natCast_nonneg i, Int.ofNat_lt.mpr h⟩

theorem does_resPush (val : ℤ) (h : HoldsSy a s) : Does (resPush val a) (syResPush val s) := by
  unfold resPush syResPush
  rw [h.res_top]
  by_cases hfull : maxConditions ≤ s.condRes.length
  · rw [if_pos (Int.ofNat_le.mpr hfull), if_pos hfull]
    exact .abort _
  · rw [if_neg (fun hle => hfull (Int.ofNat_le.mp hle)), if_neg hfull, push_of_holds h.res, List.length_reverse]
    have hlt := Nat.lt_of_not_le hfull
    refine .access (inBounds_of_lt hlt) (.pure ⟨?_, ?_, hlt, h.op, h.op_le⟩)
    · rw [List.reverse_cons]
      exact h.res.push
    · show Function.update a.condRes.cells a.condRes.top val 0 = if s.condRes = [] then val else s.condRes0
      rw [h.res_top]
      split_ifs with hnil
      · rw [hnil]
        exact Function.update_self ..
      · have hne : (0 : ℤ) ≠ s.condRes.length := fun h0 => hnil (List.length_eq_zero_iff.mp (by omega))
        rw [Function.update_of_ne hne, h.res0]

theorem does_opPush (op : SyOp) (h : HoldsSy a s) : Does (opPush op a) (syOpPush op s) := by
  unfold opPush syOpPush
  rw [h.op_top]
  by_cases hfull : maxConditions ≤ s.condOp.length
  · rw [if_pos (Int.ofNat_le.mpr hfull), if_pos hfull]
    exact .abort _
  · rw [if_neg (fun hle => hfull (Int.ofNat_le.mp hle)), if_neg hfull, push_of_holds h.op, List.length_map,
      List.length_reverse]
    have hlt := Nat.lt_of_not_le hfull
    refine .access (inBounds_of_lt hlt) (.pure ⟨h.res, h.res0, h.res_le, ?_, hlt⟩)
    rw [List.reverse_cons, List.map_append]
    exact h.op.push

/-- A value comes off the stack. -/
theorem pop_res {v : ℤ} {vs : List ℤ} (h : HoldsSy a s) (hvs : s.condRes = v :: vs) :
    Writes Access.InBounds (pop (Access.mk .condRes) a.condRes : Sy _) ∧
      (pop (Access.mk .condRes) a.condRes : Sy _).out = .ok (v, { a.condRes with top := a.condRes.top - 1 }) ∧
      HoldsSy { a with condRes := { a.condRes with top := a.condRes.top - 1 } } { s with condRes := vs } := by
  obtain ⟨hres, hres0, hle, hop, hople⟩ := h
  rw [hvs, List.reverse_cons] at hres
  rw [hvs, List.length_cons] at hle
  rw [pop_of_holds hres, List.length_reverse]
  exact ⟨writes_singleton (inBounds_of_lt hle), rfl, hres.pop, hres0, (Nat.lt_of_succ_le hle).le, hop, hople⟩

/-- The stack of operators without the one on its top. -/
theorem HoldsSy.cons_op {op : SyOp} {ops : List SyOp} (h : HoldsSy a s) (hops : s.condOp = op :: ops) :
    Holds a.condOp (ops.reverse.map some ++ [some op]) ∧ ops.length < maxConditions ∧
      HoldsSy { a with condOp := { a.condOp with top := a.condOp.top - 1 } } { s with condOp := ops } := by
  obtain ⟨hres, hres0, hle, hop, hople⟩ := h
  rw [hops, List.reverse_cons, List.map_append] at hop
  rw [hops, List.length_cons] at hople
  exact ⟨hop, hople, hres, hres0, hle, hop.pop, (Nat.lt_of_succ_le hople).le⟩

theorem syApplyOpFromStack_two {op : SyOp} {v u : ℤ} {vs : List ℤ} (hop : op ≠ .unary)
    (hs : s.condRes = v :: u :: vs) :
    syApplyOpFromStack op s = syResPush (syApplyOp op v u) { s with condRes := vs } := by
  unfold syApplyOpFromStack
  rw [hs]
  cases op with
  | unary => exact absurd rfl hop
  | lparen | binary => rfl

theorem syApplyOpFromStack_few {op : SyOp} (hop : op ≠ .unary) (hs : s.condRes.length < 2) :
    syApplyOpFromStack op s = .error .notEnough := by
  unfold syApplyOpFromStack
  rcases hvs : s.condRes with _ | ⟨v, _ | ⟨u, vs⟩⟩
  · cases op with
    | unary => exact absurd rfl hop
    | lparen | binary => rfl
  · cases op with
    | unary => exact absurd rfl hop
    | lparen | binary => rfl
  · rw [hvs, List.length_cons, List.length_cons] at hs
    omega

/-- An operator is applied. -/
theorem does_applyOpFromStack {op : SyOp} {ops : List SyOp} (h : HoldsSy a s) (hops : s.condOp = op :: ops) :
    Does (applyOpFromStack a) (syApplyOpFromStack op { s with condOp := ops }) := by
  obtain ⟨hop, hlt, hpopped⟩ := h.cons_op hops
  have htop : a.condRes.top = s.condRes.length := h.res_top
  unfold applyOpFromStack
  rw [pop_of_holds hop, List.length_map, List.length_reverse]
  refine .access (inBounds_of_lt hlt) ?_
  dsimp only
  by_cases hunary : op = .unary
  · subst hunary
    have hneed : (2 : ℤ) - (if decide (some (.unary : SyOp) = some .unary) = true then 1 else 0) = 1 := rfl
    rw [hneed, htop]
    rcases hvs : s.condRes with _ | ⟨v, vs⟩
    · rw [if_pos (show (([] : List ℤ).length : ℤ) < 1 from Int.one_pos)]
      exact .abort _
    · obtain ⟨hwrites, hout, hrest⟩ := pop_res hpopped hvs
      have henough : ¬((v :: vs).length : ℤ) < 1 := by
        rw [List.length_cons]
        omega
      rw [if_neg henough]
      exact .cons hout hwrites (does_resPush _ hrest)
  · have hfalse : decide (some op = some .unary) = false := decide_eq_false fun h => hunary (Option.some.inj h)
    simp only [hfalse, Bool.false_eq_true, if_false]
    by_cases hfew : s.condRes.length < 2
    · rw [if_pos (by rw [htop]; omega), syApplyOpFromStack_few (s := { s with condOp := ops }) hunary hfew]
      exact .abort _
    · obtain ⟨v, u, vs, hvs⟩ : ∃ v u vs, s.condRes = v :: u :: vs := by
        rcases hs : s.condRes with _ | ⟨v, _ | ⟨u, vs⟩⟩
        · exact absurd (by rw [hs]; exact Nat.two_pos) hfew
        · exact absurd (by rw [hs]; exact Nat.one_lt_two) hfew
        · exact ⟨v, u, vs, rfl⟩
      obtain ⟨hwrites, hout, hrest⟩ := pop_res hpopped hvs
      obtain ⟨hwrites', hout', hrest'⟩ := pop_res hrest rfl
      rw [if_neg (by rw [htop]; omega), syApplyOpFromStack_two (s := { s with condOp := ops }) hunary hvs]
      exact .cons hout hwrites (.cons hout' hwrites' (does_resPush _ hrest'))

/-- `cond_res_i = 0`. -/
theorem HoldsSy.clear (h : HoldsSy a s) :
    HoldsSy { a with condRes := { a.condRes with top := 0 } } { s with condRes := [] } :=
  ⟨.nil rfl, h.res0, Nat.zero_le _, h.op, h.op_le⟩

/-- `cond_res[0] = 1; cond_res_i = 0`. -/
theorem HoldsSy.reset (h : HoldsSy a s) :
    HoldsSy { a with condRes := { cells := Function.update a.condRes.cells 0 1, top := 0 } }
      { s with condRes := [], condRes0 := 1 } :=
  ⟨.nil rfl, Function.update_self 0 1 a.condRes.cells, Nat.zero_le _, h.op, h.op_le⟩

/-! ### The rules of a condition -/

theorem condOp_applyOpFromStack {op : SyOp} {s' : SyState} (h : syApplyOpFromStack op s = .ok s') :
    s'.condOp = s.condOp := by
  have hpush : ∀ {v : ℤ} {vs : List ℤ}, syResPush v { s with condRes := vs } = .ok s' → s'.condOp = s.condOp := by
    intro v vs h
    rcases syResPush_cases v { s with condRes := vs } with he | ⟨-, ho⟩
    · cases he.symm.trans h
    · cases ho.symm.trans h
      rfl
  unfold syApplyOpFromStack at h
  split at h
  · exact hpush h
  · cases h
  · exact hpush h
  · cases h

theorem syApplyWhile_cons {go : SyOp → Bool} {op : SyOp} {ops : List SyOp} (hgo : go op = true) :
    syApplyWhile go (op :: ops) s = syApplyOpFromStack op { s with condOp := ops } >>= syApplyWhile go ops := by
  rw [syApplyWhile, if_pos hgo]
  cases syApplyOpFromStack op { s with condOp := ops } <;> rfl

/-- A loop over the operators, of as many turns as there are operators. -/
theorem does_applyWhile {go : Option SyOp → Bool} {go' : SyOp → Bool} (hgo : ∀ op, go (some op) = go' op) :
    ∀ (ops : List SyOp) {a : SyArrays} {s : SyState}, HoldsSy a { s with condOp := ops } →
      Does (applyWhile go ops.length a) (syApplyWhile go' ops s)
  | [], a, s, h => .pure h
  | op :: ops, a, s, h => by
    obtain ⟨hop, hlt, -⟩ := h.cons_op rfl
    have htop : a.condOp.top ≠ 0 := by
      rw [h.op_top]
      exact Int.natCast_ne_zero.mpr (Nat.succ_ne_zero _)
    rw [List.length_cons]
    unfold applyWhile
    rw [if_neg htop, peek_of_holds hop, List.length_map, List.length_reverse]
    refine .access (inBounds_of_lt hlt) ?_
    rw [hgo]
    cases hop' : go' op with
    | false =>
      have hstop : ¬go' op = true := Bool.eq_false_iff.mp hop'
      rw [syApplyWhile, if_neg Bool.false_ne_true, if_neg hstop]
      exact .pure h
    | true =>
      have happly : Does (applyOpFromStack a) (syApplyOpFromStack op { s with condOp := ops }) :=
        does_applyOpFromStack (s := { s with condOp := op :: ops }) h rfl
      rw [if_pos rfl, syApplyWhile_cons hop']
      refine (happly.mono fun a₁ s₁ hok h₁ => ?_).bind fun a₁ s₁ => does_applyWhile hgo ops
      rw [← show s₁.condOp = ops from condOp_applyOpFromStack hok]
      exact h₁

/-- A loop from where the stack is. -/
theorem does_loop {go : Option SyOp → Bool} {go' : SyOp → Bool} (hgo : ∀ op, go (some op) = go' op)
    (h : HoldsSy a s) : Does (applyWhile go a.condOp.top.natAbs a) (syApplyWhile go' s.condOp s) := by
  rw [h.op_top, Int.natAbs_natCast]
  exact does_applyWhile hgo s.condOp h

theorem ne_lparen_iff (op : SyOp) : decide (some op ≠ some .lparen) = decide (op ≠ .lparen) :=
  decide_eq_decide.mpr (by rw [ne_eq, ne_eq, Option.some.injEq])

theorem does_binary (op1 : BinOp) (h : HoldsSy a s) : Does (binary op1 a) (syBinary op1 s) := by
  unfold binary syBinary
  refine (does_loop (fun op => ?_) h).bind fun a₁ s₁ => does_opPush _
  rw [ne_lparen_iff]
  rfl

theorem does_close (h : HoldsSy a s) : Does (close a) (syClose s) := by
  unfold close syClose
  refine (does_loop ne_lparen_iff h).bind fun a₁ s₁ h₁ => ?_
  rcases hops : s₁.condOp with _ | ⟨op, ops⟩
  · rw [if_pos (h₁.op_top_eq_zero.mpr hops)]
    exact .abort _
  · obtain ⟨hop, hlt, hpopped⟩ := h₁.cons_op hops
    rw [if_neg (fun h0 => List.cons_ne_nil _ _ (hops.symm.trans (h₁.op_top_eq_zero.mp h0))), peek_of_holds hop,
      List.length_map, List.length_reverse]
    refine .access (inBounds_of_lt hlt) ?_
    cases op with
    | lparen => exact .pure hpopped
    | unary | binary => exact .abort _

theorem does_endOfCondition (h : HoldsSy a s) : Does (endOfCondition a) (syEnd s) := by
  unfold endOfCondition syEnd
  refine (does_loop ne_lparen_iff h).bind fun a₁ s₁ h₁ => ?_
  have hmany : 1 < a₁.condRes.top ↔ s₁.condRes.length > 1 := by
    rw [h₁.res_top]
    omega
  by_cases hops : s₁.condOp = []
  · rw [if_neg (not_not.mpr (h₁.op_top_eq_zero.mpr hops)), if_neg (not_not.mpr hops)]
    by_cases hres : s₁.condRes.length > 1
    · rw [if_pos (hmany.mpr hres), if_pos hres]
      exact .abort _
    · rw [if_neg (fun h => hres (hmany.mp h)), if_neg hres]
      exact .pure h₁
  · rw [if_pos (fun h => hops (h₁.op_top_eq_zero.mp h)), if_pos hops]
    exact .abort _

end Stacks

/-! ### The actions -/

/-- The scanner with the arrays in the place of its lists. -/
def withArrays (s : State) (sy : SyArrays) (parsedRule : Stack (Option SpParsedKeyword)) : ArrayState where
  cond := s.cond
  data := s.data
  lineno := s.lineno
  vars := s.vars
  conditionActive := s.conditionActive
  sy := sy
  parsedRule := parsedRule

theorem withArrays_data (s : State) (sy : SyArrays) (parsedRule : Stack (Option SpParsedKeyword)) :
    (withArrays s sy parsedRule).data = s.data := rfl

theorem withArrays_vars (s : State) (sy : SyArrays) (parsedRule : Stack (Option SpParsedKeyword)) :
    (withArrays s sy parsedRule).vars = s.vars := rfl

theorem parseKeyword_withArrays (c : Context) (s : State) (sy : SyArrays)
    (parsedRule : Stack (Option SpParsedKeyword)) (text : ZendString) :
    Scan.parseKeyword c (withArrays s sy parsedRule).plain text = Scan.parseKeyword c s text := rfl

/-- The arrays hold what the lists are; the keywords matter in a rule only. -/
def HoldsState (a : ArrayState) (s : State) : Prop :=
  ∃ sy parsedRule, a = withArrays s sy parsedRule ∧ HoldsSy sy s.sy ∧
    (s.cond = .rule → Holds parsedRule (s.parsedRule.map some) ∧ s.parsedRule.length ≤ maxKeywords)

/-- The outcome of a token as a result. -/
def ofOutcome : Outcome → Except End (State × Option Statement)
  | .next s out => .ok (s, out)
  | .stop e => .error e

/-- An action does to the arrays what it does to the lists, and hands out the same. -/
abbrev DoesNext (x : Act) (o : Outcome) : Prop :=
  Mirrors Access.InBounds (fun a b => HoldsState a.1 b.1 ∧ a.2 = b.2) x (ofOutcome o)

section Actions
variable {c : Context} {a : ArrayState} {s : State}

theorem doesNext_next (s' : State) {sy : SyArrays} {parsedRule : Stack (Option SpParsedKeyword)}
    {out : Option Statement} (hsy : HoldsSy sy s'.sy)
    (hrule : s'.cond = .rule → Holds parsedRule (s'.parsedRule.map some) ∧ s'.parsedRule.length ≤ maxKeywords) :
    DoesNext (pure (withArrays s' sy parsedRule, out)) (.next s' out) :=
  .pure ⟨⟨sy, parsedRule, rfl, hsy, hrule⟩, rfl⟩

/-- What depends on `cond_res[0]`. -/
theorem doesNext_skipping {x y : Act} {o o' : Outcome} (h : HoldsState a s)
    (hx : s.skipping = true → DoesNext x o) (hy : s.skipping = false → DoesNext y o') :
    DoesNext (do if ← a.skipping then x else y) (if s.skipping then o else o') := by
  obtain ⟨sy, parsedRule, rfl, hsy, -⟩ := h
  have hskip : (withArrays s sy parsedRule).skipping = ⟨[⟨.condRes, 0⟩], .ok s.skipping⟩ := by
    have hread : (withArrays s sy parsedRule).skipping = ⟨[⟨.condRes, 0⟩], .ok (sy.condRes.cells 0 == 0)⟩ := rfl
    rw [hread, hsy.res0]
    rfl
  rw [hskip]
  refine .access (inBounds_of_lt (by decide : 0 < maxConditions)) ?_
  cases hs : s.skipping with
  | true => exact hx hs
  | false => exact hy hs

theorem does_initAction (t : InitRule) (text : ZendString) (h : HoldsState a s) :
    DoesNext (initAction c t text a) (Scan.initAction c t text s) := by
  have hholds := h
  obtain ⟨sy, parsedRule, rfl, hsy, hrule⟩ := h
  have hsame : DoesNext (pure (withArrays s sy parsedRule, none)) (.next s none) := doesNext_next _ hsy hrule
  cases t with
  | nonascii | other => exact .abort _
  | endByte => exact .abort _
  | whitespace | comment => exact hsame
  | newline => exact doesNext_next { s with lineno := s.lineno + 1 } hsy hrule
  | sp =>
    exact doesNext_next { s with cond := .rule, parsedRule := [] } hsy fun _ => ⟨.nil rfl, Nat.zero_le _⟩
  | set =>
    exact doesNext_skipping hholds (fun _ => hsame) fun _ =>
      doesNext_next { s with vars := Scan.setParts text :: s.vars } hsy hrule
  | condition =>
    show DoesNext (if s.conditionActive then _ else _) (if s.conditionActive then _ else _)
    by_cases hactive : s.conditionActive = true
    · rw [if_pos hactive, if_pos hactive]
      exact .abort _
    · rw [if_neg hactive, if_neg hactive]
      exact doesNext_next { s with cond := .cond, conditionActive := true, sy := { s.sy with condRes := [] } }
        hsy.clear nofun
  | endCondition =>
    refine .access (inBounds_of_lt (by decide : 0 < maxConditions)) ?_
    exact doesNext_next { s with conditionActive := false, sy := { s.sy with condRes := [], condRes0 := 1 } }
      hsy.reset hrule
  | info =>
    exact doesNext_skipping hholds (fun _ => hsame) fun _ => doesNext_next _ hsy hrule
  | warning =>
    exact doesNext_skipping hholds (fun _ => hsame) fun _ => doesNext_next _ hsy hrule
  | error => exact doesNext_skipping hholds (fun _ => hsame) fun _ => .abort _

/-- What is done with the stacks of a condition, and the start condition behind it. -/
theorem does_condition {x : Sy SyArrays} {y : Except SyError SyState} {next : Cond} {o : Outcome} (h : HoldsState a s)
    (hnext : next ≠ .rule) (hx : HoldsSy a.sy s.sy → Does x y)
    (ho : ofOutcome o = (y.mapError fun e => failsWith c s.lineno (syErrorFmt e) []) >>= fun sy' =>
      .ok ({ s with cond := next, sy := sy' }, none)) : DoesNext (a.condition c next x) o := by
  obtain ⟨sy, parsedRule, rfl, hsy, -⟩ := h
  unfold DoesNext
  rw [ho]
  exact ((hx hsy).mapReason _).bind fun sy₁ s₁ hsy₁ =>
    .pure ⟨⟨sy₁, parsedRule, rfl, hsy₁, fun hrule => absurd hrule hnext⟩, rfl⟩

/-- A token of a condition. -/
theorem does_feed {t : CondToken} {x : Sy SyArrays} {y : Except SyError SyState} {b : Bool} (h : HoldsState a s)
    (hx : HoldsSy a.sy s.sy → Does x y) (hy : syToken t (s.cond == .condOp, s.sy) = y.map fun s => (b, s)) :
    DoesNext (a.condition c (if b then .condOp else .cond) x) (s.feed c t) := by
  refine does_condition h (by cases b <;> decide) hx ?_
  unfold State.feed
  rw [hy]
  cases y <;> rfl

/-- The `;` of a condition. -/
theorem does_endOf (h : HoldsState a s) :
    DoesNext (a.condition c .init (endOfCondition a.sy)) (s.endCondition c) := by
  refine does_condition h (by decide) does_endOfCondition ?_
  unfold State.endCondition
  cases syEnd s.sy <;> rfl

theorem does_condAction (t : CondRule) (text : ZendString) (h : HoldsState a s) (hcond : s.cond = .cond) :
    DoesNext (condAction c t text a) (Scan.condAction c t text s) := by
  have hflag : (s.cond == .condOp) = false := by rw [hcond]; rfl
  have hvalue : ∀ v, DoesNext (a.condition c .condOp (resPush v a.sy)) (s.feed c (.value v)) := fun v =>
    does_feed (b := true) h (does_resPush v) (by rw [hflag]; rfl)
  have hop : ∀ {op : SyOp} {t : CondToken}, syToken t (false, s.sy) = (syOpPush op s.sy).map (fun s => (false, s)) →
      DoesNext (a.condition c .cond (opPush op a.sy)) (s.feed c t) := fun ht =>
    does_feed (b := false) h (does_opPush _) (by rw [hflag]; exact ht)
  obtain ⟨sy, parsedRule, rfl, hsy, hrule⟩ := h
  cases t with
  | whitespace => exact doesNext_next _ hsy hrule
  | newline => exact doesNext_next { s with lineno := s.lineno + 1 } hsy hrule
  | call =>
    show DoesNext (if 2 ≤ (Scan.callParts text).2.length ∧ (Scan.callParts text).1 = zstr "extension_loaded"
      then _ else _) (if 2 ≤ (Scan.callParts text).2.length ∧ (Scan.callParts text).1 = zstr "extension_loaded"
      then _ else _)
    by_cases hloaded : 2 ≤ (Scan.callParts text).2.length ∧ (Scan.callParts text).1 = zstr "extension_loaded"
    · rw [if_pos hloaded, if_pos hloaded]
      exact hvalue _
    · rw [if_neg hloaded, if_neg hloaded]
      exact .abort _
  | keyword =>
    show DoesNext (condAction c .keyword text (withArrays s sy parsedRule)) (s.variableValue c text)
    unfold condAction State.variableValue
    rw [withArrays_vars]
    cases s.vars.lookup text with
    | some value => exact hvalue _
    | none => exact .abort _
  | number => exact hvalue _
  | not => exact hop rfl
  | lparen => exact hop rfl
  | other => exact .abort _

theorem does_condOpAction (t : CondOpRule) (text : ZendString) (h : HoldsState a s) (hcond : s.cond = .condOp) :
    DoesNext (condOpAction c t text a) (Scan.condOpAction c t text s) := by
  have hflag : (s.cond == .condOp) = true := by rw [hcond]; rfl
  cases t with
  | operator => exact does_feed (b := false) h (does_binary _) (by rw [hflag]; rfl)
  | rparen => exact does_feed (b := true) h does_close (by rw [hflag]; rfl)
  | semicolon => exact does_endOf h
  | whitespace =>
    obtain ⟨sy, parsedRule, rfl, hsy, hrule⟩ := h
    exact doesNext_next _ hsy hrule
  | newline =>
    obtain ⟨sy, parsedRule, rfl, hsy, hrule⟩ := h
    exact doesNext_next { s with lineno := s.lineno + 1 } hsy hrule
  | other =>
    obtain ⟨sy, parsedRule, rfl, -⟩ := h
    exact .abort _

theorem does_keyword (text : ZendString) (h : HoldsState a s) (hcond : s.cond = .rule) :
    DoesNext (a.keyword c text) (s.keyword c text) := by
  unfold ArrayState.keyword State.keyword
  refine doesNext_skipping h (fun _ => ?_) fun _ => ?_
  · obtain ⟨sy, parsedRule, rfl, hsy, hrule⟩ := h
    exact doesNext_next _ hsy hrule
  · obtain ⟨sy, parsedRule, rfl, hsy, hrule⟩ := h
    obtain ⟨hholds, hle⟩ := hrule hcond
    have htop : parsedRule.top = s.parsedRule.length := by rw [hholds.top, List.length_map]
    have hfull : parsedRule.top = (maxKeywords : ℤ) ↔ s.parsedRule.length = maxKeywords := by
      rw [htop, Int.natCast_inj]
    by_cases hmany : s.parsedRule.length = maxKeywords
    · rw [if_pos hmany]
      show DoesNext (if parsedRule.top = (maxKeywords : ℤ) then _ else _) _
      rw [if_pos (hfull.mpr hmany)]
      exact .abort _
    · rw [if_neg hmany]
      show DoesNext (if parsedRule.top = (maxKeywords : ℤ) then _ else _) _
      rw [if_neg fun h => hmany (hfull.mp h), parseKeyword_withArrays]
      cases Scan.parseKeyword c s text with
      | error e => exact .abort _
      | ok kw =>
        have hlt : s.parsedRule.length < maxKeywords := Nat.lt_of_le_of_ne hle hmany
        show DoesNext (push (Access.mk .parsedRule) (some kw) parsedRule >>= fun parsedRule =>
          pure (withArrays { s with parsedRule := s.parsedRule ++ [kw] } sy parsedRule, none)) _
        rw [push_of_holds hholds, List.length_map]
        refine .access (inBounds_of_lt (Nat.lt_succ_of_lt hlt)) ?_
        refine doesNext_next _ hsy fun _ => ⟨?_, ?_⟩
        · rw [List.map_append]
          exact hholds.push
        · rw [List.length_append, List.length_singleton]
          exact hlt

/-- `process_rule` reads the keywords and the one without a name, and no cell behind it. -/
theorem does_keywordsFrom (cells : Stack (Option SpParsedKeyword)) :
    ∀ (kws : List SpParsedKeyword) {i : ℕ}, i + kws.length < maxKeywords + 1 →
      (∀ (j : ℕ) (kw : Option SpParsedKeyword), (kws.map some ++ [none])[j]? = some kw →
        cells.cells (i + j : ℕ) = kw) →
      Mirrors Access.InBounds Eq (keywordsFrom cells (kws.length + 1) i) (.ok kws)
  | [], i, hlt, hcells => by
    have hread : (read (Access.mk .parsedRule) i cells : Run End Access _) = ⟨[⟨.parsedRule, i⟩], .ok none⟩ := by
      rw [← hcells 0 none rfl]
      rfl
    unfold keywordsFrom
    rw [hread]
    exact .access (inBounds_of_lt hlt) (.pure rfl)
  | kw :: kws, i, hlt, hcells => by
    rw [List.length_cons] at hlt
    have hread : (read (Access.mk .parsedRule) i cells : Run End Access _) =
        ⟨[⟨.parsedRule, i⟩], .ok (some kw)⟩ := by
      rw [← hcells 0 (some kw) rfl]
      rfl
    unfold keywordsFrom
    rw [hread]
    refine .access (inBounds_of_lt (by omega : i < maxKeywords + 1)) ?_
    have hrest := does_keywordsFrom cells kws (i := i + 1) (by omega) fun j kw' hj => by
      rw [Nat.add_right_comm]
      exact hcells (j + 1) kw' hj
    exact hrest.bind fun l l' hl => .pure (hl ▸ rfl)

theorem does_endOfRule (h : HoldsState a s) (hcond : s.cond = .rule) : DoesNext a.endOfRule s.endOfRule := by
  unfold ArrayState.endOfRule State.endOfRule
  refine doesNext_skipping h (fun _ => ?_) fun _ => ?_
  · obtain ⟨sy, parsedRule, rfl, hsy, -⟩ := h
    exact doesNext_next { s with cond := .init } hsy nofun
  · obtain ⟨sy, parsedRule, rfl, hsy, hrule⟩ := h
    obtain ⟨hholds, hle⟩ := hrule hcond
    show DoesNext (push (Access.mk .parsedRule) none parsedRule >>= fun parsedRule =>
      keywordsFrom parsedRule parsedRule.top.natAbs 0 >>= fun rule =>
        pure (withArrays { s with cond := .init } sy parsedRule, some (.rule rule))) _
    rw [push_of_holds hholds, List.length_map]
    refine .access (inBounds_of_lt (Nat.lt_succ_of_le hle)) ?_
    have hpushed : Holds _ (s.parsedRule.map some ++ [none]) := hholds.push
    have hcount : (parsedRule.top + 1).natAbs = s.parsedRule.length + 1 := by
      rw [hholds.top, List.length_map]
      omega
    dsimp only
    rw [hcount]
    have hread := does_keywordsFrom _ s.parsedRule (i := 0) (by omega) fun j kw hj => by
      rw [Nat.zero_add]
      exact hpushed.cell j kw hj
    have hnext : ofOutcome (.next { s with cond := .init } (some (.rule s.parsedRule))) =
        (.ok s.parsedRule : Except End _) >>= fun rule => .ok ({ s with cond := .init }, some (.rule rule)) := rfl
    rw [hnext]
    refine hread.bind fun l l' hl => ?_
    subst hl
    exact doesNext_next _ hsy nofun

theorem does_ruleAction (t : RuleRule) (text : ZendString) (h : HoldsState a s) (hcond : s.cond = .rule) :
    DoesNext (ruleAction c t text a) (Scan.ruleAction c t text s) := by
  cases t with
  | keyword => exact does_keyword text h hcond
  | semicolon | other => exact does_endOfRule h hcond
  | whitespace =>
    obtain ⟨sy, parsedRule, rfl, hsy, hrule⟩ := h
    exact doesNext_next _ hsy hrule
  | newline =>
    obtain ⟨sy, parsedRule, rfl, hsy, hrule⟩ := h
    exact doesNext_next { s with
      lineno := s.lineno + 1, data := text.drop (Scan.newlineLength text) ++ s.data } hsy hrule
  | nonascii =>
    obtain ⟨sy, parsedRule, rfl, -⟩ := h
    exact .abort _

/-! ### A scan -/

theorem does_token {τ : Type} {rules : Rules UInt8 τ} {other : τ} {f : τ → ZendString → ArrayState → Act}
    {g : τ → ZendString → State → Outcome} (h : HoldsState a s)
    (hfg : ∀ t text {a' s'}, HoldsState a' s' → s'.cond = s.cond → DoesNext (f t text a') (g t text s')) :
    DoesNext (a.token rules other f) (s.token rules other g) := by
  obtain ⟨sy, parsedRule, rfl, hsy, hrule⟩ := h
  unfold ArrayState.token State.token
  rw [withArrays_data]
  cases next rules other s.data with
  | none => exact .abort _
  | some p => exact hfg p.1 _ ⟨sy, parsedRule, rfl, hsy, hrule⟩ rfl

theorem does_step (h : HoldsState a s) : DoesNext (step c a) (Scan.step c s) := by
  have hcond : a.cond = s.cond := by
    obtain ⟨sy, parsedRule, rfl, -⟩ := h
    rfl
  unfold step Scan.step
  rw [hcond]
  cases hs : s.cond with
  | init => exact does_token h fun t text _ _ h' _ => does_initAction t text h'
  | cond => exact does_token h fun t text _ _ h' hc => does_condAction t text h' (hc.trans hs)
  | condOp => exact does_token h fun t text _ _ h' hc => does_condOpAction t text h' (hc.trans hs)
  | rule => exact does_token h fun t text _ _ h' hc => does_ruleAction t text h' (hc.trans hs)

/-- The scanner with arrays does what the one with lists does. -/
theorem run_eq : ∀ (fuel : ℕ) {a : ArrayState} {s : State}, HoldsState a s →
    (∀ e ∈ (run c fuel a).1, e.InBounds) ∧ (run c fuel a).2 = Scan.run c fuel s
  | 0, _, _, _ => ⟨nofun, rfl⟩
  | fuel + 1, a, s, h => by
    have hstep := does_step (c := c) h
    unfold run Scan.run
    generalize step c a = x at hstep
    obtain ⟨log, out⟩ := x
    obtain ⟨hwrites, hout⟩ := hstep
    rcases hout with ⟨⟨a', o⟩, ⟨s', o'⟩, hx, hy, hholds, ho⟩ | ⟨e, hx, hy⟩
    · cases hs : Scan.step c s with
      | stop e => cases hs ▸ hy
      | next s₁ o₁ =>
        rw [hs] at hy
        cases hy
        cases hx
        cases ho
        obtain ⟨hbounds, heq⟩ := run_eq fuel hholds
        refine ⟨fun e he => ?_, ?_⟩
        · exact (List.mem_append.mp he).elim (hwrites e) (hbounds e)
        · show (_, _) = _
          rw [heq]
    · cases hs : Scan.step c s with
      | next s₁ o₁ => cases hs ▸ hy
      | stop e =>
        rw [hs] at hy
        cases hy
        cases hx
        exact ⟨hwrites, rfl⟩

end Actions

/-- **The arrays of the scanner are not left.** In every scan, of every text and with every memory behind it, the cells
that are read and written are those of the arrays, and the scan is the one with lists. -/
theorem arrays_in_bounds (c : Context) (contents memory : ZendString) :
    (∀ e ∈ (Arrays.spConfigScan c contents memory).1, e.InBounds) ∧
      (Arrays.spConfigScan c contents memory).2 = Scan.runFrom c (Scan.start c (contents ++ 0 :: memory)) := by
  refine run_eq _ ⟨{}, _, rfl, ⟨⟨rfl, nofun⟩, rfl, Nat.zero_le _, ⟨rfl, nofun⟩, Nat.zero_le _⟩, nofun⟩

end Snuffleupagus.Scanner.ArrayBounds
