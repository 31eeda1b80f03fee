import Snuffleupagus.Lib.Precedence
import Snuffleupagus.Lib.Effect
import Mathlib.Tactic.SplitIfs

/-! # The conditions of a configuration

`@condition E;` is evaluated while it is read, with a stack of values and one of operators (the `sy_`
helpers, for the shunting yard algorithm). The scanner knows from its start condition whether it expects
an operand (`yyccond`) or an operator (`yyccond_op`).

`condition_correct`: as long as neither stack overflows, exactly the expressions of the grammar that
`sy_op_precedence` and `sy_op_is_left_assoc` define are accepted, and their value is left. -/

namespace Snuffleupagus.Scanner.Condition

open Snuffleupagus.Lib.Precedence

/-- The binary operators. The source keeps their first character, or `L` for `<=` and `G` for `>=`. -/
inductive BinOp
  | and | or | lt | gt | le | ge | eq
  deriving DecidableEq

/-- An entry of `cond_op`: `(`, `!` or a binary operator. -/
abbrev SyOp := Item BinOp

/-- A token of a condition; a variable and a call of `extension_loaded` are reduced to their values. -/
abbrev CondToken := Token BinOp ℤ

/-- `MAX_CONDITIONS`. -/
def maxConditions : ℕ := 100

/-- Why a condition is refused. -/
inductive SyError
  | tooComplex | notEnough | unbalanced | invalid | syntaxError
  deriving DecidableEq

/-- The stacks, their tops first, and the cell `cond_res[0]`, which keeps its value when it is popped. -/
structure SyState where
  condRes : List ℤ := []
  condRes0 : ℤ := 1
  condOp : List SyOp := []
  deriving DecidableEq

/-- `sy_res_push`. -/
def syResPush (val : ℤ) (s : SyState) : Except SyError SyState :=
  if maxConditions ≤ s.condRes.length then .error .tooComplex
  else .ok { s with
    condRes := val :: s.condRes, condRes0 := if s.condRes = [] then val else s.condRes0 }

/-- `sy_op_push`. -/
def syOpPush (op : SyOp) (s : SyState) : Except SyError SyState :=
  if maxConditions ≤ s.condOp.length then .error .tooComplex
  else .ok { s with condOp := op :: s.condOp }

/-- `sy_op_precedence`. -/
def syOpPrecedence : SyOp → ℕ
  | .unary => 120
  | .binary .lt | .binary .gt | .binary .le | .binary .ge => 90
  | .binary .and => 70
  | .binary .or => 60
  | .binary .eq => 20
  | .lparen => 0

/-- `sy_op_is_left_assoc`. -/
def syOpIsLeftAssoc : SyOp → Bool
  | .unary => false
  | _ => true

/-- A truth value of C. -/
def ofBool (b : Bool) : ℤ := if b then 1 else 0

/-- `sy_apply_op`. -/
def syApplyOp (op : SyOp) (a b : ℤ) : ℤ :=
  match op with
  | .unary => ofBool (a == 0)
  | .binary .and => ofBool (b != 0 && a != 0)
  | .binary .or => ofBool (b != 0 || a != 0)
  | .binary .lt => ofBool (b < a)
  | .binary .le => ofBool (b ≤ a)
  | .binary .ge => ofBool (b ≥ a)
  | .binary .gt => ofBool (b > a)
  | .binary .eq => ofBool (b == a)
  | .lparen => 0

/-- `SY_APPLY_OP_FROM_STACK`, behind its `sy_op_pop`. -/
def syApplyOpFromStack (op : SyOp) (s : SyState) : Except SyError SyState :=
  match op, s.condRes with
  | .unary, a :: condRes => syResPush (syApplyOp .unary a 0) { s with condRes := condRes }
  | .unary, [] => .error .notEnough
  | op, a :: b :: condRes => syResPush (syApplyOp op a b) { s with condRes := condRes }
  | _, _ => .error .notEnough

/-- The loops over `cond_op`: the operators on top are applied as long as `go` holds of them. -/
def syApplyWhile (go : SyOp → Bool) : List SyOp → SyState → Except SyError SyState
  | [], s => .ok { s with condOp := [] }
  | op :: ops, s =>
    if go op then
      match syApplyOpFromStack op { s with condOp := ops } with
      | .ok s => syApplyWhile go ops s
      | .error e => .error e
    else .ok { s with condOp := op :: ops }

/-- The rule for a binary operator. -/
def syBinary (op1 : BinOp) (s : SyState) : Except SyError SyState := do
  let curPrec := syOpPrecedence (.binary op1)
  let s ← syApplyWhile (fun top => top ≠ .lparen &&
    !(syOpPrecedence top < curPrec ||
      (syOpPrecedence top == curPrec && !syOpIsLeftAssoc (.binary op1)))) s.condOp s
  syOpPush (.binary op1) s

/-- The rule for `)`. -/
def syClose (s : SyState) : Except SyError SyState := do
  let s ← syApplyWhile (· ≠ .lparen) s.condOp s
  match s.condOp with
  | .lparen :: ops => .ok { s with condOp := ops }
  | _ => .error .unbalanced

/-- The rule for `;`. -/
def syEnd (s : SyState) : Except SyError SyState := do
  let s ← syApplyWhile (· ≠ .lparen) s.condOp s
  if s.condOp ≠ [] then .error .unbalanced
  else if s.condRes.length > 1 then .error .invalid
  else .ok s

/-- One token other than `;`; the flag says that an operator is expected. -/
def syToken : CondToken → Bool × SyState → Except SyError (Bool × SyState)
  | .value n, (false, s) => (syResPush n s).map fun s => (true, s)
  | .unary, (false, s) => (syOpPush .unary s).map fun s => (false, s)
  | .lparen, (false, s) => (syOpPush .lparen s).map fun s => (false, s)
  | .binary op, (true, s) => (syBinary op s).map fun s => (false, s)
  | .rparen, (true, s) => (syClose s).map fun s => (true, s)
  | _, _ => .error .syntaxError

/-- All tokens in front of the `;`. -/
def syTokens : List CondToken → Bool × SyState → Except SyError (Bool × SyState)
  | [], q => .ok q
  | t :: ts, q => do
    let q ← syToken t q
    syTokens ts q

/-- `@condition E;`: the condition is evaluated from empty stacks, with any value in `cond_res[0]`. -/
def evalCondition (condRes0 : ℤ) (ts : List CondToken) : Except SyError SyState := do
  match ← syTokens ts (false, { condRes0 := condRes0 }) with
  | (true, s) => syEnd s
  | (false, _) => .error .syntaxError

/-! ### The grammar -/

/-- What a binary operator means, its left operand first. -/
def BinOp.value : BinOp → ℤ → ℤ → ℤ
  | .and, l, r => ofBool (l ≠ 0 ∧ r ≠ 0)
  | .or, l, r => ofBool (l ≠ 0 ∨ r ≠ 0)
  | .lt, l, r => ofBool (l < r)
  | .gt, l, r => ofBool (l > r)
  | .le, l, r => ofBool (l ≤ r)
  | .ge, l, r => ofBool (l ≥ r)
  | .eq, l, r => ofBool (l = r)

/-- The expressions of a condition: the precedences of `sy_op_precedence`, all binary operators to the
left. -/
def operators : Operators BinOp ℤ where
  prec op := syOpPrecedence (.binary op)
  top := syOpPrecedence .unary
  prec_lt op := by cases op <;> decide
  unary v := ofBool (v = 0)
  binary := BinOp.value

theorem syApplyOp_binary (op : BinOp) (a b : ℤ) : syApplyOp (.binary op) a b = operators.binary op b a := by
  cases op <;> simp [syApplyOp, operators, BinOp.value, bne, Bool.beq_eq_decide_eq]

theorem syApplyOp_unary (a b : ℤ) : syApplyOp .unary a b = operators.unary a := by
  simp [syApplyOp, operators, Bool.beq_eq_decide_eq]

/-! ### The loops -/

/-- The operator binds its operands before one of precedence `q` does. -/
def binds (q : ℕ) (top : SyOp) : Bool := top ≠ .lparen && decide (q ≤ syOpPrecedence top)

/-- All operators on top that bind before `q` are applied. -/
def reduce (q : ℕ) (s : SyState) : Except SyError SyState := syApplyWhile (binds q) s.condOp s

theorem syApplyWhile_ne_lparen (s : SyState) : syApplyWhile (· ≠ .lparen) s.condOp s = reduce 0 s := by
  have hgo : (fun top : SyOp => decide (top ≠ .lparen)) = binds 0 := by
    funext top
    simp [binds]
  rw [reduce, ← hgo]

theorem syBinary_eq (op1 : BinOp) (s : SyState) :
    syBinary op1 s = reduce (syOpPrecedence (.binary op1)) s >>= syOpPush (.binary op1) := by
  have hgo : (fun top : SyOp => decide (top ≠ .lparen) &&
      !(decide (syOpPrecedence top < syOpPrecedence (.binary op1)) ||
        (syOpPrecedence top == syOpPrecedence (.binary op1) && !syOpIsLeftAssoc (.binary op1)))) =
      binds (syOpPrecedence (.binary op1)) := by
    funext top
    simp only [binds, syOpIsLeftAssoc, Bool.not_true, Bool.and_false, Bool.or_false, ← decide_not, not_lt]
  unfold syBinary reduce
  rw [← hgo]

section Loops
variable {s s' : SyState}

theorem syBinary_error {op1 : BinOp} {e : SyError} (h : reduce (operators.prec op1) s = .error e) :
    syBinary op1 s = .error e := by
  rw [syBinary_eq, show reduce (syOpPrecedence (.binary op1)) s = .error e from h]
  rfl

theorem syBinary_ok {op1 : BinOp} (h : reduce (operators.prec op1) s = .ok s') :
    syBinary op1 s = syOpPush (.binary op1) s' := by
  rw [syBinary_eq, show reduce (syOpPrecedence (.binary op1)) s = .ok s' from h]
  rfl

theorem syClose_error {e : SyError} (h : reduce 0 s = .error e) : syClose s = .error e := by
  unfold syClose
  rw [syApplyWhile_ne_lparen, h]
  rfl

theorem syClose_nil (h : reduce 0 s = .ok s') (hops : s'.condOp = []) : syClose s = .error .unbalanced := by
  unfold syClose
  rw [syApplyWhile_ne_lparen, h, Lib.Effect.ok_bind, hops]

theorem syClose_lparen {ops : List SyOp} (h : reduce 0 s = .ok s') (hops : s'.condOp = .lparen :: ops) :
    syClose s = .ok { s' with condOp := ops } := by
  unfold syClose
  rw [syApplyWhile_ne_lparen, h, Lib.Effect.ok_bind, hops]

theorem syEnd_error {e : SyError} (h : reduce 0 s = .error e) : syEnd s = .error e := by
  unfold syEnd
  rw [syApplyWhile_ne_lparen, h]
  rfl

theorem syEnd_ok (h : reduce 0 s = .ok s') (hops : s'.condOp = []) (hvs : s'.condRes.length ≤ 1) :
    syEnd s = .ok s' := by
  unfold syEnd
  rw [syApplyWhile_ne_lparen, h, Lib.Effect.ok_bind, if_neg (not_not.mpr hops), if_neg (not_lt.mpr hvs)]

theorem syEnd_unbalanced (h : reduce 0 s = .ok s') (hops : s'.condOp ≠ []) :
    syEnd s = .error .unbalanced := by
  unfold syEnd
  rw [syApplyWhile_ne_lparen, h, Lib.Effect.ok_bind, if_pos hops]

end Loops

/-! ### One operator is applied -/

/-- The state with one more value. -/
def SyState.put (v : ℤ) (s : SyState) : SyState :=
  { s with condRes := v :: s.condRes, condRes0 := if s.condRes = [] then v else s.condRes0 }

theorem syResPush_cases (v : ℤ) (s : SyState) : syResPush v s = .error .tooComplex ∨
    s.condRes.length < maxConditions ∧ syResPush v s = .ok (s.put v) := by
  unfold syResPush
  by_cases h : maxConditions ≤ s.condRes.length
  · exact Or.inl (if_pos h)
  · exact Or.inr ⟨not_le.mp h, if_neg h⟩

theorem syResPush_of_lt {v : ℤ} {s : SyState} (h : s.condRes.length < maxConditions) :
    syResPush v s = .ok (s.put v) := if_neg (not_le.mpr h)

theorem syOpPush_cases (op : SyOp) (s : SyState) : syOpPush op s = .error .tooComplex ∨
    syOpPush op s = .ok { s with condOp := op :: s.condOp } := by
  unfold syOpPush
  split_ifs
  · exact Or.inl rfl
  · exact Or.inr rfl

theorem syApplyOpFromStack_unary {s : SyState} {a : ℤ} {vs : List ℤ} (h : s.condRes = a :: vs) :
    syApplyOpFromStack .unary s = syResPush (operators.unary a) { s with condRes := vs } := by
  unfold syApplyOpFromStack
  rw [h]
  exact congrArg (syResPush · _) (syApplyOp_unary a 0)

theorem syApplyOpFromStack_binary {op : BinOp} {s : SyState} {a b : ℤ} {vs : List ℤ}
    (h : s.condRes = a :: b :: vs) :
    syApplyOpFromStack (.binary op) s = syResPush (operators.binary op b a) { s with condRes := vs } := by
  unfold syApplyOpFromStack
  rw [h]
  exact congrArg (syResPush · _) (syApplyOp_binary op a b)

/-! ### What is accepted is an expression -/

/-- The stacks of the state, once the tokens have been read; the flag says that an operator is
expected. -/
def Inv (ts : List CondToken) : Bool × SyState → Prop
  | (false, s) => Pending operators ts s.condRes s.condOp
  | (true, s) => Operand operators operators.top ts s.condRes s.condOp

theorem operand_syApplyWhile {q : ℕ} {ts : List CondToken} :
    ∀ (ops : List SyOp) {p : ℕ} {s : SyState}, Operand operators p ts s.condRes ops → q ≤ p →
      syApplyWhile (binds q) ops s = .error .tooComplex ∨
      ∃ s' p', syApplyWhile (binds q) ops s = .ok s' ∧ q ≤ p' ∧
        Operand operators p' ts s'.condRes s'.condOp ∧ ∀ top ∈ s'.condOp.head?, binds q top = false
  | [], p, s, h, hq => Or.inr ⟨_, p, rfl, hq, h, fun _ h => by cases h⟩
  | op :: ops, p, s, h, hq => by
    cases hb : binds q op with
    | false =>
      refine Or.inr ⟨{ s with condOp := op :: ops }, p, by simp [syApplyWhile, hb], hq, h, ?_⟩
      rintro top ⟨⟩
      exact hb
    | true =>
      have hle : q ≤ syOpPrecedence op := by
        simp only [binds, Bool.and_eq_true, decide_eq_true_eq] at hb
        exact hb.2
      have hstep : ∀ {v : ℤ} {s₁ : SyState} {p₁ : ℕ},
          syApplyOpFromStack op { s with condOp := ops } = syResPush v s₁ →
          Operand operators p₁ ts (v :: s₁.condRes) ops → q ≤ p₁ →
          syApplyWhile (binds q) (op :: ops) s = .error .tooComplex ∨
          ∃ s' p', syApplyWhile (binds q) (op :: ops) s = .ok s' ∧ q ≤ p' ∧
            Operand operators p' ts s'.condRes s'.condOp ∧ ∀ top ∈ s'.condOp.head?, binds q top = false := by
        intro v s₁ p₁ happ hop hq₁
        rw [syApplyWhile, if_pos hb, happ]
        rcases syResPush_cases v s₁ with he | ⟨-, ho⟩
        · rw [he]
          exact Or.inl rfl
        · rw [ho]
          exact operand_syApplyWhile ops (s := s₁.put v) hop hq₁
      cases op with
      | lparen => simp [binds] at hb
      | unary =>
        obtain ⟨a, vs, hvs⟩ := List.exists_cons_of_ne_nil h.ne_nil
        rw [hvs] at h
        exact hstep (syApplyOpFromStack_unary hvs) h.unary hle
      | binary op =>
        obtain ⟨r, l, vs, hvs, hop⟩ := h.binary
        exact hstep (syApplyOpFromStack_binary hvs) hop hle

/-- The errors that leave nothing to explain: the input is no expression, or the stacks are full. -/
def Expected (e : SyError) : Prop := e ≠ .notEnough ∧ e ≠ .invalid

theorem expected_of {e : SyError} (h : e = .tooComplex ∨ e = .unbalanced ∨ e = .syntaxError) : Expected e := by
  rcases h with rfl | rfl | rfl <;> exact ⟨nofun, nofun⟩

/-- An operator that leaves the top of the stack alone may be put there. -/
theorem admits_of_not_binds {op : BinOp} {ops : List SyOp}
    (h : ∀ top ∈ ops.head?, binds (syOpPrecedence (.binary op)) top = false) :
    Admits operators ops op := by
  rcases ops with _ | ⟨top, ops⟩
  · exact Nat.zero_le _
  · have htop := h top rfl
    cases top with
    | lparen => exact Nat.zero_le _
    | unary =>
      have hlt := operators.prec_lt op
      simp only [binds, Bool.and_eq_false_iff, decide_eq_false_iff_not] at htop
      exact absurd (le_of_lt hlt) (htop.resolve_left (by simp))
    | binary op' =>
      simp only [binds, Bool.and_eq_false_iff, decide_eq_false_iff_not] at htop
      exact not_le.mp (htop.resolve_left (by simp))

/-- Only a parenthesis stays on top. -/
theorem top_of_not_binds {ops : List SyOp} (h : ∀ top ∈ ops.head?, binds 0 top = false) :
    ops = [] ∨ ∃ ops', ops = .lparen :: ops' := by
  rcases ops with _ | ⟨top, ops⟩
  · exact Or.inl rfl
  · have htop := h top rfl
    simp only [binds, Nat.zero_le, decide_true, Bool.and_true, decide_eq_false_iff_not, not_not] at htop
    exact Or.inr ⟨ops, by rw [htop]⟩

theorem inv_operand {ts : List CondToken} {s : SyState} (h : Pending operators ts s.condRes s.condOp)
    (t : CondToken) : (∃ q', syToken t (false, s) = .ok q' ∧ Inv (ts ++ [t]) q') ∨
      ∃ e, syToken t (false, s) = .error e ∧ Expected e := by
  cases t with
  | value v =>
    rcases syResPush_cases v s with he | ⟨-, ho⟩
    · exact Or.inr ⟨_, by rw [syToken, he]; rfl, expected_of (Or.inl rfl)⟩
    · exact Or.inl ⟨(true, s.put v), by rw [syToken, ho]; rfl, h.value v⟩
  | unary =>
    rcases syOpPush_cases .unary s with he | ho
    · exact Or.inr ⟨_, by rw [syToken, he]; rfl, expected_of (Or.inl rfl)⟩
    · exact Or.inl ⟨(false, { s with condOp := .unary :: s.condOp }), by rw [syToken, ho]; rfl, h.unary⟩
  | lparen =>
    rcases syOpPush_cases .lparen s with he | ho
    · exact Or.inr ⟨_, by rw [syToken, he]; rfl, expected_of (Or.inl rfl)⟩
    · exact Or.inl ⟨(false, { s with condOp := .lparen :: s.condOp }), by rw [syToken, ho]; rfl, h.lparen⟩
  | binary op => exact Or.inr ⟨_, rfl, expected_of (Or.inr (Or.inr rfl))⟩
  | rparen => exact Or.inr ⟨_, rfl, expected_of (Or.inr (Or.inr rfl))⟩

theorem inv_operator {ts : List CondToken} {s : SyState}
    (h : Operand operators operators.top ts s.condRes s.condOp) (t : CondToken) :
    (∃ q', syToken t (true, s) = .ok q' ∧ Inv (ts ++ [t]) q') ∨
      ∃ e, syToken t (true, s) = .error e ∧ Expected e := by
  cases t with
  | value v => exact Or.inr ⟨_, rfl, expected_of (Or.inr (Or.inr rfl))⟩
  | unary => exact Or.inr ⟨_, rfl, expected_of (Or.inr (Or.inr rfl))⟩
  | lparen => exact Or.inr ⟨_, rfl, expected_of (Or.inr (Or.inr rfl))⟩
  | binary op =>
    have hrun : syToken (.binary op) (true, s) = (syBinary op s).map fun s => (false, s) := rfl
    rcases operand_syApplyWhile s.condOp h (le_of_lt (operators.prec_lt op)) with
      he | ⟨s', p', ho, hp', hop, hhead⟩
    · exact Or.inr ⟨_, by rw [hrun, syBinary_error he]; rfl, expected_of (Or.inl rfl)⟩
    · rw [hrun, syBinary_ok ho]
      rcases syOpPush_cases (.binary op) s' with he | ho
      · exact Or.inr ⟨_, by rw [he]; rfl, expected_of (Or.inl rfl)⟩
      · exact Or.inl ⟨(false, { s' with condOp := .binary op :: s'.condOp }), by rw [ho]; rfl,
          hop.push hp' (admits_of_not_binds hhead)⟩
  | rparen =>
    have hrun : syToken .rparen (true, s) = (syClose s).map fun s => (true, s) := rfl
    rcases operand_syApplyWhile s.condOp h (Nat.zero_le _) with he | ⟨s', p', ho, -, hop, hhead⟩
    · exact Or.inr ⟨_, by rw [hrun, syClose_error he]; rfl, expected_of (Or.inl rfl)⟩
    · rcases top_of_not_binds hhead with hnil | ⟨ops, hops⟩
      · exact Or.inr ⟨_, by rw [hrun, syClose_nil ho hnil]; rfl, expected_of (Or.inr (Or.inl rfl))⟩
      · rw [hops] at hop
        exact Or.inl ⟨(true, { s' with condOp := ops }), by rw [hrun, syClose_lparen ho hops]; rfl, hop.close⟩

theorem inv_syTokens : ∀ (us : List CondToken) {ts : List CondToken} {q : Bool × SyState}, Inv ts q →
    (∃ q', syTokens us q = .ok q' ∧ Inv (ts ++ us) q') ∨ ∃ e, syTokens us q = .error e ∧ Expected e
  | [], ts, q, h => Or.inl ⟨q, rfl, by rw [List.append_nil]; exact h⟩
  | t :: us, ts, (b, s), h => by
    have hstep : (∃ q', syToken t (b, s) = .ok q' ∧ Inv (ts ++ [t]) q') ∨
        ∃ e, syToken t (b, s) = .error e ∧ Expected e := by
      cases b with
      | false => exact inv_operand h t
      | true => exact inv_operator h t
    unfold syTokens
    rcases hstep with ⟨q', hq', hinv⟩ | ⟨e, he, hexp⟩
    · rw [hq']
      have hrest := inv_syTokens us hinv
      rw [List.append_assoc] at hrest
      exact hrest
    · rw [he]
      exact Or.inr ⟨e, rfl, hexp⟩

/-- **What the evaluation ends with**: the value of an expression, or an error that is none of
`not enough input` and `invalid condition`. -/
theorem evalCondition_sound (c : ℤ) (ts : List CondToken) :
    (∃ s e, evalCondition c ts = .ok s ∧ Parses operators 0 ts e ∧ s.condRes = [e.value operators]) ∨
      ∃ e, evalCondition c ts = .error e ∧ Expected e := by
  have hstart : Inv [] (false, { condRes0 := c }) := Pending.nil
  unfold evalCondition
  rcases inv_syTokens ts hstart with ⟨⟨b, s⟩, hrun, hinv⟩ | ⟨e, he, hexp⟩
  · rw [hrun]
    rw [List.nil_append] at hinv
    cases b with
    | false => exact Or.inr ⟨_, rfl, expected_of (Or.inr (Or.inr rfl))⟩
    | true =>
      have hinv : Operand operators operators.top ts s.condRes s.condOp := hinv
      show (∃ s' e, syEnd s = .ok s' ∧ Parses operators 0 ts e ∧ s'.condRes = [e.value operators]) ∨
        ∃ e, syEnd s = .error e ∧ Expected e
      rcases operand_syApplyWhile s.condOp hinv (Nat.zero_le _) with he | ⟨s', p', ho, -, hop, hhead⟩
      · exact Or.inr ⟨_, syEnd_error he, expected_of (Or.inl rfl)⟩
      · rcases top_of_not_binds hhead with hnil | ⟨ops, hops⟩
        · rw [hnil] at hop
          obtain ⟨e, hparse, hvs⟩ := hop.parses
          exact Or.inl ⟨s', e, syEnd_ok ho hnil (by rw [hvs]; exact le_rfl), hparse, hvs⟩
        · exact Or.inr ⟨_, syEnd_unbalanced ho (by rw [hops]; exact List.cons_ne_nil _ _),
            expected_of (Or.inr (Or.inl rfl))⟩
  · rw [he]
    exact Or.inr ⟨e, rfl, hexp⟩

/-! ### An expression is accepted -/

theorem syTokens_append : ∀ (ts us : List CondToken) (q : Bool × SyState),
    syTokens (ts ++ us) q = syTokens ts q >>= syTokens us
  | [], _, _ => rfl
  | t :: ts, us, q => by
    rw [List.cons_append]
    unfold syTokens
    cases syToken t q with
    | error e => rfl
    | ok q' => exact syTokens_append ts us q'

/-- Nothing on the stack binds before the operator. -/
theorem reduce_of_admits {op : BinOp} {s : SyState} (h : Admits operators s.condOp op) :
    reduce (operators.prec op) s = .ok s := by
  unfold reduce
  rcases hops : s.condOp with _ | ⟨top, ops⟩
  · unfold syApplyWhile
    rw [← hops]
  · rw [hops] at h
    have htop : binds (operators.prec op) top = false := by
      cases top with
      | lparen => rfl
      | unary => exact absurd (le_trans (operators.prec_lt op) h) (Nat.not_succ_le_self _)
      | binary op' =>
        have hlt : ¬ operators.prec op ≤ operators.prec op' := not_le.mpr h
        exact Bool.and_eq_false_imp.mpr fun _ => decide_eq_false hlt
    unfold syApplyWhile
    rw [if_neg (by rw [htop]; exact Bool.false_ne_true), ← hops]

/-- Both ways of putting the result in the place of its operands leave the same cell `cond_res[0]`. -/
theorem put_put (u v : ℤ) (s : SyState) :
    SyState.put u { s with condRes0 := if s.condRes = [] then v else s.condRes0 } = s.put u := by
  unfold SyState.put
  split_ifs <;> rfl

theorem reduce_unary {q : ℕ} {s : SyState} {v : ℤ} (hq : q ≤ operators.top)
    (hlen : s.condRes.length < maxConditions) :
    reduce q (SyState.put v { s with condOp := .unary :: s.condOp }) = reduce q (s.put (operators.unary v)) := by
  have hb : binds q .unary = true := decide_eq_true hq
  have happ : syApplyOpFromStack .unary { SyState.put v { s with condOp := .unary :: s.condOp } with
      condOp := s.condOp } = .ok (s.put (operators.unary v)) := by
    rw [syApplyOpFromStack_unary rfl]
    exact (@syResPush_of_lt (operators.unary v)
      { s with condRes0 := if s.condRes = [] then v else s.condRes0 } hlen).trans
        (congrArg Except.ok (put_put _ v s))
  unfold reduce
  show syApplyWhile (binds q) (.unary :: s.condOp) _ = syApplyWhile (binds q) s.condOp _
  conv_lhs => unfold syApplyWhile
  rw [if_pos hb, happ]

theorem reduce_binary {q : ℕ} {s : SyState} {l r : ℤ} {op : BinOp} (hq : q ≤ operators.prec op)
    (hlen : s.condRes.length < maxConditions) :
    reduce q (SyState.put r { s.put l with condOp := .binary op :: s.condOp }) =
      reduce q (s.put (operators.binary op l r)) := by
  have hb : binds q (.binary op) = true := decide_eq_true hq
  have happ : syApplyOpFromStack (.binary op)
      { SyState.put r { s.put l with condOp := .binary op :: s.condOp } with condOp := s.condOp } =
        .ok (s.put (operators.binary op l r)) := by
    rw [syApplyOpFromStack_binary rfl]
    exact (@syResPush_of_lt (operators.binary op l r)
      { s with condRes0 := if s.condRes = [] then l else s.condRes0 } hlen).trans
        (congrArg Except.ok (put_put _ l s))
  unfold reduce
  show syApplyWhile (binds q) (.binary op :: s.condOp) _ = syApplyWhile (binds q) s.condOp _
  conv_lhs => unfold syApplyWhile
  rw [if_pos hb, happ]

/-- The tokens of an expression leave a state that any operator binding at most as close as the
expression makes the one with its value. -/
theorem syTokens_of_parses {p : ℕ} {ts : List CondToken} {e : Expr BinOp ℤ} (h : Parses operators p ts e) :
    p ≤ operators.top → ∀ s : SyState, level operators s.condOp ≤ p →
      syTokens ts (false, s) = .error .tooComplex ∨
      ∃ s', syTokens ts (false, s) = .ok (true, s') ∧ s.condRes.length < maxConditions ∧
        ∀ q ≤ p, reduce q s' = reduce q (s.put (e.value operators)) := by
  induction h with
  | value v =>
    intro _ s _
    rcases syResPush_cases v s with he | ⟨hlen, ho⟩
    · exact Or.inl (by simp only [syTokens, syToken, he]; rfl)
    · exact Or.inr ⟨s.put v, by simp only [syTokens, syToken, ho]; rfl, hlen, fun _ _ => rfl⟩
  | @unary p ts e _ ih =>
    intro hp s _
    rcases syOpPush_cases .unary s with he | ho
    · exact Or.inl (by simp only [syTokens, syToken, he]; rfl)
    · have hrun : syTokens (.unary :: ts) (false, s) =
          syTokens ts (false, { s with condOp := .unary :: s.condOp }) := by
        simp only [syTokens, syToken, ho]
        rfl
      rw [hrun]
      refine (ih le_rfl _ le_rfl).imp_right ?_
      rintro ⟨s', hs', hlen, hred⟩
      refine ⟨s', hs', hlen, fun q hq => ?_⟩
      have hq' := le_trans hq hp
      exact (hred q hq').trans (@reduce_unary q s (e.value operators) hq' hlen)
  | @paren p ts e _ ih =>
    intro _ s _
    rcases syOpPush_cases .lparen s with he | ho
    · exact Or.inl (by simp only [syTokens, syToken, he]; rfl)
    · have hrun : syTokens (.lparen :: (ts ++ [.rparen])) (false, s) =
          syTokens ts (false, { s with condOp := .lparen :: s.condOp }) >>= syTokens [.rparen] := by
        rw [← syTokens_append]
        simp only [syTokens, syToken, ho]
        rfl
      rw [hrun]
      rcases ih (Nat.zero_le _) { s with condOp := .lparen :: s.condOp } le_rfl with
        he | ⟨s', hs', hlen, hred⟩
      · exact Or.inl (by rw [he]; rfl)
      · have hclose : syClose s' = .ok (s.put (e.value operators)) := syClose_lparen (hred 0 le_rfl) rfl
        refine Or.inr ⟨s.put (e.value operators), ?_, hlen, fun _ _ => rfl⟩
        rw [hs']
        simp only [Lib.Effect.ok_bind, syTokens, syToken, hclose]
        rfl
  | @binary p op ts us l r hp _ _ ihl ihr =>
    intro _ s hs
    have hrun : syTokens (ts ++ .binary op :: us) (false, s) =
        syTokens ts (false, s) >>= syTokens (.binary op :: us) := syTokens_append _ _ _
    rw [hrun]
    rcases ihl (le_of_lt (operators.prec_lt op)) s (le_trans hs hp) with he | ⟨s₁, hs₁, hlen, hred⟩
    · exact Or.inl (by rw [he]; rfl)
    · -- the left operand is complete, and the operator goes on the stack
      have hput : reduce (operators.prec op) s₁ = .ok (s.put (l.value operators)) := by
        rw [hred _ le_rfl]
        exact reduce_of_admits (le_trans hs hp)
      have hnext : syTokens (.binary op :: us) (true, s₁) =
          (syOpPush (.binary op) (s.put (l.value operators))).map (fun s => (false, s)) >>= syTokens us := by
        rw [← syBinary_ok hput]
        rfl
      rw [hs₁, Lib.Effect.ok_bind, hnext]
      rcases syOpPush_cases (.binary op) (s.put (l.value operators)) with he | ho
      · exact Or.inl (by rw [he]; rfl)
      · rw [ho]
        refine (ihr (operators.prec_lt op) _ le_rfl).imp_right ?_
        rintro ⟨s', hs', hlen', hred'⟩
        refine ⟨s', hs', hlen, fun q hq => ?_⟩
        have hq' := le_trans hq hp
        rw [hred' q (Nat.le_succ_of_le hq')]
        exact reduce_binary hq' hlen

theorem evalCondition_complete (c : ℤ) {ts : List CondToken} {e : Expr BinOp ℤ}
    (h : Parses operators 0 ts e) : evalCondition c ts = .error .tooComplex ∨
      evalCondition c ts = .ok { condRes := [e.value operators], condRes0 := e.value operators } := by
  unfold evalCondition
  rcases syTokens_of_parses h (Nat.zero_le _) { condRes0 := c } le_rfl with he | ⟨s', hs', -, hred⟩
  · exact Or.inl (by rw [he]; rfl)
  · rw [hs']
    exact Or.inr (syEnd_ok (hred 0 le_rfl) rfl le_rfl)

/-! ### The result -/

/-- **The conditions that are accepted are the expressions, and what is left is the value**, as long as
neither stack overflows; neither `not enough input` nor `invalid condition` can be the answer. -/
theorem condition_correct (c : ℤ) (ts : List CondToken)
    (hsmall : evalCondition c ts ≠ .error .tooComplex) :
    ((∃ s, evalCondition c ts = .ok s) ↔ ∃ e, Parses operators 0 ts e) ∧
    (∀ e, Parses operators 0 ts e →
      evalCondition c ts = .ok { condRes := [e.value operators], condRes0 := e.value operators }) ∧
    evalCondition c ts ≠ .error .notEnough ∧ evalCondition c ts ≠ .error .invalid := by
  have hcomplete : ∀ e, Parses operators 0 ts e →
      evalCondition c ts = .ok { condRes := [e.value operators], condRes0 := e.value operators } :=
    fun e h => (evalCondition_complete c h).resolve_left hsmall
  refine ⟨⟨?_, fun ⟨e, he⟩ => ⟨_, hcomplete e he⟩⟩, hcomplete, ?_, ?_⟩
  · rintro ⟨s, hs⟩
    rcases evalCondition_sound c ts with ⟨_, e, -, hparse, -⟩ | ⟨e, he, -⟩
    · exact ⟨e, hparse⟩
    · rw [hs] at he
      cases he
  · intro hbad
    rcases evalCondition_sound c ts with ⟨s, e, hs, -⟩ | ⟨e, he, hexp⟩
    · rw [hs] at hbad
      cases hbad
    · rw [he] at hbad
      exact hexp.1 (Except.error.inj hbad)
  · intro hbad
    rcases evalCondition_sound c ts with ⟨s, e, hs, -⟩ | ⟨e, he, hexp⟩
    · rw [hs] at hbad
      cases hbad
    · rw [he] at hbad
      exact hexp.2 (Except.error.inj hbad)

/-- `!0 && 2 < 3`. -/
theorem condition_correct_sample :
    ((∃ s, evalCondition 1 [.unary, .value 0, .binary .and, .value 2, .binary .lt, .value 3] = .ok s) ↔
      ∃ e, Parses operators 0 [.unary, .value 0, .binary .and, .value 2, .binary .lt, .value 3] e) ∧
    (∀ e, Parses operators 0 [.unary, .value 0, .binary .and, .value 2, .binary .lt, .value 3] e →
      evalCondition 1 [.unary, .value 0, .binary .and, .value 2, .binary .lt, .value 3] =
        .ok { condRes := [e.value operators], condRes0 := e.value operators }) ∧
    evalCondition 1 [.unary, .value 0, .binary .and, .value 2, .binary .lt, .value 3] ≠ .error .notEnough ∧
    evalCondition 1 [.unary, .value 0, .binary .and, .value 2, .binary .lt, .value 3] ≠ .error .invalid :=
  condition_correct 1 _ (by decide)

end Snuffleupagus.Scanner.Condition
