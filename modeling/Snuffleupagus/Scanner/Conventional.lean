import Snuffleupagus.Lib.Chain
import Snuffleupagus.Scanner.Condition

/-! # Conditions with the precedences of C

In C, as in PHP, `==` binds closer than `&&`, and `&&` closer than `||`. The scanner gives `==` the lowest precedence of
all. A condition is taken here as what is written (`Cond`): operands with operators between them, and parentheses; these
are all the expressions (`exists_cond`). It has a value for each order of the operators (`Cond.eval`, `Cond.parses`), and
the two are the same if no level of parentheses has `==` next to `&&` or `||` (`Cond.eval_of_unmixed`). -/

namespace Snuffleupagus.Scanner.Conventional

open Snuffleupagus.Lib.Precedence
open Snuffleupagus.Scanner.Condition

/-- The precedences of C, from `||` up. -/
def conventionalPrecedence : BinOp → ℕ
  | .or => 60
  | .and => 70
  | .eq => 80
  | .lt | .gt | .le | .ge => 90

/-- The expressions of C. -/
def conventional : Operators BinOp ℤ where
  prec := conventionalPrecedence
  top := 120
  prec_lt op := by cases op <;> decide
  unary := operators.unary
  binary := operators.binary

/-! ### What is written -/

mutual

/-- An operand: a value, a negation, or a condition in parentheses. -/
inductive Factor
  | lit (v : ℤ)
  | not (u : Factor)
  | paren (u : Factor) (rest : Rest)

/-- Operators, each with the operand behind it. -/
inductive Rest
  | nil
  | cons (op : BinOp) (u : Factor) (rest : Rest)

end

/-- A condition. -/
structure Cond where
  first : Factor
  rest : Rest

mutual

def Factor.tokens : Factor → List CondToken
  | .lit v => [.value v]
  | .not u => .unary :: u.tokens
  | .paren u rest => .lparen :: (u.tokens ++ rest.tokens ++ [.rparen])

def Rest.tokens : Rest → List CondToken
  | .nil => []
  | .cons op u rest => .binary op :: (u.tokens ++ rest.tokens)

end

def Cond.tokens (c : Cond) : List CondToken := c.first.tokens ++ c.rest.tokens

mutual

/-- The same is written, but for the values. -/
def Factor.Same : Factor → Factor → Prop
  | .lit _, .lit _ => True
  | .not u, .not u' => u.Same u'
  | .paren u rest, .paren u' rest' => u.Same u' ∧ rest.Same rest'
  | _, _ => False

def Rest.Same : Rest → Rest → Prop
  | .nil, .nil => True
  | .cons op u rest, .cons op' u' rest' => op = op' ∧ u.Same u' ∧ rest.Same rest'
  | _, _ => False

end

def Cond.Same (c c' : Cond) : Prop := c.first.Same c'.first ∧ c.rest.Same c'.rest

/-- The operators outside of parentheses. -/
def Rest.ops : Rest → List BinOp
  | .nil => []
  | .cons op _ rest => op :: rest.ops

/-- `==` next to `&&` or `||`. -/
def Mixed (ops : List BinOp) : Prop := .eq ∈ ops ∧ (.and ∈ ops ∨ .or ∈ ops)

mutual

/-- No level of parentheses is mixed. -/
def Factor.Unmixed : Factor → Prop
  | .lit _ => True
  | .not u => u.Unmixed
  | .paren u rest => ¬Mixed rest.ops ∧ u.Unmixed ∧ rest.Unmixed

def Rest.Unmixed : Rest → Prop
  | .nil => True
  | .cons _ u rest => u.Unmixed ∧ rest.Unmixed

end

def Cond.Unmixed (c : Cond) : Prop := ¬Mixed c.rest.ops ∧ c.first.Unmixed ∧ c.rest.Unmixed

instance (ops : List BinOp) : Decidable (Mixed ops) := by
  unfold Mixed; infer_instance

mutual

def Factor.decidableUnmixed : ∀ u : Factor, Decidable u.Unmixed
  | .lit _ => .isTrue trivial
  | .not u => Factor.decidableUnmixed u
  | .paren _ rest =>
    @instDecidableAnd _ _ inferInstance (@instDecidableAnd _ _ (Factor.decidableUnmixed _) (Rest.decidableUnmixed rest))

def Rest.decidableUnmixed : ∀ rest : Rest, Decidable rest.Unmixed
  | .nil => .isTrue trivial
  | .cons _ u rest => @instDecidableAnd _ _ (Factor.decidableUnmixed u) (Rest.decidableUnmixed rest)

end

instance (c : Cond) : Decidable c.Unmixed :=
  @instDecidableAnd _ _ inferInstance
    (@instDecidableAnd _ _ (Factor.decidableUnmixed c.first) (Rest.decidableUnmixed c.rest))

/-! ### Its value -/

/-- The operators that are not relations, from the lowest precedence up: those of the scanner, and those of C. -/
def scannerOrder : List BinOp := [.eq, .or, .and]

def conventionalOrder : List BinOp := [.or, .and, .eq]

mutual

/-- The value by the precedences of an order. -/
def Factor.eval (order : List BinOp) : Factor → ℤ
  | .lit v => v
  | .not u => operators.unary (u.eval order)
  | .paren u rest =>
    evalChain operators.binary order (order.map fun _ => none) (u.eval order) (rest.evals order)

def Rest.evals (order : List BinOp) : Rest → List (BinOp × ℤ)
  | .nil => []
  | .cons op u rest => (op, u.eval order) :: rest.evals order

end

def Cond.eval (order : List BinOp) (c : Cond) : ℤ :=
  evalChain operators.binary order (order.map fun _ => none) (c.first.eval order) (c.rest.evals order)

theorem ordered_scannerOrder : Ordered operators scannerOrder 90 :=
  ⟨by decide, by decide, fun o ho => by cases o <;> first | rfl | exact absurd ho (by decide)⟩

theorem ordered_conventionalOrder : Ordered conventional conventionalOrder 90 :=
  ⟨by decide, by decide, fun o ho => by cases o <;> first | rfl | exact absurd ho (by decide)⟩

section Parses
variable {M : Operators BinOp ℤ} {order : List BinOp} {high : ℕ}

mutual

/-- **An operand is an expression** with the value it has by the order of the table. -/
theorem Factor.parses (ho : Ordered M order high) (hhigh : high < M.top) (hunary : M.unary = operators.unary)
    (hbinary : M.binary = operators.binary) :
    ∀ u : Factor, ∃ e, Parses M M.top u.tokens e ∧ e.value M = u.eval order
  | .lit v => ⟨.lit v, .value v, rfl⟩
  | .not u => by
    obtain ⟨e, hparse, hvalue⟩ := Factor.parses ho hhigh hunary hbinary u
    refine ⟨.unary e, .unary hparse, ?_⟩
    rw [Expr.value, hvalue, hunary, Factor.eval]
  | .paren u rest => by
    obtain ⟨e, hparse, hvalue⟩ := Factor.parses ho hhigh hunary hbinary u
    obtain ⟨e', hparse', hvalue'⟩ :=
      Rest.parses ho hhigh hunary hbinary rest (.nones order) (hparse.mono (le_of_lt hhigh))
    refine ⟨e', .paren hparse', ?_⟩
    rw [hvalue', hvalue, Factor.eval]

/-- **What is behind an operand**, with the left operands that are pending. -/
theorem Rest.parses (ho : Ordered M order high) (hhigh : high < M.top) (hunary : M.unary = operators.unary)
    (hbinary : M.binary = operators.binary) : ∀ (rest : Rest) {pending : List (Option ℤ)} {ts us : List CondToken}
    {e : Expr BinOp ℤ}, Pend M order pending ts → Parses M high us e →
      ∃ e', Parses M 0 (ts ++ us ++ rest.tokens) e' ∧
        e'.value M = evalChain operators.binary order pending (e.value M) (rest.evals order)
  | .nil, pending, ts, us, e, hpend, he => by
    obtain ⟨e', hparse, hvalue⟩ :=
      hpend.close ho.sorted (fun _ _ => Nat.zero_le _) ho.low (Nat.zero_le _) he
    refine ⟨e', ?_, ?_⟩
    · rw [Rest.tokens, List.append_nil]
      exact hparse
    · rw [hvalue, hbinary]
      rfl
  | .cons op u rest, pending, ts, us, e, hpend, he => by
    obtain ⟨e₁, hparse₁, hvalue₁⟩ := Factor.parses ho hhigh hunary hbinary u
    by_cases hop : op ∈ order
    · obtain ⟨e', hparse, hvalue⟩ := Rest.parses ho hhigh hunary hbinary rest
        (hpend.shift hop ho.sorted ho.low he) (hparse₁.mono (le_of_lt hhigh))
      refine ⟨e', ?_, ?_⟩
      · simpa [Rest.tokens] using hparse
      · rw [hvalue, hvalue₁, hbinary, Rest.evals, evalChain, if_pos hop]
    · have hprec := ho.high op hop
      have hrel : Parses M high (us ++ .binary op :: u.tokens) (.binary op e e₁) :=
        .binary (le_of_eq hprec.symm) (hprec ▸ he) (hparse₁.mono (by omega))
      obtain ⟨e', hparse, hvalue⟩ := Rest.parses ho hhigh hunary hbinary rest hpend hrel
      refine ⟨e', ?_, ?_⟩
      · simpa [Rest.tokens] using hparse
      · rw [hvalue, Expr.value, hvalue₁, hbinary, Rest.evals, evalChain, if_neg hop]

end

theorem Cond.parses (ho : Ordered M order high) (hhigh : high < M.top) (hunary : M.unary = operators.unary)
    (hbinary : M.binary = operators.binary) (c : Cond) :
    ∃ e, Parses M 0 c.tokens e ∧ e.value M = c.eval order := by
  obtain ⟨e, hparse, hvalue⟩ := c.first.parses ho hhigh hunary hbinary
  obtain ⟨e', hparse', hvalue'⟩ :=
    c.rest.parses ho hhigh hunary hbinary (.nones order) (hparse.mono (le_of_lt hhigh))
  exact ⟨e', hparse', by rw [hvalue', hvalue]; rfl⟩

end Parses

/-! ### Every expression -/

def Rest.append : Rest → Rest → Rest
  | .nil, rest' => rest'
  | .cons op u rest, rest' => .cons op u (rest.append rest')

theorem Rest.append_tokens (rest' : Rest) : ∀ rest : Rest, (rest.append rest').tokens = rest.tokens ++ rest'.tokens
  | .nil => rfl
  | .cons op u rest => by simp [Rest.append, Rest.tokens, Rest.append_tokens rest' rest]

/-- **Every expression is a condition**, and one operand if a unary operator may stand in front of it. -/
theorem exists_cond {M : Operators BinOp ℤ} {p : ℕ} {ts : List CondToken} {e : Expr BinOp ℤ} (h : Parses M p ts e) :
    (∃ c : Cond, c.tokens = ts) ∧ (p = M.top → ∃ u : Factor, u.tokens = ts) := by
  have hoperand : ∀ u : Factor, ∃ c : Cond, c.tokens = u.tokens := by
    intro u
    exact ⟨⟨u, .nil⟩, by simp [Cond.tokens, Rest.tokens]⟩
  induction h with
  | value v => exact ⟨hoperand (.lit v), fun _ => ⟨.lit v, rfl⟩⟩
  | unary _ ih =>
    obtain ⟨u, rfl⟩ := ih.2 rfl
    exact ⟨hoperand (.not u), fun _ => ⟨.not u, rfl⟩⟩
  | paren _ ih =>
    obtain ⟨⟨u, rest⟩, rfl⟩ := ih.1
    exact ⟨hoperand (.paren u rest), fun _ => ⟨.paren u rest, rfl⟩⟩
  | @binary p op ts us l r hp _ _ ihl ihr =>
    obtain ⟨⟨u, rest⟩, rfl⟩ := ihl.1
    obtain ⟨⟨u', rest'⟩, rfl⟩ := ihr.1
    refine ⟨⟨⟨u, rest.append (.cons op u' rest')⟩, ?_⟩, ?_⟩
    · simp [Cond.tokens, Rest.append_tokens, Rest.tokens]
    · intro htop
      have hlt := M.prec_lt op
      omega

/-! ### The same value -/

section Chain
variable {binary : BinOp → ℤ → ℤ → ℤ}

theorem evalChain_scanner_cons (op : BinOp) (e o a : Option ℤ) (v u : ℤ) (l : List (BinOp × ℤ)) :
    evalChain binary scannerOrder [e, o, a] v ((op, u) :: l) =
      match op with
      | .eq => evalChain binary scannerOrder [some (closeWith binary scannerOrder [e, o, a] v), none, none] u l
      | .or => evalChain binary scannerOrder [e, some (closeWith binary [.or, .and] [o, a] v), none] u l
      | .and => evalChain binary scannerOrder [e, o, some (closeWith binary [.and] [a] v)] u l
      | op => evalChain binary scannerOrder [e, o, a] (binary op v u) l := by
  cases op <;> rfl

theorem evalChain_conventional_cons (op : BinOp) (o a e : Option ℤ) (v u : ℤ) (l : List (BinOp × ℤ)) :
    evalChain binary conventionalOrder [o, a, e] v ((op, u) :: l) =
      match op with
      | .or => evalChain binary conventionalOrder [some (closeWith binary conventionalOrder [o, a, e] v), none, none] u l
      | .and => evalChain binary conventionalOrder [o, some (closeWith binary [.and, .eq] [a, e] v), none] u l
      | .eq => evalChain binary conventionalOrder [o, a, some (closeWith binary [.eq] [e] v)] u l
      | op => evalChain binary conventionalOrder [o, a, e] (binary op v u) l := by
  cases op <;> rfl

/-- **Without `==`** both tables say the same. -/
theorem evalChain_of_not_eq (o a : Option ℤ) (v : ℤ) (l : List (BinOp × ℤ)) (h : BinOp.eq ∉ l.map Prod.fst) :
    evalChain binary scannerOrder [none, o, a] v l = evalChain binary conventionalOrder [o, a, none] v l := by
  induction l generalizing o a v with
  | nil => cases o <;> cases a <;> rfl
  | cons q l ih =>
    obtain ⟨op, u⟩ := q
    rw [List.map_cons, List.mem_cons, not_or] at h
    have hor : closeWith binary [.or, .and] [o, a] v = closeWith binary conventionalOrder [o, a, none] v := by
      cases o <;> cases a <;> rfl
    have hand : closeWith binary [.and] [a] v = closeWith binary [.and, .eq] [a, none] v := by
      cases a <;> rfl
    rw [evalChain_scanner_cons, evalChain_conventional_cons]
    cases op with
    | eq => exact absurd rfl h.1
    | or => simp only [hor, ih _ _ _ h.2]
    | and => simp only [hand, ih _ _ _ h.2]
    | lt | gt | le | ge => exact ih _ _ _ h.2

/-- **Without `&&` and `||`**, too. -/
theorem evalChain_of_not_logical (e : Option ℤ) (v : ℤ) (l : List (BinOp × ℤ)) (hand : BinOp.and ∉ l.map Prod.fst)
    (hor : BinOp.or ∉ l.map Prod.fst) :
    evalChain binary scannerOrder [e, none, none] v l = evalChain binary conventionalOrder [none, none, e] v l := by
  induction l generalizing e v with
  | nil => cases e <;> rfl
  | cons q l ih =>
    obtain ⟨op, u⟩ := q
    rw [List.map_cons, List.mem_cons, not_or] at hand hor
    have heq : closeWith binary scannerOrder [e, none, none] v = closeWith binary [.eq] [e] v := by
      cases e <;> rfl
    rw [evalChain_scanner_cons, evalChain_conventional_cons]
    cases op with
    | eq => simp only [heq, ih _ _ hand.2 hor.2]
    | or => exact absurd rfl hor.1
    | and => exact absurd rfl hand.1
    | lt | gt | le | ge => exact ih _ _ hand.2 hor.2

end Chain

theorem Rest.map_evals (order : List BinOp) : ∀ rest : Rest, (rest.evals order).map Prod.fst = rest.ops
  | .nil => rfl
  | .cons op _ rest => congrArg (op :: ·) (Rest.map_evals order rest)

/-- **A level of parentheses that is not mixed** has the same value by both tables. -/
theorem evalChain_of_not_mixed (v : ℤ) {l : List (BinOp × ℤ)} (h : ¬Mixed (l.map Prod.fst)) :
    evalChain operators.binary scannerOrder (scannerOrder.map fun _ => none) v l =
      evalChain operators.binary conventionalOrder (conventionalOrder.map fun _ => none) v l := by
  by_cases heq : BinOp.eq ∈ l.map Prod.fst
  · have hlogical := not_or.mp fun hlogical => h ⟨heq, hlogical⟩
    exact evalChain_of_not_logical none v l hlogical.1 hlogical.2
  · exact evalChain_of_not_eq none none v l heq

mutual

theorem Factor.eval_of_unmixed : ∀ {u : Factor}, u.Unmixed → u.eval scannerOrder = u.eval conventionalOrder
  | .lit _, _ => rfl
  | .not _, h => congrArg operators.unary (Factor.eval_of_unmixed h)
  | .paren u rest, h => by
    obtain ⟨hmixed, hu, hrest⟩ := h
    rw [← rest.map_evals conventionalOrder] at hmixed
    rw [Factor.eval, Factor.eval, Rest.evals_of_unmixed hrest, evalChain_of_not_mixed _ hmixed,
      Factor.eval_of_unmixed hu]

theorem Rest.evals_of_unmixed : ∀ {rest : Rest}, rest.Unmixed → rest.evals scannerOrder = rest.evals conventionalOrder
  | .nil, _ => rfl
  | .cons op u rest, h => by
    rw [Rest.evals, Rest.evals, Factor.eval_of_unmixed h.1, Rest.evals_of_unmixed h.2]

end

/-- **A condition with no mixed level** has the value that C gives it. -/
theorem Cond.eval_of_unmixed {c : Cond} (h : c.Unmixed) : c.eval scannerOrder = c.eval conventionalOrder := by
  obtain ⟨hmixed, hu, hrest⟩ := h
  rw [← c.rest.map_evals conventionalOrder] at hmixed
  rw [Cond.eval, Cond.eval, Rest.evals_of_unmixed hrest, evalChain_of_not_mixed _ hmixed, Factor.eval_of_unmixed hu]

/-! ### The same but for the values -/

mutual

theorem Factor.same_self : ∀ u : Factor, u.Same u
  | .lit _ => trivial
  | .not u => Factor.same_self u
  | .paren u rest => ⟨Factor.same_self u, Rest.same_self rest⟩

theorem Rest.same_self : ∀ rest : Rest, rest.Same rest
  | .nil => trivial
  | .cons _ u rest => ⟨rfl, Factor.same_self u, Rest.same_self rest⟩

end

theorem Rest.Same.ops : ∀ {rest rest' : Rest}, rest.Same rest' → rest.ops = rest'.ops
  | .nil, .nil, _ => rfl
  | .cons op u rest, .cons op' u' rest', h => by
    rw [Rest.ops, Rest.ops, h.1, Rest.Same.ops h.2.2]

mutual

theorem Factor.Same.unmixed : ∀ {u u' : Factor}, u.Same u' → (u.Unmixed ↔ u'.Unmixed)
  | .lit _, .lit _, _ => Iff.rfl
  | .not u, .not u', h => @Factor.Same.unmixed u u' h
  | .paren u rest, .paren u' rest', h => by
    rw [Factor.Unmixed, Factor.Unmixed, h.2.ops, @Factor.Same.unmixed u u' h.1, @Rest.Same.unmixed rest rest' h.2]

theorem Rest.Same.unmixed : ∀ {rest rest' : Rest}, rest.Same rest' → (rest.Unmixed ↔ rest'.Unmixed)
  | .nil, .nil, _ => Iff.rfl
  | .cons op u rest, .cons op' u' rest', h => by
    rw [Rest.Unmixed, Rest.Unmixed, @Factor.Same.unmixed u u' h.2.1, @Rest.Same.unmixed rest rest' h.2.2]

end

theorem Cond.Same.unmixed {c c' : Cond} (h : c.Same c') : c.Unmixed ↔ c'.Unmixed := by
  rw [Cond.Unmixed, Cond.Unmixed, h.2.ops, h.1.unmixed, h.2.unmixed]

end Snuffleupagus.Scanner.Conventional
