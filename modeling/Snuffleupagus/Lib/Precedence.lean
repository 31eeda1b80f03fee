import Mathlib.Data.List.Basic
import Mathlib.Data.Nat.Basic

/-! # Expressions with precedences

Expressions of values, one unary operator in front of its operand, binary operators between theirs, and
parentheses. Every binary operator has a precedence and associates to the left; the unary one binds
closer than all of them. `Parses p ts e` says that the tokens `ts` are the expression `e`, with no binary
operator of a precedence below `p` outside of parentheses.

A parser that keeps the operators it has not applied yet on a stack has read a prefix of the tokens
which is `Pending` for that stack, or one behind which an operand is complete (`Operand`). -/

namespace Snuffleupagus.Lib.Precedence

/-- The precedences of the operators, and what they mean. -/
structure Operators (β ν : Type) where
  prec : β → ℕ
  /-- The precedence of the unary operator. -/
  top : ℕ
  prec_lt : ∀ op, prec op < top
  unary : ν → ν
  /-- The left operand comes first. -/
  binary : β → ν → ν → ν

/-- The tokens of an expression. -/
inductive Token (β ν : Type)
  | value (v : ν)
  | unary
  | binary (op : β)
  | lparen
  | rparen

/-- An expression, without its parentheses. -/
inductive Expr (β ν : Type)
  | lit (v : ν)
  | unary (e : Expr β ν)
  | binary (op : β) (l r : Expr β ν)

/-- What is on the stack of operators. -/
inductive Item (β : Type)
  | lparen
  | unary
  | binary (op : β)
  deriving DecidableEq

variable {β ν : Type} (M : Operators β ν)

/-- The value of an expression. -/
def Expr.value : Expr β ν → ν
  | .lit v => v
  | .unary e => M.unary (e.value)
  | .binary op l r => M.binary op (l.value) (r.value)

/-- The tokens are the expression, at the level `p`. -/
inductive Parses : ℕ → List (Token β ν) → Expr β ν → Prop
  | value {p : ℕ} (v : ν) : Parses p [.value v] (.lit v)
  | unary {p : ℕ} {ts : List (Token β ν)} {e : Expr β ν} (h : Parses M.top ts e) :
      Parses p (.unary :: ts) (.unary e)
  | paren {p : ℕ} {ts : List (Token β ν)} {e : Expr β ν} (h : Parses 0 ts e) :
      Parses p (.lparen :: (ts ++ [.rparen])) e
  | binary {p : ℕ} {op : β} {ts us : List (Token β ν)} {l r : Expr β ν} (hp : p ≤ M.prec op)
      (hl : Parses (M.prec op) ts l) (hr : Parses (M.prec op + 1) us r) :
      Parses p (ts ++ .binary op :: us) (.binary op l r)

variable {M}

theorem Parses.mono {p q : ℕ} {ts : List (Token β ν)} {e : Expr β ν} (h : Parses M p ts e) (hq : q ≤ p) :
    Parses M q ts e := by
  cases h with
  | value v => exact .value v
  | unary h => exact .unary h
  | paren h => exact .paren h
  | binary hp hl hr => exact .binary (le_trans hq hp) hl hr

variable (M)

/-- The level at which the next operand has to be parsed. -/
def level : List (Item β) → ℕ
  | .unary :: _ => M.top
  | .binary op :: _ => M.prec op + 1
  | _ => 0

/-- A binary operator may be put on the stack: whatever it covers binds less. -/
def Admits (ops : List (Item β)) (op : β) : Prop := level M ops ≤ M.prec op

/-- The tokens read so far end in front of an operand. The values on the stack are those of the left
operands of its binary operators. -/
inductive Pending : List (Token β ν) → List ν → List (Item β) → Prop
  | nil : Pending [] [] []
  | lparen {ts : List (Token β ν)} {vs : List ν} {ops : List (Item β)} (h : Pending ts vs ops) :
      Pending (ts ++ [.lparen]) vs (.lparen :: ops)
  | unary {ts : List (Token β ν)} {vs : List ν} {ops : List (Item β)} (h : Pending ts vs ops) :
      Pending (ts ++ [.unary]) vs (.unary :: ops)
  | binary {ts us : List (Token β ν)} {vs : List ν} {ops : List (Item β)} {op : β} {e : Expr β ν}
      (h : Pending ts vs ops) (hop : Admits M ops op) (he : Parses M (M.prec op) us e) :
      Pending (ts ++ us ++ [.binary op]) (e.value M :: vs) (.binary op :: ops)

/-- The tokens read so far end behind an operand, parsed at the level `p`. -/
def Operand (p : ℕ) (ts : List (Token β ν)) (vs : List ν) (ops : List (Item β)) : Prop :=
  ∃ us ws e vs', ts = us ++ ws ∧ vs = e.value M :: vs' ∧ Pending M us vs' ops ∧ Parses M p ws e ∧
    level M ops ≤ p

variable {M} {p q : ℕ} {ts : List (Token β ν)} {vs : List ν} {ops : List (Item β)}

theorem level_le_top : level M ops ≤ M.top := by
  rcases ops with _ | ⟨_ | _ | op, ops⟩
  · exact Nat.zero_le _
  · exact Nat.zero_le _
  · exact le_rfl
  · exact M.prec_lt op

theorem Pending.value (h : Pending M ts vs ops) (v : ν) :
    Operand M M.top (ts ++ [.value v]) (v :: vs) ops :=
  ⟨ts, [.value v], .lit v, vs, rfl, rfl, h, .value v, level_le_top⟩

/-- The unary operator on top is applied. -/
theorem Operand.unary {v : ν} (h : Operand M p ts (v :: vs) (.unary :: ops)) :
    Operand M M.top ts (M.unary v :: vs) ops := by
  obtain ⟨us, ws, e, vs', rfl, hv, hpend, hparse, hle⟩ := h
  obtain ⟨rfl, rfl⟩ := List.cons_eq_cons.mp hv
  cases hpend with
  | @unary ts₁ _ _ hpend =>
    exact ⟨ts₁, .unary :: ws, .unary e, vs, by simp, rfl, hpend, .unary (hparse.mono hle), level_le_top⟩

/-- The binary operator on top is applied, to the two values on top. -/
theorem Operand.binary {op : β} (h : Operand M p ts vs (.binary op :: ops)) :
    ∃ r l vs', vs = r :: l :: vs' ∧ Operand M (M.prec op) ts (M.binary op l r :: vs') ops := by
  obtain ⟨us, ws, e, vs', rfl, rfl, hpend, hparse, hle⟩ := h
  cases hpend with
  | @binary ts₁ us₁ vs₁ _ _ e₁ hpend hop he =>
    exact ⟨_, _, vs₁, rfl, ts₁, us₁ ++ .binary op :: ws, .binary op e₁ e, vs₁, by simp, rfl, hpend,
      .binary le_rfl he (hparse.mono hle), hop⟩

/-- A binary operator behind an operand that may be its left one. -/
theorem Operand.push {op : β} (h : Operand M p ts vs ops) (hp : M.prec op ≤ p) (hop : Admits M ops op) :
    Pending M (ts ++ [.binary op]) vs (.binary op :: ops) := by
  obtain ⟨us, ws, e, vs', rfl, rfl, hpend, hparse, -⟩ := h
  exact .binary hpend hop (hparse.mono hp)

/-- A closing parenthesis, once only its partner is left on top. -/
theorem Operand.close (h : Operand M p ts vs (.lparen :: ops)) :
    Operand M M.top (ts ++ [.rparen]) vs ops := by
  obtain ⟨us, ws, e, vs', rfl, rfl, hpend, hparse, -⟩ := h
  cases hpend with
  | @lparen ts₁ _ _ hpend =>
    exact ⟨ts₁, .lparen :: (ws ++ [.rparen]), e, vs', by simp, rfl, hpend,
      .paren (hparse.mono (Nat.zero_le _)), level_le_top⟩

/-- With no operator left the tokens are an expression. -/
theorem Operand.parses (h : Operand M p ts vs []) : ∃ e, Parses M 0 ts e ∧ vs = [e.value M] := by
  obtain ⟨us, ws, e, vs', rfl, rfl, hpend, hparse, -⟩ := h
  cases hpend
  exact ⟨e, by simpa using hparse.mono (Nat.zero_le p), rfl⟩

/-- Behind an operand there is a value. -/
theorem Operand.ne_nil (h : Operand M p ts vs ops) : vs ≠ [] := by
  obtain ⟨_, _, _, _, -, rfl, -⟩ := h
  exact List.cons_ne_nil _ _

end Snuffleupagus.Lib.Precedence
