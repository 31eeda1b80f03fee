import Snuffleupagus.Lib.Precedence

/-! # Expressions read from left to right

`reduceStacks` and `runStacks` are the parser with two stacks, of the operators that are not applied yet and of values.
Whatever expression some tokens are, they leave its value (`runStacks_of_parses`), so that no tokens are two expressions
with different values (`Parses.value_eq`).

A chain is a list of operands with binary operators between them, outside of parentheses. If some operators (`order`,
from the lowest precedence up) have precedences of their own, and all others share the highest one, at most one left
operand of each of them is pending. `evalChain` goes through a chain with these, and comes to the value of the expression
(`Pend.close`, `Pend.shift`). -/

namespace Snuffleupagus.Lib.Precedence

variable {β ν : Type} (M : Operators β ν)

/-! ### Two stacks -/

/-- The operators on top that bind at least as close as `q` are applied. -/
def reduceStacks (q : ℕ) : List (Item β) → List ν → List (Item β) × List ν
  | .unary :: ops, v :: vs => reduceStacks q ops (M.unary v :: vs)
  | .binary op :: ops, r :: l :: vs =>
    if q ≤ M.prec op then reduceStacks q ops (M.binary op l r :: vs) else (.binary op :: ops, r :: l :: vs)
  | ops, vs => (ops, vs)

/-- One token. -/
def stepStacks (s : List (Item β) × List ν) : Token β ν → List (Item β) × List ν
  | .value v => (s.1, v :: s.2)
  | .unary => (.unary :: s.1, s.2)
  | .lparen => (.lparen :: s.1, s.2)
  | .binary op => (.binary op :: (reduceStacks M (M.prec op) s.1 s.2).1, (reduceStacks M (M.prec op) s.1 s.2).2)
  | .rparen => ((reduceStacks M 0 s.1 s.2).1.tail, (reduceStacks M 0 s.1 s.2).2)

def runStacks (ts : List (Token β ν)) (s : List (Item β) × List ν) : List (Item β) × List ν :=
  ts.foldl (stepStacks M) s

section Run
variable {M} {p : ℕ} {ts : List (Token β ν)} {e e' : Expr β ν}

/-- Nothing on top binds as close as an operator that may be put there. -/
theorem reduceStacks_of_admits {ops : List (Item β)} {op : β} (h : Admits M ops op) (vs : List ν) :
    reduceStacks M (M.prec op) ops vs = (ops, vs) := by
  have hlt := M.prec_lt op
  rcases ops with _ | ⟨_ | _ | op', ops⟩
  · rfl
  · rfl
  · exact absurd h (not_le.mpr hlt)
  · have hle : ¬M.prec op ≤ M.prec op' := not_le.mpr h
    rcases vs with _ | ⟨r, _ | ⟨l, vs⟩⟩
    · rfl
    · rfl
    · exact if_neg hle

/-- **The tokens of an expression leave its value**, as far as operators that bind at most as close as the expression can
tell. -/
theorem runStacks_of_parses (h : Parses M p ts e) : p ≤ M.top → ∀ ops vs, level M ops ≤ p → ∀ q ≤ p,
    reduceStacks M q (runStacks M ts (ops, vs)).1 (runStacks M ts (ops, vs)).2 =
      reduceStacks M q ops (e.value M :: vs) := by
  induction h with
  | value v => exact fun _ ops vs _ q _ => rfl
  | @unary p ts e _ ih => exact fun hp ops vs _ q hq => ih le_rfl (.unary :: ops) vs le_rfl q (le_trans hq hp)
  | @paren p ts e _ ih =>
    intro _ ops vs _ q _
    have hinner := ih (Nat.zero_le _) (.lparen :: ops) vs le_rfl 0 le_rfl
    have hrun : runStacks M (.lparen :: (ts ++ [.rparen])) (ops, vs) =
        stepStacks M (runStacks M ts (.lparen :: ops, vs)) .rparen := by
      simp [runStacks, stepStacks]
    rw [hrun]
    unfold stepStacks
    dsimp only
    rw [hinner]
    rfl
  | @binary p op ts us l r hp _ _ ihl ihr =>
    intro _ ops vs hlevel q hq
    have hleft := ihl (le_of_lt (M.prec_lt op)) ops vs (le_trans hlevel hp) (M.prec op) le_rfl
    rw [reduceStacks_of_admits (le_trans hlevel hp)] at hleft
    have hrun : runStacks M (ts ++ .binary op :: us) (ops, vs) =
        runStacks M us (.binary op :: ops, l.value M :: vs) := by
      unfold runStacks at hleft ⊢
      rw [List.foldl_append, List.foldl_cons]
      exact congrArg (us.foldl (stepStacks M)) (by rw [stepStacks, hleft])
    rw [hrun, ihr (M.prec_lt op) (.binary op :: ops) (l.value M :: vs) le_rfl q
      (le_trans hq (le_trans hp (Nat.le_succ _)))]
    exact if_pos (le_trans hq hp)

/-- **No tokens have two values.** -/
theorem Parses.value_eq (h : Parses M 0 ts e) (h' : Parses M 0 ts e') : e.value M = e'.value M := by
  have hrun := (runStacks_of_parses h (Nat.zero_le _) [] [] le_rfl 0 le_rfl).symm.trans
    (runStacks_of_parses h' (Nat.zero_le _) [] [] le_rfl 0 le_rfl)
  exact (List.cons.inj (Prod.mk.inj hrun).2).1

end Run

/-! ### Chains -/

/-- The value of a chain so far: the pending left operands, by the order of the operators, and the current one. -/
def closeWith (binary : β → ν → ν → ν) : List β → List (Option ν) → ν → ν
  | op :: order, some l :: pending, v => binary op l (closeWith binary order pending v)
  | _ :: order, none :: pending, v => closeWith binary order pending v
  | _, _, v => v

/-- The current operand becomes a left operand of `op`. -/
def shift [DecidableEq β] (binary : β → ν → ν → ν) (op : β) : List β → List (Option ν) → ν → List (Option ν)
  | o :: order, a :: pending, v =>
    if o = op then some (closeWith binary (o :: order) (a :: pending) v) :: order.map fun _ => none
    else a :: shift binary op order pending v
  | _, _, _ => []

/-- A chain from left to right. The operators that are not in the order are applied at once. -/
def evalChain [DecidableEq β] (binary : β → ν → ν → ν) (order : List β) : List (Option ν) → ν → List (β × ν) → ν
  | pending, v, [] => closeWith binary order pending v
  | pending, v, (op, u) :: rest =>
    if op ∈ order then evalChain binary order (shift binary op order pending v) u rest
    else evalChain binary order pending (binary op v u) rest

/-- The tokens of pending left operands, with their operators. -/
inductive Pend : List β → List (Option ν) → List (Token β ν) → Prop
  | nil : Pend [] [] []
  | skip {o : β} {order : List β} {pending : List (Option ν)} {ts : List (Token β ν)} (h : Pend order pending ts) :
      Pend (o :: order) (none :: pending) ts
  | left {o : β} {order : List β} {pending : List (Option ν)} {us ts : List (Token β ν)} {e : Expr β ν}
      (he : Parses M (M.prec o) us e) (h : Pend order pending ts) :
      Pend (o :: order) (some (e.value M) :: pending) (us ++ .binary o :: ts)

/-- The precedences of the operators in the order, and the one that all others share. -/
structure Ordered (order : List β) (high : ℕ) : Prop where
  sorted : order.Pairwise fun o o' => M.prec o < M.prec o'
  low : ∀ o ∈ order, M.prec o < high
  high : ∀ o, o ∉ order → M.prec o = high

section Pend
variable {M} {order : List β} {pending : List (Option ν)} {ts us : List (Token β ν)} {e : Expr β ν} {high p : ℕ}

theorem Pend.nones (order : List β) : Pend M order (order.map fun _ => none) [] := by
  induction order with
  | nil => exact .nil
  | cons o order ih => exact .skip ih

/-- **The chain so far is an expression**, with the current operand at its end. -/
theorem Pend.close (h : Pend M order pending ts) (hsorted : order.Pairwise fun o o' => M.prec o < M.prec o')
    (hp : ∀ o ∈ order, p ≤ M.prec o) (hlow : ∀ o ∈ order, M.prec o < high) (hle : p ≤ high)
    (he : Parses M high us e) :
    ∃ e', Parses M p (ts ++ us) e' ∧ e'.value M = closeWith M.binary order pending (e.value M) := by
  induction h generalizing p with
  | nil => exact ⟨e, he.mono hle, rfl⟩
  | @skip o order pending ts _ ih =>
    rw [List.pairwise_cons] at hsorted
    rw [List.forall_mem_cons] at hp hlow
    exact ih hsorted.2 hp.2 hlow.2 hle
  | @left o order pending us' ts e₁ he₁ _ ih =>
    rw [List.pairwise_cons] at hsorted
    rw [List.forall_mem_cons] at hp hlow
    obtain ⟨e', hparse, hvalue⟩ := @ih (M.prec o + 1) hsorted.2 hsorted.1 hlow.2 hlow.1
    refine ⟨.binary o e₁ e', ?_, congrArg (M.binary o (e₁.value M)) hvalue⟩
    rw [List.append_assoc, List.cons_append]
    exact .binary hp.1 he₁ hparse

/-- **An operator of the order** takes what is not closed off by a lower one. -/
theorem Pend.shift [DecidableEq β] {op : β} (h : Pend M order pending ts) (hop : op ∈ order)
    (hsorted : order.Pairwise fun o o' => M.prec o < M.prec o') (hlow : ∀ o ∈ order, M.prec o < high)
    (he : Parses M high us e) :
    Pend M order (Precedence.shift M.binary op order pending (e.value M)) (ts ++ us ++ [.binary op]) := by
  have hclosed : ∀ {o order pending ts}, Pend M (o :: order) pending ts →
      (o :: order).Pairwise (fun o o' => M.prec o < M.prec o') → (∀ o' ∈ o :: order, M.prec o' < high) →
      Pend M (o :: order) (some (closeWith M.binary (o :: order) pending (e.value M)) :: order.map fun _ => none)
        (ts ++ us ++ [.binary o]) := by
    intro o order pending ts h hsorted hlow
    have hp : ∀ o' ∈ o :: order, M.prec o ≤ M.prec o' := by
      rw [List.pairwise_cons] at hsorted
      rw [List.forall_mem_cons]
      exact ⟨le_rfl, fun o' ho' => le_of_lt (hsorted.1 o' ho')⟩
    obtain ⟨e', hparse, hvalue⟩ := h.close hsorted hp hlow (le_of_lt (hlow o List.mem_cons_self)) he
    rw [← hvalue]
    exact .left hparse (.nones order)
  induction h with
  | nil => cases hop
  | @skip o order pending ts h ih =>
    unfold Precedence.shift
    split_ifs with ho
    · subst ho
      exact hclosed (.skip h) hsorted hlow
    · rw [List.pairwise_cons] at hsorted
      rw [List.forall_mem_cons] at hlow
      exact .skip (ih ((List.mem_cons.mp hop).resolve_left (Ne.symm ho)) hsorted.2 hlow.2)
  | @left o order pending us' ts e₁ he₁ h ih =>
    unfold Precedence.shift
    split_ifs with ho
    · subst ho
      exact hclosed (.left he₁ h) hsorted hlow
    · rw [List.pairwise_cons] at hsorted
      rw [List.forall_mem_cons] at hlow
      have hrest := ih ((List.mem_cons.mp hop).resolve_left (Ne.symm ho)) hsorted.2 hlow.2
      rw [List.append_assoc us', List.cons_append, List.append_assoc us', List.cons_append]
      exact .left he₁ hrest

end Pend

end Snuffleupagus.Lib.Precedence
