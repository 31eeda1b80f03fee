import Snuffleupagus.Scanner.Stacks

/-! # Where the precedences show

A condition with `==` next to `&&` or `||` on one level of parentheses has operands for which the value the scanner
computes is not that of C. `scanned` and `usual` are the two ways to read a level, over truth values; `exists_differ` finds
the operands of a level that is mixed, and `exists_through` those that let a difference inside of a level that is not mixed
through to its value. So the values are those of C for all operands exactly if no level is mixed (`precedence_iff`), unless
the condition is refused. -/

namespace Snuffleupagus.Scanner.Conventional

open Snuffleupagus.Lib.Precedence
open Snuffleupagus.Scanner.Condition

/-- A binary operator on truth values. -/
def holds : BinOp → Bool → Bool → Bool
  | .and, l, r => l && r
  | .or, l, r => l || r
  | .lt, l, r => !l && r
  | .gt, l, r => l && !r
  | .le, l, r => !l || r
  | .ge, l, r => l || !r
  | .eq, l, r => l == r

/-- A level by the table of the scanner: the left operands of `==`, of `||` and of `&&`, and the current one. -/
def scanned (e o a r : Bool) : List (BinOp × Bool) → Bool
  | [] => e == (o || (a && r))
  | (.eq, x) :: l => scanned (e == (o || (a && r))) false true x l
  | (.or, x) :: l => scanned e (o || (a && r)) true x l
  | (.and, x) :: l => scanned e o (a && r) x l
  | (op, x) :: l => scanned e o a (holds op r x) l

/-- A level by the table of C: the left operands of `||`, of `&&` and of `==`, and the current one. -/
def usual (o a e r : Bool) : List (BinOp × Bool) → Bool
  | [] => o || (a && (e == r))
  | (.or, x) :: l => usual (o || (a && (e == r))) true true x l
  | (.and, x) :: l => usual o (a && (e == r)) true x l
  | (.eq, x) :: l => usual o a (e == r) x l
  | (op, x) :: l => usual o a e (holds op r x) l

theorem binary_ofBool (op : BinOp) (l r : Bool) : operators.binary op (ofBool l) (ofBool r) = ofBool (holds op l r) := by
  cases op <;> cases l <;> cases r <;> rfl

/-- The operands of a level, as truth values. -/
def truths (l : List (BinOp × Bool)) : List (BinOp × ℤ) := l.map fun q => (q.1, ofBool q.2)

theorem evalChain_scanned (e o a : Option Bool) (r : Bool) (l : List (BinOp × Bool)) :
    evalChain operators.binary scannerOrder [e.map ofBool, o.map ofBool, a.map ofBool] (ofBool r) (truths l) =
      ofBool (scanned (e.getD true) (o.getD false) (a.getD true) r l) := by
  induction l generalizing e o a r with
  | nil => rcases e with _ | _ | _ <;> rcases o with _ | _ | _ <;> rcases a with _ | _ | _ <;> cases r <;> rfl
  | cons q l ih =>
    obtain ⟨op, x⟩ := q
    have hand : closeWith operators.binary [.and] [a.map ofBool] (ofBool r) = ofBool (a.getD true && r) := by
      rcases a with _ | _ | _ <;> cases r <;> rfl
    have hor : closeWith operators.binary [.or, .and] [o.map ofBool, a.map ofBool] (ofBool r) =
        ofBool (o.getD false || (a.getD true && r)) := by
      rcases o with _ | _ | _ <;> rcases a with _ | _ | _ <;> cases r <;> rfl
    have heq : closeWith operators.binary scannerOrder [e.map ofBool, o.map ofBool, a.map ofBool] (ofBool r) =
        ofBool (e.getD true == (o.getD false || (a.getD true && r))) := by
      rcases e with _ | _ | _ <;> rcases o with _ | _ | _ <;> rcases a with _ | _ | _ <;> cases r <;> rfl
    rw [truths, List.map_cons, evalChain_scanner_cons]
    cases op with
    | eq =>
      simp only [heq]
      exact ih (some _) none none x
    | or =>
      simp only [hor]
      exact ih e (some _) none x
    | and =>
      simp only [hand]
      exact ih e o (some _) x
    | lt | gt | le | ge =>
      simp only [binary_ofBool]
      exact ih e o a _

theorem evalChain_usual (o a e : Option Bool) (r : Bool) (l : List (BinOp × Bool)) :
    evalChain operators.binary conventionalOrder [o.map ofBool, a.map ofBool, e.map ofBool] (ofBool r) (truths l) =
      ofBool (usual (o.getD false) (a.getD true) (e.getD true) r l) := by
  induction l generalizing o a e r with
  | nil => rcases o with _ | _ | _ <;> rcases a with _ | _ | _ <;> rcases e with _ | _ | _ <;> cases r <;> rfl
  | cons q l ih =>
    obtain ⟨op, x⟩ := q
    have heq : closeWith operators.binary [.eq] [e.map ofBool] (ofBool r) = ofBool (e.getD true == r) := by
      rcases e with _ | _ | _ <;> cases r <;> rfl
    have hand : closeWith operators.binary [.and, .eq] [a.map ofBool, e.map ofBool] (ofBool r) =
        ofBool (a.getD true && (e.getD true == r)) := by
      rcases a with _ | _ | _ <;> rcases e with _ | _ | _ <;> cases r <;> rfl
    have hor : closeWith operators.binary conventionalOrder [o.map ofBool, a.map ofBool, e.map ofBool] (ofBool r) =
        ofBool (o.getD false || (a.getD true && (e.getD true == r))) := by
      rcases o with _ | _ | _ <;> rcases a with _ | _ | _ <;> rcases e with _ | _ | _ <;> cases r <;> rfl
    rw [truths, List.map_cons, evalChain_conventional_cons]
    cases op with
    | or =>
      simp only [hor]
      exact ih (some _) none none x
    | and =>
      simp only [hand]
      exact ih o (some _) none x
    | eq =>
      simp only [heq]
      exact ih o a (some _) x
    | lt | gt | le | ge =>
      simp only [binary_ofBool]
      exact ih o a e _

/-! ### Operands for a level -/

theorem scanned_relation {op : BinOp} (hop : op ∉ scannerOrder) (e o a r x : Bool) (l : List (BinOp × Bool)) :
    scanned e o a r ((op, x) :: l) = scanned e o a (holds op r x) l := by
  cases op <;> first | rfl | exact absurd (by decide) hop

theorem usual_relation {op : BinOp} (hop : op ∉ scannerOrder) (o a e r x : Bool) (l : List (BinOp × Bool)) :
    usual o a e r ((op, x) :: l) = usual o a e (holds op r x) l := by
  cases op <;> first | rfl | exact absurd (by decide) hop

/-- A relation with one operand given follows the other one. -/
theorem exists_follow {op : BinOp} (hop : op ∉ scannerOrder) :
    (∃ x c, ∀ r, holds op r x = (r == c)) ∧ ∃ r c, ∀ x, holds op r x = (x == c) := by
  cases op with
  | eq | or | and => exact absurd (by decide) hop
  | lt => exact ⟨⟨true, false, by decide⟩, false, true, by decide⟩
  | gt => exact ⟨⟨false, true, by decide⟩, true, false, by decide⟩
  | le => exact ⟨⟨false, false, by decide⟩, true, true, by decide⟩
  | ge => exact ⟨⟨true, true, by decide⟩, false, false, by decide⟩

/-- Whatever a relation is to come to, there are operands for it. -/
theorem exists_relation {op : BinOp} (hop : op ∉ scannerOrder) (r : Bool) :
    ∃ r' x, (∀ l e o a, scanned e o a r' ((op, x) :: l) = scanned e o a r l) ∧
      ∀ l o a e, usual o a e r' ((op, x) :: l) = usual o a e r l := by
  obtain ⟨-, r', c, hr'⟩ := exists_follow hop
  have hholds : holds op r' (r == c) = r := by
    rw [hr']
    cases r <;> cases c <;> rfl
  refine ⟨r', r == c, fun l e o a => ?_, fun l o a e => ?_⟩
  · rw [scanned_relation hop, hholds]
  · rw [usual_relation hop, hholds]

theorem operator_cases (op : BinOp) : op = .eq ∨ op = .or ∨ op = .and ∨ op ∉ scannerOrder := by
  cases op <;> decide

/-- A relation in front does not count. -/
theorem mem_of_relation {op op' : BinOp} {ops : List BinOp} (hop : op ∉ scannerOrder) (hop' : op' ∈ scannerOrder) :
    op' ∈ op :: ops ↔ op' ∈ ops := by
  rw [List.mem_cons]
  exact or_iff_right fun h => hop (h ▸ hop')

/-- Without `==`, the operands behind some operator can stand for one value. -/
theorem exists_given : ∀ (ops : List BinOp), .eq ∉ ops → ∀ b : Bool, ∃ r l, l.map Prod.fst = ops ∧
    ∀ e o a, scanned e o a r l = (e == (o || (a && b)))
  | [], _, b => ⟨b, [], rfl, fun _ _ _ => rfl⟩
  | op :: ops, h, b => by
    rw [List.mem_cons, not_or] at h
    rcases operator_cases op with rfl | rfl | rfl | hop
    · exact absurd rfl h.1
    · obtain ⟨r, l, rfl, hvalue⟩ := exists_given ops h.2 false
      exact ⟨b, (.or, r) :: l, rfl, by simp [scanned, hvalue]⟩
    · obtain ⟨r, l, rfl, hvalue⟩ := exists_given ops h.2 true
      exact ⟨b, (.and, r) :: l, rfl, by simp [scanned, hvalue]⟩
    · obtain ⟨r, l, rfl, hvalue⟩ := exists_given ops h.2 b
      obtain ⟨r', x, hscanned, -⟩ := exists_relation hop r
      exact ⟨r', (op, x) :: l, rfl, fun e o a => (hscanned l e o a).trans (hvalue e o a)⟩

/-- All terms are true: the scanner gets the left operand of `==`. -/
theorem exists_ones : ∀ ops : List BinOp, ∃ r l, l.map Prod.fst = ops ∧
    ∀ e o a o' a' e', (o || a) = true → (o' = true ∨ .or ∈ ops ∨ (a' && e') = true) →
      scanned e o a r l = e ∧ usual o' a' e' r l = true
  | [] => by
    refine ⟨true, [], rfl, fun e o a o' a' e' hoa h => ?_⟩
    simp only [scanned, usual, Bool.and_true, beq_true, hoa]
    rcases h with h | h | h
    · simp [h]
    · cases h
    · simp [h]
  | op :: ops => by
    obtain ⟨r, l, rfl, hvalue⟩ := exists_ones ops
    rcases operator_cases op with rfl | rfl | rfl | hop
    · refine ⟨true, (.eq, r) :: l, rfl, fun e o a o' a' e' hoa h => ?_⟩
      simp only [scanned, usual, Bool.and_true, beq_true, hoa]
      exact hvalue e false true o' a' e' rfl (by simpa using h)
    · refine ⟨true, (.or, r) :: l, rfl, fun e o a o' a' e' hoa _ => ?_⟩
      simp only [scanned, usual, Bool.and_true, beq_true, hoa]
      exact hvalue e true true _ true true rfl (.inr (.inr rfl))
    · refine ⟨true, (.and, r) :: l, rfl, fun e o a o' a' e' hoa h => ?_⟩
      simp only [scanned, usual, Bool.and_true, beq_true]
      exact hvalue e o a o' (a' && e') true hoa (by simpa using h)
    · obtain ⟨r', x, hscanned, husual⟩ := exists_relation hop r
      refine ⟨r', (op, x) :: l, rfl, fun e o a o' a' e' hoa h => ?_⟩
      rw [hscanned, husual]
      rw [mem_of_relation hop (by decide)] at h
      exact hvalue e o a o' a' e' hoa h

/-- The first operand of each term of `||` is false: both values are. Behind such an operand all others are true. -/
theorem exists_zeros : ∀ ops : List BinOp,
    (∃ r l, l.map Prod.fst = ops ∧ ∀ e o, (e == o) = false →
      scanned e o true r l = false ∧ usual false true true r l = false) ∧
    ∃ r l, l.map Prod.fst = ops ∧ ∀ e o a a' e', (e == (o || a)) = false → (a' && e') = false →
      scanned e o a r l = false ∧ usual false a' e' r l = false
  | [] => by
    refine ⟨⟨false, [], rfl, fun e o h => ?_⟩, true, [], rfl, fun e o a a' e' h h' => ?_⟩
    · simp [scanned, usual, h]
    · simp [scanned, usual, h, h']
  | op :: ops => by
    obtain ⟨⟨r, l, rfl, hopen⟩, r', l', hl', hclosed⟩ := exists_zeros ops
    rcases operator_cases op with rfl | rfl | rfl | hop
    · refine ⟨⟨false, (.eq, r') :: l', by simp [hl'], fun e o h => ?_⟩,
        true, (.eq, r') :: l', by simp [hl'], fun e o a a' e' h h' => ?_⟩
      · simp only [scanned, usual, Bool.and_false, Bool.or_false, h]
        exact hclosed false false true true false rfl rfl
      · simp only [scanned, usual, Bool.and_true, beq_true, h]
        exact hclosed false false true a' e' rfl h'
    · refine ⟨⟨false, (.or, r) :: l, rfl, fun e o h => ?_⟩, true, (.or, r) :: l, rfl, fun e o a a' e' h h' => ?_⟩
      · simp only [scanned, usual, Bool.and_false, Bool.or_false]
        exact hopen e o h
      · simp only [scanned, usual, Bool.and_true, beq_true, h', Bool.or_false]
        exact hopen e (o || a) h
    · refine ⟨⟨false, (.and, r') :: l', by simp [hl'], fun e o h => ?_⟩,
        true, (.and, r') :: l', by simp [hl'], fun e o a a' e' h h' => ?_⟩
      · simp only [scanned, usual, Bool.and_false]
        exact hclosed e o false false true (by simpa using h) rfl
      · simp only [scanned, usual, Bool.and_true, beq_true, h']
        exact hclosed e o a false true h rfl
    · obtain ⟨r₁, x₁, hscanned₁, husual₁⟩ := exists_relation hop r
      obtain ⟨r₂, x₂, hscanned₂, husual₂⟩ := exists_relation hop r'
      refine ⟨⟨r₁, (op, x₁) :: l, rfl, fun e o h => ?_⟩,
        r₂, (op, x₂) :: l', by simp [hl'], fun e o a a' e' h h' => ?_⟩
      · rw [hscanned₁, husual₁]
        exact hopen e o h
      · rw [hscanned₂, husual₂]
        exact hclosed e o a a' e' h h'

/-! ### A level that is mixed -/

/-- `||` behind a `==`: what is in front of the first `==` is false. -/
theorem exists_zero_first {ops' : List BinOp} (hor : .or ∈ ops') : ∀ ops : List BinOp, .eq ∉ ops →
    ∃ r l, l.map Prod.fst = ops ++ .eq :: ops' ∧
      ∀ a o' a' e', scanned true false a r l = false ∧ usual o' a' e' r l = true
  | [], _ => by
    obtain ⟨r, l, rfl, hvalue⟩ := exists_ones ops'
    refine ⟨false, (.eq, r) :: l, rfl, fun a o' a' e' => ?_⟩
    simp only [scanned, usual, Bool.and_false, Bool.or_false]
    exact hvalue false false true o' a' _ rfl (.inr (.inl hor))
  | op :: ops, h => by
    rw [List.mem_cons, not_or] at h
    obtain ⟨r, l, hl, hvalue⟩ := exists_zero_first hor ops h.2
    rcases operator_cases op with rfl | rfl | rfl | hop
    · exact absurd rfl h.1
    · refine ⟨false, (.or, r) :: l, by simp [hl], fun a o' a' e' => ?_⟩
      simp only [scanned, usual, Bool.and_false, Bool.or_false]
      exact hvalue true _ true true
    · refine ⟨false, (.and, r) :: l, by simp [hl], fun a o' a' e' => ?_⟩
      simp only [scanned, usual, Bool.and_false]
      exact hvalue false o' _ true
    · obtain ⟨r', x, hscanned, husual⟩ := exists_relation hop r
      refine ⟨r', (op, x) :: l, by simp [hl], fun a o' a' e' => ?_⟩
      rw [hscanned, husual]
      exact hvalue a o' a' e'

/-- What is behind the last `==` is false. -/
theorem exists_zero_last : ∀ ops : List BinOp, .eq ∈ ops → ∃ r l, l.map Prod.fst = ops ∧
    ∀ o a, (o || a) = true → scanned true o a r l = false
  | [], h => absurd h List.not_mem_nil
  | op :: ops, h => by
    by_cases heq : .eq ∈ ops
    · obtain ⟨r, l, rfl, hvalue⟩ := exists_zero_last ops heq
      rcases operator_cases op with rfl | rfl | rfl | hop
      · refine ⟨true, (.eq, r) :: l, rfl, fun o a hoa => ?_⟩
        simp only [scanned, Bool.and_true, hoa]
        exact hvalue false true rfl
      · refine ⟨true, (.or, r) :: l, rfl, fun o a hoa => ?_⟩
        simp only [scanned, Bool.and_true, hoa]
        exact hvalue true true rfl
      · refine ⟨true, (.and, r) :: l, rfl, fun o a hoa => ?_⟩
        simp only [scanned, Bool.and_true]
        exact hvalue o a hoa
      · obtain ⟨r', x, hscanned, -⟩ := exists_relation hop r
        refine ⟨r', (op, x) :: l, rfl, fun o a hoa => ?_⟩
        rw [hscanned]
        exact hvalue o a hoa
    · obtain rfl : BinOp.eq = op := (List.mem_cons.mp h).resolve_right heq
      obtain ⟨r, l, rfl, hvalue⟩ := exists_given ops heq false
      refine ⟨true, (.eq, r) :: l, rfl, fun o a hoa => ?_⟩
      simp only [scanned, hvalue, Bool.and_true, hoa]
      rfl

theorem usual_true (l : List (BinOp × Bool)) (a e r : Bool) : usual true a e r l = true := by
  induction l generalizing a e r with
  | nil => rfl
  | cons q l ih =>
    obtain ⟨op, x⟩ := q
    cases op <;> exact ih _ _ _

/-- `||` in front of a `==`. -/
theorem exists_zero_behind {ops' : List BinOp} (heq : .eq ∈ ops') : ∀ ops : List BinOp,
    ∃ r l, l.map Prod.fst = ops ++ .or :: ops' ∧ ∀ o a o' a' e', (o || a) = true → (a' && e') = true →
      scanned true o a r l = false ∧ usual o' a' e' r l = true
  | [] => by
    obtain ⟨r, l, rfl, hvalue⟩ := exists_zero_last ops' heq
    refine ⟨true, (.or, r) :: l, rfl, fun o a o' a' e' hoa h => ?_⟩
    simp only [scanned, usual, Bool.and_true, beq_true, hoa, h, Bool.or_true]
    exact ⟨hvalue true true rfl, usual_true _ _ _ _⟩
  | op :: ops => by
    obtain ⟨r, l, hl, hvalue⟩ := exists_zero_behind heq ops
    rcases operator_cases op with rfl | rfl | rfl | hop
    · refine ⟨true, (.eq, r) :: l, by simp [hl], fun o a o' a' e' hoa h => ?_⟩
      simp only [scanned, usual, Bool.and_true, beq_true, hoa]
      exact hvalue false true o' a' e' rfl h
    · refine ⟨true, (.or, r) :: l, by simp [hl], fun o a o' a' e' hoa _ => ?_⟩
      simp only [scanned, usual, Bool.and_true, hoa]
      exact hvalue true true _ true true rfl rfl
    · refine ⟨true, (.and, r) :: l, by simp [hl], fun o a o' a' e' hoa h => ?_⟩
      simp only [scanned, usual, Bool.and_true, beq_true, h]
      exact hvalue o a o' true true hoa rfl
    · obtain ⟨r', x, hscanned, husual⟩ := exists_relation hop r
      refine ⟨r', (op, x) :: l, by simp [hl], fun o a o' a' e' hoa h => ?_⟩
      rw [hscanned, husual]
      exact hvalue o a o' a' e' hoa h

/-- Without `||`, the last operand is false, and so has been another one. -/
theorem exists_zero_both : ∀ ops : List BinOp, .or ∉ ops → ∃ r l, l.map Prod.fst = ops ∧
    ∀ a a' e', (a = true ∨ .eq ∈ ops) → (a' = false ∨ e' = false ∧ .and ∈ ops) →
      scanned (!a) false a r l = true ∧ usual false a' e' r l = false
  | [], _ => by
    refine ⟨false, [], rfl, fun a a' e' h h' => ?_⟩
    obtain rfl := h.resolve_right List.not_mem_nil
    obtain rfl := h'.resolve_right fun h' => absurd h'.2 List.not_mem_nil
    exact ⟨rfl, rfl⟩
  | op :: ops, h => by
    rw [List.mem_cons, not_or] at h
    obtain ⟨r, l, rfl, hvalue⟩ := exists_zero_both ops h.2
    rcases operator_cases op with rfl | rfl | rfl | hop
    · refine ⟨true, (.eq, r) :: l, rfl, fun a a' e' _ h' => ?_⟩
      have hbeq : ((!a) == (false || (a && true))) = !true := by cases a <;> rfl
      simp only [scanned, usual, beq_true, hbeq]
      exact hvalue true a' e' (.inl rfl) (by simpa using h')
    · exact absurd rfl h.1
    · refine ⟨true, (.and, r) :: l, rfl, fun a a' e' ha h' => ?_⟩
      have hand : (a' && e') = false := by
        rcases h' with rfl | ⟨rfl, -⟩
        · rfl
        · exact Bool.and_false a'
      simp only [scanned, usual, Bool.and_true, beq_true, hand]
      exact hvalue a false true (by simpa using ha) (.inl rfl)
    · obtain ⟨r', x, hscanned, husual⟩ := exists_relation hop r
      refine ⟨r', (op, x) :: l, rfl, fun a a' e' ha h' => ?_⟩
      rw [mem_of_relation hop (by decide)] at ha h'
      rw [hscanned, husual]
      exact hvalue a a' e' ha h'

/-- `&&` and `==`: the first operand and the last one are false. -/
theorem exists_zero_ends : ∀ ops : List BinOp, .or ∉ ops → .eq ∈ ops → .and ∈ ops →
    ∃ r l, l.map Prod.fst = ops ∧ scanned true false true r l = true ∧ usual false true true r l = false
  | [], _, h, _ => absurd h List.not_mem_nil
  | op :: ops, hor, heq, hand => by
    rw [List.mem_cons, not_or] at hor
    obtain ⟨r, l, rfl, hvalue⟩ := exists_zero_both ops hor.2
    rcases operator_cases op with rfl | rfl | rfl | hop
    · exact ⟨false, (.eq, r) :: l, rfl, hvalue true true false (.inl rfl) (.inr ⟨rfl, by simpa using hand⟩)⟩
    · exact absurd rfl hor.1
    · exact ⟨false, (.and, r) :: l, rfl, hvalue false false true (.inr (by simpa using heq)) (.inl rfl)⟩
    · rw [mem_of_relation hop (by decide)] at heq hand
      obtain ⟨r₁, l₁, hl₁, hscanned₁, husual₁⟩ := exists_zero_ends _ hor.2 heq hand
      obtain ⟨r', x, hscanned, husual⟩ := exists_relation hop r₁
      exact ⟨r', (op, x) :: l₁, by simp [hl₁], by rw [hscanned, hscanned₁], by rw [husual, husual₁]⟩

/-- **A mixed level** has operands for which the two readings differ. -/
theorem exists_differ {ops : List BinOp} (h : Mixed ops) : ∃ r l, l.map Prod.fst = ops ∧
    scanned true false true r l ≠ usual false true true r l := by
  obtain ⟨heq, hlogical⟩ := h
  by_cases hor : .or ∈ ops
  · obtain ⟨ops₁, ops₂, rfl⟩ := List.append_of_mem hor
    by_cases heq₂ : .eq ∈ ops₂
    · obtain ⟨r, l, hl, hvalue⟩ := exists_zero_behind heq₂ ops₁
      obtain ⟨hscanned, husual⟩ := hvalue false true false true true rfl rfl
      exact ⟨r, l, hl, by rw [hscanned, husual]; decide⟩
    · have heq₁ : .eq ∈ ops₁ := by simpa [heq₂] using heq
      obtain ⟨ops₃, ops₄, rfl, heq₃⟩ := List.eq_append_cons_of_mem heq₁
      obtain ⟨r, l, hl, hvalue⟩ := @exists_zero_first (ops₄ ++ .or :: ops₂) (by simp) ops₃ heq₃
      obtain ⟨hscanned, husual⟩ := hvalue true false true true
      exact ⟨r, l, by simp [hl], by rw [hscanned, husual]; decide⟩
  · obtain ⟨r, l, hl, hscanned, husual⟩ := exists_zero_ends ops hor heq (hlogical.resolve_right hor)
    exact ⟨r, l, hl, by rw [hscanned, husual]; decide⟩

/-! ### A level that is not mixed -/

theorem Mixed.cons {op : BinOp} {ops : List BinOp} (h : Mixed ops) : Mixed (op :: ops) :=
  ⟨List.mem_cons_of_mem _ h.1, h.2.imp (List.mem_cons_of_mem _) (List.mem_cons_of_mem _)⟩

theorem beq_beq (r c c' : Bool) : ((r == c) == c') = (r == (c == c')) := by
  cases r <;> cases c <;> cases c' <;> rfl

/-- The value follows the first operand. -/
theorem exists_behind : ∀ ops : List BinOp, ¬Mixed ops → ∃ l c, l.map Prod.fst = ops ∧
    ∀ e r, scanned e false true r l = (e == (r == c))
  | [], _ => ⟨[], true, rfl, by simp [scanned]⟩
  | op :: ops, h => by
    rcases operator_cases op with rfl | rfl | rfl | hop
    · obtain ⟨r', l, rfl, hvalue⟩ := exists_ones ops
      refine ⟨(.eq, r') :: l, true, rfl, fun e r => ?_⟩
      simp only [scanned, Bool.true_and, Bool.false_or, beq_true]
      exact (hvalue (e == r) false true true true true rfl (.inl rfl)).1
    · have heq : .eq ∉ ops := fun heq => h ⟨List.mem_cons_of_mem _ heq, .inr List.mem_cons_self⟩
      obtain ⟨r', l, rfl, hvalue⟩ := exists_given ops heq false
      exact ⟨(.or, r') :: l, true, rfl, by simp [scanned, hvalue]⟩
    · have heq : .eq ∉ ops := fun heq => h ⟨List.mem_cons_of_mem _ heq, .inl List.mem_cons_self⟩
      obtain ⟨r', l, rfl, hvalue⟩ := exists_given ops heq true
      exact ⟨(.and, r') :: l, true, rfl, by simp [scanned, hvalue]⟩
    · obtain ⟨l, c, rfl, hvalue⟩ := exists_behind ops fun hmixed => h hmixed.cons
      obtain ⟨⟨x, c', hx⟩, -⟩ := exists_follow hop
      refine ⟨(op, x) :: l, c' == c, rfl, fun e r => ?_⟩
      rw [scanned_relation hop, hvalue, hx, beq_beq]

/-- **The value follows any operand**, if the others are chosen for it. -/
theorem exists_through {op : BinOp} {ops' : List BinOp} : ∀ ops : List BinOp, ¬Mixed (ops ++ op :: ops') →
    ∃ r l l' c, l.map Prod.fst = ops ∧ l'.map Prod.fst = ops' ∧
      ∀ e v, scanned e false true r (l ++ (op, v) :: l') = (e == (v == c))
  | [], h => by
    obtain ⟨l', c, hl', hvalue⟩ := exists_behind ops' fun hmixed => h hmixed.cons
    rcases operator_cases op with rfl | rfl | rfl | hop
    · exact ⟨true, [], l', c, rfl, hl', by simp [scanned, hvalue]⟩
    · exact ⟨false, [], l', c, rfl, hl', by simp [scanned, hvalue]⟩
    · exact ⟨true, [], l', c, rfl, hl', by simp [scanned, hvalue]⟩
    · obtain ⟨-, r, c', hr⟩ := exists_follow hop
      refine ⟨r, [], l', c' == c, rfl, hl', fun e v => ?_⟩
      rw [List.nil_append, scanned_relation hop, hvalue, hr, beq_beq]
  | op' :: ops, h => by
    obtain ⟨r, l, l', c, rfl, hl', hvalue⟩ := exists_through ops fun hmixed => h hmixed.cons
    rcases operator_cases op' with rfl | rfl | rfl | hop
    · exact ⟨true, (.eq, r) :: l, l', c, rfl, hl', by simp [scanned, hvalue]⟩
    · exact ⟨false, (.or, r) :: l, l', c, rfl, hl', by simp [scanned, hvalue]⟩
    · exact ⟨true, (.and, r) :: l, l', c, rfl, hl', by simp [scanned, hvalue]⟩
    · obtain ⟨r', x, hscanned, -⟩ := exists_relation hop r
      exact ⟨r', (op', x) :: l, l', c, rfl, hl', fun e v => (hscanned _ e false true).trans (hvalue e v)⟩

/-! ### Operands for a condition -/

/-- Other operands in what is written, for which the values by both tables are these. -/
def Factor.Attains (u : Factor) (x y : Bool) : Prop :=
  ∃ u', u.Same u' ∧ u'.eval scannerOrder = ofBool x ∧ u'.eval conventionalOrder = ofBool y

def Rest.Attains (rest : Rest) (l l' : List (BinOp × Bool)) : Prop :=
  ∃ rest', rest.Same rest' ∧ rest'.evals scannerOrder = truths l ∧ rest'.evals conventionalOrder = truths l'

theorem Factor.Attains.not {u : Factor} {x y : Bool} (h : u.Attains x y) : (Factor.not u).Attains (!x) (!y) := by
  obtain ⟨u', hsame, hx, hy⟩ := h
  have hunary : ∀ b : Bool, operators.unary (ofBool b) = ofBool !b := by decide
  exact ⟨.not u', hsame, (congrArg operators.unary hx).trans (hunary x), (congrArg operators.unary hy).trans (hunary y)⟩

theorem Factor.Attains.paren {u : Factor} {rest : Rest} {r r' : Bool} {l l' : List (BinOp × Bool)}
    (hu : u.Attains r r') (hrest : rest.Attains l l') :
    (Factor.paren u rest).Attains (scanned true false true r l) (usual false true true r' l') := by
  obtain ⟨u', hu', hr, hr'⟩ := hu
  obtain ⟨rest', hrest', hl, hl'⟩ := hrest
  refine ⟨.paren u' rest', ⟨hu', hrest'⟩, ?_, ?_⟩
  · rw [Factor.eval, hr, hl]
    exact evalChain_scanned none none none r l
  · rw [Factor.eval, hr', hl']
    exact evalChain_usual none none none r' l'

theorem Rest.Attains.cons {op : BinOp} {u : Factor} {rest : Rest} {x y : Bool} {l l' : List (BinOp × Bool)}
    (hu : u.Attains x y) (hrest : rest.Attains l l') : (Rest.cons op u rest).Attains ((op, x) :: l) ((op, y) :: l') := by
  obtain ⟨u', hu', hx, hy⟩ := hu
  obtain ⟨rest', hrest', hl, hl'⟩ := hrest
  refine ⟨.cons op u' rest', ⟨rfl, hu', hrest'⟩, ?_, ?_⟩
  · rw [Rest.evals, hx, hl]
    rfl
  · rw [Rest.evals, hy, hl']
    rfl

mutual

/-- **Both values**, whatever is written. -/
theorem Factor.attains : ∀ (u : Factor) (b : Bool), u.Attains b b
  | .lit _, b => ⟨.lit (ofBool b), trivial, rfl, rfl⟩
  | .not u, b => by
    have hnot := (Factor.attains u (!b)).not
    rwa [Bool.not_not] at hnot
  | .paren u rest, b => by
    obtain ⟨r, l, hl, hscanned, husual⟩ : ∃ r l, l.map Prod.fst = rest.ops ∧
        scanned true false true r l = b ∧ usual false true true r l = b := by
      cases b with
      | true =>
        obtain ⟨r, l, hl, hvalue⟩ := exists_ones rest.ops
        exact ⟨r, l, hl, hvalue true false true false true true rfl (.inr (.inr rfl))⟩
      | false =>
        obtain ⟨⟨r, l, hl, hvalue⟩, -⟩ := exists_zeros rest.ops
        exact ⟨r, l, hl, hvalue true false rfl⟩
    have hparen := (Factor.attains u r).paren (Rest.attains rest l hl)
    rwa [hscanned, husual] at hparen

theorem Rest.attains : ∀ (rest : Rest) (l : List (BinOp × Bool)), l.map Prod.fst = rest.ops → rest.Attains l l
  | .nil, l, h => by
    obtain rfl := List.map_eq_nil_iff.mp h
    exact ⟨.nil, trivial, rfl, rfl⟩
  | .cons op u rest, [], h => nomatch h
  | .cons op u rest, (op', x) :: l, h => by
    obtain ⟨rfl, hl⟩ := List.cons.inj h
    exact .cons (Factor.attains u x) (Rest.attains rest l hl)

end

/-- The readings of a level that is not mixed are the same. -/
theorem scanned_eq_usual (r : Bool) {l : List (BinOp × Bool)} (h : ¬Mixed (l.map Prod.fst)) :
    scanned true false true r l = usual false true true r l := by
  have hmap : (truths l).map Prod.fst = l.map Prod.fst := List.map_map
  rw [← hmap] at h
  have heval := ((evalChain_scanned none none none r l).symm.trans (evalChain_of_not_mixed (ofBool r) h)).trans
    (evalChain_usual none none none r l)
  have hinj : ∀ x y : Bool, ofBool x = ofBool y → x = y := by decide
  exact hinj _ _ heval

theorem true_beq_not (b c : Bool) : (true == ((!b) == c)) = !(true == (b == c)) := by
  cases b <;> cases c <;> rfl

mutual

/-- **Two values**, if some level in it is mixed. -/
theorem Factor.off : ∀ {u : Factor}, ¬u.Unmixed → ∃ b, u.Attains b (!b)
  | .lit _, h => absurd trivial h
  | .not u, h => by
    obtain ⟨b, hb⟩ := @Factor.off u h
    exact ⟨!b, hb.not⟩
  | .paren u rest, h => by
    by_cases hmixed : Mixed rest.ops
    · obtain ⟨r, l, hl, hne⟩ := exists_differ hmixed
      have hparen := (u.attains r).paren (rest.attains l hl)
      rw [Bool.eq_not_of_ne hne.symm] at hparen
      exact ⟨_, hparen⟩
    · by_cases hu : u.Unmixed
      · have hrest : ¬rest.Unmixed := fun hrest => h ⟨hmixed, hu, hrest⟩
        obtain ⟨ops, op, ops', b, hops, hattains⟩ := Rest.off hrest
        rw [hops] at hmixed
        obtain ⟨r, l, l', c, rfl, rfl, hvalue⟩ := exists_through ops hmixed
        have hparen := (u.attains r).paren (hattains l l' rfl rfl)
        rw [← scanned_eq_usual r (by simpa using hmixed), hvalue, hvalue, true_beq_not] at hparen
        exact ⟨_, hparen⟩
      · obtain ⟨b, hb⟩ := Factor.off hu
        obtain ⟨l, c, hl, hvalue⟩ := exists_behind rest.ops hmixed
        have hparen := hb.paren (rest.attains l hl)
        rw [← scanned_eq_usual (!b) (by rwa [hl]), hvalue, hvalue, true_beq_not] at hparen
        exact ⟨_, hparen⟩

/-- Of what follows, at one operand. -/
theorem Rest.off : ∀ {rest : Rest}, ¬rest.Unmixed → ∃ ops op ops' b, rest.ops = ops ++ op :: ops' ∧
    ∀ l l', l.map Prod.fst = ops → l'.map Prod.fst = ops' →
      rest.Attains (l ++ (op, b) :: l') (l ++ (op, !b) :: l')
  | .nil, h => absurd trivial h
  | .cons op u rest, h => by
    by_cases hu : u.Unmixed
    · obtain ⟨ops, op', ops', b, hops, hattains⟩ := Rest.off fun hrest => h ⟨hu, hrest⟩
      refine ⟨op :: ops, op', ops', b, congrArg (op :: ·) hops, fun l l' hl hl' => ?_⟩
      rcases l with _ | ⟨⟨_, x⟩, l⟩
      · cases hl
      · obtain ⟨rfl, hl₁⟩ := List.cons.inj hl
        exact .cons (u.attains x) (hattains l l' hl₁ hl')
    · obtain ⟨b, hb⟩ := Factor.off hu
      refine ⟨[], op, rest.ops, b, rfl, fun l l' hl hl' => ?_⟩
      obtain rfl := List.map_eq_nil_iff.mp hl
      exact .cons hb (rest.attains l' hl')

end

/-- **A condition with a mixed level** has operands for which the two tables differ. -/
theorem exists_eval_ne {c : Cond} (h : ¬c.Unmixed) :
    ∃ c', c.Same c' ∧ c'.eval scannerOrder ≠ c'.eval conventionalOrder := by
  obtain ⟨b, u', hsame, hscanner, husual⟩ := @Factor.off (.paren c.first c.rest) h
  have hne : ∀ b : Bool, ofBool b ≠ ofBool !b := by decide
  cases u' with
  | lit v => exact absurd hsame id
  | not u => exact absurd hsame id
  | paren u rest =>
    refine ⟨⟨u, rest⟩, hsame, fun heq => hne b ?_⟩
    rw [← hscanner, ← husual]
    exact heq

/-! ### The result -/

/-- **The value of a condition is the one it has in C**, whatever its operands are, exactly if no level of its parentheses
has `==` next to `&&` or `||`, or if the stacks do not suffice for it. The conditions are all expressions of C there are. -/
theorem precedence_iff (v : ℤ) (c : Cond) :
    (∀ ts : List CondToken, (∃ e, Parses conventional 0 ts e) ↔ ∃ c' : Cond, c'.tokens = ts) ∧
    ((∀ c', c.Same c' → ∀ e, Parses conventional 0 c'.tokens e → ∀ s, evalCondition v c'.tokens = .ok s →
        s.condRes = [e.value conventional] ∧ s.condRes0 = e.value conventional) ↔
      c.Unmixed ∨ ¬c.fits) := by
  have hparses : ∀ c' : Cond, ∃ e, Parses conventional 0 c'.tokens e ∧ e.value conventional = c'.eval conventionalOrder :=
    fun c' => c'.parses ordered_conventionalOrder (by decide) rfl rfl
  have hvalue : ∀ c' : Cond, evalCondition v c'.tokens = .error .tooComplex ∨ evalCondition v c'.tokens =
      .ok { condRes := [c'.eval scannerOrder], condRes0 := c'.eval scannerOrder } := by
    intro c'
    obtain ⟨e, hparse, heval⟩ := c'.parses ordered_scannerOrder (by decide) rfl rfl
    rw [← heval]
    exact evalCondition_complete v hparse
  refine ⟨fun ts => ⟨fun ⟨e, he⟩ => (exists_cond he).1, ?_⟩, fun h => ?_, ?_⟩
  · rintro ⟨c', rfl⟩
    obtain ⟨e, hparse, -⟩ := hparses c'
    exact ⟨e, hparse⟩
  · by_contra hcond
    obtain ⟨hmixed, hfits⟩ := not_or.mp hcond
    obtain ⟨c', hsame, hne⟩ := exists_eval_ne hmixed
    obtain ⟨e, hparse, heval⟩ := hparses c'
    have hok := (hvalue c').resolve_left fun he =>
      (tooComplex_iff v c').mp he ((hsame.fits).mp (not_not.mp hfits))
    obtain ⟨-, hres⟩ := h c' hsame e hparse _ hok
    exact hne (hres.trans heval)
  · rintro hcond c' hsame e hparse s hs
    obtain ⟨e', hparse', heval⟩ := hparses c'
    have hunmixed : c'.Unmixed := by
      refine hsame.unmixed.mp (hcond.resolve_right fun hfits => ?_)
      rw [(tooComplex_iff v c').mpr fun hfits' => hfits (hsame.fits.mpr hfits')] at hs
      cases hs
    have hok := (hvalue c').resolve_left (by rw [hs]; nofun)
    rw [hs] at hok
    rw [hparse.value_eq hparse', heval, ← c'.eval_of_unmixed hunmixed, Except.ok.inj hok]
    exact ⟨rfl, rfl⟩

/-- `0 == 1 && 0` is read as `0 == (1 && 0)`. -/
theorem precedence_equality : ∃ e s,
    Parses conventional 0 [.value 0, .binary .eq, .value 1, .binary .and, .value 0] e ∧
    evalCondition 1 [.value 0, .binary .eq, .value 1, .binary .and, .value 0] = .ok s ∧
    s.condRes0 = 1 ∧ e.value conventional = 0 :=
  ⟨.binary .and (.binary .eq (.lit 0) (.lit 1)) (.lit 0), ⟨[1], 1, []⟩,
    .binary (Nat.zero_le _) (.binary (by decide) (.value 0) (.value 1)) (.value 0), by decide, rfl, rfl⟩

/-- `(0 == 1) && 0` is not mixed, and fits. -/
example : Cond.Unmixed ⟨.paren (.lit 0) (.cons .eq (.lit 1) .nil), .cons .and (.lit 0) .nil⟩ ∧
    Cond.fits ⟨.paren (.lit 0) (.cons .eq (.lit 1) .nil), .cons .and (.lit 0) .nil⟩ := by decide

end Snuffleupagus.Scanner.Conventional
