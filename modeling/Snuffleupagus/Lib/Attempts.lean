import Mathlib.Data.List.Basic

/-! # Computations that fail and keep what they have written

`Attempt ε σ α` computes on a state of type `σ` and yields a value or fails; a failure keeps the state
written so far. `Leaves x s a s'` says that `x` succeeds from the state `s` with the value `a` and
leaves the state `s'`; `Answers P x` that every value it succeeds with satisfies `P`; `Moves R x` that
the state left, by success or failure, is related to the one before. All three follow the structure of
the computation. -/

namespace Snuffleupagus.Lib.Attempts

/-- A computation on a state, which may fail. -/
abbrev Attempt (ε σ α : Type) := ExceptT ε (StateM σ) α

variable {ε σ τ α β : Type}

/-- The answer, and the state left. -/
def runOn (x : Attempt ε σ α) (s : σ) : Except ε α × σ := x s

/-- The answer of another kind of computation. -/
def ofAnswer (r : Except ε α) : Attempt ε σ α := fun s => (r, s)

/-- A computation with local variables: they start with the value `l` and are returned at the end. -/
def withLocals (l : τ) (x : Attempt ε (τ × σ) α) : Attempt ε σ (α × τ) := fun s =>
  match runOn x (l, s) with
  | (.ok a, l, s) => (.ok (a, l), s)
  | (.error e, _, s) => (.error e, s)

@[simp] theorem runOn_pure (a : α) (s : σ) : runOn (pure a : Attempt ε σ α) s = (.ok a, s) := rfl

@[simp] theorem runOn_throw (e : ε) (s : σ) : runOn (throw e : Attempt ε σ α) s = (.error e, s) := rfl

@[simp] theorem runOn_modify (f : σ → σ) (s : σ) :
    runOn (modify f : Attempt ε σ Unit) s = (.ok (), f s) := rfl

@[simp] theorem runOn_get (s : σ) : runOn (get : Attempt ε σ σ) s = (.ok s, s) := rfl

@[simp] theorem runOn_ofAnswer (r : Except ε α) (s : σ) :
    runOn (ofAnswer r : Attempt ε σ α) s = (r, s) := rfl

theorem runOn_bind (x : Attempt ε σ α) (f : α → Attempt ε σ β) (s : σ) : runOn (x >>= f) s =
    match runOn x s with
    | (.ok a, s) => runOn (f a) s
    | (.error e, s) => (.error e, s) := by
  show (ExceptT.bind x f) s = _
  unfold ExceptT.bind ExceptT.mk runOn
  show (StateT.bind x (ExceptT.bindCont f)) s = _
  unfold StateT.bind
  obtain ⟨r, s'⟩ := x s
  cases r <;> rfl

/-- The computation succeeds from `s` with the value `a`, and leaves `s'`. -/
def Leaves (x : Attempt ε σ α) (s : σ) (a : α) (s' : σ) : Prop := runOn x s = (.ok a, s')

variable {x : Attempt ε σ α} {f : α → Attempt ε σ β} {s s' : σ}

theorem leaves_pure {a b : α} : Leaves (pure a : Attempt ε σ α) s b s' ↔ a = b ∧ s = s' := by
  simp [Leaves]

theorem leaves_modify {f : σ → σ} {u : Unit} :
    Leaves (modify f : Attempt ε σ Unit) s u s' ↔ f s = s' := by simp [Leaves]

theorem leaves_ofAnswer {r : Except ε α} {a : α} :
    Leaves (ofAnswer r : Attempt ε σ α) s a s' ↔ r = .ok a ∧ s = s' := by simp [Leaves]

theorem leaves_get {a : σ} : Leaves (get : Attempt ε σ σ) s a s' ↔ s = a ∧ s = s' := by
  simp [Leaves]

theorem not_leaves_throw {e : ε} {a : α} : ¬ Leaves (throw e : Attempt ε σ α) s a s' := by
  simp [Leaves]

/-- One after the other. -/
theorem leaves_bind {b : β} :
    Leaves (x >>= f) s b s' ↔ ∃ a s₁, Leaves x s a s₁ ∧ Leaves (f a) s₁ b s' := by
  unfold Leaves
  rw [runOn_bind]
  rcases hx : runOn x s with ⟨r, s₁⟩
  cases r with
  | error e =>
    refine iff_of_false (by simp) ?_
    rintro ⟨a, s₂, h, -⟩
    cases h
  | ok a =>
    constructor
    · intro h
      exact ⟨a, s₁, rfl, h⟩
    · rintro ⟨a', s₂, h, h'⟩
      cases h
      exact h'

theorem leaves_withLocals {l l' : τ} {x : Attempt ε (τ × σ) α} {a : α} :
    Leaves (withLocals l x) s (a, l') s' ↔ Leaves x (l, s) a (l', s') := by
  have hrun : runOn (withLocals l x) s = match runOn x (l, s) with
    | (.ok a, l, s) => (.ok (a, l), s)
    | (.error e, _, s) => (.error e, s) := rfl
  unfold Leaves
  rw [hrun]
  rcases runOn x (l, s) with ⟨_ | b, l₁, s₁⟩ <;> simp [Prod.ext_iff, and_assoc]

/-! ### What the answer is -/

/-- Every value the computation succeeds with satisfies `P`. -/
def Answers (P : α → Prop) (x : Attempt ε σ α) : Prop := ∀ s a s', Leaves x s a s' → P a

theorem Answers.pure {P : α → Prop} {a : α} (h : P a) : Answers P (pure a : Attempt ε σ α) := by
  intro s b s' hl
  obtain ⟨rfl, -⟩ := leaves_pure.mp hl
  exact h

theorem Answers.throw (P : α → Prop) (e : ε) : Answers P (throw e : Attempt ε σ α) :=
  fun _ _ _ hl => absurd hl not_leaves_throw

theorem Answers.ofAnswer {P : α → Prop} {r : Except ε α} (h : ∀ a, r = .ok a → P a) :
    Answers P (ofAnswer r : Attempt ε σ α) := fun _ a _ hl => h a (leaves_ofAnswer.mp hl).1

theorem Answers.bind {P : β → Prop} (h : ∀ a, Answers P (f a)) : Answers P (x >>= f) := by
  intro s b s' hl
  obtain ⟨a, s₁, -, hl⟩ := leaves_bind.mp hl
  exact h a s₁ b s' hl

/-! ### What the state left has to do with the one before -/

/-- The state left, by success or by failure, is related to the one before. -/
def Moves (R : σ → σ → Prop) (x : Attempt ε σ α) : Prop := ∀ s, R s (runOn x s).2

variable {R : σ → σ → Prop}

theorem Moves.pure (hr : ∀ s, R s s) (a : α) : Moves R (pure a : Attempt ε σ α) := fun s => hr s

theorem Moves.throw (hr : ∀ s, R s s) (e : ε) : Moves R (throw e : Attempt ε σ α) := fun s => hr s

theorem Moves.ofAnswer (hr : ∀ s, R s s) (r : Except ε α) : Moves R (ofAnswer r : Attempt ε σ α) :=
  fun s => hr s

theorem Moves.get (hr : ∀ s, R s s) : Moves R (get : Attempt ε σ σ) := fun s => hr s

theorem Moves.modify {f : σ → σ} (hf : ∀ s, R s (f s)) : Moves R (modify f : Attempt ε σ Unit) := hf

theorem Moves.bind (ht : ∀ s₁ s₂ s₃, R s₁ s₂ → R s₂ s₃ → R s₁ s₃) (hx : Moves R x)
    (hf : ∀ a, Moves R (f a)) : Moves R (x >>= f) := by
  intro s
  rw [runOn_bind]
  have hs := hx s
  rcases hrun : runOn x s with ⟨r, s₁⟩
  rw [hrun] at hs
  cases r with
  | error e => exact hs
  | ok a => exact ht _ _ _ hs (hf a s₁)

theorem Moves.withLocals {l : τ} {x : Attempt ε (τ × σ) α}
    (hx : Moves (fun p q => R p.2 q.2) x) : Moves R (withLocals l x) := by
  intro s
  have hs := hx (l, s)
  show R s (match runOn x (l, s) with
      | (.ok a, l, s) => ((.ok (a, l) : Except ε (α × τ)), s)
      | (.error e, _, s) => (.error e, s)).2
  rcases hrun : runOn x (l, s) with ⟨r, l₁, s₁⟩
  rw [hrun] at hs
  cases r <;> exact hs

theorem Moves.leaves (hx : Moves R x) {a : α} (h : Leaves x s a s') : R s s' := by
  have hs := hx s
  rw [show runOn x s = (.ok a, s') from h] at hs
  exact hs

end Snuffleupagus.Lib.Attempts
