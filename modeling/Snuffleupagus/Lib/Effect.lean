import Mathlib.Data.List.Basic

/-! # Computations that log and may be aborted

`Run ε ω α` is the result of a computation that writes events of type `ω` and either yields a value
of type `α` or is aborted with a reason of type `ε`. The events written before an abort are kept, so
that what has been observed can be told from what has been returned. `allSeq` runs checks one after
the other up to the first that fails, `anySeq` up to the first that holds.

The value part `out` is a morphism to `Except ε` (`out_bind`): an argument about results alone never
looks at the events. `Yields x a` says that `x` comes to its end with the value `a`. -/

namespace Snuffleupagus.Lib.Effect

/-- The events written, and the value or the reason of the abort. -/
structure Run (ε ω α : Type) where
  log : List ω
  out : Except ε α

variable {ε ω α β : Type}

/-- Sequencing: nothing after an abort is executed. -/
def bind (x : Run ε ω α) (f : α → Run ε ω β) : Run ε ω β :=
  match x.out with
  | .ok a => ⟨x.log ++ (f a).log, (f a).out⟩
  | .error e => ⟨x.log, .error e⟩

instance : Monad (Run ε ω) where
  pure a := ⟨[], .ok a⟩
  bind := bind

theorem bind_pure_id (x : Run ε ω α) : bind x (fun a => ⟨[], .ok a⟩) = x := by
  obtain ⟨l, o⟩ := x
  cases o <;> simp [bind]

theorem bind_bind {γ : Type} (x : Run ε ω α) (f : α → Run ε ω β) (k : β → Run ε ω γ) :
    bind (bind x f) k = bind x fun a => bind (f a) k := by
  unfold bind
  cases x.out with
  | error e => rfl
  | ok a =>
    dsimp only
    cases (f a).out with
    | error e => rfl
    | ok b => simp only [List.append_assoc]

instance : LawfulMonad (Run ε ω) :=
  LawfulMonad.mk' _ bind_pure_id (fun _ _ => rfl) bind_bind

/-- Write one event. -/
def emit (w : ω) : Run ε ω Unit := ⟨[w], .ok ()⟩

/-- Abort for the reason `e`. -/
def abort (e : ε) : Run ε ω α := ⟨[], .error e⟩

@[simp] theorem out_pure (a : α) : (pure a : Run ε ω α).out = .ok a := rfl

@[simp] theorem log_pure (a : α) : (pure a : Run ε ω α).log = [] := rfl

@[simp] theorem out_emit (w : ω) : (emit w : Run ε ω Unit).out = .ok () := rfl

@[simp] theorem log_emit (w : ω) : (emit w : Run ε ω Unit).log = [w] := rfl

@[simp] theorem out_abort (e : ε) : (abort e : Run ε ω α).out = .error e := rfl

@[simp] theorem log_abort (e : ε) : (abort e : Run ε ω α).log = [] := rfl

@[simp] theorem ok_bind (a : α) (f : α → Except ε β) : (Except.ok a >>= f) = f a := rfl

@[simp] theorem error_bind (e : ε) (f : α → Except ε β) : (Except.error e >>= f) = .error e := rfl

@[simp] theorem map_ok (f : α → β) (a : α) : (Except.ok a : Except ε α).map f = .ok (f a) := rfl

@[simp] theorem map_error (f : α → β) (e : ε) : (Except.error e : Except ε α).map f = .error e := rfl

/-- Two results with the same second part fail alike, or give the same answer. -/
theorem map_snd_eq {x y : Except ε (α × β)} (h : x.map Prod.snd = y.map Prod.snd) :
    (∃ e, x = .error e ∧ y = .error e) ∨ ∃ a a' b, x = .ok (a, b) ∧ y = .ok (a', b) := by
  rcases x with e | ⟨a, b⟩ <;> rcases y with e' | ⟨a', b'⟩ <;> cases h
  · exact Or.inl ⟨e, rfl, rfl⟩
  · exact Or.inr ⟨a, a', b, rfl, rfl⟩

theorem bind_eq_ok {x : Except ε α} {f : α → Except ε β} {b : β} :
    (x >>= f) = .ok b ↔ ∃ a, x = .ok a ∧ f a = .ok b := by
  cases x with
  | error e =>
    refine iff_of_false (fun h => by cases h) ?_
    rintro ⟨a, ha, -⟩
    cases ha
  | ok a =>
    refine ⟨fun h => ⟨a, rfl, h⟩, ?_⟩
    rintro ⟨a', ha, h⟩
    cases ha
    exact h

/-- **The value part is a morphism.** -/
@[simp] theorem out_bind (x : Run ε ω α) (f : α → Run ε ω β) :
    (x >>= f).out = x.out >>= fun a => (f a).out := by
  show (bind x f).out = _
  unfold bind
  cases h : x.out with
  | ok a => rfl
  | error e => rfl

@[simp] theorem out_map (f : α → β) (x : Run ε ω α) : (f <$> x).out = x.out.map f := by
  rw [← bind_pure_comp, out_bind]
  cases x.out <;> rfl

theorem log_bind_ok {x : Run ε ω α} {a : α} (h : x.out = .ok a) (f : α → Run ε ω β) :
    (x >>= f).log = x.log ++ (f a).log := by
  show (bind x f).log = _
  unfold bind; rw [h]

theorem log_bind_error {x : Run ε ω α} {e : ε} (h : x.out = .error e) (f : α → Run ε ω β) :
    (x >>= f).log = x.log := by
  show (bind x f).log = _
  unfold bind; rw [h]

/-- Two computations in step: what the second one returns is made of what the first one returns. -/
theorem bind_eq_map_bind {α' β' : Type} {x : Run ε ω α} {x' : Run ε ω α'} {k : α → Run ε ω β}
    {k' : α' → Run ε ω β'} {F : α → α'} {G : β → β'} (hx : x' = F <$> x)
    (hk : ∀ a, k' (F a) = G <$> k a) : x' >>= k' = G <$> (x >>= k) := by
  rw [hx, bind_map_left, map_bind]
  exact bind_congr hk

theorem bind_eq_bind {α' : Type} {x : Run ε ω α} {x' : Run ε ω α'} {k : α → Run ε ω β}
    {k' : α' → Run ε ω β} {F : α → α'} (hx : x' = F <$> x) (hk : ∀ a, k' (F a) = k a) :
    x' >>= k' = x >>= k := by
  rw [hx, bind_map_left]
  exact bind_congr hk

/-- The computation comes to its end with the value `a`. -/
def Yields (x : Run ε ω α) (a : α) : Prop := x.out = .ok a

theorem yields_pure {a b : α} : Yields (pure a : Run ε ω α) b ↔ a = b := by
  simp [Yields]

theorem yields_bind {x : Run ε ω α} {f : α → Run ε ω β} {b : β} :
    Yields (x >>= f) b ↔ ∃ a, Yields x a ∧ Yields (f a) b := by
  unfold Yields
  rw [out_bind]
  cases h : x.out with
  | ok a =>
    constructor
    · intro hb; exact ⟨a, rfl, hb⟩
    · rintro ⟨a', ha', hb⟩
      cases ha'
      exact hb
  | error e =>
    constructor
    · intro hb; exact absurd hb (by simp)
    · rintro ⟨a, ha, -⟩; cases ha

theorem yields_map {f : α → β} {x : Run ε ω α} {b : β} :
    Yields (f <$> x) b ↔ ∃ a, Yields x a ∧ f a = b := by
  rw [← bind_pure_comp, yields_bind]
  simp only [yields_pure]

/-- Check one condition after the other, up to the first that fails. -/
def allSeq : List (Run ε ω Bool) → Run ε ω Bool
  | [] => pure true
  | c :: l => do
    if ← c then allSeq l else pure false

/-- **Checks in sequence succeed together.** -/
theorem yields_allSeq {l : List (Run ε ω Bool)} :
    Yields (allSeq l) true ↔ ∀ c ∈ l, Yields c true := by
  induction l with
  | nil => simp [allSeq, yields_pure]
  | cons c l ih =>
    rw [allSeq, yields_bind, List.forall_mem_cons]
    constructor
    · rintro ⟨b, hb, h⟩
      cases b with
      | true => exact ⟨hb, ih.mp h⟩
      | false => exact absurd (yields_pure.mp h) (by decide)
    · rintro ⟨hc, hl⟩
      exact ⟨true, hc, ih.mpr hl⟩

/-- Check one condition after the other, up to the first that holds. -/
def anySeq : List (Run ε ω Bool) → Run ε ω Bool
  | [] => pure false
  | c :: l => do
    if ← c then pure true else anySeq l

/-- A search through one list, and then through another. -/
theorem anySeq_append (l l' : List (Run ε ω Bool)) :
    anySeq (l ++ l') = anySeq l >>= fun b => if b then pure true else anySeq l' := by
  induction l with
  | nil =>
    simp only [List.nil_append, anySeq, pure_bind]
    rfl
  | cons c l ih =>
    simp only [List.cons_append, anySeq, bind_assoc]
    refine bind_congr fun b => ?_
    cases b with
    | true => simp
    | false => simpa using ih

theorem anySeq_singleton (c : Run ε ω Bool) : anySeq [c] = c := by
  have hc : (c >>= fun b => pure b) = c := bind_pure c
  rw [anySeq]
  refine Eq.trans (bind_congr fun b => ?_) hc
  cases b <;> rfl

/-- **A search comes to the first check that holds** if no check in front of it aborts. -/
theorem yields_anySeq {f : α → Run ε ω Bool} {p q : α → Bool}
    (htrue : ∀ a, Yields (f a) true ↔ p a = true)
    (hfalse : ∀ a, Yields (f a) false ↔ p a = false ∧ q a = true) (l : List α) :
    Yields (anySeq (l.map f)) true ↔
      (∃ a ∈ l, p a = true) ∧ ∀ a ∈ l.takeWhile (fun a => !p a), q a = true := by
  induction l with
  | nil => simp [anySeq, yields_pure]
  | cons a l ih =>
    rw [List.map_cons, anySeq, yields_bind]
    by_cases hp : p a = true
    · have hy := (htrue a).mpr hp
      refine iff_of_true ⟨true, hy, yields_pure.mpr rfl⟩ ⟨⟨a, List.mem_cons_self, hp⟩, ?_⟩
      simp [hp]
    · have hn : ¬ Yields (f a) true := fun hy => hp ((htrue a).mp hy)
      have hp' : p a = false := by simpa using hp
      have htake : (a :: l).takeWhile (fun a => !p a) = a :: l.takeWhile fun a => !p a :=
        List.takeWhile_cons_of_pos (by simp [hp'])
      rw [htake, List.forall_mem_cons, List.exists_mem_cons_iff]
      constructor
      · rintro ⟨b, hb, h⟩
        cases b with
        | true => exact absurd hb hn
        | false =>
          obtain ⟨hex, hq⟩ := ih.mp h
          exact ⟨Or.inr hex, ((hfalse a).mp hb).2, hq⟩
      · rintro ⟨hex, hqa, hq⟩
        have hex' : ∃ a ∈ l, p a = true := hex.resolve_left hp
        exact ⟨false, (hfalse a).mpr ⟨hp', hqa⟩, ih.mpr ⟨hex', hq⟩⟩

/-- What every step of a loop preserves, the loop preserves. -/
theorem Yields.foldlM {I : β → Prop} {f : β → α → Run ε ω β}
    (step : ∀ b a b', I b → Yields (f b a) b' → I b') :
    ∀ {l : List α} {b b' : β}, Yields (l.foldlM f b) b' → I b → I b'
  | [], _, _, h, hb => by
    cases yields_pure.mp h
    exact hb
  | a :: l, b, _, h, hb => by
    rw [List.foldlM_cons] at h
    obtain ⟨b₁, h₁, h₂⟩ := yields_bind.mp h
    exact h₂.foldlM step (step b a b₁ hb h₁)

/-- What follows matters only for the value that is yielded. -/
theorem bind_congr_yields {x : Run ε ω α} {f k : α → Run ε ω β} (h : ∀ a, Yields x a → f a = k a) :
    x >>= f = x >>= k := by
  show bind x f = bind x k
  unfold bind
  cases hx : x.out with
  | ok a =>
    dsimp only
    rw [h a hx]
  | error e => rfl

/-- Only one value is yielded. -/
theorem Yields.unique {x : Run ε ω α} {a b : α} (ha : Yields x a) (hb : Yields x b) : a = b := by
  unfold Yields at ha hb
  rw [ha] at hb
  exact Except.ok.inj hb

/-- A loop whose turns come to an end does so. -/
theorem exists_foldlM {f : β → α → Run ε ω β} (hf : ∀ b a, ∃ b', Yields (f b a) b') :
    ∀ (l : List α) (b : β), ∃ b', Yields (l.foldlM f b) b'
  | [], b => ⟨b, yields_pure.mpr rfl⟩
  | a :: l, b => by
    obtain ⟨b₁, h₁⟩ := hf b a
    obtain ⟨b', h⟩ := exists_foldlM hf l b₁
    exact ⟨b', by rw [List.foldlM_cons]; exact yields_bind.mpr ⟨b₁, h₁, h⟩⟩

/-- A loop over a list comes to its end if each turn does. -/
theorem yields_forM {f : α → Run ε ω Unit} {l : List α} :
    Yields (forM l f) () ↔ ∀ a ∈ l, Yields (f a) () := by
  induction l with
  | nil => simp [yields_pure]
  | cons a l ih =>
    rw [List.forM_cons, yields_bind, List.forall_mem_cons, ih]
    constructor
    · rintro ⟨_, ha, hl⟩
      exact ⟨ha, hl⟩
    · rintro ⟨ha, hl⟩
      exact ⟨(), ha, hl⟩

/-- It writes what its turns write, in their order. -/
theorem log_forM {f : α → Run ε ω Unit} {l : List α} (h : ∀ a ∈ l, Yields (f a) ()) :
    (forM l f).log = l.flatMap fun a => (f a).log := by
  induction l with
  | nil => rfl
  | cons a l ih =>
    rw [List.forall_mem_cons] at h
    rw [List.forM_cons, log_bind_ok h.1, ih h.2, List.flatMap_cons]

/-- Does the computation come to its end, with a value of the kind `p`? -/
def yieldsA (p : α → Prop) [DecidablePred p] (x : Run ε ω α) : Bool :=
  match x.out with
  | .ok a => decide (p a)
  | .error _ => false

theorem exists_of_yieldsA {p : α → Prop} [DecidablePred p] {x : Run ε ω α} (h : yieldsA p x = true) :
    ∃ a, Yields x a ∧ p a := by
  unfold yieldsA at h
  unfold Yields
  cases hx : x.out with
  | ok a =>
    rw [hx] at h
    exact ⟨a, rfl, of_decide_eq_true h⟩
  | error e =>
    rw [hx] at h
    cases h

/-! ### What does not happen -/

/-- The computation is not aborted for the reason `e`. -/
def Avoids (e : ε) (x : Run ε ω α) : Prop := x.out ≠ .error e

section Avoids
variable {e r : ε}

theorem avoids_pure (a : α) : Avoids e (pure a : Run ε ω α) := fun h => by cases h

theorem avoids_emit (w : ω) : Avoids e (emit w : Run ε ω Unit) := fun h => by cases h

theorem avoids_abort (h : r ≠ e) : Avoids e (abort r : Run ε ω α) := fun heq => h (Except.error.inj heq)

theorem Yields.avoids {x : Run ε ω α} {a : α} (h : Yields x a) : Avoids e x := by
  unfold Yields at h
  unfold Avoids
  rw [h]
  exact fun heq => by cases heq

theorem Avoids.bind {x : Run ε ω α} {f : α → Run ε ω β} (hx : Avoids e x) (hf : ∀ a, Avoids e (f a)) :
    Avoids e (x >>= f) := by
  unfold Avoids at *
  rw [out_bind]
  cases h : x.out with
  | ok a => exact hf a
  | error r =>
    rw [h] at hx
    exact fun heq => hx (congrArg Except.error (Except.error.inj heq))

/-- A loop does not do what no turn does. -/
theorem Avoids.foldlM {f : β → α → Run ε ω β} (hf : ∀ b a, Avoids e (f b a)) :
    ∀ (l : List α) (b : β), Avoids e (l.foldlM f b)
  | [], b => avoids_pure b
  | a :: l, b => by
    rw [List.foldlM_cons]
    exact (hf b a).bind fun b' => Avoids.foldlM hf l b'

end Avoids

/-! ### What is written, and in which order -/

/-- Only events with the property `p` are written. -/
def Writes (p : ω → Prop) (x : Run ε ω α) : Prop := ∀ e ∈ x.log, p e

variable {p : ω → Prop}

theorem Writes.pure (a : α) : Writes p (pure a : Run ε ω α) := by
  intro e he
  cases he

theorem Writes.abort (r : ε) : Writes p (abort r : Run ε ω α) := by
  intro e he
  cases he

theorem Writes.emit {e : ω} (h : p e) : Writes p (emit e : Run ε ω Unit) := by
  intro e' he
  rw [List.mem_singleton.mp he]
  exact h

theorem Writes.bind {x : Run ε ω α} {f : α → Run ε ω β} (hx : Writes p x) (hf : ∀ a, Writes p (f a)) :
    Writes p (x >>= f) := by
  cases h : x.out with
  | error r =>
    unfold Writes
    rw [log_bind_error h]
    exact hx
  | ok a =>
    unfold Writes
    rw [log_bind_ok h]
    intro e he
    rcases List.mem_append.mp he with he | he
    · exact hx e he
    · exact hf a e he

/-- The event `a` occurs before every occurrence of `b`. -/
def Precedes (a b : ω) (l : List ω) : Prop := ∀ pre post, l = pre ++ b :: post → a ∈ pre

theorem precedes_of_not_mem {a b : ω} {l : List ω} (h : b ∉ l) : Precedes a b l := by
  rintro pre post rfl
  exact absurd (List.mem_append_right pre List.mem_cons_self) h

/-- Of two events the one written first precedes the other. -/
theorem precedes_append {a b : ω} {l l' : List ω} (hab : a ≠ b) (h : b ∉ l) :
    Precedes a b (l ++ a :: l') := by
  intro pre post heq
  rcases List.append_eq_append_iff.mp heq with ⟨m, rfl, hm⟩ | ⟨m, rfl, hm⟩
  · cases m with
    | nil => exact absurd (List.cons.inj hm).1 hab
    | cons c m =>
      rw [(List.cons.inj hm).1]
      simp
  · cases m with
    | nil => exact absurd (List.cons.inj hm).1.symm hab
    | cons c m =>
      refine absurd ?_ h
      rw [(List.cons.inj hm).1]
      simp

theorem not_precedes_append {a b : ω} {l l' : List ω} (h : a ∉ l) : ¬ Precedes a b (l ++ b :: l') :=
  fun hp => h (hp l l' rfl)

end Snuffleupagus.Lib.Effect
