import Snuffleupagus.Lib.Effect
import Snuffleupagus.Lib.Table

/-! # Applying a callback to the entries of a table

The callback sees the entries one after the other. It keeps the entry, possibly with another value, or
removes it, and it may abort. What is under a key afterwards is what the callback has made of that key's
own value, whatever has happened to the others (`find?_apply`). This is so for every loop whose turns do
nothing at the keys of other entries (`foldlM_turn`). -/

namespace Snuffleupagus.Lib.Apply

open Snuffleupagus.Lib.Effect Snuffleupagus.Lib.Table

variable {ε ω κ ν : Type} [DecidableEq κ]

/-- **What a loop does at a key** is what the turn of this key does, if no other turn does anything there. -/
theorem foldlM_turn {σ ρ : Type} {f : σ → κ × ν → Run ε ω σ} (k : κ) (seen : σ → ρ)
    (Turn : ν → ρ → ρ → Prop) :
    ∀ {l : List (κ × ν)} {s s' : σ}, (l.map Prod.fst).Nodup →
      (∀ x ∈ l, ∀ s s', Yields (f s x) s' →
        if x.1 = k then Turn x.2 (seen s) (seen s') else seen s' = seen s) →
      Yields (l.foldlM f s) s' →
      match OrdTable.lookup k l with
      | some v => Turn v (seen s) (seen s')
      | none => seen s' = seen s
  | [], s, s', _, _, hy => by
    cases yields_pure.mp hy
    rfl
  | (k', v) :: l, s, s', hn, hf, hy => by
    rw [List.map_cons, List.nodup_cons] at hn
    rw [List.forall_mem_cons] at hf
    rw [List.foldlM_cons] at hy
    obtain ⟨s₁, h₁, hy⟩ := yields_bind.mp hy
    have hhead := hf.1 s s₁ h₁
    have htail := foldlM_turn k seen Turn hn.2 hf.2 hy
    rw [OrdTable.lookup]
    by_cases hk : k' = k
    · -- its own turn: nothing that follows is about it
      rw [OrdTable.lookup_eq_none.mpr (hk ▸ hn.1)] at htail
      rw [if_pos hk] at hhead ⊢
      dsimp only at htail ⊢
      rwa [htail]
    · rw [if_neg hk] at hhead ⊢
      rwa [hhead] at htail

/-- The callback on one entry: a new value, or nothing if the entry is to be removed. -/
def applyEntry (f : κ → ν → Run ε ω (Option ν)) (t : OrdTable κ ν) (e : κ × ν) : Run ε ω (OrdTable κ ν) := do
  match ← f e.1 e.2 with
  | some v => pure (t.insert e.1 v)
  | none => pure (t.erase e.1)

/-- The callback on all entries. -/
def apply (f : κ → ν → Run ε ω (Option ν)) (t : OrdTable κ ν) : Run ε ω (OrdTable κ ν) :=
  t.entries.foldlM (applyEntry f) t

variable {f : κ → ν → Run ε ω (Option ν)} {t t' : OrdTable κ ν}

theorem find?_applyEntry {e : κ × ν} (h : Yields (applyEntry f t e) t') :
    ∃ r, Yields (f e.1 e.2) r ∧ ∀ k, t'.find? k = if e.1 = k then r else t.find? k := by
  obtain ⟨r, hr, h⟩ := yields_bind.mp h
  refine ⟨r, hr, fun k => ?_⟩
  cases r with
  | some v =>
    cases yields_pure.mp h
    exact OrdTable.find?_insert t e.1 v k
  | none =>
    cases yields_pure.mp h
    exact OrdTable.find?_erase t e.1 k

/-- **What is under a key afterwards.** -/
theorem find?_apply (h : Yields (apply f t) t') (k : κ) :
    match t.find? k with
    | some v => Yields (f k v) (t'.find? k)
    | none => t'.find? k = none := by
  have hturn : ∀ e ∈ t.entries, ∀ s s', Yields (applyEntry f s e) s' →
      if e.1 = k then Yields (f k e.2) (s'.find? k) else s'.find? k = s.find? k := by
    intro e _ s s' hy
    obtain ⟨r, hr, hfind⟩ := find?_applyEntry hy
    rw [hfind]
    split_ifs with hk
    · exact hk ▸ hr
    · rfl
  have hloop := foldlM_turn k (OrdTable.find? · k) (fun v _ r => Yields (f k v) r) t.nodup hturn h
  cases hk : t.find? k with
  | none =>
    rw [show OrdTable.lookup k t.entries = none from hk] at hloop
    exact hloop.trans hk
  | some v =>
    rw [show OrdTable.lookup k t.entries = some v from hk] at hloop
    exact hloop

/-- A key that is not there is not added. -/
theorem find?_apply_none {k : κ} (h : Yields (apply f t) t') (hk : t.find? k = none) :
    t'.find? k = none := by
  have := find?_apply h k
  rwa [hk] at this

/-- An entry has the value the callback gives it. -/
theorem find?_apply_some {k : κ} {v : ν} (h : Yields (apply f t) t') (hk : t.find? k = some v) :
    Yields (f k v) (t'.find? k) := by
  have := find?_apply h k
  rwa [hk] at this

/-- The loop comes to its end if the callback does on every entry. -/
theorem exists_apply (hf : ∀ k v, t.find? k = some v → ∃ r, Yields (f k v) r) :
    ∃ t', Yields (apply f t) t' := by
  have hstep : ∀ (l : List (κ × ν)) (s : OrdTable κ ν), (∀ e ∈ l, ∃ r, Yields (f e.1 e.2) r) →
      ∃ t', Yields (l.foldlM (applyEntry f) s) t' := by
    intro l
    induction l with
    | nil => exact fun s _ => ⟨s, yields_pure.mpr rfl⟩
    | cons e l ih =>
      intro s hl
      obtain ⟨r, hr⟩ := hl e List.mem_cons_self
      have hone : ∃ s', Yields (applyEntry f s e) s' := by
        cases r with
        | some v => exact ⟨_, yields_bind.mpr ⟨_, hr, yields_pure.mpr rfl⟩⟩
        | none => exact ⟨_, yields_bind.mpr ⟨_, hr, yields_pure.mpr rfl⟩⟩
      obtain ⟨s', hs'⟩ := hone
      obtain ⟨t', ht'⟩ := ih s' fun e' he' => hl e' (List.mem_cons_of_mem _ he')
      exact ⟨t', by rw [List.foldlM_cons]; exact yields_bind.mpr ⟨s', hs', ht'⟩⟩
  exact hstep t.entries t fun e he => hf e.1 e.2 (OrdTable.find?_eq_some.mpr he)

end Snuffleupagus.Lib.Apply
