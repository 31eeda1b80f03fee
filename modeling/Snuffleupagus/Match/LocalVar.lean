import Snuffleupagus.Match.VarValue

/-! # Local variables along the stack

`get_local_var` walks the stack outwards and rebuilds the symbol table of each frame. Frames of internal
functions have none, and the table of the next frame of user code is searched in their place. So the walk
is a search through the tables of user code, one after the other (`getLocalVar_eq`).

A table also lists the variables a function mentions and has not assigned: their slots are indirect, and
what is behind them is undefined. The search ends at such a slot, in front of every outer variable of that
name. -/

namespace Snuffleupagus.Match.LocalVar

open Snuffleupagus.Lib.Table Snuffleupagus.Php.Bytes Snuffleupagus.Php.Value Snuffleupagus.Php.Engine
open Snuffleupagus.Match.VarValue

/-- What a slot of a symbol table holds. -/
def slotValue : Zval → Zval
  | .indirect v => v
  | v => v

/-- The value of a variable in a frame, if it is defined there. -/
def definedIn (name : ZendString) (f : Frame) : Option Zval :=
  ((OrdTable.lookup name f.symbols).map slotValue).filter fun v => (v.type ≠ .undef)

/-- **The variable as seen from the innermost frame**: its value in the nearest frame, going outwards, in
which it is defined. -/
def resolve (name : ZendString) (s : Stack) : Option Zval :=
  (s.filter Frame.isUserCode).findSome? (definedIn name)

/-- The nearest entry of a symbol table under a name, as `strcmp` compares it. -/
def nearestEntry (name : ZendString) (s : Stack) : Option (ZendString × Zval) :=
  ((s.filter Frame.isUserCode).flatMap Frame.symbols).find? fun e => cstr e.1 == name

/-! ### The walk -/

theorem filter_userFrames (s : Stack) :
    (userFrames s).filter Frame.isUserCode = s.filter Frame.isUserCode := by
  unfold userFrames
  induction s with
  | nil => rfl
  | cons f s ih =>
    by_cases hf : f.isUserCode = true
    · rw [List.dropWhile_cons_of_neg (by simp [hf])]
    · rw [List.dropWhile_cons_of_pos (by simp [hf]), List.filter_cons_of_neg hf, ih]

/-- Without a frame of user code there is no symbol table, and with one it is that of the first. -/
theorem zendRebuildSymbolTable_eq (s : Stack) :
    zendRebuildSymbolTable s = ((s.filter Frame.isUserCode).head?).map Frame.symbols := by
  rw [← filter_userFrames]
  unfold zendRebuildSymbolTable
  cases h : userFrames s with
  | nil => rfl
  | cons f t =>
    have hf : f.isUserCode = true := by
      have hnot := List.head?_dropWhile_not (fun f => !f.isUserCode) s
      unfold userFrames at h
      rw [h] at hnot
      simpa using hnot
    rw [List.filter_cons_of_pos hf]
    rfl

/-- One turn of the walk. -/
theorem getLocalVar_cons (name : ZendString) (f : Frame) (s : Stack) : getLocalVar name (f :: s) =
    (zendRebuildSymbolTable (f :: s)).bind fun symtable =>
      ((symtable.find? fun e => cstr e.1 == name).map fun e => slotValue e.2).or (getLocalVar name s) := by
  rw [getLocalVar]
  cases zendRebuildSymbolTable (f :: s) with
  | none => rfl
  | some symtable =>
    unfold findSymbol
    dsimp only [Option.bind_some]
    cases symtable.find? fun e => cstr e.1 == name with
    | none => rfl
    | some e =>
      obtain ⟨k, v⟩ := e
      cases v <;> rfl

/-- **The walk is a search through the symbol tables of user code.** -/
theorem getLocalVar_eq (name : ZendString) (s : Stack) :
    getLocalVar name s = (nearestEntry name s).map fun e => slotValue e.2 := by
  induction s with
  | nil => rfl
  | cons f s ih =>
    rw [getLocalVar_cons, zendRebuildSymbolTable_eq]
    cases hl : (f :: s).filter Frame.isUserCode with
    | nil =>
      unfold nearestEntry
      rw [hl]
      rfl
    | cons f' l =>
      have heq : nearestEntry name (f :: s) =
          (f'.symbols.find? fun e => cstr e.1 == name).or
            ((l.flatMap Frame.symbols).find? fun e => cstr e.1 == name) := by
        unfold nearestEntry
        rw [hl, List.flatMap_cons, List.find?_append]
      rw [List.head?_cons, Option.map_some, Option.bind_some, ih, heq, Option.map_or]
      by_cases hf : f.isUserCode = true
      · -- the walk goes on behind the frame whose table has been searched
        rw [List.filter_cons_of_pos hf] at hl
        obtain ⟨-, hl⟩ := List.cons.inj hl
        unfold nearestEntry
        rw [hl]
      · -- the table of the next frame of user code is searched once more
        rw [List.filter_cons_of_neg hf] at hl
        unfold nearestEntry
        rw [hl, List.flatMap_cons, List.find?_append, Option.map_or, ← Option.or_assoc, Option.or_self]

/-! ### The variable found -/

section Found
variable {name : ZendString} {s : Stack}

theorem find?_of_lookup_ne_none {v : Zval} : ∀ {l : List (ZendString × Zval)}, cstr name = name →
    OrdTable.lookup name l = some v → (l.find? fun e => cstr e.1 == name).isSome = true := by
  intro l hname h
  rw [List.find?_isSome]
  exact ⟨(name, v), OrdTable.mem_of_lookup h, by simp [hname]⟩

/-- An entry with exactly this name in front of all others is what PHP finds. -/
theorem definedIn_of_find? {f : Frame} {v : Zval} (hname : cstr name = name)
    (h : (f.symbols.find? fun e => cstr e.1 == name) = some (name, v)) (hv : (slotValue v).type ≠ .undef) :
    definedIn name f = some (slotValue v) := by
  have hlookup : ∀ l : List (ZendString × Zval), (l.find? fun e => cstr e.1 == name) = some (name, v) →
      OrdTable.lookup name l = some v := by
    intro l hl
    induction l with
    | nil => simp at hl
    | cons e l ih =>
      obtain ⟨k, v'⟩ := e
      rw [OrdTable.lookup]
      by_cases hk : k = name
      · rw [List.find?_cons_of_pos (by simp [hk, hname])] at hl
        rw [if_pos hk, (Prod.mk.inj (Option.some.inj hl)).2]
      · rw [if_neg hk]
        refine ih ?_
        by_cases hck : cstr k = name
        · rw [List.find?_cons_of_pos (by simp [hck])] at hl
          exact absurd (Prod.mk.inj (Option.some.inj hl)).1 hk
        · rwa [List.find?_cons_of_neg (by simpa using hck)] at hl
  unfold definedIn
  rw [hlookup _ h, Option.map_some]
  simp [hv]

theorem definedIn_of_find?_none {f : Frame} (hname : cstr name = name)
    (h : (f.symbols.find? fun e => cstr e.1 == name) = none) : definedIn name f = none := by
  have hlookup : OrdTable.lookup name f.symbols = none := by
    refine Option.eq_none_iff_forall_ne_some.mpr fun v hv => ?_
    have hsome := find?_of_lookup_ne_none hname hv
    rw [h] at hsome
    cases hsome
  unfold definedIn
  rw [hlookup]
  rfl

/-- Where no table has an entry, no frame defines the variable. -/
theorem resolve_of_none (hname : cstr name = name) (h : nearestEntry name s = none) :
    resolve name s = none := by
  unfold nearestEntry at h
  unfold resolve
  generalize s.filter Frame.isUserCode = l at h
  induction l with
  | nil => rfl
  | cons f l ih =>
    rw [List.flatMap_cons, List.find?_append, Option.or_eq_none_iff] at h
    rw [List.findSome?_cons, definedIn_of_find?_none hname h.1, ih h.2]

/-- Where the nearest entry has exactly this name, and is defined, it is the variable. -/
theorem resolve_of_some {v : Zval} (hname : cstr name = name) (h : nearestEntry name s = some (name, v))
    (hv : (slotValue v).type ≠ .undef) : resolve name s = some (slotValue v) := by
  unfold nearestEntry at h
  unfold resolve
  generalize s.filter Frame.isUserCode = l at h
  induction l with
  | nil => cases h
  | cons f l ih =>
    rw [List.flatMap_cons, List.find?_append] at h
    rw [List.findSome?_cons]
    cases hf : f.symbols.find? fun e => cstr e.1 == name with
    | none =>
      rw [hf, Option.none_or] at h
      rw [definedIn_of_find?_none hname hf, ih h]
    | some e =>
      rw [hf, Option.some_or] at h
      cases h
      rw [definedIn_of_find? hname hf hv]

/-- Nothing that is found is undefined. -/
theorem type_of_resolve {v : Zval} (h : resolve name s = some v) : v.type ≠ .undef := by
  unfold resolve at h
  obtain ⟨f, -, hf⟩ := List.exists_of_findSome?_eq_some h
  unfold definedIn at hf
  have hp := (Option.filter_eq_some_iff.mp hf).2
  exact of_decide_eq_true hp

/-- **The variable found is the variable seen** exactly if the nearest entry under its C name, if there is
one, is defined, and is no other variable with another value. -/
theorem local_var_iff (hname : cstr name = name) : getLocalVar name s = resolve name s ↔
    ∀ e, nearestEntry name s = some e → (slotValue e.2).type ≠ .undef ∧
      (e.1 = name ∨ resolve name s = some (slotValue e.2)) := by
  rw [getLocalVar_eq]
  cases h : nearestEntry name s with
  | none =>
    rw [resolve_of_none hname h]
    exact iff_of_true rfl nofun
  | some e =>
    obtain ⟨k, v⟩ := e
    rw [Option.map_some]
    constructor
    · intro heq e he
      cases he
      exact ⟨type_of_resolve heq.symm, Or.inr heq.symm⟩
    · intro hall
      obtain ⟨hdef, hk | hval⟩ := hall (k, v) rfl
      · dsimp only at hk
        subst hk
        exact (resolve_of_some hname h hdef).symm
      · exact hval.symm

end Found

/-- A frame of user code with one variable. -/
def frameWith (name : String) (v : Zval) : Frame where
  func := some { type := .user }
  symbols := [(zstr name, .indirect v)]

/-- A frame of an internal function. -/
def internalFrame : Frame where
  func := some { type := .internal }

theorem local_var_outer :
    getLocalVar (zstr "x") [internalFrame, frameWith "y" .undef, frameWith "x" (.long 1)] =
      resolve (zstr "x") [internalFrame, frameWith "y" .undef, frameWith "x" (.long 1)] := by
  refine (local_var_iff (by decide)).mpr fun e he => ?_
  cases he
  exact ⟨by decide, Or.inl rfl⟩

/-- A function that mentions `$x` without having assigned it hides the `$x` of its caller. -/
theorem local_var_hidden : resolve (zstr "x") [frameWith "x" .undef, frameWith "x" (.long 1)] = some (.long 1) ∧
    getLocalVar (zstr "x") [frameWith "x" .undef, frameWith "x" (.long 1)] = some .undef ∧
      ¬ getLocalVar (zstr "x") [frameWith "x" .undef, frameWith "x" (.long 1)] =
        resolve (zstr "x") [frameWith "x" .undef, frameWith "x" (.long 1)] := by
  refine ⟨rfl, rfl, fun h => ?_⟩
  have hval : some Zval.undef = some (.long 1) := h
  cases hval

end Snuffleupagus.Match.LocalVar
