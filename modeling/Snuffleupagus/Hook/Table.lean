import Mathlib.Logic.Relation
import Snuffleupagus.Php.Engine

/-! # Handlers and hooks

The function table of the engine maps names to functions, internal functions with the handler that
runs them. The module hooks an internal function by writing its own handler into the slot and keeping
the old one in one of three tables, from which its handler later finds what to call.

* `hookFunctionRaw` / `hookFunction`: one hook, and the twin with or without `mb_`;
* `typeOf_hookFunction`: hooking changes no function's type, so that
* `fst_hookFunction`: a hook succeeds exactly on an internal function. -/

namespace Snuffleupagus.Hook.Table

open Snuffleupagus.Lib.Table Snuffleupagus.Php.Bytes Snuffleupagus.Php.Value
open Snuffleupagus.Php.Engine

/-- A `zif_handler`: one of the module's, or that of the engine or of another extension. -/
inductive ZifHandler
  | php (id : ℕ)
  | spSerialize
  | spUnserialize
  | spInArray
  | spArraySearch
  | spArrayKeys
  | spRand
  | spMtRand
  | spLibxmlDisableEntityLoader
  | spLibxmlSetExternalEntityLoader
  | spStreamWrapperRegister
  | spStreamWrapperRestore
  | spSetcookie
  | checkDisabledFunction
  | evalBlacklistCallback
  deriving DecidableEq

/-- What the module reads and writes of an entry of the function table. -/
structure FunctionEntry where
  type : FnType
  handler : ZifHandler

/-- No name of a PHP function starts with a digit or a minus. -/
def validHead : ZendString → Bool
  | [] => true
  | c :: _ => !isDigit c && c != 45

/-- A string without the head of a numeral is a key of its own, also if it is only a part of the key
that has such a head. -/
theorem symtableKey_of_validHead {k : ZendString} (h : validHead (cstr k) = true) :
    symtableKey k = .str k := by
  cases k with
  | nil => exact symtableKey_nil
  | cons c k =>
    by_cases hc : c = 0
    · subst hc
      exact symtableKey_of_head (by decide) (by decide)
    · have hcons : cstr (c :: k) = c :: cstr k := List.takeWhile_cons_of_pos (by simpa using hc)
      rw [hcons] at h
      simp only [validHead, Bool.and_eq_true, Bool.not_eq_true', bne_iff_ne, ne_eq] at h
      exact symtableKey_of_head h.1 h.2

/-- `CG(function_table)`. -/
structure FunctionTable where
  table : OrdTable ZendString FunctionEntry
  valid : ∀ k ∈ table.keys, validHead k = true

namespace FunctionTable

theorem valid_empty : ∀ k ∈ (OrdTable.empty : OrdTable ZendString FunctionEntry).keys, validHead k = true :=
  List.forall_mem_nil _

/-- `zend_hash_str_find_ptr`. -/
def find? (t : FunctionTable) (k : ZendString) : Option FunctionEntry := t.table.find? k

/-- The type of a function. -/
def typeOf (t : FunctionTable) (k : ZendString) : Option FnType := (t.find? k).map FunctionEntry.type

theorem validHead_of_typeOf {t : FunctionTable} {k : ZendString} {ty : FnType}
    (h : t.typeOf k = some ty) : validHead k = true := by
  obtain ⟨func, hf, -⟩ := Option.map_eq_some_iff.mp h
  exact t.valid k (OrdTable.mem_keys.mpr ⟨func, hf⟩)

/-- The handler of a function. -/
def handlerOf (t : FunctionTable) (k : ZendString) : Option ZifHandler :=
  (t.find? k).map FunctionEntry.handler

/-- Write the handler slot of a function, if there is the function. -/
def setHandler (t : FunctionTable) (k : ZendString) (new : ZifHandler) : FunctionTable :=
  match h : t.table.find? k with
  | none => t
  | some func =>
    ⟨t.table.insert k { func with handler := new }, fun k' hk' => by
      rcases OrdTable.mem_keys_insert.mp hk' with rfl | hk'
      · exact t.valid _ (OrdTable.mem_keys.mpr ⟨func, h⟩)
      · exact t.valid _ hk'⟩

theorem find?_setHandler (t : FunctionTable) (k : ZendString) (new : ZifHandler) (k' : ZendString) :
    (t.setHandler k new).find? k' =
      if k = k' then (t.find? k).map fun func => { func with handler := new } else t.find? k' := by
  unfold setHandler find?
  split
  next h =>
    split_ifs with hk
    · subst hk; rw [h]; rfl
    · rfl
  next func h =>
    rw [OrdTable.find?_insert, h]
    rfl

theorem typeOf_setHandler (t : FunctionTable) (k : ZendString) (new : ZifHandler) (k' : ZendString) :
    (t.setHandler k new).typeOf k' = t.typeOf k' := by
  unfold typeOf
  rw [find?_setHandler]
  split_ifs with hk
  · subst hk; rw [Option.map_map]; rfl
  · rfl

theorem handlerOf_setHandler_of_ne {t : FunctionTable} {k k' : ZendString} {new : ZifHandler}
    (h : k ≠ k') : (t.setHandler k new).handlerOf k' = t.handlerOf k' := by
  unfold handlerOf
  rw [find?_setHandler, if_neg h]

theorem handlerOf_setHandler_self {t : FunctionTable} {k : ZendString} {new : ZifHandler} :
    (t.setHandler k new).handlerOf k = (t.find? k).map fun _ => new := by
  unfold handlerOf
  rw [find?_setHandler, if_pos rfl, Option.map_map]
  rfl

theorem table_setHandler {t : FunctionTable} {k : ZendString} {func : FunctionEntry} {new : ZifHandler}
    (h : t.find? k = some func) :
    (t.setHandler k new).table = t.table.insert k { func with handler := new } := by
  unfold find? at h
  unfold setHandler
  split
  next hn => rw [h] at hn; cases hn
  next func' hf =>
    rw [h] at hf
    cases hf
    rfl

theorem eq_of_table : ∀ {t t' : FunctionTable}, t.table = t'.table → t = t'
  | ⟨_, _⟩, ⟨_, _⟩, rfl => rfl

end FunctionTable

/-- The tables of saved handlers. -/
inductive HookTable
  | spInternalFunctionsHook
  | disabledFunctionsHook
  | spEvalBlacklistFunctionsHook
  deriving DecidableEq

/-- The function table together with the saved handlers. -/
structure Hooks where
  functionTable : FunctionTable
  saved : HookTable → OrdTable ZendString ZifHandler := fun _ => .empty

/-- Save a handler. -/
def Hooks.save (h : Hooks) (t : HookTable) (name : ZendString) (old : ZifHandler) : Hooks :=
  { h with saved := fun t' => if t' = t then (h.saved t).insert name old else h.saved t' }

/-- Write a handler. -/
def Hooks.setHandler (h : Hooks) (name : ZendString) (new : ZifHandler) : Hooks :=
  { h with functionTable := h.functionTable.setHandler name new }

/-- `_hook_function`: whether it succeeded, and the tables afterwards. -/
def hookFunctionRaw (name : ZendString) (t : HookTable) (new : ZifHandler) (h : Hooks) : Bool × Hooks :=
  match h.functionTable.find? name with
  | none => (false, h)
  | some func =>
    if func.type ≠ .internal then (false, h)
    else if func.handler = new then (true, h)
    else (true, (h.save t name func.handler).setHandler name new)

/-- The twin of a function the `mb` module may have put in its place. -/
def mbTwin (w : World) (name : ZendString) : Option ZendString :=
  if !w.multibyte && (zstr "mb_").isPrefixOf name then some (name.drop 3)
  else if w.multibyte then some (zstr "mb_" ++ name)
  else none

/-- `hook_function`. -/
def hookFunction (w : World) (name : ZendString) (t : HookTable) (new : ZifHandler) (h : Hooks) :
    Bool × Hooks :=
  let (ret, h) := hookFunctionRaw name t new h
  match mbTwin w name with
  | some twin => (ret, (hookFunctionRaw twin t new h).2)
  | none => (ret, h)

/-! ### What a hook changes -/

section Hook
variable {w : World} {name k : ZendString} {t : HookTable} {new : ZifHandler} {h : Hooks}

theorem fst_hookFunctionRaw : (hookFunctionRaw name t new h).1 =
    decide (h.functionTable.typeOf name = some .internal) := by
  unfold hookFunctionRaw FunctionTable.typeOf
  cases h.functionTable.find? name with
  | none => rfl
  | some func => by_cases ht : func.type = .internal <;> by_cases hh : func.handler = new <;> simp [ht, hh]

/-- The slot of an internal function holds the new handler, every other slot what it held. -/
theorem handlerOf_hookFunctionRaw : (hookFunctionRaw name t new h).2.functionTable.handlerOf k =
    if name = k ∧ h.functionTable.typeOf k = some .internal then some new
    else h.functionTable.handlerOf k := by
  by_cases hk : name = k
  · subst hk
    unfold hookFunctionRaw FunctionTable.typeOf FunctionTable.handlerOf
    cases hf : h.functionTable.find? name with
    | none => simp [hf]
    | some func =>
      by_cases ht : func.type = .internal
      · by_cases hh : func.handler = new
        · simp [ht, hh, hf]
        · simp [ht, hh, Hooks.setHandler, Hooks.save, FunctionTable.find?_setHandler, hf]
      · simp [ht, hf]
  · rw [if_neg (fun e => hk e.1)]
    unfold hookFunctionRaw
    cases h.functionTable.find? name with
    | none => rfl
    | some func =>
      dsimp only
      split_ifs
      · rfl
      · rfl
      · exact FunctionTable.handlerOf_setHandler_of_ne hk

theorem typeOf_hookFunctionRaw :
    (hookFunctionRaw name t new h).2.functionTable.typeOf k = h.functionTable.typeOf k := by
  unfold hookFunctionRaw
  cases h.functionTable.find? name with
  | none => rfl
  | some func =>
    dsimp only
    split_ifs
    · rfl
    · rfl
    · exact FunctionTable.typeOf_setHandler _ _ _ _

/-- What a hook saves is the handler it replaces. -/
theorem saved_hookFunctionRaw {t' : HookTable} : ((hookFunctionRaw name t new h).2.saved t').find? k =
    if t' = t ∧ name = k ∧ h.functionTable.typeOf k = some .internal ∧
        h.functionTable.handlerOf k ≠ some new
    then h.functionTable.handlerOf k else (h.saved t').find? k := by
  unfold hookFunctionRaw FunctionTable.typeOf FunctionTable.handlerOf
  by_cases hk : name = k
  · subst hk
    cases hf : h.functionTable.find? name with
    | none => simp
    | some func =>
      by_cases ht : func.type = .internal
      · by_cases hh : func.handler = new
        · simp [ht, hh]
        · by_cases ht' : t' = t
          · subst ht'; simp [ht, hh, Hooks.setHandler, Hooks.save]
          · simp [ht, hh, Hooks.setHandler, Hooks.save, ht']
      · simp [ht]
  · rw [if_neg (fun e => hk e.2.1)]
    cases h.functionTable.find? name with
    | none => rfl
    | some func =>
      dsimp only
      split_ifs
      · rfl
      · rfl
      · by_cases ht' : t' = t
        · subst ht'; simp [hk, Hooks.setHandler, Hooks.save]
        · simp [ht', Hooks.setHandler, Hooks.save]

/-- **A hook succeeds exactly on an internal function.** -/
theorem fst_hookFunction : (hookFunction w name t new h).1 =
    decide (h.functionTable.typeOf name = some .internal) := by
  unfold hookFunction
  cases mbTwin w name <;> exact fst_hookFunctionRaw

/-- Hooking changes the type of no function. -/
theorem typeOf_hookFunction :
    (hookFunction w name t new h).2.functionTable.typeOf k = h.functionTable.typeOf k := by
  unfold hookFunction
  cases mbTwin w name with
  | none => exact typeOf_hookFunctionRaw
  | some twin => exact typeOf_hookFunctionRaw.trans typeOf_hookFunctionRaw

/-- The slots of the function and of its twin hold the new handler, every other slot what it held. -/
theorem handlerOf_hookFunction : (hookFunction w name t new h).2.functionTable.handlerOf k =
    if (name = k ∨ mbTwin w name = some k) ∧ h.functionTable.typeOf k = some .internal then some new
    else h.functionTable.handlerOf k := by
  unfold hookFunction
  cases mbTwin w name with
  | none =>
    rw [handlerOf_hookFunctionRaw]
    simp
  | some twin =>
    dsimp only
    rw [handlerOf_hookFunctionRaw, typeOf_hookFunctionRaw, handlerOf_hookFunctionRaw]
    by_cases hi : h.functionTable.typeOf k = some .internal <;> by_cases h1 : name = k <;>
      by_cases h2 : twin = k <;> simp [hi, h1, h2]

/-- What is saved is the handler replaced, for the function as for its twin. -/
theorem saved_hookFunction {t' : HookTable} : ((hookFunction w name t new h).2.saved t').find? k =
    if t' = t ∧ (name = k ∨ mbTwin w name = some k) ∧ h.functionTable.typeOf k = some .internal ∧
        h.functionTable.handlerOf k ≠ some new
    then h.functionTable.handlerOf k else (h.saved t').find? k := by
  unfold hookFunction
  cases mbTwin w name with
  | none =>
    rw [saved_hookFunctionRaw]
    simp
  | some twin =>
    dsimp only
    rw [saved_hookFunctionRaw, typeOf_hookFunctionRaw, handlerOf_hookFunctionRaw, saved_hookFunctionRaw]
    by_cases hi : h.functionTable.typeOf k = some .internal <;> by_cases h1 : name = k <;>
      by_cases h2 : twin = k <;> simp [hi, h1, h2]

/-- **What one hook can do to a function**: nothing, or take its handler's place and save it. -/
theorem hookFunction_cases (w : World) (name : ZendString) (t : HookTable) (new : ZifHandler)
    (h : Hooks) (k : ZendString) :
    ((hookFunction w name t new h).2.functionTable.handlerOf k = h.functionTable.handlerOf k ∧
      ∀ t', ((hookFunction w name t new h).2.saved t').find? k = (h.saved t').find? k) ∨
    ∃ old, h.functionTable.handlerOf k = some old ∧ old ≠ new ∧
      h.functionTable.typeOf k = some .internal ∧ (name = k ∨ mbTwin w name = some k) ∧
      (hookFunction w name t new h).2.functionTable.handlerOf k = some new ∧
      ((hookFunction w name t new h).2.saved t).find? k = some old ∧
      ∀ t' ≠ t, ((hookFunction w name t new h).2.saved t').find? k = (h.saved t').find? k := by
  by_cases hc : (name = k ∨ mbTwin w name = some k) ∧ h.functionTable.typeOf k = some .internal
  · by_cases hn : h.functionTable.handlerOf k = some new
    · left
      refine ⟨?_, fun t' => ?_⟩
      · rw [handlerOf_hookFunction, if_pos hc, hn]
      · rw [saved_hookFunction, if_neg fun e => e.2.2.2 hn]
    · right
      obtain ⟨func, hf, -⟩ := Option.map_eq_some_iff.mp hc.2
      have hold : h.functionTable.handlerOf k = some func.handler := by
        rw [FunctionTable.handlerOf, hf, Option.map_some]
      refine ⟨func.handler, hold, fun e => hn (hold.trans (congrArg some e)), hc.2, hc.1, ?_, ?_, ?_⟩
      · rw [handlerOf_hookFunction, if_pos hc]
      · rw [saved_hookFunction, if_pos ⟨rfl, hc.1, hc.2, hn⟩, hold]
      · intro t' ht
        rw [saved_hookFunction, if_neg fun e => ht e.1]
  · left
    refine ⟨?_, fun t' => ?_⟩
    · rw [handlerOf_hookFunction, if_neg hc]
    · rw [saved_hookFunction, if_neg fun e => hc ⟨e.2.1, e.2.2.1⟩]

end Hook

/-! ### Hooking several functions -/

/-- One function is hooked with the handler `new`. -/
def HookStep (w : World) (t : HookTable) (new : ZifHandler) (h h' : Hooks) : Prop :=
  ∃ name, h' = (hookFunction w name t new h).2

/-- Functions are hooked one after the other. -/
abbrev HookSteps (w : World) (t : HookTable) (new : ZifHandler) : Hooks → Hooks → Prop :=
  Relation.ReflTransGen (HookStep w t new)

section Steps
variable {w : World} {t : HookTable} {new : ZifHandler} {h h' : Hooks} {k : ZendString}

theorem HookSteps.single (name : ZendString) : HookSteps w t new h (hookFunction w name t new h).2 :=
  Relation.ReflTransGen.single ⟨name, rfl⟩

/-- What every hook preserves. -/
theorem HookSteps.preserve (I : Hooks → Prop) (hs : HookSteps w t new h h')
    (hI : ∀ name h, I h → I (hookFunction w name t new h).2) (h₀ : I h) : I h' := by
  induction hs with
  | refl => exact h₀
  | tail _ hstep ih =>
    obtain ⟨name, rfl⟩ := hstep
    exact hI name _ ih

theorem HookSteps.typeOf (hs : HookSteps w t new h h') :
    h'.functionTable.typeOf k = h.functionTable.typeOf k := by
  induction hs with
  | refl => rfl
  | tail _ hstep ih =>
    obtain ⟨name, rfl⟩ := hstep
    exact typeOf_hookFunction.trans ih

/-- A function that is hooked stays so. -/
theorem HookSteps.handlerOf (hs : HookSteps w t new h h') (hk : h.functionTable.handlerOf k = some new) :
    h'.functionTable.handlerOf k = some new := by
  induction hs with
  | refl => exact hk
  | tail _ hstep ih =>
    obtain ⟨name, rfl⟩ := hstep
    rw [handlerOf_hookFunction, ih, ite_self]

end Steps

end Snuffleupagus.Hook.Table
