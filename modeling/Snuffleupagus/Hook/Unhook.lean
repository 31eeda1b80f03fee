import Snuffleupagus.Hook.Stores

/-! # Unhooking

`unhook_functions` puts the handlers a table has saved back into their slots. A function that is in
several tables gets the handler of the one undone last. `original` is the handler a function had before
any of its hooks, read off the tables, and `Tracks` says that it is the one of the initial function
table. Hooking keeps this (`Loading.hook`), so that undoing the tables in the reverse order of hooking
gives the initial function table back (`resetHooks_eq`), whereas the order of the shutdown restores
exactly the functions that are in one table at most (`restored_iff`). -/

namespace Snuffleupagus.Hook.Unhook

open Snuffleupagus.Lib.Table Snuffleupagus.Php.Bytes Snuffleupagus.Php.Engine
open Snuffleupagus.Hook.Table

/-- One turn of the loop of `unhook_functions`. -/
def unhookEntry (h : Hooks) (e : ZendString × ZifHandler) : Hooks :=
  if h.functionTable.typeOf e.1 = some .internal then h.setHandler e.1 e.2 else h

/-- `unhook_functions`, from the last entry of the table to the first. -/
def unhookFunctions (t : HookTable) (h : Hooks) : Hooks :=
  (h.saved t).entries.reverse.foldl unhookEntry h

/-- `zend_hash_clean` on a table of saved handlers. -/
def cleanHooks (t : HookTable) (h : Hooks) : Hooks :=
  { h with saved := fun t' => if t' = t then .empty else h.saved t' }

/-- The hooks at the beginning of `sp_load_config`: those of an earlier load are undone, the last ones
first. -/
def resetHooks (h : Hooks) : Hooks :=
  let h := unhookFunctions .spEvalBlacklistFunctionsHook h
  let h := unhookFunctions .disabledFunctionsHook h
  let h := unhookFunctions .spInternalFunctionsHook h
  cleanHooks .spInternalFunctionsHook (cleanHooks .disabledFunctionsHook
    (cleanHooks .spEvalBlacklistFunctionsHook h))

/-- The hooks after `PHP_MSHUTDOWN_FUNCTION`. -/
def mshutdownHooks (h : Hooks) : Hooks :=
  let h := unhookFunctions .spInternalFunctionsHook h
  let h := unhookFunctions .disabledFunctionsHook h
  unhookFunctions .spEvalBlacklistFunctionsHook h

/-! ### What unhooking does to a function -/

section Unhook
variable {h : Hooks} {f : ZendString} {t : HookTable}

theorem FunctionTable.keys_setHandler (t : FunctionTable) (k : ZendString) (new : ZifHandler) :
    (t.setHandler k new).table.keys = t.table.keys := by
  cases hf : t.find? k with
  | none =>
    unfold FunctionTable.find? at hf
    unfold FunctionTable.setHandler
    split
    · rfl
    · next func hs => rw [hf] at hs; cases hs
  | some func =>
    rw [FunctionTable.table_setHandler hf]
    exact OrdTable.keys_insert_of_find? hf

theorem typeOf_unhookEntry (e : ZendString × ZifHandler) :
    (unhookEntry h e).functionTable.typeOf f = h.functionTable.typeOf f := by
  unfold unhookEntry
  split_ifs
  · exact FunctionTable.typeOf_setHandler _ _ _ _
  · rfl

/-- Unhooking a function puts the handler into its slot, if the function is internal. -/
theorem handlerOf_unhookEntry (e : ZendString × ZifHandler) :
    (unhookEntry h e).functionTable.handlerOf f =
      if e.1 = f ∧ h.functionTable.typeOf f = some .internal then some e.2
      else h.functionTable.handlerOf f := by
  by_cases he : e.1 = f
  · subst he
    by_cases hi : h.functionTable.typeOf e.1 = some .internal
    · obtain ⟨func, hf, -⟩ := Option.map_eq_some_iff.mp hi
      rw [if_pos ⟨rfl, hi⟩]
      unfold unhookEntry
      rw [if_pos hi]
      exact FunctionTable.handlerOf_setHandler_self.trans (by rw [hf]; rfl)
    · rw [if_neg fun e => hi e.2]
      unfold unhookEntry
      rw [if_neg hi]
  · rw [if_neg fun e' => he e'.1]
    unfold unhookEntry
    split_ifs
    · exact FunctionTable.handlerOf_setHandler_of_ne he
    · rfl

theorem saved_unhookEntry (e : ZendString × ZifHandler) : (unhookEntry h e).saved = h.saved := by
  unfold unhookEntry
  split_ifs <;> rfl

theorem keys_unhookEntry (e : ZendString × ZifHandler) :
    (unhookEntry h e).functionTable.table.keys = h.functionTable.table.keys := by
  unfold unhookEntry
  split_ifs
  · exact FunctionTable.keys_setHandler _ _ _
  · rfl

/-- The slot of a function after a loop whose turns write to the slots of internal functions. -/
theorem handlerOf_foldl {step : Hooks → ZendString × ZifHandler → Hooks} {l : List (ZendString × ZifHandler)}
    (hn : (l.map Prod.fst).Nodup)
    (htype : ∀ e ∈ l, ∀ h, (step h e).functionTable.typeOf f = h.functionTable.typeOf f)
    (hslot : ∀ e ∈ l, ∀ h, (step h e).functionTable.handlerOf f =
      if e.1 = f ∧ h.functionTable.typeOf f = some .internal then some e.2 else h.functionTable.handlerOf f) :
    (l.foldl step h).functionTable.handlerOf f =
      if h.functionTable.typeOf f = some .internal then
        (OrdTable.lookup f l).or (h.functionTable.handlerOf f)
      else h.functionTable.handlerOf f := by
  -- a turn is seen at the type of the function and at its slot
  have hturn : ∀ e ∈ l, ∀ h,
      ((step h e).functionTable.typeOf f, (step h e).functionTable.handlerOf f) =
        if e.1 = f then (h.functionTable.typeOf f,
          if h.functionTable.typeOf f = some .internal then some e.2 else h.functionTable.handlerOf f)
        else (h.functionTable.typeOf f, h.functionTable.handlerOf f) := by
    intro e he h
    rw [htype e he, hslot e he]
    by_cases hk : e.1 = f <;> simp [hk]
  have hloop := OrdTable.foldl_turn f
    (fun h : Hooks => (h.functionTable.typeOf f, h.functionTable.handlerOf f))
    (fun b p => (p.1, if p.1 = some .internal then some b else p.2)) hn hturn h
  refine (Prod.ext_iff.mp hloop).2.trans ?_
  cases OrdTable.lookup f l <;> simp

/-- What unhooking one function after the other leaves. -/
theorem foldl_unhookEntry (l : List (ZendString × ZifHandler)) (h : Hooks) (hn : (l.map Prod.fst).Nodup) :
    (l.foldl unhookEntry h).saved = h.saved ∧
    (l.foldl unhookEntry h).functionTable.table.keys = h.functionTable.table.keys ∧
    (∀ f, (l.foldl unhookEntry h).functionTable.typeOf f = h.functionTable.typeOf f) ∧
    ∀ f, (l.foldl unhookEntry h).functionTable.handlerOf f =
      if h.functionTable.typeOf f = some .internal then
        (OrdTable.lookup f l).or (h.functionTable.handlerOf f)
      else h.functionTable.handlerOf f := by
  have hkept : ∀ (l : List (ZendString × ZifHandler)) (h : Hooks), (l.foldl unhookEntry h).saved = h.saved ∧
      (l.foldl unhookEntry h).functionTable.table.keys = h.functionTable.table.keys ∧
      ∀ f, (l.foldl unhookEntry h).functionTable.typeOf f = h.functionTable.typeOf f := by
    intro l
    induction l with
    | nil => exact fun h => ⟨rfl, rfl, fun _ => rfl⟩
    | cons e l ih =>
      intro h
      obtain ⟨hsaved, hkeys, htype⟩ := ih (unhookEntry h e)
      exact ⟨hsaved.trans (saved_unhookEntry e), hkeys.trans (keys_unhookEntry e),
        fun f => (htype f).trans (typeOf_unhookEntry e)⟩
  obtain ⟨hsaved, hkeys, htype⟩ := hkept l h
  exact ⟨hsaved, hkeys, htype, fun f =>
    handlerOf_foldl hn (fun e _ _ => typeOf_unhookEntry e) fun e _ _ => handlerOf_unhookEntry e⟩

theorem unhook_spec (t : HookTable) (h : Hooks) :
    (unhookFunctions t h).saved = h.saved ∧
    (unhookFunctions t h).functionTable.table.keys = h.functionTable.table.keys ∧
    (∀ f, (unhookFunctions t h).functionTable.typeOf f = h.functionTable.typeOf f) ∧
    ∀ f, (unhookFunctions t h).functionTable.handlerOf f =
      if h.functionTable.typeOf f = some .internal then
        (OrdTable.lookup f (h.saved t).entries.reverse).or (h.functionTable.handlerOf f)
      else h.functionTable.handlerOf f := by
  refine foldl_unhookEntry _ h ?_
  rw [List.map_reverse]
  exact List.nodup_reverse.mpr (h.saved t).nodup

@[simp] theorem saved_unhookFunctions : (unhookFunctions t h).saved = h.saved := (unhook_spec t h).1

@[simp] theorem keys_unhookFunctions :
    (unhookFunctions t h).functionTable.table.keys = h.functionTable.table.keys := (unhook_spec t h).2.1

@[simp] theorem typeOf_unhookFunctions :
    (unhookFunctions t h).functionTable.typeOf f = h.functionTable.typeOf f := (unhook_spec t h).2.2.1 f

/-- **Unhooking a table** puts the handlers it has saved back. -/
@[simp] theorem handlerOf_unhookFunctions : (unhookFunctions t h).functionTable.handlerOf f =
    if h.functionTable.typeOf f = some .internal then
      ((h.saved t).find? f).or (h.functionTable.handlerOf f)
    else h.functionTable.handlerOf f := by
  rw [(unhook_spec t h).2.2.2 f, OrdTable.lookup_reverse (h.saved t).nodup]
  rfl

end Unhook

/-! ### The handlers of the initial function table -/

/-- The order in which the tables are hooked. -/
def rank : HookTable → ℕ
  | .spInternalFunctionsHook => 0
  | .disabledFunctionsHook => 1
  | .spEvalBlacklistFunctionsHook => 2

/-- One of the handlers of the module. -/
def isModule : ZifHandler → Bool
  | .php _ => false
  | _ => true

/-- A table whose entries have handlers of PHP. -/
theorem isModule_of_entries {t : FunctionTable} (h : ∀ e ∈ t.table.entries, isModule e.2.handler = false)
    {f : ZendString} {a : ZifHandler} (ha : t.handlerOf f = some a) : isModule a = false := by
  obtain ⟨func, hf, rfl⟩ := Option.map_eq_some_iff.mp ha
  exact h _ (OrdTable.mem_of_lookup hf)

/-- The handler of a function before any of its hooks. -/
def original (h : Hooks) (f : ZendString) : Option ZifHandler :=
  ((h.saved .spInternalFunctionsHook).find? f).or (((h.saved .disabledFunctionsHook).find? f).or
    (((h.saved .spEvalBlacklistFunctionsHook).find? f).or (h.functionTable.handlerOf f)))

/-- **The hooks over the initial function table `t₀`**: the tables keep its handlers, and whatever a
later table has saved over an earlier one is a handler of the module. -/
structure Tracks (t₀ : FunctionTable) (h : Hooks) : Prop where
  keys : h.functionTable.table.keys = t₀.table.keys
  typeOf : ∀ f, h.functionTable.typeOf f = t₀.typeOf f
  internal : ∀ t f a, (h.saved t).find? f = some a → t₀.typeOf f = some .internal
  original : ∀ f, original h f = t₀.handlerOf f
  later : ∀ t t' f a b, rank t < rank t' → (h.saved t).find? f = some a →
    (h.saved t').find? f = some b → isModule b = true

/-- The function is in one of the three tables at most. -/
def WrappedOnce (h : Hooks) (f : ZendString) : Prop :=
  ∀ t t', ((h.saved t).find? f).isSome = true → ((h.saved t').find? f).isSome = true → t = t'

section Tracks
variable {t₀ : FunctionTable} {h : Hooks} {f : ZendString}

theorem tracks_initial (t₀ : FunctionTable) : Tracks t₀ { functionTable := t₀ } where
  keys := rfl
  typeOf _ := rfl
  internal _ _ _ hs := by cases hs
  original _ := rfl
  later _ _ _ _ _ _ hs := by cases hs

/-- An entry of the function table is its type and its handler. -/
theorem find?_ext {t t' : FunctionTable} {k : ZendString} (ht : t.typeOf k = t'.typeOf k)
    (hh : t.handlerOf k = t'.handlerOf k) : t.table.find? k = t'.table.find? k := by
  unfold FunctionTable.typeOf FunctionTable.handlerOf FunctionTable.find? at *
  cases hx : t.table.find? k with
  | none =>
    rw [hx] at ht
    exact (Option.map_eq_none_iff.mp ht.symm).symm
  | some e =>
    rw [hx] at ht hh
    obtain ⟨e', he', hty⟩ := Option.map_eq_some_iff.mp ht.symm
    rw [he'] at hh
    obtain ⟨ty, a⟩ := e
    obtain ⟨ty', a'⟩ := e'
    cases hty
    cases hh
    exact he'.symm

/-- Nothing has been saved for a function that is not internal. -/
theorem Tracks.saved_eq_none (ht : Tracks t₀ h) (hi : t₀.typeOf f ≠ some .internal) (t : HookTable) :
    (h.saved t).find? f = none := by
  cases hs : (h.saved t).find? f with
  | none => rfl
  | some a => exact absurd (ht.internal t f a hs) hi

/-- **Undoing the tables in the reverse order of hooking gives the initial function table back.** -/
theorem resetHooks_eq (ht : Tracks t₀ h) : resetHooks h = { functionTable := t₀ } := by
  have htable : (unhookFunctions .spInternalFunctionsHook (unhookFunctions .disabledFunctionsHook
      (unhookFunctions .spEvalBlacklistFunctionsHook h))).functionTable = t₀ := by
    refine FunctionTable.eq_of_table (OrdTable.ext_of_find? (by simp [ht.keys]) fun k => ?_)
    refine find?_ext (by simp [ht.typeOf]) ?_
    have horig := ht.original k
    simp only [handlerOf_unhookFunctions, typeOf_unhookFunctions, saved_unhookFunctions, ht.typeOf]
    by_cases hi : t₀.typeOf k = some .internal
    · simp only [hi, if_true]
      exact horig
    · simp only [hi, if_false]
      unfold original at horig
      rwa [ht.saved_eq_none hi, ht.saved_eq_none hi, ht.saved_eq_none hi] at horig
  unfold resetHooks cleanHooks
  dsimp only
  rw [htable]
  congr 1
  funext t
  cases t <;> simp

/-- **The shutdown restores exactly the functions that are in one table at most.** -/
theorem restored_iff (ht : Tracks t₀ h) (hi : t₀.typeOf f = some .internal)
    (hphp : ∀ a, t₀.handlerOf f = some a → isModule a = false) :
    (mshutdownHooks h).functionTable.handlerOf f = t₀.handlerOf f ↔ WrappedOnce h f := by
  have horig := ht.original f
  have hfinal : (mshutdownHooks h).functionTable.handlerOf f =
      ((h.saved .spEvalBlacklistFunctionsHook).find? f).or (((h.saved .disabledFunctionsHook).find? f).or
        (((h.saved .spInternalFunctionsHook).find? f).or (h.functionTable.handlerOf f))) := by
    unfold mshutdownHooks
    simp only [handlerOf_unhookFunctions, typeOf_unhookFunctions, saved_unhookFunctions, ht.typeOf,
      hi, if_true]
  unfold original at horig
  rw [hfinal]
  constructor
  · -- what the last of two tables leaves in a slot is not the handler of PHP
    intro h₁
    have hne : ∀ t t' a b, rank t < rank t' → (h.saved t).find? f = some a →
        (h.saved t').find? f = some b → t₀.handlerOf f ≠ some b := by
      intro t t' a b hlt hs hs' he
      have hm := ht.later t t' f a b hlt hs hs'
      rw [hphp b he] at hm
      cases hm
    have hlast : ∀ t t' a b, rank t < rank t' → (h.saved t).find? f = some a →
        (h.saved t').find? f ≠ some b := by
      intro t t' a b hlt hs hs'
      cases he : (h.saved .spEvalBlacklistFunctionsHook).find? f with
      | some c =>
        rw [he] at h₁
        have hlt' : rank t < rank .spEvalBlacklistFunctionsHook := by
          cases t' <;> simp only [rank] at hlt ⊢ <;> omega
        exact hne t _ a c hlt' hs he h₁.symm
      | none =>
        cases t' with
        | spInternalFunctionsHook => simp [rank] at hlt
        | spEvalBlacklistFunctionsHook => rw [he] at hs'; cases hs'
        | disabledFunctionsHook =>
          rw [he, hs'] at h₁
          exact hne t _ a b hlt hs hs' h₁.symm
    intro t t' hs hs'
    obtain ⟨a, ha⟩ := Option.isSome_iff_exists.mp hs
    obtain ⟨b, hb⟩ := Option.isSome_iff_exists.mp hs'
    rcases Nat.lt_trichotomy (rank t) (rank t') with hlt | heq | hlt
    · exact absurd hb (hlast t t' a b hlt ha)
    · cases t <;> cases t' <;> first | rfl | cases heq
    · exact absurd ha (hlast t' t b a hlt hb)
  · intro h₁
    rw [← horig]
    have hid := h₁ .spInternalFunctionsHook .disabledFunctionsHook
    have hie := h₁ .spInternalFunctionsHook .spEvalBlacklistFunctionsHook
    have hde := h₁ .disabledFunctionsHook .spEvalBlacklistFunctionsHook
    generalize (h.saved .spInternalFunctionsHook).find? f = i at *
    generalize (h.saved .disabledFunctionsHook).find? f = d at *
    generalize (h.saved .spEvalBlacklistFunctionsHook).find? f = e at *
    cases i <;> cases d <;> cases e <;> simp at hid hie hde ⊢

end Tracks

end Snuffleupagus.Hook.Unhook
