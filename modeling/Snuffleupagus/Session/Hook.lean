import Snuffleupagus.Session.Handler

/-! # The session module

PHP keeps a pointer to the save handler in use, `PS(mod)`. `hook_session` puts the module on two ways: the
function PHP calls when a request starts, which selects the save handler, and the handler of the directive
`session.save_handler`, which changes it. Both do what PHP does first, and then put the wrapper of the
module back: a copy of the structure of the save handler, with the two hooks in the place of its functions
to read and to write.

While PHP does its part, the save handler is in use without the wrapper. Nothing may read or write a session
then (`meets`): not the start of the request, with `session.auto_start`, and no handler of errors, when a
change fails with a warning. Otherwise what is in use between two events is the wrapper, over the save
handler selected last (`OneLayer`). The first load must find the directive, or else a later load hooks the
hook.

PHP before 7.1, and a `malloc` that fails, are left out. -/

namespace Snuffleupagus.Session.Hook

open Snuffleupagus.Lib.Effect Snuffleupagus.Php.Bytes Snuffleupagus.Php.Engine
open Snuffleupagus.Config.Rule Snuffleupagus.Log Snuffleupagus.Crypt.Zval
open Snuffleupagus.Unserialize.Handler Snuffleupagus.Session.Handler

/-! ### The globals -/

/-- A `ps_module *`: the structure of a save handler, or one the module has allocated. -/
inductive ModPtr
  | null
  | php (h : ℕ)
  | sp (i : ℕ)
  deriving DecidableEq

/-- A function to read or to write: that of a save handler, or the hook. -/
inductive Impl
  | php (h : ℕ)
  | hook
  deriving DecidableEq

/-- A `ps_module`: the save handler its other functions are of, and the two functions. -/
structure PsStruct where
  others : ℕ
  sRead : Impl
  sWrite : Impl
  deriving DecidableEq

/-- Whose a callback is. -/
inductive Owner
  | php
  | sp
  deriving DecidableEq

/-- A part PHP does before the module goes on. -/
inductive Frame
  | rinit
  | change
  deriving DecidableEq

/-- `PS(mod)`, the callbacks of the session extension, and the variables of the module about them.
`pending` are the parts of PHP that have not come to their end, the innermost one first; `crashed` is the
end of the process. -/
structure Sessions where
  mod : ModPtr := .null
  requestStartupFunc : Owner := .php
  /-- The handler of `session.save_handler`, once there is the directive. -/
  onModify : Option Owner := none
  sModule : Option ℕ := none
  structs : List PsStruct := []
  sOriginalMod : ModPtr := .null
  oldSRead : Option Impl := none
  oldSWrite : Option Impl := none
  previousSessionRINIT : Option Owner := none
  oldOnUpdateSaveHandler : Option Owner := none
  pending : List Frame := []
  crashed : Bool := false
  deriving DecidableEq

/-- What a pointer points to. -/
def Sessions.deref (s : Sessions) : ModPtr → Option PsStruct
  | .null => none
  | .php h => some ⟨h, .php h, .php h⟩
  | .sp i => s.structs[i]?

/-! ### The functions of the module -/

/-- `sp_hook_session_module`. -/
def spHookSessionModule (s : Sessions) : Sessions :=
  match s.deref s.mod with
  | none => s
  | some oldMod =>
    if s.sModule.map ModPtr.sp = some s.mod then s
    else
      let wrapper : PsStruct := { oldMod with sRead := .hook, sWrite := .hook }
      { s with sModule := some (s.sModule.getD s.structs.length)
               structs := match s.sModule with
                 | some i => s.structs.set i wrapper
                 | none => s.structs ++ [wrapper]
               sOriginalMod := s.mod
               oldSRead := some oldMod.sRead
               oldSWrite := some oldMod.sWrite
               mod := .sp (s.sModule.getD s.structs.length) }

/-- `hook_session`, in a PHP with sessions. -/
def hookSession (s : Sessions) : Sessions :=
  if s.oldOnUpdateSaveHandler.isSome then s
  else
    let s := { s with previousSessionRINIT := some s.requestStartupFunc, requestStartupFunc := .sp }
    let s := match s.onModify with
      | some onModify => { s with oldOnUpdateSaveHandler := some onModify, onModify := some .sp }
      | none => s
    spHookSessionModule { s with sModule := none }

/-- What PHP makes of `PS(mod)`: it keeps it, or selects a save handler, or none if there is none of the
name. -/
def Sessions.select (s : Sessions) : Option (Option ℕ) → Sessions
  | none => s
  | some none => { s with mod := .null }
  | some (some h) => { s with mod := .php h }

/-- `sp_hook_session_RINIT`, or PHP's, up to the selection of the save handler. A hook that has saved
itself calls itself for ever. -/
def enterRinit (sel : Option (Option ℕ)) (s : Sessions) : Sessions :=
  if s.requestStartupFunc = .sp ∧ s.previousSessionRINIT = some .sp then { s with crashed := true }
  else { s.select sel with pending := [.rinit] }

/-- The end of it. -/
def leaveRinit (pending : List Frame) (s : Sessions) : Sessions :=
  let s := { s with pending := pending }
  if s.requestStartupFunc = .sp then spHookSessionModule s else s

/-- `sp_OnUpdateSaveHandler`, or PHP's, up to what PHP makes of the new value. -/
def enterChange (onModify : Owner) (s : Sessions) : Sessions :=
  { s with mod := if onModify = .sp then s.sOriginalMod else s.mod, pending := .change :: s.pending }

/-- The end of it. A change that fails keeps the save handler. -/
def leaveChange (sel : Option (Option ℕ)) (pending : List Frame) (s : Sessions) : Sessions :=
  let s := { s.select sel with pending := pending }
  if s.onModify = some .sp then spHookSessionModule s else s

/-! ### A run -/

/-- What happens: the session extension starts, a configuration is loaded (with something to do for
sessions, or without), a request starts, the directive is changed, a session is read or written. -/
inductive Event
  | minit (sel : Option ℕ)
  | load (session : Bool)
  | rinit (sel : Option (Option ℕ))
  | rinitEnd
  | change
  | changeEnd (sel : Option (Option ℕ))
  | io

/-- One event, if it can happen. A configuration is loaded between the requests, and no script runs while
a request starts; while a change fails, a handler of errors may run. -/
def step (s : Sessions) : Event → Option Sessions
  | .minit sel =>
    if s.crashed || s.onModify.isSome || !s.pending.isEmpty then none
    else some { s.select (some sel) with onModify := some .php }
  | .load session =>
    if s.crashed || !s.pending.isEmpty then none
    else some (if session then hookSession s else s)
  | .rinit sel => if s.crashed || !s.pending.isEmpty then none else some (enterRinit sel s)
  | .rinitEnd =>
    match s.pending with
    | .rinit :: pending => if s.crashed then none else some (leaveRinit pending s)
    | _ => none
  | .change =>
    match s.onModify with
    | some onModify =>
      if s.crashed || s.pending.contains .rinit then none else some (enterChange onModify s)
    | none => none
  | .changeEnd sel =>
    match s.pending with
    | .change :: pending => if s.crashed then none else some (leaveChange sel pending s)
    | _ => none
  | .io => if s.crashed then none else some s

/-- Events one after the other. -/
def run (l : List Event) (s : Sessions) : Option Sessions := l.foldlM step s

/-- The save handler selected last. -/
def selectedBy (last : Option ℕ) : Event → Option ℕ
  | .minit (some h) => some h
  | .rinit (some (some h)) => some h
  | .changeEnd (some (some h)) => some h
  | _ => last

/-- **The condition**: the directive is there when sessions are hooked, and no session is read or written
while PHP selects a save handler. -/
def meets (s : Sessions) : Event → Bool
  | .load session => !session || s.onModify.isSome
  | .io => decide (s.requestStartupFunc = .php) || s.pending.isEmpty
  | _ => true

section Io
variable (w : World) (g : SpGlobals) (c : Crypto) {σ : Type} (handlers : ℕ → PsModule σ) (s : Sessions)

/-- `PS(mod)->s_read`. There is no result without a save handler, or if the hook calls itself. -/
def sessionRead (key : Option ZendString) (st : σ) : Option (Sp (Bool × Option ZendString × σ)) :=
  match (s.deref s.mod).map PsStruct.sRead, s.oldSRead with
  | some (.php h), _ => some (pure ((handlers h).sRead key st))
  | some .hook, some (.php h) => some (spHookSRead w g c (handlers h) key st)
  | _, _ => none

/-- `PS(mod)->s_write`. -/
def sessionWrite (nonce : Nonce) (key : Option ZendString) (val : ZendString) (st : σ) :
    Option (Sp (Bool × σ)) :=
  match (s.deref s.mod).map PsStruct.sWrite, s.oldSWrite with
  | some (.php h), _ => some (pure ((handlers h).sWrite key val st))
  | some .hook, some (.php h) => some (spHookSWrite w g c (handlers h) nonce key val st)
  | _, _ => none

end Io

/-- **The wrapper of the module over the save handler `last`**, or nothing. -/
def OneLayer (s : Sessions) (last : Option ℕ) : Prop :=
  s.mod = .null ∨ ∃ h i, last = some h ∧ s.mod = .sp i ∧ s.sModule = some i ∧
    s.structs[i]? = some ⟨h, .hook, .hook⟩ ∧ s.oldSRead = some (.php h) ∧ s.oldSWrite = some (.php h)

/-- Every session is read and written by the save handler `last`, through one hook; or there are no
sessions. -/
def Once (s : Sessions) (last : Option ℕ) : Prop :=
  s.mod = .null ∨ ∃ h, last = some h ∧
    ∀ (w : World) (g : SpGlobals) (c : Crypto) (σ : Type) (handlers : ℕ → PsModule σ) key val nonce st,
      sessionRead w g c handlers s key st = some (spHookSRead w g c (handlers h) key st) ∧
      sessionWrite w g c handlers s nonce key val st =
        some (spHookSWrite w g c (handlers h) nonce key val st)

/-! ### One event -/

/-- **What an event does**, and when it can happen. -/
inductive Steps (s : Sessions) : Event → Sessions → Prop
  | minit (sel : Option ℕ) (hon : s.onModify = none) :
      Steps s (.minit sel) { s.select (some sel) with onModify := some .php }
  | load (session : Bool) (hp : s.pending = []) : Steps s (.load session) (if session then hookSession s else s)
  | rinit (sel : Option (Option ℕ)) (hp : s.pending = []) : Steps s (.rinit sel) (enterRinit sel s)
  | rinitEnd {pending} (hp : s.pending = .rinit :: pending) : Steps s .rinitEnd (leaveRinit pending s)
  | change {f} (hon : s.onModify = some f) (hp : .rinit ∉ s.pending) : Steps s .change (enterChange f s)
  | changeEnd (sel : Option (Option ℕ)) {pending} (hp : s.pending = .change :: pending) :
      Steps s (.changeEnd sel) (leaveChange sel pending s)
  | io : Steps s .io s

theorem step_cases {s s' : Sessions} {e : Event} (hs : step s e = some s') : Steps s e s' := by
  have hidle : ¬ (s.crashed || !s.pending.isEmpty) = true → s.pending = [] := by
    intro h
    rw [Bool.or_eq_true, not_or, Bool.not_eq_true, Bool.not_eq_true, Bool.not_eq_false'] at h
    exact List.isEmpty_iff.mp h.2
  cases e with
  | minit sel =>
    dsimp only [step] at hs
    split_ifs at hs with hp
    cases hs
    refine .minit sel ?_
    simp only [Bool.or_eq_true, not_or, Bool.not_eq_true] at hp
    exact Option.not_isSome_iff_eq_none.mp (Bool.eq_false_iff.mp hp.1.2)
  | load session =>
    dsimp only [step] at hs
    split_ifs at hs with hp h
    · cases hs
      exact h ▸ .load true (hidle hp)
    · cases hs
      exact (Bool.eq_false_iff.mpr h) ▸ .load false (hidle hp)
  | rinit sel =>
    dsimp only [step] at hs
    split_ifs at hs with hp
    cases hs
    exact .rinit sel (hidle hp)
  | rinitEnd =>
    dsimp only [step] at hs
    split at hs
    next pending hp =>
      split_ifs at hs
      cases hs
      exact .rinitEnd hp
    next => cases hs
  | change =>
    dsimp only [step] at hs
    split at hs
    next f hf =>
      split_ifs at hs with hp
      cases hs
      rw [Bool.or_eq_true, not_or] at hp
      exact .change hf fun h => hp.2 (List.contains_iff_mem.mpr h)
    next => cases hs
  | changeEnd sel =>
    dsimp only [step] at hs
    split at hs
    next pending hp =>
      split_ifs at hs
      cases hs
      exact .changeEnd sel hp
    next => cases hs
  | io =>
    dsimp only [step] at hs
    split_ifs at hs
    cases hs
    exact .io

/-! ### To put the wrapper back -/

/-- A save handler selected last, or none. -/
def Selected (p : ModPtr) (last : Option ℕ) : Prop := p = .null ∨ ∃ h, p = .php h ∧ last = some h

/-- The callbacks, and what PHP is doing. -/
structure SameCallbacks (s s' : Sessions) : Prop where
  requestStartupFunc : s'.requestStartupFunc = s.requestStartupFunc
  onModify : s'.onModify = s.onModify
  previousSessionRINIT : s'.previousSessionRINIT = s.previousSessionRINIT
  oldOnUpdateSaveHandler : s'.oldOnUpdateSaveHandler = s.oldOnUpdateSaveHandler
  pending : s'.pending = s.pending
  crashed : s'.crashed = s.crashed

section Wrapper
variable {s s' : Sessions} {last : Option ℕ} {h : ℕ}

theorem sameCallbacks_spHookSessionModule (s : Sessions) : SameCallbacks s (spHookSessionModule s) := by
  unfold spHookSessionModule
  split
  · exact ⟨rfl, rfl, rfl, rfl, rfl, rfl⟩
  · split_ifs
    · exact ⟨rfl, rfl, rfl, rfl, rfl, rfl⟩
    · exact ⟨rfl, rfl, rfl, rfl, rfl, rfl⟩

/-- The wrapper is not wrapped. -/
theorem spHookSessionModule_of_oneLayer (hl : OneLayer s last) : spHookSessionModule s = s := by
  unfold spHookSessionModule
  rcases hl with hnull | ⟨h, i, -, hmod, hsp, -⟩
  · rw [hnull]
    rfl
  · split
    · rfl
    · rw [if_pos (by rw [hsp, hmod]; rfl)]

/-- **A save handler is wrapped**, in the structure there is, or in a new one. -/
theorem spHookSessionModule_of_php (hmod : s.mod = .php h) (hlast : last = some h)
    (hs : ∀ i, s.sModule = some i → i < s.structs.length) :
    OneLayer (spHookSessionModule s) last ∧ (spHookSessionModule s).sOriginalMod = .php h ∧
      ∀ i, (spHookSessionModule s).sModule = some i → i < (spHookSessionModule s).structs.length := by
  have hne : s.sModule.map ModPtr.sp ≠ some (.php h) := by
    cases s.sModule with
    | none => exact fun heq => by cases heq
    | some i => exact fun heq => by cases heq
  unfold spHookSessionModule
  rw [hmod]
  dsimp only [Sessions.deref]
  rw [if_neg hne]
  cases hsp : s.sModule with
  | none =>
    refine ⟨Or.inr ⟨h, s.structs.length, hlast, rfl, rfl, by simp, rfl, rfl⟩, rfl, ?_⟩
    intro i hi
    cases hi
    simp
  | some i =>
    have hlt := hs i hsp
    refine ⟨Or.inr ⟨h, i, hlast, rfl, rfl, by simp [hlt], rfl, rfl⟩, rfl, ?_⟩
    intro j hj
    cases hj
    simpa using hlt

/-- **Through the wrapper there is one layer.** -/
theorem OneLayer.once (hl : OneLayer s last) : Once s last := by
  rcases hl with hnull | ⟨h, i, hlast, hmod, -, hstruct, hread, hwrite⟩
  · exact Or.inl hnull
  · refine Or.inr ⟨h, hlast, fun w g c σ handlers key val nonce st => ⟨?_, ?_⟩⟩
    · unfold sessionRead
      rw [hmod, Sessions.deref, hstruct, hread]
      rfl
    · unfold sessionWrite
      rw [hmod, Sessions.deref, hstruct, hwrite]
      rfl

end Wrapper

/-! ### What always holds -/

/-- Nothing is hooked: PHP selects the save handlers by itself. -/
structure Unhooked (s : Sessions) (last : Option ℕ) : Prop where
  requestStartupFunc : s.requestStartupFunc = .php
  onModify : s.onModify ≠ some .sp
  oldOnUpdateSaveHandler : s.oldOnUpdateSaveHandler = none
  sOriginalMod : s.sOriginalMod = .null
  crashed : s.crashed = false
  mod : Selected s.mod last

/-- **The wrapper is in use**, or a save handler while PHP does its part. What is put back at the beginning
of a change is the save handler selected last, except while a request starts. -/
structure Hooked (s : Sessions) (last : Option ℕ) : Prop where
  requestStartupFunc : s.requestStartupFunc = .sp
  onModify : s.onModify = some .sp
  previousSessionRINIT : s.previousSessionRINIT = some .php
  oldOnUpdateSaveHandler : s.oldOnUpdateSaveHandler.isSome = true
  crashed : s.crashed = false
  sModule : ∀ i, s.sModule = some i → i < s.structs.length
  frames : s.pending = [.rinit] ∨ .rinit ∉ s.pending
  mod : (OneLayer s last ∧ Selected s.sOriginalMod last) ∨
    s.pending ≠ [] ∧ (∃ h, s.mod = .php h ∧ last = some h) ∧
      (s.pending = [.rinit] ∨ Selected s.sOriginalMod last)

section Step
variable {s s' : Sessions} {last : Option ℕ} {e : Event} {sel : Option (Option ℕ)} {pending : List Frame}

/-- The wrapper is put back when PHP has done its part. -/
theorem Hooked.rehook (hreq : s.requestStartupFunc = .sp) (hon : s.onModify = some .sp)
    (hprev : s.previousSessionRINIT = some .php) (hold : s.oldOnUpdateSaveHandler.isSome = true)
    (hc : s.crashed = false) (hs : ∀ i, s.sModule = some i → i < s.structs.length)
    (hf : .rinit ∉ s.pending)
    (hmod : (OneLayer s last ∧ Selected s.sOriginalMod last) ∨ ∃ h, s.mod = .php h ∧ last = some h) :
    Hooked (spHookSessionModule s) last := by
  have hsame := sameCallbacks_spHookSessionModule s
  have hlayer : (OneLayer (spHookSessionModule s) last ∧ Selected (spHookSessionModule s).sOriginalMod last) ∧
      ∀ i, (spHookSessionModule s).sModule = some i → i < (spHookSessionModule s).structs.length := by
    rcases hmod with ⟨hl, ho⟩ | ⟨h, hm, hlast⟩
    · rw [spHookSessionModule_of_oneLayer hl]
      exact ⟨⟨hl, ho⟩, hs⟩
    · obtain ⟨hl, ho, hs'⟩ := spHookSessionModule_of_php hm hlast hs
      exact ⟨⟨hl, Or.inr ⟨h, ho, hlast⟩⟩, hs'⟩
  refine ⟨hsame.requestStartupFunc.trans hreq, hsame.onModify.trans hon,
    hsame.previousSessionRINIT.trans hprev, ?_, hsame.crashed.trans hc, hlayer.2, Or.inr ?_, Or.inl hlayer.1⟩
  · rw [hsame.oldOnUpdateSaveHandler]
    exact hold
  · rw [hsame.pending]
    exact hf

/-- **The first load that hooks sessions**, between the requests. -/
theorem Unhooked.hookSession (hu : Unhooked s last) (hon : s.onModify.isSome = true)
    (hp : s.pending = []) : Hooked (hookSession s) last := by
  obtain ⟨f, hf⟩ := Option.isSome_iff_exists.mp hon
  unfold Hook.hookSession
  rw [if_neg (by rw [hu.oldOnUpdateSaveHandler]; decide)]
  dsimp only
  rw [hf]
  refine Hooked.rehook rfl rfl ?_ rfl hu.crashed (fun i hi => by cases hi) ?_ ?_
  · show some s.requestStartupFunc = _
    rw [hu.requestStartupFunc]
  · show Frame.rinit ∉ s.pending
    rw [hp]
    exact List.not_mem_nil
  · rcases hu.mod with hnull | hphp
    · exact Or.inl ⟨Or.inl hnull, Or.inl hu.sOriginalMod⟩
    · exact Or.inr hphp

theorem selected_select (hm : Selected s.mod last) :
    (∀ sel, Selected (s.select (some sel)).mod (selectedBy last (.minit sel))) ∧
    (∀ sel, Selected (s.select sel).mod (selectedBy last (.rinit sel))) ∧
    ∀ sel, Selected (s.select sel).mod (selectedBy last (.changeEnd sel)) := by
  refine ⟨?_, ?_, ?_⟩
  · rintro (_ | h)
    · exact Or.inl rfl
    · exact Or.inr ⟨h, rfl, rfl⟩
  · rintro (_ | _ | h)
    · exact hm
    · exact Or.inl rfl
    · exact Or.inr ⟨h, rfl, rfl⟩
  · rintro (_ | _ | h)
    · exact hm
    · exact Or.inl rfl
    · exact Or.inr ⟨h, rfl, rfl⟩

/-- What PHP selects by itself. -/
theorem Unhooked.select (hu : Unhooked s last) {last' : Option ℕ} (hm : Selected (s.select sel).mod last')
    (f : Option Owner) (hf : f ≠ some .sp) (l : List Frame) :
    Unhooked { s.select sel with onModify := f, pending := l } last' := by
  have hsame : (s.select sel).requestStartupFunc = s.requestStartupFunc ∧
      (s.select sel).oldOnUpdateSaveHandler = s.oldOnUpdateSaveHandler ∧
      (s.select sel).sOriginalMod = s.sOriginalMod ∧ (s.select sel).crashed = s.crashed := by
    rcases sel with _ | _ | h <;> exact ⟨rfl, rfl, rfl, rfl⟩
  obtain ⟨h₁, h₂, h₃, h₄⟩ := hsame
  exact ⟨h₁.trans hu.requestStartupFunc, hf, h₂.trans hu.oldOnUpdateSaveHandler,
    h₃.trans hu.sOriginalMod, h₄.trans hu.crashed, hm⟩

theorem onModify_select (s : Sessions) (sel : Option (Option ℕ)) : (s.select sel).onModify = s.onModify := by
  rcases sel with _ | _ | h <;> rfl

theorem Unhooked.step (hu : Unhooked s last) (hm : meets s e = true) (hs : step s e = some s') :
    Unhooked s' (selectedBy last e) ∨ Hooked s' (selectedBy last e) := by
  have hselect := selected_select hu.mod
  cases step_cases hs with
  | minit sel hon => exact Or.inl (hu.select (hselect.1 sel) (some .php) (by decide) _)
  | load session hp =>
    cases session with
    | true => exact Or.inr (hu.hookSession hm hp)
    | false => exact Or.inl hu
  | rinit sel hp =>
    unfold enterRinit
    rw [if_neg fun h => by rw [hu.requestStartupFunc] at h; cases h.1]
    refine Or.inl (hu.select (hselect.2.1 sel) _ ?_ [.rinit])
    rw [onModify_select]
    exact hu.onModify
  | rinitEnd hp =>
    unfold leaveRinit
    dsimp only
    rw [if_neg (by rw [hu.requestStartupFunc]; decide)]
    exact Or.inl ⟨hu.requestStartupFunc, hu.onModify, hu.oldOnUpdateSaveHandler, hu.sOriginalMod,
      hu.crashed, hu.mod⟩
  | @change f hon hp =>
    have hne : f ≠ .sp := fun h => hu.onModify (hon.trans (congrArg some h))
    unfold enterChange
    rw [if_neg hne]
    exact Or.inl ⟨hu.requestStartupFunc, hu.onModify, hu.oldOnUpdateSaveHandler, hu.sOriginalMod,
      hu.crashed, hu.mod⟩
  | changeEnd sel hp =>
    have hon : (s.select sel).onModify ≠ some .sp := by
      rw [onModify_select]
      exact hu.onModify
    unfold leaveChange
    dsimp only
    rw [if_neg hon]
    exact Or.inl (hu.select (hselect.2.2 sel) _ hon _)
  | io => exact Or.inl hu

theorem Hooked.rinit (hh : Hooked s last) (sel : Option (Option ℕ)) (hp : s.pending = []) :
    Hooked (enterRinit sel s) (selectedBy last (.rinit sel)) := by
  have hidle : OneLayer s last ∧ Selected s.sOriginalMod last :=
    hh.mod.resolve_right fun h => h.1 hp
  unfold enterRinit
  rw [if_neg fun h => by rw [hh.previousSessionRINIT] at h; cases h.2]
  rcases sel with _ | _ | h
  · exact ⟨hh.requestStartupFunc, hh.onModify, hh.previousSessionRINIT, hh.oldOnUpdateSaveHandler,
      hh.crashed, hh.sModule, Or.inl rfl, Or.inl hidle⟩
  · exact ⟨hh.requestStartupFunc, hh.onModify, hh.previousSessionRINIT, hh.oldOnUpdateSaveHandler,
      hh.crashed, hh.sModule, Or.inl rfl, Or.inl ⟨Or.inl rfl, hidle.2⟩⟩
  · exact ⟨hh.requestStartupFunc, hh.onModify, hh.previousSessionRINIT, hh.oldOnUpdateSaveHandler,
      hh.crashed, hh.sModule, Or.inl rfl,
      Or.inr ⟨List.cons_ne_nil _ _, ⟨h, rfl, rfl⟩, Or.inl rfl⟩⟩

theorem Hooked.rinitEnd (hh : Hooked s last) (hp : s.pending = .rinit :: pending) :
    Hooked (leaveRinit pending s) last := by
  have hnil : pending = [] := by
    rcases hh.frames with h | h
    · rw [hp] at h
      exact (List.cons.inj h).2
    · exact absurd (hp ▸ List.mem_cons_self) h
  unfold leaveRinit
  dsimp only
  rw [if_pos hh.requestStartupFunc]
  refine Hooked.rehook hh.requestStartupFunc hh.onModify hh.previousSessionRINIT
    hh.oldOnUpdateSaveHandler hh.crashed hh.sModule ?_ ?_
  · rw [hnil]
    exact List.not_mem_nil
  · exact hh.mod.imp_right fun h => h.2.1

/-- What is put back at the beginning of a change is the save handler selected last. -/
theorem Hooked.original (hh : Hooked s last) (hp : .rinit ∉ s.pending) : Selected s.sOriginalMod last := by
  rcases hh.mod with h | ⟨-, -, h | h⟩
  · exact h.2
  · rw [h] at hp
    exact absurd List.mem_cons_self hp
  · exact h

theorem Hooked.change (hh : Hooked s last) (hp : .rinit ∉ s.pending) : Hooked (enterChange .sp s) last := by
  have horiginal := hh.original hp
  refine ⟨hh.requestStartupFunc, hh.onModify, hh.previousSessionRINIT, hh.oldOnUpdateSaveHandler,
    hh.crashed, hh.sModule, Or.inr fun h => ?_, ?_⟩
  · rcases List.mem_cons.mp h with h | h
    · cases h
    · exact hp h
  · rcases horiginal with hnull | hphp
    · exact Or.inl ⟨Or.inl hnull, Or.inl hnull⟩
    · exact Or.inr ⟨List.cons_ne_nil _ _, hphp, Or.inr (Or.inr hphp)⟩

theorem Hooked.changeEnd (hh : Hooked s last) (sel : Option (Option ℕ)) (hp : s.pending = .change :: pending) :
    Hooked (leaveChange sel pending s) (selectedBy last (.changeEnd sel)) := by
  have hf : .rinit ∉ s.pending := by
    rcases hh.frames with h | h
    · cases hp.symm.trans h
    · exact h
  have hf' : .rinit ∉ pending := fun h => hf (hp ▸ List.mem_cons_of_mem _ h)
  have horiginal := hh.original hf
  unfold leaveChange
  dsimp only
  rw [if_pos ((onModify_select s sel).trans hh.onModify)]
  rcases sel with _ | _ | h
  · refine Hooked.rehook hh.requestStartupFunc hh.onModify hh.previousSessionRINIT
      hh.oldOnUpdateSaveHandler hh.crashed hh.sModule hf' ?_
    exact hh.mod.imp_right fun h => h.2.1
  · exact Hooked.rehook hh.requestStartupFunc hh.onModify hh.previousSessionRINIT
      hh.oldOnUpdateSaveHandler hh.crashed hh.sModule hf' (Or.inl ⟨Or.inl rfl, horiginal⟩)
  · exact Hooked.rehook hh.requestStartupFunc hh.onModify hh.previousSessionRINIT
      hh.oldOnUpdateSaveHandler hh.crashed hh.sModule hf' (Or.inr ⟨h, rfl, rfl⟩)

theorem Hooked.step (hh : Hooked s last) (hs : step s e = some s') : Hooked s' (selectedBy last e) := by
  cases step_cases hs with
  | minit sel hon => cases hon.symm.trans hh.onModify
  | load session hp =>
    cases session with
    | true =>
      unfold Hook.hookSession
      rw [if_pos rfl, if_pos hh.oldOnUpdateSaveHandler]
      exact hh
    | false => exact hh
  | rinit sel hp => exact hh.rinit sel hp
  | rinitEnd hp => exact hh.rinitEnd hp
  | change hon hp =>
    cases hon.symm.trans hh.onModify
    exact hh.change hp
  | changeEnd sel hp => exact hh.changeEnd sel hp
  | io => exact hh

end Step

/-! ### Runs -/

section Run
variable {s s' : Sessions} {last : Option ℕ} {l l' : List Event}

end Run

end Snuffleupagus.Session.Hook
