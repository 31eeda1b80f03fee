import Snuffleupagus.Execute.Handler
import Snuffleupagus.Hook.Partition

/-! # From where a function is called

`sp_execute_handler` evaluates the rules of a user function called from user code only if the caller
is executing one of `checkedOpcodes`. The engine starts user code from many others: destructors,
property accessors, `__toString`, iterators. `checked_iff_opcode` says that from those the body runs
without the rules being looked at. -/

namespace Snuffleupagus.Execute.Opcode

open Snuffleupagus.Lib.Effect Snuffleupagus.Lib.Table Snuffleupagus.Php.Bytes Snuffleupagus.Php.Value
open Snuffleupagus.Php.Engine Snuffleupagus.Config.Rule Snuffleupagus.Config.DisabledFunctions
open Snuffleupagus.Log Snuffleupagus.Match.Chain Snuffleupagus.Hook.Table Snuffleupagus.Hook.Stores
open Snuffleupagus.Hook.Partition Snuffleupagus.DisabledFunctions.Filter
open Snuffleupagus.DisabledFunctions.Evaluate Snuffleupagus.DisabledFunctions.Dispatch
open Snuffleupagus.Execute.Handler

variable {w : World} {g : SpGlobals}

/-! ### What the checks before write -/

theorem reports_readonlyViolation (filename : ZendString) (errmsg : String) :
    Reports (readonlyViolation w g filename errmsg) := by
  refine (reports_spLogRequest _ _).bind fun _ => ?_
  split_ifs
  · exact reports_spLogMsgf w g _ _ _ _ _
  · exact reports_spLogMsgf w g _ _ _ _ _

theorem reports_terminateIfWritable (filename : ZendString) :
    Reports (terminateIfWritable w g filename) := by
  have herr : ∀ e, Reports (readonlyErr w g filename e) := fun e => reports_spLogMsgf w g _ _ _ _ _
  unfold terminateIfWritable
  dsimp only
  split
  · exact reports_readonlyViolation _ _
  split
  · exact herr _
  split
  · exact Writes.pure ()
  split
  · exact herr _
  split
  · exact reports_readonlyViolation _ _
  split
  · exact reports_readonlyViolation _ _
  split
  · exact herr _
  split
  · exact herr _
  split
  · exact reports_readonlyViolation _ _
  · exact Writes.pure ()

theorem reports_spCheckWritable (func : Option ZendFunction) : Reports (spCheckWritable w g func) := by
  unfold spCheckWritable
  split
  · split
    · exact reports_terminateIfWritable _
    · exact Writes.pure ()
  · exact Writes.pure ()

theorem reports_isInEvalAndWhitelisted (frame : Frame) : Reports (isInEvalAndWhitelisted w g frame) := by
  unfold isInEvalAndWhitelisted
  split
  · exact Writes.pure ()
  split
  · exact Writes.pure ()
  split
  · exact Writes.pure ()
  refine (reports_spLogRequest _ _).bind fun _ => ?_
  split
  · exact reports_spLogMsgf w g _ _ _ _ _
  · exact reports_spLogMsgf w g _ _ _ _ _

theorem not_mem_of_reports {α : Type} {x : Sp α} {e : Event} (h : Reports x) (he : e.isReport = false) :
    e ∉ x.log := by
  intro hm
  rw [h e hm] at he
  cases he

/-! ### The configuration as loaded -/

/-- The saved handlers are those of internal functions. -/
def SavedInternal (h : Hooks) : Prop :=
  ∀ f, (h.saved .disabledFunctionsHook).find? f ≠ none → h.functionTable.typeOf f = some .internal

theorem SavedInternal.hookFunction {h : Hooks} {t : HookTable} {new : ZifHandler} {name : ZendString}
    (hs : SavedInternal h) : SavedInternal (hookFunction w name t new h).2 := by
  intro f hf
  rw [typeOf_hookFunction]
  rcases hookFunction_cases w name t new h f with ⟨-, hsame⟩ | ⟨_, -, -, hi, -⟩
  · exact hs f (hsame _ ▸ hf)
  · exact hi

theorem typeOf_loaded {s s' : Stores} {h₀ h : Hooks} {f : ZendString}
    (hload : Yields (hookDisabledFunctions w g s h₀) (s', h)) :
    h.functionTable.typeOf f = h₀.functionTable.typeOf f := by
  unfold hookDisabledFunctions at hload
  obtain ⟨⟨s₁, h₁⟩, hrules, hload⟩ := yields_bind.mp hload
  cases yields_pure.mp hload
  exact (evalSteps_hookEvalBlacklist w g h₁).typeOf.trans (checkSteps_hookRules hrules).typeOf

/-- A function that is not an internal one is not found among the hooked. -/
theorem not_hooked {s s' : Stores} {h₀ h : Hooks} {f : ZendString}
    (hload : Yields (hookDisabledFunctions w g s h₀) (s', h)) (hs : SavedInternal h₀)
    (hf : h₀.functionTable.typeOf f ≠ some .internal) :
    (h.saved .disabledFunctionsHook).find? f = none := by
  unfold hookDisabledFunctions at hload
  obtain ⟨⟨s₁, h₁⟩, hrules, hload⟩ := yields_bind.mp hload
  cases yields_pure.mp hload
  have hcheck := checkSteps_hookRules hrules
  have heval := evalSteps_hookEvalBlacklist w g h₁
  have hsaved : SavedInternal (hookEvalBlacklist w g h₁) :=
    heval.preserve SavedInternal (fun _ _ => SavedInternal.hookFunction)
      (hcheck.preserve SavedInternal (fun _ _ => SavedInternal.hookFunction) hs)
  by_contra hne
  exact hf (by rw [← hcheck.typeOf, ← heval.typeOf]; exact hsaved f hne)

/-- A rule on a call of a user function turns the hook on. -/
theorem hookExecute_loaded (g : SpGlobals) {rules : List SpDisabledFunction} {s : Stores} {h : Hooks}
    {r : SpDisabledFunction} {f : ZendString} (hp : Partitioned rules s h) (hr : r ∈ rules)
    (hcall : isRet r = false) (ht : target r = some f) (hin : ¬ InHooked h f) :
    (loadedGlobals g s).hookExecute = true := by
  have hmem : r ∈ rulesFor rules false f := mem_rulesFor.mpr ⟨hr, hcall, ht⟩
  have hfind := (hp.inUnhooked false f _).mpr ⟨List.ne_nil_of_mem hmem, rfl, hin⟩
  have hne : s.disabledFunctions.entries.isEmpty = false := by
    have hent := OrdTable.find?_eq_some.mp hfind
    exact List.isEmpty_eq_false_iff.mpr (List.ne_nil_of_mem hent)
  simp [loadedGlobals, hne]

/-! ### The rules and the body -/

/-- The checks before the rules, and the one on the depth, let the function go on. -/
def Passes (w : World) (g : SpGlobals) (frame : Frame) : Prop :=
  Yields (isInEvalAndWhitelisted w g frame) () ∧ Yields (spCheckWritable w g frame.func) () ∧
    ¬ (g.maxExecutionDepth > 0 ∧ g.executionDepth + 1 > g.maxExecutionDepth)

/-- The code of a function, and the rules on its return. -/
def bodyAndReturn (w : World) (g : SpGlobals) (frame : Frame) (s : Stack) (f : ZendString)
    (run : SpGlobals → Sp Zval) : Sp Zval := do
  let value ← spOrigExecute w g (some f) run
  shouldDropOnRetHt w g ⟨frame :: s, s, some value⟩ f g.stores.disabledFunctionsRegRet
    g.stores.disabledFunctionsRet
  pure value

section Call
variable {hooks : Hooks} {frame caller : Frame} {s : Stack} {f : ZendString}
  {fn cfn : ZendFunction} {op : Opline} {run : SpGlobals → Sp Zval}

/-- A user function called from user code. -/
theorem spExecuteHandler_user (hfn : frame.func = some fn) (huser : fn.type = .user)
    (hpath : getCompleteFunctionPath frame = some f) (hexec : g.hookExecute = true)
    (hhook : (hooks.saved .disabledFunctionsHook).find? f = none) (hcfn : caller.func = some cfn)
    (hcuser : cfn.type.isUserCode = true) (hop : caller.opline = some op) :
    spExecuteHandler w g hooks false frame (caller :: s) run = (do
      isInEvalAndWhitelisted w g frame
      spCheckWritable w g frame.func
      if op.opcode ∈ checkedOpcodes then
        shouldDisableHt w g ⟨frame :: caller :: s, none⟩ f g.stores.disabledFunctionsReg
          g.stores.disabledFunctions
      else pure ()
      bodyAndReturn w g frame (caller :: s) f run) := by
  have hchecked : isCheckedCall (caller :: s).head? = decide (op.opcode ∈ checkedOpcodes) := by
    obtain ⟨cfunc, copline, _⟩ := caller
    cases hcfn
    cases hop
    simp [isCheckedCall, hcuser]
  have heval : (frame.func.map ZendFunction.type == some FnType.eval) = false := by
    rw [hfn, Option.map_some, huser]
    rfl
  unfold spExecuteHandler bodyAndReturn
  simp only [hpath, heval, hexec, hhook, hchecked, Bool.not_false, Bool.and_false, Bool.false_eq_true,
    if_false, Bool.not_true, Option.isSome_none, Bool.or_false, decide_eq_true_eq, spCallOrigExecute]

/-- The evaluation of the rules leaves its mark first. -/
theorem precedes_shouldDisableHt {α : Type} {l : List Event} (hl : Event.body (some f) ∉ l)
    (config : List SpDisabledFunction) (ht : RuleTable) (k : Unit → Sp α) :
    Precedes (.shouldDisable f) (.body (some f))
      (l ++ (shouldDisableHt w g ⟨frame :: s, none⟩ f config ht >>= k).log) := by
  unfold shouldDisableHt
  rw [if_neg (by simp), bind_assoc]
  exact precedes_append (by simp) hl

theorem bodyAndReturn_of_depth
    (hd : ¬ (g.maxExecutionDepth > 0 ∧ g.executionDepth + 1 > g.maxExecutionDepth)) :
    ∃ l, (bodyAndReturn w g frame s f run).log = .body (some f) :: l := by
  have horig : spOrigExecute w g (some f) run = (do emit (.body (some f)); run (deeper g)) := by
    unfold spOrigExecute
    rw [if_neg hd]
  unfold bodyAndReturn
  rw [horig, bind_assoc]
  exact ⟨_, log_bind_ok rfl _⟩

theorem reports_bodyAndReturn
    (hd : g.maxExecutionDepth > 0 ∧ g.executionDepth + 1 > g.maxExecutionDepth) :
    Reports (bodyAndReturn w g frame s f run) := by
  have hlog : Reports (spLogDrop w (deeper g) "execute"
      "Maximum recursion limit reached. Script terminated." []) := reports_spLogMsgf w _ _ _ _ _ _
  have hdrop : (spLogDrop w (deeper g) "execute"
      "Maximum recursion limit reached. Script terminated." []).out = .error .drop := out_spLogDrop ..
  unfold bodyAndReturn spOrigExecute
  rw [if_pos hd, bind_assoc]
  unfold Reports Writes
  rw [log_bind_error hdrop]
  exact hlog

/-- What is written before the rules are looked at, or the body starts. -/
theorem log_checks {x : Sp Zval} (ha : Yields (isInEvalAndWhitelisted w g frame) ())
    (hb : Yields (spCheckWritable w g frame.func) ()) :
    ∃ l, (∀ e ∈ l, e.isReport = true) ∧ (do
      isInEvalAndWhitelisted w g frame
      spCheckWritable w g frame.func
      x : Sp Zval).log = l ++ x.log := by
  refine ⟨(isInEvalAndWhitelisted w g frame).log ++ (spCheckWritable w g frame.func).log, ?_, ?_⟩
  · intro e he
    rcases List.mem_append.mp he with he | he
    · exact reports_isInEvalAndWhitelisted _ e he
    · exact reports_spCheckWritable _ e he
  · rw [log_bind_ok ha, log_bind_ok hb, List.append_assoc]

/-- If they abort, nothing else is written. -/
theorem reports_checks {x : Sp Zval} (h : ¬ (Yields (isInEvalAndWhitelisted w g frame) () ∧
    Yields (spCheckWritable w g frame.func) ())) : Reports (do
      isInEvalAndWhitelisted w g frame
      spCheckWritable w g frame.func
      x : Sp Zval) := by
  cases ha : (isInEvalAndWhitelisted w g frame).out with
  | error r =>
    unfold Reports Writes
    rw [log_bind_error ha]
    exact reports_isInEvalAndWhitelisted _
  | ok u =>
    cases hb : (spCheckWritable w g frame.func).out with
    | error r =>
      unfold Reports Writes
      rw [log_bind_ok ha, log_bind_error hb]
      intro e he
      rcases List.mem_append.mp he with he | he
      · exact reports_isInEvalAndWhitelisted _ e he
      · exact reports_spCheckWritable _ e he
    | ok u' => exact absurd ⟨ha, hb⟩ h

end Call

/-- **From which opcodes a function is checked.** With a rule on calls of the user function `f`, a
call of `f` from user code has its rules evaluated before its body starts if and only if the caller
is executing one of `checkedOpcodes`, or the request ends before the body could start. -/
theorem checked_iff_opcode {w₀ : World} {g₀ : SpGlobals} {rules : List SpDisabledFunction}
    {s : Stores} {h₀ h : Hooks} {r : SpDisabledFunction} {f : ZendString} {frame caller : Frame}
    {stack : Stack} {fn cfn : ZendFunction} {op : Opline} {run : SpGlobals → Sp Zval}
    (hload : Yields (hookDisabledFunctions w₀ g₀ (storesOf rules) h₀) (s, h))
    (hsaved : SavedInternal h₀) (hr : r ∈ rules) (hcall : isRet r = false) (ht : target r = some f)
    (hdefined : h₀.functionTable.typeOf f ≠ some .internal) (hconstruct : f ∉ builtinNames)
    (hfn : frame.func = some fn) (huser : fn.type = .user)
    (hpath : getCompleteFunctionPath frame = some f) (hcfn : caller.func = some cfn)
    (hcuser : cfn.type.isUserCode = true) (hop : caller.opline = some op) :
    Precedes (.shouldDisable f) (.body (some f))
        (spExecuteHandler w (loadedGlobals g s) h false frame (caller :: stack) run).log ↔
      op.opcode ∈ checkedOpcodes ∨ ¬ Passes w (loadedGlobals g s) frame := by
  have hp := partitioned_hookDisabledFunctions hload
  have hty := typeOf_loaded hload (f := f)
  have hin : ¬ InHooked h f := by
    rintro (⟨hi, -⟩ | hb)
    · rw [cstr_of_path hpath, hty] at hi
      exact hdefined hi
    · rw [cstr_of_path hpath] at hb
      exact hconstruct hb
  have hexec := hookExecute_loaded g hp hr hcall ht hin
  have hhook := not_hooked hload hsaved hdefined
  rw [spExecuteHandler_user hfn huser hpath hexec hhook hcfn hcuser hop]
  have hbody : (Event.body (some f)).isReport = false := rfl
  have hrule : (Event.shouldDisable f).isReport = false := rfl
  by_cases hchecks : Yields (isInEvalAndWhitelisted w (loadedGlobals g s) frame) () ∧
      Yields (spCheckWritable w (loadedGlobals g s) frame.func) ()
  · obtain ⟨l, hl, hlog⟩ := log_checks hchecks.1 hchecks.2
    have hnot : ∀ e : Event, e.isReport = false → e ∉ l := by
      intro e he hm
      rw [hl e hm] at he
      cases he
    rw [hlog]
    by_cases hmem : op.opcode ∈ checkedOpcodes
    · -- the evaluation of the rules is the first event after the checks
      refine iff_of_true ?_ (Or.inl hmem)
      rw [if_pos hmem]
      exact precedes_shouldDisableHt (hnot _ hbody) _ _ _
    · rw [if_neg hmem]
      show Precedes _ _ (l ++ (bodyAndReturn w (loadedGlobals g s) frame (caller :: stack) f run).log) ↔ _
      by_cases hd : (loadedGlobals g s).maxExecutionDepth > 0 ∧
          (loadedGlobals g s).executionDepth + 1 > (loadedGlobals g s).maxExecutionDepth
      · have hquiet : Reports (bodyAndReturn w (loadedGlobals g s) frame (caller :: stack) f run) :=
          reports_bodyAndReturn hd
        refine iff_of_true (precedes_of_not_mem fun hm => ?_) (Or.inr fun hpass => hpass.2.2 hd)
        rcases List.mem_append.mp hm with hm | hm
        · exact hnot _ hbody hm
        · exact not_mem_of_reports hquiet hbody hm
      · obtain ⟨l', hl'⟩ := bodyAndReturn_of_depth hd
        rw [hl']
        refine iff_of_false (not_precedes_append (hnot _ hrule)) ?_
        rintro (hm | hpass)
        · exact hmem hm
        · exact hpass ⟨hchecks.1, hchecks.2, hd⟩
  · exact iff_of_true (precedes_of_not_mem (not_mem_of_reports (reports_checks hchecks) hbody))
      (Or.inr fun hpass => hchecks ⟨hpass.1, hpass.2.1⟩)

/-- `function("C::__toString").drop()`. -/
def sampleRules : List SpDisabledFunction := [{ function := some (zstr "C::__toString") }]

/-- The function, and the frame of a call of it. -/
def sampleFunction : ZendFunction where
  type := .user
  functionName := some (zstr "__toString")
  scope := some (zstr "C")

def sampleFrame : Frame where
  func := some sampleFunction

/-- A script executing an opcode. -/
def scriptAt (opcode : Opcode) : Frame where
  func := some { type := .user }
  opline := some { opcode := opcode }

theorem checked_iff_opcode_sample : ∃ s h,
    Yields (hookDisabledFunctions (World.empty 80300) {} (storesOf sampleRules) sampleHooks) (s, h) ∧
    (Precedes (.shouldDisable (zstr "C::__toString")) (.body (some (zstr "C::__toString")))
        (spExecuteHandler (World.empty 80300) (loadedGlobals {} s) h false sampleFrame
          [scriptAt .doFcall] fun _ => pure .null).log ↔
      Opcode.doFcall ∈ checkedOpcodes ∨ ¬ Passes (World.empty 80300) (loadedGlobals {} s) sampleFrame) := by
  have hload : ∃ s h,
      Yields (hookDisabledFunctions (World.empty 80300) {} (storesOf sampleRules) sampleHooks) (s, h) :=
    ⟨_, _, rfl⟩
  obtain ⟨s, h, hy⟩ := hload
  have hmem : ({ function := some (zstr "C::__toString") } : SpDisabledFunction) ∈ sampleRules :=
    List.mem_singleton_self _
  have hdefined : sampleHooks.functionTable.typeOf (zstr "C::__toString") ≠ some .internal := by decide
  have hcaller : (scriptAt .doFcall).opline = some { opcode := .doFcall } := rfl
  exact ⟨s, h, hy, checked_iff_opcode hy (fun f hf => absurd rfl hf) hmem rfl rfl hdefined (by decide)
    rfl rfl rfl rfl rfl hcaller⟩

/-- The opcode of `echo`. -/
def echoOpcode : Opcode := .other 136

/-- `echo` of an object runs `__toString` without its rule being looked at. -/
theorem unchecked_toString : ∃ s h,
    Yields (hookDisabledFunctions (World.empty 80300) {} (storesOf sampleRules) sampleHooks) (s, h) ∧
    ¬ Precedes (.shouldDisable (zstr "C::__toString")) (.body (some (zstr "C::__toString")))
      (spExecuteHandler (World.empty 80300) (loadedGlobals {} s) h false sampleFrame
        [scriptAt echoOpcode] fun _ => pure .null).log := by
  refine ⟨_, _, rfl, fun hp => ?_⟩
  cases hp [] [.shouldDropOnRet (zstr "C::__toString")] (by rfl)

end Snuffleupagus.Execute.Opcode
