import Snuffleupagus.DisabledFunctions.Dispatch
import Snuffleupagus.Hook.Stores

/-! # The hook on execution

`sp_execute_handler` is run instead of `zend_execute_ex` and `zend_execute_internal`: it is given the
frame that is about to be executed, goes through the whitelist of `eval`, the read-only check and the
rules of the function, and only then runs the code. What the engine does there is a parameter, `run`,
which is given the globals it runs under and leaves the return value. -/

namespace Snuffleupagus.Execute.Handler

open Snuffleupagus.Lib.Effect Snuffleupagus.Lib.Table Snuffleupagus.Php.Bytes Snuffleupagus.Php.Value
open Snuffleupagus.Php.Engine Snuffleupagus.Config.Rule Snuffleupagus.Log
open Snuffleupagus.Match.Chain Snuffleupagus.Hook.Table Snuffleupagus.Hook.Stores
open Snuffleupagus.DisabledFunctions.Filter Snuffleupagus.DisabledFunctions.Evaluate
open Snuffleupagus.DisabledFunctions.Dispatch

variable (w : World) (g : SpGlobals)

/-! ### Executing only what is read-only -/

/-- The end `violation` of `terminate_if_writable`. -/
def readonlyViolation (filename : ZendString) (errmsg : String) : Sp Unit := do
  spLogRequest g.readonlyExec.dump g.readonlyExec.textualRepresentation
  if g.readonlyExec.simulation then
    spLogSimulation w g "readonly_exec" "%s (%s)" [zstr errmsg, filename]
  else spLogDrop w g "readonly_exec" "%s (%s)" [zstr errmsg, filename]

/-- The end `err` of `terminate_if_writable`. -/
def readonlyErr (filename : ZendString) (errno : Errno) : Sp Unit :=
  spLogErr w g "readonly_exec" "Error while accessing %s: %s" [filename, w.strerror errno]

/-- The answers of `access` that only say that the file is not writable. -/
def isDenied : Errno → Bool
  | .eacces => true
  | .erofs => true
  | .eperm => true
  | .other _ => false

/-- `terminate_if_writable`. -/
def terminateIfWritable (filename : ZendString) : Sp Unit :=
  let dirname := w.phpDirname filename
  match w.accessW filename with
  | .ok () => readonlyViolation w g filename "Attempted execution of a writable file"
  | .error errno =>
    if !isDenied errno then readonlyErr w g filename errno
    else if !g.readonlyExec.extendedChecks then pure ()
    else
      match w.statUid filename with
      | .error errno => readonlyErr w g filename errno
      | .ok uid =>
        if uid = w.geteuid then
          readonlyViolation w g filename "Attempted execution of a file owned by the PHP process"
        else
          match w.accessW dirname with
          | .ok () =>
            readonlyViolation w g filename "Attempted execution of a file in a writable directory"
          | .error errno =>
            if !isDenied errno then readonlyErr w g filename errno
            else
              match w.statUid dirname with
              | .error errno => readonlyErr w g filename errno
              | .ok uid =>
                if uid = w.geteuid then
                  readonlyViolation w g filename
                    "Attempted execution of a file in directory owned by the PHP process"
                else pure ()

/-- `sp_check_writable`. -/
def spCheckWritable (func : Option ZendFunction) : Sp Unit :=
  match func with
  | some fn => if g.readonlyExec.enable then terminateIfWritable w g (cstr fn.filename) else pure ()
  | none => pure ()

/-! ### The whitelist of `eval` -/

/-- `check_is_in_eval_whitelist`. -/
def checkIsInEvalWhitelist (functionName : ZendString) : Bool := decide (functionName ∈ g.eval.whitelist)

/-- `is_in_eval_and_whitelisted`. -/
def isInEvalAndWhitelisted (frame : Frame) : Sp Unit :=
  if g.inEval = 0 ∨ g.eval.whitelist = [] then pure ()
  else
    match getCompleteFunctionPath frame with
    | none => pure ()
    | some functionName =>
      if checkIsInEvalWhitelist g functionName then pure ()
      else do
        spLogRequest g.eval.dump g.eval.textualRepresentation
        if g.eval.simulation then
          spLogSimulation w g "Eval_whitelist"
            "The function '%s' isn't in the eval whitelist, logging its call." [functionName]
        else
          spLogDrop w g "Eval_whitelist"
            "The function '%s' isn't in the eval whitelist, dropping its call." [functionName]

/-! ### Executing -/

/-- The globals under which the code of a function runs. -/
def deeper : SpGlobals := { g with executionDepth := g.executionDepth + 1 }

/-- `sp_orig_execute`. -/
def spOrigExecute (functionName : Option ZendString) (run : SpGlobals → Sp Zval) : Sp Zval := do
  if g.maxExecutionDepth > 0 ∧ g.executionDepth + 1 > g.maxExecutionDepth then
    spLogDrop w (deeper g) "execute" "Maximum recursion limit reached. Script terminated." []
  else pure ()
  emit (.body functionName)
  run (deeper g)

/-- `sp_call_orig_execute`. -/
def spCallOrigExecute (internal : Bool) (functionName : Option ZendString)
    (run : SpGlobals → Sp Zval) : Sp Zval :=
  if internal then do
    emit (.body functionName)
    run g
  else spOrigExecute w g functionName run

/-- `is_builtin_matching` for `eval`. -/
def evalMatching (s : Stack) : Sp Unit :=
  match g.stores.disabledFunctions.find? (.str (zstr "eval")) with
  | none => pure ()
  | some _ =>
    shouldDisableHt w g ⟨s, some ⟨g.evalSourceString, some (zstr "code")⟩⟩ (zstr "eval")
      g.stores.disabledFunctionsReg g.stores.disabledFunctions

/-- The opcodes after which the rules are evaluated. -/
def checkedOpcodes : List Opcode := [.doFcall, .doFcallByName, .doIcall, .doUcall, .ticks]

/-- The switch of `sp_execute_handler` on the frame that calls. -/
def isCheckedCall (prev : Option Frame) : Bool :=
  match prev with
  | some { func := some fn, opline := some op, .. } =>
    !fn.type.isUserCode || decide (op.opcode ∈ checkedOpcodes)
  | _ => true

/-- `sp_execute_handler`, on the frame `frame` called from the frames `s`. -/
def spExecuteHandler (hooks : Hooks) (internal : Bool) (frame : Frame) (s : Stack)
    (run : SpGlobals → Sp Zval) : Sp Zval := do
  isInEvalAndWhitelisted w g frame
  let functionName := getCompleteFunctionPath frame
  if !internal && (frame.func.map ZendFunction.type == some .eval) then do
    evalMatching w g (frame :: s)
    spOrigExecute w { g with inEval := g.inEval + 1 } functionName run
  else do
    if internal then pure () else spCheckWritable w g frame.func
    match functionName with
    | none => spCallOrigExecute w g internal functionName run
    | some name =>
      if !g.hookExecute || ((hooks.saved .disabledFunctionsHook).find? name).isSome then
        spCallOrigExecute w g internal functionName run
      else do
        if isCheckedCall s.head? then
          shouldDisableHt w g ⟨frame :: s, none⟩ name g.stores.disabledFunctionsReg
            g.stores.disabledFunctions
        else pure ()
        let value ← spCallOrigExecute w g internal functionName run
        shouldDropOnRetHt w g ⟨frame :: s, if internal then frame :: s else s, some value⟩ name
          g.stores.disabledFunctionsRegRet g.stores.disabledFunctionsRet
        pure value

/-- The globals after the end of `sp_load_config`: the stores, and `SPG(hook_execute)`. -/
def loadedGlobals (s : Stores) : SpGlobals :=
  { g with
    stores := s
    hookExecute := decide (g.maxExecutionDepth > 0) || !s.disabledFunctionsReg.isEmpty ||
      !s.disabledFunctionsRegRet.isEmpty || !s.disabledFunctions.entries.isEmpty ||
      !s.disabledFunctionsRet.entries.isEmpty }

end Snuffleupagus.Execute.Handler
