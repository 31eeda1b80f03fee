import Snuffleupagus.Match.Network
import Snuffleupagus.Match.VarValue

/-! # The filters of a rule

Every keyword of `disable_function` that narrows a rule is a filter here, written as a check that
yields `true` when the filter is absent or holds. `Call` is what is known of a call: the stack from
`execute_data` on, and the parameter if the call is a language construct. -/

namespace Snuffleupagus.DisabledFunctions.Filter

open Snuffleupagus.Lib.Effect Snuffleupagus.Php.Bytes Snuffleupagus.Php.Value Snuffleupagus.Php.Engine
open Snuffleupagus.Config.Rule Snuffleupagus.Log
open Snuffleupagus.Match.Chain Snuffleupagus.Match.Value Snuffleupagus.Match.VarValue
open Snuffleupagus.Match.Network

/-- The parameter of a language construct and the name it is logged under. -/
structure Builtin where
  param : ZendString
  paramName : Option ZendString

/-- A call. -/
structure Call where
  executeData : Stack
  builtin : Option Builtin := none

/-- The name and the text of the argument a rule has matched on, for the log. -/
structure Matched where
  argName : Option ZendString := none
  argValue : Option ZendString := none

variable (w : World) (g : SpGlobals)

/-- `function`, a chain, or `function_r`: the test both evaluators begin with. -/
def functionMatching (s : Stack) (completeFunctionPath : ZendString) (r : SpDisabledFunction) :
    Sp Bool :=
  if r.functionsList ≠ [] then pure (isFunctionsListMatching s r.functionsList)
  else
    match r.function, r.rFunction with
    | some f, _ => pure (cstr f == completeFunctionPath)
    | none, some rx => spIsRegexpMatching w g rx completeFunctionPath
    | none, none => pure true

/-- `line`. -/
def lineMatching (s : Stack) (r : SpDisabledFunction) : Bool :=
  r.line == 0 || r.line == zendGetExecutedLineno s

/-- The script of the nearest frame of user code behind the first one (`ITERATE`). -/
def callerFilename (s : Stack) : Option ZendString :=
  match userFrames s.tail with
  | { func := some fn, .. } :: _ => some fn.filename
  | _ => none

/-- `is_file_matching`: the file being executed, or that of the caller. -/
def isFileMatching (s : Stack) (r : SpDisabledFunction) (currentFilename : ZendString) : Sp Bool :=
  match r.filename, r.rFilename with
  | some f, _ => pure (currentFilename == f || callerFilename s == some f)
  | none, some rx => do
    if ← spIsRegexpMatchingLen w g rx currentFilename then pure true
    else
      match callerFilename s with
      | some f => spIsRegexpMatchingLen w g rx f
      | none => pure false
  | none, none => pure false

/-- `filename` or `filename_r`, at the time of the call. -/
def fileMatching (s : Stack) (r : SpDisabledFunction) (currentFilename : ZendString) : Sp Bool :=
  if r.filename.isSome || r.rFilename.isSome then isFileMatching w g s r currentFilename else pure true

/-- `cidr`. -/
def cidrMatching (r : SpDisabledFunction) : Sp Bool :=
  match r.cidr with
  | some cidr => cidrMatch w g (getIpaddr w) cidr
  | none => pure true

/-- The value a rule inspects, against `key`, `key_r`, `value` and `value_r`. -/
def inspect (r : SpDisabledFunction) (v : Zval) : Sp Bool :=
  match v with
  | .array ht =>
    if r.key.isSome || r.rKey.isSome then spMatchArrayKey w g r.key r.rKey ht
    else spMatchArrayValue w g r.value r.rValue ht
  | v => spMatchValue w g (spZvalToZendString w v) r.value r.rValue

/-- `is_local_var_matching`. -/
def isLocalVarMatching (s : Stack) (r : SpDisabledFunction) : Sp Bool := do
  match ← spGetVarValue w g s r.var Bool.false with
  | some v => inspect w g r v
  | none => pure false

/-- `var`. -/
def varMatching (s : Stack) (r : SpDisabledFunction) : Sp Bool :=
  if r.var = .nil then pure true else isLocalVarMatching w g s r

/-- `compute_hash`, with the buffer it leaves untouched if the file cannot be opened. -/
def computeHash (filename fileHash : ZendString) : Sp ZendString :=
  match w.fileSha256 filename with
  | some digest => pure digest
  | none => do
    spLogErr w g "hash_computation" "Can not open the file %s to compute its hash" [filename]
    pure fileHash

/-- `SHA256_SIZE`. -/
def sha256Size : ℕ := 32

/-- `hash`: only `SHA256_SIZE` characters of the digest are compared. The digest is kept for the next
rules. -/
def hashMatching (currentFilename currentFileHash : ZendString) (r : SpDisabledFunction) :
    Sp (ZendString × Bool) :=
  match r.hash with
  | none => pure (currentFileHash, true)
  | some hash => do
    let fileHash ← if currentFileHash.headD 0 = 0 then computeHash w g currentFilename currentFileHash
      else pure currentFileHash
    pure (fileHash, (cstr fileHash).take sha256Size == (cstr hash).take sha256Size)

/-! ### The filter on a parameter -/

/-- The loop over the arguments for `param_r`: the last argument with a matching name is taken, and
the name reported is that of the last argument. -/
def regexpArgFrom (fn : ZendFunction) (slots : List Zval) (rx : SpRegexp) :
    ℕ → ℕ → Matched → Option Zval → Sp (Matched × Option Zval)
  | _, 0, m, v => pure (m, v)
  | i, n + 1, _, v => do
    let arg ← fetch fn.argInfo[i]?
    if ← spIsRegexpMatching w g rx arg.name then do
      let value ← fetch slots[i]?
      regexpArgFrom fn slots rx (i + 1) n { argName := some arg.name } (some value)
    else regexpArgFrom fn slots rx (i + 1) n { argName := some arg.name } v

/-- The argument selected by `pos`, `param` or `param_r`, with its name. -/
def selectArg (s : Stack) (frame : Frame) (fn : ZendFunction) (r : SpDisabledFunction) :
    Sp (Matched × Option Zval) :=
  if r.pos > -1 then do
    let i := r.pos.toNat
    let name ← if i < fn.numArgs then do
        let arg ← fetch fn.argInfo[i]?
        pure (some arg.name)
      else pure none
    let value ← fetch frame.slots[i]?
    pure ({ argName := name }, some value)
  else
    match r.param, r.rParam with
    | .node type name idx next, _ => do
      let value ← spGetVarValue w g s (.node type name idx next) Bool.true
      pure ({ argName := some name }, value)
    | .nil, some rx => regexpArgFrom w g fn frame.slots rx 0 frame.numArgs {} none
    | .nil, none => pure ({}, none)

/-- The end of `is_param_matching`: the type, then the value of the argument. -/
def argMatching (r : SpDisabledFunction) (m : Matched) (v : Zval) : Sp (Option Matched) :=
  if r.paramType ≠ .undef ∧ r.paramType ≠ v.type then pure none
  else if r.paramType ≠ .undef ∧
      !(r.key.isSome || r.rKey.isSome || r.value.isSome || r.rValue.isSome) then pure (some m)
  else do
    if ← inspect w g r v then pure (some { m with argValue := some (spZvalToZendString w v) })
    else pure none

/-- `is_param_matching`. -/
def isParamMatching (c : Call) (r : SpDisabledFunction) : Sp (Option Matched) :=
  match c.builtin, c.executeData with
  | some b, _ => do
    if ← spMatchValue w g b.param r.value r.rValue then pure (some ⟨b.paramName, some b.param⟩)
    else pure none
  | none, [] => pure none
  | none, frame :: s =>
    match frame.func with
    | none => pure none
    | some fn =>
      if frame.numArgs = 0 then pure none
      else if r.pos > (frame.numArgs : ℤ) - 1 ∨ r.pos > fn.numArgs then pure none
      else do
        match ← selectArg w g (frame :: s) frame fn r with
        | (_, none) => pure none
        | (m, some v) => argMatching w g r m v

/-- `ZEND_ARG_IS_VARIADIC(execute_data->func->op_array.arg_info)`: the first parameter is looked at,
whether there is one or not. -/
def isVariadic (s : Stack) : Sp Bool := do
  let frame ← fetch s.head?
  let fn ← fetch frame.func
  let arg ← fetch fn.argInfo[0]?
  pure arg.isVariadic

/-- Does the rule filter on a parameter, for `should_disable`? -/
def filtersParam (r : SpDisabledFunction) : Bool :=
  r.param ≠ .nil || r.rParam.isSome || r.pos ≠ -1 ||
    ((r.rValue.isSome || r.value.isSome) && r.var = .nil)

/-- `is_param_matching` behind the test for variadic functions, which are let through with a
warning. -/
def checkedParamMatching (c : Call) (r : SpDisabledFunction) : Sp (Option Matched) := do
  if ← (if c.builtin.isSome then pure false else isVariadic c.executeData) then do
    spLogWarn w g "disable_function"
      "Snuffleupagus doesn't support variadic functions yet, sorry. Check https://github.com/jvoisin/snuffleupagus/issues/164 for details." []
    pure (some {})
  else isParamMatching w g c r

/-- The filter on a parameter, if there is one. -/
def paramMatching (c : Call) (r : SpDisabledFunction) : Sp (Option Matched) :=
  if filtersParam r then checkedParamMatching w g c r else pure (some {})

end Snuffleupagus.DisabledFunctions.Filter
