import Snuffleupagus.Php.Value

/-! # Functions, frames and the outside world

A call stack is the list of frames from the innermost one outwards, along `prev_execute_data`. A
frame keeps what the module reads of it: the function, the opcode and the line being executed, the
number of arguments passed, the slots of arguments and variables, and the symbol table
`zend_rebuild_symbol_table` gives for it.

`World` collects what is not under the module's control: the PHP version, the regular expression
engine, the resolver of addresses, the file system, the environment, and the constants, classes and
objects of the running script. -/

namespace Snuffleupagus.Php.Engine

open Snuffleupagus.Php.Bytes Snuffleupagus.Php.Value

/-- `zend_function.type`. -/
inductive FnType
  | internal
  | user
  | eval
  deriving DecidableEq

/-- `ZEND_USER_CODE`: compiled from a script. -/
def FnType.isUserCode : FnType → Bool
  | .internal => false
  | .user => true
  | .eval => true

/-- The description of a parameter. -/
structure ArgInfo where
  name : ZendString
  isVariadic : Bool := false

/-- A function: `scope` is the name of its class, `filename` that of the script it was compiled from,
`argInfo` its parameters, the variadic one included, `numArgs` their number without it. -/
structure ZendFunction where
  type : FnType
  functionName : Option ZendString := none
  scope : Option ZendString := none
  filename : ZendString := []
  argInfo : List ArgInfo := []
  numArgs : ℕ := 0

/-- The opcodes the module tells apart. -/
inductive Opcode
  | doIcall | doUcall | doFcall | doFcallByName | ticks | includeOrEval
  | isEqual | isNotEqual | isIdentical | isNotIdentical
  | other (n : ℕ)
  deriving DecidableEq

/-- The instruction a frame of user code is executing. -/
structure Opline where
  opcode : Opcode
  extendedValue : ℕ := 0

/-- `zend_execute_data`. -/
structure Frame where
  func : Option ZendFunction
  opline : Option Opline := none
  lineno : ℕ := 0
  numArgs : ℕ := 0
  slots : List Zval := []
  symbols : List (ZendString × Zval) := []

/-- The frames, the innermost one first. -/
abbrev Stack := List Frame

/-- The frame executes code compiled from a script. -/
def Frame.isUserCode (f : Frame) : Bool :=
  match f.func with
  | some fn => fn.type.isUserCode
  | none => false

/-- The frames from the first one of user code on. -/
def userFrames (s : Stack) : Stack := s.dropWhile fun f => !f.isUserCode

/-- `zend_get_executed_filename`. -/
def zendGetExecutedFilename (s : Stack) : ZendString :=
  match userFrames s with
  | { func := some fn, .. } :: _ => fn.filename
  | _ => zstr "[no active file]"

/-- `zend_get_executed_lineno`. -/
def zendGetExecutedLineno (s : Stack) : ℕ :=
  match userFrames s with
  | f :: _ => f.lineno
  | [] => 0

/-- `zend_rebuild_symbol_table`: the variables of the innermost frame of user code. -/
def zendRebuildSymbolTable (s : Stack) : Option (List (ZendString × Zval)) :=
  match userFrames s with
  | f :: _ => some f.symbols
  | [] => none

/-- Why a system call failed. -/
inductive Errno
  | eacces | erofs | eperm
  | other (n : ℕ)
  deriving DecidableEq

/-- A class: the module reads its table of constants. -/
structure ClassEntry where
  constantsTable : HashTable

/-- An object: the name of its class and its table of properties. -/
structure Object where
  className : ZendString
  properties : HashTable

/-- **The outside world.** -/
structure World where
  /-- `PHP_VERSION_ID`. -/
  phpVersionId : ℕ
  /-- `CG(multibyte)`. -/
  multibyte : Bool
  /-- Does the pattern compile? -/
  pcreCompile : ZendString → Bool
  /-- The return code of the engine for a pattern and a subject: negative without a match. -/
  pcreExec : ZendString → ZendString → Int
  /-- `inet_pton(AF_INET)`, in network order. -/
  inetPton4 : ZendString → Option (BitVec 32)
  /-- `inet_pton(AF_INET6)`, in network order. -/
  inetPton6 : ZendString → Option (BitVec 128)
  /-- The hexadecimal SHA-256 of a file, if it can be opened. -/
  fileSha256 : ZendString → Option ZendString
  /-- `sapi_getenv("REMOTE_ADDR")`. -/
  sapiRemoteAddr : Option ZendString
  /-- `getenv`. -/
  getenv : ZendString → Option ZendString
  /-- Can the log file be opened for appending? -/
  logOpens : ZendString → Bool
  /-- `access(_, W_OK)`. -/
  accessW : ZendString → Except Errno Unit
  /-- The owner of a file, from `stat`. -/
  statUid : ZendString → Except Errno ℕ
  /-- `geteuid`. -/
  geteuid : ℕ
  /-- `php_dirname`. -/
  phpDirname : ZendString → ZendString
  /-- `strerror`. -/
  strerror : Errno → ZendString
  /-- `spprintf("%f")` of a double. -/
  printDouble : BitVec 64 → ZendString
  /-- `zend_get_constant_ex`. -/
  constants : ZendString → Option Zval
  /-- `zend_lookup_class`. -/
  lookupClass : ZendString → Option ClassEntry
  /-- The object store. -/
  objects : ℕ → Object

/-- The world in which there is nothing: every pattern compiles and matches nothing, there are no
files, no variables of the environment, no constants and no classes. -/
def World.empty (phpVersionId : ℕ) : World where
  phpVersionId := phpVersionId
  multibyte := false
  pcreCompile _ := true
  pcreExec _ _ := -1
  inetPton4 _ := none
  inetPton6 _ := none
  fileSha256 _ := none
  sapiRemoteAddr := none
  getenv _ := none
  logOpens _ := true
  accessW _ := .error (.other 2)
  statUid _ := .error (.other 2)
  geteuid := 0
  phpDirname s := s
  strerror _ := []
  printDouble _ := []
  constants _ := none
  lookupClass _ := none
  objects _ := ⟨[], []⟩

end Snuffleupagus.Php.Engine
