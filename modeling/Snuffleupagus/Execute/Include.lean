import Mathlib.Data.List.Infix
import Snuffleupagus.Execute.Handler

/-! # Opening a script

`sp_stream_open` stands in front of `zend_stream_open_function`. When a frame of a script is at an
`include` of any kind it looks whether the file may be executed, if only what is read-only may be, and
then evaluates the rules on that kind of `include`. -/

namespace Snuffleupagus.Execute.Include

open Snuffleupagus.Lib.Effect Snuffleupagus.Lib.Table Snuffleupagus.Php.Bytes Snuffleupagus.Php.Value
open Snuffleupagus.Php.Engine Snuffleupagus.Config.Rule Snuffleupagus.Log
open Snuffleupagus.DisabledFunctions.Filter Snuffleupagus.DisabledFunctions.Dispatch
open Snuffleupagus.Execute.Handler

/-- The ways to include a file. -/
inductive Inclusion
  | includeFile | includeOnce | requireFile | requireOnce
  deriving DecidableEq

/-- `ZEND_INCLUDE`, `ZEND_INCLUDE_ONCE`, `ZEND_REQUIRE`, `ZEND_REQUIRE_ONCE`. -/
def Inclusion.code : Inclusion → ℕ
  | .includeFile => 2
  | .includeOnce => 4
  | .requireFile => 8
  | .requireOnce => 16

/-- The name the rules are kept under. -/
def Inclusion.name : Inclusion → ZendString
  | .includeFile => zstr "include"
  | .includeOnce => zstr "include_once"
  | .requireFile => zstr "require"
  | .requireOnce => zstr "require_once"

/-- The cases of the switch, in the order of the source. -/
def Inclusion.all : List Inclusion := [.includeFile, .requireFile, .requireOnce, .includeOnce]

variable (w : World) (g : SpGlobals)

/-- `is_builtin_matching`. -/
def isBuiltinMatching (s : Stack) (paramValue functionName paramName : ZendString) (ht : RuleTable) :
    Sp Unit :=
  match ht.find? (.str functionName) with
  | none => pure ()
  | some _ =>
    shouldDisableHt w g ⟨s, some ⟨paramValue, some paramName⟩⟩ functionName
      g.stores.disabledFunctionsReg ht

/-- The code of an `eval` is looked at in the same way. -/
theorem evalMatching_eq (s : Stack) : evalMatching w g s =
    isBuiltinMatching w g s g.evalSourceString (zstr "eval") (zstr "code") g.stores.disabledFunctions := rfl

/-- The read-only check of `sp_stream_open_checks`: paths with a scheme are passed over, those of
`file://` included. -/
def checkIncluded (filename : ZendString) : Sp Unit :=
  if g.readonlyExec.enable then
    if zstr "file://" <+: filename then pure ()
    else if ¬ zstr "://" <:+: filename then terminateIfWritable w g (cstr filename)
    else pure ()
  else pure ()

/-- `sp_stream_open_checks`, with the frames `s`. -/
def spStreamOpenChecks (s : Stack) (filename : ZendString) : Sp Unit :=
  match s with
  | [] => pure ()
  | data :: _ =>
    match data.opline with
    | none => pure ()
    | some op => do
      let fn ← fetch data.func
      if fn.type = .user ∧ op.opcode = .includeOrEval then do
        checkIncluded w g filename
        match Inclusion.all.find? fun k => k.code = op.extendedValue with
        | some k =>
          isBuiltinMatching w g s filename k.name (zstr "inclusion path") g.stores.disabledFunctionsHooked
        | none => abort .assertion
      else pure ()

/-- The frame on the top comes to an `include`. -/
def atInclude (k : Inclusion) : Stack → Stack
  | [] => []
  | data :: s => { data with opline := some { opcode := .includeOrEval, extendedValue := k.code } } :: s

theorem find?_all (k : Inclusion) : (Inclusion.all.find? fun k' => k'.code = k.code) = some k := by
  cases k <;> rfl

end Snuffleupagus.Execute.Include
