import Snuffleupagus.Hook.Stores

/-! # Calling a hooked function

A call of an internal function runs the handler in its slot. The handlers of the module do their part
and run the handler they have saved, except those of `sloppy_comparison`: `array_handler` writes the
saved handler back into the slot of its function, calls the function by name, and then writes itself
into the slot.

A run is a forest of calls (`Calls`): each says which of its checks drop it, and which calls the
function itself makes. The functions that `sloppy_comparison` wraps make none. -/

namespace Snuffleupagus.Hook.Dispatch

open Snuffleupagus.Lib.Effect Snuffleupagus.Lib.Table Snuffleupagus.Php.Bytes Snuffleupagus.Php.Engine
open Snuffleupagus.Config.Rule Snuffleupagus.Log Snuffleupagus.Hook.Table Snuffleupagus.Hook.Stores

/-! ### Loading -/

/-- The functions `sloppy_comparison` makes strict, with their handlers. -/
def arrayFunctions : List (ZendString × ZifHandler) :=
  [(zstr "in_array", .spInArray), (zstr "array_search", .spArraySearch),
    (zstr "array_keys", .spArrayKeys)]

/-- Hook one of them. -/
def hookArrayFunction (w : World) (h : Hooks) (e : ZendString × ZifHandler) : Hooks :=
  (hookFunction w e.1 .spInternalFunctionsHook e.2 h).2

/-- `hook_sloppy`. -/
def hookSloppy (w : World) (h : Hooks) : Hooks := arrayFunctions.foldl (hookArrayFunction w) h

/-- `sp_load_config`, as far as these hooks go. -/
def spLoadConfig (w : World) (g : SpGlobals) (s : Stores) (h : Hooks) : Sp (Stores × Hooks) :=
  hookDisabledFunctions w g s (if g.sloppy then hookSloppy w h else h)

/-! ### Running -/

/-- The checks on a call: that on `eval`, the rules at its time, the rules at the time of its return. -/
inductive Check
  | eval | call | ret
  deriving DecidableEq

/-- What has been checked for which function, the hooks, and whether the request goes on. -/
structure Outcome where
  log : List (Check × ZendString)
  hooks : Hooks
  alive : Bool

/-- Nothing is done after the end of the request. -/
def Outcome.andThen (o : Outcome) (k : Hooks → Outcome) : Outcome :=
  if o.alive then ⟨o.log ++ (k o.hooks).log, (k o.hooks).hooks, (k o.hooks).alive⟩ else o

/-- Go on. -/
def done (h : Hooks) : Outcome := ⟨[], h, true⟩

/-- The process crashes: a handler is missing. -/
def crash (h : Hooks) : Outcome := ⟨[], h, false⟩

/-- One check, which drops the call or does not. -/
def perform (c : Check) (f : ZendString) (drops : Check → Bool) (h : Hooks) : Outcome :=
  ⟨[(c, f)], h, !drops c⟩

/-- `array_handler`: `call` runs the function by the handler that has just been put into its slot. -/
def arrayHandler (name : ZendString) (self : ZifHandler) (call : ZifHandler → Hooks → Outcome)
    (h : Hooks) : Outcome :=
  match (h.saved .spInternalFunctionsHook).find? name, h.functionTable.find? name with
  | some handler, some _ =>
    (call handler (h.setHandler name handler)).andThen fun h => done (h.setHandler name self)
  | _, _ => crash h

/-- Run a handler for a call of `f`; `body` is what the function itself does. The first argument
bounds the length of the chain of handlers. -/
def invoke (drops : Check → Bool) :
    ℕ → ZendString → (Hooks → Outcome) → ZifHandler → Hooks → Outcome
  | 0, _, _, _, h => crash h
  | n + 1, f, body, .checkDisabledFunction, h =>
    (perform .call f drops h).andThen fun h =>
    (match (h.saved .disabledFunctionsHook).find? f with
      | some origHandler => invoke drops n f body origHandler h
      | none => crash h).andThen fun h =>
    perform .ret f drops h
  | n + 1, f, body, .evalBlacklistCallback, h =>
    (perform .eval f drops h).andThen fun h =>
    match (h.saved .spEvalBlacklistFunctionsHook).find? f with
    | some origHandler => invoke drops n f body origHandler h
    | none => crash h
  | n + 1, _, _, .spInArray, h =>
    arrayHandler (zstr "in_array") .spInArray (invoke drops n (zstr "in_array") done) h
  | n + 1, _, _, .spArraySearch, h =>
    arrayHandler (zstr "array_search") .spArraySearch (invoke drops n (zstr "array_search") done) h
  | n + 1, _, _, .spArrayKeys, h =>
    arrayHandler (zstr "array_keys") .spArrayKeys (invoke drops n (zstr "array_keys") done) h
  | _ + 1, _, body, .php _, h => body h
  | _ + 1, _, body, .spSerialize, h => body h
  | _ + 1, _, body, .spUnserialize, h => body h
  | _ + 1, _, body, .spRand, h => body h
  | _ + 1, _, body, .spMtRand, h => body h
  | _ + 1, _, body, .spLibxmlDisableEntityLoader, h => body h
  | _ + 1, _, body, .spLibxmlSetExternalEntityLoader, h => body h
  | _ + 1, _, body, .spStreamWrapperRegister, h => body h
  | _ + 1, _, body, .spStreamWrapperRestore, h => body h
  | _ + 1, _, body, .spSetcookie, h => body h

/-- A run: calls one after the other, each with the calls made by the function. -/
inductive Calls
  | nil
  | call (f : ZendString) (drops : Check → Bool) (inner rest : Calls)

/-- The handler a call of `f` runs, if `f` is an internal function. -/
def internalHandler (h : Hooks) (f : ZendString) : Option ZifHandler :=
  if h.functionTable.typeOf f = some .internal then h.functionTable.handlerOf f else none

/-- Run the calls. -/
def exec : Calls → Hooks → Outcome
  | .nil, h => done h
  | .call f drops inner rest, h =>
    (match internalHandler h f with
      | some handler => invoke drops 4 f (exec inner) handler h
      | none => exec inner h).andThen (exec rest)

end Snuffleupagus.Hook.Dispatch
