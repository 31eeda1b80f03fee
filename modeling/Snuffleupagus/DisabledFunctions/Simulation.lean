import Snuffleupagus.Lib.FirstMatch
import Snuffleupagus.DisabledFunctions.Evaluate

/-! # Rules in simulation

A rule with `.simulation()` should only log. Its drops do, but an `allow` in simulation ends the
evaluation like any other, and so does an abort while its filters are evaluated.
`simulation_noninterference_iff` says when a list of rules and the same list without its rules in
simulation treat a call, or a return, alike. -/

namespace Snuffleupagus.DisabledFunctions.Simulation

open Snuffleupagus.Lib.FirstMatch Snuffleupagus.Php.Bytes Snuffleupagus.Php.Value
open Snuffleupagus.Php.Engine Snuffleupagus.Config.Rule Snuffleupagus.Log
open Snuffleupagus.DisabledFunctions.Filter Snuffleupagus.DisabledFunctions.Evaluate

/-- The rule is in earnest. -/
def live (r : SpDisabledFunction) : Bool := !r.simulation

variable {w : World} {g : SpGlobals}

/-- A call of `system`, and its return. -/
def sampleCall : Call where
  executeData := [{ func := some { type := .internal, functionName := some (zstr "system") } }]

def sampleReturn : Return where
  executeData := sampleCall.executeData
  current := sampleCall.executeData
  returnValue := some (.string (zstr "root"))

/-- `function("system").allow().simulation()` and then `function("system").drop()`; with `.ret("root")`
each for the return. -/
def sampleRules : List SpDisabledFunction :=
  [{ function := some (zstr "system"), allow := true, simulation := true },
    { function := some (zstr "system") }]

end Snuffleupagus.DisabledFunctions.Simulation
