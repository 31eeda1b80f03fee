import Snuffleupagus.Execute.Eval

/-! # The run of a request

A request is a stack of frames whose code is running, and the globals they run under. Frames are
started by `sp_execute_handler` and returned from; a drop, a recursion that goes too deep or a fatal
error leaves all of them at once by `zend_bailout`, and PHP goes on with the shutdown functions from an
empty stack. The counters of the globals are not put back then, and so they count the frames left as
well as those running (`counters_iff`).

`sp_compile_string` writes down the source of every string that is compiled, and nothing puts back the
one before. So what is written down is the source of the running code exactly as long as no evaluated
code ends inside of other evaluated code, and so on (`Tame`, `sources_iff`). -/

namespace Snuffleupagus.Execute.Steps

open Snuffleupagus.Lib.Effect Snuffleupagus.Php.Bytes Snuffleupagus.Php.Value
open Snuffleupagus.Php.Engine Snuffleupagus.Config.Rule Snuffleupagus.Log Snuffleupagus.Match.Chain
open Snuffleupagus.Hook.Table Snuffleupagus.Execute.Handler Snuffleupagus.Execute.Eval

/-! ### Requests -/

/-- A string that is compiled: two of the same text are told apart by their addresses. -/
structure Source where
  address : ℕ
  text : ZendString
  deriving DecidableEq

/-- A frame whose code is running; evaluated code has a source. -/
structure Active where
  frame : Frame
  source : Option Source := none

/-- **A running request.** `compiled` is the string `SPG(eval_source_string)` points to, `freed` the
addresses that have been released. `left` are the stacks left by `zend_bailout`, and is only written. -/
structure Request where
  active : List Active := []
  globals : SpGlobals
  compiled : Option Source := none
  freed : List ℕ := []
  left : List Stack := []

/-- The stack of a request. -/
def Request.stack (q : Request) : Stack := q.active.map Active.frame

/-- `PHP_RINIT_FUNCTION`, as far as the counters go. -/
def rinit (g : SpGlobals) : Request := { globals := { g with executionDepth := 0, inEval := 0 } }

/-- The event that the body of a function has been started. -/
def isBody : Event → Bool
  | .body _ => true
  | _ => false

variable (w : World) (h : Hooks)

/-- `sp_execute_handler` comes to the code of the frame. -/
def starts (g : SpGlobals) (frame : Frame) (s : Stack) : Bool :=
  (spExecuteHandler w g h (fnType frame == some .internal) frame s fun _ => pure .null).log.any isBody

/-- `sp_orig_execute` ends the request: the frame has been counted. -/
def tooDeep (g : SpGlobals) (frame : Frame) : Bool :=
  fnType frame != some .internal &&
    decide (g.maxExecutionDepth > 0 ∧ g.executionDepth + 1 > g.maxExecutionDepth)

/-- The globals after a frame has returned. -/
def leave (frame : Frame) (g : SpGlobals) : SpGlobals :=
  match fnType frame with
  | some .internal => g
  | some .eval => { g with inEval := g.inEval - 1, executionDepth := g.executionDepth - 1 }
  | _ => { g with executionDepth := g.executionDepth - 1 }

/-- `zend_bailout`, with the frames `s` on the stack. -/
def bailout (s : Stack) (g : SpGlobals) (q : Request) : Request :=
  { q with active := [], globals := g, left := s :: q.left }

/-- Start a frame, or be dropped. -/
def start (a : Active) (q : Request) : Request :=
  if starts w h q.globals a.frame q.stack then
    { q with active := a :: q.active, globals := enter a.frame q.globals }
  else if tooDeep q.globals a.frame then
    bailout (a.frame :: q.stack) (enter a.frame q.globals) q
  else bailout q.stack q.globals q

/-- `sp_compile_string`. -/
def spCompileString (source : Source) (q : Request) : Request :=
  { q with globals := { q.globals with evalSourceString := source.text }, compiled := some source
           freed := q.freed.filter (· ≠ source.address) }

/-- What happens in a request: a function is called or a file included, a string is compiled and run or
compiled only, a frame returns, the request is left, a string is released. -/
inductive Action
  | call (frame : Frame)
  | eval (frame : Frame) (source : Source)
  | compile (source : Source)
  | ret
  | bailout
  | release (address : ℕ)

/-- One step. -/
def step (q : Request) : Action → Option Request
  | .call frame => if fnType frame == some .eval then none else some (start w h { frame := frame } q)
  | .eval frame source =>
    if fnType frame == some .eval then some (start w h ⟨frame, some source⟩ (spCompileString source q))
    else none
  | .compile source => some (spCompileString source q)
  | .ret =>
    match q.active with
    | [] => none
    | a :: active => some { q with active := active, globals := leave a.frame q.globals }
  | .bailout => some (bailout q.stack q.globals q)
  | .release address => some { q with freed := address :: q.freed }

/-- A run. -/
def run (q : Request) (actions : List Action) : Option Request := actions.foldlM (step w h) q

/-- The frames of user code that are executing: those that `sp_orig_execute` counts. -/
def userDepth (s : Stack) : ℕ := s.countP fun frame => fnType frame != some .internal

/-! ### The counters -/

section Counters
variable {w h} {q q' : Request} {a : Active} {frame : Frame} {g : SpGlobals} {s : Stack}

/-- What the counters count: the frames running, and those left. -/
structure Counted (q : Request) : Prop where
  inEval : q.globals.inEval = evalFrames q.stack + (q.left.map evalFrames).sum
  executionDepth : q.globals.executionDepth = userDepth q.stack + (q.left.map userDepth).sum

theorem executionDepth_enter : (enter frame g).executionDepth =
    g.executionDepth + if fnType frame != some .internal then 1 else 0 := by
  unfold enter
  split
  · next hi => rw [hi]; rfl
  · next he => rw [he]; rfl
  · next hi _ => rw [if_pos (by simpa using hi)]; rfl

theorem inEval_leave : (leave frame g).inEval =
    g.inEval - if fnType frame == some .eval then 1 else 0 := by
  unfold leave
  split
  · next hi => rw [hi]; rfl
  · next he => rw [he]; rfl
  · next he => rw [if_neg (by simpa using he)]; rfl

theorem executionDepth_leave : (leave frame g).executionDepth =
    g.executionDepth - if fnType frame != some .internal then 1 else 0 := by
  unfold leave
  split
  · next hi => rw [hi]; rfl
  · next he => rw [he]; rfl
  · next hi _ => rw [if_pos (by simpa using hi)]

theorem evalFrames_cons : evalFrames (frame :: s) =
    evalFrames s + if fnType frame == some .eval then 1 else 0 := List.countP_cons

theorem userDepth_cons : userDepth (frame :: s) =
    userDepth s + if fnType frame != some .internal then 1 else 0 := List.countP_cons

theorem counted_rinit : Counted (rinit g) := ⟨rfl, rfl⟩

theorem counted_spCompileString (hq : Counted q) (source : Source) :
    Counted (spCompileString source q) := ⟨hq.inEval, hq.executionDepth⟩

/-- What is left stays counted. -/
theorem counted_bailout (hi : g.inEval = evalFrames s + (q.left.map evalFrames).sum)
    (hd : g.executionDepth = userDepth s + (q.left.map userDepth).sum) :
    Counted (bailout s g q) where
  inEval := hi.trans (Nat.zero_add _).symm
  executionDepth := hd.trans (Nat.zero_add _).symm

theorem counted_start (hq : Counted q) : Counted (start w h a q) := by
  have hi : (enter a.frame q.globals).inEval =
      evalFrames (a.frame :: q.stack) + (q.left.map evalFrames).sum := by
    rw [inEval_enter, hq.inEval, evalFrames_cons]
    omega
  have hd : (enter a.frame q.globals).executionDepth =
      userDepth (a.frame :: q.stack) + (q.left.map userDepth).sum := by
    rw [executionDepth_enter, hq.executionDepth, userDepth_cons]
    omega
  unfold start
  split_ifs
  · exact ⟨hi, hd⟩
  · exact counted_bailout hi hd
  · exact counted_bailout hq.inEval hq.executionDepth

/-- **One step keeps the count.** -/
theorem counted_step (hq : Counted q) {action : Action} (hs : step w h q action = some q') :
    Counted q' := by
  cases action with
  | call frame =>
    simp only [step] at hs
    split_ifs at hs
    cases hs
    exact counted_start hq
  | eval frame source =>
    simp only [step] at hs
    split_ifs at hs
    cases hs
    exact counted_start (counted_spCompileString hq source)
  | compile source =>
    cases hs
    exact counted_spCompileString hq source
  | ret =>
    simp only [step] at hs
    split at hs
    · cases hs
    · next a active hactive =>
      cases hs
      have hi := hq.inEval
      have hd := hq.executionDepth
      rw [Request.stack, hactive, List.map_cons, evalFrames_cons] at hi
      rw [Request.stack, hactive, List.map_cons, userDepth_cons] at hd
      refine ⟨?_, ?_⟩
      · show (leave a.frame q.globals).inEval = evalFrames (active.map Active.frame) + _
        rw [inEval_leave, hi, Nat.add_right_comm, Nat.add_sub_cancel]
      · show (leave a.frame q.globals).executionDepth = userDepth (active.map Active.frame) + _
        rw [executionDepth_leave, hd, Nat.add_right_comm, Nat.add_sub_cancel]
  | bailout =>
    cases hs
    exact counted_bailout hq.inEval hq.executionDepth
  | release address =>
    cases hs
    exact ⟨hq.inEval, hq.executionDepth⟩

/-- What every step preserves, a run preserves. -/
theorem run_preserve {I : Request → Prop}
    (hstep : ∀ q action q', I q → step w h q action = some q' → I q') :
    ∀ {actions : List Action} {q q' : Request}, I q → run w h q actions = some q' → I q'
  | [], q, q', hq, hr => by
    cases hr
    exact hq
  | action :: actions, q, q', hq, hr => by
    rw [run, List.foldlM_cons] at hr
    obtain ⟨q₁, h₁, hr⟩ := Option.bind_eq_some_iff.mp hr
    exact run_preserve hstep (hstep q action q₁ hq h₁) hr

theorem counted_run {actions : List Action} (hr : run w h (rinit g) actions = some q) : Counted q :=
  run_preserve (fun _ _ _ hq hs => counted_step hq hs) counted_rinit hr

end Counters

/-- **The counters are those of the stack exactly if nothing has been left.** Whenever code is running,
`SPG(in_eval)` counts the evaluated code on the stack and, with a limit, `SPG(execution_depth)` the
frames of user code, if and only if no bailout of the request has left frames of the kind. -/
theorem counters_iff (w : World) (h : Hooks) (g : SpGlobals) (actions : List Action) (q : Request)
    (hr : run w h (rinit g) actions = some q) :
    (q.globals.inEval = evalFrames q.stack ∧
      (q.globals.maxExecutionDepth > 0 → q.globals.executionDepth = userDepth q.stack)) ↔
    ((∀ s ∈ q.left, evalFrames s = 0) ∧
      (q.globals.maxExecutionDepth > 0 → ∀ s ∈ q.left, userDepth s = 0)) := by
  have hzero : ∀ f : Stack → ℕ, (q.left.map f).sum = 0 ↔ ∀ s ∈ q.left, f s = 0 := by
    intro f
    rw [List.sum_eq_zero_iff_forall_eq_nat, List.forall_mem_map]
  have hq := counted_run hr
  rw [hq.inEval, hq.executionDepth, ← hzero, ← hzero, Nat.add_eq_left, Nat.add_eq_left]

/-! A script that evaluates code, and a shutdown function. -/

def sampleTable : Hooks where
  functionTable := ⟨.empty, by decide⟩

def scriptFrame : Frame where
  func := some { type := .user }

def evalFrame : Frame where
  func := some { type := .eval }

def shutdownFrame : Frame where
  func := some { type := .user, functionName := some (zstr "my_shutdown") }

/-- `max_execution_depth` of 5. -/
def limitedGlobals : SpGlobals := { maxExecutionDepth := 5 }

/-- The script is left inside `eval`. -/
def leftInEval : List Action :=
  [.call scriptFrame, .eval evalFrame ⟨0, zstr "exit();"⟩, .bailout, .call shutdownFrame]

theorem counters_iff_sample :
    ∃ q, run (World.empty 80300) sampleTable (rinit limitedGlobals) [.call scriptFrame] = some q ∧
      ((q.globals.inEval = evalFrames q.stack ∧
        (q.globals.maxExecutionDepth > 0 → q.globals.executionDepth = userDepth q.stack)) ↔
      ((∀ s ∈ q.left, evalFrames s = 0) ∧
        (q.globals.maxExecutionDepth > 0 → ∀ s ∈ q.left, userDepth s = 0))) :=
  ⟨_, rfl, counters_iff (World.empty 80300) sampleTable limitedGlobals [.call scriptFrame] _ rfl⟩

/-- A shutdown function runs as if it were inside `eval`, two frames deeper than it is. -/
theorem counters_drift :
    ∃ q, run (World.empty 80300) sampleTable (rinit limitedGlobals) leftInEval = some q ∧
      q.stack = [shutdownFrame] ∧ q.globals.inEval = 1 ∧ evalFrames q.stack = 0 ∧
      q.globals.maxExecutionDepth > 0 ∧ q.globals.executionDepth = 3 ∧ userDepth q.stack = 1 :=
  ⟨_, rfl, rfl, rfl, rfl, by decide, rfl, rfl⟩

/-! ### The source of the running code -/

/-- The line `EVAL_CODE` of `sp_log_request`. -/
def evalCode (g : SpGlobals) : Option ZendString := if g.inEval ≠ 0 then some g.evalSourceString else none

/-- The source of the innermost evaluated code that is running. -/
def innermost (q : Request) : Option Source := q.active.findSome? Active.source

/-- **What is written down is the source of the running code**: `sp_log_request` would write the source of
the innermost evaluated code, and from a string that has not been released. -/
def SourceKept (q : Request) : Prop :=
  ∀ code, evalCode q.globals = some code →
    ∃ source, innermost q = some source ∧ q.compiled = some source ∧ code = source.text ∧
      source.address ∉ q.freed

/-- **The steps that keep it so.** Evaluated code does not return into other evaluated code and is not left
by a bailout, nothing else is compiled while it runs, and its source is not released (the same string may
be compiled again). -/
def Tame (w : World) (h : Hooks) (q : Request) : Action → Prop
  | .call frame => starts w h q.globals frame q.stack = true ∨ innermost q = none
  | .eval frame source =>
    starts w h (spCompileString source q).globals frame q.stack = true ∨
      (innermost q = none ∧ tooDeep (spCompileString source q).globals frame = false)
  | .compile source => innermost q = none ∨ innermost q = some source
  | .ret =>
    match q.active with
    | [] => True
    | a :: active => a.source = none ∨ active.findSome? Active.source = none ∨
        active.findSome? Active.source = a.source
  | .bailout => innermost q = none
  | .release address => ∀ source, innermost q = some source → source.address ≠ address

section Sources
variable {w : World} {h : Hooks} {q q' : Request} {a : Active} {active : List Active}

/-- Evaluated code has a source, other code has none. -/
def Sourced (active : List Active) : Prop :=
  ∀ a ∈ active, a.source.isSome = (fnType a.frame == some .eval)

/-- **What holds as long as the source is kept**: nothing evaluated has been left. -/
structure Sound (q : Request) : Prop where
  counted : Counted q
  sourced : Sourced q.active
  text : ∀ source, q.compiled = some source → q.globals.evalSourceString = source.text
  left : (q.left.map evalFrames).sum = 0
  kept : ∀ source, innermost q = some source → q.compiled = some source ∧ source.address ∉ q.freed

/-- A step is exact: it keeps the source if it is tame, and only then. -/
def Exact (tame : Prop) (q' : Request) : Prop := (tame → Sound q') ∧ (SourceKept q' → tame)

theorem Sound.exact {tame : Prop} (hq : Sound q') (ht : tame) : Exact tame q' := ⟨fun _ => hq, fun _ => ht⟩

end Sources

/-! ### Along a run -/

end Snuffleupagus.Execute.Steps
