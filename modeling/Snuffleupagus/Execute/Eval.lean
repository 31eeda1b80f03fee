import Snuffleupagus.Execute.Handler
import Snuffleupagus.Hook.Dispatch

/-! # The lists of `eval`

Two checks stand between the code that runs inside `eval` and the functions it calls. The whitelist is
the first step of `sp_execute_handler`, and is asked about every function; the blacklist is a handler of
its own, `eval_blacklist_callback`, and is asked about the functions in whose slot it is. Both tell from
`SPG(in_eval)` that code is running inside `eval`. It counts the frames of evaluated code on the stack
(`inEval_within`), and also those the request has left by `zend_bailout`, since nothing takes them back
before the next request (`inEval_afterBailouts`).

`drop_evalChecks_iff` says when the two checks drop a call. -/

namespace Snuffleupagus.Execute.Eval

open Snuffleupagus.Lib.Effect Snuffleupagus.Lib.Table Snuffleupagus.Php.Bytes Snuffleupagus.Php.Value
open Snuffleupagus.Php.Engine Snuffleupagus.Config.Rule Snuffleupagus.Log Snuffleupagus.Match.Chain
open Snuffleupagus.Hook.Table Snuffleupagus.Hook.Dispatch Snuffleupagus.Execute.Handler

variable (w : World) (g : SpGlobals) (h : Hooks)

/-! ### A call -/

/-- A function that is called: its frame, and its key in `CG(function_table)`. Methods, closures and
evaluated code have none. -/
structure Called where
  frame : Frame
  key : Option ZendString := none

/-- The handler that runs the function, if it is an internal one. -/
def Called.handler (c : Called) : Option ZifHandler := c.key.bind (internalHandler h)

/-- `eval_blacklist_callback`, up to the handler it runs. -/
def evalBlacklistCallback (frame : Frame) : Sp (Option ZifHandler) :=
  match getCompleteFunctionPath frame with
  | none => pure none
  | some currentFunctionName => do
    if checkIsInEvalWhitelist g currentFunctionName then pure ()
    else if g.inEval > 0 then do
      spLogRequest g.eval.dump g.eval.textualRepresentation
      if g.eval.simulation then
        spLogSimulation w g "eval" "A call to '%s' was tried in eval. logging it." [currentFunctionName]
      else spLogDrop w g "eval" "A call to '%s' was tried in eval. dropping it." [currentFunctionName]
    else pure ()
    some <$> fetch ((h.saved .spEvalBlacklistFunctionsHook).find? currentFunctionName)

/-- What is done about the lists of `eval` when a function is called: `sp_execute_handler` asks the
whitelist, and the handler of the function the blacklist. -/
def evalChecks (c : Called) : Sp Unit := do
  isInEvalAndWhitelisted w g c.frame
  if c.handler h = some .evalBlacklistCallback then
    discard (evalBlacklistCallback w g h c.frame)
  else pure ()

/-! ### Nested code -/

/-- The type of the function a frame runs. -/
def fnType (frame : Frame) : Option FnType := frame.func.map ZendFunction.type

/-- The globals under which `sp_execute_handler` runs the code of a frame. -/
def enter (frame : Frame) (g : SpGlobals) : SpGlobals :=
  match fnType frame with
  | some .internal => g
  | some .eval => deeper { g with inEval := g.inEval + 1 }
  | _ => deeper g

/-- The globals under which the innermost frame of a stack runs. -/
def within (s : Stack) (g : SpGlobals) : SpGlobals := s.foldr enter g

/-- The globals after `zend_bailout` has left some stacks, one after the other: PHP goes on with the
shutdown functions and the destructors. -/
def afterBailouts (bailouts : List Stack) (g : SpGlobals) : SpGlobals :=
  bailouts.foldl (fun g s => within s g) g

/-- The evaluated code on the stack. -/
def evalFrames (s : Stack) : ℕ := s.countP fun frame => fnType frame == some .eval

section Nested
variable {g} {w} {h} {frame : Frame} {s : Stack}

/-- **Code runs under the globals of its frame.** -/
theorem spExecuteHandler_enter {run run' : SpGlobals → Sp Zval}
    (hrun : run (enter frame g) = run' (enter frame g)) :
    spExecuteHandler w g h (fnType frame == some .internal) frame s run =
      spExecuteHandler w g h (fnType frame == some .internal) frame s run' := by
  have hcall : ∀ name, fnType frame ≠ some .eval →
      spCallOrigExecute w g (fnType frame == some .internal) name run =
        spCallOrigExecute w g (fnType frame == some .internal) name run' := by
    intro name hne
    unfold spCallOrigExecute spOrigExecute
    by_cases hi : fnType frame = some .internal
    · have henter : enter frame g = g := by
        unfold enter
        rw [hi]
      rw [henter] at hrun
      simp only [hi, beq_self_eq_true, if_true, hrun]
    · have henter : enter frame g = deeper g := by
        unfold enter
        split
        · exact absurd ‹_› hi
        · exact absurd ‹_› hne
        · rfl
      rw [henter] at hrun
      simp only [beq_eq_false_iff_ne.mpr hi, Bool.false_eq_true, if_false, hrun]
  by_cases he : fnType frame = some .eval
  · have henter : enter frame g = deeper { g with inEval := g.inEval + 1 } := by
      unfold enter
      rw [he]
    rw [henter] at hrun
    have hinternal : (fnType frame == some FnType.internal) = false := by rw [he]; rfl
    have heval : (frame.func.map ZendFunction.type == some FnType.eval) = true := by
      rw [show frame.func.map ZendFunction.type = some .eval from he]; rfl
    unfold spExecuteHandler spOrigExecute
    simp only [hinternal, heval, Bool.not_false, Bool.and_self, if_true, hrun]
  · have heval : (frame.func.map ZendFunction.type == some FnType.eval) = false :=
      beq_eq_false_iff_ne.mpr he
    unfold spExecuteHandler
    simp only [heval, Bool.and_false, Bool.false_eq_true, if_false, hcall _ he]

@[simp] theorem eval_enter : (enter frame g).eval = g.eval := by
  unfold enter
  split <;> rfl

theorem inEval_enter : (enter frame g).inEval =
    g.inEval + if fnType frame == some .eval then 1 else 0 := by
  unfold enter
  split
  · next hi => rw [hi]; rfl
  · next he => rw [he]; rfl
  · next he => rw [if_neg (by simpa using he)]; rfl

@[simp] theorem eval_within : ∀ s : Stack, (within s g).eval = g.eval
  | [] => rfl
  | frame :: s => by
    show (enter frame (within s g)).eval = _
    rw [eval_enter, eval_within s]

/-- **The counter goes up by the evaluated code on the stack.** -/
theorem inEval_within : ∀ s : Stack, (within s g).inEval = g.inEval + evalFrames s
  | [] => rfl
  | frame :: s => by
    show (enter frame (within s g)).inEval = _
    rw [inEval_enter, inEval_within s, evalFrames, evalFrames, List.countP_cons, Nat.add_assoc]

@[simp] theorem eval_afterBailouts (bailouts : List Stack) : (afterBailouts bailouts g).eval = g.eval := by
  unfold afterBailouts
  induction bailouts generalizing g with
  | nil => rfl
  | cons s l ih => exact ih.trans (eval_within s)

/-- What a bailout leaves is not taken back. -/
theorem inEval_afterBailouts (bailouts : List Stack) :
    (afterBailouts bailouts g).inEval = g.inEval + (bailouts.map evalFrames).sum := by
  unfold afterBailouts
  induction bailouts generalizing g with
  | nil => rfl
  | cons s l ih =>
    rw [List.foldl_cons, ih, inEval_within, List.map_cons, List.sum_cons, Nat.add_assoc]

end Nested

/-! ### When the checks drop a call -/

section Drop
variable {w g h} {frame : Frame} {c : Called} {f : ZendString}

/-- The whitelist, not in simulation. -/
theorem out_isInEvalAndWhitelisted (hsim : g.eval.simulation = false)
    (hf : getCompleteFunctionPath frame = some f) : (isInEvalAndWhitelisted w g frame).out =
      if g.inEval ≠ 0 ∧ g.eval.whitelist ≠ [] ∧ f ∉ g.eval.whitelist then .error .drop else .ok () := by
  unfold isInEvalAndWhitelisted checkIsInEvalWhitelist
  by_cases hin : g.inEval = 0
  · simp [hin]
  by_cases hw : g.eval.whitelist = []
  · simp [hw]
  by_cases hm : f ∈ g.eval.whitelist
  · simp [hin, hw, hf, hm]
  · simp [hin, hw, hf, hm, hsim]

/-- The blacklist, not in simulation. -/
theorem drop_evalBlacklistCallback (hsim : g.eval.simulation = false)
    (hf : getCompleteFunctionPath frame = some f) :
    (evalBlacklistCallback w g h frame).out = .error .drop ↔ g.inEval ≠ 0 ∧ f ∉ g.eval.whitelist := by
  have hfetch : ∀ o : Option ZifHandler, (some <$> fetch o : Sp (Option ZifHandler)).out ≠ .error .drop := by
    rintro (_ | a) <;> exact fun heq => by cases heq
  unfold evalBlacklistCallback checkIsInEvalWhitelist
  rw [hf]
  dsimp only
  by_cases hm : f ∈ g.eval.whitelist
  · simpa [hm] using hfetch _
  by_cases hin : g.inEval = 0
  · simpa [hm, hin] using hfetch _
  · simp [hm, hin, hsim, Nat.pos_of_ne_zero hin]

/-- **When a call is dropped because of the lists.** -/
theorem drop_evalChecks_iff (hsim : g.eval.simulation = false)
    (hf : getCompleteFunctionPath c.frame = some f) : (evalChecks w g h c).out = .error .drop ↔
      g.inEval ≠ 0 ∧ f ∉ g.eval.whitelist ∧
        (g.eval.whitelist ≠ [] ∨ c.handler h = some .evalBlacklistCallback) := by
  have hdrop := drop_evalBlacklistCallback (w := w) (h := h) hsim hf
  unfold evalChecks
  rw [out_bind, out_isInEvalAndWhitelisted hsim hf]
  by_cases hw : g.inEval ≠ 0 ∧ g.eval.whitelist ≠ [] ∧ f ∉ g.eval.whitelist
  · rw [if_pos hw, error_bind]
    exact iff_of_true rfl ⟨hw.1, hw.2.2, Or.inl hw.2.1⟩
  rw [if_neg hw, ok_bind]
  by_cases hc : c.handler h = some .evalBlacklistCallback
  · have hdiscard : (discard (evalBlacklistCallback w g h c.frame)).out = .error .drop ↔
        (evalBlacklistCallback w g h c.frame).out = .error .drop := by
      show ((fun _ => ()) <$> evalBlacklistCallback w g h c.frame).out = _ ↔ _
      rw [out_map]
      cases (evalBlacklistCallback w g h c.frame).out <;> simp
    rw [if_pos hc, hdiscard, hdrop]
    tauto
  · rw [if_neg hc]
    refine iff_of_false (fun heq => by cases heq) ?_
    tauto

end Drop

end Snuffleupagus.Execute.Eval
