import Snuffleupagus.Lib.Lockstep
import Snuffleupagus.Load.History

/-! # The early exit of the hook on execution

`SPG(hook_execute)` is computed at the end of a load, from the stores as they are then. If it is false,
`sp_execute_handler` does not come to the rules: it makes the checks before them and runs the code.

`fullPath` is the same function without this exit. In every state a process comes to, the flag is false
only if the stores the full path consults are empty, and so the two treat a call alike
(`fast_path_sound`). A configuration that is only printed (`dumps`) starts no hook, and no call comes here. -/

namespace Snuffleupagus.Execute.FastPath

open Snuffleupagus.Lib.Effect Snuffleupagus.Lib.Table Snuffleupagus.Lib.Lockstep
open Snuffleupagus.Php.Bytes Snuffleupagus.Php.Value Snuffleupagus.Php.Engine Snuffleupagus.Config.Rule
open Snuffleupagus.Log hiding Event
open Snuffleupagus.Match.Chain Snuffleupagus.Hook.Table Snuffleupagus.DisabledFunctions.Filter
open Snuffleupagus.DisabledFunctions.Evaluate Snuffleupagus.DisabledFunctions.Dispatch Snuffleupagus.Execute.Handler
open Snuffleupagus.Ini.Hook Snuffleupagus.Wrapper.Table
open Snuffleupagus.Load.Module Snuffleupagus.Load.Cases Snuffleupagus.Load.History

variable (w : World) (g : SpGlobals) (h : Hooks)

/-! ### With and without the exit -/

/-- `sp_execute_handler`, up to the flag: the checks that are made in any case. -/
def entryChecks (internal : Bool) (frame : Frame) (s : Stack) : Sp Unit := do
  isInEvalAndWhitelisted w g frame
  if !internal && (frame.func.map ZendFunction.type == some .eval) then evalMatching w g (frame :: s)
  else if internal then pure ()
  else spCheckWritable w g frame.func

/-- The code of a frame, without rules. -/
def runCode (internal : Bool) (frame : Frame) (run : SpGlobals → Sp Zval) : Sp Zval :=
  if !internal && (frame.func.map ZendFunction.type == some .eval) then
    spOrigExecute w { g with inEval := g.inEval + 1 } (getCompleteFunctionPath frame) run
  else spCallOrigExecute w g internal (getCompleteFunctionPath frame) run

/-- **`sp_execute_handler` without the early exit.** -/
def fullPath (internal : Bool) (frame : Frame) (s : Stack) (run : SpGlobals → Sp Zval) : Sp Zval := do
  isInEvalAndWhitelisted w g frame
  let functionName := getCompleteFunctionPath frame
  if !internal && (frame.func.map ZendFunction.type == some .eval) then do
    evalMatching w g (frame :: s)
    spOrigExecute w { g with inEval := g.inEval + 1 } functionName run
  else do
    if internal then pure () else spCheckWritable w g frame.func
    match functionName with
    | none => spCallOrigExecute w g internal functionName run
    | some name =>
      if ((h.saved .disabledFunctionsHook).find? name).isSome then
        spCallOrigExecute w g internal functionName run
      else do
        if isCheckedCall s.head? then
          shouldDisableHt w g ⟨frame :: s, none⟩ name g.stores.disabledFunctionsReg
            g.stores.disabledFunctions
        else pure ()
        let value ← spCallOrigExecute w g internal functionName run
        shouldDropOnRetHt w g ⟨frame :: s, if internal then frame :: s else s, some value⟩ name
          g.stores.disabledFunctionsRegRet g.stores.disabledFunctionsRet
        pure value

/-- The marks that the rules of a function are being evaluated: nothing is logged then. -/
def isMark : Snuffleupagus.Log.Event → Bool
  | .shouldDisable _ => true
  | .shouldDropOnRet _ => true
  | _ => false

/-- **The same verdict**: the calls end alike, and the same lines are logged, the same requests dumped and
the same code run before. -/
abbrev SameVerdict {α : Type} (x y : Sp α) : Prop := Alike (fun e => !isMark e) x y

/-- The rule is in a store that the full path consults. -/
def Consulted (s : Stores) (r : SpDisabledFunction) : Prop :=
  r ∈ s.disabledFunctionsReg ∨ r ∈ s.disabledFunctions.values ∨ r ∈ s.disabledFunctionsRegRet ∨
    r ∈ s.disabledFunctionsRet.values

/-- The globals under which code runs: the configuration is that of the module. -/
def Running (m : SpModule) (g : SpGlobals) : Prop :=
  ∃ depth inEval source, g = { m.globals with executionDepth := depth, inEval := inEval
                                              evalSourceString := source }

/-! ### Nothing to consult -/

section Empty
variable {w g h} {internal : Bool} {frame : Frame} {s : Stack} {run run' : SpGlobals → Sp Zval}

/-- The stores the full path consults are empty. -/
structure NothingConsulted (s : Stores) : Prop where
  reg : s.disabledFunctionsReg = []
  call : s.disabledFunctions.entries = []
  regRet : s.disabledFunctionsRegRet = []
  ret : s.disabledFunctionsRet.entries = []

theorem NothingConsulted.not_consulted {s : Stores} (hs : NothingConsulted s) (r : SpDisabledFunction) :
    ¬ Consulted s r := by
  unfold Consulted OrdTable.values
  rw [hs.reg, hs.call, hs.regRet, hs.ret]
  simp

theorem find?_of_entries {ht : RuleTable} (ht0 : ht.entries = []) (name : ZendString) :
    ht.find? (.str name) = none := by
  unfold OrdTable.find?
  rw [ht0]
  rfl

/-- A call is only marked. -/
theorem shouldDisableHt_of_empty (c : Call) (name : ZendString) {ht : RuleTable} (ht0 : ht.entries = []) :
    Yields (shouldDisableHt w g c name [] ht) () ∧
      ∀ e ∈ (shouldDisableHt w g c name [] ht).log, (!isMark e) = false := by
  unfold shouldDisableHt
  rw [find?_of_entries ht0 name]
  by_cases hc : c.executeData.isEmpty = true
  · rw [if_pos hc]
    exact ⟨rfl, fun e he => by cases he⟩
  · rw [if_neg hc]
    refine ⟨rfl, fun e he => ?_⟩
    cases List.mem_singleton.mp he
    rfl

/-- A return is only marked. -/
theorem shouldDropOnRetHt_of_empty (ret : Return) (name : ZendString) {ht : RuleTable} (ht0 : ht.entries = []) :
    Yields (shouldDropOnRetHt w g ret name [] ht) () ∧
      ∀ e ∈ (shouldDropOnRetHt w g ret name [] ht).log, (!isMark e) = false := by
  unfold shouldDropOnRetHt
  rw [find?_of_entries ht0 name]
  refine ⟨rfl, fun e he => ?_⟩
  cases List.mem_singleton.mp he
  rfl

/-- With the flag off, the handler makes its checks and runs the code. -/
theorem spExecuteHandler_of_not (hflag : g.hookExecute = false) :
    spExecuteHandler w g h internal frame s run =
      (do entryChecks w g internal frame s; runCode w g internal frame run) := by
  unfold spExecuteHandler entryChecks runCode
  rw [bind_assoc]
  refine bind_congr fun _ => ?_
  by_cases heval : (!internal && (frame.func.map ZendFunction.type == some .eval)) = true
  · rw [if_pos heval, if_pos heval, if_pos heval]
  · rw [if_neg heval, if_neg heval, if_neg heval]
    cases hname : getCompleteFunctionPath frame with
    | none => cases internal <;> rfl
    | some name =>
      rw [hflag]
      cases internal <;> rfl

section Rules
variable (hs : NothingConsulted g.stores) (c : Call) (ret : Zval → Return) (name : ZendString) (code : Sp Zval)
include hs

variable (w) in
/-- Nothing is seen of the rules behind the code, if there are none. -/
theorem sameVerdict_ret : SameVerdict code (do
    let value ← code
    shouldDropOnRetHt w g (ret value) name g.stores.disabledFunctionsRegRet g.stores.disabledFunctionsRet
    pure value) := by
  have hR := stepwise_alike (fun e => !isMark e) (ε := Abort) fun _ => True
  have hcode : SameVerdict code (code >>= pure) := by
    rw [bind_pure]
    exact ⟨rfl, rfl⟩
  refine hcode.trans (hR.bind ⟨rfl, rfl⟩ fun value => ?_)
  rw [hs.regRet]
  obtain ⟨hy, hlog⟩ := shouldDropOnRetHt_of_empty (w := w) (g := g) (ret value) name hs.ret
  exact alike_bind (f := fun _ => pure value) hy hlog

variable (w) in
/-- Nor of those before it. -/
theorem sameVerdict_rules : SameVerdict code (do
    shouldDisableHt w g c name g.stores.disabledFunctionsReg g.stores.disabledFunctions
    let value ← code
    shouldDropOnRetHt w g (ret value) name g.stores.disabledFunctionsRegRet g.stores.disabledFunctionsRet
    pure value) := by
  refine (sameVerdict_ret w hs ret name code).trans ?_
  rw [hs.reg]
  obtain ⟨hy, hlog⟩ := shouldDisableHt_of_empty (w := w) (g := g) c name hs.call
  exact alike_bind (f := fun _ => do
    let value ← code
    shouldDropOnRetHt w g (ret value) name g.stores.disabledFunctionsRegRet g.stores.disabledFunctionsRet
    pure value) hy hlog

end Rules

/-- **Without rules the full path makes the checks and runs the code**, too. -/
theorem fullPath_of_empty (hs : NothingConsulted g.stores) :
    SameVerdict (do entryChecks w g internal frame s; runCode w g internal frame run)
      (fullPath w g h internal frame s run) := by
  have hR := stepwise_alike (fun e => !isMark e) (ε := Abort) fun _ => True
  have hrefl : ∀ {α : Type} (x : Sp α), SameVerdict x x := fun _ => ⟨rfl, rfl⟩
  unfold fullPath entryChecks runCode
  rw [bind_assoc]
  refine hR.bind (hrefl _) fun _ => ?_
  by_cases heval : (!internal && (frame.func.map ZendFunction.type == some .eval)) = true
  · rw [if_pos heval, if_pos heval, if_pos heval]
    exact hrefl _
  · rw [if_neg heval, if_neg heval, if_neg heval]
    have hrules : ∀ code : Sp Zval, SameVerdict code
        (match getCompleteFunctionPath frame with
        | none => code
        | some name =>
          if ((h.saved .disabledFunctionsHook).find? name).isSome then code
          else if isCheckedCall s.head? then do
            shouldDisableHt w g ⟨frame :: s, none⟩ name g.stores.disabledFunctionsReg g.stores.disabledFunctions
            let value ← code
            shouldDropOnRetHt w g ⟨frame :: s, if internal then frame :: s else s, some value⟩ name
              g.stores.disabledFunctionsRegRet g.stores.disabledFunctionsRet
            pure value
          else do
            let value ← code
            shouldDropOnRetHt w g ⟨frame :: s, if internal then frame :: s else s, some value⟩ name
              g.stores.disabledFunctionsRegRet g.stores.disabledFunctionsRet
            pure value) := by
      intro code
      cases getCompleteFunctionPath frame with
      | none => exact hrefl _
      | some name =>
        dsimp only
        by_cases hooked : ((h.saved .disabledFunctionsHook).find? name).isSome = true
        · rw [if_pos hooked]
          exact hrefl _
        · rw [if_neg hooked]
          by_cases hchecked : isCheckedCall s.head? = true
          · rw [if_pos hchecked]
            exact sameVerdict_rules w hs _ (fun value => ⟨frame :: s, _, some value⟩) name code
          · rw [if_neg hchecked]
            exact sameVerdict_ret w hs (fun value => ⟨frame :: s, _, some value⟩) name code
    cases internal with
    | true => exact hrules _
    | false => exact hR.bind (hrefl _) fun _ => hrules _

/-! ### The code that runs -/

variable {m : SpModule}

theorem Running.deeper (hg : Running m g) : Running m (deeper g) := by
  obtain ⟨depth, inEval, source, rfl⟩ := hg
  exact ⟨depth + 1, inEval, source, rfl⟩

theorem Running.inEval (hg : Running m g) : Running m { g with inEval := g.inEval + 1 } := by
  obtain ⟨depth, inEval, source, rfl⟩ := hg
  exact ⟨depth, inEval + 1, source, rfl⟩

/-- The code of a frame, of which the same is seen whatever globals it runs under. -/
theorem sameVerdict_runCode (hg : Running m g) (hrun : ∀ g', Running m g' → SameVerdict (run g') (run' g')) :
    SameVerdict (runCode w g internal frame run) (runCode w g internal frame run') := by
  have hR := stepwise_alike (fun e => !isMark e) (ε := Abort) fun _ => True
  have horig : ∀ g' name, Running m g' → SameVerdict (spOrigExecute w g' name run) (spOrigExecute w g' name run') := by
    intro g' name hg'
    have hrest : SameVerdict (do emit (.body name); run (Handler.deeper g'))
        (do emit (.body name); run' (Handler.deeper g')) :=
      hR.bind ⟨rfl, rfl⟩ fun _ => hrun _ hg'.deeper
    unfold spOrigExecute
    exact related_ite Iff.rfl (fun _ => hR.bind ⟨rfl, rfl⟩ fun _ => hrest) fun _ => hrest
  unfold runCode spCallOrigExecute
  refine related_ite Iff.rfl (fun _ => horig _ _ hg.inEval) fun _ => ?_
  exact related_ite Iff.rfl (fun _ => hR.bind ⟨rfl, rfl⟩ fun _ => hrun g hg) fun _ => horig g _ hg

end Empty

/-! ### The flag -/

section Flag
variable {p : PhpProcess} {e : Environment} {allowBroken : Bool} {t₀ : FunctionTable} {m m' : SpModule}
  {newValue : ZendString} {ok : Bool}

/-- **What the flag says**: if it is off, there is nothing to consult. -/
def FlagSound (g : SpGlobals) : Prop := g.hookExecute = false → NothingConsulted g.stores

/-- The flag is computed from all the stores that are consulted. -/
theorem flagSound_loadedGlobals (g : SpGlobals) (s : Stores) : FlagSound (loadedGlobals g s) := by
  intro hflag
  unfold loadedGlobals at hflag
  simp only [Bool.or_eq_false_iff, Bool.not_eq_false', List.isEmpty_iff] at hflag
  obtain ⟨⟨⟨⟨-, hreg⟩, hregRet⟩, hcall⟩, hret⟩ := hflag
  exact ⟨hreg, hcall, hregRet, hret⟩

theorem flagSound_load (hdumps : dumps p = false) (hr : Reached allowBroken t₀ m)
    (hy : Yields (spLoadConfig p e newValue m) (ok, m')) : FlagSound m'.globals := by
  cases hr.outcome hy with
  | failed _ => exact fun _ => ⟨rfl, rfl, rfl, rfl⟩
  | dumped _ hdumps' => cases hdumps.symm.trans hdumps'
  | started _ _ hs =>
    rw [hs.globals]
    exact flagSound_loadedGlobals _ _

/-- Requests change neither the flag nor the stores. -/
theorem flagSound_rinitModule (h : FlagSound m.globals) : FlagSound (rinitModule m).globals := by
  unfold rinitModule filterWrappers resetCounters
  dsimp only
  split_ifs <;> exact h

/-- **The flag is sound in every state a process comes to**, if its configurations are put into force. -/
theorem flagSound_history (hdumps : dumps p = false) {d₀ : IniDirectives} {w₀ : StreamWrappers}
    {l : List Event} (hy : Yields (history p l (freshModule allowBroken t₀ d₀ w₀)) m) : FlagSound m.globals :=
  Reached.preserve (I := fun m => FlagSound m.globals) (fun hr _ hy => flagSound_load hdumps hr hy)
    (fun _ _ h => h) (fun h => flagSound_rinitModule h) reached_freshModule
    (fun _ => ⟨rfl, rfl, rfl, rfl⟩) hy

end Flag

/-- **The early exit is sound.** Whatever the process has loaded before: if the flag is off, there is no rule
in a store the full path consults, the handler still makes the checks before the rules, and a call comes to
the same verdict as on the full path, with code of which the same is seen. -/
theorem fast_path_sound (p : PhpProcess) (hdumps : dumps p = false) (allowBroken : Bool) (t₀ : FunctionTable)
    (d₀ : IniDirectives) (w₀ : StreamWrappers) (l : List Event) :
    ∃ m, Yields (history p l (freshModule allowBroken t₀ d₀ w₀)) m ∧
      ∀ g, Running m g → g.hookExecute = false → (∀ r, ¬ Consulted g.stores r) ∧
        ∀ w h internal frame s run run', (∀ g', Running m g' → SameVerdict (run g') (run' g')) →
          spExecuteHandler w g h internal frame s run =
              (do entryChecks w g internal frame s; runCode w g internal frame run) ∧
            SameVerdict (spExecuteHandler w g h internal frame s run)
              (fullPath w g h internal frame s run') := by
  obtain ⟨m, hm⟩ := exists_history p l (freshModule allowBroken t₀ d₀ w₀)
  refine ⟨m, hm, fun g hg hflag => ?_⟩
  have hs : NothingConsulted g.stores := by
    obtain ⟨depth, inEval, source, rfl⟩ := hg
    exact flagSound_history hdumps hm hflag
  refine ⟨hs.not_consulted, fun w h internal frame s run run' hrun => ?_⟩
  have hfast : spExecuteHandler w g h internal frame s run =
      (do entryChecks w g internal frame s; runCode w g internal frame run) := spExecuteHandler_of_not hflag
  refine ⟨hfast, ?_⟩
  rw [hfast]
  refine Alike.trans ?_ (fullPath_of_empty hs)
  have hR := stepwise_alike (fun e => !isMark e) (ε := Abort) fun _ => True
  exact hR.bind ⟨rfl, rfl⟩ fun _ => sameVerdict_runCode hg hrun

/-- `readonly_exec.enable()`, and nothing else. -/
def readonlyOnly : Environment := ofRules [[keyword "readonly_exec", emptyKeyword "enable"]]

/-- A call of a function of a script. -/
def sampleFrame : Frame where
  func := some { type := .user, functionName := some (zstr "f") }

theorem fast_path_sound_sample :
    ∃ r, Yields (spLoadConfig cliProcess readonlyOnly (zstr "a.rules")
        (freshModule false inArrayTable .empty .empty)) r ∧
      SameVerdict
        (spExecuteHandler (World.empty 80300) r.2.globals r.2.hooks false sampleFrame [] fun _ => pure .null)
        (fullPath (World.empty 80300) r.2.globals r.2.hooks false sampleFrame [] fun _ => pure .null) := by
  have hload : ∃ r, Yields (spLoadConfig cliProcess readonlyOnly (zstr "a.rules")
      (freshModule false inArrayTable .empty .empty)) r ∧ r.2.globals.hookExecute = false :=
    exists_of_yieldsA (by decide +kernel)
  obtain ⟨r, hr, hflag⟩ := hload
  obtain ⟨m, hm, hsound⟩ := fast_path_sound cliProcess (by decide) false inArrayTable .empty .empty
    [.load readonlyOnly (zstr "a.rules")]
  obtain ⟨m', hm', hnil⟩ := yields_bind.mp hm
  cases yields_pure.mp hnil
  obtain ⟨r', hr', rfl⟩ := yields_map.mp hm'
  cases hr.unique hr'
  obtain ⟨-, hcalls⟩ := hsound r.2.globals ⟨_, _, _, rfl⟩ hflag
  exact ⟨r, hr, (hcalls _ _ _ _ _ _ _ fun _ _ => ⟨rfl, rfl⟩).2⟩

end Snuffleupagus.Execute.FastPath
