import Snuffleupagus.Execute.Eval
import Snuffleupagus.Load.Key

/-! # What may be called inside `eval`

The lists of `eval` say which functions the code inside `eval` may call: those of the whitelist, if there
is one, and else all but those of the blacklist. The whitelist is asked about every function. The
blacklist is hooked like a rule, when the configuration is loaded, and so it is asked about the internal
functions it names, and about their twins (`handler_iff`): a function of the script is never found in
it. Where this agrees with the lists is the content of `eval_policy_iff`. -/

namespace Snuffleupagus.Load.Eval

open Snuffleupagus.Lib.Effect Snuffleupagus.Lib.Table
open Snuffleupagus.Php.Bytes Snuffleupagus.Php.Value Snuffleupagus.Php.Engine Snuffleupagus.Config.Rule
open Snuffleupagus.Log hiding Event
open Snuffleupagus.Config.Keyword hiding spProcessRule
open Snuffleupagus.Match.Chain Snuffleupagus.Hook.Table Snuffleupagus.Hook.Stores
open Snuffleupagus.Hook.Dispatch hiding spLoadConfig Outcome
open Snuffleupagus.Hook.Unhook Snuffleupagus.Hook.Features
open Snuffleupagus.Ini.Hook Snuffleupagus.Wrapper.Table Snuffleupagus.Execute.Eval
open Snuffleupagus.Load.Module Snuffleupagus.Load.Cases Snuffleupagus.Load.History Snuffleupagus.Load.Key

/-! ### The policy -/

/-- The lists forbid code inside `eval` to call the function. -/
def Forbidden (c : SpConfigEval) (f : ZendString) : Prop :=
  (c.whitelist ≠ [] ∧ f ∉ c.whitelist) ∨ (f ∈ c.blacklist ∧ f ∉ c.whitelist)

/-- **The policy**: a call from the frames `s` is dropped because of the lists exactly if one of these
runs evaluated code, and the function is forbidden there. -/
def EvalPolicy (w : World) (g : SpGlobals) (h : Hooks) (s : Stack) (c : Called) (f : ZendString) : Prop :=
  (evalChecks w (within s g) h c).out = .error .drop ↔ evalFrames s ≠ 0 ∧ Forbidden g.eval f

instance (c : SpConfigEval) (f : ZendString) : Decidable (Forbidden c f) :=
  inferInstanceAs (Decidable (_ ∨ _))

instance (w : World) (g : SpGlobals) (h : Hooks) (s : Stack) (c : Called) (f : ZendString) :
    Decidable (EvalPolicy w g h s c f) :=
  inferInstanceAs (Decidable (_ ↔ _))

/-- A call has put a handler of `sloppy_comparison`, or the one it has saved, in place of the callback. -/
def Overwritten (h : Hooks) (f : ZendString) : Prop :=
  f ∈ arrayFunctions.map Prod.fst ∧ ((h.saved .spInternalFunctionsHook).find? f).isSome = true ∧
    h.functionTable.handlerOf f ≠ some .evalBlacklistCallback

/-- **The blacklist is asked about the function**: it is an internal one that the list, or a twin of a name
of the list, names, and its hook is still there. -/
def Blacklisted (p : PhpProcess) (e : Environment) (t₀ : FunctionTable) (cfg : SpConfigEval) (h : Hooks)
    (c : Called) : Prop :=
  ∃ k, c.key = some k ∧ t₀.typeOf k = some .internal ∧ dumps p = false ∧
    NamedBy e.world cfg.blacklist k ∧ ¬ Overwritten h k

/-- Where the two checks keep to the policy. Inside `eval`: there is a whitelist, or the blacklist is asked
about the function exactly if it has it. Outside: no bailout has left evaluated code before, or the function
is not one either list would stop. -/
def PolicyKept (cfg : SpConfigEval) (blacklisted : Prop) (bailouts : List Stack) (s : Stack)
    (f : ZendString) : Prop :=
  if evalFrames s ≠ 0 then cfg.whitelist ≠ [] ∨ (f ∈ cfg.blacklist ↔ blacklisted)
  else (bailouts.map evalFrames).sum = 0 ∨ f ∈ cfg.whitelist ∨ (cfg.whitelist = [] ∧ ¬ blacklisted)

/-- What is forbidden, in the order in which the checks look. -/
theorem forbidden_iff {c : SpConfigEval} {f : ZendString} :
    Forbidden c f ↔ f ∉ c.whitelist ∧ (c.whitelist ≠ [] ∨ f ∈ c.blacklist) := by
  unfold Forbidden
  tauto

/-! ### Which functions the blacklist is asked about -/

section Hooked
variable {p : PhpProcess} {e : Environment} {allowBroken : Bool} {t₀ : FunctionTable} {m m₁ : SpModule}
  {newValue : ZendString} {ok : Bool} {k : ZendString}

theorem lacks_idle (hphp : Foreign t₀) : Lacks .evalBlacklistCallback { functionTable := t₀ } := by
  intro f hf
  have hm := hphp f _ hf
  cases hm

/-- After a load the callback is in the slots of the functions named. -/
theorem slot_iff (hphp : Foreign t₀) (hr : Reached allowBroken t₀ m)
    (hy : Yields (spLoadConfig p e newValue m) (ok, m₁)) :
    m₁.hooks.functionTable.handlerOf k = some .evalBlacklistCallback ↔
      t₀.typeOf k = some .internal ∧ dumps p = false ∧ NamedBy e.world m₁.globals.eval.blacklist k := by
  have hidle : ∀ h : Hooks, h = { functionTable := t₀ } →
      h.functionTable.handlerOf k ≠ some .evalBlacklistCallback := by
    rintro h rfl
    exact lacks_idle hphp k
  cases hr.outcome hy with
  | failed _ =>
    refine iff_of_false (hidle _ hr.reset.2) ?_
    -- nothing is left of the configuration
    rintro ⟨-, -, name, hn, -⟩
    cases hn
  | dumped _ hdumps =>
    refine iff_of_false (hidle _ hr.reset.2) fun h => ?_
    cases hdumps.symm.trans h.2.1
  | @started g s d _ _ hdumps hs =>
    have hfeatures := loading_hookFeatures e.world g t₀
    have hlacks : Lacks .evalBlacklistCallback (hookFeatures e.world g (resetModule m).hooks) := by
      rw [hr.reset.2]
      exact lacks_hookFeatures (lacks_idle hphp)
    have htype : (hookFeatures e.world g (resetModule m).hooks).functionTable.typeOf k = t₀.typeOf k := by
      rw [hr.reset.2]
      exact hfeatures.typeOf k
    have heval : m₁.globals.eval = g.eval := (congrArg SpGlobals.eval hs.globals :)
    rw [evalBlacklistCallback_iff hlacks hs.hooked, htype, heval]
    exact ⟨fun hn => ⟨hn.2, hdumps, hn.1⟩, fun hn => ⟨hn.2.2, hn.1⟩⟩

/-- What the first table has saved is PHP's own. -/
theorem saved_ne_of_foreign (hphp : Foreign t₀) {h : Hooks} (ht : Tracks t₀ h) (f : ZendString)
    (a : ZifHandler) (hs : (h.saved .spInternalFunctionsHook).find? f = some a) :
    a ≠ .evalBlacklistCallback := by
  rintro rfl
  have horig := ht.original f
  unfold original at horig
  rw [hs] at horig
  cases hphp f _ horig.symm

/-- **Which functions the blacklist is asked about**, after any calls. -/
theorem handler_iff (hphp : Foreign t₀) (hr : Reached allowBroken t₀ m)
    (hy : Yields (spLoadConfig p e newValue m) (ok, m₁)) (calls : Calls) (c : Called) :
    c.handler (exec calls m₁.hooks).hooks = some .evalBlacklistCallback ↔
      Blacklisted p e t₀ m₁.globals.eval (exec calls m₁.hooks).hooks c := by
  have htouch := touch_exec calls m₁.hooks
  have htracks := (hr.load hy).tracks
  unfold Called.handler Blacklisted
  cases hkey : c.key with
  | none => exact iff_of_false (fun h => by cases h) fun ⟨k, hk, _⟩ => by cases hk
  | some k =>
    have htype : (exec calls m₁.hooks).hooks.functionTable.typeOf k = t₀.typeOf k :=
      (htouch.typeOf k).trans (htracks.typeOf k)
    show internalHandler (exec calls m₁.hooks).hooks k = _ ↔ _
    unfold internalHandler
    rw [htype]
    constructor
    · intro hh
      split_ifs at hh with hi
      have hslot := handlerOf_of_exec (saved_ne_of_foreign hphp htracks) calls hh
      obtain ⟨-, hdumps, hn⟩ := (slot_iff hphp hr hy).mp hslot
      exact ⟨k, rfl, hi, hdumps, hn, fun hover => hover.2.2 hh⟩
    · rintro ⟨k', hk', hi, hdumps, hn, hover⟩
      cases hk'
      have hslot := (slot_iff hphp hr hy).mpr ⟨hi, hdumps, hn⟩
      rw [if_pos hi]
      by_contra hne
      -- the slot has changed, so that `sloppy_comparison` wraps the function
      refine hover ⟨?_, ?_, hne⟩
      · by_contra hmem
        exact hne ((handlerOf_exec hmem calls m₁.hooks).2.trans hslot)
      · rw [htouch.saved, ← Option.ne_none_iff_isSome]
        exact fun hnone => hne ((htouch.handlerOf k hnone).trans hslot)

end Hooked

/-! ### The policy over whole histories -/

/-- **Where the lists of `eval` are kept to.** Whatever the process has loaded and run before: with the
lists of the last load, not in simulation, a call is treated as the lists say if and only if the condition
`PolicyKept` holds of it. -/
theorem eval_policy_iff (p : PhpProcess) (allowBroken : Bool) (t₀ : FunctionTable) (d₀ : IniDirectives)
    (w₀ : StreamWrappers) (hphp : Foreign t₀) (l : List Event) (e : Environment) (newValue : ZendString) :
    ∃ m ok m₁, Yields (history p l (freshModule allowBroken t₀ d₀ w₀)) m ∧
      Yields (spLoadConfig p e newValue m) (ok, m₁) ∧
      (m₁.globals.eval.simulation = false → ∀ w calls bailouts s c f,
        getCompleteFunctionPath c.frame = some f →
        (EvalPolicy w (afterBailouts bailouts (rinitModule m₁).globals) (exec calls m₁.hooks).hooks s c f ↔
          PolicyKept m₁.globals.eval
            (Blacklisted p e t₀ m₁.globals.eval (exec calls m₁.hooks).hooks c) bailouts s f)) := by
  obtain ⟨m, hhistory⟩ := exists_history p l (freshModule allowBroken t₀ d₀ w₀)
  obtain ⟨⟨ok, m₁⟩, hy⟩ := exists_spLoadConfig p e newValue m
  have hr : Reached allowBroken t₀ m := reached_freshModule.history hhistory
  refine ⟨m, ok, m₁, hhistory, hy, fun hsim w calls bailouts s c f hf => ?_⟩
  obtain ⟨wrappers, n, parsing, hrinit⟩ := exists_rinitModule m₁
  have heval : (rinitModule m₁).globals.eval = m₁.globals.eval := by rw [hrinit]
  have hcount : (afterBailouts bailouts (rinitModule m₁).globals).inEval =
      (bailouts.map evalFrames).sum := by
    rw [inEval_afterBailouts, hrinit]
    exact Nat.zero_add _
  have hsim' : (within s (afterBailouts bailouts (rinitModule m₁).globals)).eval.simulation = false := by
    rw [eval_within, eval_afterBailouts, heval]
    exact hsim
  unfold EvalPolicy PolicyKept
  rw [drop_evalChecks_iff hsim' hf, handler_iff hphp hr hy calls c, inEval_within, eval_within,
    eval_afterBailouts, heval, hcount, forbidden_iff]
  by_cases hrunning : evalFrames s = 0
  · -- whatever is counted has been left by a bailout
    rw [if_neg (not_not.mpr hrunning), hrunning, Nat.add_zero]
    simp only [ne_eq, not_true_eq_false, false_and, iff_false, not_and_or, not_not, not_or]
  · rw [if_pos hrunning]
    by_cases hwhitelist : m₁.globals.eval.whitelist = []
    · simp [hrunning, hwhitelist, iff_comm]
    · simp [hrunning, hwhitelist]

/-! ### Instances -/

/-- `strlen` is an internal function. -/
def strlenTable : FunctionTable :=
  ⟨⟨[(zstr "strlen", ⟨.internal, .php 0⟩)], by decide⟩, by decide +kernel⟩

theorem foreign_strlenTable : Foreign strlenTable := fun _ _ => isModule_of_entries (by decide)

/-- Calls of `strlen`, and of a function of the script. -/
def callStrlen : Called where
  frame := { func := some { type := .internal, functionName := some (zstr "strlen") } }
  key := some (zstr "strlen")

def callMyFun : Called where
  frame := { func := some { type := .user, functionName := some (zstr "my_fun") } }
  key := some (zstr "my_fun")

/-- Evaluated code, run by a script. -/
def insideEval : Stack := [{ func := some { type := .eval } }, { func := some { type := .user } }]

/-- A blacklist. -/
def blacklistOf (list : String) : Environment :=
  ofRules [[keyword "eval_blacklist", strKeyword "list" list]]

theorem eval_policy_iff_sample :
    ∃ r, Yields (spLoadConfig cliProcess (blacklistOf "strlen") (zstr "a.rules")
        (freshModule false strlenTable .empty .empty)) r ∧
      (EvalPolicy (World.empty 80000) (rinitModule r.2).globals r.2.hooks insideEval callStrlen
          (zstr "strlen") ↔
        PolicyKept r.2.globals.eval (Blacklisted cliProcess (blacklistOf "strlen") strlenTable
          r.2.globals.eval r.2.hooks callStrlen) [] insideEval (zstr "strlen")) := by
  obtain ⟨m, ok, m₁, hm, hy, hpolicy⟩ := eval_policy_iff cliProcess false strlenTable .empty .empty
    foreign_strlenTable [] (blacklistOf "strlen") (zstr "a.rules")
  cases yields_pure.mp hm
  have hload : ∃ r, Yields (spLoadConfig cliProcess (blacklistOf "strlen") (zstr "a.rules")
      (freshModule false strlenTable .empty .empty)) r ∧ r.2.globals.eval.simulation = false :=
    exists_of_yieldsA (by decide +kernel)
  obtain ⟨r, hr, hsim⟩ := hload
  cases hy.unique hr
  exact ⟨(ok, m₁), hr, hpolicy hsim (World.empty 80000) .nil [] insideEval callStrlen (zstr "strlen") rfl⟩

/-- A function of the script is on the blacklist, and is not stopped; `strlen` is not on it, and is
stopped as the twin of `mb_strlen`, also by a shutdown function if the script has been left inside
`eval`. -/
theorem blacklist_misses :
    ∃ r, Yields (spLoadConfig cliProcess (blacklistOf "my_fun,mb_strlen") (zstr "a.rules")
        (freshModule false strlenTable .empty .empty)) r ∧
      (r.2.globals.eval.blacklist = [zstr "my_fun", zstr "mb_strlen"] ∧ r.2.globals.eval.whitelist = [] ∧
        r.2.globals.eval.simulation = false ∧
        ¬ EvalPolicy (World.empty 80000) (rinitModule r.2).globals r.2.hooks insideEval callMyFun
          (zstr "my_fun") ∧
        ¬ EvalPolicy (World.empty 80000) (rinitModule r.2).globals r.2.hooks insideEval callStrlen
          (zstr "strlen") ∧
        ¬ EvalPolicy (World.empty 80000) (afterBailouts [insideEval] (rinitModule r.2).globals) r.2.hooks
          [] callStrlen (zstr "strlen")) :=
  exists_of_yieldsA (by decide +kernel)

end Snuffleupagus.Load.Eval
