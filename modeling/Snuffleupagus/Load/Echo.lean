import Snuffleupagus.DisabledFunctions.Logging
import Snuffleupagus.Hook.Partition
import Snuffleupagus.Load.State

/-! # What is printed

`echo` has no handler that could be hooked: the module puts `hook_echo` in the place of `zend_write`
when a configuration has rules on it, and leaves it there for the rest of the process. Under a later
configuration without such rules the hook evaluates the rules on patterns, which nothing evaluates in a
fresh module (`echo_fresh_iff`). -/

namespace Snuffleupagus.Load.Echo

open Snuffleupagus.Lib.Effect Snuffleupagus.Lib.Table
open Snuffleupagus.Php.Bytes Snuffleupagus.Php.Engine Snuffleupagus.Config.Rule
open Snuffleupagus.Log hiding Event
open Snuffleupagus.Config.Keyword hiding spProcessRule
open Snuffleupagus.Hook.Table Snuffleupagus.Hook.Stores Snuffleupagus.Hook.Partition
open Snuffleupagus.Ini.Hook Snuffleupagus.Wrapper.Table
open Snuffleupagus.DisabledFunctions.Filter Snuffleupagus.DisabledFunctions.Evaluate
open Snuffleupagus.DisabledFunctions.Dispatch Snuffleupagus.DisabledFunctions.Logging
open Snuffleupagus.Load.Module Snuffleupagus.Load.Cases Snuffleupagus.Load.History

/-- The name `echo` goes by. -/
def echo : ZendString := zstr "echo"

/-- Printing a string, as a call. -/
def echoCall (s : Stack) (str : ZendString) : Call := ⟨s, some ⟨str, none⟩⟩

/-- `hook_echo`, up to the output. -/
def hookEcho (w : World) (g : SpGlobals) (s : Stack) (str : ZendString) : Sp Unit :=
  shouldDisableHt w g (echoCall s str) echo g.stores.disabledFunctionsReg g.stores.disabledFunctionsHooked

/-- What becomes of a string that is printed: `zend_write` is the hook, or that of PHP. -/
def printed (w : World) (m : SpModule) (s : Stack) (str : ZendString) : Sp Unit :=
  if m.echoHooked then hookEcho w m.globals s str else pure ()

/-! ### When the hook is there -/

/-- There are rules on `echo` among those read. -/
def onEcho (g : SpGlobals) : Bool :=
  (g.stores.disabledFunctions.find? (.str echo)).isSome ||
    (g.stores.disabledFunctionsRet.find? (.str echo)).isSome

/-- An earlier load has put the hook into its place. -/
def HookedBefore (p : PhpProcess) (allowBroken : Bool) (l : List Event) : Prop :=
  dumps p = false ∧ ∃ e newValue, Event.load e newValue ∈ l ∧
    ∃ g, readConfiguration allowBroken e newValue = some g ∧ onEcho g = true

section Hooked
variable {p : PhpProcess} {e : Environment} {allowBroken : Bool} {t₀ : FunctionTable} {d₀ : IniDirectives}
  {w₀ : StreamWrappers} {m m' : SpModule} {newValue : ZendString} {ok : Bool} {w : World} {g g' : SpGlobals}
  {s s' : Stores} {h₀ h : Hooks}

/-- Hooking leaves the rules on patterns where they are. -/
theorem regexps_hookDisabledFunctions (hy : Yields (hookDisabledFunctions w g s h₀) (s', h)) :
    s'.disabledFunctionsReg = s.disabledFunctionsReg := by
  unfold hookDisabledFunctions hookRules at hy
  obtain ⟨⟨s₁, h₁⟩, hrules, hy⟩ := yields_bind.mp hy
  cases yields_pure.mp hy
  obtain ⟨h₂, -, hrules⟩ := yields_bind.mp hrules
  obtain ⟨h₃, -, hrules⟩ := yields_bind.mp hrules
  cases yields_pure.mp hrules
  rfl

/-- The rules on `echo` are with the hooked, wherever they come from. -/
theorem hasEchoRules_eq (hg : Ruled g) (hy : Yields (hookDisabledFunctions w g' g.stores h₀) (s, h)) :
    hasEchoRules s = onEcho g := by
  obtain ⟨rules, hrules⟩ := hg
  rw [hrules] at hy
  have hp := partitioned_hookDisabledFunctions hy
  have hread := read_storesOf rules
  have hin : InHooked h echo := Or.inr (by decide)
  have hside : ∀ ret, ((hooked s ret).find? (.str echo)).isSome =
      ((unhooked (storesOf rules) ret).find? (.str echo)).isSome := by
    intro ret
    rw [Bool.eq_iff_iff, Option.isSome_iff_exists, Option.isSome_iff_exists]
    refine exists_congr fun l => ?_
    rw [hp.inHooked, hread.find, nonempty?_eq_some, and_iff_left hin]
  unfold onEcho
  rw [hrules]
  exact congrArg₂ or (hside false) (hside true)

/-- A load puts the hook there if it has rules on `echo`. -/
theorem echoHooked_load (hr : Reached allowBroken t₀ m)
    (hy : Yields (spLoadConfig p e newValue m) (ok, m')) : m'.echoHooked = true ↔ m.echoHooked = true ∨
      dumps p = false ∧ ∃ g, readConfiguration allowBroken e newValue = some g ∧ onEcho g = true := by
  have hreset : (resetModule m).echoHooked = m.echoHooked := by
    unfold resetModule
    split_ifs <;> rfl
  cases hr.outcome hy with
  | failed hread =>
    rw [hread]
    simp [hreset]
  | dumped hread hdumps => simp [hreset, hdumps]
  | started hread hdumps hs =>
    rw [hs.echoHooked, hreset, hread, hasEchoRules_eq (ruled_of_readConfiguration hread) hs.hooked]
    simp [hdumps]

/-- The hook is there if an earlier load has put it there. -/
theorem echoHooked_history : ∀ (l : List Event) {m : SpModule}, Reached allowBroken t₀ m →
    Yields (history p l m) m' → (m'.echoHooked = true ↔ m.echoHooked = true ∨ HookedBefore p allowBroken l)
  | [], m, _, hy => by
    cases yields_pure.mp hy
    simp [HookedBefore]
  | ev :: l, m, hr, hy => by
    rw [history, List.foldlM_cons] at hy
    obtain ⟨m₁, h₁, hy⟩ := yields_bind.mp hy
    cases ev with
    | load e newValue =>
      obtain ⟨⟨ok, m₁⟩, hload, rfl⟩ := yields_map.mp h₁
      rw [echoHooked_history l (hr.load hload) hy, echoHooked_load hr hload]
      unfold HookedBefore
      constructor
      · rintro ((h | ⟨hd, g, hg⟩) | ⟨hd, e', v, hmem, hg⟩)
        · exact Or.inl h
        · exact Or.inr ⟨hd, e, newValue, List.mem_cons_self, g, hg⟩
        · exact Or.inr ⟨hd, e', v, List.mem_cons_of_mem _ hmem, hg⟩
      · rintro (h | ⟨hd, e', v, hmem, hg⟩)
        · exact Or.inl (Or.inl h)
        · rcases List.mem_cons.mp hmem with heq | hmem
          · cases heq
            exact Or.inl (Or.inr ⟨hd, hg⟩)
          · exact Or.inr ⟨hd, e', v, hmem, hg⟩
    | calls calls =>
      cases yields_pure.mp h₁
      rw [echoHooked_history l (hr.calls calls) hy]
      simp [HookedBefore]
    | request =>
      cases yields_pure.mp h₁
      obtain ⟨_, _, _, hrinit⟩ := exists_rinitModule m
      rw [echoHooked_history l hr.request hy]
      simp [HookedBefore, hrinit]

end Hooked

/-! ### The verdict on what is printed -/

/-- The rules on patterns do not stand in the way of the string: the first of them that decides, if
there is one, allows it. -/
def PatternsPass (w : World) (g : SpGlobals) (s : Stack) (str : ZendString) : Prop :=
  s ≠ [] → ∀ d, g.stores.disabledFunctionsReg.findSome?
    (callDecision w g (echoCall s str) echo (callFilename (echoCall s str) echo)) = some d → d = .ok ()

section Verdict
variable {w : World} {g g' : SpGlobals} {s : Stack} {str : ZendString}

/-- **The verdict of the hook**: that of the rules on `echo`, or else of those on patterns. -/
theorem out_hookEcho : (hookEcho w g s str).out =
    if s = [] then .ok ()
    else verdict (((g.stores.disabledFunctionsHooked.find? (.str echo)).getD
      g.stores.disabledFunctionsReg).findSome?
        (callDecision w g (echoCall s str) echo (callFilename (echoCall s str) echo))) := by
  split_ifs with h
  · subst h
    rfl
  · exact out_shouldDisableHt h

theorem callDecision_congr (hl : logging g = logging g') :
    callDecision w g (echoCall s str) echo (callFilename (echoCall s str) echo) =
      callDecision w g' (echoCall s str) echo (callFilename (echoCall s str) echo) := by
  funext r
  rw [← callDecision_logging w g, hl, callDecision_logging]

/-- Configurations with the same stores that log in the same way give the same verdict. -/
theorem out_hookEcho_congr (hs : g.stores = g'.stores) (hl : logging g = logging g') :
    (hookEcho w g s str).out = (hookEcho w g' s str).out := by
  rw [out_hookEcho, out_hookEcho, hs, callDecision_congr hl]

/-- Without rules on `echo` the string gets through if the rules on patterns do not stand in its way. -/
theorem out_hookEcho_iff (hnone : g.stores.disabledFunctionsHooked.find? (.str echo) = none)
    (hreg : g.stores.disabledFunctionsReg = g'.stores.disabledFunctionsReg) (hl : logging g = logging g') :
    (hookEcho w g s str).out = .ok () ↔ PatternsPass w g' s str := by
  rw [out_hookEcho, hnone, Option.getD_none, hreg, callDecision_congr hl]
  unfold PatternsPass
  by_cases hs : s = []
  · simp [hs]
  · rw [if_neg hs]
    cases g'.stores.disabledFunctionsReg.findSome?
      (callDecision w g' (echoCall s str) echo (callFilename (echoCall s str) echo)) with
    | none => simp [verdict]
    | some d => simp [verdict, hs]

/-- The verdict after a load without rules on `echo`. -/
theorem out_hookEcho_load {p : PhpProcess} {e : Environment} {allowBroken : Bool} {t₀ : FunctionTable}
    {m m₁ : SpModule} {newValue : ZendString} {ok : Bool} (hr : Reached allowBroken t₀ m)
    (hy : Yields (spLoadConfig p e newValue m) (ok, m₁)) (hd : dumps p = false)
    (hno : ∀ g, readConfiguration allowBroken e newValue = some g → onEcho g = false) :
    (hookEcho w m₁.globals s str).out = .ok () ↔
      ∀ g, readConfiguration allowBroken e newValue = some g → PatternsPass w g s str := by
  cases hr.outcome hy with
  | failed hread =>
    rw [hread]
    refine iff_of_true ?_ fun g h => by cases h
    rw [out_hookEcho]
    split_ifs <;> rfl
  | dumped _ hdumps => cases hdumps.symm.trans hd
  | @started g st d _ hread hdumps hs =>
    have hst : m₁.globals.stores = st := (congrArg SpGlobals.stores hs.globals :)
    have hrules := hasEchoRules_eq (ruled_of_readConfiguration hread) hs.hooked
    rw [hno g hread] at hrules
    have hnone : m₁.globals.stores.disabledFunctionsHooked.find? (.str echo) = none := by
      rw [hst]
      exact Option.not_isSome_iff_eq_none.mp fun h =>
        Bool.eq_false_iff.mp (Bool.or_eq_false_iff.mp hrules).1 h
    have hreg : m₁.globals.stores.disabledFunctionsReg = g.stores.disabledFunctionsReg := by
      rw [hst]
      exact regexps_hookDisabledFunctions hs.hooked
    rw [out_hookEcho_iff hnone hreg (congrArg logging hs.globals :), hread]
    constructor
    · intro h g' hg'
      cases hg'
      exact h
    · exact fun h => h g rfl

/-- **One load after two pasts**: the hook has not been there in the second. The verdicts agree unless the
first past has left the hook to rules on patterns that stop the string. -/
theorem out_printed_load_iff {p : PhpProcess} {e : Environment} {allowBroken : Bool} {t₀ : FunctionTable}
    {m m' m₁ m₂ : SpModule} {newValue : ZendString} {ok : Bool} (hr : Reached allowBroken t₀ m)
    (hr' : Reached allowBroken t₀ m') (hoff : m'.echoHooked = false)
    (hd : m.echoHooked = true → dumps p = false) (h₁ : Yields (spLoadConfig p e newValue m) (ok, m₁))
    (h₂ : Yields (spLoadConfig p e newValue m') (ok, m₂)) :
    (printed w m₁ s str).out = (printed w m₂ s str).out ↔
      ∀ g, readConfiguration allowBroken e newValue = some g → m.echoHooked = true →
        onEcho g = true ∨ PatternsPass w g s str := by
  obtain ⟨-, -, -, hrest⟩ := load_determined hr hr' h₁ h₂
  have hsame : (hookEcho w m₁.globals s str).out = (hookEcho w m₂.globals s str).out :=
    out_hookEcho_congr (congrArg SpGlobals.stores hrest :) (congrArg logging hrest :)
  have hhook₁ := echoHooked_load hr h₁
  have hhook₂ := (echoHooked_load hr' h₂).trans (or_iff_right (Bool.eq_false_iff.mp hoff))
  unfold printed
  by_cases hf : m₂.echoHooked = true
  · -- the hook is there in both
    have hboth : m₁.echoHooked = true := hhook₁.mpr (Or.inr (hhook₂.mp hf))
    rw [if_pos hboth, if_pos hf, hsame]
    obtain ⟨-, g, hread, hecho⟩ := hhook₂.mp hf
    refine iff_of_true rfl fun g' hread' _ => Or.inl ?_
    rw [hread] at hread'
    cases hread'
    exact hecho
  · rw [if_neg hf]
    by_cases hm : m.echoHooked = true
    · -- the hook has been left by an earlier load
      have hno : ∀ g, readConfiguration allowBroken e newValue = some g → onEcho g = false := fun g hread =>
        Bool.eq_false_iff.mpr fun h => hf (hhook₂.mpr ⟨hd hm, g, hread, h⟩)
      have hm₁ : m₁.echoHooked = true := hhook₁.mpr (Or.inl hm)
      rw [if_pos hm₁, show (pure () : Sp Unit).out = .ok () from rfl, out_hookEcho_load hr h₁ (hd hm) hno]
      refine forall₂_congr fun g hread => ⟨fun h _ => Or.inr h, fun h => ?_⟩
      rcases h hm with h | h
      · rw [hno g hread] at h
        cases h
      · exact h
    · -- the hook is there in neither
      have hm₁ : ¬ m₁.echoHooked = true := fun h => (hhook₁.mp h).elim hm fun h => hf (hhook₂.mpr h)
      rw [if_neg hm₁]
      exact iff_of_true rfl fun g _ h => absurd h hm

end Verdict

/-- **The verdict on a string that is printed is that of a fresh module exactly if** the hook is there
in both, or was not there before, or the rules on patterns do not stand in the way of the string. -/
theorem echo_fresh_iff (p : PhpProcess) (allowBroken : Bool) (t₀ : FunctionTable) (d₀ : IniDirectives)
    (w₀ : StreamWrappers) (l : List Event) (e : Environment) (newValue : ZendString) :
    ∃ m ok m₁ m₂, Yields (history p l (freshModule allowBroken t₀ d₀ w₀)) m ∧
      Yields (spLoadConfig p e newValue m) (ok, m₁) ∧
      Yields (spLoadConfig p e newValue (freshModule allowBroken t₀ d₀ w₀)) (ok, m₂) ∧
      ∀ w s str, ((printed w m₁ s str).out = (printed w m₂ s str).out ↔
        ∀ g, readConfiguration allowBroken e newValue = some g → HookedBefore p allowBroken l →
          onEcho g = true ∨ PatternsPass w g s str) := by
  obtain ⟨m, ok, m₁, m₂, hm, h₁, h₂, hr, -⟩ := exists_reload p allowBroken t₀ d₀ w₀ l e newValue
  have hfresh : Reached allowBroken t₀ (freshModule allowBroken t₀ d₀ w₀) := reached_freshModule
  refine ⟨m, ok, m₁, m₂, hm, h₁, h₂, fun w s str => ?_⟩
  have hbefore : m.echoHooked = true ↔ HookedBefore p allowBroken l :=
    (echoHooked_history l hfresh hm).trans (or_iff_right Bool.false_ne_true)
  rw [out_printed_load_iff hr hfresh rfl (fun h => (hbefore.mp h).1) h₁ h₂, hbefore]

/-- A rule on `echo`, in a configuration that is replaced. -/
def echoRule : Environment :=
  ofRules [[keyword "disable_function", strKeyword "function" "echo", emptyKeyword "drop"]]

/-- A rule on a pattern. -/
def patternRule : Environment :=
  ofRules [[keyword "disable_function", strKeyword "function_r" "ech", emptyKeyword "drop"]]

/-- A world where every pattern is found in everything. -/
def matchingWorld : World := { World.empty 80000 with pcreExec := fun _ _ => 0 }

/-- The frame of the script. -/
def mainScript : Frame where
  func := some { type := .user, functionName := none }

/-- A rule on a pattern drops the output of `echo` if there has been a rule on `echo` before, and lets
it through in a fresh module. -/
theorem echo_dropped_by_pattern :
    ∃ m₁ m₂, Yields (history cliProcess
        [.load echoRule (zstr "a.rules"), .load patternRule (zstr "b.rules")]
        (freshModule false ⟨.empty, by decide⟩ .empty .empty)) m₁ ∧
      Yields (history cliProcess [.load patternRule (zstr "b.rules")]
        (freshModule false ⟨.empty, by decide⟩ .empty .empty)) m₂ ∧
      m₁.isConfigValid = .valid ∧ (printed matchingWorld m₁ [mainScript] (zstr "hi")).out = .error .drop ∧
      (printed matchingWorld m₂ [mainScript] (zstr "hi")).out = .ok () := by
  obtain ⟨m₁, h₁, hv, hd⟩ := exists_of_yieldsA (x := history cliProcess
    [.load echoRule (zstr "a.rules"), .load patternRule (zstr "b.rules")]
    (freshModule false ⟨.empty, by decide⟩ .empty .empty))
    (p := fun m => m.isConfigValid = .valid ∧
      (printed matchingWorld m [mainScript] (zstr "hi")).out = .error .drop) (by decide +kernel)
  obtain ⟨m₂, h₂, hd'⟩ := exists_of_yieldsA (x := history cliProcess
    [.load patternRule (zstr "b.rules")] (freshModule false ⟨.empty, by decide⟩ .empty .empty))
    (p := fun m => (printed matchingWorld m [mainScript] (zstr "hi")).out = .ok ()) (by decide +kernel)
  exact ⟨m₁, m₂, h₁, h₂, hv, hd, hd'⟩

end Snuffleupagus.Load.Echo
