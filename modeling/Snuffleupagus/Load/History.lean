import Snuffleupagus.Load.Cases

/-! # Loading again and again

In one process configurations are loaded one after the other, with requests and calls in between. What
holds whenever something happens is `Reached`: the handlers of the initial function table can still be
told, and the configuration is taken back to that of a fresh module. So a load gives the handlers it
gives in a fresh module (`reload_handlers`). When the process ends, the module undoes its tables in the
order it has filled them, and restores the handlers of the functions that are in one of them only
(`mshutdown_restores_iff`). -/

namespace Snuffleupagus.Load.History

open Snuffleupagus.Lib.Effect Snuffleupagus.Lib.Table Snuffleupagus.Lib.Attempts
open Snuffleupagus.Php.Bytes Snuffleupagus.Php.Engine Snuffleupagus.Config.Rule Snuffleupagus.Log
open Snuffleupagus.Config.Keyword hiding spProcessRule
open Snuffleupagus.Config.Sound Snuffleupagus.Hook.Table Snuffleupagus.Hook.Stores
open Snuffleupagus.Hook.Dispatch hiding spLoadConfig
open Snuffleupagus.Hook.Unhook Snuffleupagus.Hook.Features Snuffleupagus.Ini.Hook Snuffleupagus.Wrapper.Table Snuffleupagus.Load.Module
open Snuffleupagus.Load.Cases

/-- What happens in a process: a configuration is loaded, functions are called, a request starts. -/
inductive Event
  | load (e : Environment) (newValue : ZendString)
  | calls (calls : Calls)
  | request

/-- What an event does to the module. -/
def step (p : PhpProcess) (m : SpModule) : Event → Sp SpModule
  | .load e newValue => Prod.snd <$> spLoadConfig p e newValue m
  | .calls calls => pure { m with hooks := (exec calls m.hooks).hooks }
  | .request => pure (rinitModule m)

/-- Events one after the other. -/
def history (p : PhpProcess) (l : List Event) (m : SpModule) : Sp SpModule := l.foldlM (step p) m

/-! ### What always holds -/

/-- **What holds whenever something happens** in a process whose function table was `t₀`. -/
structure Reached (allowBroken : Bool) (t₀ : FunctionTable) (m : SpModule) : Prop where
  tracks : Tracks t₀ m.hooks
  freed : spFreeConfig m.globals = ginit allowBroken
  idle : m.isConfigValid ≠ .valid → m.hooks = { functionTable := t₀ }
  none : m.isConfigValid = .none → m.globals = ginit allowBroken
  tested : Tested m.globals

section Reached
variable {p : PhpProcess} {e : Environment} {allowBroken : Bool} {t₀ : FunctionTable} {d₀ : IniDirectives}
  {w₀ : StreamWrappers} {m m' r : SpModule} {newValue : ZendString} {ok : Bool}

theorem tested_spFreeConfig (g : SpGlobals) : Tested (spFreeConfig g) where
  session h := by cases h
  cookies c h := by cases h
  wrapper h := absurd rfl h
  entries k e h := by cases h

theorem tested_defaults : Tested (defaults (ginit allowBroken)) :=
  tested_of_eq (tested_spFreeConfig (ginit allowBroken)) rfl rfl rfl rfl id id

theorem reached_freshModule : Reached allowBroken t₀ (freshModule allowBroken t₀ d₀ w₀) where
  tracks := tracks_initial t₀
  freed := rfl
  idle _ := rfl
  none _ := rfl
  tested := tested_spFreeConfig (ginit allowBroken)

/-- Calls do nothing if nothing is hooked. -/
theorem touch_idle {h : Hooks} (ht : Touch { functionTable := t₀ } h) : h = { functionTable := t₀ } := by
  obtain ⟨ft, saved⟩ := h
  have hs : saved = fun _ => .empty := ht.saved
  have htable : ft = t₀ := by
    refine FunctionTable.eq_of_table (OrdTable.ext_of_find? ht.keys fun k => ?_)
    exact find?_ext (ht.typeOf k) (ht.handlerOf k rfl)
  rw [hs, htable]

theorem Reached.calls (hm : Reached allowBroken t₀ m) (calls : Calls) :
    Reached allowBroken t₀ { m with hooks := (exec calls m.hooks).hooks } where
  tracks := (touch_exec calls m.hooks).tracks hm.tracks
  freed := hm.freed
  idle h := touch_idle (hm.idle h ▸ touch_exec calls m.hooks)
  none := hm.none
  tested := hm.tested

/-- The counters are zero whenever a request starts. -/
theorem Reached.resetCounters_eq (hm : Reached allowBroken t₀ m) : resetCounters m = m := by
  have hcounters : ∀ g : SpGlobals, g.executionDepth = 0 → g.inEval = 0 →
      { g with executionDepth := 0, inEval := 0 } = g := by
    rintro ⟨⟩ h₁ h₂
    cases h₁
    cases h₂
    rfl
  have hg := hcounters m.globals (congrArg SpGlobals.executionDepth hm.freed :)
    (congrArg SpGlobals.inEval hm.freed :)
  exact congrArg (fun g => { m with globals := g }) hg

theorem Reached.request (hm : Reached allowBroken t₀ m) : Reached allowBroken t₀ (rinitModule m) := by
  unfold rinitModule
  rw [hm.resetCounters_eq]
  dsimp only
  split_ifs with hi ha hn
  · exact hm
  · exact ⟨hm.tracks, hm.freed, hm.idle, fun h => absurd (hi.symm.trans h) (by decide),
      tested_of_eq hm.tested rfl rfl rfl rfl id id⟩
  · exact hm
  · unfold filterWrappers
    split_ifs with hf
    · refine ⟨hm.tracks, hm.freed, hm.idle, fun h => ?_, ⟨hm.tested.session, hm.tested.cookies,
        hm.tested.wrapper, hm.tested.entries⟩⟩
      -- a fresh module has no whitelist
      rw [hm.none h] at hf
      cases hf
    · exact hm

/-- What is left when an earlier load has been taken back. -/
theorem Reached.reset (hm : Reached allowBroken t₀ m) : (resetModule m).globals = ginit allowBroken ∧
    (resetModule m).hooks = { functionTable := t₀ } := by
  unfold resetModule
  by_cases h : m.isConfigValid = .none
  · rw [if_pos h]
    exact ⟨hm.none h, hm.idle (by rw [h]; decide)⟩
  · rw [if_neg h]
    exact ⟨hm.freed, resetHooks_eq hm.tracks⟩

/-- The rules on directives do not matter to the rules on functions. -/
theorem hookDisabledFunctions_withEntries (w : World) (entries : OrdTable ZendString SpIniEntry)
    (g : SpGlobals) (s : Stores) (h : Hooks) :
    hookDisabledFunctions w (loading (withEntries entries g)) s h =
      hookDisabledFunctions w (loading g) s h := rfl

/-- **What the hooks leave**: `s` are the stores, and `d` the directives before the rules on them. -/
structure StartedAs (e : Environment) (r : SpModule) (g : SpGlobals) (s : Stores) (d : IniDirectives)
    (m' : SpModule) : Prop where
  hooked : Yields (hookDisabledFunctions e.world (loading g) g.stores (hookFeatures e.world g r.hooks))
    (s, m'.hooks)
  globals : m'.globals = Execute.Handler.loadedGlobals (withEntries m'.globals.ini.entries g) s
  isConfigValid : m'.isConfigValid = .valid
  echoHooked : m'.echoHooked = (r.echoHooked || hasEchoRules s)
  wrappers : ∀ k, m'.wrappers.find? k =
    if g.wrapper.enabled = true ∧ spPhpStreamIsFiltered g ∧ k = zstr "php" then
      (r.wrappers.find? k).map fun _ => .spPhp
    else r.wrappers.find? k
  session : ∀ k, onModifyOf d k = onModifyOf r.directives k ∨
    k = saveHandler ∧ onModifyOf d k = some (some .spOnUpdateSaveHandler) ∧
      (onModifyOf r.directives k).isSome = true
  ini : if g.ini.enable = true then
      Yields (spHookIni e.world (loading g) e.accepts g.ini d) ⟨m'.globals.ini.entries, m'.directives⟩
    else m'.globals.ini.entries = g.ini.entries ∧ m'.directives = d

theorem startedAs {g : SpGlobals} {m₁ m₂ m₃ : SpModule}
    (hwrappers : Yields (startWrappers e (withFeatures e r g)) m₁)
    (hsession : Yields (startSession p e m₁) m₂) (hini : Yields (startIni e m₂) m₃)
    (hrules : Yields (startRules e m₃) m') : ∃ s, StartedAs e r g s m₂.directives m' := by
  obtain ⟨h₁, hw⟩ := yields_startWrappers hwrappers
  obtain ⟨h₂, hs⟩ := yields_startSession hsession
  obtain ⟨h₃, hi⟩ := yields_startIni hini
  obtain ⟨s, h, hd, rfl⟩ := yields_startRules hrules
  rw [h₁] at h₂
  rw [h₂] at h₃
  have hdirectives : m₁.directives = r.directives := (congrArg SpModule.directives h₁ :)
  have hglobals₂ : m₂.globals = g := (congrArg SpModule.globals h₂ :)
  have hglobals : m₃.globals = withEntries m₃.globals.ini.entries g := (congrArg SpModule.globals h₃ :)
  have hhooks : m₃.hooks = hookFeatures e.world g r.hooks := (congrArg SpModule.hooks h₃ :)
  have hws : m₃.wrappers = m₁.wrappers := (congrArg SpModule.wrappers h₃ :)
  refine ⟨s, ?_, ?_, (congrArg SpModule.isConfigValid h₃ :), ?_, fun k => ?_, fun k => ?_, ?_⟩
  · rw [hglobals, hookDisabledFunctions_withEntries, hhooks] at hd
    exact hd
  · exact congrArg (Execute.Handler.loadedGlobals · s) hglobals
  · exact congrArg (· || hasEchoRules s) (congrArg SpModule.echoHooked h₃ :)
  · show m₃.wrappers.find? k = _
    rw [hws]
    exact hw k
  · rw [← hdirectives]
    exact hs k
  · rw [hglobals₂] at hi
    split_ifs at hi with he
    · rw [if_pos he]
      exact hi
    · rw [if_neg he, hi]
      exact ⟨congrArg (fun g => g.ini.entries) hglobals₂, rfl⟩

/-- The rules on directives keep what they are about. -/
theorem StartedAs.keyed {g : SpGlobals} {s : Stores} {d : IniDirectives} (h : StartedAs e r g s d m')
    (hk : ∀ k x, g.ini.entries.find? k = some x → x.key = k) :
    ∀ k x, m'.globals.ini.entries.find? k = some x → x.key = k := by
  intro k x hx
  have hi := h.ini
  split_ifs at hi with he
  · rw [find?_entries_spHookIni (keyed_entries hk) hi k] at hx
    obtain ⟨y, hy, rfl⟩ := Option.map_eq_some_iff.mp hx
    split_ifs <;> exact hk k y hy
  · rw [hi.1] at hx
    exact hk k x hx

/-- What is read can be forgotten, and if it is accepted it has been tested. -/
theorem Reached.read {g : SpGlobals} (hm : Reached allowBroken t₀ m)
    (hy : Yields (parsePatterns e (patternsOf newValue) (defaults (resetModule m).globals)) (ok, g)) :
    spFreeConfig g = ginit allowBroken ∧ (ok = true → Tested g) := by
  rw [hm.reset.1] at hy
  obtain ⟨-, hf, ht⟩ := readsTo_of_yields (exists_parsePatterns _ _) hy
  exact ⟨(congrArg Prod.fst hf.untouched :), ht tested_defaults⟩

theorem Reached.load (hm : Reached allowBroken t₀ m)
    (hy : Yields (spLoadConfig p e newValue m) (ok, m')) : Reached allowBroken t₀ m' := by
  have hh := hm.reset.2
  cases spLoadConfig_cases hy with
  | @failed g h =>
    obtain ⟨hf, -⟩ := hm.read h
    refine ⟨hh ▸ tracks_initial t₀, hf, fun _ => hh, fun h => (by cases h), ?_⟩
    exact tested_of_eq (tested_spFreeConfig g) rfl rfl rfl rfl id id
  | dumped h _ =>
    obtain ⟨hf, ht⟩ := hm.read h
    exact ⟨hh ▸ tracks_initial t₀, hf, fun h => absurd rfl h, fun h => (by cases h), ht rfl⟩
  | @started g m₁ m₂ m₃ _ h _ hwrappers hsession hini hrules =>
    obtain ⟨hf, ht⟩ := hm.read h
    obtain ⟨s, hs⟩ := startedAs hwrappers hsession hini hrules
    have hl := loading_hookDisabledFunctions (hh ▸ loading_hookFeatures e.world g t₀) hs.hooked
    refine ⟨hl.toTracks, ?_, fun h => absurd hs.isConfigValid h, fun h => ?_, ?_⟩
    · rw [hs.globals]
      exact hf
    · rw [hs.isConfigValid] at h
      cases h
    · rw [hs.globals]
      exact ⟨(ht rfl).session, (ht rfl).cookies, (ht rfl).wrapper, hs.keyed (ht rfl).entries⟩

/-- **What loads, calls and requests preserve, histories preserve.** -/
theorem history_preserve {I : SpModule → Prop}
    (hload : ∀ {e newValue m ok m'}, I m → Yields (spLoadConfig p e newValue m) (ok, m') → I m')
    (hcalls : ∀ calls {m}, I m → I { m with hooks := (exec calls m.hooks).hooks })
    (hrequest : ∀ {m}, I m → I (rinitModule m)) {l : List Event} (hm : I m)
    (hy : Yields (Load.History.history p l m) m') : I m' := by
  refine Yields.foldlM (fun m ev m' hI h => ?_) hy hm
  cases ev with
  | load e newValue =>
    obtain ⟨⟨ok, m''⟩, hy, rfl⟩ := yields_map.mp h
    exact hload hI hy
  | calls calls =>
    cases yields_pure.mp h
    exact hcalls calls hI
  | request =>
    cases yields_pure.mp h
    exact hrequest hI

/-- **It holds in every state reached.** -/
theorem Reached.history {l : List Event} (hm : Reached allowBroken t₀ m)
    (hy : Yields (history p l m) m') : Reached allowBroken t₀ m' :=
  history_preserve (fun h hy => h.load hy) (fun calls _ h => h.calls calls) (fun h => h.request) hm hy

/-- What is preserved in the states reached. -/
theorem Reached.preserve {I : SpModule → Prop}
    (hload : ∀ {e newValue m ok m'}, Reached allowBroken t₀ m → I m →
      Yields (spLoadConfig p e newValue m) (ok, m') → I m')
    (hcalls : ∀ calls {m}, I m → I { m with hooks := (exec calls m.hooks).hooks })
    (hrequest : ∀ {m}, I m → I (rinitModule m)) {l : List Event} (hr : Reached allowBroken t₀ m) (hm : I m)
    (hy : Yields (Load.History.history p l m) m') : I m' :=
  (history_preserve (I := fun m => Reached allowBroken t₀ m ∧ I m)
    (fun h hy => ⟨h.1.load hy, hload h.1 h.2 hy⟩) (fun calls _ h => ⟨h.1.calls calls, hcalls calls h.2⟩)
    (fun h => ⟨h.1.request, hrequest h.2⟩) ⟨hr, hm⟩ hy).2

/-- Every event comes to its end. -/
theorem exists_history (p : PhpProcess) (l : List Event) (m : SpModule) :
    ∃ m', Yields (Load.History.history p l m) m' := by
  refine exists_foldlM (fun m ev => ?_) l m
  cases ev with
  | load e newValue =>
    obtain ⟨r, hr⟩ := exists_spLoadConfig p e newValue m
    exact ⟨r.2, yields_map.mpr ⟨r, hr, rfl⟩⟩
  | calls calls => exact ⟨_, yields_pure.mpr rfl⟩
  | request => exact ⟨_, yields_pure.mpr rfl⟩

end Reached

/-! ### The configuration read -/

/-- The configuration a load reads, if it is accepted. -/
def readConfiguration (allowBroken : Bool) (e : Environment) (newValue : ZendString) : Option SpGlobals :=
  match (parsePatterns e (patternsOf newValue) (defaults (ginit allowBroken))).out with
  | .ok (true, g) => some g
  | _ => none

/-- **What a load does**, in terms of the configuration read. -/
inductive Outcome (p : PhpProcess) (allowBroken : Bool) (e : Environment) (newValue : ZendString)
    (r : SpModule) : Bool → SpModule → Prop
  | failed {g} (hread : readConfiguration allowBroken e newValue = none) :
      Outcome p allowBroken e newValue r false
        { r with globals := failedGlobals g, isConfigValid := .invalid }
  | dumped {g} (hread : readConfiguration allowBroken e newValue = some g) (hdumps : dumps p = true) :
      Outcome p allowBroken e newValue r true { r with globals := g, isConfigValid := .valid }
  | started {g s d m'} (hread : readConfiguration allowBroken e newValue = some g)
      (hdumps : dumps p = false) (hstarted : StartedAs e r g s d m') :
      Outcome p allowBroken e newValue r true m'

section Read
variable {p : PhpProcess} {e : Environment} {allowBroken : Bool} {t₀ : FunctionTable} {m m' : SpModule}
  {newValue : ZendString} {ok : Bool} {g : SpGlobals}

theorem readConfiguration_of_yields
    (h : Yields (parsePatterns e (patternsOf newValue) (defaults (ginit allowBroken))) (ok, g)) :
    readConfiguration allowBroken e newValue = if ok then some g else none := by
  unfold readConfiguration
  rw [h]
  cases ok <;> rfl

theorem yields_of_readConfiguration (h : readConfiguration allowBroken e newValue = some g) :
    Yields (parsePatterns e (patternsOf newValue) (defaults (ginit allowBroken))) (true, g) := by
  obtain ⟨ok, g', hy, -, -⟩ := exists_parsePatterns (e := e) (patternsOf newValue)
    (defaults (ginit allowBroken))
  rw [readConfiguration_of_yields hy] at h
  cases ok with
  | false => cases h
  | true =>
    cases h
    exact hy

/-- What is read has been tested, and nothing of it has been counted yet. -/
theorem tested_of_readConfiguration (h : readConfiguration allowBroken e newValue = some g) :
    Tested g ∧ g.wrapper.numWrapper = 0 := by
  obtain ⟨-, hf, ht⟩ := readsTo_of_yields (exists_parsePatterns _ _) (yields_of_readConfiguration h)
  exact ⟨ht tested_defaults rfl, (congrArg Prod.snd hf.untouched :)⟩

/-- The stores that are read are those of some rules. -/
theorem ruled_of_readConfiguration (h : readConfiguration allowBroken e newValue = some g) : Ruled g :=
  (readsTo_of_yields (exists_parsePatterns _ _) (yields_of_readConfiguration h)).freed.ruled ⟨[], rfl⟩

theorem Reached.outcome (hm : Reached allowBroken t₀ m)
    (hy : Yields (spLoadConfig p e newValue m) (ok, m')) :
    Outcome p allowBroken e newValue (resetModule m) ok m' := by
  have hg := hm.reset.1
  cases spLoadConfig_cases hy with
  | failed hread =>
    rw [hg] at hread
    exact .failed (readConfiguration_of_yields hread)
  | dumped hread hdumps =>
    rw [hg] at hread
    exact .dumped (readConfiguration_of_yields hread) hdumps
  | started hread hdumps hwrappers hsession hini hrules =>
    rw [hg] at hread
    obtain ⟨s, hs⟩ := startedAs hwrappers hsession hini hrules
    exact .started (readConfiguration_of_yields hread) hdumps hs

end Read

/-! ### The handlers after a load -/

section Reload
variable {p : PhpProcess} {e : Environment} {newValue : ZendString} {allowBroken : Bool}
  {t₀ : FunctionTable} {m m' m₁ m₂ : SpModule} {ok₁ ok₂ : Bool}

/-- **A load does not depend on what has happened before**, as far as functions go. -/
theorem load_determined (hm : Reached allowBroken t₀ m) (hm' : Reached allowBroken t₀ m')
    (h₁ : Yields (spLoadConfig p e newValue m) (ok₁, m₁))
    (h₂ : Yields (spLoadConfig p e newValue m') (ok₂, m₂)) : ok₁ = ok₂ ∧ m₁.hooks = m₂.hooks ∧
      m₁.isConfigValid = m₂.isConfigValid ∧
      withEntries .empty m₁.globals = withEntries .empty m₂.globals := by
  have hg : (resetModule m).globals = (resetModule m').globals := hm.reset.1.trans hm'.reset.1.symm
  have hh : (resetModule m).hooks = (resetModule m').hooks := hm.reset.2.trans hm'.reset.2.symm
  have hunique : ∀ {b b' g g'}, Yields (parsePatterns e (patternsOf newValue) (defaults (resetModule m).globals))
      (b, g) → Yields (parsePatterns e (patternsOf newValue) (defaults (resetModule m').globals)) (b', g') →
      b = b' ∧ g = g' := by
    intro b b' g g' h h'
    rw [hg] at h
    cases h.unique h'
    exact ⟨rfl, rfl⟩
  cases spLoadConfig_cases h₁ with
  | failed hr =>
    cases spLoadConfig_cases h₂ with
    | failed hr' =>
      obtain ⟨-, rfl⟩ := hunique hr hr'
      exact ⟨rfl, hh, rfl, rfl⟩
    | dumped hr' _ => cases (hunique hr hr').1
    | started hr' => cases (hunique hr hr').1
  | dumped hr hd =>
    cases spLoadConfig_cases h₂ with
    | failed hr' => cases (hunique hr hr').1
    | dumped hr' _ =>
      obtain ⟨-, rfl⟩ := hunique hr hr'
      exact ⟨rfl, hh, rfl, rfl⟩
    | started _ hd' => cases hd.symm.trans hd'
  | started hr hd hw hs hi hu =>
    cases spLoadConfig_cases h₂ with
    | failed hr' => cases (hunique hr hr').1
    | dumped _ hd' => cases hd.symm.trans hd'
    | started hr' _ hw' hs' hi' hu' =>
      obtain ⟨-, rfl⟩ := hunique hr hr'
      obtain ⟨s, h⟩ := startedAs hw hs hi hu
      obtain ⟨s', h'⟩ := startedAs hw' hs' hi' hu'
      have hhooked := h.hooked
      rw [hh] at hhooked
      have hsame := hhooked.unique h'.hooked
      rw [Prod.mk.injEq] at hsame
      refine ⟨rfl, hsame.2, h.isConfigValid.trans h'.isConfigValid.symm, ?_⟩
      rw [h.globals, h'.globals, hsame.1]
      rfl

/-- A load that fails leaves the functions to PHP. -/
theorem hooks_of_failed (hm : Reached allowBroken t₀ m)
    (h : Yields (spLoadConfig p e newValue m) (false, m₁)) : m₁.hooks = { functionTable := t₀ } := by
  cases spLoadConfig_cases h with
  | failed _ => exact hm.reset.2

/-- A configuration that is loaded after a history, and in a fresh module. -/
theorem exists_reload (p : PhpProcess) (allowBroken : Bool) (t₀ : FunctionTable) (d₀ : IniDirectives)
    (w₀ : StreamWrappers) (l : List Event) (e : Environment) (newValue : ZendString) : ∃ m ok m₁ m₂,
    Yields (history p l (freshModule allowBroken t₀ d₀ w₀)) m ∧ Yields (spLoadConfig p e newValue m) (ok, m₁) ∧
      Yields (spLoadConfig p e newValue (freshModule allowBroken t₀ d₀ w₀)) (ok, m₂) ∧ Reached allowBroken t₀ m ∧
      m₁.hooks = m₂.hooks ∧ m₁.isConfigValid = m₂.isConfigValid ∧
      withEntries .empty m₁.globals = withEntries .empty m₂.globals := by
  obtain ⟨m, hm⟩ := exists_history p l (freshModule allowBroken t₀ d₀ w₀)
  obtain ⟨⟨ok, m₁⟩, h₁⟩ := exists_spLoadConfig p e newValue m
  obtain ⟨⟨ok', m₂⟩, h₂⟩ := exists_spLoadConfig p e newValue (freshModule allowBroken t₀ d₀ w₀)
  have hfresh : Reached allowBroken t₀ (freshModule allowBroken t₀ d₀ w₀) := reached_freshModule
  have hr := hfresh.history hm
  obtain ⟨rfl, hsame⟩ := load_determined hr hfresh h₁ h₂
  exact ⟨m, ok, m₁, m₂, hm, h₁, h₂, hr, hsame⟩

end Reload

/-- **The handlers after a load are those it gives in a fresh module**, whatever has happened before; if
it fails, they are the ones PHP started with. -/
theorem reload_handlers (p : PhpProcess) (allowBroken : Bool) (t₀ : FunctionTable) (d₀ : IniDirectives)
    (w₀ : StreamWrappers) (l : List Event) (e : Environment) (newValue : ZendString) :
    ∃ m ok m₁ m₂, Yields (history p l (freshModule allowBroken t₀ d₀ w₀)) m ∧
      Yields (spLoadConfig p e newValue m) (ok, m₁) ∧
      Yields (spLoadConfig p e newValue (freshModule allowBroken t₀ d₀ w₀)) (ok, m₂) ∧
      (∀ f, m₁.hooks.functionTable.handlerOf f = m₂.hooks.functionTable.handlerOf f) ∧
      (ok = false → ∀ f, m₁.hooks.functionTable.handlerOf f = t₀.handlerOf f) := by
  obtain ⟨m, ok, m₁, m₂, hm, h₁, h₂, hr, hhooks, -⟩ := exists_reload p allowBroken t₀ d₀ w₀ l e newValue
  refine ⟨m, ok, m₁, m₂, hm, h₁, h₂, fun f => by rw [hhooks], ?_⟩
  rintro rfl f
  rw [hooks_of_failed hr h₁]

/-! ### The handlers after the shutdown -/

/-- A function is in one of the three tables of saved handlers at most, if it is internal. -/
def InOneTable (t₀ : FunctionTable) (h : Hooks) : Prop :=
  ∀ f, t₀.typeOf f = some .internal → WrappedOnce h f

/-- **The shutdown restores every handler exactly if no function is in two tables.** -/
theorem mshutdown_restores_iff (p : PhpProcess) (allowBroken : Bool) (t₀ : FunctionTable)
    (d₀ : IniDirectives) (w₀ : StreamWrappers)
    (hphp : ∀ f a, t₀.handlerOf f = some a → isModule a = false) (l : List Event) :
    ∃ m, Yields (history p l (freshModule allowBroken t₀ d₀ w₀)) m ∧
      ((∀ f, t₀.typeOf f = some .internal →
        (mshutdownHooks m.hooks).functionTable.handlerOf f = t₀.handlerOf f) ↔ InOneTable t₀ m.hooks) := by
  obtain ⟨m, hm⟩ := exists_history p l (freshModule allowBroken t₀ d₀ w₀)
  have hr : Reached allowBroken t₀ m := reached_freshModule.history hm
  exact ⟨m, hm, forall_congr' fun f => imp_congr_right fun hi => restored_iff hr.tracks hi (hphp f)⟩

/-- `in_array` is an internal function. -/
def inArrayTable : FunctionTable :=
  ⟨⟨[(zstr "in_array", ⟨.internal, .php 0⟩)], by decide⟩, by decide +kernel⟩

/-- `in_array` is hooked by a feature, and as a function on the blacklist of `eval`. -/
def hookTwice : Environment :=
  ofRules [[keyword "sloppy_comparison", emptyKeyword "enable"],
    [keyword "eval_blacklist", strKeyword "list" "in_array"]]

theorem mshutdown_restores_iff_sample :
    ∃ m, Yields (history cliProcess [.load hookTwice (zstr "a.rules"), .request]
        (freshModule false inArrayTable .empty .empty)) m ∧
      ((∀ f, inArrayTable.typeOf f = some .internal →
        (mshutdownHooks m.hooks).functionTable.handlerOf f = inArrayTable.handlerOf f) ↔
      InOneTable inArrayTable m.hooks) :=
  mshutdown_restores_iff cliProcess false inArrayTable .empty .empty
    (fun f a => isModule_of_entries (by decide)) [.load hookTwice (zstr "a.rules"), .request]

/-- The handler of the feature is left when the process ends. -/
theorem mshutdown_leaves_hook :
    ∃ r, Yields (spLoadConfig cliProcess hookTwice (zstr "a.rules")
        (freshModule false inArrayTable .empty .empty)) r ∧
      r.1 = true ∧ (mshutdownHooks r.2.hooks).functionTable.handlerOf (zstr "in_array") ≠
        inArrayTable.handlerOf (zstr "in_array") :=
  exists_of_yieldsA (by decide +kernel)

end Snuffleupagus.Load.History
