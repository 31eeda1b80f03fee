import Snuffleupagus.Load.History

/-! # The configuration after a load

A load gives the configuration it gives in a fresh module, but for one handler: the module hooks the
save handler of sessions once in a process and for good, so that a rule on this directive, which keeps
the handler it finds, may have kept the module's own (`reload_state`). What earlier loads have done to
the other directives is undone (`IniReached`). -/

namespace Snuffleupagus.Load.State

open Snuffleupagus.Lib.Effect Snuffleupagus.Lib.Table
open Snuffleupagus.Php.Bytes Snuffleupagus.Php.Engine Snuffleupagus.Config.Rule
open Snuffleupagus.Config.Sound Snuffleupagus.Hook.Table Snuffleupagus.Ini.Hook
open Snuffleupagus.Wrapper.Table Snuffleupagus.Load.Module Snuffleupagus.Load.Cases
open Snuffleupagus.Load.History

/-! ### The directives, without the rules on them -/

/-- A directive with the module's hook on the save handler of sessions. -/
def spSaveHandler : Option (Option IniHandler) := some (some .spOnUpdateSaveHandler)

section Session
variable {p : PhpProcess} {e : Environment} {m m' n n' : SpModule}

/-- The module keeps the old save handler only if it has hooked the directive. -/
def SessionHooked (m : SpModule) (d : IniDirectives) : Prop :=
  m.oldOnUpdateSaveHandler.isSome = true → onModifyOf d saveHandler = spSaveHandler

theorem sessionHooked_startSession (hm : SessionHooked m m.directives)
    (hy : Yields (startSession p e m) m') : SessionHooked m' m'.directives := by
  unfold startSession hookSession at hy
  split_ifs at hy
  · obtain ⟨u, -, hy⟩ := yields_bind.mp hy
    cases yields_pure.mp hy
    exact hm
  · cases yields_pure.mp hy
    exact hm
  · cases hd : m.directives.find? saveHandler with
    | none =>
      rw [hd] at hy
      cases yields_pure.mp hy
      exact hm
    | some ini =>
      rw [hd] at hy
      cases yields_pure.mp hy
      intro _
      unfold onModifyOf spSaveHandler
      simp
  · cases yields_pure.mp hy
    exact hm

/-- A module without a hook on the save handler hooks it only if any other module has it hooked then. -/
theorem saveHandler_startSession (hg : m.globals = n.globals) (hm : SessionHooked m m.directives)
    (hn : n.oldOnUpdateSaveHandler = none)
    (hd : onModifyOf m.directives saveHandler = onModifyOf n.directives saveHandler ∨
      onModifyOf m.directives saveHandler = spSaveHandler)
    (hsome : (onModifyOf m.directives saveHandler).isSome = (onModifyOf n.directives saveHandler).isSome)
    (hy : Yields (startSession p e m) m') (hy' : Yields (startSession p e n) n') :
    onModifyOf m'.directives saveHandler = onModifyOf n'.directives saveHandler ∨
      onModifyOf m'.directives saveHandler = spSaveHandler := by
  unfold startSession hookSession at hy hy'
  rw [hg] at hy
  rw [hn] at hy'
  simp only [Option.isSome_none, Bool.false_eq_true, if_false] at hy'
  split_ifs at hy hy' with hs hmod hold
  · obtain ⟨u, -, hy⟩ := yields_bind.mp hy
    obtain ⟨u', -, hy'⟩ := yields_bind.mp hy'
    cases yields_pure.mp hy
    cases yields_pure.mp hy'
    exact hd
  · cases yields_pure.mp hy
    exact Or.inr (hm hold)
  · cases hdm : m.directives.find? saveHandler with
    | none =>
      have hdn : n.directives.find? saveHandler = none := by
        unfold onModifyOf at hsome
        rw [hdm, Option.isSome_map, Option.isSome_map] at hsome
        exact Option.not_isSome_iff_eq_none.mp (by simp [← hsome])
      rw [hdm] at hy
      rw [hdn] at hy'
      cases yields_pure.mp hy
      cases yields_pure.mp hy'
      exact hd
    | some ini =>
      rw [hdm] at hy
      cases yields_pure.mp hy
      right
      unfold onModifyOf spSaveHandler
      simp
  · cases yields_pure.mp hy
    cases yields_pure.mp hy'
    exact hd

end Session

/-- **What is left of earlier loads** in the directives `d`: the hook on the save handler. `d₀` are the
directives as PHP has them, and `old` is the save handler the module has kept. -/
structure Restored (d₀ d : IniDirectives) (old : Option IniHandler) : Prop where
  handlers : ∀ k, k ≠ saveHandler → onModifyOf d k = onModifyOf d₀ k
  hooked : onModifyOf d saveHandler = onModifyOf d₀ saveHandler ∨
    (onModifyOf d₀ saveHandler).isSome = true ∧ onModifyOf d saveHandler = spSaveHandler
  session : old.isSome = true → onModifyOf d saveHandler = spSaveHandler

/-- PHP has no handler of the module. -/
def Unhooked (d₀ : IniDirectives) : Prop := ∀ k, onModifyOf d₀ k ≠ some (some .spIniOnmodify)

section Restored
variable {p : PhpProcess} {e : Environment} {allowBroken : Bool} {t₀ : FunctionTable} {d₀ d d' : IniDirectives}
  {w₀ : StreamWrappers} {m m' : SpModule} {old : Option IniHandler} {newValue : ZendString} {ok : Bool}
  {k : ZendString}

theorem Restored.congr (h : Restored d₀ d old) (hd : ∀ k, onModifyOf d' k = onModifyOf d k) :
    Restored d₀ d' old where
  handlers k hk := (hd k).trans (h.handlers k hk)
  hooked := by rw [hd]; exact h.hooked
  session := by rw [hd]; exact h.session

theorem Restored.unhooked (h : Restored d₀ d old) (hphp : Unhooked d₀) : Unhooked d := by
  intro k
  by_cases hk : k = saveHandler
  · subst hk
    rcases h.hooked with hs | ⟨-, hs⟩
    · rw [hs]
      exact hphp _
    · rw [hs]
      decide
  · rw [h.handlers k hk]
    exact hphp k

theorem Restored.isSome (h : Restored d₀ d old) (k : ZendString) :
    (onModifyOf d k).isSome = (onModifyOf d₀ k).isSome := by
  by_cases hk : k = saveHandler
  · subst hk
    rcases h.hooked with hs | ⟨hi, hs⟩
    · rw [hs]
    · rw [hs, hi]
      rfl
  · rw [h.handlers k hk]

/-- The sessions hook no other directive. -/
theorem Restored.startSession (h : Restored d₀ m.directives m.oldOnUpdateSaveHandler)
    (hy : Yields (startSession p e m) m') : Restored d₀ m'.directives m'.oldOnUpdateSaveHandler where
  handlers k hk := by
    rcases (yields_startSession hy).2 k with hs | ⟨rfl, -⟩
    · exact hs.trans (h.handlers k hk)
    · exact absurd rfl hk
  hooked := by
    rcases (yields_startSession hy).2 saveHandler with hs | ⟨-, hs, hi⟩
    · rw [hs]
      exact h.hooked
    · exact Or.inr ⟨(h.isSome _).symm.trans hi, hs⟩
  session := sessionHooked_startSession h.session hy

/-- Unhooking what is not hooked changes no handler. -/
theorem onModifyOf_spUnhookIni_of_unhooked {entries : OrdTable ZendString SpIniEntry}
    (hk : Keyed entries.entries) (hd : Unhooked d) (k : ZendString) :
    onModifyOf (spUnhookIni entries d).directives k = onModifyOf d k := by
  rw [onModifyOf_spUnhookIni hk, if_neg (hd k)]

/-- A load starts with the directives unhooked. -/
theorem directives_resetModule (hm : Reached allowBroken t₀ m) :
    (resetModule m).directives = unhookedDirectives m := by
  unfold resetModule
  by_cases h : m.isConfigValid = .none
  · rw [if_pos h]
    unfold unhookedDirectives
    rw [hm.none h]
    rfl
  · rw [if_neg h]

theorem oldOnUpdateSaveHandler_resetModule :
    (resetModule m).oldOnUpdateSaveHandler = m.oldOnUpdateSaveHandler := by
  unfold resetModule
  split_ifs <;> rfl

/-- The hooks of a load can be taken back. -/
theorem onModifyOf_unhookedDirectives {r : SpModule} {g : SpGlobals} {s : Stores}
    (hs : StartedAs e r g s d m') (hg : Tested g) (hd : Unhooked d) (k : ZendString) :
    onModifyOf (unhookedDirectives m') k = onModifyOf d k := by
  have henable : m'.globals.ini.enable = g.ini.enable :=
    (congrArg (fun g => g.ini.enable) hs.globals :)
  have hini := hs.ini
  unfold unhookedDirectives
  rw [henable]
  split_ifs at hini ⊢ with he
  · exact onModifyOf_unhook_hook (keyed_entries hg.entries) hd hini k
  · rw [hini.2]

/-- The old save handler is kept by the session alone. -/
theorem oldOnUpdateSaveHandler_started {m₂ m₃ : SpModule} (hini : Yields (startIni e m₂) m₃)
    (hrules : Yields (startRules e m₃) m') :
    m'.oldOnUpdateSaveHandler = m₂.oldOnUpdateSaveHandler := by
  obtain ⟨h₃, -⟩ := yields_startIni hini
  obtain ⟨s, h, -, rfl⟩ := yields_startRules hrules
  exact (congrArg SpModule.oldOnUpdateSaveHandler h₃ :)

/-- The module can take back what it has done to the directives. -/
def IniReached (d₀ : IniDirectives) (m : SpModule) : Prop :=
  Restored d₀ (unhookedDirectives m) m.oldOnUpdateSaveHandler

theorem restored_initial : Restored d₀ d₀ none where
  handlers _ _ := rfl
  hooked := Or.inl rfl
  session h := by cases h

theorem iniReached_freshModule : IniReached d₀ (freshModule allowBroken t₀ d₀ w₀) := restored_initial

theorem IniReached.request (hm : IniReached d₀ m) : IniReached d₀ (rinitModule m) := by
  obtain ⟨_, _, _, hrinit⟩ := exists_rinitModule m
  rw [hrinit]
  exact hm

/-- What is left when an earlier load has been taken back. -/
theorem IniReached.reset (hr : Reached allowBroken t₀ m) (hm : IniReached d₀ m) :
    Restored d₀ (resetModule m).directives (resetModule m).oldOnUpdateSaveHandler := by
  rw [directives_resetModule hr, oldOnUpdateSaveHandler_resetModule]
  exact hm

theorem IniReached.load (hphp : Unhooked d₀) (hr : Reached allowBroken t₀ m) (hm : IniReached d₀ m)
    (hy : Yields (spLoadConfig p e newValue m) (ok, m')) : IniReached d₀ m' := by
  have hreset := hm.reset hr
  cases spLoadConfig_cases hy with
  | failed _ => exact hreset
  | @dumped g hread _ =>
    refine hreset.congr fun k => ?_
    show onModifyOf (if g.ini.enable then _ else _) k = _
    split_ifs
    · exact onModifyOf_spUnhookIni_of_unhooked (keyed_entries ((hr.read hread).2 rfl).entries)
        (hreset.unhooked hphp) k
    · rfl
  | started hread _ hwrappers hsession hini hrules =>
    have hw := (yields_startWrappers hwrappers).1
    have hd : Restored d₀ _ _ := Restored.startSession (by rw [hw]; exact hreset) hsession
    obtain ⟨s, hs⟩ := startedAs hwrappers hsession hini hrules
    unfold IniReached
    rw [oldOnUpdateSaveHandler_started hini hrules]
    exact hd.congr (onModifyOf_unhookedDirectives hs ((hr.read hread).2 rfl) (hd.unhooked hphp))

/-- **It holds in every state reached.** -/
theorem IniReached.history {l : List Event} (hphp : Unhooked d₀) (hr : Reached allowBroken t₀ m)
    (hm : IniReached d₀ m) (hy : Yields (Load.History.history p l m) m') : IniReached d₀ m' :=
  hr.preserve (fun hr hm hy => hm.load hphp hr hy) (fun _ _ hm => hm) (fun hm => hm.request) hm hy

end Restored

/-! ### The rules on directives -/

/-- The rules on directives, without the handler that the one on the save handler has kept. -/
def forgetSaveHandler (entries : OrdTable ZendString SpIniEntry) : OrdTable ZendString SpIniEntry :=
  match entries.find? saveHandler with
  | none => entries
  | some x => entries.insert saveHandler (keepOnModify x none)

/-- The handler the rule on the save handler has kept. -/
def keptSaveHandler (entries : OrdTable ZendString SpIniEntry) : Option IniHandler :=
  (entries.find? saveHandler).bind SpIniEntry.origOnmodify

/-- The same rules, but for a save handler that is the module's own in the first. -/
def SameEntries (t t' : OrdTable ZendString SpIniEntry) : Prop :=
  t = t' ∨ keptSaveHandler t = some .spOnUpdateSaveHandler ∧ forgetSaveHandler t = forgetSaveHandler t'

/-- **The same configuration**, but for a save handler that is the module's own in the first. -/
def SameState (g g' : SpGlobals) : Prop :=
  withEntries .empty g = withEntries .empty g' ∧ SameEntries g.ini.entries g'.ini.entries

section Entries
variable {w : World} {g : SpGlobals} {accepts : IniHandler → ZendString → ZendString → Bool}
  {cfg : SpConfigIni} {d d' : IniDirectives} {t t' : IniTables} {k : ZendString}

theorem find?_forgetSaveHandler (t : OrdTable ZendString SpIniEntry) (k : ZendString) :
    (forgetSaveHandler t).find? k =
      if saveHandler = k then (t.find? k).map (keepOnModify · none) else t.find? k := by
  unfold forgetSaveHandler
  cases h : t.find? saveHandler with
  | none =>
    split_ifs with hk
    · rw [← hk, h]
      rfl
    · rfl
  | some x =>
    dsimp only
    rw [OrdTable.find?_insert]
    split_ifs with hk
    · rw [← hk, h]
      rfl
    · rfl

theorem keys_forgetSaveHandler (t : OrdTable ZendString SpIniEntry) :
    (forgetSaveHandler t).keys = t.keys := by
  unfold forgetSaveHandler
  cases h : t.find? saveHandler with
  | none => rfl
  | some x => exact OrdTable.keys_insert_of_find? h

/-- **The rules keep the same handlers**, if the directives have the same, and the save handler its own
or that of the module. -/
theorem sameEntries_spHookIni (hk : Keyed cfg.entries.entries)
    (hd : ∀ k, k ≠ saveHandler → onModifyOf d k = onModifyOf d' k)
    (hsome : ∀ k, (onModifyOf d k).isSome = (onModifyOf d' k).isSome)
    (hsave : onModifyOf d saveHandler = onModifyOf d' saveHandler ∨ onModifyOf d saveHandler = spSaveHandler)
    (hy : Yields (spHookIni w g accepts cfg d) t) (hy' : Yields (spHookIni w g accepts cfg d') t') :
    SameEntries t.entries t'.entries := by
  have hkeys : t.entries.keys = t'.entries.keys := (keys_spHookIni hy).trans (keys_spHookIni hy').symm
  have hfind := find?_entries_spHookIni hk hy
  have hfind' := find?_entries_spHookIni hk hy'
  have hhooks : ∀ x, hooks cfg d x = hooks cfg d' x := by
    intro x
    have hx := hsome x.key
    unfold onModifyOf at hx
    rw [Option.isSome_map, Option.isSome_map] at hx
    unfold hooks
    rw [hx]
  have hother : ∀ k, k ≠ saveHandler → t.entries.find? k = t'.entries.find? k := by
    intro k hne
    rw [hfind, hfind', hd k hne]
    simp only [hhooks]
  rcases hsave with hsave | hsave
  · refine Or.inl (OrdTable.ext_of_find? hkeys fun k => ?_)
    by_cases hne : k = saveHandler
    · subst hne
      rw [hfind, hfind', hsave]
      simp only [hhooks]
    · exact hother k hne
  · cases he : cfg.entries.find? saveHandler with
    | none =>
      refine Or.inl (OrdTable.ext_of_find? hkeys fun k => ?_)
      by_cases hne : k = saveHandler
      · subst hne
        rw [hfind, hfind', he]
        rfl
      · exact hother k hne
    | some x =>
      have hx : t.entries.find? saveHandler =
          some (if hooks cfg d' x = true then keepOnModify x (some .spOnUpdateSaveHandler) else x) := by
        rw [hfind, he, Option.map_some, hsave, hhooks]
        rfl
      have hx' : t'.entries.find? saveHandler =
          some (if hooks cfg d' x = true then keepOnModify x (onModifyOf d' saveHandler).join else x) := by
        rw [hfind', he, Option.map_some]
      by_cases hh : hooks cfg d' x = true
      · rw [if_pos hh] at hx hx'
        refine Or.inr ⟨by unfold keptSaveHandler; rw [hx]; rfl, ?_⟩
        refine OrdTable.ext_of_find? ?_ fun k => ?_
        · rw [keys_forgetSaveHandler, keys_forgetSaveHandler, hkeys]
        · rw [find?_forgetSaveHandler, find?_forgetSaveHandler]
          split_ifs with hne
          · rw [← hne, hx, hx']
            rfl
          · exact hother k (Ne.symm hne)
      · rw [if_neg hh] at hx hx'
        refine Or.inl (OrdTable.ext_of_find? hkeys fun k => ?_)
        by_cases hne : k = saveHandler
        · rw [hne, hx, hx']
        · exact hother k hne

end Entries

/-! ### The configuration after a load -/

section Reload
variable {p : PhpProcess} {e : Environment} {newValue : ZendString} {allowBroken : Bool} {t₀ : FunctionTable}
  {d₀ : IniDirectives} {w₀ : StreamWrappers} {m m₁ m₂ : SpModule} {ok ok₁ ok₂ : Bool}

/-- The rules on directives after a load are those of a load in a fresh module. -/
theorem sameEntries_load (hr : Reached allowBroken t₀ m) (hm : IniReached d₀ m)
    (h₁ : Yields (spLoadConfig p e newValue m) (ok, m₁))
    (h₂ : Yields (spLoadConfig p e newValue (freshModule allowBroken t₀ d₀ w₀)) (ok, m₂)) :
    SameEntries m₁.globals.ini.entries m₂.globals.ini.entries := by
  have hreset := hm.reset hr
  have hunique : ∀ {b b' g g'}, Yields (parsePatterns e (patternsOf newValue) (defaults (resetModule m).globals))
      (b, g) → Yields (parsePatterns e (patternsOf newValue)
        (defaults (resetModule (freshModule allowBroken t₀ d₀ w₀)).globals)) (b', g') →
      g = g' ∧ (b = true → Tested g) := by
    intro b b' g g' h h'
    have ht := (hr.read h).2
    rw [hr.reset.1] at h
    cases h.unique h'
    exact ⟨rfl, ht⟩
  cases spLoadConfig_cases h₁ with
  | failed hread =>
    cases spLoadConfig_cases h₂ with
    | failed hread' => exact Or.inl rfl
  | dumped hread hdumps =>
    cases spLoadConfig_cases h₂ with
    | dumped hread' _ =>
      obtain ⟨rfl, -⟩ := hunique hread hread'
      exact Or.inl rfl
    | started _ hdumps' => cases hdumps.symm.trans hdumps'
  | @started g n₁ n₂ n₃ _ hread hdumps hwrappers hsession hini hrules =>
    cases spLoadConfig_cases h₂ with
    | dumped _ hdumps' => cases hdumps.symm.trans hdumps'
    | @started g' n₁' n₂' n₃' _ hread' _ hwrappers' hsession' hini' hrules' =>
      obtain ⟨rfl, ht⟩ := hunique hread hread'
      have hw := (yields_startWrappers hwrappers).1
      have hw' := (yields_startWrappers hwrappers').1
      have hd : Restored d₀ n₁.directives n₁.oldOnUpdateSaveHandler := by
        rw [hw]
        exact hreset
      have hd' : Restored d₀ n₁'.directives n₁'.oldOnUpdateSaveHandler := by
        rw [hw']
        exact restored_initial
      have hsave := saveHandler_startSession (by rw [hw, hw']; rfl) hd.session (by rw [hw']; rfl)
        (by rw [hw']; exact hd.hooked.imp_right And.right)
        ((hd.isSome _).trans (hd'.isSome _).symm) hsession hsession'
      have hd₂ := hd.startSession hsession
      have hd₂' := hd'.startSession hsession'
      obtain ⟨s, hs⟩ := startedAs hwrappers hsession hini hrules
      obtain ⟨s', hs'⟩ := startedAs hwrappers' hsession' hini' hrules'
      have hi := hs.ini
      have hi' := hs'.ini
      split_ifs at hi hi' with he
      · exact sameEntries_spHookIni (keyed_entries (ht rfl).entries)
          (fun k hk => (hd₂.handlers k hk).trans (hd₂'.handlers k hk).symm)
          (fun k => (hd₂.isSome k).trans (hd₂'.isSome k).symm) hsave hi hi'
      · exact Or.inl (hi.1.trans hi'.1.symm)

/-- A load that fails leaves the default configuration. -/
theorem globals_of_failed (hr : Reached allowBroken t₀ m)
    (hy : Yields (spLoadConfig p e newValue m) (false, m₁)) : m₁.isConfigValid = .invalid ∧
      { m₁.globals with configFilename := none, configLineno := 0 } = ginit allowBroken ∧
      m₁.directives = unhookedDirectives m := by
  cases spLoadConfig_cases hy with
  | @failed g hread =>
    have hfreed := (hr.read hread).1
    exact ⟨rfl, hfreed, directives_resetModule hr⟩

end Reload

/-- **The configuration after a load is the one it gives in a fresh module**, whatever has happened
before, but for a save handler; if the load fails, it is the default one, and nothing is hooked. -/
theorem reload_state (p : PhpProcess) (allowBroken : Bool) (t₀ : FunctionTable) (d₀ : IniDirectives)
    (w₀ : StreamWrappers) (hphp : Unhooked d₀) (l : List Event) (e : Environment) (newValue : ZendString) :
    ∃ m ok m₁ m₂, Yields (history p l (freshModule allowBroken t₀ d₀ w₀)) m ∧
      Yields (spLoadConfig p e newValue m) (ok, m₁) ∧
      Yields (spLoadConfig p e newValue (freshModule allowBroken t₀ d₀ w₀)) (ok, m₂) ∧
      m₁.isConfigValid = m₂.isConfigValid ∧ SameState m₁.globals m₂.globals ∧
      (ok = false → m₁.isConfigValid = .invalid ∧
        { m₁.globals with configFilename := none, configLineno := 0 } = ginit allowBroken ∧
        m₁.hooks = { functionTable := t₀ } ∧ Unhooked m₁.directives) := by
  obtain ⟨m, ok, m₁, m₂, hm, h₁, h₂, hr, -, hvalid, hrest⟩ := exists_reload p allowBroken t₀ d₀ w₀ l e newValue
  have hi : IniReached d₀ m := iniReached_freshModule.history hphp reached_freshModule hm
  refine ⟨m, ok, m₁, m₂, hm, h₁, h₂, hvalid, ⟨hrest, sameEntries_load hr hi h₁ h₂⟩, ?_⟩
  rintro rfl
  obtain ⟨hinvalid, hdefault, hdirectives⟩ := globals_of_failed hr h₁
  refine ⟨hinvalid, hdefault, hooks_of_failed hr h₁, ?_⟩
  rw [hdirectives]
  exact hi.unhooked hphp

/-- The directive of the save handler, with its handler in PHP. -/
def saveHandlerDirective : IniDirectives := ⟨[(saveHandler, { onModify := some (.php 0) })], by decide⟩

/-- A load that hooks the save handler. -/
def hookSessions : Environment := ofRules [[keyword "session", strKeyword "sid_min_length" "1"]]

/-- A load with a rule on the save handler. -/
def protectSaveHandler : Environment :=
  ofRules [[keyword "ini_protection", emptyKeyword "enable"],
    [keyword "ini", strKeyword "key" "session.save_handler", emptyKeyword "readonly"]]

theorem reload_state_sample :
    ∃ m ok m₁ m₂, Yields (history cliProcess [.load hookSessions (zstr "a.rules"), .request]
        (freshModule false ⟨.empty, by decide⟩ saveHandlerDirective .empty)) m ∧
      Yields (spLoadConfig cliProcess protectSaveHandler (zstr "b.rules") m) (ok, m₁) ∧
      Yields (spLoadConfig cliProcess protectSaveHandler (zstr "b.rules")
        (freshModule false ⟨.empty, by decide⟩ saveHandlerDirective .empty)) (ok, m₂) ∧
      m₁.isConfigValid = m₂.isConfigValid ∧ SameState m₁.globals m₂.globals ∧
      (ok = false → m₁.isConfigValid = .invalid ∧
        { m₁.globals with configFilename := none, configLineno := 0 } = ginit false ∧
        m₁.hooks = { functionTable := ⟨.empty, by decide⟩ } ∧ Unhooked m₁.directives) := by
  refine reload_state cliProcess false ⟨.empty, by decide⟩ saveHandlerDirective .empty (fun k => ?_) _ _ _
  unfold onModifyOf saveHandlerDirective OrdTable.find?
  rw [OrdTable.lookup]
  split_ifs <;> simp [OrdTable.lookup]

/-- The rule on the save handler keeps the handler of PHP in a fresh module, but that of the module if
sessions have been hooked before. -/
theorem saveHandler_kept :
    ∃ m₁ m₂, Yields (history cliProcess
        [.load hookSessions (zstr "a.rules"), .load protectSaveHandler (zstr "b.rules")]
        (freshModule false ⟨.empty, by decide⟩ saveHandlerDirective .empty)) m₁ ∧
      Yields (history cliProcess [.load protectSaveHandler (zstr "b.rules")]
        (freshModule false ⟨.empty, by decide⟩ saveHandlerDirective .empty)) m₂ ∧
      m₁.isConfigValid = .valid ∧ m₁.globals.ini.entries.find? saveHandler ≠
        m₂.globals.ini.entries.find? saveHandler := by
  obtain ⟨m₁, h₁, hv, hs₁⟩ := exists_of_yieldsA (x := history cliProcess
    [.load hookSessions (zstr "a.rules"), .load protectSaveHandler (zstr "b.rules")]
    (freshModule false ⟨.empty, by decide⟩ saveHandlerDirective .empty))
    (p := fun m => m.isConfigValid = .valid ∧
      keptSaveHandler m.globals.ini.entries = some .spOnUpdateSaveHandler) (by decide +kernel)
  obtain ⟨m₂, h₂, hs₂⟩ := exists_of_yieldsA (x := history cliProcess
    [.load protectSaveHandler (zstr "b.rules")]
    (freshModule false ⟨.empty, by decide⟩ saveHandlerDirective .empty))
    (p := fun m => keptSaveHandler m.globals.ini.entries = some (.php 0)) (by decide +kernel)
  refine ⟨m₁, m₂, h₁, h₂, hv, fun h => ?_⟩
  unfold keptSaveHandler at hs₁ hs₂
  rw [h, hs₂] at hs₁
  cases hs₁

end Snuffleupagus.Load.State
