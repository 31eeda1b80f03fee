import Snuffleupagus.Load.Module

/-! # What a load does

A load comes to its end in one of three ways (`LoadCase`, `spLoadConfig_cases`): a file is refused, the
configuration is printed, or the hooks are started. The files are read into the same configuration
whatever has been loaded before, and neither they nor the hooks change anything that is not taken back
by `sp_free_config`. -/

namespace Snuffleupagus.Load.Cases

open Snuffleupagus.Lib.Effect Snuffleupagus.Lib.Table Snuffleupagus.Lib.Attempts
open Snuffleupagus.Php.Bytes Snuffleupagus.Php.Engine Snuffleupagus.Config.Rule Snuffleupagus.Log
open Snuffleupagus.Config.Keyword hiding spProcessRule
open Snuffleupagus.Config.Parser Snuffleupagus.Config.Root Snuffleupagus.Config.Frame
open Snuffleupagus.Config.Sound Snuffleupagus.Match.Value
open Snuffleupagus.Hook.Table Snuffleupagus.Hook.Stores Snuffleupagus.Hook.Unhook
open Snuffleupagus.Hook.Features Snuffleupagus.Ini.Hook Snuffleupagus.Wrapper.Table
open Snuffleupagus.Load.Module

variable {p : PhpProcess} {e : Environment}

/-! ### Log lines during a load -/

theorem yields_spLogErr (w : World) (g : SpGlobals) (feature fmt : String) (args : List ZendString) :
    Yields (spLogErr w (loading g) feature fmt args) () :=
  out_spLogMsgf_nonfatal w (loading g) rfl (by decide)

theorem yields_spLogMsgf (w : World) (g : SpGlobals) (feature : String) (level : Level) (fmt : String)
    (args : List ZendString) : Yields (spLogMsgf w (loading g) feature level .log fmt args) () :=
  out_spLogMsgf_nonfatal w (loading g) rfl (by decide)

/-! ### Reading -/

/-- What reading leaves alone: what `sp_free_config` makes of the configuration, and the number of the
wrappers. -/
def untouched (g : SpGlobals) : SpGlobals × ℕ := (spFreeConfig g, g.wrapper.numWrapper)

/-- The stores are those of some rules. -/
def Ruled (g : SpGlobals) : Prop := ∃ rules, g.stores = storesOf rules

/-- A configuration that is taken back in the same way, and whose stores are those of some rules. -/
structure SameFreed (g g' : SpGlobals) : Prop where
  untouched : untouched g' = untouched g
  ruled : Ruled g → Ruled g'

theorem SameFreed.trans {g₁ g₂ g₃ : SpGlobals} (h : SameFreed g₁ g₂) (h' : SameFreed g₂ g₃) :
    SameFreed g₁ g₃ := ⟨h'.untouched.trans h.untouched, fun hr => h'.ruled (h.ruled hr)⟩

theorem setters_sameFreed : Setters SameFreed where
  encryptionKey _ _ := ⟨rfl, id⟩
  cookiesEnvVar _ _ := ⟨rfl, id⟩
  logMedia _ _ := ⟨rfl, id⟩
  logMaxLen _ _ := ⟨rfl, id⟩
  maxExecutionDepth _ _ := ⟨rfl, id⟩
  serverEncode _ _ := ⟨rfl, id⟩
  serverStrip _ _ := ⟨rfl, id⟩
  random _ _ := ⟨rfl, id⟩
  globalStrict _ _ := ⟨rfl, id⟩
  autoCookieSecure _ _ := ⟨rfl, id⟩
  xxeProtection _ _ := ⟨rfl, id⟩
  sloppy _ _ := ⟨rfl, id⟩
  unserialize _ _ := ⟨rfl, id⟩
  unserializeNoclass _ _ := ⟨rfl, id⟩
  readonlyExec _ _ := ⟨rfl, id⟩
  eval _ _ := ⟨rfl, id⟩
  upload _ _ := ⟨rfl, id⟩
  stores df g := by
    refine ⟨rfl, ?_⟩
    rintro ⟨rules, h⟩
    exact ⟨rules ++ [df], by simp [h, storesOf]⟩
  ini _ _ _ := ⟨rfl, id⟩
  iniEntry _ _ _ _ := ⟨rfl, id⟩
  session _ _ := ⟨rfl, id⟩
  wrapper _ hf g := ⟨Prod.ext rfl (hf g.wrapper), id⟩
  cookies _ _ := ⟨rfl, id⟩

/-- **What reading comes to**: an end, a configuration that is taken back in the same way, and one that
has been tested, if everything has been accepted. -/
structure ReadsTo (x : Sp (Bool × SpGlobals)) (g : SpGlobals) (ok : Bool) (g' : SpGlobals) : Prop where
  yields : Yields x (ok, g')
  freed : SameFreed g g'
  tested : Tested g → ok = true → Tested g'

section Reading
variable {g g' g'' : SpGlobals}

theorem readsTo_configError (e : Environment) (g : SpGlobals) (err : ConfigError) :
    ReadsTo (configError e g err) g false g where
  yields := yields_bind.mpr ⟨(), yields_spLogErr _ _ _ _ _, yields_pure.mpr rfl⟩
  freed := ⟨rfl, id⟩
  tested _ h := by cases h

theorem exists_spConfigScan (error : Option (ℕ × ConfigError)) : ∀ (l : List Statement) (g : SpGlobals),
    ∃ ok g', ReadsTo (spConfigScan e error l g) g ok g'
  | [], g => by
    unfold spConfigScan
    cases error with
    | none => exact ⟨true, g, yields_pure.mpr rfl, ⟨rfl, id⟩, fun h _ => h⟩
    | some x =>
      obtain ⟨hy, -, -⟩ := readsTo_configError e { g with configLineno := x.1 } x.2
      exact ⟨false, _, hy, ⟨rfl, id⟩, fun _ h => by cases h⟩
  | .rule parsedRule :: l, g => by
    have hmoves := moves_spProcessConfigRoot (R := SameFreed) (fun _ => ⟨rfl, id⟩)
      (fun _ _ _ => SameFreed.trans) (fun _ _ => ⟨rfl, id⟩) e.world e.access setters_sameFreed parsedRule g
    have hkeeps := keeps_spProcessConfigRoot (w := e.world) e.access parsedRule
    unfold spConfigScan
    rcases hrun : runOn (spProcessConfigRoot e.world e.access parsedRule) g with ⟨r, g₁⟩
    rw [hrun] at hmoves
    cases r with
    | error err =>
      obtain ⟨hy, -, -⟩ := readsTo_configError e g₁ err
      exact ⟨false, g₁, hy, hmoves, fun _ h => by cases h⟩
    | ok u =>
      obtain ⟨ok, g', hy, hf, ht⟩ := exists_spConfigScan error l g₁
      exact ⟨ok, g', hy, hmoves.trans hf, fun h => ht (hkeeps g u g₁ hrun h)⟩
  | .message lineno level fmt args :: l, g => by
    obtain ⟨ok, g', hy, hf, ht⟩ := exists_spConfigScan error l { g with configLineno := lineno }
    exact ⟨ok, g', yields_bind.mpr ⟨(), yields_spLogMsgf _ _ _ _ _ _, hy⟩, ⟨hf.untouched, hf.ruled⟩,
      fun h => ht (tested_of_eq h rfl rfl rfl rfl id id)⟩

theorem exists_spParseConfig (file : ZendString) (g : SpGlobals) :
    ∃ ok g', ReadsTo (spParseConfig e file g) g ok g' := by
  unfold spParseConfig
  dsimp only
  cases e.read file with
  | error errno =>
    exact ⟨false, _, yields_bind.mpr ⟨(), yields_spLogErr _ _ _ _ _, yields_pure.mpr rfl⟩, ⟨rfl, id⟩,
      fun _ h => by cases h⟩
  | ok data =>
    obtain ⟨ok, g', hy, hf, ht⟩ := exists_spConfigScan (e := e) (e.scan data file).error
      (e.scan data file).statements { g with configFilename := some file, configLineno := 0,
                                             configParsing := true }
    cases ok with
    | true =>
      refine ⟨true, _, yields_bind.mpr ⟨_, hy, yields_pure.mpr rfl⟩, ⟨hf.untouched, hf.ruled⟩, fun h _ => ?_⟩
      exact tested_of_eq (ht (tested_of_eq h rfl rfl rfl rfl id id) rfl) rfl rfl rfl rfl id id
    | false =>
      exact ⟨false, _, yields_bind.mpr ⟨_, hy, yields_pure.mpr rfl⟩, ⟨hf.untouched, hf.ruled⟩, fun _ h => by cases h⟩

theorem exists_parseFiles : ∀ (l : List ZendString) (g : SpGlobals),
    ∃ ok g', ReadsTo (parseFiles e l g) g ok g'
  | [], g => ⟨true, g, yields_pure.mpr rfl, ⟨rfl, id⟩, fun h _ => h⟩
  | file :: files, g => by
    obtain ⟨ok, g₁, hy, hf, ht⟩ := exists_spParseConfig (e := e) file g
    cases ok with
    | true =>
      obtain ⟨ok, g', hy', hf', ht'⟩ := exists_parseFiles files g₁
      exact ⟨ok, g', yields_bind.mpr ⟨_, hy, hy'⟩, hf.trans hf', fun h => ht' (ht h rfl)⟩
    | false =>
      exact ⟨false, g₁, yields_bind.mpr ⟨_, hy, yields_pure.mpr rfl⟩, hf, fun _ h => by cases h⟩

/-- **The files are read to an end.** -/
theorem exists_parsePatterns : ∀ (l : List ZendString) (g : SpGlobals),
    ∃ ok g', ReadsTo (parsePatterns e l g) g ok g'
  | [], g => ⟨true, g, yields_pure.mpr rfl, ⟨rfl, id⟩, fun h _ => h⟩
  | configFile :: patterns, g => by
    unfold parsePatterns
    cases e.glob configFile with
    | none =>
      exact ⟨false, g, yields_bind.mpr ⟨(), yields_spLogErr _ _ _ _ _, yields_pure.mpr rfl⟩, ⟨rfl, id⟩,
        fun _ h => by cases h⟩
    | some files =>
      obtain ⟨ok, g₁, hy, hf, ht⟩ := exists_parseFiles (e := e) files g
      cases ok with
      | true =>
        obtain ⟨ok, g', hy', hf', ht'⟩ := exists_parsePatterns patterns g₁
        exact ⟨ok, g', yields_bind.mpr ⟨_, hy, hy'⟩, hf.trans hf', fun h => ht' (ht h rfl)⟩
      | false =>
        exact ⟨false, g₁, yields_bind.mpr ⟨_, hy, yields_pure.mpr rfl⟩, hf, fun _ h => by cases h⟩

/-- What reading comes to can be told from what it yields. -/
theorem readsTo_of_yields {x : Sp (Bool × SpGlobals)} {ok : Bool} (h : ∃ ok g', ReadsTo x g ok g')
    (hy : Yields x (ok, g')) : ReadsTo x g ok g' := by
  obtain ⟨ok', g'', h⟩ := h
  cases h.yields.unique hy
  exact h

end Reading

/-! ### Starting the hooks -/

section Starting
variable {m m' : SpModule} {g : SpGlobals}

theorem yields_startWrappers (hy : Yields (startWrappers e m) m') :
    m' = { m with wrappers := m'.wrappers } ∧ ∀ k, m'.wrappers.find? k =
      if m.globals.wrapper.enabled = true ∧ spPhpStreamIsFiltered m.globals ∧ k = zstr "php" then
        (m.wrappers.find? k).map fun _ => .spPhp
      else m.wrappers.find? k := by
  unfold startWrappers at hy
  split_ifs at hy with he
  · obtain ⟨t, ht, hy⟩ := yields_bind.mp hy
    cases yields_pure.mp hy
    refine ⟨rfl, fun k => ?_⟩
    rw [find?_spReregisterPhpWrapper ht]
    have hs : spPhpStreamIsFiltered (loading m.globals) = spPhpStreamIsFiltered m.globals := rfl
    simp [he, hs]
  · cases yields_pure.mp hy
    exact ⟨rfl, fun k => by simp [he]⟩

theorem exists_startWrappers (e : Environment) (m : SpModule) : ∃ m', Yields (startWrappers e m) m' := by
  unfold startWrappers
  split_ifs
  · obtain ⟨t, ht⟩ := exists_yields_spReregisterPhpWrapper (w := e.world) (g := loading m.globals)
      m.wrappers
    exact ⟨_, yields_bind.mpr ⟨t, ht, yields_pure.mpr rfl⟩⟩
  · exact ⟨m, yields_pure.mpr rfl⟩

/-- The session hooks one directive. -/
theorem yields_hookSession (hy : Yields (hookSession p e m) m') :
    m' = { m with directives := m'.directives, oldOnUpdateSaveHandler := m'.oldOnUpdateSaveHandler } ∧
      ∀ k, onModifyOf m'.directives k = onModifyOf m.directives k ∨
        k = saveHandler ∧ onModifyOf m'.directives k = some (some .spOnUpdateSaveHandler) ∧
          (onModifyOf m.directives k).isSome = true := by
  unfold hookSession at hy
  split_ifs at hy with hmod hold
  · obtain ⟨u, -, hy⟩ := yields_bind.mp hy
    cases yields_pure.mp hy
    exact ⟨rfl, fun _ => Or.inl rfl⟩
  · cases yields_pure.mp hy
    exact ⟨rfl, fun _ => Or.inl rfl⟩
  · cases hd : m.directives.find? saveHandler with
    | none =>
      rw [hd] at hy
      cases yields_pure.mp hy
      exact ⟨rfl, fun _ => Or.inl rfl⟩
    | some ini =>
      rw [hd] at hy
      cases yields_pure.mp hy
      refine ⟨rfl, fun k => ?_⟩
      unfold onModifyOf
      by_cases hk : saveHandler = k
      · subst hk
        exact Or.inr ⟨rfl, by simp, by simp [hd]⟩
      · exact Or.inl (by simp [hk])

theorem exists_hookSession (p : PhpProcess) (e : Environment) (m : SpModule) :
    ∃ m', Yields (hookSession p e m) m' := by
  unfold hookSession
  split_ifs
  · exact ⟨m, yields_bind.mpr ⟨(), yields_spLogErr _ _ _ _ _, yields_pure.mpr rfl⟩⟩
  · exact ⟨m, yields_pure.mpr rfl⟩
  · cases m.directives.find? saveHandler with
    | none => exact ⟨m, yields_pure.mpr rfl⟩
    | some ini => exact ⟨_, yields_pure.mpr rfl⟩

theorem yields_startSession (hy : Yields (startSession p e m) m') :
    m' = { m with directives := m'.directives, oldOnUpdateSaveHandler := m'.oldOnUpdateSaveHandler } ∧
      ∀ k, onModifyOf m'.directives k = onModifyOf m.directives k ∨
        k = saveHandler ∧ onModifyOf m'.directives k = some (some .spOnUpdateSaveHandler) ∧
          (onModifyOf m.directives k).isSome = true := by
  unfold startSession at hy
  split_ifs at hy
  · exact yields_hookSession hy
  · cases yields_pure.mp hy
    exact ⟨rfl, fun _ => Or.inl rfl⟩

theorem exists_startSession (p : PhpProcess) (e : Environment) (m : SpModule) :
    ∃ m', Yields (startSession p e m) m' := by
  unfold startSession
  split_ifs
  · exact exists_hookSession p e m
  · exact ⟨m, yields_pure.mpr rfl⟩

/-- The configuration with other rules on directives. -/
def withEntries (entries : OrdTable ZendString SpIniEntry) (g : SpGlobals) : SpGlobals :=
  onIni (fun c => { c with entries := entries }) g

theorem yields_startIni (hy : Yields (startIni e m) m') :
    m' = { m with directives := m'.directives, globals := withEntries m'.globals.ini.entries m.globals } ∧
      if m.globals.ini.enable = true then
        Yields (spHookIni e.world (loading m.globals) e.accepts m.globals.ini m.directives)
          ⟨m'.globals.ini.entries, m'.directives⟩
      else m' = m := by
  unfold startIni at hy
  by_cases he : m.globals.ini.enable = true
  · rw [if_pos he] at hy
    obtain ⟨t, ht, hy⟩ := yields_bind.mp hy
    cases yields_pure.mp hy
    exact ⟨rfl, by rw [if_pos he]; exact ht⟩
  · rw [if_neg he] at hy
    cases yields_pure.mp hy
    exact ⟨rfl, by rw [if_neg he]⟩

theorem exists_startIni (e : Environment) (m : SpModule) : ∃ m', Yields (startIni e m) m' := by
  unfold startIni
  split_ifs
  · have hini : ∃ t, Yields (spHookIni e.world (loading m.globals) e.accepts m.globals.ini m.directives) t :=
      exists_yields_spHookIni
    obtain ⟨t, ht⟩ := hini
    exact ⟨_, yields_bind.mpr ⟨t, ht, yields_pure.mpr rfl⟩⟩
  · exact ⟨m, yields_pure.mpr rfl⟩

/-- The rules, from what the configuration makes of them. -/
theorem yields_startRules (hy : Yields (startRules e m) m') : ∃ s h,
    Yields (hookDisabledFunctions e.world (loading m.globals) m.globals.stores m.hooks) (s, h) ∧
    m' = { m with hooks := h, globals := Execute.Handler.loadedGlobals m.globals s
                  echoHooked := m.echoHooked || hasEchoRules s } := by
  unfold startRules at hy
  obtain ⟨⟨s, h⟩, hd, hy⟩ := yields_bind.mp hy
  exact ⟨s, h, hd, (yields_pure.mp hy).symm⟩

theorem exists_spIsRegexpMatchingLen (w : World) (g : SpGlobals) (rx : SpRegexp) (s : ZendString) :
    ∃ b, Yields (spIsRegexpMatchingLen w (loading g) rx s) b := by
  unfold spIsRegexpMatchingLen
  dsimp only
  split_ifs
  · exact ⟨false, yields_bind.mpr ⟨(), yields_spLogErr _ _ _ _ _, yields_pure.mpr rfl⟩⟩
  · exact ⟨false, yields_pure.mpr rfl⟩
  · exact ⟨true, yields_pure.mpr rfl⟩

theorem exists_hookFunctionsRegexp (w : World) (g : SpGlobals) (config : List SpDisabledFunction)
    (h : Hooks) : ∃ h', Yields (hookFunctionsRegexp w (loading g) config h) h' := by
  unfold hookFunctionsRegexp
  refine exists_foldlM (fun h df => ?_) config h
  cases df.function with
  | some name => exact ⟨_, yields_pure.mpr rfl⟩
  | none =>
    cases df.rFunction with
    | none => exact ⟨h, yields_pure.mpr rfl⟩
    | some rx =>
      unfold hookRegexp
      refine exists_foldlM (fun h name => ?_) _ h
      obtain ⟨b, hb⟩ := exists_spIsRegexpMatchingLen w g rx name
      cases b with
      | true => exact ⟨_, yields_bind.mpr ⟨true, hb, yields_pure.mpr rfl⟩⟩
      | false => exact ⟨h, yields_bind.mpr ⟨false, hb, yields_pure.mpr rfl⟩⟩

/-- **The rules are hooked to an end.** -/
theorem exists_hookDisabledFunctions (w : World) (g : SpGlobals) (s : Stores) (h : Hooks) :
    ∃ r, Yields (hookDisabledFunctions w (loading g) s h) r := by
  unfold hookDisabledFunctions hookRules
  obtain ⟨h₁, hy₁⟩ := exists_hookFunctionsRegexp w g s.disabledFunctionsReg
    (hookFunctions w ⟨s.disabledFunctionsRet, s.disabledFunctionsRetHooked,
      (hookFunctions w ⟨s.disabledFunctions, s.disabledFunctionsHooked, h⟩).hooks⟩).hooks
  obtain ⟨h₂, hy₂⟩ := exists_hookFunctionsRegexp w g s.disabledFunctionsRegRet h₁
  exact ⟨_, yields_bind.mpr ⟨_, yields_bind.mpr ⟨h₁, hy₁, yields_bind.mpr ⟨h₂, hy₂, yields_pure.mpr rfl⟩⟩,
    yields_pure.mpr rfl⟩⟩

theorem exists_startRules (e : Environment) (m : SpModule) : ∃ m', Yields (startRules e m) m' := by
  obtain ⟨⟨s, h⟩, hy⟩ := exists_hookDisabledFunctions e.world m.globals m.globals.stores m.hooks
  exact ⟨_, yields_bind.mpr ⟨_, hy, yields_pure.mpr rfl⟩⟩

theorem yields_checkXmlModule (p : PhpProcess) (e : Environment) (g : SpGlobals) :
    Yields (checkXmlModule p e g) () := by
  unfold checkXmlModule
  split_ifs
  · exact out_spLogWarn _ _ _ _ _
  · exact yields_pure.mpr rfl

end Starting

/-! ### The whole load -/

/-- The module with a configuration that has been read, and the functions of the features hooked. -/
def withFeatures (e : Environment) (r : SpModule) (g : SpGlobals) : SpModule :=
  { r with globals := g, isConfigValid := .valid, hooks := hookFeatures e.world g r.hooks }

/-- What is left of a configuration that has been refused. -/
def failedGlobals (g : SpGlobals) : SpGlobals :=
  { spFreeConfig g with configFilename := g.configFilename, configLineno := g.configLineno }

/-- The patterns of `sp.configuration_file`. -/
def patternsOf (newValue : ZendString) : List ZendString := (cstr newValue).splitOn 44

/-- **What a load can do**, from the module as it is when an earlier one has been taken back. -/
inductive LoadCase (p : PhpProcess) (e : Environment) (newValue : ZendString) (r : SpModule) :
    Bool → SpModule → Prop
  | failed {g} (hread : Yields (parsePatterns e (patternsOf newValue) (defaults r.globals)) (false, g)) :
      LoadCase p e newValue r false { r with globals := failedGlobals g, isConfigValid := .invalid }
  | dumped {g} (hread : Yields (parsePatterns e (patternsOf newValue) (defaults r.globals)) (true, g))
      (hdumps : dumps p = true) :
      LoadCase p e newValue r true { r with globals := g, isConfigValid := .valid }
  | started {g m₁ m₂ m₃ m'}
      (hread : Yields (parsePatterns e (patternsOf newValue) (defaults r.globals)) (true, g))
      (hdumps : dumps p = false) (hwrappers : Yields (startWrappers e (withFeatures e r g)) m₁)
      (hsession : Yields (startSession p e m₁) m₂) (hini : Yields (startIni e m₂) m₃)
      (hrules : Yields (startRules e m₃) m') : LoadCase p e newValue r true m'

section Load
variable {newValue : ZendString} {m m' : SpModule} {ok : Bool}

theorem yields_spConfigFailed (e : Environment) (g : SpGlobals) :
    Yields (spConfigFailed e g) (failedGlobals g) := by
  unfold spConfigFailed
  dsimp only
  split_ifs
  · exact yields_bind.mpr ⟨(), out_spLogWarn _ _ _ _ _, yields_pure.mpr rfl⟩
  · exact yields_pure.mpr rfl

/-- **What a load has done.** -/
theorem spLoadConfig_cases (hy : Yields (spLoadConfig p e newValue m) (ok, m')) :
    LoadCase p e newValue (resetModule m) ok m' := by
  unfold spLoadConfig at hy
  obtain ⟨⟨b, g⟩, hread, hy⟩ := yields_bind.mp hy
  cases b with
  | false =>
    obtain ⟨g', hg, hy⟩ := yields_bind.mp hy
    cases (yields_spConfigFailed e g).unique hg
    cases yields_pure.mp hy
    exact .failed hread
  | true =>
    dsimp only at hy
    by_cases hd : dumps p = true
    · rw [if_pos hd] at hy
      cases yields_pure.mp hy
      exact .dumped hread hd
    · rw [if_neg hd] at hy
      obtain ⟨m'', hstart, hy⟩ := yields_bind.mp hy
      cases yields_pure.mp hy
      unfold startHooks at hstart
      obtain ⟨u, -, hstart⟩ := yields_bind.mp hstart
      obtain ⟨m₁, h₁, hstart⟩ := yields_bind.mp hstart
      obtain ⟨m₂, h₂, hstart⟩ := yields_bind.mp hstart
      obtain ⟨m₃, h₃, hstart⟩ := yields_bind.mp hstart
      exact .started hread (by simpa using hd) h₁ h₂ h₃ hstart

/-- **A load comes to its end.** -/
theorem exists_spLoadConfig (p : PhpProcess) (e : Environment) (newValue : ZendString) (m : SpModule) :
    ∃ r, Yields (spLoadConfig p e newValue m) r := by
  obtain ⟨ok, g, hread, -, -⟩ := exists_parsePatterns (e := e) (patternsOf newValue)
    (defaults (resetModule m).globals)
  unfold spLoadConfig
  cases ok with
  | false =>
    exact ⟨_, yields_bind.mpr ⟨_, hread, yields_bind.mpr ⟨_, yields_spConfigFailed e g, yields_pure.mpr rfl⟩⟩⟩
  | true =>
    by_cases hd : dumps p = true
    · refine ⟨(true, { resetModule m with globals := g, isConfigValid := .valid }),
        yields_bind.mpr ⟨_, hread, ?_⟩⟩
      dsimp only
      rw [if_pos hd]
      exact yields_pure.mpr rfl
    · obtain ⟨m₁, h₁⟩ := exists_startWrappers e (withFeatures e (resetModule m) g)
      obtain ⟨m₂, h₂⟩ := exists_startSession p e m₁
      obtain ⟨m₃, h₃⟩ := exists_startIni e m₂
      obtain ⟨m₄, h₄⟩ := exists_startRules e m₃
      refine ⟨(true, m₄), yields_bind.mpr ⟨_, hread, ?_⟩⟩
      dsimp only
      rw [if_neg hd]
      exact yields_bind.mpr ⟨m₄, yields_bind.mpr ⟨(), yields_checkXmlModule _ _ _, yields_bind.mpr
        ⟨m₁, h₁, yields_bind.mpr ⟨m₂, h₂, yields_bind.mpr ⟨m₃, h₃, h₄⟩⟩⟩⟩, yields_pure.mpr rfl⟩

end Load

/-! ### The start of a request -/

/-- **What a request changes**: the wrappers there are and their number, the counters, and
`config_parsing`. -/
theorem exists_rinitModule (m : SpModule) : ∃ wrappers n parsing, rinitModule m =
    { m with wrappers := wrappers
             globals := { m.globals with executionDepth := 0, inEval := 0, configParsing := parsing
                                         wrapper := { m.globals.wrapper with numWrapper := n } } } := by
  unfold rinitModule resetCounters filterWrappers
  dsimp only
  split_ifs
  · exact ⟨_, _, _, rfl⟩
  · exact ⟨_, _, _, rfl⟩
  · exact ⟨_, _, _, rfl⟩
  · exact ⟨_, _, _, rfl⟩
  · exact ⟨_, _, _, rfl⟩

end Snuffleupagus.Load.Cases
