import Snuffleupagus.Config.Sound
import Snuffleupagus.Execute.Handler
import Snuffleupagus.Hook.Features
import Snuffleupagus.Ini.Hook
import Snuffleupagus.Wrapper.Table

/-! # Loading a configuration

`sp_load_config` may be called again and again in one process. It takes back what an earlier load has
left, reads the files, and starts the hooks of the features that are on; if a file is refused it forgets
everything it has read.

What a load depends on from outside is its `Environment`. The scanner of the configuration is a part of
it: it makes statements of the contents of a file, and may give up behind some of them. A load is never
cut short by what it logs: while PHP starts, an error does not end anything, and afterwards
`config_nonfatal` makes a warning of it (`loading`). -/

namespace Snuffleupagus.Load.Module

open Snuffleupagus.Lib.Effect Snuffleupagus.Lib.Table Snuffleupagus.Lib.Attempts
open Snuffleupagus.Php.Bytes Snuffleupagus.Php.Engine Snuffleupagus.Config.Rule Snuffleupagus.Log
open Snuffleupagus.Config.Keyword hiding spProcessRule
open Snuffleupagus.Config.Root Snuffleupagus.Hook.Table Snuffleupagus.Hook.Stores
open Snuffleupagus.Hook.Unhook Snuffleupagus.Hook.Features Snuffleupagus.Ini.Hook
open Snuffleupagus.Wrapper.Table

/-! ### The process, and the module in it -/

/-- What is fixed for a process: the name of the SAPI, whether `SP_DUMP_CONFIG` is set, and the modules
in `module_registry`. -/
structure PhpProcess where
  sapiName : ZendString
  spDumpConfig : Bool
  moduleRegistry : ZendString → Bool

/-- **What the module has in a process**: its globals, and what it has changed of PHP. `echoHooked` says
that `zend_write` is `hook_echo`. -/
structure SpModule where
  globals : SpGlobals
  isConfigValid : ConfigStatus := .none
  hooks : Hooks
  directives : IniDirectives
  oldOnUpdateSaveHandler : Option IniHandler := none
  wrappers : StreamWrappers
  echoHooked : Bool := false

/-- `PHP_GINIT_FUNCTION`, with the setting of `sp.allow_broken_configuration`. -/
def ginit (allowBrokenConfiguration : Bool) : SpGlobals :=
  { readonlyExec := { extendedChecks := false }, allowBrokenConfiguration := allowBrokenConfiguration }

/-- A module that has not loaded anything. -/
def freshModule (allowBrokenConfiguration : Bool) (functionTable : FunctionTable)
    (directives : IniDirectives) (wrappers : StreamWrappers) : SpModule where
  globals := ginit allowBrokenConfiguration
  hooks := { functionTable := functionTable }
  directives := directives
  wrappers := wrappers

/-! ### Reading the files -/

/-- What the scanner makes of the text: a rule, or a line for the log. -/
inductive Statement
  | rule (parsedRule : List SpParsedKeyword)
  | message (lineno : ℕ) (level : Level) (fmt : String) (args : List ZendString)

/-- The statements of a file, and the error behind them, if the scanner gives up. -/
structure Scan where
  statements : List Statement
  error : Option (ℕ × ConfigError) := none

/-- What a load depends on. -/
structure Environment where
  world : World
  /-- `glob`, with `GLOB_NOCHECK`. -/
  glob : ZendString → Option (List ZendString)
  /-- `fopen` and `fread`. -/
  read : ZendString → Except Errno ZendString
  /-- `access(_, F_OK)`. -/
  access : ZendString → Bool
  /-- `sp_config_scan`, of the contents of a file with a name. -/
  scan : ZendString → ZendString → Scan
  /-- The handler of a directive takes a value. -/
  accepts : IniHandler → ZendString → ZendString → Bool

variable (p : PhpProcess) (e : Environment)

/-- The globals as the log sees them during a load. -/
def loading (g : SpGlobals) : SpGlobals := { g with configNonfatal := true }

/-- The error of a file: it is logged, and nothing else is read. -/
def configError (g : SpGlobals) (err : ConfigError) : Sp (Bool × SpGlobals) := do
  spLogErr e.world (loading g) err.feature err.fmt err.args
  pure (false, g)

/-- `sp_config_scan`, with the statements handed to `sp_process_config_root`. -/
def spConfigScan (error : Option (ℕ × ConfigError)) : List Statement → SpGlobals → Sp (Bool × SpGlobals)
  | [], g =>
    match error with
    | none => pure (true, g)
    | some (lineno, err) => configError e { g with configLineno := lineno } err
  | .rule parsedRule :: l, g =>
    match runOn (spProcessConfigRoot e.world e.access parsedRule) g with
    | (.ok _, g) => spConfigScan error l g
    | (.error err, g) => configError e g err
  | .message lineno level fmt args :: l, g => do
    let g := { g with configLineno := lineno }
    spLogMsgf e.world (loading g) "config" level .log fmt args
    spConfigScan error l g

/-- `sp_parse_config`. -/
def spParseConfig (filename : ZendString) (g : SpGlobals) : Sp (Bool × SpGlobals) := do
  let g := { g with configFilename := some filename, configLineno := 0, configParsing := true }
  match e.read filename with
  | .error errno => do
    spLogErr e.world (loading g) "config" "Could not open configuration file %s : %s"
      [filename, e.world.strerror errno]
    pure (false, { g with configParsing := false })
  | .ok data => do
    let (ret, g) ← spConfigScan e (e.scan data filename).error (e.scan data filename).statements g
    if ret then pure (ret, { g with configParsing := false, configFilename := none, configLineno := 0 })
    else pure (ret, { g with configParsing := false })

/-- The files of a pattern. -/
def parseFiles : List ZendString → SpGlobals → Sp (Bool × SpGlobals)
  | [], g => pure (true, g)
  | file :: files, g => do
    match ← spParseConfig e file g with
    | (true, g) => parseFiles files g
    | (false, g) => pure (false, g)

/-- The patterns of `sp.configuration_file`. -/
def parsePatterns : List ZendString → SpGlobals → Sp (Bool × SpGlobals)
  | [], g => pure (true, g)
  | configFile :: patterns, g =>
    match e.glob configFile with
    | none => do
      spLogErr e.world (loading g) "config" "Could not expand configuration file pattern %s" [configFile]
      pure (false, g)
    | some files => do
      match ← parseFiles e files g with
      | (true, g) => parsePatterns patterns g
      | (false, g) => pure (false, g)

/-! ### Taking back an earlier load -/

/-- `sp_free_config`. -/
def spFreeConfig (g : SpGlobals) : SpGlobals :=
  { g with
    stores := {}
    ini := {}
    cookies := []
    eval := {}
    wrapper := {}
    unserialize := {}
    unserializeNoclass := {}
    readonlyExec := { extendedChecks := false }
    uploadValidation := {}
    encryptionKey := none
    cookiesEnvVar := none
    logMedia := {}
    random := false
    sloppy := false
    autoCookieSecure := false
    globalStrict := false
    xxeProtection := false
    session := {}
    logMaxLen := 255
    configFilename := none
    configLineno := 0
    configParsing := false
    maxExecutionDepth := 0
    serverEncode := false
    serverStrip := false
    hookExecute := false }

/-- `sp_config_failed`: the location of the error is all that is left. -/
def spConfigFailed (g : SpGlobals) : Sp SpGlobals := do
  let freed := { spFreeConfig g with configFilename := g.configFilename, configLineno := g.configLineno }
  if freed.allowBrokenConfiguration then do
    spLogWarn e.world (loading freed) "config"
      "Invalid configuration; all Snuffleupagus protections are disabled" []
    pure freed
  else pure freed

/-- The directives without the hooks of the module. -/
def unhookedDirectives (m : SpModule) : IniDirectives :=
  if m.globals.ini.enable then (spUnhookIni m.globals.ini.entries m.directives).directives
  else m.directives

/-- What `sp_load_config` does first, if there has been a load before. -/
def resetModule (m : SpModule) : SpModule :=
  if m.isConfigValid = .none then m
  else { m with directives := unhookedDirectives m, hooks := resetHooks m.hooks
                globals := spFreeConfig m.globals }

/-! ### Starting the hooks -/

/-- The directive that selects the save handler of the sessions. -/
def saveHandler : ZendString := zstr "session.save_handler"

/-- `hook_session`, as far as the directive goes. -/
def hookSession (m : SpModule) : Sp SpModule :=
  if !p.moduleRegistry (zstr "session") then do
    spLogErr e.world (loading m.globals) "session"
      "You are trying to use session encryption or session ID restrictions, but your PHP installation has no session support. Please install the PHP session module or recompile PHP with session support." []
    pure m
  else if m.oldOnUpdateSaveHandler.isSome then pure m
  else
    match m.directives.find? saveHandler with
    | none => pure m
    | some ini =>
      pure { m with oldOnUpdateSaveHandler := ini.onModify
                    directives := m.directives.insert saveHandler
                      { ini with onModify := some .spOnUpdateSaveHandler } }

/-- The warning of `hook_libxml_disable_entity_loader`. -/
def checkXmlModule (g : SpGlobals) : Sp Unit :=
  if g.xxeProtection && !p.moduleRegistry (zstr "xml") then
    spLogWarn e.world (loading g) "xxe" "Cannot enable XXE protection. XML support is disabled in PHP." []
  else pure ()

/-- `hook_stream_wrappers`, as far as the wrappers go. -/
def startWrappers (m : SpModule) : Sp SpModule :=
  if m.globals.wrapper.enabled then do
    let wrappers ← spReregisterPhpWrapper e.world (loading m.globals) m.wrappers
    pure { m with wrappers := wrappers }
  else pure m

/-- `hook_session`, if there is something to do for it. -/
def startSession (m : SpModule) : Sp SpModule :=
  if m.globals.session.encrypt || m.globals.session.sidMinLength ≠ 0 ||
      m.globals.session.sidMaxLength ≠ 0 then hookSession p e m
  else pure m

/-- `sp_hook_ini`, if there is a rule for it. -/
def startIni (m : SpModule) : Sp SpModule :=
  if m.globals.ini.enable then do
    let t ← spHookIni e.world (loading m.globals) e.accepts m.globals.ini m.directives
    pure { m with directives := t.directives
                  globals := onIni (fun c => { c with entries := t.entries }) m.globals }
  else pure m

/-- There are rules on `echo`. -/
def hasEchoRules (s : Stores) : Bool :=
  (s.disabledFunctionsHooked.find? (.str (zstr "echo"))).isSome ||
    (s.disabledFunctionsRetHooked.find? (.str (zstr "echo"))).isSome

/-- The end of `sp_load_config`: the rules on functions, `echo`, and `SPG(hook_execute)`. -/
def startRules (m : SpModule) : Sp SpModule := do
  let (stores, hooks) ← hookDisabledFunctions e.world (loading m.globals) m.globals.stores m.hooks
  pure { m with hooks := hooks
                globals := Execute.Handler.loadedGlobals m.globals stores
                echoHooked := m.echoHooked || hasEchoRules stores }

/-- The hooks `sp_load_config` starts. Those of functions are in the order of the source; they are set
before anything else, which nothing else reads. -/
def startHooks (m : SpModule) : Sp SpModule := do
  let m := { m with hooks := hookFeatures e.world m.globals m.hooks }
  checkXmlModule p e m.globals
  let m ← startWrappers e m
  let m ← startSession p e m
  let m ← startIni e m
  startRules e m

/-! ### The load -/

/-- The configuration is only printed. -/
def dumps : Bool := p.sapiName == zstr "cli" && p.spDumpConfig

/-- The configuration the files are read into. -/
def defaults (g : SpGlobals) : SpGlobals :=
  { g with readonlyExec := { g.readonlyExec with extendedChecks := true } }

/-- `sp_load_config`. -/
def spLoadConfig (newValue : ZendString) (m : SpModule) : Sp (Bool × SpModule) := do
  let m := resetModule m
  match ← parsePatterns e ((cstr newValue).splitOn 44) (defaults m.globals) with
  | (false, g) => do
    let g ← spConfigFailed e g
    pure (false, { m with globals := g, isConfigValid := .invalid })
  | (true, g) =>
    let m := { m with globals := g, isConfigValid := .valid }
    if dumps p then pure (true, m)
    else do
      let m ← startHooks p e m
      pure (true, m)

/-- `OnUpdateConfiguration`. -/
def onUpdateConfiguration (newValue : ZendString) (m : SpModule) : Sp (Bool × SpModule) :=
  if newValue = [] then pure (false, m) else spLoadConfig p e newValue m

/-- The request starts, as far as the wrappers go. -/
def filterWrappers (m : SpModule) : SpModule :=
  if m.globals.wrapper.enabled && decide (m.wrappers.entries.length ≠ m.globals.wrapper.numWrapper) then
    { m with wrappers := spDisableWrapper m.globals m.wrappers
             globals := Config.Features.onWrapper (fun c => { c with numWrapper :=
               (spDisableWrapper m.globals m.wrappers).entries.length }) m.globals }
  else m

/-- The counters of the request. -/
def resetCounters (m : SpModule) : SpModule :=
  { m with globals := { m.globals with executionDepth := 0, inEval := 0 } }

/-- `PHP_RINIT_FUNCTION`, as far as the module goes: what becomes of the cookies, and of the request, is
another matter. The error about an invalid configuration ends the request, so that `config_parsing` stays
set. -/
def rinitModule (m : SpModule) : SpModule :=
  let m := resetCounters m
  if m.isConfigValid = .invalid then
    if m.globals.allowBrokenConfiguration then m
    else { m with globals := { m.globals with configParsing := true } }
  else if !m.globals.allowBrokenConfiguration && decide (m.isConfigValid = .none) then m
  else filterWrappers m

/-! ### A configuration of given rules -/

/-- A keyword: without parentheses, with nothing in them, or with an argument. -/
def keyword (kw : String) : SpParsedKeyword := { kw := zstr kw }

@[inherit_doc keyword]
def emptyKeyword (kw : String) : SpParsedKeyword := { kw := zstr kw, arg := some [], argtype := .empty }

@[inherit_doc keyword]
def strKeyword (kw arg : String) : SpParsedKeyword :=
  { kw := zstr kw, arg := some (zstr arg), argtype := .str }

/-- An environment in which every file holds the rules `rules`. -/
def ofRules (rules : List (List SpParsedKeyword)) : Environment where
  world := World.empty 80000
  glob file := some [file]
  read _ := .ok []
  access _ := true
  scan _ _ := { statements := rules.map .rule }
  accepts _ _ _ := true

/-- A process of the command line with all modules. -/
def cliProcess : PhpProcess := ⟨zstr "cli", false, fun _ => true⟩

end Snuffleupagus.Load.Module
