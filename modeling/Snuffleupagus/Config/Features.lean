import Snuffleupagus.Config.Parser
import Snuffleupagus.Hook.Stores

/-! # The parsers of the features

One parser for each feature, and the table of all of them (`spProcessConfigRoot`). -/

namespace Snuffleupagus.Config.Features

open Snuffleupagus.Lib.Attempts Snuffleupagus.Lib.Table Snuffleupagus.Php.Bytes
open Snuffleupagus.Php.Engine Snuffleupagus.Config.Rule
open Snuffleupagus.Config.Keyword hiding spProcessRule
open Snuffleupagus.Config.Parser

/-- `sp_log_err` in a parser that then fails. -/
def refuse {σ α : Type} (fmt : String) (args : List ZendString) : Attempt ConfigError σ α :=
  throw { fmt := fmt, args := args }

/-! ### Features with a few switches -/

/-- Write to `config_session`. -/
def onSession (f : SpConfigSession → SpConfigSession) (g : SpGlobals) : SpGlobals :=
  { g with session := f g.session }

/-- The keywords of `parse_session`. -/
def sessionKeywords : SpConfigKeywords (Unit × SpGlobals) :=
  [(zstr "encrypt", leaf (parseEmpty (toGlobals (onSession fun c => { c with encrypt := true })))),
    (zstr "simulation", leaf (parseEmpty (toGlobals (onSession fun c => { c with simulation := true })))),
    (zstr "sim", leaf (parseEmpty (toGlobals (onSession fun c => { c with simulation := true })))),
    (zstr "sid_min_length", parseUlong fun n => toGlobals (onSession fun c => { c with sidMinLength := n })),
    (zstr "sid_max_length", parseUlong fun n => toGlobals (onSession fun c => { c with sidMaxLength := n }))]

/-- `parse_session`. -/
def parseSession : SpParser SpGlobals := fun _ parsedRule rule => do
  spProcessConfigKeywords parsedRule rule () sessionKeywords
  let g ← get
  if g.session.encrypt && g.cookiesEnvVar.isNone then
    refuse "You're trying to use the session cookie encryption feature in %s:%zu without having set the `.cookie_env_var` option in `sp.global`: please set it first"
      [parsedRule.filename, decimal parsedRule.lineno]
  else if g.session.encrypt && g.encryptionKey.isNone then
    refuse "You're trying to use the session cookie encryption feature in %s:%zu without having set the `.secret_key` option in `sp.global`: please set it first"
      [parsedRule.filename, decimal parsedRule.lineno]
  else pure .stop

/-- `parse_log_media`: the old path is forgotten first. -/
def parseLogMedia : SpParser SpGlobals := fun token kw _ => do
  modify fun g => { g with logMedia := { g.logMedia with path := [] } }
  let value ← ofAnswer (spParseArg token kw)
  if cstr value = zstr "php" then do
    modify fun g => { g with logMedia := { g.logMedia with type := .zend } }
    pure .stop
  else if cstr value = zstr "syslog" then do
    modify fun g => { g with logMedia := { g.logMedia with type := .syslog } }
    pure .stop
  else if (zstr "file:").isPrefixOf (cstr value) then do
    modify fun g => { g with logMedia := ⟨.file, (cstr value).drop 5⟩ }
    pure .stop
  else
    refuse ".log_media() only supports 'syslog', 'file:' or 'php' in %s:%zu, got '%s' instead"
      [kw.filename, decimal kw.lineno, cstr value]

/-- `parse_unserialize_noclass`. -/
def parseUnserializeNoclass : SpParser SpGlobals := fun _ parsedRule rule => do
  let f ← spProcessConfigKeywords parsedRule rule {} enableDisable
  spSetEnableDisable parsedRule f fun b g =>
    { g with unserializeNoclass := { g.unserializeNoclass with enable := b } }
  modify fun g => { g with unserializeNoclass :=
    { g.unserializeNoclass with textualRepresentation := spGetTextualRepresentation (parsedRule :: rule) } }
  pure .stop

/-- Write to `config_unserialize`. -/
def onUnserialize (f : SpConfigUnserialize → SpConfigUnserialize) (g : SpGlobals) : SpGlobals :=
  { g with unserialize := f g.unserialize }

/-- The keywords of `parse_unserialize`. -/
def unserializeKeywords : SpConfigKeywords (Flags × SpGlobals) :=
  enableDisable ++
  [(zstr "simulation", leaf (parseEmpty (toGlobals (onUnserialize fun c => { c with simulation := true })))),
    (zstr "sim", leaf (parseEmpty (toGlobals (onUnserialize fun c => { c with simulation := true })))),
    (zstr "dump", leaf (parseStr (·.2.unserialize.dump) fun v =>
      toGlobals (onUnserialize fun c => { c with dump := some v })))]

/-- `parse_unserialize`. -/
def parseUnserialize : SpParser SpGlobals := fun _ parsedRule rule => do
  let f ← spProcessConfigKeywords parsedRule rule {} unserializeKeywords
  spSetEnableDisable parsedRule f fun b => onUnserialize fun c => { c with enable := b }
  modify (onUnserialize fun c =>
    { c with textualRepresentation := spGetTextualRepresentation (parsedRule :: rule) })
  pure .stop

/-- Write to `config_readonly_exec`. -/
def onReadonlyExec (f : SpConfigReadonlyExec → SpConfigReadonlyExec) (g : SpGlobals) : SpGlobals :=
  { g with readonlyExec := f g.readonlyExec }

/-- The keywords of `parse_readonly_exec`. -/
def readonlyExecKeywords : SpConfigKeywords (Flags × SpGlobals) :=
  enableDisable ++
  [(zstr "simulation", leaf (parseEmpty (toGlobals (onReadonlyExec fun c => { c with simulation := true })))),
    (zstr "sim", leaf (parseEmpty (toGlobals (onReadonlyExec fun c => { c with simulation := true })))),
    (zstr "dump", leaf (parseStr (·.2.readonlyExec.dump) fun v =>
      toGlobals (onReadonlyExec fun c => { c with dump := some v }))),
    (zstr "extended_checks", leaf (parseEmpty (toLocals fun f => { f with xchecks := true }))),
    (zstr "xchecks", leaf (parseEmpty (toLocals fun f => { f with xchecks := true }))),
    (zstr "no_extended_checks", leaf (parseEmpty (toLocals fun f => { f with noXchecks := true }))),
    (zstr "noxchecks", leaf (parseEmpty (toLocals fun f => { f with noXchecks := true })))]

/-- `parse_readonly_exec`. -/
def parseReadonlyExec : SpParser SpGlobals := fun _ parsedRule rule => do
  let f ← spProcessConfigKeywords parsedRule rule {} readonlyExecKeywords
  modify (onReadonlyExec fun c =>
    { c with textualRepresentation := spGetTextualRepresentation (parsedRule :: rule) })
  spSetEnableDisable parsedRule f fun b => onReadonlyExec fun c => { c with enable := b }
  modify (onReadonlyExec fun c =>
    { c with extendedChecks := if f.xchecks then true else if f.noXchecks then false else c.extendedChecks })
  pure .stop

/-! ### Global options -/

/-- The keys nobody has changed. -/
def dummyKeys : List ZendString :=
  [zstr "YOU _DO_ NEED TO CHANGE THIS WITH SOME RANDOM CHARACTERS.",
    zstr "c6a0e02b3b818f7559d5f85303d8fe44"]

/-- `log_max_len`. -/
def logMaxLen {ℓ : Type} : SpParser (ℓ × SpGlobals) :=
  parseUintTo fun n => toGlobals fun g => { g with logMaxLen := n }

/-- The keywords of `parse_global`. -/
def globalKeywords : SpConfigKeywords (Unit × SpGlobals) :=
  [(zstr "secret_key", leaf (parseStr (·.2.encryptionKey) fun v =>
      toGlobals fun g => { g with encryptionKey := some v })),
    (zstr "cookie_env_var", leaf (parseStr (·.2.cookiesEnvVar) fun v =>
      toGlobals fun g => { g with cookiesEnvVar := some v })),
    (zstr "log_media", onGlobals parseLogMedia),
    (zstr "log_max_len", logMaxLen),
    (zstr "max_execution_depth", parseUintTo fun n => toGlobals fun g => { g with maxExecutionDepth := n }),
    (zstr "server_encode", onGlobals (parseEnable fun b g => { g with serverEncode := b })),
    (zstr "server_strip", onGlobals (parseEnable fun b g => { g with serverStrip := b }))]

/-- `parse_global`. -/
def parseGlobal : SpParser SpGlobals := fun _ parsedRule rule => do
  spProcessConfigKeywords parsedRule rule () globalKeywords
  let g ← get
  match g.encryptionKey with
  | none => pure .stop
  | some key =>
    if key.length < 10 then
      refuse "The encryption key set in %s:%zu is too short. please use at least 10 bytes"
        [parsedRule.filename, decimal parsedRule.lineno]
    else if key ∈ dummyKeys then
      refuse "The encryption key set in %s:%zu is an unchanged dummy value. please use a unique secret."
        [parsedRule.filename, decimal parsedRule.lineno]
    else pure .stop

/-! ### Lists -/

/-- Write to `config_eval`. -/
def onEval (f : SpConfigEval → SpConfigEval) (g : SpGlobals) : SpGlobals := { g with eval := f g.eval }

/-- The keywords of `parse_eval_filter_conf`, for one of the two lists. -/
def evalKeywords (list : SpConfigEval → List ZendString)
    (setList : List ZendString → SpConfigEval → SpConfigEval) : SpConfigKeywords (Unit × SpGlobals) :=
  [(zstr "list", leaf (parseList (fun s => list s.2.eval) fun v => toGlobals (onEval (setList v)))),
    (zstr "simulation", leaf (parseEmpty (toGlobals (onEval fun c => { c with simulation := true })))),
    (zstr "sim", leaf (parseEmpty (toGlobals (onEval fun c => { c with simulation := true })))),
    (zstr "dump", leaf (parseStr (·.2.eval.dump) fun v =>
      toGlobals (onEval fun c => { c with dump := some v })))]

/-- `parse_eval_filter_conf`. -/
def parseEvalFilterConf (list : SpConfigEval → List ZendString)
    (setList : List ZendString → SpConfigEval → SpConfigEval) : SpParser SpGlobals :=
  fun _ parsedRule rule => do
    spProcessConfigKeywords parsedRule rule () (evalKeywords list setList)
    modify (onEval fun c =>
      { c with textualRepresentation := spGetTextualRepresentation (parsedRule :: rule) })
    pure .stop

/-- Write to `config_wrapper`. -/
def onWrapper (f : SpConfigWrapper → SpConfigWrapper) (g : SpGlobals) : SpGlobals :=
  { g with wrapper := f g.wrapper }

/-- The keywords of `parse_wrapper_whitelist`. -/
def wrapperKeywords : SpConfigKeywords (Unit × SpGlobals) :=
  [(zstr "list", leaf (parseList (·.2.wrapper.whitelist) fun v =>
      toGlobals (onWrapper fun c => { c with whitelist := v }))),
    (zstr "php_list", leaf (parseList (·.2.wrapper.phpStreamAllowlist) fun v =>
      toGlobals (onWrapper fun c => { c with phpStreamAllowlist := v })))]

/-- `parse_wrapper_whitelist`. -/
def parseWrapperWhitelist : SpParser SpGlobals := fun _ parsedRule rule => do
  spProcessConfigKeywords parsedRule rule () wrapperKeywords
  modify (onWrapper fun c => { c with enabled := true })
  pure .stop

end Snuffleupagus.Config.Features
