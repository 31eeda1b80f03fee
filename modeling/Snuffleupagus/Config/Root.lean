import Snuffleupagus.Config.Features

/-! # Rules with data of their own, and the table of all parsers

A rule on cookies, on a function or on an INI directive is built in a local variable and only put into
the configuration when it has been accepted as a whole. -/

namespace Snuffleupagus.Config.Root

open Snuffleupagus.Lib.Attempts Snuffleupagus.Lib.Table Snuffleupagus.Php.Bytes
open Snuffleupagus.Php.Engine Snuffleupagus.Config.Rule
open Snuffleupagus.Config.Keyword hiding spProcessRule
open Snuffleupagus.Config.Parser Snuffleupagus.Config.Features Snuffleupagus.Hook.Stores

/-! ### Cookies -/

/-- The variables of `parse_cookie`. -/
structure CookieState where
  cookie : SpCookie := {}
  samesite : Option ZendString := none

/-- Write to the cookie. -/
def CookieState.onCookie (f : SpCookie → SpCookie) (s : CookieState) : CookieState :=
  { s with cookie := f s.cookie }

/-- The keywords of `parse_cookie`. -/
def cookieKeywords (w : World) : List (ZendString × SpParseFn CookieState) :=
  [(zstr "name", parseStr (·.cookie.name) fun v => CookieState.onCookie fun c => { c with name := some v }),
    (zstr "name_r", parseRegexp w (·.cookie.nameR) fun v =>
      CookieState.onCookie fun c => { c with nameR := some v }),
    (zstr "samesite", parseStr (·.samesite) fun v s => { s with samesite := some v }),
    (zstr "encrypt", parseEmpty (CookieState.onCookie fun c => { c with encrypt := true })),
    (zstr "simulation", parseEmpty (CookieState.onCookie fun c => { c with simulation := true })),
    (zstr "sim", parseEmpty (CookieState.onCookie fun c => { c with simulation := true }))]

/-- The tests of `parse_cookie`, before `samesite` is looked at. -/
def checkCookie (g : SpGlobals) (parsedRule : SpParsedKeyword) (s : CookieState) :
    Attempt ConfigError SpGlobals Unit :=
  let position := [parsedRule.filename, decimal parsedRule.lineno]
  if s.cookie.encrypt && g.cookiesEnvVar.isNone then
    refuse "You're trying to use the cookie encryption feature in %s:%zu without having set the `.cookie_env_var` option in `sp.global`: please set it first"
      position
  else if s.cookie.encrypt && g.encryptionKey.isNone then
    refuse "You're trying to use the cookie encryption feature in %s:%zu without having set the `.secret_key` option in `sp.global`: please set it first"
      position
  else if !s.cookie.encrypt && s.samesite.isNone then
    refuse "You must specify a at least one action to a cookie in %s:%zu" position
  else if (s.cookie.name.getD []).isEmpty && s.cookie.nameR.isNone then
    refuse "You must specify a cookie name/regexp in %s:%zu" position
  else if s.cookie.name.isSome && s.cookie.nameR.isSome then
    refuse "name and name_r are mutually exclusive in %s:%zu" position
  else pure ()

/-- The value of `samesite`. -/
def parseSamesite (parsedRule : SpParsedKeyword) (samesite : Option ZendString) :
    Attempt ConfigError SpGlobals SamesiteType :=
  match samesite with
  | none => pure .unset
  | some value =>
    if equalsCi value (zstr "Lax") then pure .lax
    else if equalsCi value (zstr "Strict") then pure .strict
    else
      refuse "'%s' is an invalid value to samesite (expected Lax or Strict) in %s:%zu"
        [cstr value, parsedRule.filename, decimal parsedRule.lineno]

/-- Two rules about the same name, or the same pattern. -/
def sameCookie (entry cookie : SpCookie) : Bool :=
  (entry.name.isSome && entry.name == cookie.name) || (entry.nameR.isSome && entry.nameR == cookie.nameR)

/-- The settings of a rule override those of an earlier one, where it has any. -/
def overrideCookie (entry cookie : SpCookie) : SpCookie :=
  { entry with
    samesite := if cookie.samesite ≠ .unset then cookie.samesite else entry.samesite
    encrypt := if cookie.encrypt then cookie.encrypt else entry.encrypt
    simulation := if cookie.simulation then cookie.simulation else entry.simulation }

/-- The first rule about the same cookies is overridden; if there is none, the rule is appended. -/
def mergeCookie (cookie : SpCookie) : List SpCookie → List SpCookie
  | [] => [cookie]
  | entry :: cookies =>
    if sameCookie entry cookie then overrideCookie entry cookie :: cookies
    else entry :: mergeCookie cookie cookies

/-- `parse_cookie`. -/
def parseCookie (w : World) : SpParser SpGlobals := fun _ parsedRule rule => do
  let s ← spProcessConfigKeywords parsedRule rule {} ((cookieKeywords w).map (Prod.map id onLocals))
  let g ← get
  checkCookie g parsedRule s
  let samesite ← parseSamesite parsedRule s.samesite
  modify fun g => { g with cookies := mergeCookie { s.cookie with samesite := samesite } g.cookies }
  pure .stop

/-! ### Functions -/

/-- `parse_disabled_functions`: the keywords are gone through once for the line they stop at. -/
def parseDisabledFunctions (w : World) : SpParser SpGlobals := fun _ parsedRule rule => do
  let _ ← spProcessConfigKeywords parsedRule rule {}
    ((Config.DisabledFunctions.configKeywords w).map (Prod.map id onLocals))
  match ← ofAnswer (Config.DisabledFunctions.parseDisabledFunctions w parsedRule rule) with
  | none => pure .stop
  | some df => do
    modify fun g => { g with stores := insertRule g.stores df }
    pure .stop

/-! ### Uploads -/

/-- Write to `config_upload_validation`. -/
def onUpload (f : SpConfigUploadValidation → SpConfigUploadValidation) (g : SpGlobals) : SpGlobals :=
  { g with uploadValidation := f g.uploadValidation }

/-- The keywords of `parse_upload_validation`. -/
def uploadKeywords : SpConfigKeywords (Flags × SpGlobals) :=
  enableDisable ++
  [(zstr "script", leaf (parseStr (·.2.uploadValidation.script) fun v =>
      toGlobals (onUpload fun c => { c with script := some v }))),
    (zstr "simulation", leaf (parseEmpty (toGlobals (onUpload fun c => { c with simulation := true })))),
    (zstr "sim", leaf (parseEmpty (toGlobals (onUpload fun c => { c with simulation := true }))))]

/-- `parse_upload_validation`; `access` tells whether a file exists. -/
def parseUploadValidation (access : ZendString → Bool) : SpParser SpGlobals :=
  fun token parsedRule rule => do
    let f ← spProcessConfigKeywords parsedRule rule {} uploadKeywords
    spSetEnableDisable parsedRule f fun b => onUpload fun c => { c with enable := b }
    let g ← get
    match g.uploadValidation.script with
    | none =>
      refuse "The `script` directive is mandatory in '.%s' on line %zu" [token, decimal parsedRule.lineno]
    | some script =>
      if access (cstr script) then pure .stop
      else
        refuse "The `script` (%s) doesn't exist on line %zu" [cstr script, decimal parsedRule.lineno]

/-! ### INI directives -/

/-- Write to `config_ini`. -/
def onIni (f : SpConfigIni → SpConfigIni) (g : SpGlobals) : SpGlobals := { g with ini := f g.ini }

/-- The keywords of `parse_ini_protection`. -/
def iniKeywords : SpConfigKeywords (Flags × SpGlobals) :=
  enableDisable ++
  [(zstr "simulation", leaf (parseEmpty (toGlobals (onIni fun c => { c with simulation := true })))),
    (zstr "sim", leaf (parseEmpty (toGlobals (onIni fun c => { c with simulation := true })))),
    (zstr "policy_readonly", leaf (parseEmpty (toLocals fun f => { f with ro := true }))),
    (zstr "policy_ro", leaf (parseEmpty (toLocals fun f => { f with ro := true }))),
    (zstr "policy_readwrite", leaf (parseEmpty (toLocals fun f => { f with rw := true }))),
    (zstr "policy_rw", leaf (parseEmpty (toLocals fun f => { f with rw := true }))),
    (zstr "policy_silent_ro", leaf (parseEmpty (toGlobals (onIni fun c => { c with policySilentRo := true })))),
    (zstr "policy_silent_fail", leaf (parseEmpty (toGlobals (onIni fun c => { c with policySilentFail := true })))),
    (zstr "policy_no_log", leaf (parseEmpty (toGlobals (onIni fun c => { c with policySilentFail := true })))),
    (zstr "policy_drop", leaf (parseEmpty (toGlobals (onIni fun c => { c with policyDrop := true }))))]

/-- A rule that is both read-only and read-write. -/
def refuseRoRw {α : Type} (parsedRule : SpParsedKeyword) : Attempt ConfigError SpGlobals α :=
  refuse "rule cannot be both read-write and read-only on line %zu" [decimal parsedRule.lineno]

/-- `parse_ini_protection`. -/
def parseIniProtection : SpParser SpGlobals := fun _ parsedRule rule => do
  let f ← spProcessConfigKeywords parsedRule rule {} iniKeywords
  spSetEnableDisable parsedRule f fun b => onIni fun c => { c with enable := b }
  if f.ro && f.rw then refuseRoRw parsedRule
  else do
    modify (onIni fun c => { c with policyReadonly := f.ro })
    let g ← get
    if g.ini.policySilentFail && g.ini.policyDrop then
      refuse "policy cannot be drop and silent at the same time on line %zu" [decimal parsedRule.lineno]
    else pure .stop

/-- The variables of `parse_ini_entry`; the key of the entry is kept apart until it is there. -/
structure IniEntryState where
  key : Option ZendString := none
  entry : SpIniEntry := { key := [] }
  ro : Bool := false
  rw : Bool := false

/-- Write to the entry. -/
def IniEntryState.onEntry (f : SpIniEntry → SpIniEntry) (s : IniEntryState) : IniEntryState :=
  { s with entry := f s.entry }

/-- The keywords of `parse_ini_entry`. -/
def iniEntryKeywords (w : World) : List (ZendString × SpParseFn IniEntryState) :=
  [(zstr "simulation", parseEmpty (IniEntryState.onEntry fun e => { e with simulation := true })),
    (zstr "sim", parseEmpty (IniEntryState.onEntry fun e => { e with simulation := true })),
    (zstr "key", parseStr (·.key) fun v s => { s with key := some v }),
    (zstr "msg", parseStr (·.entry.msg) fun v => IniEntryState.onEntry fun e => { e with msg := some v }),
    (zstr "set", parseStr (·.entry.set) fun v => IniEntryState.onEntry fun e => { e with set := some v }),
    (zstr "min", parseStr (·.entry.min) fun v => IniEntryState.onEntry fun e => { e with min := some v }),
    (zstr "max", parseStr (·.entry.max) fun v => IniEntryState.onEntry fun e => { e with max := some v }),
    (zstr "regexp", parseRegexp w (·.entry.regexp) fun v =>
      IniEntryState.onEntry fun e => { e with regexp := some v }),
    (zstr "readonly", parseEmpty fun s => { s with ro := true }),
    (zstr "ro", parseEmpty fun s => { s with ro := true }),
    (zstr "readwrite", parseEmpty fun s => { s with rw := true }),
    (zstr "rw", parseEmpty fun s => { s with rw := true }),
    (zstr "drop", parseEmpty (IniEntryState.onEntry fun e => { e with drop := true })),
    (zstr "allow_null", parseEmpty (IniEntryState.onEntry fun e => { e with allowNull := true }))]

/-- `ro - rw`. -/
def iniPermission (ro rw : Bool) : SpIniPermission :=
  if ro then .readonly else if rw then .readwrite else .unset

/-- `parse_ini_entry`. -/
def parseIniEntry (w : World) : SpParser SpGlobals := fun _ parsedRule rule => do
  let s ← spProcessConfigKeywords parsedRule rule {} ((iniEntryKeywords w).map (Prod.map id onLocals))
  let g ← get
  match s.key with
  | none => refuse "A .key() must be provided on line %zu" [decimal parsedRule.lineno]
  | some key =>
    if (g.ini.entries.find? key).isSome then
      refuse "duplicate INI key '%s' on line %zu" [cstr key, decimal parsedRule.lineno]
    else if s.ro && s.rw then refuseRoRw parsedRule
    else do
      modify (onIni fun c => { c with
        entries := c.entries.insert key { s.entry with key := key, access := iniPermission s.ro s.rw } })
      pure .stop

/-! ### All features -/

/-- The table of `sp_process_config_root`. -/
def rootKeywords (w : World) (access : ZendString → Bool) : SpConfigKeywords SpGlobals :=
  [(zstr "unserialize_hmac", parseUnserialize),
    (zstr "unserialize_noclass", parseUnserializeNoclass),
    (zstr "harden_random", parseEnable fun b g => { g with random := b }),
    (zstr "log_media", parseLogMedia),
    (zstr "log_max_len", parseUintTo fun n g => { g with logMaxLen := n }),
    (zstr "disable_function", parseDisabledFunctions w),
    (zstr "readonly_exec", parseReadonlyExec),
    (zstr "global_strict", parseEnable fun b g => { g with globalStrict := b }),
    (zstr "upload_validation", parseUploadValidation access),
    (zstr "cookie", parseCookie w),
    (zstr "global", parseGlobal),
    (zstr "auto_cookie_secure", parseEnable fun b g => { g with autoCookieSecure := b }),
    (zstr "xxe_protection", parseEnable fun b g => { g with xxeProtection := b }),
    (zstr "eval_blacklist", parseEvalFilterConf (·.blacklist) fun v c => { c with blacklist := v }),
    (zstr "eval_whitelist", parseEvalFilterConf (·.whitelist) fun v c => { c with whitelist := v }),
    (zstr "session", parseSession),
    (zstr "sloppy_comparison", parseEnable fun b g => { g with sloppy := b }),
    (zstr "wrappers_whitelist", parseWrapperWhitelist),
    (zstr "ini_protection", parseIniProtection),
    (zstr "ini", parseIniEntry w)]

/-- `sp_process_config_root`. -/
def spProcessConfigRoot (w : World) (access : ZendString → Bool) (parsedRule : List SpParsedKeyword) :
    Attempt ConfigError SpGlobals Unit :=
  spProcessRule atLine (rootKeywords w access) parsedRule

end Snuffleupagus.Config.Root
