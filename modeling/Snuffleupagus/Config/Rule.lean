import Snuffleupagus.Php.Engine

/-! # Rules and module globals

The data of `sp_config.h`, `sp_tree.h` and `php_snuffleupagus.h`. Pointers that may be `NULL` are
options, and a list that is `NULL` is empty: no list of the configuration is ever allocated without
an element. A compiled regular expression is its pattern, a parsed variable path a `SpTree`. -/

namespace Snuffleupagus.Config.Rule

open Snuffleupagus.Lib.Table Snuffleupagus.Php.Bytes Snuffleupagus.Php.Value
open Snuffleupagus.Php.Engine

/-- `elem_type`. -/
inductive ElemType
  | undefined | object | array | arrayEnd | interpretedString | literalString | classConst | var | constant
  deriving DecidableEq

/-- `sp_tree`: the elements of a variable path, each with its index. `nil` is the null pointer. -/
inductive SpTree
  | nil
  | node (type : ElemType) (value : ZendString) (idx next : SpTree)
  deriving DecidableEq

/-- `sp_regexp`. -/
structure SpRegexp where
  pattern : ZendString
  deriving DecidableEq

/-- A network address, in network order. -/
inductive SpIp
  | v4 (addr : BitVec 32)
  | v6 (addr : BitVec 128)
  deriving DecidableEq

/-- `sp_cidr`. -/
structure SpCidr where
  ip : SpIp
  mask : ℕ
  deriving DecidableEq

/-- `sp_disabled_function`: one rule. The type filters are off at `undef`, `line` is off at `0` and
`pos` at `-1`. -/
structure SpDisabledFunction where
  textualRepresentation : ZendString := []
  filename : Option ZendString := none
  rFilename : Option SpRegexp := none
  function : Option ZendString := none
  rFunction : Option SpRegexp := none
  functionsList : List ZendString := []
  hash : Option ZendString := none
  simulation : Bool := false
  param : SpTree := .nil
  rParam : Option SpRegexp := none
  paramType : ZType := .undef
  pos : ℤ := -1
  line : ℕ := 0
  rRet : Option SpRegexp := none
  ret : Option ZendString := none
  retType : ZType := .undef
  rValue : Option SpRegexp := none
  value : Option ZendString := none
  rKey : Option SpRegexp := none
  key : Option ZendString := none
  dump : Option ZendString := none
  «alias» : Option ZendString := none
  allow : Bool := false
  var : SpTree := .nil
  cidr : Option SpCidr := none
  deriving DecidableEq

/-- The rules kept under the functions they are about. -/
abbrev RuleTable := OrdTable HashKey (List SpDisabledFunction)

/-- Where log lines go. -/
inductive SpLogMediaType
  | zend | syslog | file
  deriving DecidableEq

/-- `sp_config_log`. -/
structure SpConfigLog where
  type : SpLogMediaType := .zend
  path : ZendString := []

/-- `sp_config_unserialize`. -/
structure SpConfigUnserialize where
  enable : Bool := false
  simulation : Bool := false
  dump : Option ZendString := none
  textualRepresentation : ZendString := []

/-- `sp_config_unserialize_noclass`. -/
structure SpConfigUnserializeNoclass where
  enable : Bool := false
  textualRepresentation : ZendString := []

/-- `sp_config_readonly_exec`. -/
structure SpConfigReadonlyExec where
  enable : Bool := false
  simulation : Bool := false
  extendedChecks : Bool := true
  dump : Option ZendString := none
  textualRepresentation : ZendString := []

/-- `sp_config_eval`. -/
structure SpConfigEval where
  blacklist : List ZendString := []
  whitelist : List ZendString := []
  simulation : Bool := false
  dump : Option ZendString := none
  textualRepresentation : ZendString := []

/-- `sp_cookie.samesite`. -/
inductive SamesiteType
  | unset | strict | lax
  deriving DecidableEq

/-- `sp_cookie`: a rule on the cookies of a name, or of the names that match a pattern. -/
structure SpCookie where
  samesite : SamesiteType := .unset
  encrypt : Bool := false
  name : Option ZendString := none
  nameR : Option SpRegexp := none
  simulation : Bool := false
  deriving DecidableEq

/-- `sp_config_wrapper`. -/
structure SpConfigWrapper where
  whitelist : List ZendString := []
  phpStreamAllowlist : List ZendString := []
  enabled : Bool := false
  numWrapper : ℕ := 0

/-- `sp_config_session`. -/
structure SpConfigSession where
  encrypt : Bool := false
  simulation : Bool := false
  sidMinLength : ℕ := 0
  sidMaxLength : ℕ := 0

/-- `sp_config_upload_validation`. -/
structure SpConfigUploadValidation where
  script : Option ZendString := none
  simulation : Bool := false
  enable : Bool := false

/-- `sp_ini_permission`. -/
inductive SpIniPermission
  | unset | readonly | readwrite
  deriving DecidableEq

/-- An `on_modify` handler of an INI directive: one of PHP or of an extension, or one of the module's. -/
inductive IniHandler
  | php (id : ℕ)
  | spIniOnmodify
  | spOnUpdateSaveHandler
  deriving DecidableEq

/-- `sp_ini_entry`. -/
structure SpIniEntry where
  key : ZendString
  access : SpIniPermission := .unset
  min : Option ZendString := none
  max : Option ZendString := none
  regexp : Option SpRegexp := none
  msg : Option ZendString := none
  set : Option ZendString := none
  allowNull : Bool := false
  simulation : Bool := false
  drop : Bool := false
  origOnmodify : Option IniHandler := none
  deriving DecidableEq

/-- `sp_config_ini`. -/
structure SpConfigIni where
  enable : Bool := false
  simulation : Bool := false
  policyReadonly : Bool := false
  policySilentRo : Bool := false
  policySilentFail : Bool := false
  policyDrop : Bool := false
  entries : OrdTable ZendString SpIniEntry := .empty

/-- `SP_CONFIG_VALID`, `SP_CONFIG_INVALID`, `SP_CONFIG_NONE`. -/
inductive ConfigStatus
  | valid | invalid | none
  deriving DecidableEq

/-- **The six stores** of `disable_function` rules. -/
structure Stores where
  disabledFunctions : RuleTable := .empty
  disabledFunctionsHooked : RuleTable := .empty
  disabledFunctionsRet : RuleTable := .empty
  disabledFunctionsRetHooked : RuleTable := .empty
  disabledFunctionsReg : List SpDisabledFunction := []
  disabledFunctionsRegRet : List SpDisabledFunction := []

/-- The module globals: the configuration (`SPCFG`), what is known of its last load, and the counters
of the running request. -/
structure SpGlobals where
  logMedia : SpConfigLog := {}
  logMaxLen : ℕ := 255
  maxExecutionDepth : ℕ := 0
  encryptionKey : Option ZendString := none
  sloppy : Bool := false
  unserialize : SpConfigUnserialize := {}
  unserializeNoclass : SpConfigUnserializeNoclass := {}
  readonlyExec : SpConfigReadonlyExec := {}
  eval : SpConfigEval := {}
  stores : Stores := {}
  random : Bool := false
  globalStrict : Bool := false
  autoCookieSecure : Bool := false
  xxeProtection : Bool := false
  uploadValidation : SpConfigUploadValidation := {}
  cookies : List SpCookie := []
  wrapper : SpConfigWrapper := {}
  session : SpConfigSession := {}
  ini : SpConfigIni := {}
  serverEncode : Bool := false
  serverStrip : Bool := false
  cookiesEnvVar : Option ZendString := none
  hookExecute : Bool := false
  allowBrokenConfiguration : Bool := false
  configFilename : Option ZendString := none
  configLineno : ℕ := 0
  configParsing : Bool := false
  configNonfatal : Bool := false
  inEval : ℕ := 0
  executionDepth : ℕ := 0
  evalSourceString : ZendString := []

end Snuffleupagus.Config.Rule
