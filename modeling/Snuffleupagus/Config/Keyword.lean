import Snuffleupagus.Match.Network

/-! # Keywords of the configuration

A rule is a list of keywords with arguments, and `sp_process_rule` runs the parser of each keyword in
turn. A parser writes to the variable it has been given, so here it is a function on a state `σ`, with
accessors for that variable. An error is the line logged for it. -/

namespace Snuffleupagus.Config.Keyword

open Snuffleupagus.Php.Bytes Snuffleupagus.Php.Value Snuffleupagus.Php.Engine
open Snuffleupagus.Config.Rule Snuffleupagus.Match.Network

/-- What is logged when the configuration is refused. -/
structure ConfigError where
  feature : String := "config"
  fmt : String
  args : List ZendString

/-- `sp_argtype`. -/
inductive SpArgtype
  | unknown | none | empty | str
  deriving DecidableEq

/-- `sp_parsed_keyword`. -/
structure SpParsedKeyword where
  kw : ZendString
  arg : Option ZendString := none
  argtype : SpArgtype := .none
  lineno : ℕ := 1
  filename : ZendString := []

/-- The loop of `sp_get_arg_string`: a backslash is dropped and the byte behind it kept, at the end of
the argument the terminating NUL. -/
def unescape : ZendString → ZendString
  | [] => []
  | [c] => if c = 92 then [0] else [c]
  | c :: d :: s => if c = 92 then d :: unescape s else c :: unescape (d :: s)

/-- `sp_get_arg_string`. -/
def spGetArgString (kw : SpParsedKeyword) : Option ZendString := kw.arg.map unescape

/-- `sp_get_textual_representation`. -/
def spGetTextualRepresentation (rule : List SpParsedKeyword) : ZendString :=
  zstr "sp" ++ rule.flatMap (fun kw =>
    zstr "." ++ kw.kw ++
      match kw.argtype with
      | .none => []
      | .str => zstr "(" ++ (kw.arg.map fun a => zstr "\"" ++ a ++ zstr "\"").getD [] ++ zstr ")"
      | _ => zstr "()") ++ zstr ";"

/-- `SP_PARSER_SUCCESS` and `SP_PARSER_STOP`. -/
inductive ParserResult
  | success | stop
  deriving DecidableEq

/-- A parser of a keyword: its token, the keyword, and the state it writes to. -/
abbrev SpParseFn (σ : Type) :=
  ZendString → SpParsedKeyword → σ → Except ConfigError (ParserResult × σ)

variable {σ : Type}

/-- `sp_process_rule`. -/
def spProcessRule (configKeywords : List (ZendString × SpParseFn σ)) :
    List SpParsedKeyword → σ → Except ConfigError σ
  | [], s => .ok s
  | kw :: rule, s =>
    match configKeywords.find? fun ckw => ckw.1 == kw.kw with
    | none =>
      .error { fmt := "Unexpected keyword '%s' in %s:%zu", args := [kw.kw, kw.filename, decimal kw.lineno] }
    | some (token, func) =>
      match func token kw s with
      | .error e => .error e
      | .ok (.stop, s) => .ok s
      | .ok (.success, s) => spProcessRule configKeywords rule s

/-- `CHECK_DUPLICATE_KEYWORD`. -/
def checkDuplicateKeyword (token : ZendString) (kw : SpParsedKeyword) (present : Bool) :
    Except ConfigError Unit :=
  if present then
    .error { fmt := "duplicate keyword '%s' in %s:%zu", args := [token, kw.filename, decimal kw.lineno] }
  else .ok ()

/-- `SP_PARSE_ARG`. -/
def spParseArg (token : ZendString) (kw : SpParsedKeyword) : Except ConfigError ZendString :=
  match spGetArgString kw with
  | some value => .ok value
  | none =>
    .error { fmt := "Missing argument to keyword '%s' - it should be '%s(\"...\")' on line %zu",
             args := [token, token, decimal kw.lineno] }

/-- `parse_empty`. -/
def parseEmpty (set : σ → σ) : SpParseFn σ := fun token kw s =>
  if kw.arg.getD [] ≠ [] then
    .error { fmt := "Unexpected argument for keyword '%s' - it should be '%s()' in %s:%zu",
             args := [token, token, kw.filename, decimal kw.lineno] }
  else if kw.argtype ≠ .empty then
    .error { fmt := "Missing parenthesis for keyword '%s' - it should be '%s()' in %s:%zu",
             args := [token, token, kw.filename, decimal kw.lineno] }
  else .ok (.success, set s)

/-- `parse_str`. -/
def parseStr (get : σ → Option ZendString) (set : ZendString → σ → σ) : SpParseFn σ :=
  fun token kw s => do
    checkDuplicateKeyword token kw (get s).isSome
    let value ← spParseArg token kw
    .ok (.success, set value s)

/-- `parse_list`: the fields between commas, also if they are empty. -/
def parseList (get : σ → List ZendString) (set : List ZendString → σ → σ) : SpParseFn σ :=
  fun token kw s => do
    checkDuplicateKeyword token kw (!(get s).isEmpty)
    let value ← spParseArg token kw
    .ok (.success, set ((cstr value).splitOn 44) s)

/-- `parse_regexp`. -/
def parseRegexp (w : World) (get : σ → Option SpRegexp) (set : SpRegexp → σ → σ) : SpParseFn σ :=
  fun token kw s => do
    checkDuplicateKeyword token kw (get s).isSome
    let value ← spParseArg token kw
    if w.pcreCompile (cstr value) then .ok (.success, set ⟨value⟩ s)
    else .error { fmt := "Invalid regexp '%s' for '.%s()' in %s:%zu",
                  args := [cstr value, token, kw.filename, decimal kw.lineno] }

/-- The error of `parse_int` and its relatives. -/
def numberError (token : ZendString) (kw : SpParsedKeyword) (value : ZendString) : ConfigError :=
  { fmt := "Failed to parse arg '%s' of `%s` in %s:%zu"
    args := [cstr value, token, kw.filename, decimal kw.lineno] }

/-- `parse_int`: the number is cut to an `int`. -/
def parseInt (set : ℤ → σ → σ) : SpParseFn σ := fun token kw s => do
  let value ← spParseArg token kw
  match strtoimax (cstr value) with
  | some (n, false) => .ok (.success, set (n.bmod (2 ^ 32)) s)
  | _ => .error (numberError token kw value)

/-- `parse_uint`: the number is cut to an `unsigned int`. -/
def parseUint (set : ℕ → σ → σ) : SpParseFn σ := fun token kw s => do
  let value ← spParseArg token kw
  match strtoul (cstr value) with
  | some (n, false) => .ok (.success, set (n % 2 ^ 32) s)
  | _ => .error (numberError token kw value)

/-- The names of the types. -/
def phpTypes : List (ZendString × ZType) :=
  [(zstr "undef", .undef), (zstr "null", .null), (zstr "true", .true), (zstr "false", .false),
    (zstr "long", .long), (zstr "double", .double), (zstr "string", .string), (zstr "array", .array),
    (zstr "object", .object), (zstr "resource", .resource), (zstr "reference", .reference)]

/-- `parse_php_type`. -/
def parsePhpType (set : ZType → σ → σ) : SpParseFn σ := fun token kw s => do
  let value ← spParseArg token kw
  match phpTypes.find? fun t => equalsCi value t.1 with
  | some (_, type) => .ok (.success, set type s)
  | none =>
    .error { feature := "error"
             fmt := ".%s() is expecting a valid php type ('false', 'true', 'array'. 'object', 'long', 'double', 'null', 'resource', 'reference', 'undef') in %s:%zu"
             args := [token, kw.filename, decimal kw.lineno] }

/-- `get_ip_and_cidr`; the length of the mask is an `int`. -/
def getIpAndCidr (w : World) (s : ZendString) : Except ConfigError SpCidr :=
  let ip := s.takeWhile (· ≠ 47)
  match s.dropWhile (· ≠ 47) with
  | [] =>
    .error { fmt := "'%s' isn't a valid network mask, it seems that you forgot a '/'.", args := [s] }
  | _ :: mask =>
    let masklen := (mask.length : ℤ).bmod (2 ^ 32)
    let imask := atoi mask
    if masklen < 1 ∨ masklen > 3 ∨ !isDigit (mask.getD 0 0) ∨ (masklen ≥ 2 ∧ !isDigit (mask.getD 1 0)) ∨
        (masklen = 3 ∧ !isDigit (mask.getD 2 0)) ∨ imask < 0 ∨ imask > 128 then
      .error { fmt := "'%s' isn't a valid network mask.", args := [mask] }
    else
      match getIp w ip with
      | some (.v4 addr) =>
        if imask > 32 then
          .error { fmt := "'%d' isn't a valid ipv4 mask.", args := [decimalInt imask] }
        else .ok ⟨.v4 addr, imask.toNat⟩
      | some (.v6 addr) => .ok ⟨.v6 addr, imask.toNat⟩
      | none => .error { fmt := "Weird ip (%s) family", args := [ip] }

/-- `parse_cidr`. -/
def parseCidr (w : World) (get : σ → Option SpCidr) (set : SpCidr → σ → σ) : SpParseFn σ :=
  fun token kw s => do
    checkDuplicateKeyword token kw (get s).isSome
    let value ← spParseArg token kw
    let cidr ← getIpAndCidr w (cstr value)
    .ok (.success, set cidr s)

end Snuffleupagus.Config.Keyword
