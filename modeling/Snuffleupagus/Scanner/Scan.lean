import Snuffleupagus.Load.Module
import Snuffleupagus.Scanner.Condition
import Snuffleupagus.Scanner.Token
import Mathlib.Data.List.DropRight

/-! # The scanner of a configuration

`sp_config_scan` reads one token after the other from the contents of a file, which end with a NUL, and
is in one of four start conditions. What it calls `process_rule` with, and what it logs before it gives
up, are the statements of the file; if `process_rule` refuses a rule the scanner stops there (`answer`).

`step` is one token with its action, `runFrom` all of them. A token that runs over the end of the input
(`End.overrun`) is undefined behaviour. -/

namespace Snuffleupagus.Scanner.Scan

open Snuffleupagus.Lib.Lexer Snuffleupagus.Php.Bytes Snuffleupagus.Log
open Snuffleupagus.Config.Keyword
open Snuffleupagus.Load.Module (Statement)
open Snuffleupagus.Scanner.Condition Snuffleupagus.Scanner.Token

/-- What the scanner knows from outside. -/
structure Context where
  /-- The modules in `module_registry`. -/
  moduleRegistry : ZendString → Bool
  /-- `PHP_VERSION_ID`. -/
  phpVersionId : ℕ
  filename : ZendString

/-- The start conditions. -/
inductive Cond
  | init | cond | condOp | rule
  deriving DecidableEq

/-- The variables of `sp_config_scan`; `data` is what stands behind the cursor. -/
structure State where
  cond : Cond := .init
  data : ZendString
  lineno : ℕ := 1
  vars : List (ZendString × ZendString)
  sy : SyState := {}
  conditionActive : Bool := false
  parsedRule : List SpParsedKeyword := []

/-- How a scan ends. -/
inductive End
  | success
  | failure (lineno : ℕ) (err : ConfigError)
  | overrun

/-- What a token leads to: another state, with a statement or without, or the end. -/
inductive Outcome
  | next (s : State) (out : Option Statement)
  | stop (e : End)

/-- `MAX_KEYWORDS`. -/
def maxKeywords : ℕ := 16

/-! ### The parts of a token -/

/-- What stands between the first byte and the last. -/
def inner (text : ZendString) : ZendString := (text.drop 1).dropLast

/-- The name and the value of `@set name "value";`. -/
def setParts (text : ZendString) : ZendString × ZendString :=
  let t1 := (text.drop (if text.head? = some 64 then 4 else 3)).dropWhile isBlank
  let t3 := (t1.dropWhile isWord).dropWhile isBlank
  (t1.takeWhile isWord, inner (t3.dropLast.rdropWhile isBlank))

/-- The text of `@log "text";`, as `TMPSTR` cuts it. -/
def messageText (text : ZendString) : ZendString :=
  (inner (text.dropWhile (· ≠ 34)).dropLast).take 1023

/-- The name and the argument of `name(argument)`. -/
def callParts (text : ZendString) : ZendString × ZendString :=
  (text.takeWhile isWord, inner (text.dropWhile isWord))

/-- The name and the argument of `.name(argument)`, which may be missing. -/
def keywordParts (text : ZendString) : ZendString × Option ZendString :=
  let rest := (text.drop 1).dropWhile isWord
  ((text.drop 1).takeWhile isWord, if rest = [] then none else some (inner rest))

/-- The length of a newline. -/
def newlineLength (text : ZendString) : ℕ := if text.head? = some 13 then 2 else 1

/-- The operator of a condition. -/
def binOp (text : ZendString) : BinOp :=
  if text = zstr "&&" then .and
  else if text = zstr "||" then .or
  else if text = zstr "<" then .lt
  else if text = zstr ">" then .gt
  else if text = zstr "<=" then .le
  else if text = zstr ">=" then .ge
  else .eq

/-! ### Actions -/

variable (c : Context)

/-- `cs_log_error` with the place at its end, and out. -/
def State.fail (s : State) (fmt : String) (args : List ZendString) : Outcome :=
  .stop (.failure s.lineno { fmt := fmt, args := args ++ [c.filename, decimal s.lineno] })

/-- `%02X`. -/
def hexByte (b : UInt8) : ZendString :=
  [nibble (zstr "0123456789ABCDEF") (b.toNat / 16), nibble (zstr "0123456789ABCDEF") (b.toNat % 16)]

/-- What `REJECT_NON_ASCII` says. -/
def nonasciiFmt : String := "non-ASCII character (0x%02X) in %s:%zu"

/-- `REJECT_NON_ASCII(data-1, data)`. -/
def State.failNonascii (s : State) (text : ZendString) : Outcome :=
  s.fail c nonasciiFmt [hexByte (text.headD 0)]

/-- The conditions a block is skipped under. -/
def State.skipping (s : State) : Bool := s.sy.condRes0 == 0

/-- The messages of a condition. -/
def syErrorFmt : SyError → String
  | .tooComplex => "condition too complex in %s:%zu"
  | .notEnough => "not enough input in %s:%zu"
  | .unbalanced => "unbalanced parenthesis in %s:%zu"
  | .invalid => "invalid condition in %s:%zu"
  | .syntaxError => "syntax error in condition in %s:%zu"

/-- One token of a condition other than `;`. -/
def State.feed (t : CondToken) (s : State) : Outcome :=
  match syToken t (s.cond == .condOp, s.sy) with
  | .ok (b, sy) => .next { s with cond := if b then .condOp else .cond, sy := sy } none
  | .error e => s.fail c (syErrorFmt e) []

/-- The `;` of a condition. -/
def State.endCondition (s : State) : Outcome :=
  match syEnd s.sy with
  | .ok sy => .next { s with cond := .init, sy := sy } none
  | .error e => s.fail c (syErrorFmt e) []

/-- The rules of `<init>`. -/
def initAction (t : InitRule) (text : ZendString) (s : State) : Outcome :=
  match t with
  | .nonascii => s.failNonascii c text
  | .other => s.fail c "parser error in %s:%zu" []
  | .whitespace | .comment => .next s none
  | .newline => .next { s with lineno := s.lineno + 1 } none
  | .sp => .next { s with cond := .rule, parsedRule := [] } none
  | .endByte => .stop .success
  | .set =>
    if s.skipping then .next s none else .next { s with vars := setParts text :: s.vars } none
  | .condition =>
    if s.conditionActive then s.fail c "nested conditions are not supported in %s:%zu" []
    else .next { s with cond := .cond, conditionActive := true, sy := { s.sy with condRes := [] } } none
  | .endCondition =>
    .next { s with conditionActive := false, sy := { s.sy with condRes := [], condRes0 := 1 } } none
  | .info =>
    if s.skipping then .next s none
    else .next s (some (.message s.lineno .notice "[%s:%zu]: %s"
      [c.filename, decimal s.lineno, messageText text]))
  | .warning =>
    if s.skipping then .next s none
    else .next s (some (.message s.lineno .warning "[%s:%zu]: %s"
      [c.filename, decimal s.lineno, messageText text]))
  | .error =>
    if s.skipping then .next s none
    else .stop (.failure s.lineno
      { fmt := "[%s:%zu]: %s", args := [c.filename, decimal s.lineno, messageText text] })

/-- A function of a condition. -/
def State.call (text : ZendString) (s : State) : Outcome :=
  let (name, arg) := callParts text
  if 2 ≤ arg.length ∧ name = zstr "extension_loaded" then
    s.feed c (.value (ofBool (c.moduleRegistry (inner arg))))
  else s.fail c "unknown function in condition in %s:%zu" []

/-- A variable of a condition. -/
def State.variableValue (text : ZendString) (s : State) : Outcome :=
  match s.vars.lookup text with
  | some value => s.feed c (.value (atoi (cstr value)))
  | none => s.fail c "unknown variable in condition in %s:%zu" []

/-- The rules of `<cond>`. -/
def condAction (t : CondRule) (text : ZendString) (s : State) : Outcome :=
  match t with
  | .whitespace => .next s none
  | .newline => .next { s with lineno := s.lineno + 1 } none
  | .call => s.call c text
  | .keyword => s.variableValue c text
  | .number => s.feed c (.value (atoi text))
  | .not => s.feed c .unary
  | .lparen => s.feed c .lparen
  | .other => s.fail c "syntax error in condition in %s:%zu" []

/-- The rules of `<cond_op>`. -/
def condOpAction (t : CondOpRule) (text : ZendString) (s : State) : Outcome :=
  match t with
  | .whitespace => .next s none
  | .newline => .next { s with lineno := s.lineno + 1 } none
  | .operator => s.feed c (.binary (binOp text))
  | .rparen => s.feed c .rparen
  | .semicolon => s.endCondition c
  | .other => s.fail c "syntax error in condition in %s:%zu" []

/-- A keyword of a rule, or what is wrong with it. -/
def parseKeyword (s : State) (text : ZendString) : Except (String × List ZendString) SpParsedKeyword :=
  let (kw, arg) := keywordParts text
  match arg with
  | none => .ok { kw := kw, lineno := s.lineno, filename := c.filename }
  | some arg =>
    match arg.find? isNonascii with
    | some b => .error (nonasciiFmt, [hexByte b])
    | none =>
      if arg = [] then
        .ok { kw := kw, arg := some [], argtype := .empty, lineno := s.lineno, filename := c.filename }
      else if 2 ≤ arg.length ∧ arg.head? = some 34 then
        .ok { kw := kw, arg := some (inner arg), argtype := .str, lineno := s.lineno, filename := c.filename }
      else
        match s.vars.lookup arg with
        | some value =>
          .ok { kw := kw, arg := some value, argtype := .str, lineno := s.lineno, filename := c.filename }
        | none => .error ("unknown variable in %s:%zu", [])

/-- The rule for a keyword. -/
def State.keyword (text : ZendString) (s : State) : Outcome :=
  if s.skipping then .next s none
  else if s.parsedRule.length = maxKeywords then
    s.fail c "too many keywords in rule (more than %d) in %s:%zu" [decimal maxKeywords]
  else
    match parseKeyword c s text with
    | .ok kw => .next { s with parsedRule := s.parsedRule ++ [kw] } none
    | .error (fmt, args) => s.fail c fmt args

/-- `end_of_rule`. -/
def State.endOfRule (s : State) : Outcome :=
  if s.skipping then .next { s with cond := .init } none
  else .next { s with cond := .init } (some (.rule s.parsedRule))

/-- The rules of `<rule>`. The context behind a newline is put back. -/
def ruleAction (t : RuleRule) (text : ZendString) (s : State) : Outcome :=
  match t with
  | .whitespace => .next s none
  | .newline =>
    .next { s with lineno := s.lineno + 1, data := text.drop (newlineLength text) ++ s.data } none
  | .keyword => s.keyword c text
  | .semicolon | .other => s.endOfRule
  | .nonascii => s.failNonascii c text

/-! ### The scan -/

/-- A token of a start condition, and its action. -/
def State.token {τ : Type} (rules : Rules UInt8 τ) (other : τ) (action : τ → ZendString → State → Outcome)
    (s : State) : Outcome :=
  match next rules other s.data with
  | none => .stop .overrun
  | some (t, n) => action t (s.data.take n) { s with data := s.data.drop n }

/-- One token. -/
def step (s : State) : Outcome :=
  match s.cond with
  | .init => s.token initRules .other (initAction c)
  | .cond => s.token condRules .other (condAction c)
  | .condOp => s.token condOpRules .other (condOpAction c)
  | .rule => s.token ruleRules .other (ruleAction c)

/-- At most `fuel` tokens. -/
def run : ℕ → State → List Statement × End
  | 0, _ => ([], .overrun)
  | fuel + 1, s =>
    match step c s with
    | .stop e => ([], e)
    | .next s out => (out.toList ++ (run fuel s).1, (run fuel s).2)

/-- All tokens: each has a byte. -/
def runFrom (s : State) : List Statement × End := run c (s.data.length + 1) s

/-- The scanner before its first token. -/
def start (data : ZendString) : State where
  data := data
  vars := [(zstr "PHP_VERSION_ID", decimal c.phpVersionId)]

/-- `sp_config_scan`, of the contents of a file and the NUL behind them. -/
def spConfigScan (contents : ZendString) : List Statement × End := runFrom c (start c (contents ++ [0]))

/-- What `sp_config_scan` returns. -/
inductive Answer
  | success | failure | overrun
  deriving DecidableEq

/-- The answer of a scan whose rules are all accepted. -/
def End.answer : End → Answer
  | .success => .success
  | .failure .. => .failure
  | .overrun => .overrun

/-- The rules are handed to `process_rule`, which works on a state and may refuse them. -/
def answer {σ : Type} (processRule : List SpParsedKeyword → σ → Option σ) (e : End) :
    List Statement → σ → Answer
  | [], _ => e.answer
  | .rule parsedRule :: l, g =>
    match processRule parsedRule g with
    | none => .failure
    | some g => answer processRule e l g
  | .message .. :: l, g => answer processRule e l g

end Snuffleupagus.Scanner.Scan
