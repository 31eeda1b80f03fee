import Snuffleupagus.Cached.Cond
import Snuffleupagus.Cached.CondOp
import Snuffleupagus.Cached.Init
import Snuffleupagus.Cached.Rule
import Snuffleupagus.Scanner.Scan

/-! # The generated scanner

The actions of `sp_config_scanner.cached.c`. They are those of `sp_config_scanner.re`, but take the parts of a token
from the variables `t1` to `t4`, which are set from the tags just before. A part whose position is `NULL` is undefined
behaviour, as is an input that is overrun. The tags are left as they are from one token to the next. -/

namespace Snuffleupagus.Cached.Scan

open Snuffleupagus.Lib.Backup (Machine)
open Snuffleupagus.Lib.Segments (TagOp Tags)
open Snuffleupagus.Php.Bytes Snuffleupagus.Log
open Snuffleupagus.Config.Keyword
open Snuffleupagus.Load.Module (Statement)
open Snuffleupagus.Scanner.Condition
open Snuffleupagus.Scanner.Token (isNonascii InitRule CondRule CondOpRule RuleRule)
open Snuffleupagus.Scanner.Scan (Context State Outcome End inner hexByte nonasciiFmt maxKeywords binOp start)
open Snuffleupagus.Cached.Machine (Tag)

/-! ### Parts -/

/-- The bytes from `a` to `b`. -/
def slice (text : ZendString) (a b : ℕ) : ZendString := (text.take b).drop a

/-- `t1`, `t2 - t1` and `t3 + 1`, `t4 - t3 - 2`: the name and the value of a variable. -/
def setTags (text : ZendString) (yyt : Tags Tag) : Option (ZendString × ZendString) := do
  let t1 ← yyt .yyt1
  let t2 ← yyt .yyt2
  let t3 ← yyt .yyt3
  let t4 ← yyt .yyt4
  if t3 + 2 ≤ t4 then pure (slice text t1 t2, slice text (t3 + 1) (t4 - 1)) else none

/-- `TMPSTR`, with `t2 = data - 1`. -/
def messageTags (text : ZendString) (yyt : Tags Tag) : Option ZendString := do
  let t1 ← yyt .yyt1
  let t2 := text.length - 1
  if t1 + 2 ≤ t2 then pure ((text.drop (t1 + 1)).take (min (t2 - t1 - 2) 1023)) else none

/-- `t1`, `t2 - t1`, with `t2 = data`. -/
def wordTags (text : ZendString) (yyt : Tags Tag) : Option ZendString := do
  let t1 ← yyt .yyt1
  pure (slice text t1 text.length)

/-- The name and the argument of a function, with `t2 = yyt2 - 1`, `t3 = yyt2` and `t4 = data - 1`. -/
def callTags (text : ZendString) (yyt : Tags Tag) : Option (ZendString × ZendString) := do
  let t1 ← yyt .yyt1
  let t3 ← yyt .yyt2
  pure (slice text t1 (t3 - 1), slice text t3 (text.length - 1))

/-- The name and the argument of a keyword, which may be missing. -/
def keywordTags (text : ZendString) (yyt : Tags Tag) : Option (ZendString × Option ZendString) := do
  let t1 ← yyt .yyt1
  let t2 ← yyt .yyt2
  let arg :=
    match yyt .yyt3, yyt .yyt4 with
    | some t3, some t4 => some (slice text t3 t4)
    | _, _ => none
  pure (slice text t1 t2, arg)

/-! ### Actions -/

variable (c : Context)

/-- An action on a part that has to be there. -/
def onPart {α : Type} (part : Option α) (action : α → Outcome) : Outcome := part.elim (.stop .overrun) action

/-- The actions of `init`. -/
def initAction (t : InitRule) (text : ZendString) (yyt : Tags Tag) (s : State) : Outcome :=
  match t with
  | .set =>
    if s.skipping then .next s none
    else onPart (setTags text yyt) fun v => .next { s with vars := v :: s.vars } none
  | .info =>
    if s.skipping then .next s none
    else onPart (messageTags text yyt) fun tmpstr =>
      .next s (some (.message s.lineno .notice "[%s:%zu]: %s" [c.filename, decimal s.lineno, tmpstr]))
  | .warning =>
    if s.skipping then .next s none
    else onPart (messageTags text yyt) fun tmpstr =>
      .next s (some (.message s.lineno .warning "[%s:%zu]: %s" [c.filename, decimal s.lineno, tmpstr]))
  | .error =>
    if s.skipping then .next s none
    else onPart (messageTags text yyt) fun tmpstr =>
      .stop (.failure s.lineno { fmt := "[%s:%zu]: %s", args := [c.filename, decimal s.lineno, tmpstr] })
  | .nonascii => s.failNonascii c text
  | .other => s.fail c "parser error in %s:%zu" []
  | .whitespace | .comment => .next s none
  | .newline => .next { s with lineno := s.lineno + 1 } none
  | .sp => .next { s with cond := .rule, parsedRule := [] } none
  | .endByte => .stop .success
  | .condition =>
    if s.conditionActive then s.fail c "nested conditions are not supported in %s:%zu" []
    else .next { s with cond := .cond, conditionActive := true, sy := { s.sy with condRes := [] } } none
  | .endCondition =>
    .next { s with conditionActive := false, sy := { s.sy with condRes := [], condRes0 := 1 } } none

/-- The actions of `cond`. -/
def condAction (t : CondRule) (text : ZendString) (yyt : Tags Tag) (s : State) : Outcome :=
  match t with
  | .whitespace => .next s none
  | .newline => .next { s with lineno := s.lineno + 1 } none
  | .call => onPart (callTags text yyt) fun p =>
    if 2 ≤ p.2.length ∧ p.1 = zstr "extension_loaded" then
      s.feed c (.value (ofBool (c.moduleRegistry (inner p.2))))
    else s.fail c "unknown function in condition in %s:%zu" []
  | .keyword => onPart (wordTags text yyt) fun key =>
    match s.vars.lookup key with
    | some value => s.feed c (.value (atoi (cstr value)))
    | none => s.fail c "unknown variable in condition in %s:%zu" []
  | .number => onPart (wordTags text yyt) fun digits => s.feed c (.value (atoi digits))
  | .not => s.feed c .unary
  | .lparen => s.feed c .lparen
  | .other => s.fail c "syntax error in condition in %s:%zu" []

/-- The actions of `cond_op`. -/
def condOpAction (t : CondOpRule) (text : ZendString) (yyt : Tags Tag) (s : State) : Outcome :=
  match t with
  | .whitespace => .next s none
  | .newline => .next { s with lineno := s.lineno + 1 } none
  | .operator => onPart (wordTags text yyt) fun op => s.feed c (.binary (binOp op))
  | .rparen => s.feed c .rparen
  | .semicolon => s.endCondition c
  | .other => s.fail c "syntax error in condition in %s:%zu" []

/-- A keyword of a rule, or what is wrong with it. -/
def parseKeyword (s : State) (kw : ZendString) (arg : Option ZendString) :
    Except (String × List ZendString) SpParsedKeyword :=
  match arg with
  | none => .ok { kw := kw, lineno := s.lineno, filename := c.filename }
  | some arg =>
    match arg.find? isNonascii with
    | some b => .error (nonasciiFmt, [hexByte b])
    | none =>
      if arg = [] then
        .ok { kw := kw, arg := some [], argtype := .empty, lineno := s.lineno, filename := c.filename }
      else if 2 ≤ arg.length ∧ arg.head? = some 34 then
        .ok { kw := kw, arg := some (inner arg), argtype := .str, lineno := s.lineno, filename := c.filename }
      else
        match s.vars.lookup arg with
        | some value =>
          .ok { kw := kw, arg := some value, argtype := .str, lineno := s.lineno, filename := c.filename }
        | none => .error ("unknown variable in %s:%zu", [])

/-- The actions of `rule`. Behind a newline the scanner goes on at `yyt1`. -/
def ruleAction (t : RuleRule) (text : ZendString) (yyt : Tags Tag) (s : State) : Outcome :=
  match t with
  | .whitespace => .next s none
  | .newline => onPart (yyt .yyt1) fun data =>
    .next { s with lineno := s.lineno + 1, data := text.drop data ++ s.data } none
  | .keyword =>
    if s.skipping then .next s none
    else if s.parsedRule.length = maxKeywords then
      s.fail c "too many keywords in rule (more than %d) in %s:%zu" [decimal maxKeywords]
    else
      onPart (keywordTags text yyt) fun p =>
        match parseKeyword c s p.1 p.2 with
        | .ok kw => .next { s with parsedRule := s.parsedRule ++ [kw] } none
        | .error (fmt, args) => s.fail c fmt args
  | .semicolon | .other => s.endOfRule
  | .nonascii => s.failNonascii c text

/-! ### The scan -/

/-- A token of a start condition, and its action. -/
def token {Q τ : Type} (M : Machine UInt8 Q (TagOp Tag) τ (Tags Tag))
    (action : τ → ZendString → Tags Tag → State → Outcome) (s : State) (yyt : Tags Tag) : Outcome × Tags Tag :=
  match M.scan s.data yyt with
  | none => (.stop .overrun, yyt)
  | some (t, n, yyt) => (action t (s.data.take n) yyt { s with data := s.data.drop n }, yyt)

/-- One token. -/
def step (s : State) (yyt : Tags Tag) : Outcome × Tags Tag :=
  match s.cond with
  | .init => token Init.machine (initAction c) s yyt
  | .cond => token Cond.machine (condAction c) s yyt
  | .condOp => token CondOp.machine (condOpAction c) s yyt
  | .rule => token Rule.machine (ruleAction c) s yyt

/-- At most `fuel` tokens. -/
def run : ℕ → State → Tags Tag → List Statement × End
  | 0, _, _ => ([], .overrun)
  | fuel + 1, s, yyt =>
    match step c s yyt with
    | (.stop e, _) => ([], e)
    | (.next s out, yyt) => (out.toList ++ (run fuel s yyt).1, (run fuel s yyt).2)

/-- `sp_config_scan`, of the contents of a file and the NUL behind them, with what the variables for the tags hold
before they are written. -/
def spConfigScan (contents : ZendString) (yyt : Tags Tag) : List Statement × End :=
  run c ((contents ++ [0]).length + 1) (start c (contents ++ [0])) yyt

end Snuffleupagus.Cached.Scan
