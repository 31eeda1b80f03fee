import Snuffleupagus.Lib.ArrayStack
import Snuffleupagus.Scanner.Scan

/-! # The arrays of the scanner

`sp_config_scan` keeps the keywords of a rule and the two stacks of a condition in arrays, each with an index. Here they
are arrays, with every access watched: the indices are integers that the actions move, as in the code, and a cell that is
read or written is an `Access`.

The scanner of the other modules has lists in their place. -/

namespace Snuffleupagus.Scanner.Arrays

open Snuffleupagus.Lib.Effect Snuffleupagus.Lib.ArrayStack Snuffleupagus.Lib.Lexer Snuffleupagus.Php.Bytes
open Snuffleupagus.Config.Keyword
open Snuffleupagus.Load.Module (Statement)
open Snuffleupagus.Scanner.Condition Snuffleupagus.Scanner.Token Snuffleupagus.Scanner.Scan

/-- The arrays. -/
inductive ArrayName
  | parsedRule | condRes | condOp
  deriving DecidableEq

/-- Their sizes: `MAX_KEYWORDS+1` and `MAX_CONDITIONS`. -/
def ArrayName.size : ArrayName → ℕ
  | .parsedRule => maxKeywords + 1
  | .condRes | .condOp => maxConditions

/-- A cell is read or written. -/
structure Access where
  array : ArrayName
  index : ℤ

/-- The cell is one of the array. -/
def Access.InBounds (a : Access) : Prop := 0 ≤ a.index ∧ a.index < a.array.size

instance (a : Access) : Decidable a.InBounds := by
  unfold Access.InBounds; infer_instance

/-- `cond_res` and `cond_op`; a byte of `cond_op` that is no operator is `none`. -/
structure SyArrays where
  condRes : Stack ℤ := { cells := fun i => if i = 0 then 1 else 0, top := 0 }
  condOp : Stack (Option SyOp) := { cells := fun _ => none, top := 0 }

/-- A computation on the arrays of a condition. -/
abbrev Sy (α : Type) := Run SyError Access α

/-! ### Conditions -/

/-- `sy_res_push`. -/
def resPush (val : ℤ) (a : SyArrays) : Sy SyArrays :=
  if maxConditions ≤ a.condRes.top then abort .tooComplex
  else do
    let condRes ← push (.mk .condRes) val a.condRes
    pure { a with condRes := condRes }

/-- `sy_op_push`. -/
def opPush (op : SyOp) (a : SyArrays) : Sy SyArrays :=
  if maxConditions ≤ a.condOp.top then abort .tooComplex
  else do
    let condOp ← push (.mk .condOp) (some op) a.condOp
    pure { a with condOp := condOp }

/-- `sy_op_precedence`, of any byte. -/
def precedence (op : Option SyOp) : ℕ := op.elim 0 syOpPrecedence

/-- `sy_apply_op`, of any byte. -/
def applyOp (op : Option SyOp) (x y : ℤ) : ℤ := op.elim 0 fun op => syApplyOp op x y

/-- `SY_APPLY_OP_FROM_STACK`. -/
def applyOpFromStack (a : SyArrays) : Sy SyArrays := do
  let (op, condOp) ← pop (.mk .condOp) a.condOp
  let unary : Bool := op = some .unary
  if a.condRes.top < 2 - (if unary then 1 else 0) then abort .notEnough
  else do
    let (x, condRes) ← pop (.mk .condRes) a.condRes
    let (y, condRes) ← if unary then pure (0, condRes) else pop (.mk .condRes) condRes
    resPush (applyOp op x y) { condRes := condRes, condOp := condOp }

/-- The loops over `cond_op`; each turn takes an operator off, so there are at most as many turns as operators. -/
def applyWhile (go : Option SyOp → Bool) : ℕ → SyArrays → Sy SyArrays
  | 0, a => pure a
  | turns + 1, a =>
    if a.condOp.top = 0 then pure a
    else do
      let top ← peek (.mk .condOp) a.condOp
      if go top then do
        let a ← applyOpFromStack a
        applyWhile go turns a
      else pure a

/-- The rule for a binary operator. -/
def binary (op1 : BinOp) (a : SyArrays) : Sy SyArrays := do
  let curPrec := precedence (some (.binary op1))
  let a ← applyWhile (fun top => top ≠ some .lparen &&
    !(precedence top < curPrec || (precedence top == curPrec && !syOpIsLeftAssoc (.binary op1))))
    a.condOp.top.natAbs a
  opPush (.binary op1) a

/-- The rule for `)`. -/
def close (a : SyArrays) : Sy SyArrays := do
  let a ← applyWhile (· ≠ some .lparen) a.condOp.top.natAbs a
  if a.condOp.top = 0 then abort .unbalanced
  else do
    let top ← peek (.mk .condOp) a.condOp
    if top ≠ some .lparen then abort .unbalanced
    else pure { a with condOp := { a.condOp with top := a.condOp.top - 1 } }

/-- The rule for `;`: a loop that ends at a parenthesis has found one that is open. -/
def endOfCondition (a : SyArrays) : Sy SyArrays := do
  let a ← applyWhile (· ≠ some .lparen) a.condOp.top.natAbs a
  if a.condOp.top ≠ 0 then abort .unbalanced
  else if 1 < a.condRes.top then abort .invalid
  else pure a

/-! ### The scanner -/

/-- The variables of `sp_config_scan`. -/
structure ArrayState where
  cond : Cond := .init
  data : ZendString
  lineno : ℕ := 1
  vars : List (ZendString × ZendString)
  conditionActive : Bool := false
  sy : SyArrays := {}
  parsedRule : Stack (Option SpParsedKeyword) := { cells := fun _ => none, top := 0 }

/-- The variables that are no arrays. -/
def ArrayState.plain (s : ArrayState) : State where
  cond := s.cond
  data := s.data
  lineno := s.lineno
  vars := s.vars
  conditionActive := s.conditionActive

/-- An action: the state behind it, with a statement or without, or the end. -/
abbrev Act := Run End Access (ArrayState × Option Statement)

variable (c : Context)

/-- An error, with the place at its end. -/
def failsWith (lineno : ℕ) (fmt : String) (args : List ZendString) : End :=
  .failure lineno { fmt := fmt, args := args ++ [c.filename, decimal lineno] }

/-- `cs_log_error`, and out. -/
def ArrayState.fail (s : ArrayState) (fmt : String) (args : List ZendString) : Act :=
  abort (failsWith c s.lineno fmt args)

/-- A computation of a condition; its error ends the scan. -/
def ArrayState.condition (s : ArrayState) (next : Cond) (x : Sy SyArrays) : Act := do
  let sy ← mapReason (fun e => failsWith c s.lineno (syErrorFmt e) []) x
  pure ({ s with cond := next, sy := sy }, none)

/-- `!cond_res[0]`. -/
def ArrayState.skipping (s : ArrayState) : Run End Access Bool := do
  let v ← read (.mk .condRes) 0 s.sy.condRes
  pure (v == 0)

/-- The rules of `<init>`. -/
def initAction (t : InitRule) (text : ZendString) (s : ArrayState) : Act :=
  match t with
  | .nonascii => s.fail c nonasciiFmt [hexByte (text.headD 0)]
  | .other => s.fail c "parser error in %s:%zu" []
  | .whitespace | .comment => pure (s, none)
  | .newline => pure ({ s with lineno := s.lineno + 1 }, none)
  | .sp => pure ({ s with cond := .rule, parsedRule := { s.parsedRule with top := 0 } }, none)
  | .endByte => abort .success
  | .set => do
    if ← s.skipping then pure (s, none) else pure ({ s with vars := setParts text :: s.vars }, none)
  | .condition =>
    if s.conditionActive then s.fail c "nested conditions are not supported in %s:%zu" []
    else pure ({ s with
      cond := .cond, conditionActive := true
      sy := { s.sy with condRes := { s.sy.condRes with top := 0 } } }, none)
  | .endCondition => do
    let condRes ← write (.mk .condRes) 0 1 s.sy.condRes
    pure ({ s with
      conditionActive := false, sy := { s.sy with condRes := { condRes with top := 0 } } }, none)
  | .info => do
    if ← s.skipping then pure (s, none)
    else pure (s, some (.message s.lineno .notice "[%s:%zu]: %s"
      [c.filename, decimal s.lineno, messageText text]))
  | .warning => do
    if ← s.skipping then pure (s, none)
    else pure (s, some (.message s.lineno .warning "[%s:%zu]: %s"
      [c.filename, decimal s.lineno, messageText text]))
  | .error => do
    if ← s.skipping then pure (s, none)
    else abort (.failure s.lineno
      { fmt := "[%s:%zu]: %s", args := [c.filename, decimal s.lineno, messageText text] })

/-- The rules of `<cond>`. -/
def condAction (t : CondRule) (text : ZendString) (s : ArrayState) : Act :=
  match t with
  | .whitespace => pure (s, none)
  | .newline => pure ({ s with lineno := s.lineno + 1 }, none)
  | .call =>
    let (name, arg) := callParts text
    if 2 ≤ arg.length ∧ name = zstr "extension_loaded" then
      s.condition c .condOp (resPush (ofBool (c.moduleRegistry (inner arg))) s.sy)
    else s.fail c "unknown function in condition in %s:%zu" []
  | .keyword =>
    match s.vars.lookup text with
    | some value => s.condition c .condOp (resPush (atoi (cstr value)) s.sy)
    | none => s.fail c "unknown variable in condition in %s:%zu" []
  | .number => s.condition c .condOp (resPush (atoi text) s.sy)
  | .not => s.condition c .cond (opPush .unary s.sy)
  | .lparen => s.condition c .cond (opPush .lparen s.sy)
  | .other => s.fail c "syntax error in condition in %s:%zu" []

/-- The rules of `<cond_op>`. -/
def condOpAction (t : CondOpRule) (text : ZendString) (s : ArrayState) : Act :=
  match t with
  | .whitespace => pure (s, none)
  | .newline => pure ({ s with lineno := s.lineno + 1 }, none)
  | .operator => s.condition c .cond (binary (binOp text) s.sy)
  | .rparen => s.condition c .condOp (close s.sy)
  | .semicolon => s.condition c .init (endOfCondition s.sy)
  | .other => s.fail c "syntax error in condition in %s:%zu" []

/-- The rule for a keyword. -/
def ArrayState.keyword (text : ZendString) (s : ArrayState) : Act := do
  if ← s.skipping then pure (s, none)
  else if s.parsedRule.top = maxKeywords then
    s.fail c "too many keywords in rule (more than %d) in %s:%zu" [decimal maxKeywords]
  else
    match parseKeyword c s.plain text with
    | .ok kw => do
      let parsedRule ← push (.mk .parsedRule) (some kw) s.parsedRule
      pure ({ s with parsedRule := parsedRule }, none)
    | .error (fmt, args) => s.fail c fmt args

/-- The keywords from a cell on, up to the one without a name. -/
def keywordsFrom (cells : Stack (Option SpParsedKeyword)) : ℕ → ℤ → Run End Access (List SpParsedKeyword)
  | 0, _ => pure []
  | n + 1, i => do
    match ← read (.mk .parsedRule) i cells with
    | none => pure []
    | some kw => do
      let kws ← keywordsFrom cells n (i + 1)
      pure (kw :: kws)

/-- `end_of_rule`: what `process_rule` finds in the array is handed out. -/
def ArrayState.endOfRule (s : ArrayState) : Act := do
  if ← s.skipping then pure ({ s with cond := .init }, none)
  else do
    let parsedRule ← push (.mk .parsedRule) none s.parsedRule
    let rule ← keywordsFrom parsedRule parsedRule.top.natAbs 0
    pure ({ s with cond := .init, parsedRule := parsedRule }, some (.rule rule))

/-- The rules of `<rule>`. -/
def ruleAction (t : RuleRule) (text : ZendString) (s : ArrayState) : Act :=
  match t with
  | .whitespace => pure (s, none)
  | .newline =>
    pure ({ s with lineno := s.lineno + 1, data := text.drop (newlineLength text) ++ s.data }, none)
  | .keyword => s.keyword c text
  | .semicolon | .other => s.endOfRule
  | .nonascii => s.fail c nonasciiFmt [hexByte (text.headD 0)]

/-- A token of a start condition, and its action. -/
def ArrayState.token {τ : Type} (rules : Rules UInt8 τ) (other : τ)
    (action : τ → ZendString → ArrayState → Act) (s : ArrayState) : Act :=
  match next rules other s.data with
  | none => abort .overrun
  | some (t, n) => action t (s.data.take n) { s with data := s.data.drop n }

/-- One token. -/
def step (s : ArrayState) : Act :=
  match s.cond with
  | .init => s.token initRules .other (initAction c)
  | .cond => s.token condRules .other (condAction c)
  | .condOp => s.token condOpRules .other (condOpAction c)
  | .rule => s.token ruleRules .other (ruleAction c)

/-- At most `fuel` tokens: the accesses, the statements, and the end. -/
def run : ℕ → ArrayState → List Access × List Statement × End
  | 0, _ => ([], [], .overrun)
  | fuel + 1, s =>
    match step c s with
    | ⟨accesses, .error e⟩ => (accesses, [], e)
    | ⟨accesses, .ok (s, out)⟩ =>
      (accesses ++ (run fuel s).1, out.toList ++ (run fuel s).2.1, (run fuel s).2.2)

/-- `sp_config_scan`, of a text, the NUL behind it, and what the memory holds behind this NUL. -/
def spConfigScan (contents memory : ZendString) : List Access × List Statement × End :=
  let data := contents ++ 0 :: memory
  run c (data.length + 1)
    { data := data, vars := [(zstr "PHP_VERSION_ID", decimal c.phpVersionId)] }

end Snuffleupagus.Scanner.Arrays
