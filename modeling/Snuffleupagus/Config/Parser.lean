import Snuffleupagus.Config.Keyword
import Snuffleupagus.Lib.Attempts

/-! # Parsing a rule into the configuration

The parsers of the features write to the configuration while they go through the keywords of a rule,
so that a rule which is refused at its last keyword has left its mark. A parser is given its token, its
keyword and the keywords behind it; most go through these themselves, with a table of their own and
with local variables, and then stop.

`Parsers` says that every parser of a table moves the state in a given way, and `moves_spProcessRule`
that a rule then does. -/

namespace Snuffleupagus.Config.Parser

open Snuffleupagus.Lib.Attempts Snuffleupagus.Php.Bytes
open Snuffleupagus.Config.Rule
open Snuffleupagus.Config.Keyword hiding spProcessRule

/-- A parser of a keyword: its token, the keyword, and the keywords behind it. -/
abbrev SpParser (σ : Type) :=
  ZendString → SpParsedKeyword → List SpParsedKeyword → Attempt ConfigError σ ParserResult

/-- A table of parsers. -/
abbrev SpConfigKeywords (σ : Type) := List (ZendString × SpParser σ)

variable {σ ℓ : Type}

/-- A parser that writes nothing when it fails. -/
def leaf (f : SpParseFn σ) : SpParser σ := fun token kw _ => do
  let s ← get
  let p ← ofAnswer (f token kw s)
  modify fun _ => p.2
  pure p.1

/-- `SPG(config_lineno) = lineno`. -/
def atLine (lineno : ℕ) (g : SpGlobals) : SpGlobals := { g with configLineno := lineno }

/-- `sp_process_rule`; `mark` writes the line. -/
def spProcessRule (mark : ℕ → σ → σ) (configKeywords : SpConfigKeywords σ) :
    List SpParsedKeyword → Attempt ConfigError σ Unit
  | [] => pure ()
  | kw :: rule => do
    modify (mark kw.lineno)
    match configKeywords.find? fun ckw => ckw.1 == kw.kw with
    | none => throw { fmt := "Unexpected keyword '%s' in %s:%zu"
                      args := [kw.kw, kw.filename, decimal kw.lineno] }
    | some (token, func) =>
      match ← func token kw rule with
      | .stop => pure ()
      | .success => spProcessRule mark configKeywords rule

/-! ### Local variables -/

/-- Write to a local variable. -/
def toLocals (f : ℓ → ℓ) : ℓ × SpGlobals → ℓ × SpGlobals := Prod.map f id

/-- Write to the configuration. -/
def toGlobals (f : SpGlobals → SpGlobals) : ℓ × SpGlobals → ℓ × SpGlobals := Prod.map id f

/-- A parser that knows nothing of the configuration. -/
def onLocals (f : SpParseFn ℓ) : SpParser (ℓ × SpGlobals) :=
  leaf fun token kw s => (f token kw s.1).map fun p => (p.1, (p.2, s.2))

/-- A parser that knows nothing of the local variables. -/
def onGlobals (f : SpParser SpGlobals) : SpParser (ℓ × SpGlobals) := fun token kw rule s =>
  let (r, g) := runOn (f token kw rule) s.2
  (r, (s.1, g))

/-- `SP_PROCESS_CONFIG_KEYWORDS`: the keywords behind `parsed_rule`, with the local variables `l`. -/
def spProcessConfigKeywords (parsedRule : SpParsedKeyword) (rule : List SpParsedKeyword) (l : ℓ)
    (configKeywords : SpConfigKeywords (ℓ × SpGlobals)) : Attempt ConfigError SpGlobals ℓ := do
  let p ← withLocals l (spProcessRule (fun n => toGlobals (atLine n)) configKeywords rule)
  modify (atLine parsedRule.lineno)
  pure p.2

/-- The flags among the local variables of the parsers. -/
structure Flags where
  enable : Bool := false
  disable : Bool := false
  xchecks : Bool := false
  noXchecks : Bool := false
  ro : Bool := false
  rw : Bool := false

/-- `.enable()` and `.disable()`. -/
def enableDisable : SpConfigKeywords (Flags × SpGlobals) :=
  [(zstr "enable", leaf (parseEmpty (toLocals fun f => { f with enable := true }))),
    (zstr "disable", leaf (parseEmpty (toLocals fun f => { f with disable := true })))]

/-- `SP_SET_ENABLE_DISABLE`. -/
def spSetEnableDisable (parsedRule : SpParsedKeyword) (f : Flags)
    (set : Bool → SpGlobals → SpGlobals) : Attempt ConfigError SpGlobals Unit :=
  if f.enable && f.disable then
    throw { fmt := "A rule can't be enabled and disabled in %s:%zu"
            args := [parsedRule.filename, decimal parsedRule.lineno] }
  else if f.enable || f.disable then modify (set (f.enable || !f.disable))
  else pure ()

/-- `parse_enable`. -/
def parseEnable (set : Bool → SpGlobals → SpGlobals) : SpParser SpGlobals := fun _ parsedRule rule => do
  let f ← spProcessConfigKeywords parsedRule rule {} enableDisable
  spSetEnableDisable parsedRule f set
  pure .stop

/-- `parse_uint` and `parse_ulong`: the number is written before it is looked at. -/
def parseNumber (set : ℕ → σ → σ) : SpParser σ := fun token kw _ => do
  let value ← ofAnswer (spParseArg token kw)
  match strtoul (cstr value) with
  | some (n, erange) => do
    modify (set n)
    if erange then throw (numberError token kw value) else pure .success
  | none => do
    modify (set 0)
    throw (numberError token kw value)

/-- `parse_uint`. -/
def parseUintTo (set : ℕ → σ → σ) : SpParser σ := parseNumber fun n => set (n % 2 ^ 32)

/-- `parse_ulong`. -/
def parseUlong (set : ℕ → σ → σ) : SpParser σ := parseNumber set

/-! ### What a rule moves -/

/-- Every parser of the table moves the state in the way `R`. -/
def Parsers (R : σ → σ → Prop) (configKeywords : SpConfigKeywords σ) : Prop :=
  ∀ ckw ∈ configKeywords, ∀ token kw rule, Moves R (ckw.2 token kw rule)

section Moves
variable {R : σ → σ → Prop} (hr : ∀ s, R s s) (ht : ∀ s₁ s₂ s₃, R s₁ s₂ → R s₂ s₃ → R s₁ s₃)
include hr ht

theorem moves_spProcessRule {mark : ℕ → σ → σ} (hm : ∀ n s, R s (mark n s))
    {configKeywords : SpConfigKeywords σ} (hp : Parsers R configKeywords) :
    ∀ rule, Moves R (spProcessRule mark configKeywords rule)
  | [] => Moves.pure hr ()
  | kw :: rule => by
    unfold spProcessRule
    refine Moves.bind ht (Moves.modify (hm kw.lineno)) fun _ => ?_
    cases hf : configKeywords.find? fun ckw => ckw.1 == kw.kw with
    | none => exact Moves.throw hr _
    | some ckw =>
      obtain ⟨token, func⟩ := ckw
      have hmem := List.mem_of_find?_eq_some hf
      refine Moves.bind ht (hp _ hmem token kw rule) fun r => ?_
      cases r with
      | stop => exact Moves.pure hr ()
      | success => exact moves_spProcessRule hm hp rule

omit ht in
theorem moves_leaf {f : SpParseFn σ} (hf : ∀ token kw s p, f token kw s = .ok p → R s p.2)
    (token : ZendString) (kw : SpParsedKeyword) (rule : List SpParsedKeyword) :
    Moves R (leaf f token kw rule) := by
  intro s
  unfold leaf
  rw [runOn_bind, runOn_get]
  dsimp only
  rw [runOn_bind, runOn_ofAnswer]
  cases h : f token kw s with
  | error e => exact hr s
  | ok p => exact hf token kw s p h

end Moves

end Snuffleupagus.Config.Parser
