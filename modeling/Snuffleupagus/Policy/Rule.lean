import Snuffleupagus.DisabledFunctions.Evaluate
import Snuffleupagus.Hook.Stores
import Snuffleupagus.Load.Module
import Snuffleupagus.Scanner.File

/-! # Policies

A policy lists functions, each with what is to become of its calls, and `denies` says what it is for: a call is
stopped if the first entry on its function that is not only simulated says `drop`.

An entry is written as a rule that is read as it is written (`clean_entry`). `process_rule` puts a rule into the
stores that has no filter but the name (`runOn_entry`), and decides as the entry says (`callDecision_rule`). -/

namespace Snuffleupagus.Policy.Rule

open Snuffleupagus.Lib.Effect Snuffleupagus.Lib.Attempts Snuffleupagus.Php.Bytes Snuffleupagus.Php.Engine
open Snuffleupagus.Config.Rule Snuffleupagus.Log Snuffleupagus.Match.Chain
open Snuffleupagus.Config.Keyword hiding spProcessRule
open Snuffleupagus.Config.Parser Snuffleupagus.Config.Root Snuffleupagus.Hook.Stores
open Snuffleupagus.DisabledFunctions.Filter Snuffleupagus.DisabledFunctions.Evaluate
open Snuffleupagus.Load.Module (keyword emptyKeyword)
open Snuffleupagus.Scanner.Token (isAlpha isWord isNonascii)
open Snuffleupagus.Scanner.Scan Snuffleupagus.Scanner.Word Snuffleupagus.Scanner.Textual
open Snuffleupagus.Scanner.RoundTrip (escape unescape_escape quotesEscaped_escape getLast_escape isNonascii_of_le)
open Snuffleupagus.Scanner.File

/-! ### What a policy says -/

/-- What becomes of a call. -/
inductive Action
  | drop | allow | simulate
  deriving DecidableEq

/-- A function, and what becomes of its calls. -/
structure Entry where
  function : ZendString
  action : Action
  deriving DecidableEq

/-- The calls of `f` are stopped. -/
def denies (policy : List Entry) (f : ZendString) : Bool :=
  (policy.find? fun e => e.function = f ∧ e.action ≠ .simulate).any (·.action = .drop)

/-! ### How it is written -/

/-- The keywords of an action. -/
def Action.keywords : Action → List SpParsedKeyword
  | .drop => [emptyKeyword "drop"]
  | .allow => [emptyKeyword "allow"]
  | .simulate => [emptyKeyword "simulation", emptyKeyword "drop"]

/-- An entry as a rule. -/
def Entry.keywords (e : Entry) : List SpParsedKeyword :=
  keyword "disable_function" :: { kw := zstr "function", arg := some (escape e.function), argtype := .str } ::
    e.action.keywords

/-- A policy as the contents of a file. -/
def policyText (policy : List Entry) : ZendString := (policy.map Entry.keywords).flatMap line

/-- A name that can be written: it is printable, no chain of names, and does not end with a backslash. `print` goes
by another name. -/
structure Plain (f : ZendString) : Prop where
  printable : ∀ b ∈ f, 32 ≤ b ∧ b ≤ 126
  ends : f.getLast? ≠ some 92
  chain : chainSep ∉ f
  print : f ≠ zstr "print"

variable {f : ZendString} {e : Entry}

theorem Plain.cstr (h : Plain f) : cstr f = f :=
  cstr_eq_self fun b hb h0 => absurd (h0 ▸ (h.printable b hb).1) (by decide)

theorem Plain.ascii (h : Plain f) : ∀ b ∈ escape f, isNonascii b = false := by
  intro b hb
  obtain ⟨x, hx, hb⟩ := List.mem_flatMap.mp hb
  have hle := (h.printable x hx).2
  refine isNonascii_of_le ?_
  split_ifs at hb
  · rcases List.mem_cons.mp hb with rfl | hb
    · decide
    · exact List.mem_singleton.mp hb ▸ hle
  · exact List.mem_singleton.mp hb ▸ hle

/-- A keyword without an argument, or with an empty one. -/
theorem clean_bare {kw : SpParsedKeyword} (hname : ∃ x u, kw.kw = x :: u ∧ isAlpha x = true ∧ u.all isWord = true)
    (harg : kw.argtype = .none ∧ kw.arg = none ∨ kw.argtype = .empty ∧ kw.arg = some []) : Clean kw := by
  obtain ⟨x, u, hkw, hx, hu⟩ := hname
  have hnil : ∀ arg ∈ kw.arg, arg = [] := by
    intro arg hmem
    obtain ⟨-, h⟩ | ⟨-, h⟩ := harg
    · rw [h] at hmem
      cases hmem
    · rw [h] at hmem
      exact (Option.mem_some_iff.mp hmem).symm
  refine ⟨⟨mem_keyword.mpr ⟨x, u, hkw, hx, List.all_eq_true.mp hu⟩, harg.elim Or.inl fun h => Or.inr (Or.inl h)⟩,
    fun arg h b hb => ?_, fun arg h => ?_⟩
  · rw [hnil arg h] at hb
    cases hb
  · rw [hnil arg h]
    simp

theorem clean_function (h : Plain f) :
    Clean { kw := zstr "function", arg := some (escape f), argtype := .str } := by
  have hmem : zstr "function" ∈ Scanner.Token.keyword.language :=
    mem_keyword.mpr ⟨102, zstr "unction", rfl, rfl, List.all_eq_true.mp rfl⟩
  refine ⟨⟨hmem, Or.inr (Or.inr ⟨rfl, _, rfl, quotesEscaped_escape h.printable⟩)⟩, ?_, ?_⟩
  · rintro arg ⟨⟩
    exact h.ascii
  · rintro arg ⟨⟩
    rw [getLast_escape]
    exact h.ends

/-- **An entry is a rule that is read as it is written.** -/
theorem clean_entry (h : Plain e.function) : e.keywords.length ≤ maxKeywords ∧ ∀ kw ∈ e.keywords, Clean kw := by
  have hdisable : Clean (keyword "disable_function") :=
    clean_bare ⟨100, zstr "isable_function", rfl, rfl, rfl⟩ (Or.inl ⟨rfl, rfl⟩)
  have hdrop : Clean (emptyKeyword "drop") := clean_bare ⟨100, zstr "rop", rfl, rfl, rfl⟩ (Or.inr ⟨rfl, rfl⟩)
  have hallow : Clean (emptyKeyword "allow") := clean_bare ⟨97, zstr "llow", rfl, rfl, rfl⟩ (Or.inr ⟨rfl, rfl⟩)
  have hsim : Clean (emptyKeyword "simulation") :=
    clean_bare ⟨115, zstr "imulation", rfl, rfl, rfl⟩ (Or.inr ⟨rfl, rfl⟩)
  obtain ⟨f, a⟩ := e
  have hf := clean_function h
  cases a with
  | drop => exact ⟨(by decide : 3 ≤ maxKeywords), by simp [Entry.keywords, Action.keywords, hdisable, hf, hdrop]⟩
  | allow => exact ⟨(by decide : 3 ≤ maxKeywords), by simp [Entry.keywords, Action.keywords, hdisable, hf, hallow]⟩
  | simulate =>
    exact ⟨(by decide : 4 ≤ maxKeywords), by simp [Entry.keywords, Action.keywords, hdisable, hf, hsim, hdrop]⟩

/-! ### What is read -/

/-- The rule on functions that an entry gives. -/
def Entry.rule (e : Entry) : SpDisabledFunction where
  textualRepresentation := spGetTextualRepresentation e.keywords
  function := some e.function
  allow := e.action = .allow
  simulation := e.action = .simulate

/-- The variables of `parse_disabled_functions` behind the keywords. -/
def Entry.state (e : Entry) : Config.DisabledFunctions.RuleState where
  allow := e.action = .allow
  drop := e.action ≠ .allow
  df := { function := some e.function, simulation := e.action = .simulate }

/-- The keywords of an entry, read in line `n`, behind the first one. -/
def Entry.placedTail (c : Context) (n : ℕ) (e : Entry) : List SpParsedKeyword := e.keywords.tail.map (placed c n)

theorem unescape_escape_self (f : ZendString) : unescape (escape f) = f := by
  have h := unescape_escape f []
  rwa [List.append_nil, show unescape [] = [] from rfl, List.append_nil] at h

theorem parseFunctionsList_plain (h : Plain f) : parseFunctionsList f = [] := by
  unfold parseFunctionsList
  rw [h.cstr, if_neg h.chain]

theorem renamePrint_plain (h : Plain f) : Config.DisabledFunctions.renamePrint (some f) = some f :=
  congrArg some (if_neg h.print)

section Process
variable (c : Context) (n : ℕ) (w : World) (access : ZendString → Bool) (g : SpGlobals)

theorem process_entry (e : Entry) : Config.Keyword.spProcessRule (Config.DisabledFunctions.configKeywords w)
    (e.placedTail c n) {} = .ok e.state := by
  have hread : ∀ a f, Config.Keyword.spProcessRule (Config.DisabledFunctions.configKeywords w)
      (Entry.placedTail c n ⟨f, a⟩) {} = .ok (Entry.state ⟨unescape (escape f), a⟩) := by
    intro a f
    cases a <;> rfl
  obtain ⟨f, a⟩ := e
  rw [hread a f, unescape_escape_self]

theorem runOn_keywords (e : Entry) : runOn (spProcessConfigKeywords (placed c n (keyword "disable_function"))
    (e.placedTail c n) {} ((Config.DisabledFunctions.configKeywords w).map (Prod.map id onLocals))) g =
      (.ok e.state, { g with configLineno := n }) := by
  have hread : ∀ a f, runOn (spProcessConfigKeywords (placed c n (keyword "disable_function"))
      (Entry.placedTail c n ⟨f, a⟩) {} ((Config.DisabledFunctions.configKeywords w).map (Prod.map id onLocals))) g =
        (.ok (Entry.state ⟨unescape (escape f), a⟩), { g with configLineno := n }) := by
    intro a f
    cases a <;> rfl
  obtain ⟨f, a⟩ := e
  rw [hread a f, unescape_escape_self]

theorem parse_entry (h : Plain e.function) : Config.DisabledFunctions.parseDisabledFunctions w
    (placed c n (keyword "disable_function")) (e.placedTail c n) = .ok (some e.rule) := by
  unfold Config.DisabledFunctions.parseDisabledFunctions
  rw [process_entry]
  obtain ⟨f, a⟩ := e
  -- the text of the rule does not tell the line
  have hbuild : ∀ (fn : Option ZendString) (l : List ZendString), fn = some f → l = [] →
      (Except.ok (some { (Entry.state ⟨f, a⟩).df with
        allow := (Entry.state ⟨f, a⟩).allow
        textualRepresentation := (Entry.rule ⟨f, a⟩).textualRepresentation
        functionsList := l
        param := .nil
        var := .nil
        function := fn }) : Except ConfigError _) = .ok (some (Entry.rule ⟨f, a⟩)) := by
    rintro fn l rfl rfl
    rfl
  have hrename := renamePrint_plain h
  have hlist := parseFunctionsList_plain h
  cases a with
  | drop => exact hbuild _ _ hrename hlist
  | allow => exact hbuild _ _ hrename hlist
  | simulate => exact hbuild _ _ hrename hlist

/-- **What becomes of the stores.** -/
theorem runOn_entry (h : Plain e.function) : runOn (spProcessConfigRoot w access (e.keywords.map (placed c n))) g =
    (.ok (), { g with configLineno := n, stores := insertRule g.stores e.rule }) := by
  have hparser : runOn (parseDisabledFunctions w (zstr "disable_function") (placed c n (keyword "disable_function"))
      (e.placedTail c n)) { g with configLineno := n } =
        (.ok .stop, { g with configLineno := n, stores := insertRule g.stores e.rule }) := by
    unfold parseDisabledFunctions
    rw [runOn_bind, runOn_keywords]
    dsimp only
    rw [runOn_bind, runOn_ofAnswer, parse_entry c n w h]
    rfl
  have hfind : (rootKeywords w access).find? (fun ckw => ckw.1 == (placed c n (keyword "disable_function")).kw) =
      some (zstr "disable_function", parseDisabledFunctions w) := rfl
  show runOn (Config.Parser.spProcessRule atLine (rootKeywords w access)
    (placed c n (keyword "disable_function") :: e.placedTail c n)) g = _
  unfold Config.Parser.spProcessRule
  rw [runOn_bind, runOn_modify]
  dsimp only
  rw [hfind]
  dsimp only
  have hline : atLine (placed c n (keyword "disable_function")).lineno g = { g with configLineno := n } := rfl
  rw [runOn_bind, hline, hparser]
  rfl

end Process

/-! ### What is decided -/

/-- What an action decides. -/
def Action.decision : Action → Option (Except Abort Unit)
  | .drop => some (.error .drop)
  | .allow => some (.ok ())
  | .simulate => none

/-- **The rule of an entry decides as the entry says** on a call of its function. -/
theorem callDecision_rule (h : Plain e.function) (w : World) (g : SpGlobals) (c : Call) (filename : ZendString) :
    callDecision w g c e.function filename e.rule = e.action.decision := by
  have hmatch : Yields (callMatching w g c e.function filename [] e.rule) ([], some {}) := by
    have hname : Yields (functionMatching w g c.executeData e.function e.rule) true := by
      show Except.ok (Php.Bytes.cstr e.function == e.function) = _
      rw [h.cstr, beq_self_eq_true]
    refine yields_ruleMatching.mpr ⟨yields_allSeq.mpr ?_, rfl, rfl⟩
    simp only [List.forall_mem_cons, List.not_mem_nil, false_implies, implies_true, and_true]
    exact ⟨hname, rfl, rfl, rfl, rfl⟩
  unfold callDecision
  rw [show (callMatching w g c e.function filename [] e.rule).out = _ from hmatch]
  obtain ⟨f, a⟩ := e
  cases a <;> rfl

end Snuffleupagus.Policy.Rule
