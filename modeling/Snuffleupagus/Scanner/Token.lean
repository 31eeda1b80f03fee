import Snuffleupagus.Lib.Lexer
import Snuffleupagus.Php.Bytes

/-! # The tokens of a configuration

The rules of `sp_config_scanner.re`, one table for each start condition. A rule `*` stands for one byte
that begins no other token. -/

namespace Snuffleupagus.Scanner.Token

open Snuffleupagus.Lib.Derivative Snuffleupagus.Lib.Lexer Snuffleupagus.Php.Bytes
open Snuffleupagus.Lib.Derivative.Regex (plus opt word)

/-- A class of bytes. -/
def bytes (mem : UInt8 → Bool) (witness : UInt8) (h : mem witness = true) : Regex UInt8 :=
  .cls ⟨mem, witness, h⟩

/-- A byte. -/
def byte (c : UInt8) : Regex UInt8 := .cls (.single c)

theorem mem_byte {c : UInt8} {w : ZendString} : w ∈ (byte c).language ↔ w = [c] := by
  rw [byte, Regex.mem_cls]
  constructor
  · rintro ⟨d, hd, rfl⟩
    rw [of_decide_eq_true hd]
  · rintro rfl
    exact ⟨c, decide_eq_true rfl, rfl⟩

/-- A literal. -/
def lit (s : String) : Regex UInt8 := word (zstr s)

/-- One after the other. -/
def seqs : List (Regex UInt8) → Regex UInt8
  | [] => .eps
  | [r] => r
  | r :: rs => .seq r (seqs rs)

theorem mem_seqs {r r' : Regex UInt8} {rs : List (Regex UInt8)} {w : ZendString} :
    w ∈ (seqs (r :: r' :: rs)).language ↔ ∃ u ∈ r.language, ∃ v ∈ (seqs (r' :: rs)).language, u ++ v = w :=
  Regex.mem_seq

/-! ### The definitions of the scanner -/

/-- `[ \t]`. -/
def isBlank (c : UInt8) : Bool := c == 32 || c == 9

/-- `[a-zA-Z]`. -/
def isAlpha (c : UInt8) : Bool := (97 ≤ c && c ≤ 122) || (65 ≤ c && c ≤ 90)

/-- `[a-zA-Z0-9_]`. -/
def isWord (c : UInt8) : Bool := isAlpha c || isDigit c || c == 95

/-- `[^\r\n\x00]`. -/
def isInLine (c : UInt8) : Bool := c != 13 && c != 10 && c != 0

/-- `[^"\r\n\x00]`. -/
def isInString (c : UInt8) : Bool := c != 34 && isInLine c

/-- `[\x80-\xff]`. -/
def isNonascii (c : UInt8) : Bool := 128 ≤ c

def endByte : Regex UInt8 := byte 0

def newline : Regex UInt8 := .seq (opt (byte 13)) (byte 10)

def whitespace : Regex UInt8 := bytes isBlank 32 rfl

def keyword : Regex UInt8 := .seq (bytes isAlpha 97 rfl) (.star (bytes isWord 97 rfl))

/-- What stands between the quotes: a quote only behind a backslash. -/
def inString : Regex UInt8 := .star (.alt (word [92, 34]) (bytes isInString 97 rfl))

def string : Regex UInt8 := seqs [byte 34, inString, byte 34]

def nonascii : Regex UInt8 := bytes isNonascii 128 rfl

/-! ### The start conditions -/

/-- The rules of `<init>`. -/
inductive InitRule
  | nonascii | other | whitespace | comment | newline | sp | endByte | set | condition | endCondition
  | info | warning | error
  deriving DecidableEq

/-- A message: its keywords, and the string. -/
def message (k k' : String) : Regex UInt8 :=
  seqs [.alt (lit k) (lit k'), plus whitespace, string, byte 59]

def initRules : Rules UInt8 InitRule :=
  [(nonascii, .nonascii),
    (plus whitespace, .whitespace),
    (.seq (bytes (fun c => c == 59 || c == 35) 59 rfl) (.star (bytes isInLine 97 rfl)), .comment),
    (newline, .newline),
    (lit "sp", .sp),
    (endByte, .endByte),
    (seqs [opt (byte 64), lit "set", plus whitespace, keyword, plus whitespace, string,
      .star whitespace, byte 59], .set),
    (.seq (lit "@condition") (plus whitespace), .condition),
    (seqs [lit "@end_condition", .star whitespace, byte 59], .endCondition),
    (message "@log" "@info", .info),
    (message "@warn" "@warning", .warning),
    (message "@err" "@error", .error)]

/-- The rules of `<cond>`. -/
inductive CondRule
  | whitespace | newline | call | keyword | number | not | lparen | other
  deriving DecidableEq

def condRules : Rules UInt8 CondRule :=
  [(plus whitespace, .whitespace),
    (newline, .newline),
    (seqs [keyword, byte 40, opt string, byte 41], .call),
    (keyword, .keyword),
    (plus (bytes isDigit 48 rfl), .number),
    (byte 33, .not),
    (byte 40, .lparen)]

/-- The rules of `<cond_op>`. -/
inductive CondOpRule
  | whitespace | newline | operator | rparen | semicolon | other
  deriving DecidableEq

def condOpRules : Rules UInt8 CondOpRule :=
  [(plus whitespace, .whitespace),
    (newline, .newline),
    (.alt (lit "&&") (.alt (lit "||") (.alt (lit "<") (.alt (lit ">") (.alt (lit "==")
      (.alt (lit "<=") (lit ">=")))))), .operator),
    (byte 41, .rparen),
    (byte 59, .semicolon)]

/-- The rules of `<rule>`. -/
inductive RuleRule
  | whitespace | newline | keyword | semicolon | nonascii | other
  deriving DecidableEq

/-- A newline is a token only if, behind blanks and newlines, a dot follows: this context is matched
as well. -/
def ruleRules : Rules UInt8 RuleRule :=
  [(plus whitespace, .whitespace),
    (seqs [newline, .star (.alt newline whitespace), byte 46], .newline),
    (seqs [byte 46, keyword, opt (seqs [byte 40, .alt (opt string) keyword, byte 41])], .keyword),
    (byte 59, .semicolon),
    (nonascii, .nonascii)]

/-! ### Tokens and the end of the input -/

/-- Every token has a byte, and the NUL is in no token but itself. -/
def Bounded {τ : Type} (rules : Rules UInt8 τ) : Prop :=
  ∀ r ∈ rules, r.1.nullable = false ∧ ∀ w ∈ r.1.language, 0 ∈ w → w = [0]

theorem bounded_of_avoids {τ : Type} {rules : Rules UInt8 τ}
    (h : ∀ r ∈ rules, r.1.nullable = false ∧ r.1.avoids 0 = true) : Bounded rules := fun r hr =>
  ⟨(h r hr).1, fun w hw h0 => absurd h0 (Regex.notMem_of_avoids (h r hr).2 w hw)⟩

theorem bounded_condRules : Bounded condRules := bounded_of_avoids (by decide)

theorem bounded_condOpRules : Bounded condOpRules := bounded_of_avoids (by decide)

theorem bounded_ruleRules : Bounded ruleRules := bounded_of_avoids (by decide)

theorem bounded_initRules : Bounded initRules := by
  have hnull : ∀ r ∈ initRules, r.1.nullable = false := by decide
  have havoid : ∀ r ∈ initRules, r.2 ≠ .endByte → r.1.avoids 0 = true := by decide
  have hend : ∀ r ∈ initRules, r.2 = .endByte → r.1 = endByte := by simp [initRules]
  intro r hr
  refine ⟨hnull r hr, fun w hw h0 => ?_⟩
  by_cases h : r.2 = .endByte
  · rw [hend r hr h] at hw
    exact mem_byte.mp hw
  · exact absurd h0 (Regex.notMem_of_avoids (havoid r hr h) w hw)

end Snuffleupagus.Scanner.Token
