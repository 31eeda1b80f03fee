import Snuffleupagus.Lib.Coded
import Snuffleupagus.Lib.Segments
import Snuffleupagus.Scanner.Token

/-! # The generated scanner

`sp_config_scanner.cached.c` is what re2c has made of `sp_config_scanner.re`; it is compiled where there is no re2c.
The rules have become labels and jumps on single bytes, which are read here as they stand. `YYMARKER` and `yyaccept`
are the position and the number of a mark, and the tags of the rules are kept in the variables `yyt1` to `yyt5`.

The rules are written once more, in code, to be compared with the labels (`rulesOf_coded`). -/

namespace Snuffleupagus.Cached.Machine

open Snuffleupagus.Lib.Derivative Snuffleupagus.Lib.Lexer Snuffleupagus.Lib.Backup Snuffleupagus.Lib.Coded
open Snuffleupagus.Lib.Segments (TagOp Tags Segment Plan Included Good keepsAt scan_good)
open Snuffleupagus.Php.Bytes Snuffleupagus.Scanner
open Snuffleupagus.Scanner.Token (isBlank isAlpha isWord isInLine isInString isNonascii InitRule CondRule CondOpRule
  RuleRule)

/-! ### Labels and tags -/

/-- The variables for the tags. They hold a position in the token, or `NULL`. -/
inductive Tag
  | yyt1 | yyt2 | yyt3 | yyt4 | yyt5
  deriving DecidableEq

variable {Q A : Type}

/-- `yych = *++data`, and the jump. -/
def read (jump : ℕ → Jump Q (TagOp Tag) A) : Block UInt8 Q (TagOp Tag) A := .read none [] fun c => jump c.toNat

/-- `yyaccept = k; yych = *(YYMARKER = ++data)`. -/
def readMark (k : ℕ) (ops : List (TagOp Tag)) (jump : ℕ → Jump Q (TagOp Tag) A) : Block UInt8 Q (TagOp Tag) A :=
  .read (some k) ops fun c => jump c.toNat

/-- `yybm[0+yych] & mask`. The table is written in rows of eight. -/
def bit (yybm : List (List ℕ)) (yych mask : ℕ) : Bool :=
  (yybm.getD (yych / 8) []).getD (yych % 8) 0 &&& mask != 0

/-- A label that asks for one byte. -/
def expect (yych c : ℕ) (q : Q) : Jump Q (TagOp Tag) A := if yych = c then .goto q [] else .restore

/-- A label in front of a string: blanks, and a quote, whose position is a tag. -/
def blanks (yych : ℕ) (blank quote : Q) (t : Tag) : Jump Q (TagOp Tag) A :=
  if yych ≤ 31 then
    if yych = 9 then .goto blank [] else .restore
  else if yych ≤ 32 then .goto blank []
  else if yych = 34 then .goto quote [.data t]
  else .restore

/-- A label in a string. -/
def inString (yych : ℕ) (stop : Jump Q (TagOp Tag) A) (byte quote backslash : Q) : Jump Q (TagOp Tag) A :=
  if yych ≤ 13 then
    if yych ≤ 9 then
      if yych ≤ 0 then stop else .goto byte []
    else if yych ≤ 10 then stop
    else if yych ≤ 12 then .goto byte []
    else stop
  else if yych ≤ 34 then
    if yych ≤ 33 then .goto byte [] else .goto quote []
  else if yych = 92 then .goto backslash []
  else .goto byte []

/-- A label behind a backslash and a quote: the quote is the last one if a semicolon follows. -/
def behindQuote (yych : ℕ) (byte quote backslash final : Q) : Jump Q (TagOp Tag) A :=
  if yych ≤ 33 then
    if yych ≤ 10 then
      if yych ≤ 0 then .restore
      else if yych ≤ 9 then .goto byte []
      else .restore
    else if yych = 13 then .restore
    else .goto byte []
  else if yych ≤ 59 then
    if yych ≤ 34 then .goto quote []
    else if yych ≤ 58 then .goto byte []
    else .goto final []
  else if yych = 92 then .goto backslash []
  else .goto byte []

/-! ### Classes -/

/-- The classes of the rules, and three more for the parts of a token. -/
inductive ByteClass
  | blank | alpha | word | digit | inLine | inString | nonascii | comment | any
  | dark | nonquote | ending
  | byte (c : UInt8)
  deriving BEq, ReflBEq, LawfulBEq

/-- The bytes of a class. -/
def ByteClass.mem : ByteClass → UInt8 → Bool
  | .blank => isBlank
  | .alpha => isAlpha
  | .word => isWord
  | .digit => isDigit
  | .inLine => isInLine
  | .inString => isInString
  | .nonascii => isNonascii
  | .comment => fun c => c == 59 || c == 35
  | .any => fun _ => true
  | .dark => fun c => !isBlank c && c != 34
  | .nonquote => fun c => c != 34
  | .ending => fun c => isBlank c || c == 59
  | .byte d => (· == d)

/-- A byte of a class. -/
def ByteClass.witness : ByteClass → UInt8
  | .blank => 32
  | .alpha | .word | .inLine | .inString => 97
  | .digit => 48
  | .nonascii => 128
  | .comment | .ending => 59
  | .any => 0
  | .dark | .nonquote => 64
  | .byte d => d

theorem ByteClass.mem_witness (k : ByteClass) : k.mem k.witness = true := by
  cases k with
  | byte d => exact beq_self_eq_true d
  | _ => rfl

/-- The classes. -/
def ByteClass.den (k : ByteClass) : Class UInt8 := ⟨k.mem, k.witness, k.mem_witness⟩

/-- The classes, of numbers. -/
def ByteClass.has : ByteClass → ℕ → Bool
  | .blank, n => n == 32 || n == 9
  | .alpha, n => (97 ≤ n && n ≤ 122) || (65 ≤ n && n ≤ 90)
  | .word, n => (97 ≤ n && n ≤ 122) || (65 ≤ n && n ≤ 90) || (48 ≤ n && n ≤ 57) || n == 95
  | .digit, n => 48 ≤ n && n ≤ 57
  | .inLine, n => n != 13 && n != 10 && n != 0
  | .inString, n => n != 34 && (n != 13 && n != 10 && n != 0)
  | .nonascii, n => 128 ≤ n
  | .comment, n => n == 59 || n == 35
  | .any, _ => true
  | .dark, n => !(n == 32 || n == 9) && n != 34
  | .nonquote, n => n != 34
  | .ending, n => n == 32 || n == 9 || n == 59
  | .byte c, n => n == c.toNat

theorem beq_toNat (c d : UInt8) : (c == d) = (c.toNat == d.toNat) := by
  rw [Bool.eq_iff_iff, beq_iff_eq, beq_iff_eq, UInt8.toNat_inj]

theorem mem_den (k : ByteClass) (c : UInt8) : k.den.mem c = k.has c.toNat := by
  cases k with
  | byte d => exact beq_toNat c d
  | _ =>
    simp [ByteClass.den, ByteClass.mem, ByteClass.has, isBlank, isAlpha, isWord, isDigit, isInLine, isInString, isNonascii,
      beq_toNat, UInt8.le_iff_toNat_le, bne]

/-- A class has all bytes of another one. -/
def sub : ByteClass → ByteClass → Bool
  | _, .any | .dark, .nonquote | .ending, .inLine => true
  | .byte c, .inLine => c == 34 || c == 41
  | k, k' => k == k'

theorem included_sub : Included ByteClass.has sub := by
  intro k k' h n hn
  unfold sub at h
  split at h
  · rfl
  · exact (Bool.and_eq_true_iff.mp hn).2
  · simp only [ByteClass.has, Bool.or_eq_true, Bool.and_eq_true, bne_iff_ne, beq_iff_eq] at hn ⊢
    omega
  · rename_i c
    cases beq_iff_eq.mp hn
    rcases Bool.or_eq_true_iff.mp h with h | h
    · cases beq_iff_eq.mp h
      rfl
    · cases beq_iff_eq.mp h
      rfl
  · exact beq_iff_eq.mp h ▸ hn

/-! ### The rules in code -/

/-- A byte. -/
def byte (c : UInt8) : Code ByteClass := .cls (.byte c)

/-- The bytes of some characters. -/
def chars (s : List Char) : ZendString := s.map fun c => UInt8.ofNat c.toNat

/-- A literal. -/
def lit (s : List Char) : Code ByteClass := .word .byte (chars s)

def newline : Code ByteClass := .seq (.opt (byte 13)) (byte 10)

def whitespace : Code ByteClass := .cls .blank

def keyword : Code ByteClass := .seq (.cls .alpha) (.star (.cls .word))

def string : Code ByteClass :=
  .seqs [byte 34, .star (.alt (.word .byte [92, 34]) (.cls .inString)), byte 34]

def message (k k' : List Char) : Code ByteClass :=
  .seqs [.alt (lit k) (lit k'), .plus whitespace, string, byte 59]

def initRules : CodedRules ByteClass InitRule :=
  [(.cls .nonascii, .nonascii),
    (.plus whitespace, .whitespace),
    (.seq (.cls .comment) (.star (.cls .inLine)), .comment),
    (newline, .newline),
    (lit ['s', 'p'], .sp),
    (byte 0, .endByte),
    (.seqs [.opt (byte 64), lit ['s', 'e', 't'], .plus whitespace, keyword, .plus whitespace, string, .star whitespace,
      byte 59], .set),
    (.seq (lit ['@', 'c', 'o', 'n', 'd', 'i', 't', 'i', 'o', 'n']) (.plus whitespace), .condition),
    (.seqs [lit ['@', 'e', 'n', 'd', '_', 'c', 'o', 'n', 'd', 'i', 't', 'i', 'o', 'n'], .star whitespace, byte 59], .endCondition),
    (message ['@', 'l', 'o', 'g'] ['@', 'i', 'n', 'f', 'o'], .info),
    (message ['@', 'w', 'a', 'r', 'n'] ['@', 'w', 'a', 'r', 'n', 'i', 'n', 'g'], .warning),
    (message ['@', 'e', 'r', 'r'] ['@', 'e', 'r', 'r', 'o', 'r'], .error),
    (.cls .any, .other)]

def condRules : CodedRules ByteClass CondRule :=
  [(.plus whitespace, .whitespace),
    (newline, .newline),
    (.seqs [keyword, byte 40, .opt string, byte 41], .call),
    (keyword, .keyword),
    (.plus (.cls .digit), .number),
    (byte 33, .not),
    (byte 40, .lparen),
    (.cls .any, .other)]

def condOpRules : CodedRules ByteClass CondOpRule :=
  [(.plus whitespace, .whitespace),
    (newline, .newline),
    (.alt (lit ['&', '&']) (.alt (lit ['|', '|']) (.alt (lit ['<']) (.alt (lit ['>']) (.alt (lit ['=', '='])
      (.alt (lit ['<', '=']) (lit ['>', '='])))))), .operator),
    (byte 41, .rparen),
    (byte 59, .semicolon),
    (.cls .any, .other)]

def ruleRules : CodedRules ByteClass RuleRule :=
  [(.plus whitespace, .whitespace),
    (.seqs [newline, .star (.alt newline whitespace), byte 46], .newline),
    (.seqs [byte 46, keyword, .opt (.seqs [byte 40, .alt (.opt string) keyword, byte 41])], .keyword),
    (byte 59, .semicolon),
    (.cls .nonascii, .nonascii),
    (.cls .any, .other)]

/-- **The rules in code are the rules**, and `*` behind them. -/
theorem rulesOf_coded :
    rulesOf ByteClass.den initRules = Token.initRules ++ [(.cls (ByteClass.den .any), .other)] ∧
      rulesOf ByteClass.den condRules = Token.condRules ++ [(.cls (ByteClass.den .any), .other)] ∧
      rulesOf ByteClass.den condOpRules = Token.condOpRules ++ [(.cls (ByteClass.den .any), .other)] ∧
      rulesOf ByteClass.den ruleRules = Token.ruleRules ++ [(.cls (ByteClass.den .any), .other)] :=
  ⟨rfl, rfl, rfl, rfl⟩

/-! ### The check of a start condition -/

section Check
variable {Q τ : Type} [DecidableEq τ]
variable (M : Machine UInt8 Q (TagOp Tag) τ (Tags Tag)) (rules : CodedRules ByteClass τ)
variable (texts : Q → List ZendString) (P : Plan Q τ ByteClass Tag)

/-- The check of one label, for the token and for its tags. -/
def passes (q : Q) : Bool :=
  ok M ByteClass.has id rules texts (fun q => !(P.marks q).isEmpty) q && keepsAt ByteClass.has sub M P q

/-- A start condition: its labels pass the check, and at the first one nothing has been read. -/
structure Passes : Prop where
  write : M.write = TagOp.write
  text : texts M.start = [[]]
  cut : P.cuts M.start = [[]]
  mark : P.marks M.start = []
  label : ∀ q, passes M rules texts P q = true

variable {M rules texts P}

/-- **The labels of a start condition find the token of its rules, and the tags of it.** -/
theorem Passes.scan (h : Passes M rules texts P) {rules' : Rules UInt8 τ} {other : τ}
    (hrules : rulesOf ByteClass.den rules = rules' ++ [(.cls (ByteClass.den .any), other)])
    (hbounded : Token.Bounded rules') (s : ZendString) (r : Tags Tag) :
    (M.scan s r).map (fun x => (x.1, x.2.1)) = next rules' other s ∧
      ∀ a n r', M.scan s r = some (a, n, r') → Good ByteClass.has P a (s.take n) r' := by
  have hok (q : Q) := Bool.and_eq_true_iff.mp (h.label q)
  have hnil : ¬ Word rules' [] := by
    rintro ⟨r, hr, hw⟩
    have hnull := Regex.nullable_iff.mpr hw
    rw [(hbounded r hr).1] at hnull
    cases hnull
  constructor
  · rw [next_eq_munch (k := ByteClass.den .any) (fun _ => rfl) hnil, ← hrules]
    have hstart : [] ∈ texts M.start := by
      rw [h.text]
      exact List.mem_singleton_self _
    have hneeds : (!(P.marks M.start).isEmpty) = false := by
      rw [h.mark]
      rfl
    have hscan := scan_of_ok mem_den (fun q => (hok q).1) hstart hneeds s r
    exact hscan
  · intro a n r' hscan
    refine scan_good included_sub h.write (fun q => (hok q).2) ?_ h.mark hscan
    rw [h.cut]
    exact List.mem_singleton_self _

end Check

end Snuffleupagus.Cached.Machine
