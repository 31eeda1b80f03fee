import Snuffleupagus.Cached.Machine

/-! # The generated scanner in front of an operand

The labels of the start condition `cond`. `yy95`, `yy103` and `yy108` are actions, and `yy105` goes back to the mark.
`yy110a` and `yy110b` are what `yy110` goes on with behind a quote. -/

namespace Snuffleupagus.Cached.Cond

open Snuffleupagus.Lib.Lexer Snuffleupagus.Lib.Backup
open Snuffleupagus.Lib.Segments (TagOp Tags Segment Plan)
open Snuffleupagus.Php.Bytes
open Snuffleupagus.Scanner.Token (CondRule)
open Snuffleupagus.Cached.Machine

/-! ### The code -/

/-- The labels. -/
inductive Label
  | yycCond | yy94 | yy96 | yy97 | yy98 | yy99 | yy100 | yy101 | yy102 | yy104 | yy106 | yy107 | yy109 | yy110
  | yy110a | yy110b
  deriving DecidableEq

/-- `yybm_cond`. -/
def yybmCond : List (List ℕ) := [
  [0, 64, 64, 64, 64, 64, 64, 64], [64, 72, 0, 64, 64, 0, 64, 64], [64, 64, 64, 64, 64, 64, 64, 64],
  [64, 64, 64, 64, 64, 64, 64, 64], [72, 64, 0, 64, 64, 64, 64, 64], [64, 64, 64, 64, 64, 64, 64, 64],
  [112, 112, 112, 112, 112, 112, 112, 112], [112, 112, 64, 64, 64, 64, 64, 64],
  [64, 96, 96, 96, 96, 96, 96, 96], [96, 96, 96, 96, 96, 96, 96, 96], [96, 96, 96, 96, 96, 96, 96, 96],
  [96, 96, 96, 64, 128, 64, 64, 96], [64, 96, 96, 96, 96, 96, 96, 96], [96, 96, 96, 96, 96, 96, 96, 96],
  [96, 96, 96, 96, 96, 96, 96, 96], [96, 96, 96, 64, 64, 64, 64, 64], [64, 64, 64, 64, 64, 64, 64, 64],
  [64, 64, 64, 64, 64, 64, 64, 64], [64, 64, 64, 64, 64, 64, 64, 64], [64, 64, 64, 64, 64, 64, 64, 64],
  [64, 64, 64, 64, 64, 64, 64, 64], [64, 64, 64, 64, 64, 64, 64, 64], [64, 64, 64, 64, 64, 64, 64, 64],
  [64, 64, 64, 64, 64, 64, 64, 64], [64, 64, 64, 64, 64, 64, 64, 64], [64, 64, 64, 64, 64, 64, 64, 64],
  [64, 64, 64, 64, 64, 64, 64, 64], [64, 64, 64, 64, 64, 64, 64, 64], [64, 64, 64, 64, 64, 64, 64, 64],
  [64, 64, 64, 64, 64, 64, 64, 64], [64, 64, 64, 64, 64, 64, 64, 64], [64, 64, 64, 64, 64, 64, 64, 64]]

/-- The labels of the code. -/
def block : Label → Block UInt8 Label (TagOp Tag) CondRule
  | .yycCond => read fun yych =>
    if bit yybmCond yych 8 then .goto .yy96 []
    else if yych ≤ 39 then
      if yych ≤ 12 then
        if yych ≤ 8 then .goto .yy94 []
        else if yych ≤ 10 then .goto .yy97 []
        else .goto .yy94 []
      else if yych ≤ 13 then .goto .yy98 []
      else if yych ≤ 31 then .goto .yy94 []
      else if yych ≤ 33 then .goto .yy99 []
      else .goto .yy94 []
    else if yych ≤ 64 then
      if yych ≤ 40 then .goto .yy100 []
      else if yych ≤ 47 then .goto .yy94 []
      else if yych ≤ 57 then .goto .yy101 [.data .yyt1]
      else .goto .yy94 []
    else if yych ≤ 90 then .goto .yy102 [.data .yyt1]
    else if yych ≤ 96 then .goto .yy94 []
    else if yych ≤ 122 then .goto .yy102 [.data .yyt1]
    else .goto .yy94 []
  | .yy94 => .skip .other []
  | .yy96 => read fun yych => if bit yybmCond yych 8 then .goto .yy96 [] else .act .whitespace []
  | .yy97 => .skip .newline []
  | .yy98 => read fun yych => if yych = 10 then .goto .yy97 [] else .act .other []
  | .yy99 => .skip .not []
  | .yy100 => .skip .lparen []
  | .yy101 => read fun yych => if bit yybmCond yych 16 then .goto .yy101 [] else .act .number []
  | .yy102 => readMark 0 [] fun yych =>
    if bit yybmCond yych 32 then .goto .yy102 []
    else if yych = 40 then .goto .yy104 []
    else .act .keyword []
  | .yy104 => read fun yych =>
    if yych = 34 then .goto .yy106 [.data .yyt2]
    else if yych = 41 then .goto .yy107 [.data .yyt2]
    else .restore
  | .yy106 => read fun yych =>
    if bit yybmCond yych 64 then .goto .yy106 []
    else if yych ≤ 13 then .restore
    else if yych ≤ 34 then .goto .yy109 []
    else .goto .yy110 []
  | .yy107 => .skip .call []
  | .yy109 => read fun yych => expect yych 41 .yy107
  | .yy110 => read fun yych =>
    if bit yybmCond yych 64 then .goto .yy106 []
    else if yych ≤ 13 then .restore
    else if 35 ≤ yych then .goto .yy110 []
    else .goto .yy110a []
  | .yy110a => read fun yych =>
    if bit yybmCond yych 128 then .goto .yy110 []
    else if yych ≤ 13 then
      if yych ≤ 9 then
        if yych ≤ 0 then .restore else .goto .yy106 []
      else if yych ≤ 10 then .restore
      else if yych ≤ 12 then .goto .yy106 []
      else .restore
    else if yych ≤ 34 then
      if yych ≤ 33 then .goto .yy106 [] else .goto .yy109 []
    else if yych ≠ 41 then .goto .yy106 []
    else .goto .yy110b []
  | .yy110b => readMark 1 [] fun yych =>
    if bit yybmCond yych 64 then .goto .yy106 []
    else if yych ≤ 13 then .act .call []
    else if yych ≤ 34 then .goto .yy109 []
    else .goto .yy110 []

/-- What the cases of `yyaccept` go on with. -/
def marked : ℕ → CondRule × List (TagOp Tag)
  | 0 => (.keyword, [])
  | _ => (.call, [])

/-- The lexer. -/
def machine : Machine UInt8 Label (TagOp Tag) CondRule (Tags Tag) where
  write := TagOp.write
  start := .yycCond
  block := block
  marked := marked

/-! ### What stands in front of a label -/

/-- A text that leads to the label, or two where the rest of the rules depends on it. -/
def texts : Label → List ZendString
  | .yycCond => [[]]
  | .yy94 => [[34]]
  | .yy96 => [[32], [32, 32]]
  | .yy97 => [[10], [13, 10]]
  | .yy98 => [[13]]
  | .yy99 => [[33]]
  | .yy100 => [[40]]
  | .yy101 => [[48], [48, 48]]
  | .yy102 => [[97], [97, 97]]
  | .yy104 => [[97, 40]]
  | .yy106 => [[97, 40, 34]]
  | .yy107 => [[97, 40, 41]]
  | .yy109 => [[97, 40, 34, 34]]
  | .yy110 => [[97, 40, 34, 92]]
  | .yy110a => [[97, 40, 34, 92, 34]]
  | .yy110b => [[97, 40, 34, 92, 34, 41]]

/-- The marks the code may go back to from a label, if it does not set one itself. -/
def marks : Label → List ℕ
  | .yy104 => [0]
  | .yy106 | .yy109 | .yy110 | .yy110a => [0, 1]
  | _ => []

/-- No segments in particular. -/
def whole : List (Segment ByteClass Tag) := [⟨[], .any, some .any⟩]

def number : List (Segment ByteClass Tag) := [⟨[.yyt1], .digit, some .digit⟩]

def word : List (Segment ByteClass Tag) := [⟨[.yyt1], .alpha, some .word⟩]

def paren : List (Segment ByteClass Tag) := ⟨[], .byte 40, none⟩ :: word

/-- The argument, and the parenthesis behind it. -/
def argument : List (Segment ByteClass Tag) := ⟨[.yyt2], .inLine, some .inLine⟩ :: paren

/-- The segments of the text in front of a label. -/
def cuts : Label → List (List (Segment ByteClass Tag))
  | .yycCond => [[]]
  | .yy94 | .yy96 | .yy97 | .yy98 | .yy99 | .yy100 => [whole]
  | .yy101 => [number]
  | .yy102 => [word]
  | .yy104 => [paren]
  | .yy106 | .yy107 | .yy109 | .yy110 | .yy110a | .yy110b => [argument]

/-- The segments at the marks, and those the actions with tags rely on. -/
def plan : Plan Label CondRule ByteClass Tag where
  cuts := cuts
  marks := marks
  markCut
    | 0 => word
    | _ => argument
  final
    | .number => some [(number, [])]
    | .keyword => some [(word, [])]
    | .call => some [(argument, [])]
    | _ => none

/-! ### The check -/

theorem passes_label (q : Label) : passes machine condRules texts plan q = true := by
  cases q <;> decide +kernel

/-- **Every label passes the check.** -/
theorem passes_cond : Passes machine condRules texts plan where
  write := rfl
  text := rfl
  cut := rfl
  mark := rfl
  label := passes_label

end Snuffleupagus.Cached.Cond
