import Snuffleupagus.Cached.Machine

/-! # The generated scanner in a rule

The labels of the start condition `rule`. `yy126` and `yy139` are actions, and `yy134` goes back to the mark. `yy125` is
the byte in front of `yy126`, and `yy145a` and `yy145b` are what `yy145` goes on with behind a quote. -/

namespace Snuffleupagus.Cached.Rule

open Snuffleupagus.Lib.Lexer Snuffleupagus.Lib.Backup
open Snuffleupagus.Lib.Segments (TagOp Tags Segment Plan)
open Snuffleupagus.Php.Bytes
open Snuffleupagus.Scanner.Token (RuleRule)
open Snuffleupagus.Cached.Machine

/-! ### The code -/

/-- The labels. -/
inductive Label
  | yycRule | yy125 | yy127 | yy128 | yy129 | yy130 | yy131 | yy132 | yy133 | yy135 | yy136 | yy137 | yy138
  | yy140 | yy141 | yy142 | yy143 | yy144 | yy145 | yy145a | yy145b
  deriving DecidableEq

/-- `yybm_rule`. -/
def yybmRule : List (List ℕ) := [
  [0, 64, 64, 64, 64, 64, 64, 64], [64, 88, 16, 64, 64, 0, 64, 64], [64, 64, 64, 64, 64, 64, 64, 64],
  [64, 64, 64, 64, 64, 64, 64, 64], [88, 64, 0, 64, 64, 64, 64, 64], [64, 64, 64, 64, 64, 64, 64, 64],
  [96, 96, 96, 96, 96, 96, 96, 96], [96, 96, 64, 64, 64, 64, 64, 64], [64, 96, 96, 96, 96, 96, 96, 96],
  [96, 96, 96, 96, 96, 96, 96, 96], [96, 96, 96, 96, 96, 96, 96, 96], [96, 96, 96, 64, 128, 64, 64, 96],
  [64, 96, 96, 96, 96, 96, 96, 96], [96, 96, 96, 96, 96, 96, 96, 96], [96, 96, 96, 96, 96, 96, 96, 96],
  [96, 96, 96, 64, 64, 64, 64, 64], [64, 64, 64, 64, 64, 64, 64, 64], [64, 64, 64, 64, 64, 64, 64, 64],
  [64, 64, 64, 64, 64, 64, 64, 64], [64, 64, 64, 64, 64, 64, 64, 64], [64, 64, 64, 64, 64, 64, 64, 64],
  [64, 64, 64, 64, 64, 64, 64, 64], [64, 64, 64, 64, 64, 64, 64, 64], [64, 64, 64, 64, 64, 64, 64, 64],
  [64, 64, 64, 64, 64, 64, 64, 64], [64, 64, 64, 64, 64, 64, 64, 64], [64, 64, 64, 64, 64, 64, 64, 64],
  [64, 64, 64, 64, 64, 64, 64, 64], [64, 64, 64, 64, 64, 64, 64, 64], [64, 64, 64, 64, 64, 64, 64, 64],
  [64, 64, 64, 64, 64, 64, 64, 64], [64, 64, 64, 64, 64, 64, 64, 64]]

/-- The labels of the code. -/
def block : Label → Block UInt8 Label (TagOp Tag) RuleRule
  | .yycRule => read fun yych =>
    if bit yybmRule yych 8 then .goto .yy127 []
    else if yych ≤ 45 then
      if yych ≤ 10 then
        if 9 ≤ yych then .goto .yy128 [] else .goto .yy125 []
      else if yych = 13 then .goto .yy129 []
      else .goto .yy125 []
    else if yych ≤ 58 then
      if yych ≤ 46 then .goto .yy130 [] else .goto .yy125 []
    else if yych ≤ 59 then .goto .yy131 []
    else if 128 ≤ yych then .goto .yy132 []
    else .goto .yy125 []
  | .yy125 => .skip .other []
  | .yy127 => read fun yych => if bit yybmRule yych 8 then .goto .yy127 [] else .act .whitespace []
  | .yy128 => readMark 0 [] fun yych =>
    if yych ≤ 13 then
      if yych ≤ 8 then .act .other []
      else if yych ≤ 10 then .goto .yy133 [.data .yyt1]
      else if yych ≤ 12 then .act .other []
      else .goto .yy135 [.data .yyt1]
    else if yych ≤ 32 then
      if yych ≤ 31 then .act .other [] else .goto .yy133 [.data .yyt1]
    else if yych = 46 then .goto .yy136 [.data .yyt1]
    else .act .other []
  | .yy129 => readMark 0 [] fun yych => if yych = 10 then .goto .yy137 [] else .act .other []
  | .yy130 => read fun yych =>
    if yych ≤ 64 then .act .other []
    else if yych ≤ 90 then .goto .yy138 [.data .yyt1]
    else if yych ≤ 96 then .act .other []
    else if yych ≤ 122 then .goto .yy138 [.data .yyt1]
    else .act .other []
  | .yy131 => .skip .semicolon []
  | .yy132 => .skip .nonascii []
  | .yy133 => read fun yych =>
    if bit yybmRule yych 16 then .goto .yy133 []
    else if yych = 13 then .goto .yy135 []
    else expect yych 46 .yy136
  | .yy135 => read fun yych => expect yych 10 .yy133
  | .yy136 => .skip .newline []
  | .yy137 => read fun yych =>
    if yych ≤ 13 then
      if yych ≤ 8 then .restore
      else if yych ≤ 10 then .goto .yy133 [.data .yyt1]
      else if yych ≤ 12 then .restore
      else .goto .yy135 [.data .yyt1]
    else if yych ≤ 32 then
      if yych ≤ 31 then .restore else .goto .yy133 [.data .yyt1]
    else if yych = 46 then .goto .yy136 [.data .yyt1]
    else .restore
  | .yy138 => readMark 1 [] fun yych =>
    if bit yybmRule yych 32 then .goto .yy138 []
    else if yych = 40 then .goto .yy140 [.data .yyt2]
    else .act .keyword [.null .yyt4, .null .yyt3, .data .yyt2]
  | .yy140 => read fun yych =>
    if yych ≤ 41 then
      if yych = 34 then .goto .yy141 [.data .yyt3]
      else if yych ≤ 40 then .restore
      else .goto .yy142 [.data .yyt4, .data .yyt3]
    else if yych ≤ 90 then
      if yych ≤ 64 then .restore else .goto .yy143 [.data .yyt3]
    else if yych ≤ 96 then .restore
    else if yych ≤ 122 then .goto .yy143 [.data .yyt3]
    else .restore
  | .yy141 => read fun yych =>
    if bit yybmRule yych 64 then .goto .yy141 []
    else if yych ≤ 13 then .restore
    else if yych ≤ 34 then .goto .yy144 []
    else .goto .yy145 []
  | .yy142 => .skip .keyword []
  | .yy143 => read fun yych =>
    if yych ≤ 64 then
      if yych ≤ 41 then
        if yych ≤ 40 then .restore else .goto .yy142 [.data .yyt4]
      else if yych ≤ 47 then .restore
      else if yych ≤ 57 then .goto .yy143 []
      else .restore
    else if yych ≤ 95 then
      if yych ≤ 90 then .goto .yy143 []
      else if yych ≤ 94 then .restore
      else .goto .yy143 []
    else if yych ≤ 96 then .restore
    else if yych ≤ 122 then .goto .yy143 []
    else .restore
  | .yy144 => read fun yych => if yych = 41 then .goto .yy142 [.data .yyt4] else .restore
  | .yy145 => read fun yych =>
    if bit yybmRule yych 64 then .goto .yy141 []
    else if yych ≤ 13 then .restore
    else if 35 ≤ yych then .goto .yy145 []
    else .goto .yy145a []
  | .yy145a => read fun yych =>
    if bit yybmRule yych 128 then .goto .yy145 []
    else if yych ≤ 13 then
      if yych ≤ 9 then
        if yych ≤ 0 then .restore else .goto .yy141 []
      else if yych ≤ 10 then .restore
      else if yych ≤ 12 then .goto .yy141 []
      else .restore
    else if yych ≤ 34 then
      if yych ≤ 33 then .goto .yy141 [] else .goto .yy144 []
    else if yych ≠ 41 then .goto .yy141 []
    else .goto .yy145b [.data .yyt4]
  | .yy145b => readMark 2 [] fun yych =>
    if bit yybmRule yych 64 then .goto .yy141 []
    else if yych ≤ 13 then .act .keyword []
    else if yych ≤ 34 then .goto .yy144 []
    else .goto .yy145 []

/-- What a keyword without parentheses writes. -/
def withoutArgument : List (TagOp Tag) := [.null .yyt4, .null .yyt3, .data .yyt2]

/-- What the cases of `yyaccept` go on with. -/
def marked : ℕ → RuleRule × List (TagOp Tag)
  | 0 => (.other, [])
  | 1 => (.keyword, withoutArgument)
  | _ => (.keyword, [])

/-- The lexer. -/
def machine : Machine UInt8 Label (TagOp Tag) RuleRule (Tags Tag) where
  write := TagOp.write
  start := .yycRule
  block := block
  marked := marked

/-! ### What stands in front of a label -/

/-- A text that leads to the label, or two where the rest of the rules depends on it. -/
def texts : Label → List ZendString
  | .yycRule => [[]]
  | .yy125 => [[97]]
  | .yy127 => [[32], [32, 32]]
  | .yy128 => [[10]]
  | .yy129 => [[13]]
  | .yy130 => [[46]]
  | .yy131 => [[59]]
  | .yy132 => [[128]]
  | .yy133 => [[10, 32]]
  | .yy135 => [[10, 13]]
  | .yy136 => [[10, 46]]
  | .yy137 => [[13, 10]]
  | .yy138 => [[46, 97]]
  | .yy140 => [[46, 97, 40]]
  | .yy141 => [[46, 97, 40, 34]]
  | .yy142 => [[46, 97, 40, 41]]
  | .yy143 => [[46, 97, 40, 97]]
  | .yy144 => [[46, 97, 40, 34, 34]]
  | .yy145 => [[46, 97, 40, 34, 92]]
  | .yy145a => [[46, 97, 40, 34, 92, 34]]
  | .yy145b => [[46, 97, 40, 34, 92, 34, 41]]

/-- The marks the code may go back to from a label, if it does not set one itself. -/
def marks : Label → List ℕ
  | .yy133 | .yy135 | .yy137 => [0]
  | .yy140 | .yy143 => [1]
  | .yy141 | .yy144 | .yy145 | .yy145a => [1, 2]
  | _ => []

/-- No segments in particular. -/
def whole : List (Segment ByteClass Tag) := [⟨[], .any, some .any⟩]

def lf : List (Segment ByteClass Tag) := [⟨[], .byte 10, none⟩]

def cr : List (Segment ByteClass Tag) := [⟨[], .byte 13, none⟩]

def crlf : List (Segment ByteClass Tag) := ⟨[], .byte 10, none⟩ :: cr

/-- What stands behind a newline. -/
def context (newline : List (Segment ByteClass Tag)) : List (Segment ByteClass Tag) :=
  ⟨[.yyt1], .any, some .any⟩ :: newline

def dot : List (Segment ByteClass Tag) := [⟨[], .byte 46, none⟩]

def name : List (Segment ByteClass Tag) := ⟨[.yyt1], .alpha, some .word⟩ :: dot

def paren : List (Segment ByteClass Tag) := ⟨[.yyt2], .byte 40, none⟩ :: name

/-- The end of `.name()`. -/
def noArgument : List (Segment ByteClass Tag) := ⟨[.yyt3, .yyt4], .byte 41, none⟩ :: paren

def argument : List (Segment ByteClass Tag) := ⟨[.yyt3], .inLine, some .inLine⟩ :: paren

def close : List (Segment ByteClass Tag) := ⟨[.yyt4], .byte 41, none⟩ :: argument

/-- The segments of the text in front of a label. -/
def cuts : Label → List (List (Segment ByteClass Tag))
  | .yycRule => [[]]
  | .yy125 | .yy127 | .yy131 | .yy132 => [whole]
  | .yy128 => [lf]
  | .yy129 => [cr]
  | .yy130 => [dot]
  | .yy133 | .yy135 | .yy136 => [context lf, context crlf]
  | .yy137 => [crlf]
  | .yy138 => [name]
  | .yy140 => [paren]
  | .yy141 | .yy143 | .yy144 | .yy145 | .yy145a => [argument]
  | .yy142 => [noArgument, close]
  | .yy145b => [close]

/-- The segments at the marks, and those the actions with tags rely on. -/
def plan : Plan Label RuleRule ByteClass Tag where
  cuts := cuts
  marks := marks
  markCut
    | 0 => whole
    | 1 => name
    | _ => close
  final
    | .newline => some [(context lf, []), (context crlf, [])]
    | .keyword => some [(name, withoutArgument), (noArgument, []), (close, [])]
    | _ => none

/-! ### The check -/

theorem passes_label (q : Label) : passes machine ruleRules texts plan q = true := by
  cases q <;> decide +kernel

/-- **Every label passes the check.** -/
theorem passes_rule : Passes machine ruleRules texts plan where
  write := rfl
  text := rfl
  cut := rfl
  mark := rfl
  label := passes_label

end Snuffleupagus.Cached.Rule
