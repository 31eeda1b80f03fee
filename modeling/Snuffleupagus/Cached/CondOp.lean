import Snuffleupagus.Cached.Machine

/-! # The generated scanner in front of an operator

The labels of the start condition `cond_op`. `yy95` and `yy121` are actions. -/

namespace Snuffleupagus.Cached.CondOp

open Snuffleupagus.Lib.Lexer Snuffleupagus.Lib.Backup
open Snuffleupagus.Lib.Segments (TagOp Tags Segment Plan)
open Snuffleupagus.Php.Bytes
open Snuffleupagus.Scanner.Token (CondOpRule)
open Snuffleupagus.Cached.Machine

/-! ### The code -/

/-- The labels. -/
inductive Label
  | yycCondOp | yy112 | yy114 | yy115 | yy116 | yy117 | yy118 | yy119 | yy120 | yy122 | yy123 | yy124
  deriving DecidableEq

/-- `yybm_cond_op`. -/
def yybmCondOp : List (List ℕ) := [
  [0, 0, 0, 0, 0, 0, 0, 0], [0, 128, 0, 0, 0, 0, 0, 0], [0, 0, 0, 0, 0, 0, 0, 0], [0, 0, 0, 0, 0, 0, 0, 0],
  [128, 0, 0, 0, 0, 0, 0, 0], [0, 0, 0, 0, 0, 0, 0, 0], [0, 0, 0, 0, 0, 0, 0, 0], [0, 0, 0, 0, 0, 0, 0, 0],
  [0, 0, 0, 0, 0, 0, 0, 0], [0, 0, 0, 0, 0, 0, 0, 0], [0, 0, 0, 0, 0, 0, 0, 0], [0, 0, 0, 0, 0, 0, 0, 0],
  [0, 0, 0, 0, 0, 0, 0, 0], [0, 0, 0, 0, 0, 0, 0, 0], [0, 0, 0, 0, 0, 0, 0, 0], [0, 0, 0, 0, 0, 0, 0, 0],
  [0, 0, 0, 0, 0, 0, 0, 0], [0, 0, 0, 0, 0, 0, 0, 0], [0, 0, 0, 0, 0, 0, 0, 0], [0, 0, 0, 0, 0, 0, 0, 0],
  [0, 0, 0, 0, 0, 0, 0, 0], [0, 0, 0, 0, 0, 0, 0, 0], [0, 0, 0, 0, 0, 0, 0, 0], [0, 0, 0, 0, 0, 0, 0, 0],
  [0, 0, 0, 0, 0, 0, 0, 0], [0, 0, 0, 0, 0, 0, 0, 0], [0, 0, 0, 0, 0, 0, 0, 0], [0, 0, 0, 0, 0, 0, 0, 0],
  [0, 0, 0, 0, 0, 0, 0, 0], [0, 0, 0, 0, 0, 0, 0, 0], [0, 0, 0, 0, 0, 0, 0, 0], [0, 0, 0, 0, 0, 0, 0, 0]]

/-- The labels of the code. -/
def block : Label → Block UInt8 Label (TagOp Tag) CondOpRule
  | .yycCondOp => read fun yych =>
    if bit yybmCondOp yych 128 then .goto .yy114 []
    else if yych ≤ 41 then
      if yych ≤ 13 then
        if yych ≤ 8 then .goto .yy112 []
        else if yych ≤ 10 then .goto .yy115 []
        else if 13 ≤ yych then .goto .yy116 []
        else .goto .yy112 []
      else if yych = 38 then .goto .yy117 [.data .yyt1]
      else if 41 ≤ yych then .goto .yy118 []
      else .goto .yy112 []
    else if yych ≤ 61 then
      if yych ≤ 58 then .goto .yy112 []
      else if yych ≤ 59 then .goto .yy119 []
      else if yych ≤ 60 then .goto .yy120 [.data .yyt1]
      else .goto .yy122 [.data .yyt1]
    else if yych ≤ 62 then .goto .yy120 [.data .yyt1]
    else if yych = 124 then .goto .yy123 [.data .yyt1]
    else .goto .yy112 []
  | .yy112 => .skip .other []
  | .yy114 => read fun yych => if bit yybmCondOp yych 128 then .goto .yy114 [] else .act .whitespace []
  | .yy115 => .skip .newline []
  | .yy116 => read fun yych => if yych = 10 then .goto .yy115 [] else .act .other []
  | .yy117 => read fun yych => if yych = 38 then .goto .yy124 [] else .act .other []
  | .yy118 => .skip .rparen []
  | .yy119 => .skip .semicolon []
  | .yy120 => read fun yych => if yych = 61 then .goto .yy124 [] else .act .operator []
  | .yy122 => read fun yych => if yych = 61 then .goto .yy124 [] else .act .other []
  | .yy123 => read fun yych => if yych ≠ 124 then .act .other [] else .goto .yy124 []
  | .yy124 => .skip .operator []

/-- There are no marks here. -/
def marked : ℕ → CondOpRule × List (TagOp Tag) := fun _ => (.other, [])

/-- The lexer. -/
def machine : Machine UInt8 Label (TagOp Tag) CondOpRule (Tags Tag) where
  write := TagOp.write
  start := .yycCondOp
  block := block
  marked := marked

/-! ### What stands in front of a label -/

/-- A text that leads to the label, or two where the rest of the rules depends on it. -/
def texts : Label → List ZendString
  | .yycCondOp => [[]]
  | .yy112 => [[97]]
  | .yy114 => [[32], [32, 32]]
  | .yy115 => [[10], [13, 10]]
  | .yy116 => [[13]]
  | .yy117 => [[38]]
  | .yy118 => [[41]]
  | .yy119 => [[59]]
  | .yy120 => [[60]]
  | .yy122 => [[61]]
  | .yy123 => [[124]]
  | .yy124 => [[38, 38]]

/-- The marks the code may go back to from a label, if it does not set one itself. -/
def marks : Label → List ℕ
  | _ => []

/-- No segments in particular. -/
def whole : List (Segment ByteClass Tag) := [⟨[], .any, some .any⟩]

def operator : List (Segment ByteClass Tag) := [⟨[.yyt1], .any, some .any⟩]

/-- The segments of the text in front of a label. -/
def cuts : Label → List (List (Segment ByteClass Tag))
  | .yycCondOp => [[]]
  | .yy112 | .yy114 | .yy115 | .yy116 | .yy118 | .yy119 => [whole]
  | .yy117 | .yy120 | .yy122 | .yy123 | .yy124 => [operator]

/-- The segments the action with tags relies on. -/
def plan : Plan Label CondOpRule ByteClass Tag where
  cuts := cuts
  marks := marks
  markCut _ := whole
  final
    | .operator => some [(operator, [])]
    | _ => none

/-! ### The check -/

theorem passes_label (q : Label) : passes machine condOpRules texts plan q = true := by
  cases q <;> decide +kernel

/-- **Every label passes the check.** -/
theorem passes_condOp : Passes machine condOpRules texts plan where
  write := rfl
  text := rfl
  cut := rfl
  mark := rfl
  label := passes_label

end Snuffleupagus.Cached.CondOp
