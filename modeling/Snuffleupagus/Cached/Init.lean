import Snuffleupagus.Cached.Machine

/-! # The generated scanner between statements

The labels of the start condition `init`. `yy3`, `yy64`, `yy67`, `yy79` and `yy83` are actions, and `yy12` goes back to
the mark. `yy91a` and `yy91b` are the letters `yy91` goes on with, and `yy92a` is the end of `yy92`. -/

namespace Snuffleupagus.Cached.Init

open Snuffleupagus.Lib.Lexer Snuffleupagus.Lib.Backup
open Snuffleupagus.Lib.Segments (TagOp Tags Segment Plan)
open Snuffleupagus.Php.Bytes
open Snuffleupagus.Scanner.Token (InitRule)
open Snuffleupagus.Cached.Machine

/-! ### The code -/

/-- The labels. -/
inductive Label
  | yycInit | yy1 | yy2 | yy4 | yy5 | yy6 | yy7 | yy8 | yy9 | yy10 | yy11 | yy13 | yy14 | yy15 | yy16 | yy17
  | yy18 | yy19 | yy20 | yy21 | yy22 | yy23 | yy24 | yy25 | yy26 | yy27 | yy28 | yy29 | yy30 | yy31 | yy32
  | yy33 | yy34 | yy35 | yy36 | yy38 | yy39 | yy41 | yy42 | yy43 | yy44 | yy45 | yy46 | yy47 | yy48 | yy50
  | yy51 | yy52 | yy53 | yy54 | yy55 | yy56 | yy57 | yy58 | yy59 | yy60 | yy61 | yy62 | yy63 | yy65 | yy66
  | yy68 | yy69 | yy70 | yy71 | yy72 | yy73 | yy74 | yy75 | yy76 | yy77 | yy78 | yy80 | yy81 | yy82 | yy84
  | yy85 | yy86 | yy87 | yy88 | yy89 | yy90 | yy91 | yy91a | yy91b | yy92 | yy92a
  deriving DecidableEq

/-- `yybm_init`. -/
def yybmInit : List (List ℕ) := [
  [0, 80, 80, 80, 80, 80, 80, 80], [80, 88, 0, 80, 80, 0, 80, 80], [80, 80, 80, 80, 80, 80, 80, 80],
  [80, 80, 80, 80, 80, 80, 80, 80], [88, 80, 16, 80, 80, 80, 80, 80], [80, 80, 80, 80, 80, 80, 80, 80],
  [112, 112, 112, 112, 112, 112, 112, 112], [112, 112, 80, 80, 80, 80, 80, 80],
  [80, 112, 112, 112, 112, 112, 112, 112], [112, 112, 112, 112, 112, 112, 112, 112],
  [112, 112, 112, 112, 112, 112, 112, 112], [112, 112, 112, 80, 144, 80, 80, 112],
  [80, 112, 112, 112, 112, 112, 112, 112], [112, 112, 112, 112, 112, 112, 112, 112],
  [112, 112, 112, 112, 112, 112, 112, 112], [112, 112, 112, 80, 80, 80, 80, 80],
  [80, 80, 80, 80, 80, 80, 80, 80], [80, 80, 80, 80, 80, 80, 80, 80], [80, 80, 80, 80, 80, 80, 80, 80],
  [80, 80, 80, 80, 80, 80, 80, 80], [80, 80, 80, 80, 80, 80, 80, 80], [80, 80, 80, 80, 80, 80, 80, 80],
  [80, 80, 80, 80, 80, 80, 80, 80], [80, 80, 80, 80, 80, 80, 80, 80], [80, 80, 80, 80, 80, 80, 80, 80],
  [80, 80, 80, 80, 80, 80, 80, 80], [80, 80, 80, 80, 80, 80, 80, 80], [80, 80, 80, 80, 80, 80, 80, 80],
  [80, 80, 80, 80, 80, 80, 80, 80], [80, 80, 80, 80, 80, 80, 80, 80], [80, 80, 80, 80, 80, 80, 80, 80],
  [80, 80, 80, 80, 80, 80, 80, 80]]

/-- `yy37`. -/
def yy37 (yych : ℕ) : Jump Label (TagOp Tag) InitRule :=
  blanks yych .yy36 .yy45 .yyt1

/-- `yy40`. -/
def yy40 (yych : ℕ) : Jump Label (TagOp Tag) InitRule :=
  blanks yych .yy39 .yy47 .yyt1

/-- `yy49`. -/
def yy49 (yych : ℕ) : Jump Label (TagOp Tag) InitRule :=
  blanks yych .yy48 .yy58 .yyt1

/-- The labels of the code. -/
def block : Label → Block UInt8 Label (TagOp Tag) InitRule
  | .yycInit => read fun yych =>
    if bit yybmInit yych 8 then .goto .yy4 []
    else if yych ≤ 35 then
      if yych ≤ 10 then
        if yych ≤ 0 then .goto .yy1 []
        else if yych ≤ 8 then .goto .yy2 []
        else .goto .yy5 []
      else if yych = 13 then .goto .yy6 []
      else if yych ≤ 34 then .goto .yy2 []
      else .goto .yy7 []
    else if yych ≤ 64 then
      if yych = 59 then .goto .yy7 []
      else if yych ≤ 63 then .goto .yy2 []
      else .goto .yy8 []
    else if yych = 115 then .goto .yy9 []
    else if yych ≤ 127 then .goto .yy2 []
    else .goto .yy10 []
  | .yy1 => .skip .endByte []
  | .yy2 => .skip .other []
  | .yy4 => read fun yych => if bit yybmInit yych 8 then .goto .yy4 [] else .act .whitespace []
  | .yy5 => .skip .newline []
  | .yy6 => read fun yych => if yych = 10 then .goto .yy5 [] else .act .other []
  | .yy7 => read fun yych => if bit yybmInit yych 16 then .goto .yy7 [] else .act .comment []
  | .yy8 => readMark 0 [] fun yych =>
    if yych = 99 then .goto .yy11 []
    else if yych = 101 then .goto .yy13 []
    else if yych = 105 then .goto .yy14 []
    else if yych = 108 then .goto .yy15 []
    else if yych = 115 then .goto .yy16 []
    else if yych = 119 then .goto .yy17 []
    else .act .other []
  | .yy9 => readMark 0 [] fun yych =>
    if yych = 101 then .goto .yy18 []
    else if yych = 112 then .goto .yy19 []
    else .act .other []
  | .yy10 => .skip .nonascii []
  | .yy11 => read fun yych => expect yych 111 .yy20
  | .yy13 => read fun yych => if yych = 110 then .goto .yy21 [] else expect yych 114 .yy22
  | .yy14 => read fun yych => expect yych 110 .yy23
  | .yy15 => read fun yych => expect yych 111 .yy24
  | .yy16 => read fun yych => expect yych 101 .yy18
  | .yy17 => read fun yych => expect yych 97 .yy25
  | .yy18 => read fun yych => expect yych 116 .yy26
  | .yy19 => .skip .sp []
  | .yy20 => read fun yych => expect yych 110 .yy27
  | .yy21 => read fun yych => expect yych 100 .yy28
  | .yy22 => read fun yych => expect yych 114 .yy29
  | .yy23 => read fun yych => expect yych 102 .yy30
  | .yy24 => read fun yych => expect yych 103 .yy31
  | .yy25 => read fun yych => expect yych 114 .yy32
  | .yy26 => read fun yych => if yych = 9 then .goto .yy33 [] else expect yych 32 .yy33
  | .yy27 => read fun yych => expect yych 100 .yy34
  | .yy28 => read fun yych => expect yych 95 .yy35
  | .yy29 => read fun yych =>
    if yych = 34 then .restore
    else if yych = 111 then .goto .yy38 []
    else yy37 yych
  | .yy30 => read fun yych => if yych ≠ 111 then .restore else .goto .yy31 []
  | .yy31 => read fun yych => if yych = 34 then .restore else yy40 yych
  | .yy32 => read fun yych => expect yych 110 .yy41
  | .yy33 => read fun yych =>
    if yych ≤ 32 then
      if yych = 9 then .goto .yy33 []
      else if yych ≤ 31 then .restore
      else .goto .yy33 []
    else if yych ≤ 90 then
      if yych ≤ 64 then .restore else .goto .yy42 [.data .yyt1]
    else if yych ≤ 96 then .restore
    else if yych ≤ 122 then .goto .yy42 [.data .yyt1]
    else .restore
  | .yy34 => read fun yych => expect yych 105 .yy43
  | .yy35 => read fun yych => expect yych 99 .yy44
  | .yy36 => read fun yych => yy37 yych
  | .yy38 => read fun yych => expect yych 114 .yy46
  | .yy39 => read fun yych => yy40 yych
  | .yy41 => read fun yych =>
    if yych = 34 then .restore
    else if yych = 105 then .goto .yy50 []
    else yy49 yych
  | .yy42 => read fun yych =>
    if bit yybmInit yych 32 then .goto .yy42 []
    else if yych = 9 then .goto .yy51 [.data .yyt2]
    else if yych = 32 then .goto .yy51 [.data .yyt2]
    else .restore
  | .yy43 => read fun yych => expect yych 116 .yy52
  | .yy44 => read fun yych => expect yych 111 .yy53
  | .yy45 => read fun yych =>
    if bit yybmInit yych 64 then .goto .yy45 []
    else if yych ≤ 13 then .restore
    else if yych ≤ 34 then .goto .yy54 []
    else .goto .yy55 []
  | .yy46 => read fun yych => if yych = 34 then .restore else yy37 yych
  | .yy47 => read fun yych => inString yych .restore .yy47 .yy56 .yy57
  | .yy48 => read fun yych => yy49 yych
  | .yy50 => read fun yych => expect yych 110 .yy59
  | .yy51 => read fun yych => blanks yych .yy51 .yy60 .yyt3
  | .yy52 => read fun yych => expect yych 105 .yy61
  | .yy53 => read fun yych => expect yych 110 .yy62
  | .yy54 => read fun yych => expect yych 59 .yy63
  | .yy55 => read fun yych =>
    if bit yybmInit yych 64 then .goto .yy45 []
    else if yych ≤ 13 then .restore
    else if yych ≤ 34 then .goto .yy65 []
    else .goto .yy55 []
  | .yy56 => read fun yych => expect yych 59 .yy66
  | .yy57 => read fun yych => inString yych .restore .yy47 .yy68 .yy57
  | .yy58 => read fun yych => inString yych .restore .yy58 .yy69 .yy70
  | .yy59 => read fun yych => expect yych 103 .yy71
  | .yy60 => read fun yych => inString yych .restore .yy60 .yy72 .yy73
  | .yy61 => read fun yych => expect yych 111 .yy74
  | .yy62 => read fun yych => expect yych 100 .yy75
  | .yy63 => .skip .error []
  | .yy65 => read fun yych =>
    if bit yybmInit yych 128 then .goto .yy55 []
    else if yych ≤ 13 then
      if yych ≤ 9 then
        if yych ≤ 0 then .restore else .goto .yy45 []
      else if yych ≤ 10 then .restore
      else if yych ≤ 12 then .goto .yy45 []
      else .restore
    else if yych ≤ 34 then
      if yych ≤ 33 then .goto .yy45 [] else .goto .yy54 []
    else if yych = 59 then .goto .yy76 []
    else .goto .yy45 []
  | .yy66 => .skip .info []
  | .yy68 => read fun yych => behindQuote yych .yy47 .yy56 .yy57 .yy77
  | .yy69 => read fun yych => expect yych 59 .yy78
  | .yy70 => read fun yych => inString yych .restore .yy58 .yy80 .yy70
  | .yy71 => read fun yych => if yych = 34 then .restore else yy49 yych
  | .yy72 => read fun yych =>
    if yych ≤ 31 then
      if yych = 9 then .goto .yy81 [.data .yyt5] else .restore
    else if yych ≤ 32 then .goto .yy81 [.data .yyt5]
    else if yych = 59 then .goto .yy82 [.data .yyt5]
    else .restore
  | .yy73 => read fun yych => inString yych .restore .yy60 .yy84 .yy73
  | .yy74 => read fun yych => expect yych 110 .yy85
  | .yy75 => read fun yych => expect yych 105 .yy86
  | .yy76 => readMark 1 [] fun yych =>
    if bit yybmInit yych 64 then .goto .yy45 []
    else if yych ≤ 13 then .act .error []
    else if yych ≤ 34 then .goto .yy54 []
    else .goto .yy55 []
  | .yy77 => readMark 2 [] fun yych => inString yych (.act .info []) .yy47 .yy56 .yy57
  | .yy78 => .skip .warning []
  | .yy80 => read fun yych => behindQuote yych .yy58 .yy69 .yy70 .yy87
  | .yy81 => read fun yych =>
    if yych ≤ 31 then expect yych 9 .yy81
    else if yych ≤ 32 then .goto .yy81 []
    else if yych ≠ 59 then .restore
    else .goto .yy82 []
  | .yy82 => .skip .set [.copy .yyt4 .yyt5]
  | .yy84 => read fun yych =>
    if yych ≤ 31 then
      if yych ≤ 9 then
        if yych ≤ 0 then .restore
        else if yych ≤ 8 then .goto .yy60 []
        else .goto .yy88 [.data .yyt5]
      else if yych ≤ 10 then .restore
      else if yych = 13 then .restore
      else .goto .yy60 []
    else if yych ≤ 58 then
      if yych ≤ 32 then .goto .yy88 [.data .yyt5]
      else if yych = 34 then .goto .yy72 []
      else .goto .yy60 []
    else if yych ≤ 59 then .goto .yy89 [.data .yyt5]
    else if yych = 92 then .goto .yy73 []
    else .goto .yy60 []
  | .yy85 => read fun yych => if yych = 9 then .goto .yy90 [] else expect yych 32 .yy90
  | .yy86 => read fun yych => expect yych 116 .yy91
  | .yy87 => readMark 3 [] fun yych => inString yych (.act .warning []) .yy58 .yy69 .yy70
  | .yy88 => read fun yych =>
    if yych ≤ 31 then
      if yych ≤ 9 then
        if yych ≤ 0 then .restore
        else if yych ≤ 8 then .goto .yy60 []
        else .goto .yy88 []
      else if yych ≤ 10 then .restore
      else if yych = 13 then .restore
      else .goto .yy60 []
    else if yych ≤ 58 then
      if yych ≤ 32 then .goto .yy88 []
      else if yych = 34 then .goto .yy72 []
      else .goto .yy60 []
    else if yych ≤ 59 then .goto .yy89 []
    else if yych = 92 then .goto .yy73 []
    else .goto .yy60 []
  | .yy89 => readMark 4 [.copy .yyt4 .yyt5] fun yych => inString yych (.act .set []) .yy60 .yy72 .yy73
  | .yy90 => read fun yych =>
    if yych = 9 then .goto .yy90 []
    else if yych = 32 then .goto .yy90 []
    else .act .condition []
  | .yy91 => read fun yych => if yych ≠ 105 then .restore else .goto .yy91a []
  | .yy91a => read fun yych => if yych ≠ 111 then .restore else .goto .yy91b []
  | .yy91b => read fun yych => if yych ≠ 110 then .restore else .goto .yy92 []
  | .yy92 => read fun yych =>
    if yych ≤ 31 then expect yych 9 .yy92
    else if yych ≤ 32 then .goto .yy92 []
    else if yych ≠ 59 then .restore
    else .goto .yy92a []
  | .yy92a => .skip .endCondition []


/-- What the cases of `yyaccept` go on with. -/
def marked : ℕ → InitRule × List (TagOp Tag)
  | 0 => (.other, [])
  | 1 => (.error, [])
  | 2 => (.info, [])
  | 3 => (.warning, [])
  | _ => (.set, [])

/-- The lexer. -/
def machine : Machine UInt8 Label (TagOp Tag) InitRule (Tags Tag) where
  write := TagOp.write
  start := .yycInit
  block := block
  marked := marked

/-! ### What stands in front of a label -/

def atCondition : ZendString := chars ['@', 'c', 'o', 'n', 'd', 'i', 't', 'i', 'o', 'n']

def atEndCondition : ZendString := chars ['@', 'e', 'n', 'd', '_', 'c', 'o', 'n', 'd', 'i', 't', 'i', 'o', 'n']

def atError : ZendString := chars ['@', 'e', 'r', 'r', 'o', 'r']

def atInfo : ZendString := chars ['@', 'i', 'n', 'f', 'o']

def atLog : ZendString := chars ['@', 'l', 'o', 'g']

def atWarning : ZendString := chars ['@', 'w', 'a', 'r', 'n', 'i', 'n', 'g']

def set : ZendString := chars ['s', 'e', 't']

/-- A text that leads to the label, or two where the rest of the rules depends on it. -/
def texts : Label → List ZendString
  | .yycInit => [[]]
  | .yy1 => [[0]]
  | .yy2 => [[97]]
  | .yy4 => [[32], [32, 32]]
  | .yy5 => [[10], [13, 10]]
  | .yy6 => [[13]]
  | .yy7 => [[59], [59, 32]]
  | .yy8 => [[64]]
  | .yy9 => [[115]]
  | .yy10 => [[128]]
  | .yy11 => [atCondition.take 2]
  | .yy13 => [atEndCondition.take 2]
  | .yy14 => [atInfo.take 2]
  | .yy15 => [atLog.take 2]
  | .yy16 => [[64, 115]]
  | .yy17 => [atWarning.take 2]
  | .yy18 => [set.take 2]
  | .yy19 => [[115, 112]]
  | .yy20 => [atCondition.take 3]
  | .yy21 => [atEndCondition.take 3]
  | .yy22 => [atError.take 3]
  | .yy23 => [atInfo.take 3]
  | .yy24 => [atLog.take 3]
  | .yy25 => [atWarning.take 3]
  | .yy26 => [set]
  | .yy27 => [atCondition.take 4]
  | .yy28 => [atEndCondition.take 4]
  | .yy29 => [atError.take 4]
  | .yy30 => [atInfo.take 4]
  | .yy31 => [atLog]
  | .yy32 => [atWarning.take 4]
  | .yy33 => [set ++ [32]]
  | .yy34 => [atCondition.take 5]
  | .yy35 => [atEndCondition.take 5]
  | .yy36 => [atError.take 4 ++ [32]]
  | .yy38 => [atError.take 5]
  | .yy39 => [atLog ++ [32]]
  | .yy41 => [atWarning.take 5]
  | .yy42 => [set ++ [32, 97]]
  | .yy43 => [atCondition.take 6]
  | .yy44 => [atEndCondition.take 6]
  | .yy45 => [atError.take 4 ++ [32, 34]]
  | .yy46 => [atError]
  | .yy47 => [atLog ++ [32, 34]]
  | .yy48 => [atWarning.take 5 ++ [32]]
  | .yy50 => [atWarning.take 6]
  | .yy51 => [set ++ [32, 97, 32]]
  | .yy52 => [atCondition.take 7]
  | .yy53 => [atEndCondition.take 7]
  | .yy54 => [atError.take 4 ++ [32, 34, 34]]
  | .yy55 => [atError.take 4 ++ [32, 34, 92]]
  | .yy56 => [atLog ++ [32, 34, 34]]
  | .yy57 => [atLog ++ [32, 34, 92]]
  | .yy58 => [atWarning.take 5 ++ [32, 34]]
  | .yy59 => [atWarning.take 7]
  | .yy60 => [set ++ [32, 97, 32, 34]]
  | .yy61 => [atCondition.take 8]
  | .yy62 => [atEndCondition.take 8]
  | .yy63 => [atError.take 4 ++ [32, 34, 34, 59]]
  | .yy65 => [atError.take 4 ++ [32, 34, 92, 34]]
  | .yy66 => [atLog ++ [32, 34, 34, 59]]
  | .yy68 => [atLog ++ [32, 34, 92, 34]]
  | .yy69 => [atWarning.take 5 ++ [32, 34, 34]]
  | .yy70 => [atWarning.take 5 ++ [32, 34, 92]]
  | .yy71 => [atWarning]
  | .yy72 => [set ++ [32, 97, 32, 34, 34]]
  | .yy73 => [set ++ [32, 97, 32, 34, 92]]
  | .yy74 => [atCondition.take 9]
  | .yy75 => [atEndCondition.take 9]
  | .yy76 => [atError.take 4 ++ [32, 34, 92, 34, 59]]
  | .yy77 => [atLog ++ [32, 34, 92, 34, 59]]
  | .yy78 => [atWarning.take 5 ++ [32, 34, 34, 59]]
  | .yy80 => [atWarning.take 5 ++ [32, 34, 92, 34]]
  | .yy81 => [set ++ [32, 97, 32, 34, 34, 32]]
  | .yy82 => [set ++ [32, 97, 32, 34, 34, 59]]
  | .yy84 => [set ++ [32, 97, 32, 34, 92, 34]]
  | .yy85 => [atCondition]
  | .yy86 => [atEndCondition.take 10]
  | .yy87 => [atWarning.take 5 ++ [32, 34, 92, 34, 59]]
  | .yy88 => [set ++ [32, 97, 32, 34, 92, 34, 32]]
  | .yy89 => [set ++ [32, 97, 32, 34, 92, 34, 59]]
  | .yy90 => [atCondition ++ [32]]
  | .yy91 => [atEndCondition.take 11]
  | .yy91a => [atEndCondition.take 12]
  | .yy91b => [atEndCondition.take 13]
  | .yy92 => [atEndCondition]
  | .yy92a => [atEndCondition ++ [59]]

/-- The marks the code may go back to from a label, if it does not set one itself. -/
def marks : Label → List ℕ
  | .yy11 | .yy13 | .yy14 | .yy15 | .yy16 | .yy17 | .yy18 | .yy20 | .yy21 | .yy22 | .yy23 | .yy24
  | .yy25 | .yy26 | .yy27 | .yy28 | .yy29 | .yy30 | .yy31 | .yy32 | .yy33 | .yy34 | .yy35 | .yy36
  | .yy38 | .yy39 | .yy41 | .yy42 | .yy43 | .yy44 | .yy46 | .yy48 | .yy50 | .yy51 | .yy52 | .yy53
  | .yy59 | .yy61 | .yy62 | .yy71 | .yy74 | .yy75 | .yy85 | .yy86 | .yy91 | .yy91a | .yy91b | .yy92 => [0]
  | .yy45 | .yy54 | .yy55 | .yy65 => [0, 1]
  | .yy47 | .yy56 | .yy57 | .yy68 => [0, 2]
  | .yy58 | .yy69 | .yy70 | .yy80 => [0, 3]
  | .yy60 | .yy72 | .yy73 | .yy81 | .yy84 | .yy88 => [0, 4]
  | _ => []

/-- No segments in particular. -/
def whole : List (Segment ByteClass Tag) := [⟨[], .any, some .any⟩]

/-- `@set` or `set`, or the head of it. -/
def dark : List (Segment ByteClass Tag) := [⟨[], .dark, some .dark⟩]

def setBlank : List (Segment ByteClass Tag) := ⟨[], .blank, some .blank⟩ :: dark

def setName : List (Segment ByteClass Tag) := ⟨[.yyt1], .alpha, some .word⟩ :: setBlank

def setGap : List (Segment ByteClass Tag) := ⟨[.yyt2], .blank, some .blank⟩ :: setName

def setString : List (Segment ByteClass Tag) := ⟨[.yyt3], .byte 34, some .inLine⟩ :: setGap

/-- The last quote is a segment of its own: the next one begins behind it. -/
def setQuote : List (Segment ByteClass Tag) := ⟨[], .byte 34, none⟩ :: setString

/-- The end of `set`, whose position is in the variable `t`. -/
def setEnd (t : Tag) : List (Segment ByteClass Tag) := ⟨[t], .ending, some .ending⟩ :: setQuote

/-- A message in front of its string. -/
def quiet : List (Segment ByteClass Tag) := [⟨[], .nonquote, some .nonquote⟩]

def messageString : List (Segment ByteClass Tag) := ⟨[.yyt1], .byte 34, some .inLine⟩ :: quiet

/-- The segments of the text in front of a label. -/
def cuts : Label → List (List (Segment ByteClass Tag))
  | .yycInit => [[]]
  | .yy1 | .yy2 | .yy4 | .yy5 | .yy6 | .yy7 | .yy10 | .yy11 | .yy19 | .yy20 | .yy21 | .yy27 | .yy28
  | .yy34 | .yy35 | .yy43 | .yy44 | .yy52 | .yy53 | .yy61 | .yy62 | .yy74 | .yy75 | .yy85 | .yy86
  | .yy90 | .yy91 | .yy91a | .yy91b | .yy92 | .yy92a => [whole]
  | .yy8 | .yy9 | .yy16 | .yy18 | .yy26 => [dark]
  | .yy13 | .yy14 | .yy15 | .yy17 | .yy22 | .yy23 | .yy24 | .yy25 | .yy29 | .yy30 | .yy31 | .yy32
  | .yy36 | .yy38 | .yy39 | .yy41 | .yy46 | .yy48 | .yy50 | .yy59 | .yy71 => [quiet]
  | .yy33 => [setBlank]
  | .yy42 => [setName]
  | .yy45 | .yy47 | .yy54 | .yy55 | .yy56 | .yy57 | .yy58 | .yy63 | .yy65 | .yy66 | .yy68 | .yy69
  | .yy70 | .yy76 | .yy77 | .yy78 | .yy80 | .yy87 => [messageString]
  | .yy51 => [setGap]
  | .yy60 | .yy73 => [setString]
  | .yy72 | .yy84 => [setQuote]
  | .yy81 | .yy82 | .yy88 | .yy89 => [setEnd .yyt5]

/-- The segments at the marks, and those the actions with tags rely on. -/
def plan : Plan Label InitRule ByteClass Tag where
  cuts := cuts
  marks := marks
  markCut
    | 0 => whole
    | 1 | 2 | 3 => messageString
    | _ => setEnd .yyt4
  final
    | .set => some [(setEnd .yyt4, []), (setEnd .yyt5, [.copy .yyt4 .yyt5])]
    | .info | .warning | .error => some [(messageString, [])]
    | _ => none

/-! ### The check -/

/-- The labels of the other tokens, and of the words of a condition. -/
def words : List Label :=
  [.yycInit, .yy1, .yy2, .yy4, .yy5, .yy6, .yy7, .yy8, .yy9, .yy10, .yy11, .yy16, .yy18, .yy19, .yy20, .yy21]

def words' : List Label :=
  [.yy26, .yy27, .yy28, .yy34, .yy35, .yy43, .yy44, .yy52, .yy53, .yy61, .yy62, .yy74, .yy75, .yy85, .yy86,
  .yy90]

def words'' : List Label :=
  [.yy91, .yy91a, .yy91b, .yy92, .yy92a]

/-- The labels in front of the string of a message. -/
def messageWords : List Label :=
  [.yy13, .yy14, .yy15, .yy17, .yy22, .yy23, .yy24, .yy25, .yy29, .yy30, .yy31, .yy32, .yy36, .yy38, .yy39,
  .yy41]

def messageWords' : List Label :=
  [.yy46, .yy48, .yy50, .yy59, .yy71]

/-- The labels of that string. -/
def messages : List Label :=
  [.yy45, .yy47, .yy54, .yy55, .yy56, .yy57, .yy58, .yy63, .yy65, .yy66, .yy68, .yy69, .yy70, .yy76, .yy77,
  .yy78]

def messages' : List Label :=
  [.yy80, .yy87]

/-- The labels of a variable. -/
def sets : List Label :=
  [.yy33, .yy42, .yy51, .yy60, .yy72, .yy73, .yy81, .yy82, .yy84, .yy88, .yy89]

theorem passes_words : ∀ q ∈ words, passes machine initRules texts plan q = true := by decide +kernel

theorem passes_words' : ∀ q ∈ words', passes machine initRules texts plan q = true := by decide +kernel

theorem passes_words'' : ∀ q ∈ words'', passes machine initRules texts plan q = true := by decide +kernel

theorem passes_messageWords : ∀ q ∈ messageWords, passes machine initRules texts plan q = true := by decide +kernel

theorem passes_messageWords' : ∀ q ∈ messageWords', passes machine initRules texts plan q = true := by decide +kernel

theorem passes_messages : ∀ q ∈ messages, passes machine initRules texts plan q = true := by decide +kernel

theorem passes_messages' : ∀ q ∈ messages', passes machine initRules texts plan q = true := by decide +kernel

theorem passes_sets : ∀ q ∈ sets, passes machine initRules texts plan q = true := by decide +kernel

theorem mem_groups (q : Label) : q ∈ words ∨ q ∈ words' ∨ q ∈ words'' ∨ q ∈ messageWords ∨ q ∈ messageWords' ∨ q ∈ messages ∨ q ∈ messages' ∨ q ∈ sets := by
  cases q <;> decide

/-- **Every label passes the check.** -/
theorem passes_init : Passes machine initRules texts plan where
  write := rfl
  text := rfl
  cut := rfl
  mark := rfl
  label q := by
    rcases mem_groups q with h | h | h | h | h | h | h | h
    · exact passes_words q h
    · exact passes_words' q h
    · exact passes_words'' q h
    · exact passes_messageWords q h
    · exact passes_messageWords' q h
    · exact passes_messages q h
    · exact passes_messages' q h
    · exact passes_sets q h

end Snuffleupagus.Cached.Init
