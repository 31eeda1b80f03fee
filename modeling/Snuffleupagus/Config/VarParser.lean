import Mathlib.Data.Int.Notation
import Snuffleupagus.Config.Rule

/-! # The parser of variable paths

`sp_parse_var` turns a path such as `$a->b['c']` into a `SpTree`. It looks for the delimiters, sorts
them by their position, and walks over them with the quote and the number of brackets that are open;
the text between the brackets of an index is parsed in turn.

A null pointer is `none`. The offsets are `size_t`: a difference below zero wraps around. What is kept in an
`int`, the start of an index and the difference of two positions, is cut to 32 bits. An index that cannot be
parsed leaves the element without one (`create_var` does not look at the result). -/

namespace Snuffleupagus.Config.VarParser

open Snuffleupagus.Php.Bytes Snuffleupagus.Php.Engine Snuffleupagus.Config.Rule

/-- `sp_conf_token`. -/
structure SpConfToken where
  type : ElemType
  textRepr : ZendString
  pos : ℕ

/-- `delimiter_list`. -/
def delimiterList : List (ElemType × ZendString) :=
  [(.object, zstr "->"), (.array, zstr "["), (.arrayEnd, zstr "]"), (.interpretedString, zstr "\""),
    (.literalString, zstr "'"), (.classConst, zstr "::")]

/-- `parse_str_tokens`: the places of one delimiter, those after `pos` in `s`. -/
def parseStrTokens (type : ElemType) (textRepr : ZendString) : ℕ → ℕ → ZendString → List SpConfToken
  | _, _, [] => []
  | pos, skip + 1, _ :: s => parseStrTokens type textRepr (pos + 1) skip s
  | pos, 0, c :: s =>
    if textRepr.isPrefixOf (c :: s) then
      ⟨type, textRepr, pos⟩ :: parseStrTokens type textRepr (pos + 1) (textRepr.length - 1) s
    else parseStrTokens type textRepr (pos + 1) 0 s

/-- One insertion of `sp_list_sort`: before the first greater element. -/
def insertSorted {α : Type} (lt : α → α → Bool) (x : α) : List α → List α
  | [] => [x]
  | y :: l => if lt x y then x :: y :: l else y :: insertSorted lt x l

/-- `sp_list_sort`. -/
def spListSort {α : Type} (lt : α → α → Bool) (l : List α) : List α :=
  l.foldl (fun sorted x => insertSorted lt x sorted) []

/-- `cmp_tokens`: the difference of two `size_t`, cut to an `int`. -/
def cmpTokens (a b : SpConfToken) : ℤ := ((a.pos : ℤ) - b.pos).bmod (2 ^ 32)

/-- A difference of two `size_t`. -/
def sizeSub (a b : ℕ) : ℕ := (((a : ℤ) - b) % 2 ^ 64).toNat

/-- `is_next_token_empty`. -/
def isNextTokenEmpty (token : SpConfToken) (next : Option SpConfToken) (str : ZendString) : Bool :=
  match next with
  | some next => next.pos == token.pos + token.textRepr.length
  | none => token.pos == sizeSub str.length token.textRepr.length

/-- `is_token_valid`. -/
def isTokenValid (token : SpConfToken) (next : Option SpConfToken) (quote : ElemType) (arrayCount : ℤ)
    (str : ZendString) (pos : ℕ) : Bool :=
  match token.type with
  | .literalString | .interpretedString =>
    if quote = token.type then
      match next with
      | some next => next.pos == token.pos + 1
      | none => token.pos == sizeSub str.length 1
    else true
  | .arrayEnd =>
    if quote = .undefined then
      if arrayCount < 1 then false
      else
        match next with
        | some next => next.type != .interpretedString && next.type != .literalString
        | none => token.pos == sizeSub str.length token.textRepr.length
    else true
  | .object =>
    if quote = .undefined ∧ isNextTokenEmpty token next str then false
    else !(pos == 0 && str.head? != some 36)
  | .classConst => !(quote = .undefined ∧ isNextTokenEmpty token next str)
  | _ => true

/-- `is_var_name_valid`. -/
def isVarNameValid (w : World) (name : ZendString) : Bool :=
  0 ≤ w.pcreExec (zstr "^\\$[a-z_][a-z0-9_]*$") name || 0 ≤ w.pcreExec (zstr "^[a-z_0-9\\\\]*$") name

/-- An element of a path before the elements are linked. -/
structure VarNode where
  type : ElemType
  value : ZendString
  idx : SpTree

/-- The elements linked by `next`. -/
def link : List VarNode → SpTree
  | [] => .nil
  | n :: l => .node n.type n.value n.idx (link l)

/-- `create_var`, with the index already parsed; `none` is its error. -/
def createVar (w : World) (value : ZendString) (valueLen : ℕ) (type : ElemType) (idx : SpTree) :
    Option VarNode :=
  let type := if value.head? = some 36 ∧ type = .constant then .var else type
  let value := value.take valueLen
  if type ≠ .interpretedString ∧ !isVarNameValid w value then none else some ⟨type, value, idx⟩

/-- The state of the loop of `parse_tokens`. -/
structure PathState where
  pos : ℕ := 0
  arrayCount : ℤ := 0
  posIdxStart : ℤ := -1
  quote : ElemType := .undefined
  tree : List VarNode := []

/-- The quote a delimiter opens or closes, and the position after it. -/
def quoteStep (token : SpConfToken) (s : PathState) : ElemType × PathState :=
  if token.type = .interpretedString ∨ token.type = .literalString then
    (.interpretedString,
      { s with
        pos := if s.quote = .undefined ∧ s.arrayCount = 0 then s.pos + token.textRepr.length else s.pos
        quote := if s.quote = .undefined then token.type
          else if s.quote = token.type then .undefined else s.quote })
  else (token.type, s)

/-- The brackets opened and closed so far. -/
def bracketStep (token : SpConfToken) (type : ElemType) (s : PathState) : ElemType × PathState :=
  match type with
  | .array =>
    (.array,
      { s with
        posIdxStart := if s.arrayCount ≠ 0 then s.posIdxStart
          else ((token.pos + token.textRepr.length : ℕ) : ℤ).bmod (2 ^ 32)
        arrayCount := s.arrayCount + 1 })
  | .arrayEnd => (.array, { s with arrayCount := s.arrayCount - 1 })
  | type => (type, s)

/-- One turn of the loop of `parse_tokens`; `parseVar` parses an index. -/
def tokenStep (w : World) (parseVar : ZendString → Option SpTree) (str : ZendString)
    (token : SpConfToken) (next : Option SpConfToken) (s : PathState) : Option PathState :=
  if !isTokenValid token next s.quote s.arrayCount str s.pos then none
  else
    let (type, s) := quoteStep token s
    if s.quote ≠ .undefined then some s
    else
      let (type, s) := bracketStep token type s
      if s.arrayCount ≠ 0 then some s
      else
        let valueLen := sizeSub token.pos s.pos
        let valueLen := if type = .array then sizeSub valueLen token.textRepr.length else valueLen
        let idxLen := sizeSub token.pos s.posIdxStart.toNat
        let idxText := (str.drop s.posIdxStart.toNat).take idxLen
        let valueLen := if s.posIdxStart > 0 then sizeSub valueLen idxLen else valueLen
        let idx := if s.posIdxStart > 0 then (parseVar idxText).getD .nil else .nil
        match createVar w (str.drop s.pos) valueLen type idx with
        | none => none
        | some node =>
          some { s with
            tree := s.tree ++ [node]
            pos := token.pos + token.textRepr.length
            posIdxStart := -1 }

/-- The loop of `parse_tokens`. -/
def tokenLoop (w : World) (parseVar : ZendString → Option SpTree) (str : ZendString) :
    List SpConfToken → PathState → Option PathState
  | [], s => some s
  | token :: tokens, s =>
    match tokenStep w parseVar str token tokens.head? s with
    | none => none
    | some s => tokenLoop w parseVar str tokens s

/-- `parse_tokens`: the elements of the path. -/
def parseTokens (w : World) (parseVar : ZendString → Option SpTree) (str : ZendString)
    (tokens : List SpConfToken) : Option (List VarNode) :=
  match tokenLoop w parseVar str tokens {} with
  | none => none
  | some s =>
    if s.arrayCount ≠ 0 then none
    else if s.quote ≠ .undefined then none
    else if s.pos = str.length then some s.tree
    else
      match createVar w (str.drop s.pos) (sizeSub str.length s.pos) .constant .nil with
      | none => none
      | some node => some (s.tree ++ [node])

/-- `sp_parse_var` with room for `n` nested indices. -/
def parseVarFuel (w : World) : ℕ → ZendString → Option SpTree
  | 0, _ => none
  | n + 1, line =>
    let tokens := delimiterList.flatMap fun d => parseStrTokens d.1 d.2 0 0 line
    let tokens := spListSort (fun a b => cmpTokens a b < 0) tokens
    match parseTokens w (parseVarFuel w n) line tokens with
    | none => none
    | some [] => some (.node .constant [] .nil .nil)
    | some tree => some (link tree)

/-- `sp_parse_var`: an index is shorter than the path it stands in. -/
def spParseVar (w : World) (line : ZendString) : Option SpTree := parseVarFuel w (line.length + 1) line

end Snuffleupagus.Config.VarParser
