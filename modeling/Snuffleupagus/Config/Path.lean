import Snuffleupagus.Config.VarParser

/-! # Variable paths

The paths a rule can name: a variable, a constant or a class constant, followed by indices in brackets and
properties. An index is a quoted string, a number, or again a path. The names are those of the two regular
expressions of the parser (`REGEXP_VAR`, `REGEXP_CONST`).

A path has a text, and elements: what stands in front of a `->` is an object, what stands in front of a bracket
an array with its index. Between an index and a following `->` there is an object without a name. -/

namespace Snuffleupagus.Config.Path

open Snuffleupagus.Php.Bytes Snuffleupagus.Php.Engine Snuffleupagus.Config.Rule
open Snuffleupagus.Config.VarParser

/-! ### Names -/

/-- Letters of either case and `_`. -/
def isNameStart (c : UInt8) : Bool := (97 ≤ toLower c && toLower c ≤ 122) || c == 95

def isNameChar (c : UInt8) : Bool := isNameStart c || isDigit c

/-- Constants and classes may be in a namespace. -/
def isConstChar (c : UInt8) : Bool := isNameChar c || c == 92

/-- The name of a variable, without its `$`. -/
def VarName := {n : ZendString // ∃ c s, n = c :: s ∧ isNameStart c = true ∧ ∀ c ∈ s, isNameChar c = true}

/-- The name of a constant, a class or a property. -/
def ConstName := {n : ZendString // n ≠ [] ∧ ∀ c ∈ n, isConstChar c = true}

/-- What the engine is known to do with the two regular expressions: it matches names. -/
structure MatchesNames (w : World) : Prop where
  var : ∀ c s, isNameStart c = true → (∀ c ∈ s, isNameChar c = true) →
    0 ≤ w.pcreExec (zstr "^\\$[a-z_][a-z0-9_]*$") (36 :: c :: s)
  const : ∀ s, (∀ c ∈ s, isConstChar c = true) → 0 ≤ w.pcreExec (zstr "^[a-z_0-9\\\\]*$") s

/-- An engine that matches names only. -/
def nameWorld : World :=
  { World.empty 80000 with
    pcreExec := fun pattern subject =>
      let name := if subject.getLast? = some 10 then subject.dropLast else subject
      if pattern = zstr "^[a-z_0-9\\\\]*$" then
        if name.all isConstChar then 1 else -1
      else
        match name with
        | 36 :: c :: name => if isNameStart c && name.all isNameChar then 1 else -1
        | _ => -1 }

/-- A name does not end with a newline. -/
theorem getLast?_ne_newline {s : ZendString} (h : ∀ c ∈ s, isConstChar c = true ∨ c = 36) : s.getLast? ≠ some 10 := by
  intro hlast
  have hmem := h 10 (List.mem_of_getLast? hlast)
  exact absurd hmem (by decide)

theorem matchesNames_nameWorld : MatchesNames nameWorld where
  var := by
    intro c s hc hs
    have hpattern : zstr "^\\$[a-z_][a-z0-9_]*$" ≠ zstr "^[a-z_0-9\\\\]*$" := by decide +kernel
    have hlast : (36 :: c :: s).getLast? ≠ some 10 := by
      refine getLast?_ne_newline fun d hd => ?_
      rcases List.mem_cons.mp hd with rfl | hd
      · exact Or.inr rfl
      · rcases List.mem_cons.mp hd with rfl | hd
        · simp [isConstChar, isNameChar, hc]
        · simp [isConstChar, hs d hd]
    have hall : s.all isNameChar = true := List.all_eq_true.mpr hs
    dsimp only [nameWorld]
    rw [if_neg hlast, if_neg hpattern]
    show 0 ≤ if (isNameStart c && s.all isNameChar) = true then (1 : ℤ) else -1
    rw [hc, hall]
    decide
  const := by
    intro s hs
    have hlast : s.getLast? ≠ some 10 := getLast?_ne_newline fun c hc => Or.inl (hs c hc)
    have hall : s.all isConstChar = true := List.all_eq_true.mpr hs
    dsimp only [nameWorld]
    rw [if_neg hlast, if_pos rfl, if_pos hall]
    decide

/-! ### Paths -/

inductive Quote
  | single | double

def Quote.char : Quote → UInt8
  | .single => 39
  | .double => 34

/-- What a path starts with. -/
inductive Head
  | var (name : VarName)
  | const (name : ConstName)
  | classConst (class_ name : ConstName)

mutual

/-- What stands between brackets. -/
inductive Index
  | quoted (q : Quote) (s : {s : ZendString // q.char ∉ s ∧ 0 ∉ s})
  | number (negative : Bool) (digits : {s : ZendString // s ≠ [] ∧ ∀ c ∈ s, isDigit c = true})
  | path (head : Head) (steps : Steps)

/-- What follows the head of a path. -/
inductive Steps
  | nil
  | index (i : Index) (rest : Steps)
  | prop (name : ConstName) (rest : Steps)

end

/-- **A variable path.** -/
structure VarPath where
  head : Head
  steps : Steps

/-! ### The text of a path -/

/-- The class of a class constant. -/
def Head.scope : Head → ZendString
  | .classConst class_ _ => class_.1 ++ zstr "::"
  | _ => []

/-- The name that the indices and properties follow. -/
def Head.name : Head → ZendString
  | .var name => 36 :: name.1
  | .const name => name.1
  | .classConst _ name => name.1

mutual

def Index.text : Index → ZendString
  | .quoted q s => q.char :: s.1 ++ [q.char]
  | .number negative digits => if negative then 45 :: digits.1 else digits.1
  | .path head steps => head.scope ++ head.name ++ steps.text

def Steps.text : Steps → ZendString
  | .nil => []
  | .index i rest => zstr "[" ++ i.text ++ zstr "]" ++ rest.text
  | .prop name rest => zstr "->" ++ name.1 ++ rest.text

end

def VarPath.text (p : VarPath) : ZendString := p.head.scope ++ p.head.name ++ p.steps.text

/-! ### The elements of a path -/

def Head.elements : Head → List VarNode
  | .classConst class_ _ => [⟨.classConst, class_.1, .nil⟩]
  | _ => []

mutual

/-- The tree of an index. -/
def Index.tree : Index → SpTree
  | .quoted _ s => .node .interpretedString s.1 .nil .nil
  | .number negative digits => .node .constant (if negative then 45 :: digits.1 else digits.1) .nil .nil
  | .path head steps => link (head.elements ++ steps.elements head.name)

/-- The elements from `name` on, which is empty behind an index. -/
def Steps.elements : Steps → ZendString → List VarNode
  | .nil, name =>
    if name = [] then [] else [⟨if name.head? = some 36 then .var else .constant, name, .nil⟩]
  | .index i rest, name => ⟨.array, name, i.tree⟩ :: rest.elements []
  | .prop next rest, name => ⟨.object, name, .nil⟩ :: rest.elements next.1

end

/-- **The tree of a path.** -/
def VarPath.tree (p : VarPath) : SpTree := link (p.head.elements ++ p.steps.elements p.head.name)

/-! ### The paths the parser takes -/

/-- What may follow a constant: it is no object, and its first index has no `->` in its text. -/
def Steps.afterConst : Steps → Prop
  | .nil => True
  | .index i _ => ¬zstr "->" <:+: i.text
  | .prop _ _ => False

def Head.takes : Head → Steps → Prop
  | .const _, steps => steps.afterConst
  | _, _ => True

mutual

/-- Numbers have no sign, and constants only what may follow them. -/
def Index.Supported : Index → Prop
  | .quoted _ _ => True
  | .number negative _ => negative = false
  | .path head steps => head.takes steps ∧ steps.Supported

def Steps.Supported : Steps → Prop
  | .nil => True
  | .index i rest => i.Supported ∧ rest.Supported
  | .prop _ rest => rest.Supported

end

def VarPath.Supported (p : VarPath) : Prop := p.head.takes p.steps ∧ p.steps.Supported

end Snuffleupagus.Config.Path
