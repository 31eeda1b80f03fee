import Snuffleupagus.Config.Rule
import Mathlib.Data.List.Forall2
import Mathlib.Data.Option.Basic

/-! # Comparisons in compiled code

One compilation leaves an `op_array` for the code of the file itself, and others for the functions, methods and closures
declared in it, which are reached from there. `sp_sloppy_modify_opcode` goes through the opcodes of the first one and
replaces `==` and `!=`; it does not go into the others. So the whole unit is rewritten exactly if none of these has a
comparison to be replaced (`sloppy_rewriting_iff`).

The engine's `zend_vm_set_opcode_handler` is a parameter: of an opcode as the compiler leaves it, it sets the
handler. -/

namespace Snuffleupagus.Sloppy.Opcode

open Snuffleupagus.Php.Bytes Snuffleupagus.Php.Engine Snuffleupagus.Config.Rule

/-- An operand: its type, and what it refers to. -/
structure Znode where
  type : ℕ
  ref : ℕ

/-- `zend_op`. -/
structure ZendOp where
  opcode : Php.Engine.Opcode
  op1 : Znode
  op2 : Znode
  result : Znode
  extendedValue : ℕ := 0
  handler : ℕ := 0

/-- `zend_op_array`, with those of the functions, methods and closures declared in its code. -/
structure OpArray where
  opcodes : List ZendOp
  declared : List OpArray

/-- The opcodes of the unit's op_arrays: the path says in which declaration of which declaration. -/
def OpArray.at : OpArray → List ℕ → Option (List ZendOp)
  | u, [] => some u.opcodes
  | u, i :: path => u.declared[i]?.bind fun d => d.at path

variable (zendVmSetOpcodeHandler : ZendOp → ZendOp)

/-! ### Rewriting -/

/-- One turn of the loop of `sp_sloppy_modify_opcode`. -/
def modifyOpcode (origOpline : ZendOp) : ZendOp :=
  if origOpline.opcode = .isEqual then zendVmSetOpcodeHandler { origOpline with opcode := .isIdentical }
  else if origOpline.opcode = .isNotEqual then zendVmSetOpcodeHandler { origOpline with opcode := .isNotIdentical }
  else origOpline

/-- `sp_sloppy_modify_opcode`. -/
def spSloppyModifyOpcode : Option OpArray → Option OpArray
  | none => none
  | some opline => some { opline with opcodes := opline.opcodes.map (modifyOpcode zendVmSetOpcodeHandler) }

/-- `sp_compile_string`. -/
def spCompileString (g : SpGlobals) (origZendCompileString : ZendString → Option OpArray) (sourceString : ZendString) :
    SpGlobals × Option OpArray :=
  let opline := origZendCompileString sourceString
  ({ g with evalSourceString := sourceString },
    if g.sloppy then spSloppyModifyOpcode zendVmSetOpcodeHandler opline else opline)

/-- `sp_compile_file`, on what the engine compiles. -/
def spCompileFile (g : SpGlobals) (opline : Option OpArray) : Option OpArray :=
  if g.sloppy then spSloppyModifyOpcode zendVmSetOpcodeHandler opline else opline

/-! ### What is meant -/

/-- `ZEND_IS_EQUAL` and `ZEND_IS_NOT_EQUAL`. -/
def isLoose (op : ZendOp) : Bool := op.opcode == .isEqual || op.opcode == .isNotEqual

/-- The identical counterpart of a comparison; other opcodes are their own. -/
def identicalOpcode : Php.Engine.Opcode → Php.Engine.Opcode
  | .isEqual => .isIdentical
  | .isNotEqual => .isNotIdentical
  | opcode => opcode

/-- **The opcode is rewritten**: the operands are the same, and it has another handler only if it was a comparison. -/
def Rewritten (op op' : ZendOp) : Prop :=
  ∃ handler, op' = { op with opcode := identicalOpcode op.opcode, handler := handler } ∧
    (isLoose op = false → handler = op.handler)

/-- **All comparisons of the unit are strict**, in every op_array, and nothing else has changed. -/
structure Strict (u u' : OpArray) : Prop where
  complete : ∀ path ops, u'.at path = some ops → ∀ op ∈ ops, isLoose op = false
  framed : ∀ path, Option.Rel (List.Forall₂ Rewritten) (u.at path) (u'.at path)

/-- No function, method or closure declared in the unit, at any depth, has a loose comparison. -/
def StrictDeclarations (u : OpArray) : Prop :=
  ∀ i path ops, u.at (i :: path) = some ops → ∀ op ∈ ops, isLoose op = false

/-- The engine sets the handler of the opcode, with the opcode that replaces it. -/
def SetsHandler (op : ZendOp) : Prop :=
  ∃ handler, zendVmSetOpcodeHandler { op with opcode := identicalOpcode op.opcode } =
    { op with opcode := identicalOpcode op.opcode, handler := handler }

section Unit
variable {zendVmSetOpcodeHandler : ZendOp → ZendOp} {u : OpArray}

theorem isLoose_rewritten {op op' : ZendOp} (h : Rewritten op op') : isLoose op' = false := by
  obtain ⟨handler, rfl, -⟩ := h
  unfold isLoose identicalOpcode
  cases op.opcode <;> rfl

/-- An opcode that is no comparison is left alone. -/
theorem rewritten_self {op : ZendOp} (h : isLoose op = false) : Rewritten op op := by
  refine ⟨op.handler, ?_, fun _ => rfl⟩
  have hsame : identicalOpcode op.opcode = op.opcode := by
    unfold isLoose at h
    cases hop : op.opcode <;> rw [hop] at h <;> first | rfl | cases h
  rw [hsame]

theorem rewritten_modifyOpcode {op : ZendOp} (h : SetsHandler zendVmSetOpcodeHandler op) :
    Rewritten op (modifyOpcode zendVmSetOpcodeHandler op) := by
  obtain ⟨handler, hset⟩ := h
  unfold modifyOpcode
  split_ifs with hequal hnot
  · rw [hequal] at hset
    exact ⟨handler, by rw [hequal]; exact hset, fun hl => by rw [isLoose, hequal] at hl; cases hl⟩
  · rw [hnot] at hset
    exact ⟨handler, by rw [hnot]; exact hset, fun hl => by rw [isLoose, hnot] at hl; cases hl⟩
  · exact rewritten_self (by simp [isLoose, hequal, hnot])

/-- **The main op_array is rewritten**, and the others stay as they are. -/
theorem at_modify (ops : List ZendOp) (path : List ℕ) : ({ u with opcodes := ops } : OpArray).at path =
    if path = [] then some ops else u.at path := by
  cases path with
  | nil => rfl
  | cons i path => rfl

/-- **The unit is strict**, exactly if what is declared in it was. -/
theorem strict_iff (hset : ∀ op ∈ u.opcodes, SetsHandler zendVmSetOpcodeHandler op) :
    Strict u { u with opcodes := u.opcodes.map (modifyOpcode zendVmSetOpcodeHandler) } ↔ StrictDeclarations u := by
  constructor
  · intro h i path ops hops
    exact h.complete (i :: path) ops hops
  · intro h
    have hframed : ∀ path, Option.Rel (List.Forall₂ Rewritten) (u.at path)
        (({ u with opcodes := u.opcodes.map (modifyOpcode zendVmSetOpcodeHandler) } : OpArray).at path) := by
      intro path
      rw [at_modify]
      cases path with
      | nil =>
        refine Option.Rel.some ?_
        rw [List.forall₂_map_right_iff]
        exact List.forall₂_same.mpr fun op hop => rewritten_modifyOpcode (hset op hop)
      | cons i path =>
        rw [if_neg (List.cons_ne_nil i path)]
        cases hops : u.at (i :: path) with
        | none => exact Option.Rel.none
        | some ops =>
          exact Option.Rel.some (List.forall₂_same.mpr fun op hop => rewritten_self (h i path ops hops op hop))
    refine ⟨fun path ops hops op hop => ?_, hframed⟩
    have hrel := hframed path
    rw [hops] at hrel
    cases hold : u.at path with
    | none =>
      rw [hold] at hrel
      cases hrel
    | some old =>
      rw [hold] at hrel
      obtain ⟨hops⟩ := hrel
      obtain ⟨n, hn, rfl⟩ := List.mem_iff_getElem.mp hop
      exact isLoose_rewritten (hops.get (by rw [hops.length_eq]; exact hn) hn)

end Unit

/-- **A unit is rewritten as a whole**, exactly if nothing declared in it compares loosely; what has changed is
rewritten in any case. -/
theorem sloppy_rewriting_iff (g : SpGlobals) (u : OpArray) (hg : g.sloppy = true)
    (hset : ∀ op ∈ u.opcodes, SetsHandler zendVmSetOpcodeHandler op) :
    ((∃ u', spCompileFile zendVmSetOpcodeHandler g (some u) = some u' ∧ Strict u u') ↔ StrictDeclarations u) ∧
    (∀ compile source, compile source = some u →
      ((∃ u', (spCompileString zendVmSetOpcodeHandler g compile source).2 = some u' ∧ Strict u u') ↔
        StrictDeclarations u)) ∧
    ∀ u', spCompileFile zendVmSetOpcodeHandler g (some u) = some u' →
      ∀ path, Option.Rel (List.Forall₂ fun op op' => op' = op ∨ Rewritten op op') (u.at path) (u'.at path) := by
  have hfile : spCompileFile zendVmSetOpcodeHandler g (some u) =
      some { u with opcodes := u.opcodes.map (modifyOpcode zendVmSetOpcodeHandler) } := by
    unfold spCompileFile
    rw [if_pos hg]
    rfl
  have hunit : (∃ u', spCompileFile zendVmSetOpcodeHandler g (some u) = some u' ∧ Strict u u') ↔
      StrictDeclarations u := by
    rw [hfile, ← strict_iff hset]
    constructor
    · rintro ⟨u', hu', h⟩
      exact Option.some.inj hu' ▸ h
    · exact fun h => ⟨_, rfl, h⟩
  refine ⟨hunit, fun compile source hcompile => ?_, fun u' hu' path => ?_⟩
  · have hstring : (spCompileString zendVmSetOpcodeHandler g compile source).2 =
        spCompileFile zendVmSetOpcodeHandler g (some u) := by
      unfold spCompileString spCompileFile
      rw [hcompile]
    rw [hstring]
    exact hunit
  · rw [hfile] at hu'
    cases hu'
    rw [at_modify]
    cases path with
    | nil =>
      refine Option.Rel.some ?_
      rw [List.forall₂_map_right_iff]
      exact List.forall₂_same.mpr fun op hop => Or.inr (rewritten_modifyOpcode (hset op hop))
    | cons i path =>
      rw [if_neg (List.cons_ne_nil i path)]
      cases u.at (i :: path) with
      | none => exact Option.Rel.none
      | some ops => exact Option.Rel.some (List.forall₂_same.mpr fun op _ => Or.inl rfl)

/-- The engine's function, of opcodes whose operands are in order. -/
def sampleSetHandler (op : ZendOp) : ZendOp := { op with handler := 1 }

/-- `$a == 'b'` -/
def sampleComparison : ZendOp := { opcode := .isEqual, op1 := ⟨8, 0⟩, op2 := ⟨1, 0⟩, result := ⟨2, 0⟩ }

theorem sloppy_rewriting_main : ∃ u', spCompileFile sampleSetHandler { sloppy := true } (some ⟨[sampleComparison], []⟩) =
    some u' ∧ Strict ⟨[sampleComparison], []⟩ u' := by
  refine (sloppy_rewriting_iff sampleSetHandler { sloppy := true } ⟨[sampleComparison], []⟩ rfl ?_).1.mpr ?_
  · exact fun op _ => ⟨1, rfl⟩
  · intro i path ops hops
    cases hops

/-- `function f() { return $a == 'b'; }` -/
def sampleFunction : OpArray := ⟨[], [⟨[sampleComparison], []⟩]⟩

/-- **A function keeps its comparison.** -/
theorem sloppy_rewriting_function : ¬∃ u', spCompileFile sampleSetHandler { sloppy := true } (some sampleFunction) =
    some u' ∧ Strict sampleFunction u' := by
  rintro ⟨u', hu', hstrict⟩
  cases hu'
  have hloose := hstrict.complete [0] [sampleComparison] rfl sampleComparison (List.mem_singleton_self _)
  cases hloose

end Snuffleupagus.Sloppy.Opcode
