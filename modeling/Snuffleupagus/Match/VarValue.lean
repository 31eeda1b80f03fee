import Snuffleupagus.Match.Chain
import Snuffleupagus.Match.Value

/-! # Values of variable paths

`sp_get_var_value` walks along a parsed path such as `$a->b[c]` and carries the value reached so far
and, after a class name, the class. The stack is that of `execute_data`: parameters are those of its
first frame, and a local variable is looked for in one frame after the other. -/

namespace Snuffleupagus.Match.VarValue

open Snuffleupagus.Lib.Effect Snuffleupagus.Php.Bytes Snuffleupagus.Php.Value Snuffleupagus.Php.Engine
open Snuffleupagus.Config.Rule Snuffleupagus.Log Snuffleupagus.Match.Chain Snuffleupagus.Match.Value

variable (w : World) (g : SpGlobals)

/-- The loop of `get_param_var` over the parameters from `i` on, of which `n` are left. -/
def paramVarFrom (func : ZendFunction) (slots : List Zval) (varName : ZendString) (print : Bool) :
    ℕ → ℕ → Sp (Option Zval)
  | _, 0 => pure none
  | i, n + 1 => do
    let arg ← fetch func.argInfo[i]?
    if cstr arg.name = varName then do
      let v ← fetch slots[i]?
      pure (some v)
    else do
      if print then spLogWarn w g "config" "  - %d parameter's name: '%s'" [decimal i, cstr arg.name]
      paramVarFrom func slots varName print (i + 1) n

/-- `get_param_var`. -/
def getParamVar (ed : Stack) (varName : ZendString) (print : Bool) : Sp (Option Zval) := do
  let frame ← fetch ed.head?
  let func ← fetch frame.func
  paramVarFrom w g func frame.slots varName print 0 func.numArgs

/-- The variable of that name in a symbol table. -/
def findSymbol (varName : ZendString) (symtable : List (ZendString × Zval)) : Option Zval :=
  (symtable.find? fun e => cstr e.1 == varName).map Prod.snd

/-- `get_local_var`. -/
def getLocalVar (varName : ZendString) : Stack → Option Zval
  | [] => none
  | f :: s =>
    match zendRebuildSymbolTable (f :: s) with
    | none => none
    | some symtable =>
      match findSymbol varName symtable with
      | some (.indirect v) => some v
      | some v => some v
      | none => getLocalVar varName s

/-- `get_var_value`. -/
def getVarValue (ed : Stack) (varName : ZendString) (isParam : Bool) : Sp (Option Zval) :=
  match varName with
  -- `VARIABLE_TOKEN`
  | 36 :: name =>
    if isParam then do
      match ← getParamVar w g ed name false with
      | some v => pure (some v)
      | none => do
        spLogWarn w g "config" "It seems that you are filtering on a parameter '%s' of the function '%s', but the parameter does not exists."
          [name, ((ed.head?.bind getCompleteFunctionPath).getD (zstr "(null)"))]
        let _ ← getParamVar w g ed name true
        pure none
    else pure (getLocalVar name ed)
  | _ => pure (w.constants varName)

/-- `get_entry_hashtable`. -/
def getEntryHashtable (ht : HashTable) (entry : ZendString) : Option Zval :=
  ((zendHashFind ht (.str entry)).or
    (zendHashFind ht (.idx (BitVec.ofInt 64 (atol (cstr entry)))))).map Zval.strip

/-- `get_array_value`, once the index has been evaluated. -/
def getArrayValue (zvalue idxValue : Option Zval) : Option Zval :=
  match zvalue, idxValue with
  | some (.array ht), some idx => getEntryHashtable ht (spZvalToZendString w idx)
  | _, _ => none

/-- The key of a protected property. -/
def protectedProp (property : ZendString) : ZendString := [0] ++ zstr "*" ++ [0] ++ property

/-- The key of a private property. -/
def privateProp (className property : ZendString) : ZendString :=
  [0] ++ cstr className ++ [0] ++ property

/-- The three keys under which `get_object_property` looks a property up. -/
def findProperty (o : Object) (property : ZendString) : Option Zval :=
  ((getEntryHashtable o.properties property).or
    (getEntryHashtable o.properties (protectedProp property))).or
    (getEntryHashtable o.properties (privateProp o.className property))

/-- `get_object_property`. -/
def getObjectProperty (ed : Stack) (handle : ℕ) (property : ZendString) (isParam : Bool) :
    Sp (Option Zval) := do
  match ← getVarValue w g ed property isParam with
  | some (.string name) => pure (findProperty (w.objects handle) (cstr name))
  | some _ => pure none
  | none => pure (findProperty (w.objects handle) property)

/-- `get_unknown_type`. -/
def getUnknownType (ed : Stack) (type : ElemType) (value : ZendString) (zvalue : Option Zval)
    (ce : Option ClassEntry) (isParam : Bool) : Sp (Option Zval) :=
  match ce, zvalue with
  | some ce, _ => pure (getEntryHashtable ce.constantsTable value)
  | none, some (.object handle) => getObjectProperty w g ed handle value isParam
  | none, none =>
    pure (((if type = .constant then w.constants value else none).or (some (.string value))))
  | none, some _ => pure none

/-- One element of a path: the body of the loop of `sp_get_var_value`. `idx` evaluates the index. -/
def varStep (ed : Stack) (type : ElemType) (value : ZendString) (idx : Sp (Option Zval))
    (isParam : Bool) (zvalue : Option Zval) (ce : Option ClassEntry) :
    Sp (Option Zval × Option ClassEntry) :=
  match type with
  | .array => do
    let zvalue ← match ce, zvalue with
      | some ce, _ => pure (getEntryHashtable ce.constantsTable value)
      | none, none => getVarValue w g ed value isParam
      | none, some (.object handle) => getObjectProperty w g ed handle value isParam
      | none, some v => pure (some v)
    let idxValue ← idx
    pure (getArrayValue w zvalue idxValue, none)
  | .var => do
    let zvalue ← match zvalue with
      | some (.object handle) => getObjectProperty w g ed handle value isParam
      | _ => getVarValue w g ed value isParam
    pure (zvalue, ce)
  | .object =>
    match zvalue with
    | none => do
      let zvalue ← getVarValue w g ed value isParam
      pure (zvalue, ce)
    | some (.object handle) =>
      if value = [] then pure (some (.object handle), ce)
      else do
        let zvalue ← getObjectProperty w g ed handle value isParam
        pure (zvalue, ce)
    | some _ => pure (none, none)
  | .classConst => pure (none, w.lookupClass value)
  | type => do
    let zvalue ← getUnknownType w g ed type value zvalue ce isParam
    pure (zvalue, none)

/-- The loop of `sp_get_var_value`. -/
def varValueFrom (ed : Stack) :
    SpTree → Bool → Option Zval → Option ClassEntry → Sp (Option Zval)
  | .nil, _, zvalue, _ => pure zvalue
  | .node type value idx next, isParam, zvalue, ce => do
    let (zvalue, ce) ←
      varStep w g ed type value (varValueFrom ed idx Bool.false none none) isParam zvalue ce
    if zvalue.isNone && ce.isNone then pure none
    else varValueFrom ed next isParam zvalue ce

/-- `sp_get_var_value`. -/
def spGetVarValue (ed : Stack) (tree : SpTree) (isParam : Bool) : Sp (Option Zval) :=
  varValueFrom w g ed tree isParam none none

end Snuffleupagus.Match.VarValue
