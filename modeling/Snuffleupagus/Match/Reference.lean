import Snuffleupagus.Match.VarValue

/-! # What is behind a reference

No function of the module looks at the value a reference points to. `Zval.forget` drops these values,
in all places where values are kept: arrays, frames, constants, classes and objects. Every reader of
values commutes with it: the matchers of values, and the walk along a variable path
(`spGetVarValue_forget`). -/

namespace Snuffleupagus.Match.Reference

open Snuffleupagus.Lib.Effect Snuffleupagus.Lib.Table Snuffleupagus.Php.Bytes Snuffleupagus.Php.Value
open Snuffleupagus.Php.Engine Snuffleupagus.Config.Rule Snuffleupagus.Log Snuffleupagus.Match.Chain
open Snuffleupagus.Match.Value Snuffleupagus.Match.VarValue

mutual

/-- The value without what its references point to. -/
def forget : Zval → Zval
  | .array ht => .array (forgetTable ht)
  | .indirect v => .indirect (forget v)
  | .ptr v => .ptr (forget v)
  | .reference _ => .reference .null
  | .undef => .undef
  | .null => .null
  | .false => .false
  | .true => .true
  | .long n => .long n
  | .double bits => .double bits
  | .string s => .string s
  | .object handle => .object handle
  | .resource handle => .resource handle

/-- The same for the values of a table. -/
def forgetTable : HashTable → HashTable
  | [] => []
  | (k, v) :: ht => (k, forget v) :: forgetTable ht

end

/-- The same for the slots and the variables of a frame. -/
def forgetFrame (f : Frame) : Frame :=
  { f with slots := f.slots.map forget, symbols := f.symbols.map fun e => (e.1, forget e.2) }

/-- The same for a stack. -/
def forgetStack (s : Stack) : Stack := s.map forgetFrame

/-- The same for the constants of a class. -/
def forgetClass (ce : ClassEntry) : ClassEntry := ⟨forgetTable ce.constantsTable⟩

/-- The same for the constants, the classes and the objects. -/
def forgetWorld (w : World) : World :=
  { w with
    constants := fun name => (w.constants name).map forget
    lookupClass := fun name => (w.lookupClass name).map forgetClass
    objects := fun handle => { w.objects handle with properties := forgetTable (w.objects handle).properties } }

/-! ### Values -/

variable (w : World) (g : SpGlobals)

theorem type_forget (v : Zval) : (forget v).type = v.type := by
  cases v <;> simp only [forget, Zval.type]

theorem spZvalToZendString_forget (v : Zval) :
    spZvalToZendString (forgetWorld w) (forget v) = spZvalToZendString w v := by
  cases v <;> simp only [forget, spZvalToZendString, forgetWorld]

theorem spMatchValue_forget (value : ZendString) (toMatch : Option ZendString) (rx : Option SpRegexp) :
    spMatchValue (forgetWorld w) g value toMatch rx = spMatchValue w g value toMatch rx := rfl

/-- Keys are all that is read of an array whose keys are matched. -/
theorem spMatchArrayKey_congr (toMatch : Option ZendString) (rx : Option SpRegexp) :
    ∀ {ht ht' : HashTable}, ht.map Prod.fst = ht'.map Prod.fst →
      spMatchArrayKey w g toMatch rx ht = spMatchArrayKey w g toMatch rx ht'
  | [], [], _ => rfl
  | [], _ :: _, h => by cases h
  | _ :: _, [], h => by cases h
  | (k, v) :: ht, (k', v') :: ht', h => by
    rw [List.map_cons, List.map_cons, List.cons.injEq] at h
    obtain ⟨hk, ht⟩ := h
    have ih := spMatchArrayKey_congr toMatch rx ht
    dsimp only at hk
    rw [spMatchArrayKey, spMatchArrayKey, hk, ih]

theorem keys_forgetTable : ∀ ht : HashTable, (forgetTable ht).map Prod.fst = ht.map Prod.fst := by
  intro ht
  induction ht with
  | nil => rfl
  | cons e ht ih => rw [forgetTable, List.map_cons, List.map_cons, ih]

theorem spMatchArrayKey_forget (toMatch : Option ZendString) (rx : Option SpRegexp) :
    ∀ ht : HashTable, spMatchArrayKey (forgetWorld w) g toMatch rx ht = spMatchArrayKey w g toMatch rx ht := by
  intro ht
  induction ht with
  | nil => rfl
  | cons e ht ih => rw [spMatchArrayKey, spMatchArrayKey, ih, spMatchValue_forget]

mutual

/-- An element that is a reference is compared as the empty string. -/
theorem spMatchElement_forget (toMatch : Option ZendString) (rx : Option SpRegexp) : ∀ v : Zval,
    spMatchElement (forgetWorld w) g toMatch rx (forget v) = spMatchElement w g toMatch rx v
  | .array ht => spMatchArrayValue_forget toMatch rx ht
  | .reference _ | .indirect _ | .ptr _ | .undef | .null | .false | .true | .long _ | .double _
  | .string _ | .object _ | .resource _ => by
    simp only [forget, spMatchElement]
    rfl

theorem spMatchArrayValue_forget (toMatch : Option ZendString) (rx : Option SpRegexp) :
    ∀ ht : HashTable, spMatchArrayValue (forgetWorld w) g toMatch rx (forgetTable ht) =
      spMatchArrayValue w g toMatch rx ht
  | [] => rfl
  | (k, v) :: ht => by
    have hv := spMatchElement_forget toMatch rx v
    have hht := spMatchArrayValue_forget toMatch rx ht
    rw [forgetTable, spMatchArrayValue, spMatchArrayValue, hv, hht]

end

/-! ### Tables -/

theorem zendHashFind_forget (k : HashKey) : ∀ ht : HashTable,
    zendHashFind (forgetTable ht) k = (zendHashFind ht k).map forget
  | [] => rfl
  | (k', v) :: ht => by
    have ih := zendHashFind_forget k ht
    unfold zendHashFind at ih ⊢
    rw [forgetTable, OrdTable.lookup, OrdTable.lookup]
    split_ifs
    · rfl
    · exact ih

theorem strip_forget : ∀ v : Zval, (forget v).strip = forget v.strip
  | .indirect v => by
    rw [forget, Zval.strip, Zval.strip]
    exact strip_forget v
  | .ptr v => by
    rw [forget, Zval.strip, Zval.strip]
    exact strip_forget v
  | .array _ | .reference _ | .undef | .null | .false | .true | .long _ | .double _ | .string _
  | .object _ | .resource _ => by simp only [forget, Zval.strip]

theorem getEntryHashtable_forget (ht : HashTable) (entry : ZendString) :
    getEntryHashtable (forgetTable ht) entry = (getEntryHashtable ht entry).map forget := by
  have hstrip : ∀ o : Option Zval, (o.map forget).map Zval.strip = (o.map Zval.strip).map forget := by
    intro o
    rw [Option.map_map, Option.map_map]
    exact congrArg (Option.map · o) (funext strip_forget)
  unfold getEntryHashtable
  rw [zendHashFind_forget, zendHashFind_forget, ← Option.map_or, hstrip]

theorem findProperty_forget (handle : ℕ) (property : ZendString) :
    findProperty ((forgetWorld w).objects handle) property =
      (findProperty (w.objects handle) property).map forget := by
  unfold findProperty
  simp only [forgetWorld, getEntryHashtable_forget, Option.map_or]

theorem getArrayValue_forget (zvalue idxValue : Option Zval) :
    getArrayValue (forgetWorld w) (zvalue.map forget) (idxValue.map forget) =
      (getArrayValue w zvalue idxValue).map forget := by
  cases zvalue with
  | none => rfl
  | some v =>
    cases idxValue with
    | none => cases v <;> simp only [forget, Option.map_some, Option.map_none, getArrayValue]
    | some idx =>
      cases v with
      | array ht =>
        have hidx := spZvalToZendString_forget w idx
        simp only [forget, Option.map_some, getArrayValue, hidx, getEntryHashtable_forget]
      | _ => simp only [forget, Option.map_some, Option.map_none, getArrayValue]

/-! ### Frames -/

theorem getCompleteFunctionPath_forget (f : Frame) :
    getCompleteFunctionPath (forgetFrame f) = getCompleteFunctionPath f := rfl

theorem userFrames_forget (s : Stack) : userFrames (forgetStack s) = forgetStack (userFrames s) :=
  List.dropWhile_map ..

theorem zendRebuildSymbolTable_forget (s : Stack) : zendRebuildSymbolTable (forgetStack s) =
    (zendRebuildSymbolTable s).map (List.map fun e => (e.1, forget e.2)) := by
  unfold zendRebuildSymbolTable
  rw [userFrames_forget]
  cases userFrames s <;> rfl

theorem findSymbol_forget (name : ZendString) (symtable : List (ZendString × Zval)) :
    findSymbol name (symtable.map fun e => (e.1, forget e.2)) = (findSymbol name symtable).map forget := by
  unfold findSymbol
  rw [List.find?_map, Option.map_map, Option.map_map]
  rfl

theorem getLocalVar_forget (name : ZendString) : ∀ s : Stack,
    getLocalVar name (forgetStack s) = (getLocalVar name s).map forget
  | [] => rfl
  | f :: s => by
    have ih := getLocalVar_forget name s
    have hsym := zendRebuildSymbolTable_forget (f :: s)
    unfold forgetStack at ih hsym ⊢
    rw [List.map_cons] at hsym ⊢
    unfold getLocalVar
    rw [hsym]
    cases zendRebuildSymbolTable (f :: s) with
    | none => rfl
    | some symtable =>
      simp only [Option.map_some, findSymbol_forget]
      cases findSymbol name symtable with
      | none => exact ih
      | some v => cases v <;> simp only [forget, Option.map_some]

/-! ### Variable paths -/

theorem fetch_map {α β : Type} (F : α → β) (o : Option α) : (fetch (o.map F) : Sp β) = F <$> fetch o := by
  cases o <;> rfl

theorem paramVarFrom_forget (func : ZendFunction) (slots : List Zval) (name : ZendString)
    (print : Bool) : ∀ n i : ℕ,
    paramVarFrom (forgetWorld w) g func (slots.map forget) name print i n =
      Option.map forget <$> paramVarFrom w g func slots name print i n
  | 0, _ => rfl
  | n + 1, i => by
    have ih := paramVarFrom_forget func slots name print n (i + 1)
    unfold paramVarFrom
    refine bind_eq_map_bind (id_map _).symm fun arg => ?_
    rw [List.getElem?_map, fetch_map]
    dsimp only [id]
    split_ifs
    · exact bind_eq_map_bind rfl fun _ => rfl
    · exact bind_eq_map_bind (id_map _).symm fun _ => ih
    · exact ih

theorem getParamVar_forget (s : Stack) (name : ZendString) (print : Bool) :
    getParamVar (forgetWorld w) g (forgetStack s) name print =
      Option.map forget <$> getParamVar w g s name print := by
  have hhead : (forgetStack s).head? = s.head?.map forgetFrame := List.head?_map
  unfold getParamVar
  rw [hhead, fetch_map]
  refine bind_eq_map_bind rfl fun frame => ?_
  refine bind_eq_map_bind (id_map _).symm fun func => ?_
  exact paramVarFrom_forget w g func frame.slots name print func.numArgs 0

theorem getVarValue_forget (s : Stack) (name : ZendString) (isParam : Bool) :
    getVarValue (forgetWorld w) g (forgetStack s) name isParam =
      Option.map forget <$> getVarValue w g s name isParam := by
  have hpath : (forgetStack s).head?.bind getCompleteFunctionPath =
      s.head?.bind getCompleteFunctionPath := by
    cases s <;> rfl
  unfold getVarValue
  split
  · split_ifs
    · refine bind_eq_map_bind (getParamVar_forget w g s _ _) fun v => ?_
      cases v with
      | some v => rfl
      | none =>
        rw [hpath]
        refine bind_eq_map_bind (id_map _).symm fun _ => ?_
        exact bind_eq_map_bind (getParamVar_forget w g s _ _) fun _ => rfl
    · rw [getLocalVar_forget]
      rfl
  · rfl

theorem getObjectProperty_forget (s : Stack) (handle : ℕ) (property : ZendString) (isParam : Bool) :
    getObjectProperty (forgetWorld w) g (forgetStack s) handle property isParam =
      Option.map forget <$> getObjectProperty w g s handle property isParam := by
  unfold getObjectProperty
  refine bind_eq_map_bind (getVarValue_forget w g s property isParam) fun v => ?_
  have hfind := findProperty_forget w handle
  cases v with
  | none => simp only [Option.map_none, hfind, map_pure]
  | some v => cases v <;> simp only [Option.map_some, Option.map_none, forget, hfind, map_pure]

theorem getUnknownType_forget (s : Stack) (type : ElemType) (value : ZendString)
    (zvalue : Option Zval) (ce : Option ClassEntry) (isParam : Bool) :
    getUnknownType (forgetWorld w) g (forgetStack s) type value (zvalue.map forget)
        (ce.map forgetClass) isParam =
      Option.map forget <$> getUnknownType w g s type value zvalue ce isParam := by
  cases ce with
  | some ce =>
    have hentry := getEntryHashtable_forget ce.constantsTable value
    simp only [Option.map_some, getUnknownType, forgetClass, hentry, map_pure]
  | none =>
    cases zvalue with
    | none =>
      unfold getUnknownType
      simp only [Option.map_none, forgetWorld, map_pure]
      split_ifs
      · cases w.constants value <;> rfl
      · rfl
    | some v =>
      have hobject := fun handle => getObjectProperty_forget w g s handle value isParam
      cases v <;> simp only [Option.map_none, Option.map_some, forget, getUnknownType, hobject, map_pure]

/-- **One element of a path.** -/
theorem varStep_forget (s : Stack) (type : ElemType) (value : ZendString) {idx idx' : Sp (Option Zval)}
    (hidx : idx' = Option.map forget <$> idx) (isParam : Bool) (zvalue : Option Zval)
    (ce : Option ClassEntry) :
    varStep (forgetWorld w) g (forgetStack s) type value idx' isParam (zvalue.map forget)
        (ce.map forgetClass) =
      Prod.map (Option.map forget) (Option.map forgetClass) <$>
        varStep w g s type value idx isParam zvalue ce := by
  have hobject := fun handle => getObjectProperty_forget w g s handle value isParam
  have hvar := getVarValue_forget w g s value isParam
  cases type with
  | array =>
    have hindex : ∀ {x x' : Sp (Option Zval)}, x' = Option.map forget <$> x →
        (x' >>= fun v => idx' >>= fun i => pure (getArrayValue (forgetWorld w) v i, none)) =
          Prod.map (Option.map forget) (Option.map forgetClass) <$>
            (x >>= fun v => idx >>= fun i => pure (getArrayValue w v i, none)) := by
      intro x x' hx
      refine bind_eq_map_bind hx fun v => bind_eq_map_bind hidx fun i => ?_
      rw [getArrayValue_forget]
      rfl
    cases ce with
    | some ce => exact hindex (congrArg pure (getEntryHashtable_forget ce.constantsTable value))
    | none =>
      cases zvalue with
      | none => exact hindex hvar
      | some v =>
        cases v with
        | object handle => exact hindex (hobject handle)
        | _ => exact hindex rfl
  | var =>
    have hvalue : ∀ {x x' : Sp (Option Zval)}, x' = Option.map forget <$> x →
        (x' >>= fun v => pure (v, ce.map forgetClass)) =
          Prod.map (Option.map forget) (Option.map forgetClass) <$> (x >>= fun v => pure (v, ce)) :=
      fun hx => bind_eq_map_bind hx fun _ => rfl
    cases zvalue with
    | none => exact hvalue hvar
    | some v =>
      cases v with
      | object handle => exact hvalue (hobject handle)
      | _ => exact hvalue hvar
  | object =>
    cases zvalue with
    | none => exact bind_eq_map_bind hvar fun _ => rfl
    | some v =>
      cases v with
      | object handle =>
        simp only [Option.map_some, forget, varStep]
        split_ifs
        · rfl
        · exact bind_eq_map_bind (hobject handle) fun _ => rfl
      | _ => rfl
  | classConst => rfl
  | _ => exact bind_eq_map_bind (getUnknownType_forget w g s _ _ _ _ _) fun _ => rfl

theorem varValueFrom_forget (s : Stack) : ∀ (tree : SpTree) (isParam : Bool) (zvalue : Option Zval)
    (ce : Option ClassEntry),
    varValueFrom (forgetWorld w) g (forgetStack s) tree isParam (zvalue.map forget) (ce.map forgetClass) =
      Option.map forget <$> varValueFrom w g s tree isParam zvalue ce
  | .nil, _, _, _ => rfl
  | .node type value idx next, isParam, zvalue, ce => by
    have hidx := varValueFrom_forget s idx Bool.false none none
    unfold varValueFrom
    refine bind_eq_map_bind (varStep_forget w g s type value hidx isParam zvalue ce) ?_
    rintro ⟨v, c⟩
    have hnext := varValueFrom_forget s next isParam v c
    simp only [Prod.map_apply, Option.isNone_map]
    split_ifs
    · rfl
    · exact hnext

/-- **The value at the end of a path.** -/
theorem spGetVarValue_forget (s : Stack) (tree : SpTree) (isParam : Bool) :
    spGetVarValue (forgetWorld w) g (forgetStack s) tree isParam =
      Option.map forget <$> spGetVarValue w g s tree isParam :=
  varValueFrom_forget w g s tree isParam none none

end Snuffleupagus.Match.Reference
