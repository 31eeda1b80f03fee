import Snuffleupagus.Config.DisabledFunctions
import Snuffleupagus.DisabledFunctions.Evaluate
import Snuffleupagus.Match.Reference

/-! # Rules and references

To a rule a reference is a value of its own: of the type `reference`, compared as the empty string. Whether
a rule matches does not depend on what is behind it (`references_opaque`), and so not on whether this is
the value the reference stands in for (`reference_unmatched`). -/

namespace Snuffleupagus.DisabledFunctions.Reference

open Snuffleupagus.Lib.Effect Snuffleupagus.Php.Bytes Snuffleupagus.Php.Value Snuffleupagus.Php.Engine
open Snuffleupagus.Config.Rule Snuffleupagus.Config.Keyword Snuffleupagus.Config.DisabledFunctions
open Snuffleupagus.Log Snuffleupagus.Match.Chain Snuffleupagus.Match.Value
open Snuffleupagus.Match.VarValue Snuffleupagus.Match.Reference
open Snuffleupagus.DisabledFunctions.Filter Snuffleupagus.DisabledFunctions.Evaluate

/-- A call without what is behind references. -/
def forgetCall (c : Call) : Call := { c with executeData := forgetStack c.executeData }

/-- A return without it. -/
def forgetReturn (ret : Return) : Return :=
  ⟨forgetStack ret.executeData, forgetStack ret.current, ret.returnValue.map forget⟩

variable (w : World) (g : SpGlobals)

/-! ### Filters on the stack -/

theorem isFunctionsListMatching_forget : ∀ (s : Stack) (l : List ZendString),
    isFunctionsListMatching (forgetStack s) l = isFunctionsListMatching s l
  | [], _ => rfl
  | _ :: _, [] => rfl
  | f :: s, f' :: l => by
    have ih := fun l => isFunctionsListMatching_forget s l
    unfold forgetStack at ih ⊢
    rw [List.map_cons, isFunctionsListMatching, isFunctionsListMatching, getCompleteFunctionPath_forget]
    cases getCompleteFunctionPath f with
    | none => rfl
    | some path => exact ih _

theorem functionMatching_forget (s : Stack) (path : ZendString) (r : SpDisabledFunction) :
    functionMatching (forgetWorld w) g (forgetStack s) path r = functionMatching w g s path r := by
  unfold functionMatching
  rw [isFunctionsListMatching_forget]
  rfl

theorem lineMatching_forget (s : Stack) (r : SpDisabledFunction) :
    lineMatching (forgetStack s) r = lineMatching s r := by
  have hline : zendGetExecutedLineno (forgetStack s) = zendGetExecutedLineno s := by
    unfold zendGetExecutedLineno
    rw [userFrames_forget]
    cases userFrames s <;> rfl
  unfold lineMatching
  rw [hline]

theorem callerFilename_forget (s : Stack) : callerFilename (forgetStack s) = callerFilename s := by
  have htail : (forgetStack s).tail = forgetStack s.tail := List.map_tail.symm
  unfold callerFilename
  rw [htail, userFrames_forget]
  cases userFrames s.tail with
  | nil => rfl
  | cons f l =>
    obtain ⟨func, _, _, _, _, _⟩ := f
    cases func <;> rfl

theorem fileMatching_forget (s : Stack) (r : SpDisabledFunction) (filename : ZendString) :
    fileMatching (forgetWorld w) g (forgetStack s) r filename = fileMatching w g s r filename := by
  unfold fileMatching isFileMatching
  rw [callerFilename_forget]
  rfl

theorem isVariadic_forget (s : Stack) : isVariadic (forgetStack s) = isVariadic s := by
  cases s <;> rfl

/-! ### Filters on values -/

theorem inspect_forget (r : SpDisabledFunction) (v : Zval) :
    inspect (forgetWorld w) g r (forget v) = inspect w g r v := by
  cases v with
  | array ht =>
    simp only [forget, inspect]
    split_ifs
    · rw [spMatchArrayKey_forget]
      exact spMatchArrayKey_congr w g r.key r.rKey (keys_forgetTable ht)
    · exact spMatchArrayValue_forget w g r.value r.rValue ht
  | _ =>
    simp only [forget, inspect]
    rfl

theorem varMatching_forget (s : Stack) (r : SpDisabledFunction) :
    varMatching (forgetWorld w) g (forgetStack s) r = varMatching w g s r := by
  have hlocal : isLocalVarMatching (forgetWorld w) g (forgetStack s) r = isLocalVarMatching w g s r := by
    refine bind_eq_bind (spGetVarValue_forget w g s r.var Bool.false) fun v => ?_
    cases v with
    | none => rfl
    | some v => exact inspect_forget w g r v
  unfold varMatching
  rw [hlocal]

theorem regexpArgFrom_forget (fn : ZendFunction) (slots : List Zval) (rx : SpRegexp) :
    ∀ (n i : ℕ) (m : Matched) (v : Option Zval),
    regexpArgFrom (forgetWorld w) g fn (slots.map forget) rx i n m (v.map forget) =
      Prod.map id (Option.map forget) <$> regexpArgFrom w g fn slots rx i n m v
  | 0, _, _, _ => rfl
  | n + 1, i, m, v => by
    have ih := regexpArgFrom_forget fn slots rx n (i + 1)
    unfold regexpArgFrom
    refine bind_eq_map_bind (id_map _).symm fun arg => ?_
    refine bind_eq_map_bind (id_map _).symm fun ok => ?_
    cases ok with
    | false => exact ih _ v
    | true =>
      rw [List.getElem?_map, fetch_map]
      exact bind_eq_map_bind rfl fun value => ih _ (some value)

theorem selectArg_forget (s : Stack) (frame : Frame) (fn : ZendFunction) (r : SpDisabledFunction) :
    selectArg (forgetWorld w) g (forgetStack s) (forgetFrame frame) fn r =
      Prod.map id (Option.map forget) <$> selectArg w g s frame fn r := by
  have hslot := fun i : ℕ => (congrArg fetch (List.getElem?_map (f := forget) (l := frame.slots) (i := i))).trans
    (fetch_map forget _)
  unfold selectArg
  by_cases hpos : r.pos > -1
  · rw [if_pos hpos, if_pos hpos]
    dsimp only
    split_ifs
    · refine bind_eq_map_bind (id_map _).symm fun arg => ?_
      refine bind_eq_map_bind (id_map _).symm fun name => ?_
      exact bind_eq_map_bind (hslot _) fun _ => rfl
    · refine bind_eq_map_bind (id_map _).symm fun name => ?_
      exact bind_eq_map_bind (hslot _) fun _ => rfl
  · rw [if_neg hpos, if_neg hpos]
    split
    · exact bind_eq_map_bind (spGetVarValue_forget w g s _ _) fun _ => rfl
    · exact regexpArgFrom_forget w g fn frame.slots _ frame.numArgs 0 {} none
    · rfl

theorem argMatching_forget (r : SpDisabledFunction) (m : Matched) (v : Zval) :
    argMatching (forgetWorld w) g r m (forget v) = argMatching w g r m v := by
  unfold argMatching
  rw [type_forget, inspect_forget, spZvalToZendString_forget]

theorem isParamMatching_forget (c : Call) (r : SpDisabledFunction) :
    isParamMatching (forgetWorld w) g (forgetCall c) r = isParamMatching w g c r := by
  obtain ⟨s, builtin⟩ := c
  cases builtin with
  | some b => rfl
  | none =>
    cases s with
    | nil => rfl
    | cons frame s =>
      have hfunc : (forgetFrame frame).func = frame.func := rfl
      have hargs : (forgetFrame frame).numArgs = frame.numArgs := rfl
      show isParamMatching (forgetWorld w) g ⟨forgetFrame frame :: forgetStack s, none⟩ r = _
      unfold isParamMatching
      dsimp only
      rw [hfunc, hargs]
      cases frame.func with
      | none => rfl
      | some fn =>
        dsimp only
        split_ifs
        · rfl
        · rfl
        · refine bind_eq_bind (selectArg_forget w g (frame :: s) frame fn r) ?_
          rintro ⟨m, v⟩
          cases v with
          | none => rfl
          | some v => exact argMatching_forget w g r m v

theorem paramMatching_forget (c : Call) (r : SpDisabledFunction) :
    paramMatching (forgetWorld w) g (forgetCall c) r = paramMatching w g c r := by
  unfold paramMatching checkedParamMatching
  rw [isParamMatching_forget]
  have hvariadic : isVariadic (forgetCall c).executeData = isVariadic c.executeData :=
    isVariadic_forget _
  rw [hvariadic]
  rfl

/-! ### Rules -/

/-- **A rule at the time of a call.** -/
theorem callMatching_forget (c : Call) (path filename h : ZendString) (r : SpDisabledFunction) :
    callMatching (forgetWorld w) g (forgetCall c) path filename h r =
      callMatching w g c path filename h r := by
  unfold callMatching
  rw [paramMatching_forget]
  show ruleMatching _ g (allSeq [functionMatching _ g (forgetStack c.executeData) path r,
    pure (lineMatching (forgetStack c.executeData) r),
    fileMatching _ g (forgetStack c.executeData) r filename, _,
    varMatching _ g (forgetStack c.executeData) r]) _ filename h r = _
  rw [functionMatching_forget, lineMatching_forget, fileMatching_forget, varMatching_forget]
  rfl

/-- **A rule at the time of a return.** -/
theorem retMatching_forget (ret : Return) (path filename h : ZendString) (r : SpDisabledFunction) :
    retMatching (forgetWorld w) g (forgetReturn ret) path filename h r =
      retMatching w g ret path filename h r := by
  have htype : matchType (forgetReturn ret) r = matchType ret r := by
    unfold matchType forgetReturn
    rw [Option.map_map, (funext type_forget : Zval.type ∘ forget = Zval.type)]
  have hvalue : matchValue (forgetWorld w) g (forgetReturn ret) r = matchValue w g ret r := by
    obtain ⟨s, cur, v⟩ := ret
    cases v with
    | none => rfl
    | some v =>
      unfold matchValue forgetReturn
      dsimp only [Option.map_some]
      rw [spZvalToZendString_forget, spMatchValue_forget]
  have htext : (forgetReturn ret).returnValue.map (spZvalToZendString (forgetWorld w)) =
      ret.returnValue.map (spZvalToZendString w) := by
    unfold forgetReturn
    rw [Option.map_map]
    exact congrArg (Option.map · _) (funext (spZvalToZendString_forget w))
  unfold retMatching retValueMatching
  rw [hvalue, htype, htext]
  show ruleMatching _ g (allSeq [functionMatching _ g (forgetStack ret.executeData) path r, _]) _ filename
    h r = _
  rw [functionMatching_forget]
  rfl

/-! ### What a reference is to a rule -/

/-- A rule on the keys of an array does not look at the elements. -/
theorem inspect_keys {r : SpDisabledFunction} {ht ht' : HashTable}
    (hr : (r.key.isSome || r.rKey.isSome) = true) (hk : ht.map Prod.fst = ht'.map Prod.fst) :
    inspect w g r (.array ht) = inspect w g r (.array ht') := by
  simp only [inspect, if_pos hr]
  exact spMatchArrayKey_congr w g r.key r.rKey hk

theorem argMatching_keys {r : SpDisabledFunction} {ht ht' : HashTable} (m : Matched)
    (hr : (r.key.isSome || r.rKey.isSome) = true) (hk : ht.map Prod.fst = ht'.map Prod.fst) :
    argMatching w g r m (.array ht) = argMatching w g r m (.array ht') := by
  unfold argMatching
  rw [inspect_keys w g hr hk]
  rfl

/-- A type other than `reference` is not that of a reference. -/
theorem argMatching_reference_type {r : SpDisabledFunction} (m : Matched) (v : Zval)
    (hu : r.paramType ≠ .undef) (hr : r.paramType ≠ .reference) :
    argMatching w g r m (.reference v) = pure none := by
  unfold argMatching
  exact if_pos ⟨hu, hr⟩

/-- A rule on the type of the argument alone looks at nothing else. -/
theorem argMatching_typeOnly {r : SpDisabledFunction} {v v' : Zval} (m : Matched)
    (hu : r.paramType ≠ .undef)
    (hr : (r.key.isSome || r.rKey.isSome || r.value.isSome || r.rValue.isSome) = false)
    (hv : v.type = v'.type) : argMatching w g r m v = argMatching w g r m v' := by
  unfold argMatching
  rw [hv, hr]
  split_ifs with h₁ h₂
  · rfl
  · rfl
  · exact absurd ⟨hu, rfl⟩ h₂

/-- The elements of a returned array are not looked at. -/
theorem retMatching_array (s cur : Stack) (ht ht' : HashTable) (path filename h : ZendString)
    (r : SpDisabledFunction) : retMatching w g ⟨s, cur, some (.array ht)⟩ path filename h r =
      retMatching w g ⟨s, cur, some (.array ht')⟩ path filename h r := rfl

/-- **What rules see of references**, in the worlds `w` and `w'`. -/
structure SeesNoReferent (w w' : World) (g : SpGlobals) : Prop where
  /-- A call is the same to every rule whatever is behind the references. -/
  call : ∀ c c', forgetCall c = forgetCall c' → ∀ path filename h r,
    callMatching w g c path filename h r = callMatching w' g c' path filename h r
  /-- So is a return. -/
  ret : ∀ ret ret', forgetReturn ret = forgetReturn ret' → ∀ path filename h r,
    retMatching w g ret path filename h r = retMatching w' g ret' path filename h r
  /-- A reference is inspected like an empty string. -/
  empty : ∀ r v, inspect w g r (.reference v) = inspect w g r (.string [])
  /-- It has no type but `reference`. -/
  type : ∀ r m v, r.paramType ≠ .undef → r.paramType ≠ .reference →
    argMatching w g r m (.reference v) = pure none
  /-- The elements of an array do not matter to a rule on its keys, -/
  keys : ∀ r ht ht', (r.key.isSome || r.rKey.isSome) = true → ht.map Prod.fst = ht'.map Prod.fst →
    inspect w g r (.array ht) = inspect w g r (.array ht') ∧
      ∀ m, argMatching w g r m (.array ht) = argMatching w g r m (.array ht')
  /-- nor to a rule on its type alone, -/
  typeOnly : ∀ r ht ht', r.paramType ≠ .undef →
    (r.key.isSome || r.rKey.isSome || r.value.isSome || r.rValue.isSome) = false →
    ∀ m, argMatching w g r m (.array ht) = argMatching w g r m (.array ht')
  /-- nor to a rule on the value returned. -/
  returned : ∀ s cur ht ht' path filename h r,
    retMatching w g ⟨s, cur, some (.array ht)⟩ path filename h r =
      retMatching w g ⟨s, cur, some (.array ht')⟩ path filename h r

/-- **References are opaque**, also those in classes, constants and objects. -/
theorem references_opaque {w w' : World} (g : SpGlobals) (hw : forgetWorld w = forgetWorld w') :
    SeesNoReferent w w' g where
  call c c' hc path filename h r := by
    rw [← callMatching_forget w, ← callMatching_forget w', hw, hc]
  ret ret ret' hret path filename h r := by
    rw [← retMatching_forget w, ← retMatching_forget w', hw, hret]
  empty r v := rfl
  type r m v hu hr := argMatching_reference_type w g m v hu hr
  keys r ht ht' hr hk := ⟨inspect_keys w g hr hk, fun m => argMatching_keys w g m hr hk⟩
  typeOnly r ht ht' hu hr m := argMatching_typeOnly w g m hu hr rfl
  returned := retMatching_array w g

/-- The keywords of `sp.disable_function.function("f").pos("0").value("x").drop();`. -/
def posKeywords : List SpParsedKeyword :=
  [{ kw := zstr "function", arg := some (zstr "f"), argtype := .str },
    { kw := zstr "pos", arg := some (zstr "0"), argtype := .str },
    { kw := zstr "value", arg := some (zstr "x"), argtype := .str },
    { kw := zstr "drop", argtype := .empty }]

/-- The rule they give. -/
def posRule : SpDisabledFunction where
  textualRepresentation := spGetTextualRepresentation ({ kw := zstr "disable_function" } :: posKeywords)
  function := some (zstr "f")
  pos := 0
  value := some (zstr "x")

/-- `f($arg)`. -/
def callOf (v : Zval) : Call where
  executeData := [{
    func := some { type := .internal, functionName := some (zstr "f"), argInfo := [⟨zstr "arg", false⟩],
                   numArgs := 1 }
    numArgs := 1
    slots := [v] }]

/-- Does the rule match the call `f($arg)`? -/
def matchesArg (v : Zval) : Sp (ZendString × Option Matched) :=
  callMatching (World.empty 80300) {} (callOf v) (zstr "f") [] [] posRule

theorem references_opaque_sample :
    matchesArg (.reference (.string (zstr "x"))) = matchesArg (.reference (.long 3)) ∧
    argMatching (World.empty 80300) {} { paramType := .string } {} (.reference (.string (zstr "x"))) =
      pure none ∧
    inspect (World.empty 80300) {} { key := some (zstr "k") }
        (.array [(.str (zstr "k"), .string (zstr "x"))]) =
      inspect (World.empty 80300) {} { key := some (zstr "k") }
        (.array [(.str (zstr "k"), .reference (.string (zstr "x")))]) := by
  have hsame : forgetWorld (World.empty 80300) = forgetWorld (World.empty 80300) := rfl
  have hsees := references_opaque {} hsame
  exact ⟨hsees.call _ _ rfl _ _ _ _, hsees.type _ _ _ (by decide) (by decide),
    (hsees.keys _ _ _ rfl rfl).1⟩

/-- `f` returned `v`. -/
def returnOf (v : Zval) : Return := ⟨(callOf v).executeData, (callOf v).executeData, some v⟩

/-- `function("f").ret("x").drop()`. -/
def retRule : SpDisabledFunction where
  function := some (zstr "f")
  ret := some (zstr "x")

/-- The argument `x` matches, also as an element of an array, and a return of `x` does; references to
the same values do not. -/
theorem reference_unmatched : Accepted (World.empty 80300) posRule ∧
    (Yields (matchesArg (.string (zstr "x"))) ([], some ⟨some (zstr "arg"), some (zstr "x")⟩) ∧
      Yields (matchesArg (.reference (.string (zstr "x")))) ([], none)) ∧
    (Yields (matchesArg (.array [(.idx 0, .string (zstr "x"))]))
        ([], some ⟨some (zstr "arg"), some (zstr "ARRAY")⟩) ∧
      Yields (matchesArg (.array [(.idx 0, .reference (.string (zstr "x")))])) ([], none)) ∧
    Yields (retMatching (World.empty 80300) {} (returnOf (.string (zstr "x"))) (zstr "f") [] [] retRule)
      ([], some (some (zstr "x"))) ∧
    Yields (retMatching (World.empty 80300) {} (returnOf (.reference (.string (zstr "x")))) (zstr "f") []
      [] retRule) ([], none) :=
  ⟨⟨{ kw := zstr "disable_function" }, posKeywords, by rfl⟩, ⟨by rfl, by rfl⟩, ⟨by rfl, by rfl⟩, by rfl,
    by rfl⟩

end Snuffleupagus.DisabledFunctions.Reference
