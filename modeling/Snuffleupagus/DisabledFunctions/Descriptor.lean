import Snuffleupagus.DisabledFunctions.Argument

/-! # The descriptions of parameters

A function has an array with the descriptions of its parameters, the variadic one included. A rule with a
filter on a parameter looks at the first of them, whether there is one or not, and with `param_r` at one for
each argument passed.

In the model a description that is not there cannot be read. What is read beyond the array in its place is
up to what happens to lie there, and `InRange` says that this makes no difference: the evaluation of the
rule is the same whatever is behind the array (`in_range_iff`). -/

namespace Snuffleupagus.DisabledFunctions.Descriptor

open Snuffleupagus.Lib.Effect Snuffleupagus.Php.Bytes Snuffleupagus.Php.Value Snuffleupagus.Php.Engine
open Snuffleupagus.Config.Rule Snuffleupagus.Config.Keyword Snuffleupagus.Config.DisabledFunctions
open Snuffleupagus.Log Snuffleupagus.Match.Chain Snuffleupagus.Match.Value Snuffleupagus.Match.VarValue
open Snuffleupagus.DisabledFunctions.Filter Snuffleupagus.DisabledFunctions.Evaluate
open Snuffleupagus.DisabledFunctions.Argument

/-- The function, with something behind its array. -/
def behindFn (more : List ArgInfo) (fn : ZendFunction) : ZendFunction :=
  { fn with argInfo := fn.argInfo ++ more }

@[inherit_doc behindFn]
def behindFrame (more : List ArgInfo) (frame : Frame) : Frame :=
  { frame with func := frame.func.map (behindFn more) }

/-- The stack, with something behind the array of the function called. -/
def behind (more : List ArgInfo) : Stack → Stack
  | [] => []
  | frame :: s => behindFrame more frame :: s

/-- The parameters of the function called are described. -/
def Described (s : Stack) : Prop :=
  ∀ frame ∈ s.head?, ∀ fn ∈ frame.func, fn.numArgs ≤ fn.argInfo.length

variable (w : World) (g : SpGlobals) (more : List ArgInfo)

/-- **The evaluation of a rule reads no description that is not there.** -/
def InRange (frame : Frame) (s : Stack) (path filename fileHash : ZendString) (r : SpDisabledFunction) : Prop :=
  ∀ more, callMatching w g ⟨behind more (frame :: s), none⟩ path filename fileHash r =
    callMatching w g ⟨frame :: s, none⟩ path filename fileHash r

/-! ### What does not look at the array -/

section Stack
variable {w g more}

theorem isUserCode_behindFrame (frame : Frame) : (behindFrame more frame).isUserCode = frame.isUserCode := by
  obtain ⟨func, _, _, _, _, _⟩ := frame
  cases func <;> rfl

theorem getCompleteFunctionPath_behindFrame (frame : Frame) :
    getCompleteFunctionPath (behindFrame more frame) = getCompleteFunctionPath frame := by
  obtain ⟨func, _, _, _, _, _⟩ := frame
  cases func <;> rfl

variable (more) in
/-- The frames of user code begin with the one of the function called, or are not changed. -/
theorem userFrames_behind (s : Stack) : userFrames (behind more s) = userFrames s ∨
    ∃ frame t, userFrames s = frame :: t ∧ userFrames (behind more s) = behindFrame more frame :: t := by
  cases s with
  | nil => exact Or.inl rfl
  | cons frame s =>
    unfold userFrames behind
    cases huser : frame.isUserCode with
    | false =>
      left
      rw [List.dropWhile_cons_of_pos (by rw [isUserCode_behindFrame, huser]; rfl),
        List.dropWhile_cons_of_pos (by rw [huser]; rfl)]
    | true =>
      refine Or.inr ⟨frame, s, ?_, ?_⟩
      · exact List.dropWhile_cons_of_neg (by rw [huser]; exact Bool.false_ne_true)
      · exact List.dropWhile_cons_of_neg (by rw [isUserCode_behindFrame, huser]; exact Bool.false_ne_true)

theorem zendGetExecutedLineno_behind (s : Stack) :
    zendGetExecutedLineno (behind more s) = zendGetExecutedLineno s := by
  unfold zendGetExecutedLineno
  rcases userFrames_behind more s with h | ⟨frame, t, h, h'⟩
  · rw [h]
  · rw [h, h']
    rfl

variable (more) in
theorem zendRebuildSymbolTable_behind (s : Stack) :
    zendRebuildSymbolTable (behind more s) = zendRebuildSymbolTable s := by
  unfold zendRebuildSymbolTable
  rcases userFrames_behind more s with h | ⟨frame, t, h, h'⟩
  · rw [h]
  · rw [h, h']
    rfl

theorem isFunctionsListMatching_behind (s : Stack) (l : List ZendString) :
    isFunctionsListMatching (behind more s) l = isFunctionsListMatching s l := by
  cases s with
  | nil => rfl
  | cons frame s =>
    cases l with
    | nil => rfl
    | cons f l =>
      unfold behind isFunctionsListMatching
      rw [getCompleteFunctionPath_behindFrame]

theorem getLocalVar_behind (name : ZendString) (s : Stack) :
    getLocalVar name (behind more s) = getLocalVar name s := by
  cases s with
  | nil => rfl
  | cons frame s =>
    have hsymbols := zendRebuildSymbolTable_behind more (frame :: s)
    unfold behind at hsymbols ⊢
    unfold getLocalVar
    rw [hsymbols]

theorem functionMatching_behind (s : Stack) (path : ZendString) (r : SpDisabledFunction) :
    functionMatching w g (behind more s) path r = functionMatching w g s path r := by
  unfold functionMatching
  rw [isFunctionsListMatching_behind]

theorem lineMatching_behind (s : Stack) (r : SpDisabledFunction) :
    lineMatching (behind more s) r = lineMatching s r := by
  unfold lineMatching
  rw [zendGetExecutedLineno_behind]

theorem fileMatching_behind (s : Stack) (r : SpDisabledFunction) (filename : ZendString) :
    fileMatching w g (behind more s) r filename = fileMatching w g s r filename := by
  have htail : (behind more s).tail = s.tail := by
    cases s <;> rfl
  unfold fileMatching isFileMatching callerFilename
  rw [htail]

end Stack

/-! ### Paths of variables -/

section Path
variable {w g more} {s t : Stack}

/-- A path is evaluated by the variables it names. -/
theorem getObjectProperty_congr (h : ∀ name isParam, getVarValue w g s name isParam = getVarValue w g t name isParam)
    (handle : ℕ) (property : ZendString) (isParam : Bool) :
    getObjectProperty w g s handle property isParam = getObjectProperty w g t handle property isParam := by
  unfold getObjectProperty
  rw [h]

theorem varStep_congr (h : ∀ name isParam, getVarValue w g s name isParam = getVarValue w g t name isParam)
    (type : ElemType) (value : ZendString) (idx : Sp (Option Zval)) (isParam : Bool) (zvalue : Option Zval)
    (ce : Option ClassEntry) :
    varStep w g s type value idx isParam zvalue ce = varStep w g t type value idx isParam zvalue ce := by
  have hobject := getObjectProperty_congr h
  have hunknown : ∀ type, getUnknownType w g s type value zvalue ce isParam =
      getUnknownType w g t type value zvalue ce isParam := by
    intro type
    unfold getUnknownType
    simp only [hobject]
  unfold varStep
  simp only [h, hobject, hunknown]

theorem varValueFrom_congr (h : ∀ name isParam, getVarValue w g s name isParam = getVarValue w g t name isParam) :
    ∀ (tree : SpTree) (isParam : Bool) (zvalue : Option Zval) (ce : Option ClassEntry),
      varValueFrom w g s tree isParam zvalue ce = varValueFrom w g t tree isParam zvalue ce
  | .nil, _, _, _ => rfl
  | .node type value idx next, isParam, zvalue, ce => by
    have hidx := varValueFrom_congr h idx Bool.false none none
    unfold varValueFrom
    rw [hidx, varStep_congr h]
    refine bind_congr fun p => ?_
    obtain ⟨zvalue', ce'⟩ := p
    dsimp only
    split_ifs
    · rfl
    · exact varValueFrom_congr h next isParam zvalue' ce'

theorem paramVarFrom_behind (fn : ZendFunction) (slots : List Zval) (name : ZendString) (print : Bool) :
    ∀ n i : ℕ, i + n ≤ fn.argInfo.length →
      paramVarFrom w g (behindFn more fn) slots name print i n = paramVarFrom w g fn slots name print i n
  | 0, _, _ => rfl
  | n + 1, i, hi => by
    have ih := paramVarFrom_behind fn slots name print n (i + 1) (by omega)
    have harg : (behindFn more fn).argInfo[i]? = fn.argInfo[i]? := List.getElem?_append_left (by omega)
    unfold paramVarFrom
    rw [harg, ih]

theorem getParamVar_behind (hs : Described s) (name : ZendString) (print : Bool) :
    getParamVar w g (behind more s) name print = getParamVar w g s name print := by
  cases s with
  | nil => rfl
  | cons frame s =>
    obtain ⟨func, opline, lineno, numArgs, slots, symbols⟩ := frame
    cases func with
    | none => rfl
    | some fn =>
      have hdeclared := hs _ rfl fn rfl
      exact paramVarFrom_behind fn slots name print fn.numArgs 0 (by omega)

theorem getVarValue_behind (hs : Described s) (name : ZendString) (isParam : Bool) :
    getVarValue w g (behind more s) name isParam = getVarValue w g s name isParam := by
  have hpath : (behind more s).head?.bind getCompleteFunctionPath = s.head?.bind getCompleteFunctionPath := by
    cases s with
    | nil => rfl
    | cons frame s => exact getCompleteFunctionPath_behindFrame frame
  unfold getVarValue
  simp only [getParamVar_behind hs, hpath, getLocalVar_behind]

theorem spGetVarValue_behind (hs : Described s) (tree : SpTree) (isParam : Bool) :
    spGetVarValue w g (behind more s) tree isParam = spGetVarValue w g s tree isParam :=
  varValueFrom_congr (getVarValue_behind hs) tree isParam none none

theorem varMatching_behind (hs : Described s) (r : SpDisabledFunction) :
    varMatching w g (behind more s) r = varMatching w g s r := by
  unfold varMatching isLocalVarMatching
  rw [spGetVarValue_behind hs]

end Path

/-! ### The filter on a parameter -/

section Param
variable {w g more} {frame : Frame} {s : Stack} {fn : ZendFunction} {rx : SpRegexp} {r : SpDisabledFunction}

variable (w g) in
/-- The loop over the arguments stays within the array, or the engine ends the request before it leaves
it. -/
def LoopInside (frame : Frame) (fn : ZendFunction) (rx : SpRegexp) : Prop :=
  frame.numArgs ≤ fn.argInfo.length ∨ ∃ arg ∈ fn.argInfo, ¬ GoesOn w g rx arg.name

theorem fetch_eq_of_getElem? {α : Type} {l : List α} {i : ℕ} (hi : i < l.length) :
    fetch l[i]? = pure l[i] := by
  rw [List.getElem?_eq_getElem hi]
  rfl

/-- Behind an argument on which the engine ends the request, nothing is read. -/
theorem regexpArgFrom_behind (slots : List Zval) : ∀ (n i : ℕ) (m : Matched) (last : Option Zval),
    (i + n ≤ fn.argInfo.length ∨ ∃ j, i ≤ j ∧ ∃ hj : j < fn.argInfo.length, ¬ GoesOn w g rx fn.argInfo[j].name) →
    regexpArgFrom w g (behindFn more fn) slots rx i n m last = regexpArgFrom w g fn slots rx i n m last
  | 0, _, _, _, _ => rfl
  | n + 1, i, m, last, h => by
    have hi : i < fn.argInfo.length := by
      rcases h with h | ⟨j, hij, hj, -⟩ <;> omega
    have harg : (behindFn more fn).argInfo[i]? = fn.argInfo[i]? := List.getElem?_append_left hi
    unfold regexpArgFrom
    rw [harg, fetch_eq_of_getElem? hi, pure_bind, pure_bind]
    refine bind_congr_yields fun b hb => ?_
    have hrest : i + 1 + n ≤ fn.argInfo.length ∨
        ∃ j, i + 1 ≤ j ∧ ∃ hj : j < fn.argInfo.length, ¬ GoesOn w g rx fn.argInfo[j].name := by
      rcases h with h | ⟨j, hij, hj, hstop⟩
      · left
        omega
      · rcases Nat.eq_or_lt_of_le hij with rfl | hij
        · exact absurd ⟨b, hb⟩ hstop
        · exact Or.inr ⟨j, hij, hj, hstop⟩
    have ih := fun m last => regexpArgFrom_behind slots n (i + 1) m last hrest
    simp only [ih]

theorem described (hcall : CallOf frame fn) : Described (frame :: s) := by
  intro f hf fn' hfn
  cases hf
  rw [hcall.func] at hfn
  cases hfn
  exact hcall.declared

theorem selectArg_behind (hcall : CallOf frame fn) (hin : r.pos < 0 → ∀ rx, r.rParam = some rx → LoopInside w g frame fn rx) :
    selectArg w g (behindFrame more frame :: s) (behindFrame more frame) (behindFn more fn) r =
      selectArg w g (frame :: s) frame fn r := by
  unfold selectArg
  split_ifs with hpos
  · dsimp only
    by_cases hlt : r.pos.toNat < fn.numArgs
    · have harg : (behindFn more fn).argInfo[r.pos.toNat]? = fn.argInfo[r.pos.toNat]? :=
        List.getElem?_append_left (by have := hcall.declared; omega)
      rw [harg]
      rfl
    · rw [if_neg hlt, if_neg (show ¬ r.pos.toNat < (behindFn more fn).numArgs from hlt)]
      rfl
  · cases hparam : r.param with
    | node type name idx next =>
      have hvalue : spGetVarValue w g (behindFrame more frame :: s) (.node type name idx next) Bool.true =
          spGetVarValue w g (frame :: s) (.node type name idx next) Bool.true :=
        spGetVarValue_behind (described hcall) (.node type name idx next) Bool.true
      dsimp only
      exact congrArg (· >>= _) hvalue
    | nil =>
      cases hrx : r.rParam with
      | none => rfl
      | some rx =>
        refine regexpArgFrom_behind frame.slots frame.numArgs 0 {} none ?_
        rcases hin (by omega) rx hrx with h | ⟨arg, harg, hstop⟩
        · left
          omega
        · obtain ⟨j, hj, rfl⟩ := List.getElem_of_mem harg
          exact Or.inr ⟨j, by omega, hj, hstop⟩

variable (w g) in
/-- **What the filter reads is there**: a first description, and with `param_r`, unless the first parameter
is the variadic one, those the loop looks at. -/
def Legible (frame : Frame) (fn : ZendFunction) (r : SpDisabledFunction) : Prop :=
  ∃ first, fn.argInfo.head? = some first ∧
    ∀ rx, r.rParam = some rx → first.isVariadic = true ∨ LoopInside w g frame fn rx

theorem isVariadic_of_callOf (hcall : CallOf frame fn) :
    isVariadic (frame :: s) = fetch fn.argInfo.head? >>= fun arg => pure arg.isVariadic := by
  unfold isVariadic
  rw [List.head?_cons]
  show (fetch frame.func >>= fun fn => fetch fn.argInfo[0]? >>= fun arg => pure arg.isVariadic) = _
  rw [hcall.func, List.head?_eq_getElem?]
  rfl

theorem isVariadic_eq (hcall : CallOf frame fn) {first : ArgInfo} (hfirst : fn.argInfo.head? = some first) :
    isVariadic (frame :: s) = pure first.isVariadic := by
  rw [isVariadic_of_callOf hcall, hfirst]
  rfl

variable (more) in
theorem callOf_behind (hcall : CallOf frame fn) : CallOf (behindFrame more frame) (behindFn more fn) where
  func := by
    unfold behindFrame
    rw [hcall.func]
    rfl
  declared := by
    have hdeclared := hcall.declared
    show fn.numArgs ≤ (fn.argInfo ++ more).length
    rw [List.length_append]
    omega
  passed := hcall.passed

/-- The filter, if the first parameter is not the variadic one. -/
theorem paramMatching_eq (hcall : CallOf frame fn) (hfilters : filtersParam r = true) {first : ArgInfo}
    (hfirst : fn.argInfo.head? = some first) (hvariadic : first.isVariadic = false) :
    paramMatching w g ⟨frame :: s, none⟩ r = isParamMatching w g ⟨frame :: s, none⟩ r := by
  unfold paramMatching checkedParamMatching
  rw [if_pos hfilters]
  dsimp only
  rw [Option.isSome_none, if_neg Bool.false_ne_true, isVariadic_eq hcall hfirst, pure_bind, hvariadic]
  rfl

/-- The filter, if the first parameter is the variadic one: the call is let through. -/
theorem paramMatching_of_variadic (hcall : CallOf frame fn) (hfilters : filtersParam r = true) {first : ArgInfo}
    (hfirst : fn.argInfo.head? = some first) (hvariadic : first.isVariadic = true) :
    paramMatching w g ⟨frame :: s, none⟩ r = (do
      spLogWarn w g "disable_function"
        "Snuffleupagus doesn't support variadic functions yet, sorry. Check https://github.com/jvoisin/snuffleupagus/issues/164 for details." []
      pure (some {})) := by
  unfold paramMatching checkedParamMatching
  rw [if_pos hfilters]
  dsimp only
  rw [Option.isSome_none, if_neg Bool.false_ne_true, isVariadic_eq hcall hfirst, pure_bind, if_pos hvariadic]

variable (more) in
theorem head?_behindFn {first : ArgInfo} (hfirst : fn.argInfo.head? = some first) :
    (behindFn more fn).argInfo.head? = some first := by
  show (fn.argInfo ++ more).head? = _
  rw [List.head?_append, hfirst]
  rfl

/-- The filter itself, if the loop stays within the array. -/
theorem isParamMatching_behind (hcall : CallOf frame fn)
    (hin : ∀ rx, r.rParam = some rx → LoopInside w g frame fn rx) :
    isParamMatching w g ⟨behindFrame more frame :: s, none⟩ r = isParamMatching w g ⟨frame :: s, none⟩ r := by
  have hcall' := callOf_behind more hcall
  rw [isParamMatching_of_func hcall'.func, isParamMatching_of_func hcall.func, selectArg_behind hcall fun _ => hin]
  rfl

theorem paramMatching_behind (hcall : CallOf frame fn) (hread : filtersParam r = true → Legible w g frame fn r) :
    paramMatching w g ⟨behind more (frame :: s), none⟩ r = paramMatching w g ⟨frame :: s, none⟩ r := by
  by_cases hfilters : filtersParam r = true
  · obtain ⟨first, hfirst, hloop⟩ := hread hfilters
    have hfirst' := head?_behindFn more hfirst
    have hcall' := callOf_behind more hcall
    unfold behind
    cases hvariadic : first.isVariadic with
    | true =>
      rw [paramMatching_of_variadic hcall hfilters hfirst hvariadic,
        paramMatching_of_variadic hcall' hfilters hfirst' hvariadic]
    | false =>
      rw [paramMatching_eq hcall hfilters hfirst hvariadic, paramMatching_eq hcall' hfilters hfirst' hvariadic]
      refine isParamMatching_behind hcall fun rx hrx => ?_
      rcases hloop rx hrx with h | h
      · rw [hvariadic] at h
        cases h
      · exact h
  · unfold paramMatching
    rw [if_neg hfilters, if_neg hfilters]

end Param

/-! ### What is not there -/

section Missing
variable {w g} {frame : Frame} {s : Stack} {fn : ZendFunction} {rx : SpRegexp} {r : SpDisabledFunction}

theorem avoids_argMatching (m : Matched) (v : Zval) : Avoids .outOfBounds (argMatching w g r m v) := by
  have hd : Abort.outOfBounds ≠ .drop := by decide
  have he : Abort.outOfBounds ≠ .error := by decide
  have hinspect : Avoids .outOfBounds (inspect w g r v) := by
    unfold inspect
    split
    · split_ifs
      · exact avoids_spMatchArrayKey hd he _ _ _
      · exact avoids_spMatchArrayValue hd he _ _ _
    · exact avoids_spMatchValue hd he _ _ _
  unfold argMatching
  split_ifs
  · exact avoids_pure _
  · exact avoids_pure _
  · refine hinspect.bind fun ok => ?_
    cases ok with
    | true => exact avoids_pure _
    | false => exact avoids_pure _

/-- Behind the last description, the loop looks at one that is not there. -/
theorem out_regexpArgFrom (slots : List Zval) (hgo : ∀ arg ∈ fn.argInfo, GoesOn w g rx arg.name) :
    ∀ (n i : ℕ) (m : Matched) (last : Option Zval), i ≤ fn.argInfo.length → fn.argInfo.length < i + n →
      i + n ≤ slots.length → (regexpArgFrom w g fn slots rx i n m last).out = .error .outOfBounds
  | 0, i, _, _, hi, hn, _ => by omega
  | n + 1, i, m, last, hi, hn, hs => by
    unfold regexpArgFrom
    rcases Nat.eq_or_lt_of_le hi with rfl | hi
    · rw [List.getElem?_eq_none le_rfl]
      rfl
    · obtain ⟨b, hb⟩ := hgo fn.argInfo[i] (List.getElem_mem hi)
      have ih := fun m last => out_regexpArgFrom slots hgo n (i + 1) m last (by omega) (by omega) (by omega)
      have hb : (spIsRegexpMatching w g rx fn.argInfo[i].name).out = .ok b := hb
      rw [fetch_eq_of_getElem? hi, pure_bind, out_bind, hb, ok_bind]
      cases b with
      | true =>
        rw [if_pos rfl, fetch_eq_of_getElem? (show i < slots.length by omega), pure_bind]
        exact ih _ _
      | false => exact ih _ _

/-- Within the array, the loop finds what it looks at. -/
theorem avoids_regexpArgFrom (slots : List Zval) :
    ∀ (n i : ℕ) (m : Matched) (last : Option Zval), i + n ≤ fn.argInfo.length → i + n ≤ slots.length →
      Avoids .outOfBounds (regexpArgFrom w g fn slots rx i n m last)
  | 0, _, _, _, _, _ => avoids_pure _
  | n + 1, i, m, last, hi, hs => by
    have ih := fun m last => avoids_regexpArgFrom slots n (i + 1) m last (by omega) (by omega)
    have hname : Avoids .outOfBounds (spIsRegexpMatching w g rx fn.argInfo[i].name) :=
      avoids_spMatchValue (by decide) (by decide) _ none (some rx)
    unfold regexpArgFrom
    rw [fetch_eq_of_getElem? (show i < fn.argInfo.length by omega), pure_bind]
    refine hname.bind fun b => ?_
    cases b with
    | true =>
      rw [if_pos rfl, fetch_eq_of_getElem? (show i < slots.length by omega), pure_bind]
      exact ih _ _
    | false => exact ih _ _

/-- What is missing, if it is not all there. -/
theorem not_legible (h : ¬ Legible w g frame fn r) : fn.argInfo = [] ∨ ∃ first rx, fn.argInfo.head? = some first ∧
    first.isVariadic = false ∧ r.rParam = some rx ∧ fn.argInfo.length < frame.numArgs ∧
      ∀ arg ∈ fn.argInfo, GoesOn w g rx arg.name := by
  cases hfirst : fn.argInfo.head? with
  | none => exact Or.inl (List.head?_eq_none_iff.mp hfirst)
  | some first =>
    right
    unfold Legible at h
    push Not at h
    obtain ⟨rx, hrx, hvariadic, hloop⟩ := h first hfirst
    unfold LoopInside at hloop
    push Not at hloop
    exact ⟨first, rx, rfl, eq_false_of_ne_true hvariadic, hrx, hloop.1, hloop.2⟩

/-- With `param_r` the filter is the loop over the arguments. -/
theorem isParamMatching_of_rParam (hcall : CallOf frame fn) (h0 : frame.numArgs ≠ 0) (hpos : r.pos < 0)
    (hnil : r.param = .nil) (hrx : r.rParam = some rx) : isParamMatching w g ⟨frame :: s, none⟩ r =
      regexpArgFrom w g fn frame.slots rx 0 frame.numArgs {} none >>= fun p =>
        match p.2 with
        | none => pure none
        | some v => argMatching w g r p.1 v := by
  have hselect : selectArg w g (frame :: s) frame fn r = regexpArgFrom w g fn frame.slots rx 0 frame.numArgs {} none := by
    unfold selectArg
    rw [if_neg (by omega), hnil, hrx]
  have heq := isParamMatching_of_func (w := w) (g := g) (s := s) (r := r) hcall.func
  rw [if_neg h0, if_neg (by omega), hselect] at heq
  exact heq

section NotLegible
variable {w₀ : World} (hacc : Accepted w₀ r) (hcall : CallOf frame fn) (hfilters : filtersParam r = true)
  (h : ¬ Legible w g frame fn r)
include hacc hcall hfilters h

/-- The filter looks at a description that is not there. -/
theorem out_paramMatching : (paramMatching w g ⟨frame :: s, none⟩ r).out = .error .outOfBounds := by
  rcases not_legible h with hnil | ⟨first, rx, hfirst, hvariadic, hrx, hlt, hgo⟩
  · unfold paramMatching checkedParamMatching
    rw [if_pos hfilters]
    dsimp only
    rw [Option.isSome_none, if_neg Bool.false_ne_true, isVariadic_of_callOf hcall, hnil]
    rfl
  · obtain ⟨hpos, hparam⟩ := (Accepted.selects hacc).1 (by rw [hrx]; rfl)
    have hpassed := hcall.passed
    rw [paramMatching_eq hcall hfilters hfirst hvariadic,
      isParamMatching_of_rParam hcall (by omega) hpos hparam hrx, out_bind,
      out_regexpArgFrom frame.slots hgo frame.numArgs 0 {} none (by omega) (by omega) (by omega), error_bind]

/-- With something there, the filter finds what it looks at. -/
theorem exists_avoids_paramMatching :
    ∃ more, Avoids .outOfBounds (paramMatching w g ⟨behind more (frame :: s), none⟩ r) := by
  rcases not_legible h with hnil | ⟨first, rx, hfirst, hvariadic, hrx, hlt, hgo⟩
  · -- a first parameter that is variadic
    refine ⟨[⟨[], true⟩], ?_⟩
    have hcall' := callOf_behind [⟨[], true⟩] hcall
    have hfirst : (behindFn [⟨[], true⟩] fn).argInfo.head? = some ⟨[], true⟩ := by
      unfold behindFn
      rw [hnil]
      rfl
    unfold behind
    rw [paramMatching_of_variadic hcall' hfilters hfirst rfl]
    exact (avoids_spLogMsgf _ _ (by decide) (by decide) _ _ _ _ _).bind fun _ => avoids_pure _
  · -- as many parameters as there are arguments
    refine ⟨List.replicate frame.numArgs { name := [] }, ?_⟩
    have hcall' := callOf_behind (List.replicate frame.numArgs { name := [] }) hcall
    obtain ⟨hpos, hparam⟩ := (Accepted.selects hacc).1 (by rw [hrx]; rfl)
    have hpassed := hcall.passed
    have hlong : 0 + frame.numArgs ≤ (behindFn (List.replicate frame.numArgs { name := [] }) fn).argInfo.length := by
      show _ ≤ (fn.argInfo ++ _).length
      rw [List.length_append, List.length_replicate]
      omega
    unfold behind
    rw [paramMatching_eq hcall' hfilters (head?_behindFn _ hfirst) hvariadic,
      isParamMatching_of_rParam hcall' (show frame.numArgs ≠ 0 by omega) hpos hparam hrx]
    refine (avoids_regexpArgFrom frame.slots frame.numArgs 0 {} none hlong (by omega)).bind fun p => ?_
    obtain ⟨m, _ | v⟩ := p
    · exact avoids_pure _
    · exact avoids_argMatching m v

end NotLegible

end Missing

/-! ### The evaluation of a rule -/

section Rule
variable {w g} {frame : Frame} {s : Stack} {fn : ZendFunction} {r : SpDisabledFunction}
  {path filename fileHash : ZendString}

variable (w g) in
/-- The tests before the filter on a parameter succeed. -/
def Reaches (s : Stack) (path filename fileHash : ZendString) (r : SpDisabledFunction) : Prop :=
  Yields (allSeq [functionMatching w g s path r, pure (lineMatching s r), fileMatching w g s r filename,
    cidrMatching w g r, varMatching w g s r]) true ∧
    ∃ fileHash', Yields (hashMatching w g filename fileHash r) (fileHash', true)

/-- What comes after the digest matters only if it is reached. -/
theorem ruleMatching_congr {μ : Type} {before : Sp Bool} {after after' : Sp (Option μ)}
    (h : Yields before true → ∀ fileHash', Yields (hashMatching w g filename fileHash r) (fileHash', true) →
      after = after') :
    ruleMatching w g before after filename fileHash r = ruleMatching w g before after' filename fileHash r := by
  unfold ruleMatching
  refine bind_congr_yields fun b hb => ?_
  cases b with
  | false => rfl
  | true =>
    refine bind_congr_yields fun p hp => ?_
    obtain ⟨fileHash', ok⟩ := p
    cases ok with
    | false => rfl
    | true =>
      dsimp only
      rw [h hb fileHash' hp]

/-- What is behind the array can only be seen by the filter on a parameter. -/
theorem callMatching_behind (hcall : CallOf frame fn) (more : List ArgInfo) :
    callMatching w g ⟨behind more (frame :: s), none⟩ path filename fileHash r =
      ruleMatching w g (allSeq [functionMatching w g (frame :: s) path r, pure (lineMatching (frame :: s) r),
        fileMatching w g (frame :: s) r filename, cidrMatching w g r, varMatching w g (frame :: s) r])
        (paramMatching w g ⟨behind more (frame :: s), none⟩ r) filename fileHash r := by
  unfold callMatching
  dsimp only
  rw [functionMatching_behind, lineMatching_behind, fileMatching_behind, varMatching_behind (described hcall)]

theorem out_ruleMatching_of_yields {μ : Type} {before : Sp Bool} {after : Sp (Option μ)} {fileHash' : ZendString}
    (hb : Yields before true) (hh : Yields (hashMatching w g filename fileHash r) (fileHash', true)) :
    (ruleMatching w g before after filename fileHash r).out = after.out.map (fileHash', ·) := by
  unfold Yields at hb hh
  rw [out_ruleMatching, hb, ok_bind, if_pos rfl, hh, ok_bind, if_pos rfl]

/-- **The evaluation of a rule stays within the array** exactly if the filter on a parameter, when it comes to
that, finds there what it reads. -/
theorem in_range_iff {w₀ : World} (hacc : Accepted w₀ r) (hcall : CallOf frame fn) :
    InRange w g frame s path filename fileHash r ↔
      (Reaches w g (frame :: s) path filename fileHash r → filtersParam r = true → Legible w g frame fn r) := by
  constructor
  · rintro hrange ⟨hbefore, fileHash', hhash⟩ hfilters
    by_contra hnot
    obtain ⟨more, hmore⟩ := exists_avoids_paramMatching (s := s) hacc hcall hfilters hnot
    have heq := congrArg Run.out (hrange more)
    have hplain : (callMatching w g ⟨frame :: s, none⟩ path filename fileHash r).out = .error .outOfBounds :=
      (out_ruleMatching_of_yields hbefore hhash).trans
        (congrArg (Except.map _) (out_paramMatching hacc hcall hfilters hnot))
    rw [hplain, callMatching_behind hcall, out_ruleMatching_of_yields hbefore hhash] at heq
    unfold Avoids at hmore
    cases hout : (paramMatching w g ⟨behind more (frame :: s), none⟩ r).out with
    | ok m =>
      rw [hout] at heq
      cases heq
    | error e =>
      rw [hout] at heq hmore
      cases heq
      exact hmore rfl
  · intro h more
    rw [callMatching_behind hcall]
    refine ruleMatching_congr fun hbefore fileHash' hhash => ?_
    exact paramMatching_behind hcall (h ⟨hbefore, fileHash', hhash⟩)

/-- `function f($ab, $ac)`, called with two arguments. -/
theorem in_range_sample :
    InRange sampleWorld {} (sampleCall "x" "y") [] (zstr "f") [] [] sampleRule := by
  have hcall : CallOf (sampleCall "x" "y") sampleFn := ⟨rfl, by decide, by decide⟩
  exact (in_range_iff accepted_sampleRule hcall).mpr fun _ _ =>
    ⟨{ name := zstr "ab" }, rfl, fun _ _ => Or.inr (Or.inl (by decide))⟩

/-- `function f()`, called as `f()`. -/
def bareFn : ZendFunction where
  type := .user
  functionName := some (zstr "f")

@[inherit_doc bareFn]
def bareCall : Frame where
  func := some bareFn

/-- For a function without parameters, the rule looks at the description of the first one. -/
theorem in_range_bare : Accepted (World.empty 80000) sampleRule ∧ CallOf bareCall bareFn ∧
    ¬ InRange sampleWorld {} bareCall [] (zstr "f") [] [] sampleRule := by
  refine ⟨accepted_sampleRule, ⟨rfl, le_rfl, le_rfl⟩, fun h => ?_⟩
  have heq := congrArg Run.out (h [⟨[], true⟩])
  have hplain : (callMatching sampleWorld {} ⟨[bareCall], none⟩ (zstr "f") [] [] sampleRule).out =
      .error .outOfBounds := rfl
  have hbehind : (callMatching sampleWorld {} ⟨behind [⟨[], true⟩] [bareCall], none⟩ (zstr "f") [] [] sampleRule).out =
      .ok ([], some {}) := rfl
  rw [hplain, hbehind] at heq
  cases heq

end Rule

end Snuffleupagus.DisabledFunctions.Descriptor
