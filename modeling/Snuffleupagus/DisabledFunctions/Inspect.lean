import Snuffleupagus.DisabledFunctions.Argument
import Snuffleupagus.Match.Search

/-! # What is looked at in a value

The filters on a variable and on a parameter find a value each in its own way, and then look at it in the
same one: at the keys of an array if the rule has a filter on keys, and else at its leaves
(`holds_iff`).

What they look at decides even for a rule that asks for nothing. An array without a leaf is passed over by
a rule that only names a parameter (`value_filter_iff`), and a value that is not an array passes every
filter on keys (`key_filter_iff`). -/

namespace Snuffleupagus.DisabledFunctions.Inspect

open Snuffleupagus.Lib.Effect Snuffleupagus.Php.Bytes Snuffleupagus.Php.Value Snuffleupagus.Php.Engine
open Snuffleupagus.Config.Rule Snuffleupagus.Config.Keyword Snuffleupagus.Config.DisabledFunctions
open Snuffleupagus.Log Snuffleupagus.Match.Value Snuffleupagus.Match.VarValue Snuffleupagus.Match.Search
open Snuffleupagus.DisabledFunctions.Filter Snuffleupagus.DisabledFunctions.Argument
open Snuffleupagus.Log.Dump (keyText)

/-- **Where a rule looks at a value**: at a variable of a stack, or at a parameter of a call. -/
inductive Place
  | var (s : Stack)
  | param (c : Call)

variable (w : World) (g : SpGlobals) (r : SpDisabledFunction)

/-- The filter comes to look at the value. -/
def Inspects : Place → Zval → Prop
  | .var s, v => Yields (spGetVarValue w g s r.var Bool.false) (some v)
  | .param ⟨_, some b⟩, v => v = .string b.param
  | .param ⟨[], none⟩, _ => False
  | .param ⟨frame :: s, none⟩, v => ∃ fn m, frame.func = some fn ∧ frame.numArgs ≠ 0 ∧
      ¬ (r.pos > (frame.numArgs : ℤ) - 1 ∨ r.pos > fn.numArgs) ∧
        Yields (selectArg w g (frame :: s) frame fn r) (m, some v)

/-- The filter is satisfied. -/
def Holds : Place → Prop
  | .var s => Yields (isLocalVarMatching w g s r) true
  | .param c => ∃ m, Yields (isParamMatching w g c r) (some m)

/-- The value has the type the rule asks for. It is only asked for with the argument of a function. -/
def TypeOk : Place → Zval → Prop
  | .param ⟨_, none⟩, v => r.paramType = .undef ∨ r.paramType = v.type
  | _, _ => True

/-- The rule asks for the type of an argument, and for nothing else. -/
def TypeOnly : Place → Prop
  | .param ⟨_, none⟩ => r.paramType ≠ .undef ∧
      (r.key.isSome || r.rKey.isSome || r.value.isSome || r.rValue.isSome) = false
  | _ => False

variable {w g r} {p : Place} {v : Zval}

/-- A value that is not an array is compared as a string. -/
theorem inspect_of_ne (h : v.type ≠ .array) :
    inspect w g r v = spMatchValue w g (spZvalToZendString w v) r.value r.rValue := by
  cases v with
  | array ht => exact absurd rfl h
  | _ => rfl

theorem satisfies_iff_inspect : Satisfies w g r v ↔
    (r.paramType = .undef ∨ r.paramType = v.type) ∧
      ((r.paramType ≠ .undef ∧
          (r.key.isSome || r.rKey.isSome || r.value.isSome || r.rValue.isSome) = false) ∨
        Yields (inspect w g r v) true) := by
  unfold Satisfies argMatching
  by_cases hmis : r.paramType ≠ .undef ∧ r.paramType ≠ v.type
  · have hno : ¬ (r.paramType = .undef ∨ r.paramType = v.type) := by tauto
    rw [if_pos hmis]
    refine iff_of_false ?_ fun h => hno h.1
    rintro ⟨m, hm⟩
    cases yields_pure.mp hm
  · have hok : r.paramType = .undef ∨ r.paramType = v.type := by tauto
    rw [if_neg hmis, and_iff_right hok]
    by_cases honly : r.paramType ≠ .undef ∧
        (r.key.isSome || r.rKey.isSome || r.value.isSome || r.rValue.isSome) = false
    · rw [if_pos ⟨honly.1, by rw [honly.2]; rfl⟩]
      exact iff_of_true ⟨_, yields_pure.mpr rfl⟩ (Or.inl honly)
    · have hif : ¬ (r.paramType ≠ .undef ∧
          (!(r.key.isSome || r.rKey.isSome || r.value.isSome || r.rValue.isSome)) = true) := by
        rw [Bool.not_eq_true']
        exact honly
      rw [if_neg hif, or_iff_right honly]
      constructor
      · rintro ⟨m, hm⟩
        obtain ⟨b, hb, hm⟩ := yields_bind.mp hm
        cases b with
        | true => exact hb
        | false => cases yields_pure.mp hm
      · intro hb
        exact ⟨_, yields_bind.mpr ⟨true, hb, yields_pure.mpr rfl⟩⟩

/-- **Both filters look at a value in the same way**, behind the type of an argument. -/
theorem holds_iff (h : Inspects w g r p v) :
    Holds w g r p ↔ TypeOk r p v ∧ (TypeOnly r p ∨ Yields (inspect w g r v) true) := by
  match p, h with
  | .var s, h =>
    unfold Holds TypeOk TypeOnly isLocalVarMatching
    rw [true_and, false_or]
    dsimp only
    rw [yields_bind]
    constructor
    · rintro ⟨o, ho, hv⟩
      cases ho.unique h
      exact hv
    · intro hv
      exact ⟨some v, h, hv⟩
  | .param ⟨s, some b⟩, h =>
    have hv : v = .string b.param := h
    subst hv
    unfold Holds TypeOk TypeOnly isParamMatching
    rw [true_and, false_or]
    dsimp only
    constructor
    · rintro ⟨m, hm⟩
      obtain ⟨ok, hok, hm⟩ := yields_bind.mp hm
      cases ok with
      | true => exact hok
      | false => cases yields_pure.mp hm
    · intro hok
      exact ⟨_, yields_bind.mpr ⟨true, hok, yields_pure.mpr rfl⟩⟩
  | .param ⟨frame :: s, none⟩, h =>
    obtain ⟨fn, m, hfunc, hargs, hpos, hsel⟩ := h
    have heq : Holds w g r (.param ⟨frame :: s, none⟩) ↔ Satisfies w g r v := by
      unfold Holds
      dsimp only
      rw [isParamMatching_of_func hfunc, if_neg hargs, if_neg hpos, satisfies_iff m]
      constructor
      · rintro ⟨m', hm'⟩
        obtain ⟨q, hq, hm'⟩ := yields_bind.mp hm'
        cases hq.unique hsel
        exact ⟨m', hm'⟩
      · rintro ⟨m', hm'⟩
        exact ⟨m', yields_bind.mpr ⟨(m, some v), hsel, hm'⟩⟩
    rw [heq]
    exact satisfies_iff_inspect

/-! ### The leaves -/

variable (r) in
/-- The rule has a filter on values. -/
def FiltersValue : Prop := r.value.isSome ∨ r.rValue.isSome

variable (w r v) in
/-- A leaf of the value has the string the rule looks for. -/
def LeafMatches : Prop :=
  ∃ l, Leaf v l ∧ matchesText w r.value r.rValue (spZvalToZendString w l) = true

variable (w g r p v) in
/-- **What a filter on values should accept**: every value if there is none, and else a value with a leaf
that matches. -/
def ValueFilter : Prop := Holds w g r p ↔ TypeOk r p v ∧ (¬ FiltersValue r ∨ LeafMatches w r v)

/-- Without filters on keys a value is searched leaf by leaf. -/
theorem yields_inspect_leaves (hkey : r.key = none) (hrKey : r.rKey = none) :
    Yields (inspect w g r v) true ↔ LeafMatches w r v ∧ LeavesReached w g r.value r.rValue v := by
  have heq : inspect w g r v = spMatchElement w g r.value r.rValue v := by
    by_cases h : v.type = .array
    · cases v with
      | array ht =>
        unfold inspect
        rw [hkey, hrKey]
        rfl
      | _ => cases h
    · rw [inspect_of_ne h, spMatchElement_eq, leaves_of_ne h]
      exact (anySeq_singleton _).symm
  rw [heq, yields_spMatchElement]
  rfl

theorem matchesText_of_not (h : ¬ FiltersValue r) (s : ZendString) : matchesText w r.value r.rValue s = true := by
  unfold FiltersValue at h
  have hv : r.value = none := by
    by_contra hne
    exact h (Or.inl (Option.isSome_iff_ne_none.mpr hne))
  have hr : r.rValue = none := by
    by_contra hne
    exact h (Or.inr (Option.isSome_iff_ne_none.mpr hne))
  rw [hv, hr]
  rfl

/-- **A value is filtered right** unless it is an array without a leaf and the rule has no filter on values,
or the engine ends the request in front of the first leaf that matches. Only the type of an argument may be
filtered alone. -/
theorem value_filter_iff (h : Inspects w g r p v) (hkey : r.key = none) (hrKey : r.rKey = none) :
    ValueFilter w g r p v ↔ (TypeOk r p v → ¬ TypeOnly r p →
      (FiltersValue r ∨ ∃ l, Leaf v l) ∧ (LeafMatches w r v → LeavesReached w g r.value r.rValue v)) := by
  unfold ValueFilter
  rw [holds_iff h, yields_inspect_leaves hkey hrKey]
  by_cases htype : TypeOk r p v
  swap
  · exact iff_of_true ⟨fun h => absurd h.1 htype, fun h => absurd h.1 htype⟩ fun h => absurd h htype
  by_cases honly : TypeOnly r p
  · have hno : ¬ FiltersValue r := by
      match p, honly with
      | .param ⟨_, none⟩, honly =>
        have hnone := honly.2
        simp only [Bool.or_eq_false_iff] at hnone
        unfold FiltersValue
        simp [hnone.1.2, hnone.2]
    exact iff_of_true ⟨fun h => ⟨h.1, Or.inl hno⟩, fun h => ⟨h.1, Or.inl honly⟩⟩ fun _ h => absurd honly h
  simp only [htype, honly, true_and, false_or, forall_const, not_false_eq_true]
  by_cases hfilter : FiltersValue r
  · simp only [hfilter, not_true_eq_false, false_or, true_or, true_and]
    exact ⟨fun h hl => (h.mpr hl).2, fun h => ⟨And.left, fun hl => ⟨hl, h hl⟩⟩⟩
  · have hleaf : LeafMatches w r v ↔ ∃ l, Leaf v l :=
      exists_congr fun l => and_iff_left (matchesText_of_not hfilter _)
    simp only [hfilter, not_false_eq_true, true_or, iff_true, false_or, hleaf]
    exact ⟨fun h => ⟨h.1, fun _ => h.2⟩, fun h => ⟨h.1, h.2 h.1⟩⟩

/-- `sp.disable_function.function("f").pos("0").drop();`, and the same with one more filter. -/
def sampleKeywords (l : List SpParsedKeyword) : List SpParsedKeyword :=
  [{ kw := zstr "function", arg := some (zstr "f"), argtype := .str },
    { kw := zstr "pos", arg := some (zstr "0"), argtype := .str }] ++ l ++
      [{ kw := zstr "drop", argtype := .empty }]

/-- The rule without another filter. -/
def positionRule : SpDisabledFunction where
  textualRepresentation := spGetTextualRepresentation ({ kw := zstr "disable_function" } :: sampleKeywords [])
  function := some (zstr "f")
  pos := 0

/-- `function f($a)`. -/
def sampleFn : ZendFunction where
  type := .user
  functionName := some (zstr "f")
  argInfo := [{ name := zstr "a" }]
  numArgs := 1

/-- The filter on the argument in a call of it. -/
def argumentOf (v : Zval) : Place := .param ⟨[{ func := some sampleFn, numArgs := 1, slots := [v] }], none⟩

theorem inspects_argumentOf (w : World) (g : SpGlobals) (v : Zval) {r : SpDisabledFunction} (hpos : r.pos = 0) :
    Inspects w g r (argumentOf v) v := by
  refine ⟨sampleFn, { argName := some (zstr "a") }, rfl, by simp, ?_, ?_⟩
  · rw [hpos]
    simp [sampleFn]
  · unfold selectArg
    rw [hpos]
    rfl

theorem value_filter_nested : ValueFilter (World.empty 80000) {} positionRule
    (argumentOf (.array [(.idx 0, .array [(.idx 0, .long 1)])])) (.array [(.idx 0, .array [(.idx 0, .long 1)])]) := by
  refine (value_filter_iff (inspects_argumentOf _ _ _ rfl) rfl rfl).mpr fun _ _ => ⟨Or.inr ⟨.long 1, ?_⟩, ?_⟩
  · exact mem_leaves.mp (by simp [leaves, leavesTable])
  · intro _ l _
    rfl

/-- `f([])` is let through by a rule that forbids every call of `f` with an argument. -/
theorem value_filter_empty : Accepted (World.empty 80000) positionRule ∧
    Inspects (World.empty 80000) {} positionRule (argumentOf (.array [])) (.array []) ∧
      ¬ ValueFilter (World.empty 80000) {} positionRule (argumentOf (.array [])) (.array []) := by
  refine ⟨⟨{ kw := zstr "disable_function" }, sampleKeywords [], rfl⟩, inspects_argumentOf _ _ _ rfl, fun h => ?_⟩
  obtain ⟨m, hm⟩ := h.mpr ⟨Or.inl rfl, Or.inl (by simp [FiltersValue, positionRule])⟩
  have hnone : Except.ok none = Except.ok (some m) := hm
  cases hnone

/-! ### The keys -/

variable (w r v) in
/-- The value is an array with a key the rule looks for, as PHP prints it. -/
def KeyMatches : Prop := ∃ ht, v = .array ht ∧ ∃ e ∈ ht, matchesText w r.key r.rKey (keyText e.1) = true

variable (w g r p v) in
/-- **What a filter on keys should accept**: arrays with a key that matches. -/
def KeyFilter : Prop := Holds w g r p ↔ TypeOk r p v ∧ KeyMatches w r v

variable (w r) in
/-- The negative integers among the keys count for as much as the numbers modulo `2 ^ 64` they are printed
as: another key matches, or some of them do in both forms, or in neither. -/
def NegativesAgree (ht : HashTable) : Prop :=
  (∃ e ∈ ht, isNegative e.1 = false ∧ matchesText w r.key r.rKey (keyText e.1) = true) ∨
    ((∃ e ∈ ht, isNegative e.1 = true ∧ matchesText w r.key r.rKey (keyString e.1) = true) ↔
      ∃ e ∈ ht, isNegative e.1 = true ∧ matchesText w r.key r.rKey (keyText e.1) = true)

/-- A key matches if a negative one does, or another one. -/
theorem exists_key_iff {f : HashKey → ZendString} {ht : HashTable} :
    (∃ e ∈ ht, matchesText w r.key r.rKey (f e.1) = true) ↔
      (∃ e ∈ ht, isNegative e.1 = false ∧ matchesText w r.key r.rKey (f e.1) = true) ∨
        ∃ e ∈ ht, isNegative e.1 = true ∧ matchesText w r.key r.rKey (f e.1) = true := by
  constructor
  · rintro ⟨e, he, hm⟩
    by_cases hneg : isNegative e.1 = true
    · exact Or.inr ⟨e, he, hneg, hm⟩
    · exact Or.inl ⟨e, he, by simpa using hneg, hm⟩
  · rintro (⟨e, he, -, hm⟩ | ⟨e, he, -, hm⟩)
    · exact ⟨e, he, hm⟩
    · exact ⟨e, he, hm⟩

/-- The keys that are compared as PHP prints them. -/
theorem exists_nonnegative_iff {ht : HashTable} :
    (∃ e ∈ ht, isNegative e.1 = false ∧ matchesText w r.key r.rKey (keyString e.1) = true) ↔
      ∃ e ∈ ht, isNegative e.1 = false ∧ matchesText w r.key r.rKey (keyText e.1) = true := by
  refine exists_congr fun e => and_congr_right fun _ => and_congr_right fun hneg => ?_
  rw [keyString_eq hneg]

theorem or_and_iff_or (A U S K : Prop) :
    ((A ∨ U) ∧ K ↔ A ∨ S) ↔ ((A ∨ S → K) ∧ (K → A ∨ (U ↔ S))) := by
  by_cases hA : A <;> by_cases hK : K <;> simp [hA, hK]

theorem keyMatches_array {ht : HashTable} :
    KeyMatches w r (.array ht) ↔ ∃ e ∈ ht, matchesText w r.key r.rKey (keyText e.1) = true := by
  refine ⟨?_, fun h => ⟨ht, rfl, h⟩⟩
  rintro ⟨ht', heq, h⟩
  cases heq
  exact h

/-- The keys of an array. -/
theorem inspect_keys_iff (hkey : (r.key.isSome || r.rKey.isSome) = true) (ht : HashTable) :
    (Yields (inspect w g r (.array ht)) true ↔ KeyMatches w r (.array ht)) ↔
      (KeyMatches w r (.array ht) → KeysReached w g r.key r.rKey ht) ∧
        (KeysReached w g r.key r.rKey ht → NegativesAgree w r ht) := by
  unfold inspect NegativesAgree
  dsimp only
  rw [if_pos hkey, yields_spMatchArrayKey, keyMatches_array, exists_key_iff (f := keyString),
    exists_key_iff (f := keyText), exists_nonnegative_iff]
  exact or_and_iff_or _ _ _ _

/-- **Keys are filtered right** exactly on arrays in which the negative keys make no difference, and where
the engine does not end the request in front of the first key that matches. -/
theorem key_filter_iff {w₀ : World} (hacc : Accepted w₀ r) (hkey : r.key.isSome = true ∨ r.rKey.isSome = true)
    (h : Inspects w g r p v) : KeyFilter w g r p v ↔ (TypeOk r p v → ∃ ht, v = .array ht ∧
      (KeyMatches w r v → KeysReached w g r.key r.rKey ht) ∧
        (KeysReached w g r.key r.rKey ht → NegativesAgree w r ht)) := by
  obtain ⟨hvalue, hrValue⟩ := Accepted.keys_alone hacc hkey
  have hany : (r.key.isSome || r.rKey.isSome) = true := by
    rcases hkey with hkey | hkey <;> simp [hkey]
  have honly : ¬ TypeOnly r p := by
    match p with
    | .var _ => exact not_false
    | .param ⟨_, some _⟩ => exact not_false
    | .param ⟨_, none⟩ =>
      rintro ⟨-, hnone⟩
      rw [hany] at hnone
      cases hnone
  unfold KeyFilter
  rw [holds_iff h]
  by_cases htype : TypeOk r p v
  swap
  · exact iff_of_true ⟨fun h => absurd h.1 htype, fun h => absurd h.1 htype⟩ fun h => absurd h htype
  simp only [htype, honly, true_and, false_or, forall_const]
  by_cases harray : ∃ ht, v = .array ht
  · obtain ⟨ht, rfl⟩ := harray
    rw [inspect_keys_iff hany]
    refine ⟨fun h => ⟨ht, rfl, h⟩, ?_⟩
    rintro ⟨ht', heq, h⟩
    cases heq
    exact h
  · -- a value without keys is compared with nothing
    have hne : v.type ≠ .array := by
      intro htype
      cases v with
      | array ht => exact harray ⟨ht, rfl⟩
      | _ => cases htype
    have hin : Yields (inspect w g r v) true := by
      rw [inspect_of_ne hne, hvalue, hrValue]
      exact yields_pure.mpr rfl
    refine iff_of_false (fun h => ?_) ?_
    · obtain ⟨ht, hv, -⟩ := h.mp hin
      exact harray ⟨ht, hv⟩
    · rintro ⟨ht, hv, -⟩
      exact harray ⟨ht, hv⟩

/-- A rule with a filter `key("-1")`, or another one. -/
def keyKeywords (key : String) : List SpParsedKeyword :=
  sampleKeywords [{ kw := zstr "key", arg := some (zstr key), argtype := .str }]

@[inherit_doc keyKeywords]
def keyRule (key : String) : SpDisabledFunction where
  textualRepresentation := spGetTextualRepresentation ({ kw := zstr "disable_function" } :: keyKeywords key)
  function := some (zstr "f")
  pos := 0
  key := some (zstr key)

theorem accepted_keyRule : Accepted (World.empty 80000) (keyRule "a") :=
  ⟨{ kw := zstr "disable_function" }, keyKeywords "a", rfl⟩

theorem key_filter_string : KeyFilter (World.empty 80000) {} (keyRule "a")
    (argumentOf (.array [(.str (zstr "a"), .null)])) (.array [(.str (zstr "a"), .null)]) := by
  refine (key_filter_iff accepted_keyRule (Or.inl rfl) (inspects_argumentOf _ _ _ rfl)).mpr fun _ => ?_
  refine ⟨_, rfl, fun _ e _ => rfl, fun _ => Or.inl ⟨_, List.mem_cons_self, rfl, ?_⟩⟩
  decide

/-- `f(1)` is taken for a call with an array that has the key `a`, and `f([-1 => 2])` is not taken for one
with the key `-1`. -/
theorem key_filter_fails :
    Accepted (World.empty 80000) (keyRule "a") ∧ Accepted (World.empty 80000) (keyRule "-1") ∧
      ¬ KeyFilter (World.empty 80000) {} (keyRule "a") (argumentOf (.long 1)) (.long 1) ∧
        ¬ KeyFilter (World.empty 80000) {} (keyRule "-1") (argumentOf (.array [(.idx (-1), .long 2)]))
          (.array [(.idx (-1), .long 2)]) := by
  refine ⟨accepted_keyRule, ⟨{ kw := zstr "disable_function" }, keyKeywords "-1", rfl⟩, fun h => ?_, fun h => ?_⟩
  · obtain ⟨-, ht, hv, -⟩ := h.mp ⟨_, rfl⟩
    cases hv
  · obtain ⟨m, hm⟩ := h.mpr ⟨Or.inl rfl, _, rfl, _, List.mem_cons_self, by decide⟩
    have hnone : Except.ok none = Except.ok (some m) := hm
    cases hnone

end Snuffleupagus.DisabledFunctions.Inspect
