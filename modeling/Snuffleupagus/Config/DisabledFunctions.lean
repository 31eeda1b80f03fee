import Snuffleupagus.Config.Keyword
import Snuffleupagus.Config.VarParser
import Snuffleupagus.Match.Chain

/-! # Parsing a `disable_function` rule

`parse_disabled_functions` up to the rule it builds: which store it goes to is the subject of
`Snuffleupagus.Hook.Stores`. `Accepted w r` says that some text gives the rule `r`, and `WellFormed r`
what every accepted rule satisfies (`Accepted.wellFormed`). -/

namespace Snuffleupagus.Config.DisabledFunctions

open Snuffleupagus.Lib.Effect Snuffleupagus.Php.Bytes Snuffleupagus.Php.Value Snuffleupagus.Php.Engine
open Snuffleupagus.Config.Rule Snuffleupagus.Config.Keyword Snuffleupagus.Config.VarParser
open Snuffleupagus.Match.Chain

/-- The variables of `parse_disabled_functions`. -/
structure RuleState where
  enable : Bool := false
  disable : Bool := false
  allow : Bool := false
  drop : Bool := false
  var : Option ZendString := none
  param : Option ZendString := none
  df : SpDisabledFunction := {}

/-- Write to a field of the rule. -/
def RuleState.onDf (s : RuleState) (f : SpDisabledFunction → SpDisabledFunction) : RuleState :=
  { s with df := f s.df }

/-- `config_keywords`. -/
def configKeywords (w : World) : List (ZendString × SpParseFn RuleState) :=
  [(zstr "enable", parseEmpty fun s => { s with enable := true }),
    (zstr "disable", parseEmpty fun s => { s with disable := true }),
    (zstr "alias", parseStr (·.df.alias) fun v s => s.onDf fun df => { df with «alias» := some v }),
    (zstr "simulation", parseEmpty fun s => s.onDf fun df => { df with simulation := true }),
    (zstr "sim", parseEmpty fun s => s.onDf fun df => { df with simulation := true }),
    (zstr "filename", parseStr (·.df.filename) fun v s => s.onDf fun df => { df with filename := some v }),
    (zstr "filename_r", parseRegexp w (·.df.rFilename) fun v s =>
      s.onDf fun df => { df with rFilename := some v }),
    (zstr "function", parseStr (·.df.function) fun v s => s.onDf fun df => { df with function := some v }),
    (zstr "function_r", parseRegexp w (·.df.rFunction) fun v s =>
      s.onDf fun df => { df with rFunction := some v }),
    (zstr "dump", parseStr (·.df.dump) fun v s => s.onDf fun df => { df with dump := some v }),
    (zstr "allow", parseEmpty fun s => { s with allow := true }),
    (zstr "drop", parseEmpty fun s => { s with drop := true }),
    (zstr "hash", parseStr (·.df.hash) fun v s => s.onDf fun df => { df with hash := some v }),
    (zstr "param", parseStr (·.param) fun v s => { s with param := some v }),
    (zstr "value_r", parseRegexp w (·.df.rValue) fun v s => s.onDf fun df => { df with rValue := some v }),
    (zstr "value", parseStr (·.df.value) fun v s => s.onDf fun df => { df with value := some v }),
    (zstr "key", parseStr (·.df.key) fun v s => s.onDf fun df => { df with key := some v }),
    (zstr "key_r", parseRegexp w (·.df.rKey) fun v s => s.onDf fun df => { df with rKey := some v }),
    (zstr "param_r", parseRegexp w (·.df.rParam) fun v s => s.onDf fun df => { df with rParam := some v }),
    (zstr "param_type", parsePhpType fun v s => s.onDf fun df => { df with paramType := v }),
    (zstr "ret", parseStr (·.df.ret) fun v s => s.onDf fun df => { df with ret := some v }),
    (zstr "cidr", parseCidr w (·.df.cidr) fun v s => s.onDf fun df => { df with cidr := some v }),
    (zstr "ret_r", parseRegexp w (·.df.rRet) fun v s => s.onDf fun df => { df with rRet := some v }),
    (zstr "ret_type", parsePhpType fun v s => s.onDf fun df => { df with retType := v }),
    (zstr "var", parseStr (·.var) fun v s => { s with var := some v }),
    (zstr "pos", parseInt fun v s => s.onDf fun df => { df with pos := v }),
    (zstr "line", parseUint fun v s => s.onDf fun df => { df with line := v })]

/-- A rule that is kept until the function returns. -/
def isRet (r : SpDisabledFunction) : Bool :=
  r.ret.isSome || r.rRet.isSome || (r.retType ≠ .undef)

/-- `MUTUALLY_EXCLUSIVE`, one test after the other. -/
def mutuallyExclusive (rule : SpParsedKeyword) :
    List (Bool × Bool × ZendString × ZendString) → Except ConfigError Unit
  | [] => .ok ()
  | (x, y, str1, str2) :: l =>
    if x && y then
      .error { fmt := "Invalid configuration line for 'sp.disabled_functions': '.%s' and '.%s' are mutually exclusive in %s:%zu"
               args := [str1, str2, rule.filename, decimal rule.lineno] }
    else mutuallyExclusive rule l

/-- The pairs of filters that exclude each other. -/
def exclusions (df : SpDisabledFunction) (param var : Option ZendString) :
    List (Bool × Bool × ZendString × ZendString) :=
  [(df.value.isSome, df.rValue.isSome, zstr "value", zstr "value_r"),
    (df.rFunction.isSome, df.function.isSome, zstr "function", zstr "function_r"),
    (df.filename.isSome, df.rFilename.isSome, zstr "filename", zstr "filename_r"),
    (df.ret.isSome, df.rRet.isSome, zstr "ret", zstr "ret_r"),
    (df.key.isSome, df.rKey.isSome, zstr "key", zstr "key_r"),
    (df.pos ≥ 0, param.isSome, zstr "pos", zstr "param"),
    (df.pos ≥ 0, df.rParam.isSome, zstr "pos", zstr "param_r"),
    (param.isSome, df.rParam.isSome, zstr "param", zstr "param_r"),
    (df.rKey.isSome || df.key.isSome, df.rValue.isSome || df.value.isSome, zstr "key", zstr "value"),
    (isRet df, df.rParam.isSome || param.isSome, zstr "ret", zstr "param"),
    (isRet df, var.isSome, zstr "ret", zstr "var"),
    (isRet df, df.value.isSome || df.rValue.isSome, zstr "ret", zstr "value")]

/-- The remaining tests on a rule. -/
def checkRule (rule : SpParsedKeyword) (s : RuleState) : Except ConfigError Unit :=
  if !(s.df.rFunction.isSome || s.df.function.isSome) then
    .error { fmt := "Invalid configuration line: 'sp.disabled_functions': must take a function name on line %zu"
             args := [decimal rule.lineno] }
  else if s.df.filename.any fun f => cstr (f.take 1) != zstr "/" && !(zstr "phar://").isPrefixOf f then
    .error { fmt := "Invalid configuration line: 'sp.disabled_functions': '.filename' must be an absolute path or a phar archive on line %zu"
             args := [decimal rule.lineno] }
  else if !(s.allow ^^ s.drop) then
    .error { fmt := "Invalid configuration line: 'sp.disabled_functions': The rule must either be a `drop` or `allow` one on line %zu"
             args := [decimal rule.lineno] }
  else .ok ()

/-- The path of `param`: without a `$` in front one is put there. -/
def parseParam (w : World) (rule : SpParsedKeyword) (param : Option ZendString) :
    Except ConfigError SpTree :=
  match param with
  | none => .ok .nil
  | some p =>
    match spParseVar w (cstr (if p ≠ [] ∧ p.head? ≠ some 36 then 36 :: p else p)) with
    | some tree => .ok tree
    | none =>
      .error { fmt := "Invalid value '%s' for `param` on line %zu", args := [cstr p, decimal rule.lineno] }

/-- The path of `var`. -/
def parseVar (w : World) (rule : SpParsedKeyword) (var : Option ZendString) :
    Except ConfigError SpTree :=
  match var with
  | none => .ok .nil
  | some v =>
    if v = [] then .error { fmt := "Empty value in `var` on line %zu", args := [decimal rule.lineno] }
    else
      match spParseVar w (cstr v) with
      | some tree => .ok tree
      | none =>
        .error { fmt := "Invalid value '%s' for `var` on line %zu", args := [cstr v, decimal rule.lineno] }

/-- `print` is looked for as `echo`. -/
def renamePrint (function : Option ZendString) : Option ZendString :=
  function.map fun f => if f = zstr "print" then zstr "echo" else f

/-- `parse_disabled_functions`: the rule, or nothing if it is disabled. -/
def parseDisabledFunctions (w : World) (rule : SpParsedKeyword) (keywords : List SpParsedKeyword) :
    Except ConfigError (Option SpDisabledFunction) := do
  let s ← spProcessRule (configKeywords w) keywords {}
  if s.enable && s.disable then
    .error { fmt := "A rule can't be enabled and disabled in %s:%zu"
             args := [rule.filename, decimal rule.lineno] }
  else if s.disable then .ok none
  else do
    mutuallyExclusive rule (exclusions s.df s.param s.var)
    checkRule rule s
    let param ← parseParam w rule s.param
    let var ← parseVar w rule s.var
    .ok (some { s.df with
      allow := s.allow
      textualRepresentation := spGetTextualRepresentation (rule :: keywords)
      functionsList := (s.df.function.map parseFunctionsList).getD []
      param := param
      var := var
      function := renamePrint s.df.function })

/-- **An accepted rule**: what some keywords are parsed to. -/
def Accepted (w : World) (r : SpDisabledFunction) : Prop :=
  ∃ rule keywords, parseDisabledFunctions w rule keywords = .ok (some r)

/-! ### What acceptance says -/

/-- What holds of every accepted rule. -/
structure WellFormed (r : SpDisabledFunction) : Prop where
  function : r.function.isSome = !r.rFunction.isSome
  chain : r.functionsList = (r.function.map parseFunctionsList).getD []
  filename : r.filename.isSome = true → r.rFilename = none
  ret : r.ret.isSome = true → r.rRet = none
  ret_param : isRet r = true → r.param = .nil ∧ r.rParam = none
  ret_var : isRet r = true → r.var = .nil
  ret_value : isRet r = true → r.value = none ∧ r.rValue = none

theorem mutuallyExclusive_ok {rule : SpParsedKeyword} :
    ∀ {l : List (Bool × Bool × ZendString × ZendString)}, mutuallyExclusive rule l = .ok () →
      ∀ e ∈ l, (e.1 && e.2.1) = false
  | [], _, _, he => by cases he
  | (x, y, s, t) :: l, h, e, he => by
    rw [mutuallyExclusive] at h
    split_ifs at h with hxy
    rcases List.mem_cons.mp he with rfl | he
    · exact Bool.eq_false_iff.mpr hxy
    · exact mutuallyExclusive_ok h e he

theorem checkRule_ok {rule : SpParsedKeyword} {s : RuleState} (h : checkRule rule s = .ok ()) :
    (s.df.rFunction.isSome || s.df.function.isSome) = true := by
  unfold checkRule at h
  split_ifs at h with h1
  simpa only [Bool.not_eq_true', Bool.not_eq_false] using h1

@[simp] theorem isSome_renamePrint (f : Option ZendString) : (renamePrint f).isSome = f.isSome := by
  cases f <;> rfl

theorem eq_none_of_isSome {α : Type} {x : Option α} (h : x.isSome = false) : x = none :=
  Option.isNone_iff_eq_none.mp (Option.isSome_eq_false_iff.mp h)

/-- Two flags that exclude each other. -/
theorem eq_none_of_exclusive {α β : Type} {x : Option α} {y : Option β}
    (h : (x.isSome && y.isSome) = false) (hx : x.isSome = true) : y = none := by
  rw [hx, Bool.true_and] at h
  exact eq_none_of_isSome h

theorem parseFunctionsList_renamePrint (f : Option ZendString) :
    ((renamePrint f).map parseFunctionsList).getD [] = (f.map parseFunctionsList).getD [] := by
  cases f with
  | none => rfl
  | some f =>
    by_cases hf : f = zstr "print"
    · subst hf; rfl
    · simp [renamePrint, hf]

/-- What has been passed by a rule that is built. -/
theorem parseDisabledFunctions_ok {w : World} {rule : SpParsedKeyword} {keywords : List SpParsedKeyword}
    {r : SpDisabledFunction} (h : parseDisabledFunctions w rule keywords = .ok (some r)) : ∃ (s : RuleState) (param var : SpTree),
    mutuallyExclusive rule (exclusions s.df s.param s.var) = .ok () ∧ checkRule rule s = .ok () ∧
      parseParam w rule s.param = .ok param ∧ parseVar w rule s.var = .ok var ∧
      r = { s.df with
        allow := s.allow
        textualRepresentation := spGetTextualRepresentation (rule :: keywords)
        functionsList := (s.df.function.map parseFunctionsList).getD []
        param := param
        var := var
        function := renamePrint s.df.function } := by
  unfold parseDisabledFunctions at h
  obtain ⟨s, -, h⟩ := bind_eq_ok.mp h
  split_ifs at h
  · cases h
  obtain ⟨_, hex, h⟩ := bind_eq_ok.mp h
  obtain ⟨_, hch, h⟩ := bind_eq_ok.mp h
  obtain ⟨param, hparam, h⟩ := bind_eq_ok.mp h
  obtain ⟨var, hvar, h⟩ := bind_eq_ok.mp h
  cases h
  exact ⟨s, param, var, hex, hch, hparam, hvar, rfl⟩

/-- **Every accepted rule is well formed.** -/
theorem Accepted.wellFormed {w : World} {r : SpDisabledFunction} (h : Accepted w r) :
    WellFormed r := by
  obtain ⟨rule, keywords, h⟩ := h
  obtain ⟨s, param, var, hex, hch, hparam, hvar, rfl⟩ := parseDisabledFunctions_ok h
  have hx := mutuallyExclusive_ok hex
  have hf := checkRule_ok hch
  simp only [exclusions, List.forall_mem_cons] at hx
  obtain ⟨-, hfun, hfile, hret, -, -, -, -, -, hrp, hrv, hrval, -⟩ := hx
  refine ⟨?_, ?_, fun hs => eq_none_of_exclusive hfile hs, fun hs => eq_none_of_exclusive hret hs,
    fun hr => ?_, fun hr => ?_, fun hr => ?_⟩
  · show (renamePrint s.df.function).isSome = !s.df.rFunction.isSome
    rw [isSome_renamePrint]
    cases h1 : s.df.rFunction.isSome <;> cases h2 : s.df.function.isSome <;> simp [h1, h2] at hf hfun ⊢
  · exact (parseFunctionsList_renamePrint s.df.function).symm
  · rw [show isRet s.df = true from hr, Bool.true_and, Bool.or_eq_false_iff] at hrp
    rw [eq_none_of_isSome hrp.2] at hparam
    cases hparam
    exact ⟨rfl, eq_none_of_isSome hrp.1⟩
  · rw [show isRet s.df = true from hr, Bool.true_and] at hrv
    rw [eq_none_of_isSome hrv] at hvar
    cases hvar
    rfl
  · rw [show isRet s.df = true from hr, Bool.true_and, Bool.or_eq_false_iff] at hrval
    exact ⟨eq_none_of_isSome hrval.1, eq_none_of_isSome hrval.2⟩

end Snuffleupagus.Config.DisabledFunctions
