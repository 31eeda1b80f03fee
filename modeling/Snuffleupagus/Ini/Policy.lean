import Snuffleupagus.Ini.Check

/-! # The policy on directives

A change of a directive violates the configuration in one of four ways (`violationOf`), and without a violation
it is accepted in silence (`accepted_of_no_violation`). What becomes of a violation depends on the modes:
simulated, it is let through and reported; dropped, it ends the request; otherwise it is refused, and reported
unless a flag says not to (`Honoured`).

`policy_silent_ro` is looked at in front of the call that reports a violation of the access policy, and this
call is what drops a request. So the flag silences the drop and the report of a simulation as well
(`honoured_iff`). -/

namespace Snuffleupagus.Ini.Policy

open Snuffleupagus.Lib.Effect Snuffleupagus.Lib.Table Snuffleupagus.Php.Bytes Snuffleupagus.Php.Engine
open Snuffleupagus.Config.Rule Snuffleupagus.Log Snuffleupagus.Match.Value
open Snuffleupagus.Ini.Hook Snuffleupagus.Ini.Check

/-- What a change violates: the access policy, the rule against empty values, the range, the expression. -/
inductive Violation
  | readonly | null | range | regexp
  deriving DecidableEq

section Modes
variable (w : World) (g : SpGlobals)

/-- What a change to a value violates. -/
def violationOf (entry : Option SpIniEntry) (newValue : Option ZendString) : Option Violation :=
  match entry with
  | none => if g.ini.policyReadonly then some .readonly else none
  | some entry =>
    if iniAccessReadonly g.ini entry then some .readonly
    else
      match newValue.getD [] with
      | [] => if !entry.allowNull && iniHasChecks entry then some .null else none
      | value =>
        if outOfRange w entry value then some .range
        else if entry.regexp.any fun rx => decide (w.pcreExec rx.pattern value < 0) then some .regexp
        else none

/-- A report of a violation is written, whatever the medium makes of it. -/
def Reported (type : LogType) (x : Sp Bool) : Prop :=
  ∃ level fmt args, (spLogMsgf w g "ini_protection" level type fmt args).log <:+ x.log

/-- A flag says that the refusal need not be reported. -/
def Silenced (v : Violation) : Prop :=
  g.ini.policySilentFail = true ∨ (g.ini.policySilentRo = true ∧ v = .readonly)

/-- **The modes are honoured**: a simulated violation is let through and reported, one that drops ends the
request, any other is refused, and reported unless it is silenced. -/
def Honoured (entry : Option SpIniEntry) (v : Violation) (x : Sp Bool) : Prop :=
  if simulates g entry then Yields x true ∧ Reported w g .simulation x
  else if drops g entry then ∃ reason, x.out = .error reason
  else Yields x false ∧ (Reported w g .log x ∨ Silenced g v)

/-- The check returns without a word. -/
def Unreported (name : ZendString) (v : Violation) : Prop :=
  name = [] ∨ (g.ini.policySilentRo = true ∧ v = .readonly)

end Modes

section Outcomes
variable {w : World} {g : SpGlobals} {entry : Option SpIniEntry} {v : Violation} {x : Sp Bool}

/-- A message is written in any case. -/
theorem log_spLogMsgf_ne_nil (feature : String) (level : Level) (type : LogType) (fmt : String)
    (args : List ZendString) : (spLogMsgf w g feature level type fmt args).log ≠ [] := by
  have hemit : ∀ (e : Event) (k : Unit → Sp Unit), (emit e >>= k).log ≠ [] := by
    intro e k
    rw [log_bind_ok (a := ()) rfl]
    simp
  unfold spLogMsgf
  dsimp only
  cases g.logMedia.type with
  | zend => exact hemit _ _
  | syslog => exact hemit _ _
  | file =>
    dsimp only
    by_cases ho : w.logOpens g.logMedia.path = true
    · rw [if_pos ho]
      exact hemit _ _
    · rw [if_neg ho]
      exact hemit _ _

theorem not_reported_pure {type : LogType} {b : Bool} : ¬Reported w g type (pure b) := by
  rintro ⟨level, fmt, args, h⟩
  exact log_spLogMsgf_ne_nil _ _ _ _ _ (List.suffix_nil.mp h)

/-- What comes first does not matter, if it comes to its end. -/
theorem Reported.bind {type : LogType} {p : Sp Unit} (hp : Yields p ()) (h : Reported w g type x) :
    Reported w g type (p >>= fun _ => x) := by
  obtain ⟨level, fmt, args, h⟩ := h
  refine ⟨level, fmt, args, h.trans ?_⟩
  rw [log_bind_ok hp]
  exact List.suffix_append _ _

/-- **A violation that is reported is treated by the modes.** -/
theorem honoured_report (entry : Option SpIniEntry) (v : Violation) (fmt : String) (args : List ZendString) :
    Honoured w g entry v (do spLogIniCheckViolation w g entry fmt args; pure (simulates g entry)) := by
  unfold Honoured spLogIniCheckViolation
  dsimp only
  by_cases hs : simulates g entry = true
  · have hout : (spLogMsgf w g "ini_protection" .warning .simulation fmt args).out = .ok () :=
      out_spLogMsgf_of_ne w g (by decide) (by decide)
    simp only [hs, if_true, Bool.true_or]
    refine ⟨yields_bind.mpr ⟨(), hout, yields_pure.mpr rfl⟩, .warning, fmt, args, ?_⟩
    rw [log_bind_ok hout]
    simp
  · rw [Bool.not_eq_true] at hs
    by_cases hd : drops g entry = true
    · simp only [hs, hd, if_true, Bool.false_or, Bool.true_or, Bool.not_true, Bool.false_eq_true, if_false]
      refine ⟨.drop, ?_⟩
      rw [out_bind, out_spLogMsgf_drop w g]
      rfl
    · rw [Bool.not_eq_true] at hd
      simp only [hs, hd, Bool.false_or, Bool.not_false, Bool.false_eq_true, if_false, if_true]
      by_cases hq : g.ini.policySilentFail = true
      · rw [hq]
        exact ⟨yields_pure.mpr rfl, Or.inr (Or.inl hq)⟩
      · have hout : (spLogMsgf w g "ini_protection" .warning .log fmt args).out = .ok () :=
          out_spLogMsgf_of_ne w g (by decide) (by decide)
        rw [Bool.not_eq_true] at hq
        simp only [hq, Bool.not_false, if_true]
        refine ⟨yields_bind.mpr ⟨(), hout, yields_pure.mpr rfl⟩, Or.inl ⟨.warning, fmt, args, ?_⟩⟩
        rw [log_bind_ok hout]
        simp

end Outcomes

/-! ### The check -/

section Check
variable {w : World} {g : SpGlobals} {name : ZendString} {newValue : Option ZendString} {v : Violation}

/-- Everything is read-only, and a violation drops the request. -/
def readonlyDrop (silentRo : Bool) : SpGlobals :=
  { ini := { policyReadonly := true, policySilentRo := silentRo, policyDrop := true } }

/-- **Without a violation a change is accepted in silence.** -/
theorem accepted_of_no_violation (hname : name ≠ [])
    (hv : violationOf w g (g.ini.entries.find? name) newValue = none) :
    spIniCheck w g name newValue = pure true := by
  unfold spIniCheck
  rw [if_neg hname]
  cases hf : g.ini.entries.find? name with
  | none =>
    rw [hf] at hv
    unfold violationOf at hv
    split_ifs at hv with hro
    unfold checkDefault
    rw [if_neg hro]
  | some e =>
    rw [hf] at hv
    unfold violationOf at hv
    dsimp only at hv ⊢
    have hro : ¬iniAccessReadonly g.ini e = true := by
      intro hro
      rw [if_pos hro] at hv
      cases hv
    rw [if_neg hro] at hv
    unfold checkEntry
    rw [if_neg hro]
    cases hvalue : newValue.getD [] with
    | nil =>
      rw [hvalue] at hv
      dsimp only at hv ⊢
      split_ifs at hv with hnull
      unfold checkNull
      by_cases ha : e.allowNull = true
      · rw [if_pos ha]
      · have hc : ¬iniHasChecks e = true := fun hc => hnull (by simp [ha, hc])
        rw [if_neg ha, if_neg hc]
    | cons c s =>
      rw [hvalue] at hv
      dsimp only at hv ⊢
      split_ifs at hv with hrange hregexp
      unfold checkValue checkRegexp
      rw [if_neg hrange]
      cases hrx : e.regexp with
      | none => rfl
      | some rx =>
        rw [hrx, Option.any_some, decide_eq_true_eq] at hregexp
        unfold spIsRegexpMatchingLen
        dsimp only
        rw [if_neg hregexp, pure_bind]
        rfl

/-! ### Directives that are not hooked -/

/-- The configuration with the entries as hooking leaves them. -/
def hooked (g : SpGlobals) (t : IniTables) : SpGlobals := { g with ini := { g.ini with entries := t.entries } }

/-- A violation that is let through without a word: of the access policy, if it is simulated and silent. -/
theorem checkDefault_eq_pure_true : checkDefault w g name = pure true ↔
    g.ini.policyReadonly = false ∨ (g.ini.policySilentRo = true ∧ g.ini.simulation = true) := by
  have hsim : simulates g none = g.ini.simulation := by simp [simulates]
  unfold checkDefault
  by_cases hro : g.ini.policyReadonly = true
  · rw [if_pos hro]
    by_cases hsilent : g.ini.policySilentRo = true
    · rw [if_pos hsilent]
      show pure (simulates g none) = pure true ↔ _
      rw [hsim]
      cases g.ini.simulation with
      | false => exact iff_of_false (fun h => by cases congrArg Run.out h) (by simp [hro])
      | true => exact iff_of_true rfl (Or.inr ⟨hsilent, rfl⟩)
    · rw [if_neg hsilent]
      refine iff_of_false (fun h => ?_) (by simp [hro, hsilent])
      -- what is reported is not silent, and what is refused is not let through
      have hon := honoured_report (w := w) (g := g) none .readonly "INI setting `%s` is read-only"
        [if checkSafeKey name then cstr name else zstr "<invalid>"]
      rw [h] at hon
      unfold Honoured at hon
      split_ifs at hon with hs hd
      · exact not_reported_pure hon.2
      · obtain ⟨reason, hr⟩ := hon
        cases hr
      · cases yields_pure.mp hon.1
  · rw [if_neg hro]
    exact iff_of_true rfl (Or.inl (by simpa using hro))

/-- An entry with nothing to check has no violations. -/
theorem no_violation_of_unchecked {e : SpIniEntry} (h : iniChecked g.ini e = false) :
    violationOf w g (some e) newValue = none := by
  unfold iniChecked iniHasChecks at h
  simp only [Bool.or_eq_false_iff, Option.isSome_eq_false_iff, Option.isNone_iff_eq_none] at h
  obtain ⟨⟨⟨hmin, hmax⟩, hrx⟩, hro⟩ := h
  unfold violationOf outOfRange iniHasChecks
  dsimp only
  rw [hro, hmin, hmax, hrx]
  cases newValue.getD [] <;> simp

section Elision
variable {accepts : IniHandler → ZendString → ZendString → Bool} {d : IniDirectives} {t : IniTables}

/-- A directive that is not hooked is not listed, or its entry has nothing to check. -/
theorem entry_of_unhooked (hk : Keyed g.ini.entries.entries) (hy : Yields (spHookIni w g accepts g.ini d) t)
    (hd : (onModifyOf t.directives name).isSome = true)
    (hu : onModifyOf t.directives name ≠ some (some .spIniOnmodify)) :
    t.entries.find? name = g.ini.entries.find? name ∧
      ∀ e, g.ini.entries.find? name = some e → iniChecked g.ini e = false := by
  rw [onModifyOf_spHookIni hk hy] at hd hu
  have hnot : ¬(g.ini.entries.find? name).any (hooks g.ini d) = true := fun h => hu (if_pos h)
  rw [if_neg hnot] at hd
  have hfind := find?_entries_spHookIni hk hy name
  cases hf : g.ini.entries.find? name with
  | none =>
    rw [hf] at hfind
    exact ⟨hfind, fun _ h => nomatch h⟩
  | some e =>
    rw [hf] at hfind hnot
    rw [Option.any_some] at hnot
    refine ⟨by rw [hfind, Option.map_some, if_neg hnot], fun e' he' => ?_⟩
    cases he'
    -- the directive is there
    have hkey : e.key = name := hk _ (OrdTable.find?_eq_some.mp hf)
    have hthere : (d.find? e.key).isSome = true := by
      unfold onModifyOf at hd
      rw [Option.isSome_map] at hd
      rwa [hkey]
    unfold hooks at hnot
    rw [hthere, Bool.and_true] at hnot
    simpa using hnot

/-- **A directive that is not hooked would be accepted in silence** if it is listed, or if the policy is not
read-only (or both simulated and silent). -/
theorem unhooked_accepted_iff (hk : Keyed g.ini.entries.entries)
    (hy : Yields (spHookIni w g accepts g.ini d) t) (hd : (onModifyOf t.directives name).isSome = true)
    (hu : onModifyOf t.directives name ≠ some (some .spIniOnmodify)) :
    (∀ newValue, spIniCheck w (hooked g t) name newValue = pure true) ↔
      name ≠ [] ∧ ((g.ini.entries.find? name).isSome = true ∨ g.ini.policyReadonly = false ∨
        (g.ini.policySilentRo = true ∧ g.ini.simulation = true)) := by
  obtain ⟨hfind, hunchecked⟩ := entry_of_unhooked hk hy hd hu
  by_cases hname : name = []
  · refine iff_of_false (fun h => ?_) (fun h => h.1 hname)
    have h := congrArg Run.out (h none)
    unfold spIniCheck at h
    rw [if_pos hname] at h
    cases h
  · cases hf : g.ini.entries.find? name with
    | some e =>
      refine iff_of_true (fun newValue => accepted_of_no_violation hname ?_) ⟨hname, Or.inl rfl⟩
      show violationOf w (hooked g t) (t.entries.find? name) newValue = none
      rw [hfind, hf]
      exact no_violation_of_unchecked (g := hooked g t) (hunchecked e hf)
    | none =>
      have hcheck : ∀ newValue, spIniCheck w (hooked g t) name newValue =
          checkDefault w (hooked g t) name := by
        intro newValue
        unfold spIniCheck
        rw [if_neg hname]
        show (match t.entries.find? name with
          | none => checkDefault w (hooked g t) name
          | some entry => checkEntry w (hooked g t) entry newValue) = _
        rw [hfind, hf]
      constructor
      · intro h
        exact ⟨hname, Or.inr (checkDefault_eq_pure_true.mp ((hcheck none).symm.trans (h none)))⟩
      · rintro ⟨-, h⟩ newValue
        rw [hcheck]
        exact checkDefault_eq_pure_true.mpr (h.resolve_left (by simp))

end Elision

/-- One directive, and no entries. -/
def oneDirective : IniDirectives := OrdTable.empty.insert (zstr "display_errors") {}

theorem yields_hook_one (accepts : IniHandler → ZendString → ZendString → Bool) :
    Yields (spHookIni (World.empty 80200) {} accepts ({} : SpGlobals).ini oneDirective)
      ⟨.empty, oneDirective⟩ := rfl

theorem unhooked_accepted_rw :
    (∀ newValue, spIniCheck (World.empty 80200) (hooked {} ⟨.empty, oneDirective⟩) (zstr "display_errors")
        newValue = pure true) ↔
      zstr "display_errors" ≠ [] ∧
        (((({} : SpGlobals).ini.entries.find? (zstr "display_errors")).isSome = true) ∨
          ({} : SpGlobals).ini.policyReadonly = false ∨
          (({} : SpGlobals).ini.policySilentRo = true ∧ ({} : SpGlobals).ini.simulation = true)) :=
  unhooked_accepted_iff (fun _ h => absurd h List.not_mem_nil) (yields_hook_one fun _ _ _ => true) rfl (by decide)

/-- **Under a read-only policy a directive that is not listed is not hooked, but would be refused.** -/
theorem unhooked_refused :
    Yields (spHookIni (World.empty 80200) (readonlyDrop true) (fun _ _ _ => true) (readonlyDrop true).ini
        oneDirective) ⟨.empty, oneDirective⟩ ∧
      onModifyOf oneDirective (zstr "display_errors") = some none ∧
      Yields (spIniCheck (World.empty 80200) (hooked (readonlyDrop true) ⟨.empty, oneDirective⟩)
        (zstr "display_errors") (some (zstr "1"))) false := ⟨rfl, rfl, rfl⟩

end Check

end Snuffleupagus.Ini.Policy
