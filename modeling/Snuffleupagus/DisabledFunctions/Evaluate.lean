import Snuffleupagus.DisabledFunctions.Filter

/-! # The two evaluators

`should_disable` looks at the rules before a call, `should_drop_on_ret` after it. Both are the loop
`ruleLoop`: the first rule that matches and allows ends it, a matching rule that drops ends the
request, and one in simulation only logs and lets the loop go on.

`ruleDecision` is what a single rule contributes, and `out_ruleLoop` says that the loop decides as the
first rule with a decision. The digest of the file, which the loop carries along, makes no difference
(`out_hashMatching`). -/

namespace Snuffleupagus.DisabledFunctions.Evaluate

open Snuffleupagus.Lib.Effect Snuffleupagus.Php.Bytes Snuffleupagus.Php.Value Snuffleupagus.Php.Engine
open Snuffleupagus.Config.Rule Snuffleupagus.Log
open Snuffleupagus.Match.Value Snuffleupagus.DisabledFunctions.Filter

variable (w : World) (g : SpGlobals)

/-! ### Logging -/

/-- `char_repr`: the value url-encoded and cut to `log_max_len`. -/
def charRepr (value : ZendString) : ZendString := (rawUrlEncode value).take g.logMaxLen

/-- `sp_log_disable`. -/
def spLogDisable (path : ZendString) (m : Matched) (r : SpDisabledFunction) : Sp Unit := do
  spLogRequest r.dump r.textualRepresentation
  match m.argName, r.alias with
  | some argName, some ali =>
    spLogAuto w g "disabled_function" r.simulation
      "Aborted execution on call of the function '%s', because its argument '%s' content (%s) matched the rule '%s'"
      [path, cstr argName, (m.argValue.map (charRepr g)).getD (zstr "?"), cstr ali]
  | some argName, none =>
    spLogAuto w g "disabled_function" r.simulation
      "Aborted execution on call of the function '%s', because its argument '%s' content (%s) matched a rule"
      [path, cstr argName, (m.argValue.map (charRepr g)).getD (zstr "?")]
  | none, some ali =>
    spLogAuto w g "disabled_function" r.simulation
      "Aborted execution on call of the function '%s', because of the the rule '%s'" [path, cstr ali]
  | none, none =>
    spLogAuto w g "disabled_function" r.simulation
      "Aborted execution on call of the function '%s'" [path]

/-- `sp_log_disable_ret`. -/
def spLogDisableRet (path : ZendString) (retValue : Option ZendString) (r : SpDisabledFunction) :
    Sp Unit := do
  spLogRequest r.dump r.textualRepresentation
  match r.alias with
  | some ali =>
    spLogAuto w g "disabled_function" r.simulation
      "Aborted execution on return of the function '%s', because the function returned '%s', which matched the rule '%s'"
      [path, (retValue.map (charRepr g)).getD (zstr "?"), cstr ali]
  | none =>
    spLogAuto w g "disabled_function" r.simulation
      "Aborted execution on return of the function '%s', because the function returned '%s', which matched a rule"
      [path, (retValue.map (charRepr g)).getD (zstr "?")]

/-! ### The loop -/

/-- The loop of both evaluators: `matching` tests a rule, given the digest computed so far, and `log`
reports a match. -/
def ruleLoop {μ : Type} (matching : ZendString → SpDisabledFunction → Sp (ZendString × Option μ))
    (log : SpDisabledFunction → μ → Sp Unit) : ZendString → List SpDisabledFunction → Sp Unit
  | _, [] => pure ()
  | currentFileHash, r :: config => do
    match ← matching currentFileHash r with
    | (currentFileHash, none) => ruleLoop matching log currentFileHash config
    | (currentFileHash, some m) =>
      if r.allow then pure ()
      else do
        log r m
        ruleLoop matching log currentFileHash config

/-- The tests of a rule: some before that of the digest, some after it. -/
def ruleMatching {μ : Type} (before : Sp Bool) (after : Sp (Option μ))
    (currentFilename currentFileHash : ZendString) (r : SpDisabledFunction) :
    Sp (ZendString × Option μ) := do
  if ← before then do
    let (currentFileHash, ok) ← hashMatching w g currentFilename currentFileHash r
    if ok then do
      let m ← after
      pure (currentFileHash, m)
    else pure (currentFileHash, none)
  else pure (currentFileHash, none)

/-- One rule in `should_disable`. -/
def callMatching (c : Call) (completeFunctionPath currentFilename currentFileHash : ZendString)
    (r : SpDisabledFunction) : Sp (ZendString × Option Matched) :=
  ruleMatching w g
    (allSeq [functionMatching w g c.executeData completeFunctionPath r,
      pure (lineMatching c.executeData r), fileMatching w g c.executeData r currentFilename,
      cidrMatching w g r, varMatching w g c.executeData r])
    (paramMatching w g c r) currentFilename currentFileHash r

/-- The name a drop is reported under: that of the rule for a chain. -/
def loggedPath (completeFunctionPath : ZendString) (r : SpDisabledFunction) : ZendString :=
  if r.functionsList ≠ [] then cstr (r.function.getD []) else completeFunctionPath

/-- `should_disable`. -/
def shouldDisable (c : Call) (completeFunctionPath currentFilename : ZendString)
    (config : List SpDisabledFunction) : Sp Unit :=
  ruleLoop (callMatching w g c completeFunctionPath currentFilename)
    (fun r m => spLogDisable w g (loggedPath completeFunctionPath r) m r) [] config

/-- A return: the stack from `execute_data` on, the stack from `EG(current_execute_data)` on, and the
value returned. -/
structure Return where
  executeData : Stack
  current : Stack
  returnValue : Option Zval

/-- `filename` or `filename_r`, at the time of the return. -/
def retFileMatching (r : SpDisabledFunction) (currentFilename : ZendString) : Sp Bool :=
  match r.filename, r.rFilename with
  | some f, _ => pure (currentFilename == cstr f)
  | none, some rx => spIsRegexpMatching w g rx currentFilename
  | none, none => pure true

/-- `match_type`. -/
def matchType (ret : Return) (r : SpDisabledFunction) : Bool :=
  r.retType ≠ .undef && r.retType == (ret.returnValue.map Zval.type).getD .null

/-- `match_value`. -/
def matchValue (ret : Return) (r : SpDisabledFunction) : Sp Bool :=
  match ret.returnValue with
  | some v =>
    if r.ret.isSome || r.rRet.isSome then spMatchValue w g (spZvalToZendString w v) r.ret r.rRet
    else pure false
  | none => pure false

/-- `match_type` or `match_value`; a match comes with the text of the return value. -/
def retValueMatching (ret : Return) (r : SpDisabledFunction) : Sp (Option (Option ZendString)) := do
  let matchValue ← matchValue w g ret r
  pure (if matchType ret r || matchValue then
    some (ret.returnValue.map (spZvalToZendString w)) else none)

/-- One rule in `should_drop_on_ret`. -/
def retMatching (ret : Return) (completeFunctionPath currentFilename currentFileHash : ZendString)
    (r : SpDisabledFunction) : Sp (ZendString × Option (Option ZendString)) :=
  ruleMatching w g
    (allSeq [functionMatching w g ret.executeData completeFunctionPath r,
      retFileMatching w g r currentFilename])
    (retValueMatching w g ret r) currentFilename currentFileHash r

/-- `should_drop_on_ret`. -/
def shouldDropOnRet (ret : Return) (completeFunctionPath : ZendString)
    (config : List SpDisabledFunction) : Sp Unit :=
  ruleLoop (retMatching w g ret completeFunctionPath (cstr (zendGetExecutedFilename ret.current)))
    (fun r retValue => spLogDisableRet w g completeFunctionPath retValue r) [] config

/-! ### What one rule contributes -/

/-- **The decision of a rule**, given the answer of its filters: an abort of their evaluation, `allow`,
or a drop. A rule that does not match, and a match that is only simulated, decide nothing. -/
def decision {μ : Type} (answer : Except Abort (Option μ)) (r : SpDisabledFunction) :
    Option (Except Abort Unit) :=
  match answer with
  | .error e => some (.error e)
  | .ok none => none
  | .ok (some _) =>
    if r.allow then some (.ok ()) else if r.simulation then none else some (.error .drop)

/-- What becomes of a call or a return: an undecided one is let through. -/
def verdict (d : Option (Except Abort Unit)) : Except Abort Unit := d.getD (.ok ())

section Loop
variable {μ : Type} {matching : ZendString → SpDisabledFunction → Sp (ZendString × Option μ)}
  {log : SpDisabledFunction → μ → Sp Unit} {answer : SpDisabledFunction → Except Abort (Option μ)}
  {I : ZendString → Prop}
  (hI : ∀ h r h' m, I h → (matching h r).out = .ok (h', m) → I h')
  (hans : ∀ h r, I h → (matching h r).out.map Prod.snd = answer r)
  (hlog : ∀ r m, (log r m).out = if r.simulation then .ok () else .error .drop)
include hI hans hlog

/-- **The loop decides as the first rule with a decision.** `I` is what is known of the digest carried
along. -/
theorem out_ruleLoop : ∀ {h : ZendString} {l : List SpDisabledFunction}, I h →
    (ruleLoop matching log h l).out = verdict (l.findSome? fun r => decision (answer r) r)
  | _, [], _ => rfl
  | h, r :: l, hh => by
    rw [ruleLoop, out_bind, List.findSome?_cons, ← hans h r hh]
    cases hm : (matching h r).out with
    | error e => rfl
    | ok p =>
      obtain ⟨h', m⟩ := p
      have ih := out_ruleLoop (l := l) (hI h r h' m hh hm)
      cases m with
      | none => exact ih
      | some m =>
        cases ha : r.allow with
        | true => simp [decision, ha, verdict]
        | false =>
          cases hs : r.simulation with
          | true => simpa [decision, ha, hs, hlog] using ih
          | false => simp [decision, ha, hs, hlog, verdict]

end Loop

/-! ### The digest of the file -/

/-- The buffer holds nothing, or the digest. -/
def HashBuffer (currentFilename h : ZendString) : Prop :=
  h.headD 0 = 0 ∨ w.fileSha256 currentFilename = some h

theorem cstr_eq_nil_of_headD {h : ZendString} (h0 : h.headD 0 = 0) : cstr h = [] := by
  cases h with
  | nil => rfl
  | cons c h => exact List.takeWhile_cons_of_neg (by simpa using h0)

variable {w g} {f h : ZendString} {r : SpDisabledFunction}

/-- What `hash` does with the buffer, spelled out. -/
theorem out_hashMatching_some {hash : ZendString} (hr : r.hash = some hash) :
    (hashMatching w g f h r).out =
      (if h.headD 0 = 0 then (computeHash w g f h).out else .ok h) >>= fun fileHash =>
        .ok (fileHash, (cstr fileHash).take sha256Size == (cstr hash).take sha256Size) := by
  unfold hashMatching
  rw [hr]
  dsimp only
  split_ifs
  · rw [out_bind]; rfl
  · rfl

theorem out_computeHash_none (hf : w.fileSha256 f = none) :
    (computeHash w g f h).out = .ok h ∧ (computeHash w g f []).out = .ok [] ∨
      (computeHash w g f h).out = .error .error ∧ (computeHash w g f []).out = .error .error := by
  unfold computeHash
  rw [hf]
  rcases out_spLogErr w g "hash_computation" "Can not open the file %s to compute its hash" [f] with
    hl | hl
  · exact Or.inl ⟨by simp [hl], by simp [hl]⟩
  · exact Or.inr ⟨by simp [hl], by simp [hl]⟩

/-- **The digest kept makes no difference**, and stays the digest. -/
theorem out_hashMatching (hb : HashBuffer w f h) :
    (hashMatching w g f h r).out.map Prod.snd = (hashMatching w g f [] r).out.map Prod.snd ∧
      ∀ h' b, (hashMatching w g f h r).out = .ok (h', b) → HashBuffer w f h' := by
  cases hr : r.hash with
  | none =>
    unfold hashMatching
    rw [hr]
    refine ⟨rfl, fun h' b hm => ?_⟩
    cases hm
    exact hb
  | some hash =>
    rw [out_hashMatching_some hr, out_hashMatching_some hr, if_pos (show ([] : ZendString).headD 0 = 0 from rfl)]
    cases hf : w.fileSha256 f with
    | some d =>
      have hc : ∀ b, (computeHash w g f b).out = .ok d := fun b => by unfold computeHash; rw [hf]; rfl
      have hd : HashBuffer w f d := Or.inr hf
      rcases hb with h0 | hs
      · rw [if_pos h0, hc, hc]
        refine ⟨rfl, fun h' b hm => ?_⟩
        cases hm
        exact hd
      · rw [hf] at hs
        cases hs
        rw [hc, hc, ite_self]
        refine ⟨rfl, fun h' b hm => ?_⟩
        cases hm
        exact hd
    | none =>
      have h0 : h.headD 0 = 0 := by
        rcases hb with h0 | hs
        · exact h0
        · rw [hf] at hs; cases hs
      rw [if_pos h0]
      rcases out_computeHash_none (g := g) (h := h) hf with ⟨h1, h2⟩ | ⟨h1, h2⟩
      · rw [h1, h2]
        refine ⟨?_, fun h' b hm => ?_⟩
        · show Except.ok ((cstr h).take sha256Size == _) = Except.ok ((cstr []).take sha256Size == _)
          rw [cstr_eq_nil_of_headD h0]
          rfl
        · cases hm
          exact hb
      · rw [h1, h2]
        refine ⟨rfl, fun h' b hm => ?_⟩
        cases hm

section RuleMatching
variable {μ : Type} {before : Sp Bool} {after : Sp (Option μ)}

theorem out_ruleMatching : (ruleMatching w g before after f h r).out =
    before.out >>= fun b =>
      if b then (hashMatching w g f h r).out >>= fun p =>
        if p.2 then after.out.map (p.1, ·) else .ok (p.1, none)
      else .ok (h, none) := by
  unfold ruleMatching
  rw [out_bind]
  congr 1
  funext b
  cases b with
  | false => rfl
  | true =>
    refine (out_bind _ _).trans (congrArg _ (funext fun p => ?_))
    obtain ⟨h', ok⟩ := p
    cases ok with
    | false => rfl
    | true => exact (out_bind _ _).trans (by cases after.out <;> rfl)

/-- A rule matches if its tests before, on, and after the digest all succeed. -/
theorem yields_ruleMatching {h' : ZendString} {m : μ} :
    Yields (ruleMatching w g before after f h r) (h', some m) ↔
      Yields before true ∧ Yields (hashMatching w g f h r) (h', true) ∧ Yields after (some m) := by
  unfold ruleMatching
  rw [yields_bind]
  constructor
  · rintro ⟨b, hb, hx⟩
    cases b with
    | false => cases yields_pure.mp hx
    | true =>
      obtain ⟨⟨k, ok⟩, hk, hx⟩ := yields_bind.mp hx
      cases ok with
      | false => cases yields_pure.mp hx
      | true =>
        obtain ⟨m', hm, hx⟩ := yields_bind.mp hx
        cases yields_pure.mp hx
        exact ⟨hb, hk, hm⟩
  · rintro ⟨hb, hk, hm⟩
    exact ⟨true, hb, yields_bind.mpr ⟨(h', true), hk, yields_bind.mpr ⟨some m, hm, yields_pure.mpr rfl⟩⟩⟩

/-- **The answer of a rule does not depend on the digest kept**, which stays the digest. -/
theorem answer_ruleMatching (hb : HashBuffer w f h) :
    (ruleMatching w g before after f h r).out.map Prod.snd =
        (ruleMatching w g before after f [] r).out.map Prod.snd ∧
      ∀ h' m, (ruleMatching w g before after f h r).out = .ok (h', m) → HashBuffer w f h' := by
  obtain ⟨hans, hbuf⟩ := out_hashMatching (g := g) (r := r) hb
  rw [out_ruleMatching, out_ruleMatching]
  cases before.out with
  | error e => exact ⟨rfl, fun h' m hm => by cases hm⟩
  | ok b =>
    cases b with
    | false =>
      refine ⟨rfl, fun h' m hm => ?_⟩
      cases hm
      exact hb
    | true =>
      rcases map_snd_eq hans with ⟨e, h1, h2⟩ | ⟨h', h'', ok, h1, h2⟩
      · rw [h1, h2]
        exact ⟨rfl, fun h' m hm => by cases hm⟩
      · have hb' := hbuf h' ok h1
        rw [h1, h2]
        cases ok with
        | false =>
          refine ⟨rfl, fun k m hm => ?_⟩
          cases hm
          exact hb'
        | true =>
          cases after.out with
          | error e => exact ⟨rfl, fun k m hm => by cases hm⟩
          | ok m =>
            refine ⟨rfl, fun k m' hm => ?_⟩
            cases hm
            exact hb'

end RuleMatching

/-! ### What becomes of a call and of a return -/

/-- The decision of a rule on a call. -/
def callDecision (w : World) (g : SpGlobals) (c : Call)
    (completeFunctionPath currentFilename : ZendString) (r : SpDisabledFunction) :
    Option (Except Abort Unit) :=
  decision ((callMatching w g c completeFunctionPath currentFilename [] r).out.map Prod.snd) r

/-- The decision of a rule on a return. -/
def retDecision (w : World) (g : SpGlobals) (ret : Return) (completeFunctionPath : ZendString)
    (r : SpDisabledFunction) : Option (Except Abort Unit) :=
  decision ((retMatching w g ret completeFunctionPath
    (cstr (zendGetExecutedFilename ret.current)) [] r).out.map Prod.snd) r

theorem out_spLogDisable (path : ZendString) (m : Matched) (r : SpDisabledFunction) :
    (spLogDisable w g path m r).out = if r.simulation then .ok () else .error .drop := by
  unfold spLogDisable
  cases m.argName <;> cases r.alias <;> simp

theorem out_spLogDisableRet (path : ZendString) (v : Option ZendString) (r : SpDisabledFunction) :
    (spLogDisableRet w g path v r).out = if r.simulation then .ok () else .error .drop := by
  unfold spLogDisableRet
  cases r.alias <;> simp

/-- **`should_disable` decides as the first rule with a decision.** -/
theorem out_shouldDisable (c : Call) (path filename : ZendString)
    (config : List SpDisabledFunction) : (shouldDisable w g c path filename config).out =
      verdict (config.findSome? (callDecision w g c path filename)) := by
  have hans : ∀ h r, HashBuffer w filename h →
      (callMatching w g c path filename h r).out.map Prod.snd =
        (callMatching w g c path filename [] r).out.map Prod.snd :=
    fun h r hb => (answer_ruleMatching hb).1
  have hI : ∀ h r h' m, HashBuffer w filename h →
      (callMatching w g c path filename h r).out = .ok (h', m) → HashBuffer w filename h' :=
    fun h r h' m hb hm => (answer_ruleMatching hb).2 h' m hm
  exact out_ruleLoop hI hans (fun r m => out_spLogDisable _ m r) (Or.inl rfl)

/-- **`should_drop_on_ret` decides as the first rule with a decision.** -/
theorem out_shouldDropOnRet (ret : Return) (path : ZendString)
    (config : List SpDisabledFunction) : (shouldDropOnRet w g ret path config).out =
      verdict (config.findSome? (retDecision w g ret path)) := by
  have hans : ∀ h r, HashBuffer w (cstr (zendGetExecutedFilename ret.current)) h →
      (retMatching w g ret path (cstr (zendGetExecutedFilename ret.current)) h r).out.map Prod.snd =
        (retMatching w g ret path (cstr (zendGetExecutedFilename ret.current)) [] r).out.map Prod.snd :=
    fun h r hb => (answer_ruleMatching hb).1
  have hI : ∀ h r h' m, HashBuffer w (cstr (zendGetExecutedFilename ret.current)) h →
      (retMatching w g ret path (cstr (zendGetExecutedFilename ret.current)) h r).out = .ok (h', m) →
      HashBuffer w (cstr (zendGetExecutedFilename ret.current)) h' :=
    fun h r h' m hb hm => (answer_ruleMatching hb).2 h' m hm
  exact out_ruleLoop hI hans (fun r m => out_spLogDisableRet _ m r) (Or.inl rfl)

end Snuffleupagus.DisabledFunctions.Evaluate
