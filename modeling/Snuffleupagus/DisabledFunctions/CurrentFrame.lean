import Snuffleupagus.DisabledFunctions.Digest
import Snuffleupagus.Match.CurrentFrame

/-! # The current frame while rules are evaluated

The evaluators with `EG(current_execute_data)` as a state. A call is evaluated while its frame is the
current one, and so it stays. When a function of user code has returned, its caller's frame is the current
one, and `should_drop_on_ret` is given the frame of the function: a rule with a chain makes this one the
current frame again, and nothing puts it back (`entry_restored_iff`). -/

namespace Snuffleupagus.DisabledFunctions.CurrentFrame

open Snuffleupagus.Lib.Effect Snuffleupagus.Php.Bytes Snuffleupagus.Php.Value Snuffleupagus.Php.Engine
open Snuffleupagus.Config.Rule Snuffleupagus.Config.Keyword Snuffleupagus.Config.DisabledFunctions
open Snuffleupagus.Log Snuffleupagus.Match.Chain Snuffleupagus.Match.Value Snuffleupagus.Match.VarValue
open Snuffleupagus.Match.CurrentFrame Snuffleupagus.DisabledFunctions.Filter
open Snuffleupagus.DisabledFunctions.Evaluate Snuffleupagus.DisabledFunctions.Digest

section Model
variable (w : World) (g : SpGlobals)

/-- `function`, a chain, or `function_r`. -/
def functionMatchingEg (s : Stack) (completeFunctionPath : ZendString) (r : SpDisabledFunction) : Eg Bool :=
  if r.functionsList ≠ [] then isFunctionsListMatchingEg s r.functionsList
  else StateT.lift (functionMatching w g s completeFunctionPath r)

/-- `line`: the line is that of the current frame. -/
def lineMatchingEg (r : SpDisabledFunction) : Eg Bool := do
  pure (lineMatching (← get) r)

/-- `is_local_var_matching`. -/
def isLocalVarMatchingEg (s : Stack) (r : SpDisabledFunction) : Eg Bool := do
  match ← spGetVarValueEg w g s r.var Bool.false with
  | some v => StateT.lift (inspect w g r v)
  | none => pure false

/-- `var`. -/
def varMatchingEg (s : Stack) (r : SpDisabledFunction) : Eg Bool :=
  if r.var = .nil then pure true else isLocalVarMatchingEg w g s r

/-- The argument selected by `pos`, `param` or `param_r`: a path may have local variables in its indices. -/
def selectArgEg (s : Stack) (frame : Frame) (fn : ZendFunction) (r : SpDisabledFunction) :
    Eg (Matched × Option Zval) :=
  if r.pos > -1 then StateT.lift (selectArg w g s frame fn r)
  else
    match r.param with
    | .node type name idx next => do
      let value ← spGetVarValueEg w g s (.node type name idx next) Bool.true
      pure ({ argName := some name }, value)
    | .nil => StateT.lift (selectArg w g s frame fn r)

/-- `is_param_matching`. -/
def isParamMatchingEg (c : Call) (r : SpDisabledFunction) : Eg (Option Matched) :=
  match c.builtin, c.executeData with
  | none, frame :: s =>
    match frame.func with
    | none => pure none
    | some fn =>
      if frame.numArgs = 0 then pure none
      else if r.pos > (frame.numArgs : ℤ) - 1 ∨ r.pos > fn.numArgs then pure none
      else do
        match ← selectArgEg w g (frame :: s) frame fn r with
        | (_, none) => pure none
        | (m, some v) => StateT.lift (argMatching w g r m v)
  | _, _ => StateT.lift (isParamMatching w g c r)

/-- The filter on a parameter, behind the test for variadic functions. -/
def paramMatchingEg (c : Call) (r : SpDisabledFunction) : Eg (Option Matched) :=
  if filtersParam r then do
    if ← StateT.lift (if c.builtin.isSome then pure false else isVariadic c.executeData) then do
      StateT.lift (spLogWarn w g "disable_function"
        "Snuffleupagus doesn't support variadic functions yet, sorry. Check https://github.com/jvoisin/snuffleupagus/issues/164 for details." [])
      pure (some {})
    else isParamMatchingEg w g c r
  else pure (some {})

/-- Check one condition after the other, up to the first that fails. -/
def allSeqEg : List (Eg Bool) → Eg Bool
  | [] => pure true
  | c :: l => do
    if ← c then allSeqEg l else pure false

/-- The tests of a rule, before and after that of the digest. -/
def ruleMatchingEg {μ : Type} (before : Eg Bool) (after : Eg (Option μ))
    (currentFilename currentFileHash : ZendString) (r : SpDisabledFunction) : Eg (ZendString × Option μ) := do
  if ← before then do
    let (currentFileHash, ok) ← StateT.lift (hashMatching w g currentFilename currentFileHash r)
    if ok then do
      let m ← after
      pure (currentFileHash, m)
    else pure (currentFileHash, none)
  else pure (currentFileHash, none)

/-- The loop of both evaluators. -/
def ruleLoopEg {μ : Type} (matching : ZendString → SpDisabledFunction → Eg (ZendString × Option μ))
    (log : SpDisabledFunction → μ → Sp Unit) : ZendString → List SpDisabledFunction → Eg Unit
  | _, [] => pure ()
  | currentFileHash, r :: config => do
    match ← matching currentFileHash r with
    | (currentFileHash, none) => ruleLoopEg matching log currentFileHash config
    | (currentFileHash, some m) =>
      if r.allow then pure ()
      else do
        StateT.lift (log r m)
        ruleLoopEg matching log currentFileHash config

/-- One rule in `should_disable`. -/
def callMatchingEg (c : Call) (completeFunctionPath currentFilename currentFileHash : ZendString)
    (r : SpDisabledFunction) : Eg (ZendString × Option Matched) :=
  ruleMatchingEg w g
    (allSeqEg [functionMatchingEg w g c.executeData completeFunctionPath r, lineMatchingEg r,
      StateT.lift (fileMatching w g c.executeData r currentFilename), StateT.lift (cidrMatching w g r),
      varMatchingEg w g c.executeData r])
    (paramMatchingEg w g c r) currentFilename currentFileHash r

/-- `should_disable`. -/
def shouldDisableEg (c : Call) (completeFunctionPath currentFilename : ZendString)
    (config : List SpDisabledFunction) : Eg Unit :=
  ruleLoopEg (callMatchingEg w g c completeFunctionPath currentFilename)
    (fun r m => spLogDisable w g (loggedPath completeFunctionPath r) m r) [] config

/-- One rule in `should_drop_on_ret`. -/
def retMatchingEg (ret : Return) (completeFunctionPath currentFilename currentFileHash : ZendString)
    (r : SpDisabledFunction) : Eg (ZendString × Option (Option ZendString)) :=
  ruleMatchingEg w g
    (allSeqEg [functionMatchingEg w g ret.executeData completeFunctionPath r,
      StateT.lift (retFileMatching w g r currentFilename)])
    (StateT.lift (retValueMatching w g ret r)) currentFilename currentFileHash r

/-- `should_drop_on_ret`. -/
def shouldDropOnRetEg (ret : Return) (completeFunctionPath : ZendString)
    (config : List SpDisabledFunction) : Eg Unit := do
  let currentFilename := cstr (zendGetExecutedFilename (← get))
  ruleLoopEg (retMatchingEg w g ret completeFunctionPath currentFilename)
    (fun r retValue => spLogDisableRet w g completeFunctionPath retValue r) [] config

end Model

/-! ### Calls -/

section Call
variable {w : World} {g : SpGlobals} {ed : Stack} {μ : Type}

theorem follows_functionMatchingEg (path : ZendString) (r : SpDisabledFunction) :
    Follows ed (functionMatchingEg w g ed path r) (functionMatching w g ed path r) := by
  unfold functionMatchingEg
  split_ifs with hchain
  · have hval : functionMatching w g ed path r = pure (isFunctionsListMatching ed r.functionsList) := if_pos hchain
    rw [hval]
    exact run_isFunctionsListMatchingEg ed ed _
  · exact Follows.lift _

theorem follows_varMatchingEg (r : SpDisabledFunction) :
    Follows ed (varMatchingEg w g ed r) (varMatching w g ed r) := by
  unfold varMatchingEg varMatching
  split_ifs
  · exact Follows.pure _
  · refine (follows_spGetVarValueEg r.var Bool.false).bind fun v => ?_
    cases v with
    | none => exact Follows.pure _
    | some v => exact Follows.lift _

theorem follows_selectArgEg (frame : Frame) (fn : ZendFunction) (r : SpDisabledFunction) :
    Follows ed (selectArgEg w g ed frame fn r) (selectArg w g ed frame fn r) := by
  unfold selectArgEg
  split_ifs with hpos
  · exact Follows.lift _
  · cases hparam : r.param with
    | nil => exact Follows.lift _
    | node type name idx next =>
      have hval : selectArg w g ed frame fn r = (do
          let value ← spGetVarValue w g ed (.node type name idx next) Bool.true
          pure ({ argName := some name }, value)) := by
        unfold selectArg
        rw [if_neg hpos, hparam]
      rw [hval]
      exact (follows_spGetVarValueEg _ _).bind fun v => Follows.pure _

theorem follows_isParamMatchingEg (c : Call) (r : SpDisabledFunction) :
    Follows c.executeData (isParamMatchingEg w g c r) (isParamMatching w g c r) := by
  obtain ⟨s, b⟩ := c
  unfold isParamMatchingEg isParamMatching
  cases b with
  | some b => exact Follows.lift _
  | none =>
    cases s with
    | nil => exact Follows.lift _
    | cons frame s =>
      dsimp only
      cases frame.func with
      | none => exact Follows.pure _
      | some fn =>
        dsimp only
        split_ifs
        · exact Follows.pure _
        · exact Follows.pure _
        · refine (follows_selectArgEg frame fn r).bind fun p => ?_
          obtain ⟨m, v⟩ := p
          cases v with
          | none => exact Follows.pure _
          | some v => exact Follows.lift _

theorem follows_paramMatchingEg (c : Call) (r : SpDisabledFunction) :
    Follows c.executeData (paramMatchingEg w g c r) (paramMatching w g c r) := by
  unfold paramMatchingEg paramMatching checkedParamMatching
  split_ifs
  · refine (Follows.lift _).bind fun b => ?_
    cases b with
    | true => exact (Follows.lift _).bind fun _ => Follows.pure _
    | false => exact follows_isParamMatchingEg c r
  · refine (Follows.lift _).bind fun b => ?_
    cases b with
    | true => exact (Follows.lift _).bind fun _ => Follows.pure _
    | false => exact follows_isParamMatchingEg c r
  · exact Follows.pure _

theorem follows_allSeqEg : ∀ {l : List (Eg Bool)} {l' : List (Sp Bool)}, List.Forall₂ (Follows ed) l l' →
    Follows ed (allSeqEg l) (allSeq l')
  | _, _, .nil => Follows.pure _
  | _, _, .cons hc hl => by
    refine hc.bind fun b => ?_
    cases b with
    | true => exact follows_allSeqEg hl
    | false => exact Follows.pure _

theorem follows_ruleMatchingEg {before : Eg Bool} {before' : Sp Bool} {after : Eg (Option μ)}
    {after' : Sp (Option μ)} (hbefore : Follows ed before before') (hafter : Follows ed after after')
    (f h : ZendString) (r : SpDisabledFunction) :
    Follows ed (ruleMatchingEg w g before after f h r) (ruleMatching w g before' after' f h r) := by
  refine hbefore.bind fun b => ?_
  cases b with
  | false => exact Follows.pure _
  | true =>
    refine (Follows.lift _).bind fun p => ?_
    obtain ⟨h', ok⟩ := p
    cases ok with
    | false => exact Follows.pure _
    | true => exact hafter.bind fun m => Follows.pure _

theorem follows_ruleLoopEg {matching : ZendString → SpDisabledFunction → Eg (ZendString × Option μ)}
    {matching' : ZendString → SpDisabledFunction → Sp (ZendString × Option μ)}
    {log : SpDisabledFunction → μ → Sp Unit} (hm : ∀ h r, Follows ed (matching h r) (matching' h r)) :
    ∀ (config : List SpDisabledFunction) (h : ZendString),
      Follows ed (ruleLoopEg matching log h config) (ruleLoop matching' log h config)
  | [], h => Follows.pure _
  | r :: config, h => by
    refine (hm h r).bind fun p => ?_
    obtain ⟨h', m⟩ := p
    cases m with
    | none => exact follows_ruleLoopEg hm config h'
    | some m =>
      dsimp only
      split_ifs
      · exact Follows.pure _
      · exact (Follows.lift _).bind fun _ => follows_ruleLoopEg hm config h'

/-- **A call is evaluated as before, and its frame stays the current one.** -/
theorem follows_shouldDisableEg (c : Call) (path f : ZendString) (config : List SpDisabledFunction) :
    Follows c.executeData (shouldDisableEg w g c path f config) (shouldDisable w g c path f config) := by
  refine follows_ruleLoopEg (fun h r => follows_ruleMatchingEg (follows_allSeqEg ?_)
    (follows_paramMatchingEg c r) f h r) config []
  refine .cons (follows_functionMatchingEg path r) (.cons (Follows.pure _) (.cons (Follows.lift _)
    (.cons (Follows.lift _) (.cons (follows_varMatchingEg r) .nil))))

end Call

/-! ### Returns -/

section Return
variable {w : World} {g : SpGlobals} {ed eg : Stack}

/-- The current frame when a rule has been looked at: a chain makes it that of the function. -/
def movedTo (ed : Stack) (r : SpDisabledFunction) (eg : Stack) : Stack :=
  if r.functionsList ≠ [] then ed else eg

theorem run_functionMatchingEg (path : ZendString) (r : SpDisabledFunction) :
    (functionMatchingEg w g ed path r).run eg =
      (fun b => (b, movedTo ed r eg)) <$> functionMatching w g ed path r := by
  unfold functionMatchingEg functionMatching movedTo
  split_ifs with hchain
  · rw [run_isFunctionsListMatchingEg]
    rfl
  · rw [StateT.run_lift, bind_pure_comp]

/-- Behind a first step that moves the current frame it stays. -/
theorem run_bind_follows {α β : Type} {eg₁ : Stack} {x : Eg α} {y : Sp α} {f : α → Eg β} {k : α → Sp β}
    (hx : x.run eg = (fun a => (a, eg₁)) <$> y) (hf : ∀ a, Follows eg₁ (f a) (k a)) :
    (x >>= f).run eg = (fun b => (b, eg₁)) <$> (y >>= k) := by
  rw [StateT.run_bind, hx, bind_map_left, map_bind]
  exact bind_congr hf

/-- **One rule**: the current frame moves with its chain, whether it matches or not. -/
theorem run_retMatchingEg (ret : Return) (path f h : ZendString) (r : SpDisabledFunction) :
    (retMatchingEg w g ret path f h r).run eg =
      (fun a => (a, movedTo ret.executeData r eg)) <$> retMatching w g ret path f h r := by
  have hbefore : (allSeqEg [functionMatchingEg w g ret.executeData path r,
      StateT.lift (retFileMatching w g r f)]).run eg =
        (fun b => (b, movedTo ret.executeData r eg)) <$>
          allSeq [functionMatching w g ret.executeData path r, retFileMatching w g r f] := by
    refine run_bind_follows (run_functionMatchingEg path r) fun b => ?_
    cases b with
    | true => exact follows_allSeqEg (.cons (Follows.lift _) .nil)
    | false => exact Follows.pure _
  refine run_bind_follows hbefore fun b => ?_
  cases b with
  | false => exact Follows.pure _
  | true =>
    refine (Follows.lift _).bind fun p => ?_
    obtain ⟨h', ok⟩ := p
    cases ok with
    | false => exact Follows.pure _
    | true => exact (Follows.lift _).bind fun m => Follows.pure _

section Loop
variable {μ : Type} {matching : ZendString → SpDisabledFunction → Eg (ZendString × Option μ)}
  {matching' : ZendString → SpDisabledFunction → Sp (ZendString × Option μ)}
  {log : SpDisabledFunction → μ → Sp Unit}

variable (matching' log) in
/-- A rule with a chain has its turn. -/
def ChainTurn (h : ZendString) (config : List SpDisabledFunction) : Prop :=
  ∃ h' r, Turn matching' log h config h' r ∧ r.functionsList ≠ []

theorem chainTurn_iff {h h₁ : ZendString} {r : SpDisabledFunction} {config : List SpDisabledFunction}
    (ht : ∀ h' r', Turn matching' log h (r :: config) h' r' ↔
      (h' = h ∧ r' = r) ∨ Turn matching' log h₁ config h' r') :
    ChainTurn matching' log h (r :: config) ↔ r.functionsList ≠ [] ∨ ChainTurn matching' log h₁ config := by
  unfold ChainTurn
  simp only [ht]
  constructor
  · rintro ⟨h', r', ⟨rfl, rfl⟩ | ht, hne⟩
    · exact Or.inl hne
    · exact Or.inr ⟨h', r', ht, hne⟩
  · rintro (hne | ⟨h', r', ht, hne⟩)
    · exact ⟨h, r, Or.inl ⟨rfl, rfl⟩, hne⟩
    · exact ⟨h', r', Or.inr ht, hne⟩

variable (hm : ∀ h r eg, (matching h r).run eg = (fun a => (a, movedTo ed r eg)) <$> matching' h r)
include hm

/-- The loop gives what it gives without a current frame. -/
theorem map_fst_ruleLoopEg : ∀ (config : List SpDisabledFunction) (h : ZendString) (eg : Stack),
    Prod.fst <$> (ruleLoopEg matching log h config).run eg = ruleLoop matching' log h config
  | [], h, eg => rfl
  | r :: config, h, eg => by
    rw [ruleLoopEg, ruleLoop, StateT.run_bind, hm, bind_map_left, map_bind]
    refine bind_congr fun p => ?_
    obtain ⟨h', m⟩ := p
    cases m with
    | none => exact map_fst_ruleLoopEg config h' _
    | some m =>
      dsimp only
      split_ifs
      · rfl
      · rw [StateT.run_bind, StateT.run_lift, bind_assoc, map_bind]
        refine bind_congr fun u => ?_
        rw [pure_bind]
        exact map_fst_ruleLoopEg config h' _

/-- **Where the current frame is in the end**: where it has been if no rule with a chain has had its turn, and
else at the frame the chains have been tested for. -/
theorem yields_ruleLoopEg {config : List SpDisabledFunction} {h : ZendString} {eg eg' : Stack}
    (hy : Yields ((ruleLoopEg matching log h config).run eg) ((), eg')) :
    (ChainTurn matching' log h config → eg' = ed) ∧ (¬ ChainTurn matching' log h config → eg' = eg) := by
  induction config generalizing h eg with
  | nil =>
    cases yields_pure.mp hy
    refine ⟨?_, fun _ => rfl⟩
    rintro ⟨h', r, ht, -⟩
    cases ht
  | cons r config ih =>
    rw [ruleLoopEg, StateT.run_bind, hm, bind_map_left] at hy
    obtain ⟨⟨h₁, m⟩, hp, hy⟩ := yields_bind.mp hy
    -- the rest of the list, behind the frame this rule has moved to
    have hrest : (∀ h' r', Turn matching' log h (r :: config) h' r' ↔
        (h' = h ∧ r' = r) ∨ Turn matching' log h₁ config h' r') →
        Yields ((ruleLoopEg matching log h₁ config).run (movedTo ed r eg)) ((), eg') →
        (ChainTurn matching' log h (r :: config) → eg' = ed) ∧
          (¬ ChainTurn matching' log h (r :: config) → eg' = eg) := by
      intro ht hy
      obtain ⟨hchain, hnone⟩ := ih hy
      rw [chainTurn_iff ht]
      unfold movedTo at hnone
      by_cases hlater : ChainTurn matching' log h₁ config
      · exact ⟨fun _ => hchain hlater, fun hno => absurd (Or.inr hlater) hno⟩
      · by_cases hr : r.functionsList = []
        · rw [if_neg (not_not.mpr hr)] at hnone
          exact ⟨fun hor => absurd (hor.resolve_left (not_not.mpr hr)) hlater, fun _ => hnone hlater⟩
        · rw [if_pos hr] at hnone
          exact ⟨fun _ => hnone hlater, fun hno => absurd (Or.inl hr) hno⟩
    cases m with
    | none => exact hrest (fun h' r' => turn_skip_iff hp) hy
    | some m =>
      dsimp only at hy
      by_cases hallow : r.allow = true
      · rw [if_pos hallow] at hy
        cases yields_pure.mp hy
        have hturn : ChainTurn matching' log h (r :: config) ↔ r.functionsList ≠ [] := by
          unfold ChainTurn
          simp only [turn_allow_iff hp hallow]
          exact ⟨fun ⟨_, _, ⟨_, hr⟩, hne⟩ => hr ▸ hne, fun hne => ⟨h, r, ⟨rfl, rfl⟩, hne⟩⟩
        rw [hturn]
        exact ⟨fun hne => if_pos hne, fun hno => if_neg hno⟩
      · rw [if_neg hallow, StateT.run_bind, StateT.run_lift, bind_assoc] at hy
        obtain ⟨u, hlog, hy⟩ := yields_bind.mp hy
        rw [pure_bind] at hy
        exact hrest (fun h' r' => turn_logged_iff hp (by simpa using hallow) hlog) hy

end Loop

end Return

/-! ### What is put back -/

/-- **What is entered**: the evaluation of a path or of a call, while its frame is the current one, or the
evaluation of a return. -/
inductive Entry
  | value (ed : Stack) (tree : SpTree) (isParam : Bool)
  | call (c : Call) (completeFunctionPath currentFilename : ZendString) (config : List SpDisabledFunction)
  | ofReturn (ret : Return) (completeFunctionPath : ZendString) (config : List SpDisabledFunction)

namespace Entry

/-- The current frame on entry. -/
def current : Entry → Stack
  | value ed _ _ => ed
  | call c _ _ _ => c.executeData
  | ofReturn ret _ _ => ret.current

variable (w : World) (g : SpGlobals)

/-- The current frame in the end, if the function returns. -/
def afterwards : Entry → Sp Stack
  | value ed tree isParam => Prod.snd <$> (spGetVarValueEg w g ed tree isParam).run ed
  | call c path f config => Prod.snd <$> (shouldDisableEg w g c path f config).run c.executeData
  | ofReturn ret path config => Prod.snd <$> (shouldDropOnRetEg w g ret path config).run ret.current

/-- **What should be put back**: the current frame is the same as on entry, whenever the function returns. -/
def Restored (e : Entry) : Prop := ∀ eg, Yields (e.afterwards w g) eg → eg = e.current

/-- A return moves the current frame only if this is not that of the function, and if a rule with a chain has
its turn. -/
def Steady : Entry → Prop
  | ofReturn ret path config => Yields (shouldDropOnRet w g ret path config) () →
      ret.current = ret.executeData ∨
        ¬ ChainTurn (retMatching w g ret path (cstr (zendGetExecutedFilename ret.current)))
          (fun r v => spLogDisableRet w g path v r) [] config
  | _ => True

end Entry

section Restored
variable {w : World} {g : SpGlobals}

theorem snd_of_follows {α : Type} {ed eg : Stack} {x : Eg α} {y : Sp α} (h : Follows ed x y)
    (hy : Yields (Prod.snd <$> x.run ed) eg) : eg = ed := by
  unfold Follows at h
  rw [h, ← comp_map] at hy
  obtain ⟨a, -, ha⟩ := yields_map.mp hy
  exact ha.symm

/-- **The current frame is put back** after every path and every call, and after a return exactly unless it is
not that of the function and a rule with a chain has had its turn. -/
theorem entry_restored_iff (e : Entry) : e.Restored w g ↔ e.Steady w g := by
  cases e with
  | value ed tree isParam =>
    exact iff_of_true (fun eg hy => snd_of_follows (follows_spGetVarValueEg tree isParam) hy) trivial
  | call c path f config =>
    exact iff_of_true (fun eg hy => snd_of_follows (follows_shouldDisableEg c path f config) hy) trivial
  | ofReturn ret path config =>
    have hrun : (shouldDropOnRetEg w g ret path config).run ret.current =
        (ruleLoopEg (retMatchingEg w g ret path (cstr (zendGetExecutedFilename ret.current)))
          (fun r v => spLogDisableRet w g path v r) [] config).run ret.current := by
      unfold shouldDropOnRetEg
      rw [StateT.run_bind, StateT.run_get, pure_bind]
    unfold Entry.Restored Entry.Steady Entry.afterwards Entry.current
    dsimp only
    rw [hrun]
    constructor
    · intro hall hret
      unfold shouldDropOnRet at hret
      rw [← map_fst_ruleLoopEg (fun h r eg => run_retMatchingEg ret path _ h r) config [] ret.current] at hret
      obtain ⟨⟨u, eg⟩, hy, -⟩ := yields_map.mp hret
      have heq : eg = ret.current := hall eg (yields_map.mpr ⟨(u, eg), hy, rfl⟩)
      by_cases hchain : ChainTurn (retMatching w g ret path (cstr (zendGetExecutedFilename ret.current)))
          (fun r v => spLogDisableRet w g path v r) [] config
      · have hmoved := (yields_ruleLoopEg (fun h r eg => run_retMatchingEg ret path _ h r) hy).1 hchain
        exact Or.inl (heq.symm.trans hmoved)
      · exact Or.inr hchain
    · intro hsteady eg hy
      obtain ⟨⟨u, eg'⟩, hend, rfl⟩ := yields_map.mp hy
      have hret : Yields (shouldDropOnRet w g ret path config) () := by
        unfold shouldDropOnRet
        rw [← map_fst_ruleLoopEg (fun h r eg => run_retMatchingEg ret path _ h r) config [] ret.current]
        exact yields_map.mpr ⟨(u, eg'), hend, rfl⟩
      obtain ⟨hmoved, hstays⟩ := yields_ruleLoopEg (fun h r eg => run_retMatchingEg ret path _ h r) hend
      by_cases hchain : ChainTurn (retMatching w g ret path (cstr (zendGetExecutedFilename ret.current)))
          (fun r v => spLogDisableRet w g path v r) [] config
      · exact (hmoved hchain).trans ((hsteady hret).resolve_right (not_not.mpr hchain)).symm
      · exact hstays hchain

end Restored

/-- `sp.disable_function.function("main>f").ret("x").drop();` -/
def sampleKeywords : List SpParsedKeyword :=
  [{ kw := zstr "function", arg := some (zstr "main>f"), argtype := .str },
    { kw := zstr "ret", arg := some (zstr "x"), argtype := .str }, { kw := zstr "drop", argtype := .empty }]

/-- The rule it gives. -/
def sampleRule : SpDisabledFunction where
  textualRepresentation := spGetTextualRepresentation ({ kw := zstr "disable_function" } :: sampleKeywords)
  function := some (zstr "main>f")
  functionsList := parseFunctionsList (zstr "main>f")
  ret := some (zstr "x")

/-- A frame of user code. -/
def sampleFrame (name : String) : Frame where
  func := some { type := .user, functionName := some (zstr name) }

/-- The return of `f` to `main`, with `y`. -/
def sampleReturn : Return :=
  ⟨[sampleFrame "f", sampleFrame "main"], [sampleFrame "main"], some (.string (zstr "y"))⟩

/-- When the rule has been tested, the frame of `f`, which is released, is the current one. -/
theorem not_restored : Accepted (World.empty 80000) sampleRule ∧
    ¬ (Entry.ofReturn sampleReturn (zstr "f") [sampleRule]).Restored (World.empty 80000) {} := by
  refine ⟨⟨{ kw := zstr "disable_function" }, sampleKeywords, rfl⟩, fun h => ?_⟩
  have heq : [sampleFrame "f", sampleFrame "main"] = [sampleFrame "main"] := h _ rfl
  exact absurd (congrArg List.length heq) (by decide)

end Snuffleupagus.DisabledFunctions.CurrentFrame
