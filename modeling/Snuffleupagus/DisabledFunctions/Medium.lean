import Snuffleupagus.DisabledFunctions.Dispatch
import Snuffleupagus.Lib.Lockstep

/-! # The medium and the evaluation of rules

Two configurations differ in nothing but the medium of the log. `Media R` says that the log calls under
the two are in the relation `R`, which goes along the structure of computations; then so is everything
that evaluates rules. `R` is equality for media that both return from an error, or both do not, and a
`Cut` otherwise. -/

namespace Snuffleupagus.DisabledFunctions.Medium

open Snuffleupagus.Lib.Effect Snuffleupagus.Lib.Table Snuffleupagus.Lib.Lockstep
open Snuffleupagus.Php.Bytes Snuffleupagus.Php.Value Snuffleupagus.Php.Engine
open Snuffleupagus.Config.Rule Snuffleupagus.Log Snuffleupagus.Match.Value
open Snuffleupagus.Match.Network Snuffleupagus.Match.VarValue
open Snuffleupagus.DisabledFunctions.Filter Snuffleupagus.DisabledFunctions.Evaluate
open Snuffleupagus.DisabledFunctions.Dispatch

/-- The configuration, with another medium. -/
def onMedia (m : SpConfigLog) (g : SpGlobals) : SpGlobals := { g with logMedia := m }

/-- An error that is reported, and is no drop. -/
def isError : Event → Prop
  | .log line => line.level = .error ∧ line.type ≠ .drop
  | _ => False

/-- **Log calls on two media are related.** -/
structure Media (R : ∀ {α : Type}, Sp α → Sp α → Prop) (w : World) (g : SpGlobals) (m₁ m₂ : SpConfigLog) :
    Prop where
  stepwise : Stepwise R fun e => ¬ isError e
  log : ∀ feature level type fmt args, R (spLogMsgf w (onMedia m₁ g) feature level type fmt args)
    (spLogMsgf w (onMedia m₂ g) feature level type fmt args)

section Pass
variable {R : ∀ {α : Type}, Sp α → Sp α → Prop} {w : World} {g : SpGlobals} {m₁ m₂ : SpConfigLog}
  (hm : Media R w g m₁ m₂)
include hm

/-- Only the medium is read, and whether errors are fatal. -/
theorem Media.of_eq {g' : SpGlobals} (h : g'.configNonfatal = g.configNonfatal) : Media R w g' m₁ m₂ where
  stepwise := hm.stepwise
  log feature level type fmt args := by
    have heq : ∀ m, spLogMsgf w (onMedia m g') feature level type fmt args =
        spLogMsgf w (onMedia m g) feature level type fmt args := by
      intro m
      unfold spLogMsgf onMedia
      rw [h]
    rw [heq, heq]
    exact hm.log feature level type fmt args

theorem Media.pure {α : Type} (a : α) : R (pure a) (pure a) := hm.stepwise.pure a

theorem Media.fetch {α : Type} (o : Option α) : R (fetch o) (fetch o) := by
  cases o with
  | some a => exact hm.pure a
  | none => exact hm.stepwise.abort _

theorem Media.bind {α β : Type} {x y : Sp α} {f f' : α → Sp β} (hx : R x y)
    (hf : ∀ a, R (f a) (f' a)) : R (x >>= f) (y >>= f') := hm.stepwise.bind hx hf

theorem Media.err (feature fmt : String) (args : List ZendString) :
    R (spLogErr w (onMedia m₁ g) feature fmt args) (spLogErr w (onMedia m₂ g) feature fmt args) :=
  hm.log feature .error .log fmt args

theorem Media.warn (feature fmt : String) (args : List ZendString) :
    R (spLogWarn w (onMedia m₁ g) feature fmt args) (spLogWarn w (onMedia m₂ g) feature fmt args) :=
  hm.log feature .warning .log fmt args

theorem Media.drop (feature fmt : String) (args : List ZendString) :
    R (spLogDrop w (onMedia m₁ g) feature fmt args) (spLogDrop w (onMedia m₂ g) feature fmt args) :=
  hm.log feature .error .drop fmt args

theorem Media.simulation (feature fmt : String) (args : List ZendString) :
    R (spLogSimulation w (onMedia m₁ g) feature fmt args)
      (spLogSimulation w (onMedia m₂ g) feature fmt args) :=
  hm.log feature .warning .simulation fmt args

theorem Media.auto (feature : String) (sim : Bool) (fmt : String) (args : List ZendString) :
    R (spLogAuto w (onMedia m₁ g) feature sim fmt args)
      (spLogAuto w (onMedia m₂ g) feature sim fmt args) := by
  cases sim with
  | true => exact hm.simulation feature fmt args
  | false => exact hm.drop feature fmt args

theorem Media.request (folder : Option ZendString) (text : ZendString) :
    R (spLogRequest folder text) (spLogRequest folder text) := by
  cases folder with
  | some f => exact hm.stepwise.emit _ id
  | none => exact hm.pure ()

/-! ### Values -/

theorem Media.regexpLen (rx : SpRegexp) (s : ZendString) :
    R (spIsRegexpMatchingLen w (onMedia m₁ g) rx s) (spIsRegexpMatchingLen w (onMedia m₂ g) rx s) := by
  unfold spIsRegexpMatchingLen
  dsimp only
  split_ifs
  · exact hm.bind (hm.err _ _ _) fun _ => hm.pure false
  · exact hm.pure false
  · exact hm.pure true

theorem Media.regexp (rx : SpRegexp) (s : ZendString) :
    R (spIsRegexpMatching w (onMedia m₁ g) rx s) (spIsRegexpMatching w (onMedia m₂ g) rx s) :=
  hm.regexpLen rx (cstr s)

theorem Media.matchValue (value : ZendString) (toMatch : Option ZendString) (rx : Option SpRegexp) :
    R (spMatchValue w (onMedia m₁ g) value toMatch rx) (spMatchValue w (onMedia m₂ g) value toMatch rx) := by
  unfold spMatchValue
  cases toMatch with
  | some s => exact hm.pure _
  | none =>
    cases rx with
    | some rx => exact hm.regexpLen rx value
    | none => exact hm.pure true

theorem Media.matchArrayKey (toMatch : Option ZendString) (rx : Option SpRegexp) : ∀ ht : HashTable,
    R (spMatchArrayKey w (onMedia m₁ g) toMatch rx ht) (spMatchArrayKey w (onMedia m₂ g) toMatch rx ht) := by
  intro ht
  induction ht with
  | nil => exact hm.pure false
  | cons e ht ih =>
    unfold spMatchArrayKey
    refine hm.bind (hm.matchValue _ toMatch rx) fun b => ?_
    cases b with
    | true => exact hm.pure true
    | false => exact ih

mutual

theorem Media.matchArrayValue (toMatch : Option ZendString) (rx : Option SpRegexp) : ∀ ht : HashTable,
    R (spMatchArrayValue w (onMedia m₁ g) toMatch rx ht) (spMatchArrayValue w (onMedia m₂ g) toMatch rx ht)
  | [] => by
    unfold spMatchArrayValue
    exact hm.pure false
  | (_, v) :: ht => by
    unfold spMatchArrayValue
    refine hm.bind (Media.matchElement toMatch rx v) fun b => ?_
    cases b with
    | true => exact hm.pure true
    | false => exact Media.matchArrayValue toMatch rx ht

theorem Media.matchElement (toMatch : Option ZendString) (rx : Option SpRegexp) : ∀ v : Zval,
    R (spMatchElement w (onMedia m₁ g) toMatch rx v) (spMatchElement w (onMedia m₂ g) toMatch rx v)
  | .array ht => by
    unfold spMatchElement
    exact Media.matchArrayValue toMatch rx ht
  | .undef | .null | .false | .true | .long _ | .double _ | .string _ | .object _ | .resource _
  | .reference _ | .indirect _ | .ptr _ => by
    unfold spMatchElement
    exact hm.matchValue _ toMatch rx

end

theorem Media.inspect (r : SpDisabledFunction) (v : Zval) :
    R (inspect w (onMedia m₁ g) r v) (inspect w (onMedia m₂ g) r v) := by
  unfold Filter.inspect
  cases v with
  | array ht =>
    dsimp only
    split_ifs
    · exact hm.matchArrayKey _ _ ht
    · exact hm.matchArrayValue _ _ ht
  | _ => exact hm.matchValue _ _ _

/-! ### Variables -/

theorem Media.paramVarFrom (func : ZendFunction) (slots : List Zval) (varName : ZendString)
    (print : Bool) : ∀ n i : ℕ, R (paramVarFrom w (onMedia m₁ g) func slots varName print i n)
      (paramVarFrom w (onMedia m₂ g) func slots varName print i n)
  | 0, _ => hm.pure none
  | n + 1, i => by
    unfold Match.VarValue.paramVarFrom
    refine hm.bind (hm.fetch _) fun arg => ?_
    split_ifs
    · exact hm.bind (hm.fetch _) fun v => hm.pure _
    · exact hm.bind (hm.warn _ _ _) fun _ => Media.paramVarFrom func slots varName print n (i + 1)
    · exact hm.bind (hm.pure ()) fun _ => Media.paramVarFrom func slots varName print n (i + 1)

theorem Media.getParamVar (ed : Stack) (varName : ZendString) (print : Bool) :
    R (getParamVar w (onMedia m₁ g) ed varName print) (getParamVar w (onMedia m₂ g) ed varName print) :=
  hm.bind (hm.fetch _) fun _ => hm.bind (hm.fetch _) fun _ => hm.paramVarFrom _ _ _ _ _ _

theorem Media.getVarValue (ed : Stack) (varName : ZendString) (isParam : Bool) :
    R (getVarValue w (onMedia m₁ g) ed varName isParam) (getVarValue w (onMedia m₂ g) ed varName isParam) := by
  unfold Match.VarValue.getVarValue
  split
  · split_ifs
    · refine hm.bind (hm.getParamVar _ _ _) fun v => ?_
      cases v with
      | some v => exact hm.pure _
      | none =>
        exact hm.bind (hm.warn _ _ _) fun _ => hm.bind (hm.getParamVar _ _ _) fun _ => hm.pure none
    · exact hm.pure _
  · exact hm.pure _

theorem Media.getObjectProperty (ed : Stack) (handle : ℕ) (property : ZendString) (isParam : Bool) :
    R (getObjectProperty w (onMedia m₁ g) ed handle property isParam)
      (getObjectProperty w (onMedia m₂ g) ed handle property isParam) := by
  refine hm.bind (hm.getVarValue _ _ _) fun v => ?_
  split <;> exact hm.pure _

theorem Media.getUnknownType (ed : Stack) (type : ElemType) (value : ZendString) (zvalue : Option Zval)
    (ce : Option ClassEntry) (isParam : Bool) :
    R (getUnknownType w (onMedia m₁ g) ed type value zvalue ce isParam)
      (getUnknownType w (onMedia m₂ g) ed type value zvalue ce isParam) := by
  unfold Match.VarValue.getUnknownType
  split
  · exact hm.pure _
  · exact hm.getObjectProperty _ _ _ _
  · exact hm.pure _
  · exact hm.pure _

theorem Media.varStep (ed : Stack) (type : ElemType) (value : ZendString)
    {idx idx' : Sp (Option Zval)} (hidx : R idx idx') (isParam : Bool) (zvalue : Option Zval)
    (ce : Option ClassEntry) :
    R (varStep w (onMedia m₁ g) ed type value idx isParam zvalue ce)
      (varStep w (onMedia m₂ g) ed type value idx' isParam zvalue ce) := by
  unfold Match.VarValue.varStep
  cases type with
  | array =>
    dsimp only
    split
    · exact hm.bind (hm.pure _) fun _ => hm.bind hidx fun _ => hm.pure _
    · exact hm.bind (hm.getVarValue _ _ _) fun _ => hm.bind hidx fun _ => hm.pure _
    · exact hm.bind (hm.getObjectProperty _ _ _ _) fun _ => hm.bind hidx fun _ => hm.pure _
    · exact hm.bind (hm.pure _) fun _ => hm.bind hidx fun _ => hm.pure _
  | var =>
    dsimp only
    split
    · exact hm.bind (hm.getObjectProperty _ _ _ _) fun _ => hm.pure _
    · exact hm.bind (hm.getVarValue _ _ _) fun _ => hm.pure _
  | object =>
    dsimp only
    split
    · exact hm.bind (hm.getVarValue _ _ _) fun _ => hm.pure _
    · split_ifs
      · exact hm.pure _
      · exact hm.bind (hm.getObjectProperty _ _ _ _) fun _ => hm.pure _
    · exact hm.pure _
  | classConst => exact hm.pure _
  | _ => exact hm.bind (hm.getUnknownType _ _ _ _ _ _) fun _ => hm.pure _

theorem Media.varValueFrom (ed : Stack) : ∀ (tree : SpTree) (isParam : Bool) (zvalue : Option Zval)
    (ce : Option ClassEntry), R (varValueFrom w (onMedia m₁ g) ed tree isParam zvalue ce)
      (varValueFrom w (onMedia m₂ g) ed tree isParam zvalue ce)
  | .nil, _, zvalue, _ => hm.pure zvalue
  | .node type value idx next, isParam, zvalue, ce => by
    unfold Match.VarValue.varValueFrom
    refine hm.bind (hm.varStep _ _ _ (Media.varValueFrom ed idx _ _ _) _ _ _) fun p => ?_
    dsimp only
    split_ifs
    · exact hm.pure none
    · exact Media.varValueFrom ed next _ _ _

/-! ### Filters -/

theorem Media.functionMatching (s : Stack) (path : ZendString) (r : SpDisabledFunction) :
    R (functionMatching w (onMedia m₁ g) s path r) (functionMatching w (onMedia m₂ g) s path r) := by
  unfold Filter.functionMatching
  split_ifs
  · exact hm.pure _
  · split
    · exact hm.pure _
    · exact hm.regexp _ _
    · exact hm.pure _

theorem Media.fileMatching (s : Stack) (r : SpDisabledFunction) (file : ZendString) :
    R (fileMatching w (onMedia m₁ g) s r file) (fileMatching w (onMedia m₂ g) s r file) := by
  unfold Filter.fileMatching isFileMatching
  split_ifs
  · split
    · exact hm.pure _
    · refine hm.bind (hm.regexpLen _ _) fun b => ?_
      split_ifs
      · exact hm.pure true
      · cases callerFilename s with
        | some f => exact hm.regexpLen _ _
        | none => exact hm.pure false
    · exact hm.pure false
  · exact hm.pure true

theorem Media.cidrMatching (r : SpDisabledFunction) :
    R (cidrMatching w (onMedia m₁ g) r) (cidrMatching w (onMedia m₂ g) r) := by
  unfold Filter.cidrMatching cidrMatch
  cases r.cidr with
  | none => exact hm.pure true
  | some cidr =>
    dsimp only
    split
    · exact hm.pure _
    · exact hm.pure _
    · exact hm.pure _
    · exact hm.bind (hm.err _ _ _) fun _ => hm.pure false

theorem Media.varMatching (s : Stack) (r : SpDisabledFunction) :
    R (varMatching w (onMedia m₁ g) s r) (varMatching w (onMedia m₂ g) s r) := by
  unfold Filter.varMatching isLocalVarMatching spGetVarValue
  split_ifs
  · exact hm.pure true
  · refine hm.bind (hm.varValueFrom _ _ _ _ _) fun v => ?_
    cases v with
    | some v => exact hm.inspect r v
    | none => exact hm.pure false

theorem Media.hashMatching (file hash : ZendString) (r : SpDisabledFunction) :
    R (hashMatching w (onMedia m₁ g) file hash r) (hashMatching w (onMedia m₂ g) file hash r) := by
  have hcompute : R (computeHash w (onMedia m₁ g) file hash) (computeHash w (onMedia m₂ g) file hash) := by
    unfold computeHash
    cases w.fileSha256 file with
    | some digest => exact hm.pure digest
    | none => exact hm.bind (hm.err _ _ _) fun _ => hm.pure hash
  unfold Filter.hashMatching
  cases r.hash with
  | none => exact hm.pure _
  | some h =>
    dsimp only
    split_ifs
    · exact hm.bind hcompute fun _ => hm.pure _
    · exact hm.bind (hm.pure _) fun _ => hm.pure _

theorem Media.regexpArgFrom (fn : ZendFunction) (slots : List Zval) (rx : SpRegexp) :
    ∀ (n i : ℕ) (m : Matched) (v : Option Zval), R (regexpArgFrom w (onMedia m₁ g) fn slots rx i n m v)
      (regexpArgFrom w (onMedia m₂ g) fn slots rx i n m v)
  | 0, _, _, _ => hm.pure _
  | n + 1, i, m, v => by
    unfold Filter.regexpArgFrom
    refine hm.bind (hm.fetch _) fun arg => hm.bind (hm.regexp _ _) fun b => ?_
    split_ifs
    · exact hm.bind (hm.fetch _) fun value => Media.regexpArgFrom fn slots rx n _ _ _
    · exact Media.regexpArgFrom fn slots rx n _ _ _

theorem Media.selectArg (s : Stack) (frame : Frame) (fn : ZendFunction) (r : SpDisabledFunction) :
    R (selectArg w (onMedia m₁ g) s frame fn r) (selectArg w (onMedia m₂ g) s frame fn r) := by
  unfold Filter.selectArg
  dsimp only
  split_ifs
  · exact hm.bind (hm.fetch _) fun _ => hm.bind (hm.pure _) fun _ =>
      hm.bind (hm.fetch _) fun _ => hm.pure _
  · exact hm.bind (hm.pure _) fun _ => hm.bind (hm.fetch _) fun _ => hm.pure _
  · split
    · exact hm.bind (hm.varValueFrom _ _ _ _ _) fun _ => hm.pure _
    · exact hm.regexpArgFrom _ _ _ _ _ _ _
    · exact hm.pure _

theorem Media.argMatching (r : SpDisabledFunction) (m : Matched) (v : Zval) :
    R (argMatching w (onMedia m₁ g) r m v) (argMatching w (onMedia m₂ g) r m v) := by
  unfold Filter.argMatching
  split_ifs
  · exact hm.pure none
  · exact hm.pure _
  · refine hm.bind (hm.inspect r v) fun b => ?_
    split_ifs
    · exact hm.pure _
    · exact hm.pure none

theorem Media.isParamMatching (c : Call) (r : SpDisabledFunction) :
    R (isParamMatching w (onMedia m₁ g) c r) (isParamMatching w (onMedia m₂ g) c r) := by
  unfold Filter.isParamMatching
  split
  · refine hm.bind (hm.matchValue _ _ _) fun b => ?_
    split_ifs
    · exact hm.pure _
    · exact hm.pure none
  · exact hm.pure none
  · next frame s _ _ =>
    cases frame.func with
    | none => exact hm.pure none
    | some fn =>
      dsimp only
      split_ifs
      · exact hm.pure none
      · exact hm.pure none
      · refine hm.bind (hm.selectArg _ _ _ _) fun p => ?_
        obtain ⟨m, v⟩ := p
        cases v with
        | none => exact hm.pure none
        | some v => exact hm.argMatching r m v

theorem Media.isVariadic (s : Stack) : R (isVariadic s) (isVariadic s) :=
  hm.bind (hm.fetch _) fun _ => hm.bind (hm.fetch _) fun _ => hm.bind (hm.fetch _) fun _ => hm.pure _

theorem Media.paramMatching (c : Call) (r : SpDisabledFunction) :
    R (paramMatching w (onMedia m₁ g) c r) (paramMatching w (onMedia m₂ g) c r) := by
  unfold Filter.paramMatching checkedParamMatching
  split_ifs
  · refine hm.bind (hm.pure false) fun b => ?_
    split_ifs
    · exact hm.bind (hm.warn _ _ _) fun _ => hm.pure _
    · exact hm.isParamMatching c r
  · refine hm.bind (hm.isVariadic _) fun b => ?_
    split_ifs
    · exact hm.bind (hm.warn _ _ _) fun _ => hm.pure _
    · exact hm.isParamMatching c r
  · exact hm.pure _

/-! ### Rules -/

theorem Media.ruleMatching {μ : Type} {before before' : Sp Bool} {after after' : Sp (Option μ)}
    (hb : R before before') (ha : R after after') (file hash : ZendString) (r : SpDisabledFunction) :
    R (ruleMatching w (onMedia m₁ g) before after file hash r)
      (ruleMatching w (onMedia m₂ g) before' after' file hash r) := by
  unfold Evaluate.ruleMatching
  refine hm.bind hb fun b => ?_
  split_ifs
  · refine hm.bind (hm.hashMatching _ _ _) fun p => ?_
    dsimp only
    split_ifs
    · exact hm.bind ha fun _ => hm.pure _
    · exact hm.pure _
  · exact hm.pure _

theorem Media.ruleLoop {μ : Type}
    {matching matching' : ZendString → SpDisabledFunction → Sp (ZendString × Option μ)}
    {log log' : SpDisabledFunction → μ → Sp Unit} (hmatching : ∀ h r, R (matching h r) (matching' h r))
    (hlog : ∀ r m, R (log r m) (log' r m)) : ∀ (l : List SpDisabledFunction) (h : ZendString),
    R (ruleLoop matching log h l) (ruleLoop matching' log' h l)
  | [], _ => hm.pure ()
  | r :: l, h => by
    unfold Evaluate.ruleLoop
    refine hm.bind (hmatching h r) fun p => ?_
    obtain ⟨h', m⟩ := p
    cases m with
    | none => exact Media.ruleLoop hmatching hlog l h'
    | some m =>
      dsimp only
      split_ifs
      · exact hm.pure ()
      · exact hm.bind (hlog r m) fun _ => Media.ruleLoop hmatching hlog l h'

theorem Media.logDisable (path : ZendString) (m : Matched) (r : SpDisabledFunction) :
    R (spLogDisable w (onMedia m₁ g) path m r) (spLogDisable w (onMedia m₂ g) path m r) := by
  refine hm.bind (hm.request _ _) fun _ => ?_
  split <;> exact hm.auto _ _ _ _

theorem Media.logDisableRet (path : ZendString) (v : Option ZendString) (r : SpDisabledFunction) :
    R (spLogDisableRet w (onMedia m₁ g) path v r) (spLogDisableRet w (onMedia m₂ g) path v r) := by
  refine hm.bind (hm.request _ _) fun _ => ?_
  split <;> exact hm.auto _ _ _ _

theorem Media.shouldDisable (c : Call) (path file : ZendString) (config : List SpDisabledFunction) :
    R (shouldDisable w (onMedia m₁ g) c path file config)
      (shouldDisable w (onMedia m₂ g) c path file config) := by
  refine hm.ruleLoop (fun h r => ?_) (fun r m => hm.logDisable _ m r) config []
  refine hm.ruleMatching (hm.stepwise.allSeq ?_) (hm.paramMatching c r) _ _ _
  exact .cons (hm.functionMatching _ _ _) (.cons (hm.pure _) (.cons (hm.fileMatching _ _ _)
    (.cons (hm.cidrMatching _) (.cons (hm.varMatching _ _) .nil))))

theorem Media.shouldDropOnRet (ret : Return) (path : ZendString) (config : List SpDisabledFunction) :
    R (shouldDropOnRet w (onMedia m₁ g) ret path config)
      (shouldDropOnRet w (onMedia m₂ g) ret path config) := by
  have hfile : ∀ (r : SpDisabledFunction) (file : ZendString),
      R (retFileMatching w (onMedia m₁ g) r file) (retFileMatching w (onMedia m₂ g) r file) := by
    intro r file
    unfold retFileMatching
    split
    · exact hm.pure _
    · exact hm.regexp _ _
    · exact hm.pure true
  have hvalue : ∀ r : SpDisabledFunction,
      R (Evaluate.matchValue w (onMedia m₁ g) ret r) (Evaluate.matchValue w (onMedia m₂ g) ret r) := by
    intro r
    unfold Evaluate.matchValue
    split
    · split_ifs
      · exact hm.matchValue _ _ _
      · exact hm.pure false
    · exact hm.pure false
  refine hm.ruleLoop (fun h r => ?_) (fun r m => hm.logDisableRet _ m r) config []
  refine hm.ruleMatching (hm.stepwise.allSeq ?_) (hm.bind (hvalue r) fun _ => hm.pure _) _ _ _
  exact .cons (hm.functionMatching _ _ _) (.cons (hfile r _) .nil)

/-- **The rules on a call**, under the two media. -/
theorem Media.shouldDisableHt (c : Call) (f : ZendString) (config : List SpDisabledFunction)
    (ht : RuleTable) : R (shouldDisableHt w (onMedia m₁ g) c f config ht)
      (shouldDisableHt w (onMedia m₂ g) c f config ht) := by
  unfold Dispatch.shouldDisableHt
  split_ifs
  · exact hm.pure ()
  · refine hm.bind (hm.stepwise.emit _ id) fun _ => ?_
    split
    · exact hm.shouldDisable _ _ _ _
    · exact hm.pure ()
  · refine hm.bind (hm.stepwise.emit _ id) fun _ => ?_
    split <;> exact hm.shouldDisable _ _ _ _

theorem Media.shouldDropOnRetHt (ret : Return) (f : ZendString) (config : List SpDisabledFunction)
    (ht : RuleTable) : R (shouldDropOnRetHt w (onMedia m₁ g) ret f config ht)
      (shouldDropOnRetHt w (onMedia m₂ g) ret f config ht) := by
  refine hm.bind (hm.stepwise.emit _ id) fun _ => ?_
  split
  · exact hm.shouldDropOnRet _ _ _
  · split_ifs
    · exact hm.pure ()
    · exact hm.shouldDropOnRet _ _ _

end Pass

end Snuffleupagus.DisabledFunctions.Medium
