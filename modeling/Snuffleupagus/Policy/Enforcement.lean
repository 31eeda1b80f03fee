import Snuffleupagus.DisabledFunctions.Order
import Snuffleupagus.Execute.Opcode
import Snuffleupagus.Load.History
import Snuffleupagus.Policy.Rule
import Snuffleupagus.Scanner.Grammar

/-! # The enforcement of a policy

A policy is written to the files of a configuration, the files are loaded, after whatever has been loaded and called
before, and functions are called. What the load leaves is `Loaded`. Every call is stopped if the policy denies its
function, and no other (`policy_enforced`); the code of a user function that is denied is never run, and the code of
any other one gives what it gives by itself (`user_functions_enforced`). -/

namespace Snuffleupagus.Policy.Enforcement

open Snuffleupagus.Lib.Effect Snuffleupagus.Lib.Table Snuffleupagus.Lib.Attempts Snuffleupagus.Lib.FirstMatch
open Snuffleupagus.Php.Bytes Snuffleupagus.Php.Value Snuffleupagus.Php.Engine Snuffleupagus.Config.Rule
open Snuffleupagus.Log hiding Event
open Snuffleupagus.Config.Keyword hiding spProcessRule
open Snuffleupagus.Config.DisabledFunctions (isRet)
open Snuffleupagus.Config.Root Snuffleupagus.Match.Chain
open Snuffleupagus.Hook.Table Snuffleupagus.Hook.Stores Snuffleupagus.Hook.Partition Snuffleupagus.Hook.Unhook
open Snuffleupagus.DisabledFunctions.Filter Snuffleupagus.DisabledFunctions.Evaluate
open Snuffleupagus.DisabledFunctions.Dispatch Snuffleupagus.DisabledFunctions.Order
open Snuffleupagus.Load.Module Snuffleupagus.Load.Cases Snuffleupagus.Load.History
open Snuffleupagus.Execute.Handler
open Snuffleupagus.Execute.Opcode (bodyAndReturn)
open Snuffleupagus.Ini.Hook Snuffleupagus.Wrapper.Table
open Snuffleupagus.Scanner.Scan (Context)
open Snuffleupagus.Scanner.Grammar (Scans)
open Snuffleupagus.Scanner.File Snuffleupagus.Policy.Rule

/-! ### Reading the files -/

/-- The rules of a policy. -/
def rulesOf (policy : List Entry) : List SpDisabledFunction := policy.map Entry.rule

/-- The functions of a policy can be written. -/
def Writable (policy : List Entry) : Prop := ∀ x ∈ policy, Plain x.function

/-- The files of a setting, in their order, hold the texts of policies. -/
structure Holds (c : Context) (e : Environment) (newValue : ZendString) (files : List ZendString)
    (policyOf : ZendString → List Entry) : Prop where
  scans : Scans c e
  globs : ∃ groups, List.Forall₂ (fun pattern group => e.glob pattern = some group) (patternsOf newValue) groups ∧
    groups.flatten = files
  reads : ∀ file ∈ files, e.read file = .ok (policyText (policyOf file))
  writable : ∀ file ∈ files, Writable (policyOf file)

/-- The configuration without the rules on functions, and without the place that is read. -/
def besides (g : SpGlobals) : SpGlobals :=
  { g with stores := {}, configFilename := none, configLineno := 0, configParsing := false }

/-- Reading ends well, puts the rules of a policy behind those that are there, and leaves the rest. -/
def Reads (x : Sp (Bool × SpGlobals)) (policy : List Entry) (g : SpGlobals) : Prop :=
  ∃ g', Yields x (true, g') ∧ g'.stores = (rulesOf policy).foldl insertRule g.stores ∧ besides g' = besides g

section Reading
variable {c : Context} {e : Environment} {policy : List Entry} {policyOf : ZendString → List Entry}

theorem reads_statements : ∀ {policy : List Entry} (n : ℕ) (g : SpGlobals), Writable policy →
    Reads (spConfigScan e none (rulesFrom c n (policy.map Entry.keywords)) g) policy g
  | [], _, g, _ => ⟨g, yields_pure.mpr rfl, rfl, rfl⟩
  | x :: policy, n, g, h => by
    obtain ⟨hx, (hrest : Writable policy)⟩ := List.forall_mem_cons.mp h
    have hrun := runOn_entry c n e.world e.access g hx
    obtain ⟨g', hy, hstores, hbesides⟩ := reads_statements (n + 1)
      { g with configLineno := n, stores := insertRule g.stores x.rule } hrest
    refine ⟨g', ?_, hstores, hbesides⟩
    rw [List.map_cons, rulesFrom, spConfigScan, hrun]
    exact hy

/-- The text of a policy is scanned to its rules. -/
theorem scan_policyText (hscans : Scans c e) (h : Writable policy) (file : ZendString) :
    e.scan (policyText policy) file =
      { statements := rulesFrom { c with filename := file } 1 (policy.map Entry.keywords) } := by
  have hclean : ∀ kws ∈ policy.map Entry.keywords,
      kws.length ≤ Scanner.Scan.maxKeywords ∧ ∀ kw ∈ kws, Clean kw := by
    intro kws hmem
    obtain ⟨x, hx, rfl⟩ := List.mem_map.mp hmem
    exact clean_entry (h x hx)
  have hscan := scan_file { c with filename := file } hclean
  have hend : (Scanner.Scan.spConfigScan { c with filename := file } (policyText policy)).2 ≠ .overrun := by
    rw [policyText, hscan]
    rintro ⟨⟩
  rw [hscans _ _ hend, Scanner.Grammar.scan, policyText, hscan]

theorem reads_spParseConfig (hscans : Scans c e) {file : ZendString} (hread : e.read file = .ok (policyText policy))
    (h : Writable policy) (g : SpGlobals) : Reads (spParseConfig e file g) policy g := by
  obtain ⟨g', hy, hstores, hbesides⟩ := reads_statements (c := { c with filename := file }) (e := e) 1
    { g with configFilename := some file, configLineno := 0, configParsing := true } h
  refine ⟨{ g' with configParsing := false, configFilename := none, configLineno := 0 }, ?_, hstores, hbesides⟩
  unfold spParseConfig
  dsimp only
  rw [hread]
  dsimp only
  rw [scan_policyText hscans h]
  exact yields_bind.mpr ⟨(true, g'), hy, yields_pure.mpr rfl⟩

theorem foldl_rulesOf_append (p q : List Entry) (s : Stores) :
    (rulesOf (p ++ q)).foldl insertRule s = (rulesOf q).foldl insertRule ((rulesOf p).foldl insertRule s) := by
  unfold rulesOf
  rw [List.map_append, List.foldl_append]

/-- What is read one after the other. -/
theorem Reads.append {x : Sp (Bool × SpGlobals)} {y : SpGlobals → Sp (Bool × SpGlobals)} {p q : List Entry}
    {g : SpGlobals} (hx : Reads x p g) (hy : ∀ g', Reads (y g') q g') :
    Reads (x >>= fun r => match r with | (true, g') => y g' | (false, g') => pure (false, g')) (p ++ q) g := by
  obtain ⟨g₁, h₁, hs₁, hb₁⟩ := hx
  obtain ⟨g₂, h₂, hs₂, hb₂⟩ := hy g₁
  refine ⟨g₂, yields_bind.mpr ⟨(true, g₁), h₁, h₂⟩, ?_, hb₂.trans hb₁⟩
  rw [hs₂, hs₁, foldl_rulesOf_append]

theorem reads_parseFiles (hscans : Scans c e) : ∀ {files : List ZendString} (g : SpGlobals),
    (∀ file ∈ files, e.read file = .ok (policyText (policyOf file)) ∧ Writable (policyOf file)) →
    Reads (parseFiles e files g) (files.flatMap policyOf) g
  | [], g, _ => ⟨g, yields_pure.mpr rfl, rfl, rfl⟩
  | file :: files, g, h => by
    obtain ⟨⟨hread, hwritable⟩, hrest⟩ := List.forall_mem_cons.mp h
    exact (reads_spParseConfig hscans hread hwritable g).append fun g' => reads_parseFiles hscans g' hrest

theorem reads_parsePatterns (hscans : Scans c e) {patterns : List ZendString} {groups : List (List ZendString)}
    (hglobs : List.Forall₂ (fun pattern group => e.glob pattern = some group) patterns groups)
    (h : ∀ file ∈ groups.flatten, e.read file = .ok (policyText (policyOf file)) ∧ Writable (policyOf file)) :
    ∀ g, Reads (parsePatterns e patterns g) (groups.flatten.flatMap policyOf) g := by
  induction hglobs with
  | nil => exact fun g => ⟨g, yields_pure.mpr rfl, rfl, rfl⟩
  | cons hglob _ ih =>
    intro g
    rw [List.flatten_cons] at h ⊢
    obtain ⟨hgroup, hrest⟩ := List.forall_mem_append.mp h
    unfold parsePatterns
    rw [hglob, List.flatMap_append]
    exact (reads_parseFiles hscans g hgroup).append (ih hrest)

/-- **The configuration that is read** has the rules of the policies, and nothing else. -/
theorem exists_readConfiguration {newValue : ZendString} {files : List ZendString}
    (h : Holds c e newValue files policyOf) (allowBroken : Bool) :
    ∃ g, readConfiguration allowBroken e newValue = some g ∧
      g.stores = storesOf (rulesOf (files.flatMap policyOf)) ∧ besides g = besides (defaults (ginit allowBroken)) := by
  obtain ⟨groups, hglobs, rfl⟩ := h.globs
  obtain ⟨g, hy, hstores, hbesides⟩ := reads_parsePatterns h.scans hglobs
    (fun file hfile => ⟨h.reads file hfile, h.writable file hfile⟩) (defaults (ginit allowBroken))
  exact ⟨g, (readConfiguration_of_yields hy).trans (if_pos rfl), hstores, hbesides⟩

end Reading

/-! ### The verdict -/

section Verdict
variable {w : World} {g : SpGlobals} {call : Call} {policy : List Entry} {f : ZendString}

/-- Every rule of a policy names its function. -/
theorem regexpRules_rulesOf (policy : List Entry) (ret : Bool) : regexpRules (rulesOf policy) ret = [] := by
  refine List.filter_eq_nil_iff.mpr fun r hr => ?_
  obtain ⟨x, -, rfl⟩ := List.mem_map.mp hr
  cases ret <;> exact Bool.false_ne_true

/-- No rule of a policy is about a return. -/
theorem rulesFor_true_rulesOf (policy : List Entry) (f : ZendString) : rulesFor (rulesOf policy) true f = [] := by
  refine List.filter_eq_nil_iff.mpr fun r hr => ?_
  obtain ⟨x, -, rfl⟩ := List.mem_map.mp hr
  exact Bool.false_ne_true

theorem rulesFor_rulesOf (policy : List Entry) (f : ZendString) :
    rulesFor (rulesOf policy) false f = rulesOf (policy.filter (·.function = f)) := by
  unfold rulesFor rulesOf
  rw [List.filter_map]
  refine congrArg _ (List.filter_congr fun x _ => ?_)
  show (some x.function == some f) = _
  rw [Bool.eq_iff_iff]
  simp

/-- The rules on a function decide as their entries say. -/
theorem findSome?_rulesOf (h : Writable policy) (hf : ∀ x ∈ policy, x.function = f) (filename : ZendString) :
    (rulesOf policy).findSome? (callDecision w g call f filename) = policy.findSome? (·.action.decision) := by
  unfold rulesOf
  rw [List.findSome?_map]
  refine findSome?_congr fun x hx => ?_
  obtain rfl := hf x hx
  exact callDecision_rule (h x hx) w g call filename

/-- The first entry that decides is the one that says whether the function is denied. -/
theorem verdict_decision : ∀ (policy : List Entry),
    verdict ((policy.filter (·.function = f)).findSome? (·.action.decision)) =
      if denies policy f then .error .drop else .ok ()
  | [] => rfl
  | x :: policy => by
    have ih := verdict_decision policy
    unfold denies at ih ⊢
    obtain ⟨k, a⟩ := x
    by_cases hk : k = f
    · cases a with
      | drop => simp [hk, Action.decision, verdict]
      | allow => simp [hk, Action.decision, verdict]
      | simulate => simpa [hk, Action.decision] using ih
    · simpa [hk] using ih

end Verdict

/-! ### What the load leaves -/

/-- **What the load of a policy leaves**, in a process whose function table was `t₀`: the rules in the stores, the
check on the internal functions among those with rules, and no other feature that looks at calls. -/
structure Loaded (t₀ : FunctionTable) (policy : List Entry) (m : SpModule) : Prop where
  writable : Writable policy
  partitioned : Partitioned (rulesOf policy) m.globals.stores m.hooks
  checked : ∀ f, rulesFor (rulesOf policy) false f ≠ [] → cstr f = f →
    m.hooks.functionTable.typeOf f = some .internal → Checked m.hooks f
  tracks : Tracks t₀ m.hooks
  hookExecute : ∀ k l, m.globals.stores.disabledFunctions.find? k = some l → m.globals.hookExecute = true
  whitelist : m.globals.eval.whitelist = []
  readonlyExec : m.globals.readonlyExec.enable = false
  maxExecutionDepth : m.globals.maxExecutionDepth = 0

section Load
variable {p : PhpProcess} {allowBroken : Bool} {t₀ : FunctionTable} {c : Context} {e : Environment}
  {newValue : ZendString} {files : List ZendString} {policyOf : ZendString → List Entry} {m m' : SpModule} {ok : Bool}

theorem loaded_of_load (hr : Reached allowBroken t₀ m) (h : Holds c e newValue files policyOf) (hd : dumps p = false)
    (hload : Yields (spLoadConfig p e newValue m) (ok, m')) :
    ok = true ∧ Loaded t₀ (files.flatMap policyOf) m' := by
  obtain ⟨g, hread, hstores, hbesides⟩ := exists_readConfiguration h allowBroken
  have htracks := (hr.load hload).tracks
  cases hr.outcome hload with
  | failed hnone => cases hnone.symm.trans hread
  | dumped _ hdumps => cases hdumps.symm.trans hd
  | @started g' s d _ hread' _ hs =>
    cases hread'.symm.trans hread
    have hhooked := hs.hooked
    rw [hstores] at hhooked
    have hglobals := hs.globals
    have hs' : m'.globals.stores = s := (congrArg SpGlobals.stores hglobals :)
    refine ⟨rfl, fun x hx => ?_, hs' ▸ partitioned_hookDisabledFunctions hhooked,
      fun f hn hf hi => ?_, htracks, fun k l hl => ?_, ?_, ?_, ?_⟩
    · obtain ⟨file, hfile, hx⟩ := List.mem_flatMap.mp hx
      exact h.writable file hfile x hx
    · have hchecked := (after_hookDisabledFunctions hhooked).2 false f hn
      rw [hf] at hchecked
      exact hchecked hi
    · have hne : s.disabledFunctions.entries ≠ [] := List.ne_nil_of_mem (OrdTable.mem_of_lookup (hs' ▸ hl))
      rw [hglobals]
      simp [Execute.Handler.loadedGlobals, hne]
    · exact (congrArg (fun g => g.eval.whitelist) hglobals :).trans (congrArg (fun g => g.eval.whitelist) hbesides :)
    · exact (congrArg (fun g => g.readonlyExec.enable) hglobals :).trans
        (congrArg (fun g => g.readonlyExec.enable) hbesides :)
    · exact (congrArg SpGlobals.maxExecutionDepth hglobals :).trans (congrArg SpGlobals.maxExecutionDepth hbesides :)

/-- A policy that is loaded after a history. -/
theorem exists_loaded (p : PhpProcess) (allowBroken : Bool) (t₀ : FunctionTable) (d₀ : IniDirectives)
    (w₀ : StreamWrappers) (l : List Event) (h : Holds c e newValue files policyOf) (hd : dumps p = false) :
    ∃ m m', Yields (history p l (freshModule allowBroken t₀ d₀ w₀)) m ∧
      Yields (spLoadConfig p e newValue m) (true, m') ∧ Loaded t₀ (files.flatMap policyOf) m' := by
  obtain ⟨m, ok, m', -, hm, hload, -, hr, -⟩ := exists_reload p allowBroken t₀ d₀ w₀ l e newValue
  obtain ⟨rfl, hloaded⟩ := loaded_of_load hr h hd hload
  exact ⟨m, m', hm, hload, hloaded⟩

end Load

/-! ### What becomes of calls -/

/-- A call of `f` is looked at: an internal function runs the check before itself, any other one is left to the
executor, which evaluates the rules. -/
def Watched (m : SpModule) (f : ZendString) : Prop :=
  if m.hooks.functionTable.typeOf f = some .internal then Checked m.hooks f
  else m.globals.hookExecute = true ∧ (m.hooks.saved .disabledFunctionsHook).find? f = none

section Calls
variable {t₀ : FunctionTable} {policy : List Entry} {m : SpModule} {f : ZendString}

/-- The rules that are evaluated for a call. -/
theorem Loaded.find?_consulted (h : Loaded t₀ policy m) (hf : cstr f = f) (hconstruct : f ∉ builtinNames) :
    (consulted m.globals.stores m.hooks f).find? (.str f) =
      nonempty? (rulesOf (policy.filter (·.function = f))) := by
  rw [← rulesFor_rulesOf]
  exact DisabledFunctions.Order.find?_consulted h.partitioned hf hconstruct

theorem Loaded.watched (h : Loaded t₀ policy m) (hf : cstr f = f) (hconstruct : f ∉ builtinNames)
    (hmem : ∃ x ∈ policy, x.function = f) : Watched m f := by
  obtain ⟨x, hx, hxf⟩ := hmem
  have hne : rulesOf (policy.filter (·.function = f)) ≠ [] :=
    List.ne_nil_of_mem (List.mem_map_of_mem (List.mem_filter.mpr ⟨hx, decide_eq_true hxf⟩))
  unfold Watched
  split_ifs with hi
  · exact h.checked f (by rwa [rulesFor_rulesOf]) hf hi
  · have hfind := h.find?_consulted hf hconstruct
    rw [consulted, if_neg fun h => hi h.1, nonempty?, if_neg hne] at hfind
    exact ⟨h.hookExecute _ _ hfind, h.tracks.saved_eq_none (fun h' => hi ((h.tracks.typeOf f).trans h')) _⟩

/-- **The verdict on a call** is what the policy says. -/
theorem Loaded.out_shouldDisableHt (h : Loaded t₀ policy m) (hf : cstr f = f) (hconstruct : f ∉ builtinNames)
    (w : World) (frame : Frame) (stack : Stack) :
    (shouldDisableHt w m.globals ⟨frame :: stack, none⟩ f m.globals.stores.disabledFunctionsReg
      (consulted m.globals.stores m.hooks f)).out = if denies policy f then .error .drop else .ok () := by
  have hreg : m.globals.stores.disabledFunctionsReg = [] :=
    (h.partitioned.patterns false).trans (regexpRules_rulesOf policy false)
  have hwritable : Writable (policy.filter (·.function = f)) := fun x hx => h.writable x (List.mem_filter.mp hx).1
  have hsame : ∀ x ∈ policy.filter (·.function = f), x.function = f := fun x hx =>
    of_decide_eq_true (List.mem_filter.mp hx).2
  rw [DisabledFunctions.Dispatch.out_shouldDisableHt (List.cons_ne_nil _ _), h.find?_consulted hf hconstruct, hreg,
    getD_nonempty?, findSome?_rulesOf hwritable hsame]
  exact verdict_decision policy

end Calls

/-- **A policy is enforced**: it is written to the files of a configuration, which are loaded after any history of the
process. The functions of the policy are watched; a call, of what is no language construct, is stopped if the policy
denies the function, and goes through if it does not. -/
theorem policy_enforced (p : PhpProcess) (allowBroken : Bool) (t₀ : FunctionTable) (d₀ : IniDirectives)
    (w₀ : StreamWrappers) (l : List Event) {c : Context} {e : Environment} {newValue : ZendString}
    {files : List ZendString} {policyOf : ZendString → List Entry} (h : Holds c e newValue files policyOf)
    (hd : dumps p = false) : ∃ m m', Yields (history p l (freshModule allowBroken t₀ d₀ w₀)) m ∧
      Yields (spLoadConfig p e newValue m) (true, m') ∧
      ∀ (frame : Frame) (f : ZendString), getCompleteFunctionPath frame = some f → f ∉ builtinNames →
        ((∃ x ∈ files.flatMap policyOf, x.function = f) → Watched m' f) ∧
        ∀ (w : World) (stack : Stack), (shouldDisableHt w m'.globals ⟨frame :: stack, none⟩ f
          m'.globals.stores.disabledFunctionsReg (consulted m'.globals.stores m'.hooks f)).out =
            if denies (files.flatMap policyOf) f then .error .drop else .ok () := by
  obtain ⟨m, m', hm, hload, hloaded⟩ := exists_loaded p allowBroken t₀ d₀ w₀ l h hd
  refine ⟨m, m', hm, hload, fun frame f hframe hconstruct => ?_⟩
  have hf := cstr_of_path hframe
  exact ⟨hloaded.watched hf hconstruct, fun w stack => hloaded.out_shouldDisableHt hf hconstruct w frame stack⟩

/-- Calls of `system` are reported by one file and stopped by another one; `backdoor` is stopped, and then allowed. -/
def samplePolicy (file : ZendString) : List Entry :=
  if file = zstr "a.rules" then [⟨zstr "system", .simulate⟩, ⟨zstr "backdoor", .drop⟩]
  else [⟨zstr "backdoor", .allow⟩, ⟨zstr "system", .drop⟩]

/-- An environment with these two files. -/
def sampleFiles : Environment where
  __ := ofRules []
  read file := .ok (policyText (samplePolicy file))
  scan := Scanner.Grammar.scan Scanner.Grammar.bare

theorem writable_samplePolicy (file : ZendString) : Writable (samplePolicy file) := by
  have hprintable : ∀ s : ZendString, (s.all fun b => decide (32 ≤ b ∧ b ≤ 126)) = true →
      ∀ b ∈ s, 32 ≤ b ∧ b ≤ 126 := fun s h b hb => of_decide_eq_true (List.all_eq_true.mp h b hb)
  have hsystem : Plain (zstr "system") := ⟨hprintable _ rfl, by decide, by decide, by decide⟩
  have hbackdoor : Plain (zstr "backdoor") := ⟨hprintable _ rfl, by decide, by decide, by decide⟩
  unfold samplePolicy Writable
  split_ifs <;> simp [hsystem, hbackdoor]

theorem holds_sample : Holds Scanner.Grammar.bare sampleFiles (zstr "a.rules,b.rules") [zstr "a.rules", zstr "b.rules"]
    samplePolicy where
  scans _ _ _ := rfl
  globs := ⟨[[zstr "a.rules"], [zstr "b.rules"]], .cons rfl (.cons rfl .nil), rfl⟩
  reads _ _ := rfl
  writable file _ := writable_samplePolicy file

theorem policy_enforced_sample : ∃ m m',
    Yields (history cliProcess [.load sampleFiles (zstr "b.rules"), .request]
      (freshModule false sampleHooks.functionTable .empty .empty)) m ∧
    Yields (spLoadConfig cliProcess sampleFiles (zstr "a.rules,b.rules") m) (true, m') ∧
    Watched m' (zstr "system") ∧ ∀ w stack,
      (shouldDisableHt w m'.globals ⟨sampleFrame :: stack, none⟩ (zstr "system")
        m'.globals.stores.disabledFunctionsReg (consulted m'.globals.stores m'.hooks (zstr "system"))).out =
          .error .drop := by
  obtain ⟨m, m', hm, hload, hcalls⟩ := policy_enforced cliProcess false sampleHooks.functionTable .empty .empty
    [.load sampleFiles (zstr "b.rules"), .request] holds_sample rfl
  obtain ⟨hwatched, hverdict⟩ := hcalls sampleFrame (zstr "system") rfl (by decide)
  exact ⟨m, m', hm, hload, hwatched ⟨⟨zstr "system", .drop⟩, by decide, rfl⟩, hverdict⟩

/-! ### User functions -/

/-- A call of a user function, from where the executor looks at the rules. -/
structure UserCall (t₀ : FunctionTable) (frame : Frame) (stack : Stack) (f : ZendString) : Prop where
  user : frame.func.map ZendFunction.type = some .user
  path : getCompleteFunctionPath frame = some f
  defined : t₀.typeOf f ≠ some .internal
  construct : f ∉ builtinNames
  checked : isCheckedCall stack.head? = true

theorem mem_of_denies {policy : List Entry} {f : ZendString} (h : denies policy f = true) :
    ∃ x ∈ policy, x.function = f := by
  obtain ⟨x, hx, -⟩ := (Option.any_eq_true _ _).mp h
  have hfound := List.find?_some hx
  rw [decide_eq_true_iff] at hfound
  exact ⟨x, List.mem_of_find?_eq_some hx, hfound.1⟩

section User
variable {w : World} {t₀ : FunctionTable} {policy : List Entry} {m : SpModule} {frame : Frame} {stack : Stack}
  {f : ZendString} {run : SpGlobals → Sp Zval}

/-- The executor, with nothing but the rules to look at. -/
theorem Loaded.spExecuteHandler_eq (h : Loaded t₀ policy m) (hc : UserCall t₀ frame stack f) :
    spExecuteHandler w m.globals m.hooks false frame stack run =
      if m.globals.hookExecute then (do
        shouldDisableHt w m.globals ⟨frame :: stack, none⟩ f m.globals.stores.disabledFunctionsReg
          m.globals.stores.disabledFunctions
        bodyAndReturn w m.globals frame stack f run)
      else spOrigExecute w m.globals (some f) run := by
  have heval : isInEvalAndWhitelisted w m.globals frame = pure () := if_pos (Or.inr h.whitelist)
  have hwritable : spCheckWritable w m.globals frame.func = pure () := by
    unfold spCheckWritable
    rw [h.readonlyExec]
    cases frame.func <;> rfl
  have htype : (frame.func.map ZendFunction.type == some FnType.eval) = false := by
    rw [hc.user]
    rfl
  have hhook := h.tracks.saved_eq_none hc.defined .disabledFunctionsHook
  unfold spExecuteHandler bodyAndReturn
  simp only [heval, hwritable, hc.path, hhook, htype, hc.checked, Bool.not_false, Bool.and_false, Bool.false_eq_true,
    if_false, if_true, Option.isSome_none, Bool.or_false, spCallOrigExecute, pure_bind]
  cases m.globals.hookExecute <;> rfl

theorem Loaded.out_spOrigExecute (h : Loaded t₀ policy m) :
    (spOrigExecute w m.globals (some f) run).out = (run (deeper m.globals)).out := by
  have hdepth : ¬ (m.globals.maxExecutionDepth > 0 ∧ m.globals.executionDepth + 1 > m.globals.maxExecutionDepth) := by
    rw [h.maxExecutionDepth]
    omega
  unfold spOrigExecute
  rw [if_neg hdepth]
  simp only [out_bind, out_emit, ok_bind]

/-- There are no rules on returns. -/
theorem Loaded.out_bodyAndReturn (h : Loaded t₀ policy m) :
    (bodyAndReturn w m.globals frame stack f run).out = (run (deeper m.globals)).out := by
  have hpatterns : m.globals.stores.disabledFunctionsRegRet = [] :=
    (h.partitioned.patterns true).trans (regexpRules_rulesOf policy true)
  have hfind : m.globals.stores.disabledFunctionsRet.find? (.str f) = none :=
    Option.eq_none_iff_forall_ne_some.mpr fun l hl => by
      obtain ⟨hne, rfl, -⟩ := (h.partitioned.inUnhooked true f l).mp hl
      exact hne (rulesFor_true_rulesOf policy f)
  unfold bodyAndReturn
  rw [out_bind, h.out_spOrigExecute, hpatterns]
  simp only [out_bind, out_pure, out_shouldDropOnRetHt, hfind, Option.getD_none, List.findSome?_nil]
  cases (run (deeper m.globals)).out <;> rfl

end User

/-- **User functions under a policy.** It is written to the files of a configuration, which are loaded after any history
of the process. The call of a function that is denied ends in the check: nothing is seen of its code. The code of any
other function gives what it gives by itself. -/
theorem user_functions_enforced (p : PhpProcess) (allowBroken : Bool) (t₀ : FunctionTable) (d₀ : IniDirectives)
    (w₀ : StreamWrappers) (l : List Event) {c : Context} {e : Environment} {newValue : ZendString}
    {files : List ZendString} {policyOf : ZendString → List Entry} (h : Holds c e newValue files policyOf)
    (hd : dumps p = false) : ∃ m m', Yields (history p l (freshModule allowBroken t₀ d₀ w₀)) m ∧
      Yields (spLoadConfig p e newValue m) (true, m') ∧
      ∀ (w : World) (frame : Frame) (stack : Stack) (f : ZendString) (run : SpGlobals → Sp Zval),
        UserCall t₀ frame stack f →
        if denies (files.flatMap policyOf) f then
          (spExecuteHandler w m'.globals m'.hooks false frame stack run).out = .error .drop ∧
          (spExecuteHandler w m'.globals m'.hooks false frame stack run).log =
            (shouldDisableHt w m'.globals ⟨frame :: stack, none⟩ f m'.globals.stores.disabledFunctionsReg
              m'.globals.stores.disabledFunctions).log
        else (spExecuteHandler w m'.globals m'.hooks false frame stack run).out =
          (run (deeper m'.globals)).out := by
  obtain ⟨m, m', hm, hload, hloaded⟩ := exists_loaded p allowBroken t₀ d₀ w₀ l h hd
  refine ⟨m, m', hm, hload, fun w frame stack f run hc => ?_⟩
  have hf := cstr_of_path hc.path
  have hinternal : m'.hooks.functionTable.typeOf f ≠ some .internal := hloaded.tracks.typeOf f ▸ hc.defined
  have hverdict := hloaded.out_shouldDisableHt hf hc.construct w frame stack
  rw [consulted, if_neg fun h => hinternal h.1] at hverdict
  rw [hloaded.spExecuteHandler_eq hc]
  split_ifs at hverdict ⊢ with hdenies hon hon
  · exact ⟨by rw [out_bind, hverdict, error_bind], log_bind_error hverdict _⟩
  · -- there are rules on the function
    have hwatched := hloaded.watched hf hc.construct (mem_of_denies hdenies)
    rw [Watched, if_neg hinternal] at hwatched
    exact absurd hwatched.1 hon
  · rw [out_bind, hverdict, ok_bind]
    exact hloaded.out_bodyAndReturn
  · exact hloaded.out_spOrigExecute

/-- The frame of a call of `backdoor`, a function of the script. -/
def backdoorFrame : Frame where
  func := some { type := .user, functionName := some (zstr "backdoor") }

theorem user_functions_enforced_sample : ∃ m m',
    Yields (history cliProcess [.load sampleFiles (zstr "b.rules"), .request]
      (freshModule false sampleHooks.functionTable .empty .empty)) m ∧
    Yields (spLoadConfig cliProcess sampleFiles (zstr "a.rules,b.rules") m) (true, m') ∧
    ∀ w run, (spExecuteHandler w m'.globals m'.hooks false backdoorFrame [] run).out = .error .drop := by
  obtain ⟨m, m', hm, hload, hcalls⟩ := user_functions_enforced cliProcess false sampleHooks.functionTable .empty .empty
    [.load sampleFiles (zstr "b.rules"), .request] holds_sample rfl
  have hcall : UserCall sampleHooks.functionTable backdoorFrame [] (zstr "backdoor") :=
    ⟨rfl, rfl, by decide, by decide, rfl⟩
  exact ⟨m, m', hm, hload, fun w run => (hcalls w backdoorFrame [] (zstr "backdoor") run hcall).1⟩

end Snuffleupagus.Policy.Enforcement
