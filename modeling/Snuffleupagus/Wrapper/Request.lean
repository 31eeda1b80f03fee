import Snuffleupagus.Hook.Survival
import Snuffleupagus.Wrapper.History

/-! # The wrappers a script registers

PHP gives a request its own copy of the table of wrappers as soon as the script changes something.
`stream_wrapper_register` adds a class of the script to it, `stream_wrapper_unregister` removes an entry,
and `stream_wrapper_restore` takes one over from the table of the process; the copy is discarded when the
request ends. The module hooks the first and the last of the three: a name that is not on the whitelist
is not registered, and `php` is restored to the wrapper of the module, which is put back into the table of
the process.

`Serving` says what holds at every point of a request, over all requests of a process: with a whitelist
in force every entry of the table in use is on it, and `php` is nobody else's (`OnWhitelist`). -/

namespace Snuffleupagus.Wrapper.Request

open Snuffleupagus.Lib.Effect Snuffleupagus.Lib.Table
open Snuffleupagus.Php.Bytes Snuffleupagus.Php.Engine Snuffleupagus.Config.Rule
open Snuffleupagus.Log hiding Event
open Snuffleupagus.Config.Keyword hiding spProcessRule
open Snuffleupagus.Hook.Table Snuffleupagus.Hook.Features Snuffleupagus.Hook.Survival
open Snuffleupagus.Hook.Dispatch hiding spLoadConfig Outcome
open Snuffleupagus.Hook.Unhook Snuffleupagus.Ini.Hook
open Snuffleupagus.Wrapper.Table Snuffleupagus.Load.Module Snuffleupagus.Load.Cases
open Snuffleupagus.Load.History Snuffleupagus.Wrapper.History

/-- A wrapper in the table of a request: one of the process, or a class of the script. -/
inductive Registered
  | own (s : StreamWrapper)
  | user (cls : ℕ)
  deriving DecidableEq

/-- The table of a request. -/
abbrev Registry := OrdTable ZendString Registered

/-- A request: the module, and `FG(stream_wrappers)`, the copy, once there is one. -/
structure RequestState where
  sp : SpModule
  streamWrappers : Option Registry := none

/-- `clone_wrapper_hash`. -/
def cloneWrapperHash (t : StreamWrappers) : Registry :=
  ⟨t.entries.map fun e => (e.1, .own e.2), by rw [List.map_map]; exact t.nodup⟩

/-- `php_stream_get_url_stream_wrappers_hash`: the table in use. -/
def RequestState.registered (r : RequestState) : Registry :=
  r.streamWrappers.getD (cloneWrapperHash r.sp.wrappers)

/-! ### The functions of PHP

The names PHP accepts are up to `schemeValidate`. -/

variable (schemeValidate : ZendString → Bool)

/-- `php_register_url_stream_wrapper_volatile`: a name that is there is left alone. -/
def phpRegisterVolatile (protocol : ZendString) (s : Registered) (r : RequestState) : RequestState :=
  if !schemeValidate protocol then r
  else
    match r.registered.find? protocol with
    | some _ => { r with streamWrappers := some r.registered }
    | none => { r with streamWrappers := some (r.registered.insert protocol s) }

/-- `php_unregister_url_stream_wrapper_volatile`. -/
def phpUnregisterVolatile (protocol : ZendString) (r : RequestState) : RequestState :=
  { r with streamWrappers := some (r.registered.erase protocol) }

/-- `stream_wrapper_register`, if the arguments can be parsed. -/
def phpStreamWrapperRegister (protocol : Option ZendString) (cls : Option ℕ) (r : RequestState) :
    RequestState :=
  match protocol, cls with
  | some protocol, some cls => phpRegisterVolatile schemeValidate protocol (.user cls) r
  | _, _ => r

/-- `stream_wrapper_unregister`. -/
def phpStreamWrapperUnregister (protocol : Option ZendString) (r : RequestState) : RequestState :=
  match protocol with
  | some protocol => phpUnregisterVolatile protocol r
  | none => r

/-- `stream_wrapper_restore`: there may be nothing to restore, or nothing to restore it from. -/
def phpStreamWrapperRestore (protocol : Option ZendString) (r : RequestState) : RequestState :=
  match protocol with
  | none => r
  | some protocol =>
    match r.sp.wrappers.find? protocol with
    | none => r
    | some s =>
      if r.streamWrappers.isNone || decide (r.registered.find? protocol = some (.own s)) then r
      else phpRegisterVolatile schemeValidate protocol (.own s) (phpUnregisterVolatile protocol r)

/-! ### The hooks -/

/-- `!strcasecmp(ZSTR_VAL(protocol_name), "php")`, if there is a name. -/
def isPhp (protocol : Option ZendString) : Bool := protocol.any fun s => equalsCi (cstr s) (zstr "php")

/-- `sp_stream_wrapper_register`. The handler it has saved is that of PHP. -/
def spStreamWrapperRegister (protocol : Option ZendString) (cls : Option ℕ) (r : RequestState) :
    RequestState :=
  if protocol.all (wrapperIsWhitelisted r.sp.globals) then
    -- reject manual loading of "php" wrapper
    if isPhp protocol && spPhpStreamIsFiltered r.sp.globals then r
    else phpStreamWrapperRegister schemeValidate protocol cls r
  else r

/-- `sp_stream_wrapper_restore`: what is re-registered is the entry of the process. -/
def spStreamWrapperRestore (w : World) (protocol : Option ZendString) (r : RequestState) :
    Sp RequestState := do
  let r := phpStreamWrapperRestore schemeValidate protocol r
  if isPhp protocol then
    let t ← spReregisterPhpWrapper w r.sp.globals r.sp.wrappers
    pure { r with sp := { r.sp with wrappers := t } }
  else pure r

/-! ### A run -/

/-- What a script does: it calls one of the three functions, or others. -/
inductive ScriptCall
  | register (protocol : Option ZendString) (cls : Option ℕ)
  | unregister (protocol : Option ZendString)
  | restore (protocol : Option ZendString)
  | others (calls : Calls)

/-- The handler that does the work of a call, behind the checks. -/
def workingHandler (h : Hooks) (f : ZendString) : Option ZifHandler :=
  match internalHandler h f with
  | some .evalBlacklistCallback =>
    match (h.saved .spEvalBlacklistFunctionsHook).find? f with
    | some .checkDisabledFunction => (h.saved .disabledFunctionsHook).find? f
    | handler => handler
  | some .checkDisabledFunction => (h.saved .disabledFunctionsHook).find? f
  | handler => handler

/-- One call. What a check drops ends the request, and is a shorter run. -/
def call (w : World) (r : RequestState) : ScriptCall → Sp RequestState
  | .register protocol cls =>
    match workingHandler r.sp.hooks (zstr "stream_wrapper_register") with
    | some .spStreamWrapperRegister => pure (spStreamWrapperRegister schemeValidate protocol cls r)
    | some (.php _) => pure (phpStreamWrapperRegister schemeValidate protocol cls r)
    | _ => pure r
  | .unregister protocol => pure (phpStreamWrapperUnregister protocol r)
  | .restore protocol =>
    match workingHandler r.sp.hooks (zstr "stream_wrapper_restore") with
    | some .spStreamWrapperRestore => spStreamWrapperRestore schemeValidate w protocol r
    | some (.php _) => pure (phpStreamWrapperRestore schemeValidate protocol r)
    | _ => pure r
  | .others calls => pure { r with sp := { r.sp with hooks := (exec calls r.sp.hooks).hooks } }

/-- A script, and what has happened between the requests before it. -/
structure Served where
  before : List Event
  world : World
  calls : List ScriptCall

variable (p : PhpProcess)

/-- The request at the end of the calls. -/
def request (m : SpModule) (c : Served) : Sp RequestState := do
  let m ← history p c.before m
  c.calls.foldlM (call schemeValidate c.world) { sp := rinitModule m }

/-- The copy is discarded when the request ends. -/
def serve (m : SpModule) (c : Served) : Sp SpModule := RequestState.sp <$> request schemeValidate p m c

/-- A point of the last request, after the requests `l`. -/
def reach (m : SpModule) (l : List Served) (c : Served) : Sp RequestState := do
  let m ← l.foldlM (serve schemeValidate p) m
  request schemeValidate p m c

/-! ### What is said about the table -/

/-- The configuration is in force, with a whitelist. -/
structure InForce (m : SpModule) : Prop where
  hooks : dumps p = false
  valid : m.isConfigValid = .valid
  enabled : m.globals.wrapper.enabled = true

/-- **What is registered is on the whitelist**, and with a list of streams `php` is the wrapper of the
module; no class of the script is registered under any spelling of it. -/
structure OnWhitelist (g : SpGlobals) (t : Registry) : Prop where
  whitelisted : ∀ k, (t.find? k).isSome = true → wrapperIsWhitelisted g k = true
  php : spPhpStreamIsFiltered g = true → ∀ s, t.find? (zstr "php") = some s → s = .own .spPhp
  spelling : spPhpStreamIsFiltered g = true → ∀ k cls, equalsCi k (zstr "php") = true →
    t.find? k ≠ some (.user cls)

/-! ### One entry -/

section Entry
variable {schemeValidate} {g : SpGlobals} {t : Registry} {k protocol : ZendString} {s : Registered}
  {r : RequestState}

theorem lookup_map_own : ∀ l : List (ZendString × StreamWrapper),
    OrdTable.lookup k (l.map fun e => (e.1, Registered.own e.2)) = (OrdTable.lookup k l).map .own
  | [] => rfl
  | (a, b) :: l => by
    rw [List.map_cons, OrdTable.lookup, OrdTable.lookup, lookup_map_own l]
    split_ifs <;> rfl

theorem find?_cloneWrapperHash (t : StreamWrappers) :
    (cloneWrapperHash t).find? k = (t.find? k).map .own := lookup_map_own t.entries

theorem OnWhitelist.erase (h : OnWhitelist g t) : OnWhitelist g (t.erase protocol) := by
  have hfind : ∀ k s, (t.erase protocol).find? k = some s → t.find? k = some s := by
    intro k s hs
    rw [OrdTable.find?_erase] at hs
    split_ifs at hs
    exact hs
  refine ⟨fun k hk => ?_, fun hf s hs => h.php hf s (hfind _ _ hs), fun hf k cls hk hs => ?_⟩
  · obtain ⟨s, hs⟩ := Option.isSome_iff_exists.mp hk
    exact h.whitelisted k (by rw [hfind k s hs]; rfl)
  · exact h.spelling hf k cls hk (hfind _ _ hs)

/-- An entry may be added if it is on the whitelist, and not another's under the name of `php`. -/
theorem OnWhitelist.insert (h : OnWhitelist g t) (hw : wrapperIsWhitelisted g protocol = true)
    (hp : spPhpStreamIsFiltered g = true → protocol = zstr "php" → s = .own .spPhp)
    (hs : spPhpStreamIsFiltered g = true → equalsCi protocol (zstr "php") = true →
      ∀ cls, s ≠ .user cls) : OnWhitelist g (t.insert protocol s) where
  whitelisted k hk := by
    rw [OrdTable.find?_insert] at hk
    split_ifs at hk with he
    · exact he ▸ hw
    · exact h.whitelisted k hk
  php hf s' hs' := by
    rw [OrdTable.find?_insert] at hs'
    split_ifs at hs' with he
    · exact Option.some.inj hs' ▸ hp hf he
    · exact h.php hf s' hs'
  spelling hf k cls hk heq := by
    rw [OrdTable.find?_insert] at heq
    split_ifs at heq with he
    · exact hs hf (he ▸ hk) cls (Option.some.inj heq)
    · exact h.spelling hf k cls hk heq

theorem sp_phpRegisterVolatile : (phpRegisterVolatile schemeValidate protocol s r).sp = r.sp := by
  unfold phpRegisterVolatile
  split_ifs
  · rfl
  · cases r.registered.find? protocol <;> rfl

/-- What registers an entry adds it or does nothing. -/
theorem OnWhitelist.register (h : OnWhitelist g r.registered)
    (hw : wrapperIsWhitelisted g protocol = true)
    (hp : spPhpStreamIsFiltered g = true → protocol = zstr "php" → s = .own .spPhp)
    (hs : spPhpStreamIsFiltered g = true → equalsCi protocol (zstr "php") = true → ∀ cls, s ≠ .user cls) :
    OnWhitelist g (phpRegisterVolatile schemeValidate protocol s r).registered := by
  unfold phpRegisterVolatile
  split_ifs
  · exact h
  · cases r.registered.find? protocol with
    | some _ => exact h
    | none => exact h.insert hw hp hs

theorem sp_phpStreamWrapperRegister (protocol : Option ZendString) (cls : Option ℕ) :
    (phpStreamWrapperRegister schemeValidate protocol cls r).sp = r.sp := by
  unfold phpStreamWrapperRegister
  split
  · exact sp_phpRegisterVolatile
  · rfl

theorem sp_spStreamWrapperRegister (protocol : Option ZendString) (cls : Option ℕ) :
    (spStreamWrapperRegister schemeValidate protocol cls r).sp = r.sp := by
  unfold spStreamWrapperRegister
  split_ifs
  · rfl
  · exact sp_phpStreamWrapperRegister protocol cls
  · rfl

theorem sp_phpStreamWrapperRestore (protocol : Option ZendString) :
    (phpStreamWrapperRestore schemeValidate protocol r).sp = r.sp := by
  cases protocol with
  | none => rfl
  | some protocol =>
    unfold phpStreamWrapperRestore
    dsimp only
    cases r.sp.wrappers.find? protocol with
    | none => rfl
    | some s =>
      dsimp only
      split_ifs
      · rfl
      · exact sp_phpRegisterVolatile

/-- What is restored is the entry of the process. -/
theorem OnWhitelist.restore (h : OnWhitelist g r.registered)
    (hown : OnWhitelist g (cloneWrapperHash r.sp.wrappers)) (protocol : Option ZendString) :
    OnWhitelist g (phpStreamWrapperRestore schemeValidate protocol r).registered := by
  cases protocol with
  | none => exact h
  | some protocol =>
    unfold phpStreamWrapperRestore
    dsimp only
    cases hs : r.sp.wrappers.find? protocol with
    | none => exact h
    | some s =>
      have hentry : (cloneWrapperHash r.sp.wrappers).find? protocol = some (.own s) := by
        rw [find?_cloneWrapperHash, hs]
        rfl
      dsimp only
      split_ifs
      · exact h
      · refine OnWhitelist.register (r := phpUnregisterVolatile protocol r) h.erase ?_ ?_ ?_
        · exact hown.whitelisted protocol (by rw [hentry]; rfl)
        · rintro hf rfl
          exact hown.php hf _ hentry
        · intro _ _ cls heq
          cases heq

theorem cstr_of_equalsCi {s t : ZendString} (h : equalsCi s t = true) (ht : 0 ∉ t.map toLower) :
    cstr s = s := by
  refine cstr_eq_self fun c hc h0 => ht ?_
  rw [← eq_of_beq h]
  exact List.mem_map.mpr ⟨c, hc, by rw [h0]; rfl⟩

/-- **What is registered by the hook** is on the whitelist, and is not `php` in any spelling. -/
theorem OnWhitelist.spRegister (h : OnWhitelist r.sp.globals r.registered) (protocol : Option ZendString)
    (cls : Option ℕ) : OnWhitelist r.sp.globals
      (spStreamWrapperRegister schemeValidate protocol cls r).registered := by
  unfold spStreamWrapperRegister
  split_ifs with hw hp
  · exact h
  · unfold phpStreamWrapperRegister
    split
    next protocol cls =>
      have hphp : spPhpStreamIsFiltered r.sp.globals = true → equalsCi protocol (zstr "php") = false := by
        intro hf
        rw [hf, Bool.and_true, isPhp, Option.any_some] at hp
        refine Bool.eq_false_iff.mpr fun he => hp ?_
        rw [cstr_of_equalsCi he (by decide)]
        exact he
      refine h.register hw ?_ ?_
      · rintro hf rfl
        cases hphp hf
      · intro hf he
        rw [hphp hf] at he
        cases he
    next => exact h
  · exact h

end Entry

/-! ### The process -/

section Process
variable {schemeValidate} {p : PhpProcess} {e : Environment} {allowBroken : Bool} {t₀ : FunctionTable}
  {d₀ : IniDirectives} {w₀ : StreamWrappers} {left : ZendString → Bool} {m m' : SpModule}
  {newValue : ZendString} {ok : Bool} {w : World}

/-- The hooks are there, if the functions are. -/
def WrapperHooked (p : PhpProcess) (t₀ : FunctionTable) (m : SpModule) : Prop :=
  InForce p m → ∀ e ∈ wrapperFunctions, t₀.typeOf e.1 = some .internal → Layered m.hooks e.1 e.2

theorem lookup_wrapperFunctions {g : SpGlobals} {e : ZendString × ZifHandler} (he : e ∈ wrapperFunctions)
    (hg : g.wrapper.enabled = true) : OrdTable.lookup e.1 (internalFunctions g) = some e.2 := by
  have hall : ∀ b₁ b₂ b₃ b₅ : Bool, ∀ e ∈ wrapperFunctions,
      OrdTable.lookup e.1 (featureFunctions b₁ arrayFunctions ++ (featureFunctions b₂ randFunctions ++
        (featureFunctions b₃ libxmlFunctions ++ (featureFunctions true wrapperFunctions ++
          (featureFunctions b₅ serializeFunctions ++ cookieFunctions))))) = some e.2 := by decide +kernel
  unfold internalFunctions
  rw [hg]
  exact hall _ _ _ _ e he

theorem plain_wrapperFunctions {e : ZendString × ZifHandler} (he : e ∈ wrapperFunctions) :
    (zstr "mb_").isPrefixOf e.1 = false ∧ e.1 ∉ arrayFunctions.map Prod.fst := by
  have hall : ∀ e ∈ wrapperFunctions, (zstr "mb_").isPrefixOf e.1 = false ∧
      e.1 ∉ arrayFunctions.map Prod.fst := by decide +kernel
  exact hall e he

theorem wrapperHooked_load (hr : Reached allowBroken t₀ m)
    (hy : Yields (spLoadConfig p e newValue m) (ok, m')) : WrapperHooked p t₀ m' := by
  intro hforce e' he hi
  cases hr.outcome hy with
  | failed _ => cases hforce.valid
  | dumped _ hdumps => cases hdumps.symm.trans hforce.hooks
  | @started g s d _ _ _ hs =>
    have henabled : g.wrapper.enabled = true := by
      rw [← hforce.enabled, hs.globals]
      rfl
    have hslot : (hookFeatures e.world g (resetModule m).hooks).functionTable.handlerOf e'.1 =
        some e'.2 := by
      rw [hr.reset.2, hookFeatures_eq, handlerOf_hookInternals _ (plain_wrapperFunctions he).1
        (distinct_internalFunctions g), if_pos hi, lookup_wrapperFunctions he henabled]
      rfl
    exact layered_hookDisabledFunctions hslot hs.hooked

theorem WrapperHooked.calls (hm : WrapperHooked p t₀ m) (calls : Calls) :
    WrapperHooked p t₀ { m with hooks := (exec calls m.hooks).hooks } := by
  intro hforce e he hi
  obtain ⟨hsaved, hslot⟩ := handlerOf_exec (plain_wrapperFunctions he).2 calls m.hooks
  exact (hm ⟨hforce.hooks, hforce.valid, hforce.enabled⟩ e he hi).congr hsaved hslot

theorem WrapperHooked.request (hm : WrapperHooked p t₀ m) : WrapperHooked p t₀ (rinitModule m) := by
  obtain ⟨_, _, _, hrinit⟩ := exists_rinitModule m
  rw [hrinit]
  exact fun hforce => hm ⟨hforce.hooks, hforce.valid, hforce.enabled⟩

/-- What is left of a table, looked at from the table itself. -/
theorem remaining_rebase (hm : Remaining p w₀ left m) : Remaining p m.wrappers (fun _ => true) m where
  others _ _ := rfl
  php := Or.inl rfl
  filtered hd hf := by
    show m.wrappers.find? (zstr "php") = (m.wrappers.find? (zstr "php")).map fun _ => .spPhp
    rw [hm.filtered hd hf, Option.map_map]
    rfl
  off := hm.off
  counted := hm.counted

/-- To re-register `php` does not matter. -/
theorem remaining_reregister {t : StreamWrappers} (hm : Remaining p m.wrappers (fun _ => true) m)
    (hy : Yields (spReregisterPhpWrapper w m.globals m.wrappers) t) :
    Remaining p t (fun _ => true) { m with wrappers := t } where
  others _ _ := rfl
  php := Or.inl rfl
  filtered hd hf := by
    show t.find? (zstr "php") = (t.find? (zstr "php")).map fun _ => .spPhp
    rw [find?_spReregisterPhpWrapper hy, if_pos ⟨hf, rfl⟩, Option.map_map]
    rfl
  off := hm.off
  counted hn k hk := by
    change (t.find? k).isSome = true at hk
    rw [find?_spReregisterPhpWrapper hy] at hk
    refine hm.counted hn k ?_
    split_ifs at hk
    · rw [Option.isSome_map] at hk
      exact hk
    · exact hk

/-- **What holds between the requests.** -/
structure Held (p : PhpProcess) (allowBroken : Bool) (t₀ : FunctionTable) (m : SpModule) : Prop where
  reached : Reached allowBroken t₀ m
  remaining : Remaining p m.wrappers (fun _ => true) m
  hooked : WrapperHooked p t₀ m

theorem held_freshModule : Held p allowBroken t₀ (freshModule allowBroken t₀ d₀ w₀) where
  reached := reached_freshModule
  remaining := remaining_freshModule
  hooked h := by cases h.valid

theorem Held.load (hm : Held p allowBroken t₀ m) (hy : Yields (spLoadConfig p e newValue m) (ok, m')) :
    Held p allowBroken t₀ m' where
  reached := hm.reached.load hy
  remaining := remaining_rebase (hm.remaining.load hm.reached hy)
  hooked := wrapperHooked_load hm.reached hy

theorem Held.calls (hm : Held p allowBroken t₀ m) (calls : Calls) :
    Held p allowBroken t₀ { m with hooks := (exec calls m.hooks).hooks } where
  reached := hm.reached.calls calls
  remaining := ⟨hm.remaining.others, hm.remaining.php, hm.remaining.filtered, hm.remaining.off,
    hm.remaining.counted⟩
  hooked := hm.hooked.calls calls

theorem Held.request (hm : Held p allowBroken t₀ m) : Held p allowBroken t₀ (rinitModule m) where
  reached := hm.reached.request
  remaining := remaining_rebase (hm.remaining.request hm.reached)
  hooked := hm.hooked.request

theorem Held.history {l : List Event} (hm : Held p allowBroken t₀ m) (hy : Yields (history p l m) m') :
    Held p allowBroken t₀ m' :=
  history_preserve (fun h hy => h.load hy) (fun calls _ h => h.calls calls) (fun h => h.request) hm hy

theorem Held.reregister {t : StreamWrappers} (hm : Held p allowBroken t₀ m)
    (hy : Yields (spReregisterPhpWrapper w m.globals m.wrappers) t) :
    Held p allowBroken t₀ { m with wrappers := t } where
  reached := ⟨hm.reached.tracks, hm.reached.freed, hm.reached.idle, hm.reached.none, hm.reached.tested⟩
  remaining := remaining_reregister hm.remaining hy
  hooked hforce := hm.hooked ⟨hforce.hooks, hforce.valid, hforce.enabled⟩

end Process

/-! ### A request -/

/-- **What holds at every point of a request.** -/
structure Serving (p : PhpProcess) (allowBroken : Bool) (t₀ : FunctionTable) (r : RequestState) : Prop where
  held : Held p allowBroken t₀ r.sp
  own : InForce p r.sp → OnWhitelist r.sp.globals (cloneWrapperHash r.sp.wrappers)
  registered : InForce p r.sp → OnWhitelist r.sp.globals r.registered

section Serving
variable {schemeValidate} {p : PhpProcess} {allowBroken : Bool} {t₀ : FunctionTable}
  {m : SpModule} {r r' : RequestState} {w : World}

/-- The table of the process is on the whitelist if its names are. -/
theorem onWhitelist_own (hm : Held p allowBroken t₀ m) (hforce : InForce p m)
    (hw : ∀ k, (m.wrappers.find? k).isSome = true → wrapperIsWhitelisted m.globals k = true) :
    OnWhitelist m.globals (cloneWrapperHash m.wrappers) where
  whitelisted k hk := by
    rw [find?_cloneWrapperHash, Option.isSome_map] at hk
    exact hw k hk
  php hf s hs := by
    have hphp : m.wrappers.find? (zstr "php") = (m.wrappers.find? (zstr "php")).map fun _ => .spPhp :=
      hm.remaining.filtered hforce.hooks hf
    rw [find?_cloneWrapperHash, hphp] at hs
    cases hx : m.wrappers.find? (zstr "php") with
    | none => rw [hx] at hs; cases hs
    | some x => rw [hx] at hs; cases hs; rfl
  spelling _ k cls _ heq := by
    rw [find?_cloneWrapperHash] at heq
    cases hx : m.wrappers.find? k with
    | none => rw [hx] at heq; cases heq
    | some x => rw [hx] at heq; cases heq

/-- **When a request starts**, the table is that of the process, and the whitelist has been applied. -/
theorem Held.serving (hm : Held p allowBroken t₀ m) : Serving p allowBroken t₀ { sp := rinitModule m } := by
  have hown : InForce p (rinitModule m) →
      OnWhitelist (rinitModule m).globals (cloneWrapperHash (rinitModule m).wrappers) := by
    intro hforce
    refine onWhitelist_own hm.request hforce fun k hk => ?_
    rw [isSome_wrappers (hm.remaining.request hm.reached), leftEntry_and] at hk
    split_ifs at hk with hallows
    · rw [← allows_rinitModule, allows, hforce.enabled] at hallows
      exact hallows
    · cases hk
  exact ⟨hm.request, hown, hown⟩

/-- The hook does the work of a call, if it is in force. -/
theorem workingHandler_eq (hr : Serving p allowBroken t₀ r) (hforce : InForce p r.sp)
    {e : ZendString × ZifHandler} (he : e ∈ wrapperFunctions) :
    workingHandler r.sp.hooks e.1 = some e.2 ∨ workingHandler r.sp.hooks e.1 = none := by
  have hne : e.2 ≠ .checkDisabledFunction ∧ e.2 ≠ .evalBlacklistCallback := by
    have hall : ∀ e ∈ wrapperFunctions, e.2 ≠ .checkDisabledFunction ∧ e.2 ≠ .evalBlacklistCallback := by
      decide +kernel
    exact hall e he
  unfold workingHandler internalHandler
  by_cases hi : r.sp.hooks.functionTable.typeOf e.1 = some .internal
  · left
    rw [if_pos hi]
    rw [hr.held.reached.tracks.typeOf] at hi
    cases hr.held.hooked hforce e he hi with
    | base hh => rw [hh]; split <;> simp_all
    | call hh hs => rw [hh]; exact hs
    | eval hh hs => rw [hh]; dsimp only; rw [hs]; split <;> simp_all
    | both hh hs hs' => rw [hh]; dsimp only; rw [hs]; exact hs'
  · right
    rw [if_neg hi]

/-- A call that leaves the module alone. -/
theorem Serving.copy (hr : Serving p allowBroken t₀ r) (hsp : r'.sp = r.sp)
    (h : InForce p r.sp → OnWhitelist r.sp.globals r'.registered) : Serving p allowBroken t₀ r' where
  held := hsp ▸ hr.held
  own := hsp ▸ hr.own
  registered := hsp ▸ h

/-- The entry of the process is restored, and re-registered. -/
theorem Serving.spRestore (hr : Serving p allowBroken t₀ r) (protocol : Option ZendString)
    (hy : Yields (spStreamWrapperRestore schemeValidate w protocol r) r') : Serving p allowBroken t₀ r' := by
  have hcopy : Serving p allowBroken t₀ (phpStreamWrapperRestore schemeValidate protocol r) :=
    hr.copy (sp_phpStreamWrapperRestore protocol) fun hforce =>
      (hr.registered hforce).restore (hr.own hforce) protocol
  unfold spStreamWrapperRestore at hy
  generalize phpStreamWrapperRestore schemeValidate protocol r = r₁ at hy hcopy
  dsimp only at hy
  split_ifs at hy
  · obtain ⟨t, ht, hy⟩ := yields_bind.mp hy
    cases yields_pure.mp hy
    have hheld := hcopy.held.reregister ht
    have hown : InForce p { r₁.sp with wrappers := t } →
        OnWhitelist r₁.sp.globals (cloneWrapperHash t) := by
      intro hforce
      have hforce₁ : InForce p r₁.sp := ⟨hforce.hooks, hforce.valid, hforce.enabled⟩
      refine onWhitelist_own (m := { r₁.sp with wrappers := t }) hheld hforce fun k hk => ?_
      change (t.find? k).isSome = true at hk
      refine (hcopy.own hforce₁).whitelisted k ?_
      rw [find?_cloneWrapperHash, Option.isSome_map]
      rw [find?_spReregisterPhpWrapper ht] at hk
      split_ifs at hk
      · rw [Option.isSome_map] at hk
        exact hk
      · exact hk
    refine ⟨hheld, hown, fun hforce => ?_⟩
    unfold RequestState.registered
    cases hc : r₁.streamWrappers with
    | none => exact hown hforce
    | some t' =>
      have hreg := hcopy.registered ⟨hforce.hooks, hforce.valid, hforce.enabled⟩
      unfold RequestState.registered at hreg
      rw [hc] at hreg
      exact hreg
  · cases yields_pure.mp hy
    exact hcopy

/-- **Every call keeps the table on the whitelist.** -/
theorem Serving.call {c : ScriptCall} (hr : Serving p allowBroken t₀ r)
    (hy : Yields (call schemeValidate w r c) r') : Serving p allowBroken t₀ r' := by
  have hmem : (zstr "stream_wrapper_register", ZifHandler.spStreamWrapperRegister) ∈ wrapperFunctions :=
    List.mem_cons_self
  have hmem' : (zstr "stream_wrapper_restore", ZifHandler.spStreamWrapperRestore) ∈ wrapperFunctions :=
    List.mem_cons_of_mem _ List.mem_cons_self
  cases c with
  | register protocol cls =>
    unfold Request.call at hy
    dsimp only at hy
    split at hy
    next =>
      cases yields_pure.mp hy
      exact hr.copy (sp_spStreamWrapperRegister protocol cls) fun hforce =>
        (hr.registered hforce).spRegister protocol cls
    next n hw =>
      -- the handler of PHP does the work: no configuration is in force
      cases yields_pure.mp hy
      refine hr.copy (sp_phpStreamWrapperRegister protocol cls) fun hforce => ?_
      rcases workingHandler_eq hr hforce hmem with h | h <;> cases hw.symm.trans h
    next =>
      cases yields_pure.mp hy
      exact hr
  | unregister protocol =>
    cases yields_pure.mp hy
    cases protocol with
    | none => exact hr
    | some protocol => exact hr.copy rfl fun hforce => (hr.registered hforce).erase
  | restore protocol =>
    unfold Request.call at hy
    dsimp only at hy
    split at hy
    next => exact hr.spRestore protocol hy
    next n hw =>
      cases yields_pure.mp hy
      refine hr.copy (sp_phpStreamWrapperRestore protocol) fun hforce => ?_
      rcases workingHandler_eq hr hforce hmem' with h | h <;> cases hw.symm.trans h
    next =>
      cases yields_pure.mp hy
      exact hr
  | others calls =>
    cases yields_pure.mp hy
    exact ⟨hr.held.calls calls, fun h => hr.own ⟨h.hooks, h.valid, h.enabled⟩,
      fun h => hr.registered ⟨h.hooks, h.valid, h.enabled⟩⟩

theorem Held.atRequest {c : Served} (hm : Held p allowBroken t₀ m)
    (hy : Yields (Request.request schemeValidate p m c) r) : Serving p allowBroken t₀ r := by
  obtain ⟨m', hh, hy⟩ := yields_bind.mp hy
  exact hy.foldlM (fun _ _ _ h hy => h.call hy) (hm.history hh).serving

theorem Held.serve {c : Served} {m' : SpModule} (hm : Held p allowBroken t₀ m)
    (hy : Yields (Request.serve schemeValidate p m c) m') : Held p allowBroken t₀ m' := by
  obtain ⟨r, hr, rfl⟩ := yields_map.mp hy
  exact (hm.atRequest hr).held

/-- **It holds at every point of every request.** -/
theorem Held.reach {l : List Served} {c : Served} (hm : Held p allowBroken t₀ m)
    (hy : Yields (Request.reach schemeValidate p m l c) r) : Serving p allowBroken t₀ r := by
  obtain ⟨m', hl, hy⟩ := yields_bind.mp hy
  exact (hl.foldlM (fun _ _ _ h hy => h.serve hy) hm).atRequest hy

end Serving

/-! ### Every run comes to its end -/

section Exists
variable (p : PhpProcess)

theorem exists_call (w : World) (r : RequestState) (c : ScriptCall) :
    ∃ r', Yields (call schemeValidate w r c) r' := by
  cases c with
  | register protocol cls =>
    unfold call
    dsimp only
    split <;> exact ⟨_, yields_pure.mpr rfl⟩
  | unregister protocol => exact ⟨_, yields_pure.mpr rfl⟩
  | restore protocol =>
    unfold call
    dsimp only
    split
    · unfold spStreamWrapperRestore
      dsimp only
      split_ifs
      · obtain ⟨t, ht⟩ := exists_yields_spReregisterPhpWrapper (w := w)
          (g := (phpStreamWrapperRestore schemeValidate protocol r).sp.globals)
          (phpStreamWrapperRestore schemeValidate protocol r).sp.wrappers
        exact ⟨_, yields_bind.mpr ⟨t, ht, yields_pure.mpr rfl⟩⟩
      · exact ⟨_, yields_pure.mpr rfl⟩
    · exact ⟨_, yields_pure.mpr rfl⟩
    · exact ⟨_, yields_pure.mpr rfl⟩
  | others calls => exact ⟨_, yields_pure.mpr rfl⟩

theorem exists_request (m : SpModule) (c : Served) : ∃ r, Yields (request schemeValidate p m c) r := by
  obtain ⟨m', hm⟩ := exists_history p c.before m
  obtain ⟨r, hr⟩ := exists_foldlM (exists_call schemeValidate c.world) c.calls { sp := rinitModule m' }
  exact ⟨r, yields_bind.mpr ⟨m', hm, hr⟩⟩

theorem exists_reach (m : SpModule) (l : List Served) (c : Served) :
    ∃ r, Yields (reach schemeValidate p m l c) r := by
  have hserve : ∀ m c, ∃ m', Yields (serve schemeValidate p m c) m' := by
    intro m c
    obtain ⟨r, hr⟩ := exists_request schemeValidate p m c
    exact ⟨r.sp, yields_map.mpr ⟨r, hr, rfl⟩⟩
  obtain ⟨m', hm⟩ := exists_foldlM hserve l m
  obtain ⟨r, hr⟩ := exists_request schemeValidate p m' c
  exact ⟨r, yields_bind.mpr ⟨m', hm, hr⟩⟩

end Exists

/-- **The table of a request is on the whitelist**, at every point of every request, if a configuration
with a whitelist is in force. -/
theorem registered_on_whitelist (p : PhpProcess) (allowBroken : Bool) (t₀ : FunctionTable)
    (d₀ : IniDirectives) (w₀ : StreamWrappers) (l : List Served) (c : Served) :
    ∃ r, Yields (reach schemeValidate p (freshModule allowBroken t₀ d₀ w₀) l c) r ∧
      (InForce p r.sp → OnWhitelist r.sp.globals r.registered) := by
  obtain ⟨r, hr⟩ := exists_reach schemeValidate p (freshModule allowBroken t₀ d₀ w₀) l c
  exact ⟨r, hr, (held_freshModule.reach hr).registered⟩

/-- `stream_wrapper_register` and `stream_wrapper_restore` are internal functions. -/
def wrapperTable : FunctionTable :=
  ⟨⟨[(zstr "stream_wrapper_register", ⟨.internal, .php 0⟩),
    (zstr "stream_wrapper_restore", ⟨.internal, .php 1⟩)], by decide⟩, by decide +kernel⟩

/-- `php`, with one kind of stream, is all that is allowed. -/
def onlyPhp : Environment :=
  ofRules [[keyword "wrappers_whitelist", strKeyword "list" "php", strKeyword "php_list" "memory"]]

/-- `php` is unregistered, a class takes its place under another spelling, and `php` is restored. -/
def respelled : List ScriptCall :=
  [.unregister (some (zstr "php")), .register (some (zstr "PHP")) (some 0),
    .register (some (zstr "http")) (some 0), .restore (some (zstr "php"))]

-- neither is registered, and `php` is the wrapper of the module again
example : ∃ r, Yields (reach (fun _ => true) cliProcess
      (freshModule false wrapperTable .empty phpAndHttp) []
      ⟨[.load onlyPhp (zstr "a.rules")], World.empty 80000, respelled⟩) r ∧
    (r.sp.isConfigValid = .valid ∧ r.sp.globals.wrapper.enabled = true) ∧
    r.streamWrappers.map OrdTable.entries = some [(zstr "php", .own .spPhp)] :=
  exists_of_yieldsA (by decide +kernel)

end Snuffleupagus.Wrapper.Request
