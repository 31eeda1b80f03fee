import Snuffleupagus.Hook.Survival
import Snuffleupagus.Load.Cookies

/-! # The secret key

`serialize` and `unserialize` read the secret for their HMAC, and the encryption of cookies and sessions
for its key. The parsers of `session` and `cookie` refuse to encrypt without a secret, and
`unserialize_hmac` alone does not hook anything without one. Together with `unserialize_noclass` it does:
then, and only then, the secret is missed (`key_present_iff`). -/

namespace Snuffleupagus.Load.Key

open Snuffleupagus.Lib.Effect Snuffleupagus.Lib.Table
open Snuffleupagus.Php.Bytes Snuffleupagus.Php.Value Snuffleupagus.Php.Engine Snuffleupagus.Config.Rule
open Snuffleupagus.Log hiding Event
open Snuffleupagus.Config.Keyword hiding spProcessRule
open Snuffleupagus.Config.Sound Snuffleupagus.Hook.Table Snuffleupagus.Hook.Stores
open Snuffleupagus.Hook.Dispatch hiding spLoadConfig Outcome
open Snuffleupagus.Hook.Unhook Snuffleupagus.Hook.Features Snuffleupagus.Hook.Survival
open Snuffleupagus.Ini.Hook Snuffleupagus.Wrapper.Table Snuffleupagus.Match.Value
open Snuffleupagus.Unserialize.Hmac Snuffleupagus.Unserialize.Handler Snuffleupagus.Crypt.Zval
open Snuffleupagus.Session.Handler Snuffleupagus.Cookie.Encryption
open Snuffleupagus.Load.Module Snuffleupagus.Load.Cases Snuffleupagus.Load.History
open Snuffleupagus.Load.Cookies

/-- `sp_load_config` hooks `serialize` and `unserialize`. -/
def hooksSerialize (g : SpGlobals) : Bool :=
  (g.encryptionKey.isSome && g.unserialize.enable) || g.unserializeNoclass.enable

/-- **The secret is there whenever it is read** by a hook that runs: `serialize` and `unserialize` take
the HMAC of something, `setcookie` and the start of a request generate a key, and so do the sessions.
`Layered` says that the handler of the module runs when a script calls the function. -/
structure KeyPresent (m : SpModule) : Prop where
  serialize : Layered m.hooks (zstr "serialize") .spSerialize → ∀ w ops s,
    Avoids .outOfBounds (spSerialize w m.globals ops s)
  unserialize : Layered m.hooks (zstr "unserialize") .spUnserialize → ∀ w ops buf opts,
    Avoids .outOfBounds (spUnserialize w m.globals m.hooks ops buf opts)
  setcookie : ∀ w c nonce serverVars a, Avoids .assertion (spSetcookie w m.globals c nonce serverVars a)
  cookies : ∀ w c cookies, Avoids .assertion (rinitCookies w c m cookies)
  sessionRead : ∀ w c (σ : Type) (ps : PsModule σ) key st,
    Avoids .assertion (spHookSRead w m.globals c ps key st)
  sessionWrite : ∀ w c (σ : Type) (ps : PsModule σ) nonce key val st,
    Avoids .assertion (spHookSWrite w m.globals c ps nonce key val st)

/-- Hooks are started, and both features are on without a secret. -/
def KeyMissing (p : PhpProcess) (t₀ : FunctionTable) (m : SpModule) : Prop :=
  t₀.typeOf (zstr "serialize") = some .internal ∧ dumps p = false ∧ m.isConfigValid = .valid ∧
    m.globals.encryptionKey = none ∧ m.globals.unserialize.enable = true ∧
    m.globals.unserializeNoclass.enable = true

/-! ### When `serialize` and `unserialize` are hooked -/

section Hooked
variable {p : PhpProcess} {e : Environment} {allowBroken : Bool} {t₀ : FunctionTable} {d₀ : IniDirectives}
  {w₀ : StreamWrappers} {m m' : SpModule} {newValue : ZendString} {ok : Bool} {f : ZendString}
  {b : ZifHandler}

/-- PHP's own handlers are none of the module. -/
def Foreign (t₀ : FunctionTable) : Prop := ∀ f a, t₀.handlerOf f = some a → isModule a = false

/-- **The two functions are hooked** exactly if they are internal, and the configuration asks for it. -/
def SerializeHooked (p : PhpProcess) (t₀ : FunctionTable) (m : SpModule) : Prop :=
  ∀ e ∈ serializeFunctions, Layered m.hooks e.1 e.2 ↔ t₀.typeOf e.1 = some .internal ∧
    dumps p = false ∧ m.isConfigValid = .valid ∧ hooksSerialize m.globals = true

/-- Without hooks no handler of the module runs. -/
theorem not_layered_idle (hphp : Foreign t₀) (hb : isModule b = true) :
    ¬ Layered { functionTable := t₀ } f b := by
  intro hl
  have hhandler : ∃ a, t₀.handlerOf f = some a ∧ isModule a = true := by
    cases hl with
    | base hh => exact ⟨b, hh, hb⟩
    | call hh _ => exact ⟨_, hh, rfl⟩
    | eval hh _ => exact ⟨_, hh, rfl⟩
    | both hh _ _ => exact ⟨_, hh, rfl⟩
  obtain ⟨a, ha, hm⟩ := hhandler
  rw [hphp f a ha] at hm
  cases hm

theorem isModule_of_serializeFunctions {e : ZendString × ZifHandler} (he : e ∈ serializeFunctions) :
    isModule e.2 = true ∧ (zstr "mb_").isPrefixOf e.1 = false ∧ e.1 ∉ arrayFunctions.map Prod.fst ∧
      e.2 ≠ .checkDisabledFunction ∧ e.2 ≠ .evalBlacklistCallback := by
  have hall : ∀ e ∈ serializeFunctions, isModule e.2 = true ∧ (zstr "mb_").isPrefixOf e.1 = false ∧
      e.1 ∉ arrayFunctions.map Prod.fst ∧ e.2 ≠ .checkDisabledFunction ∧ e.2 ≠ .evalBlacklistCallback := by
    decide +kernel
  exact hall e he

theorem serializeHooked_of_idle (hphp : Foreign t₀) (hh : m.hooks = { functionTable := t₀ })
    (hn : ¬ (dumps p = false ∧ m.isConfigValid = .valid)) : SerializeHooked p t₀ m := by
  intro e he
  refine iff_of_false ?_ fun h => hn ⟨h.2.1, h.2.2.1⟩
  rw [hh]
  exact not_layered_idle hphp (isModule_of_serializeFunctions he).1

/-- The handler a function has after the hooks of the features is the one under the layers. -/
theorem layered_started {g : SpGlobals} {s : Stores} {d : IniDirectives} {r : SpModule}
    (hs : StartedAs e r g s d m') (hh : r.hooks = { functionTable := t₀ }) {e' : ZendString × ZifHandler}
    (he : e' ∈ serializeFunctions) (hphp : Foreign t₀) :
    Layered m'.hooks e'.1 e'.2 ↔ t₀.typeOf e'.1 = some .internal ∧ hooksSerialize g = true := by
  obtain ⟨hm, hprefix, -, hne⟩ := isModule_of_serializeFunctions he
  have hslot : (hookFeatures e.world g r.hooks).functionTable.handlerOf e'.1 =
      if t₀.typeOf e'.1 = some .internal then
        (if hooksSerialize g = true then some e'.2 else none).or (t₀.handlerOf e'.1)
      else t₀.handlerOf e'.1 := by
    rw [hh, hookFeatures_eq, handlerOf_hookInternals _ hprefix (distinct_internalFunctions g),
      lookup_internalFunctions g he]
    rfl
  -- one handler is under the layers, and it is not PHP's own
  have hphp' : ∀ b, (hookFeatures e.world g r.hooks).functionTable.handlerOf e'.1 = some b →
      t₀.handlerOf e'.1 = some b → ¬ Layered m'.hooks e'.1 e'.2 := by
    intro b hb ht hl
    have hmod := hphp _ b ht
    have hb' : b ≠ .checkDisabledFunction ∧ b ≠ .evalBlacklistCallback := by
      constructor <;> rintro rfl <;> cases hmod
    rw [hl.unique (layered_hookDisabledFunctions hb hs.hooked) hne hb'] at hm
    rw [hm] at hmod
    cases hmod
  constructor
  · intro hl
    by_contra hn
    have hsame : (hookFeatures e.world g r.hooks).functionTable.handlerOf e'.1 = t₀.handlerOf e'.1 := by
      rw [hslot]
      by_cases hi : t₀.typeOf e'.1 = some .internal
      · rw [if_pos hi, if_neg fun hon => hn ⟨hi, hon⟩, Option.none_or]
      · rw [if_neg hi]
    cases ht : t₀.handlerOf e'.1 with
    | some b => exact hphp' b (hsame.trans ht) ht hl
    | none =>
      -- there is no such function
      have htype : m'.hooks.functionTable.typeOf e'.1 = none := by
        have hload := loading_hookDisabledFunctions (hh ▸ loading_hookFeatures e.world g t₀) hs.hooked
        rw [hload.typeOf, FunctionTable.typeOf, Option.map_eq_none_iff]
        exact Option.map_eq_none_iff.mp ht
      have hnone : m'.hooks.functionTable.handlerOf e'.1 = none :=
        Option.map_eq_none_iff.mpr (Option.map_eq_none_iff.mp htype)
      cases hl with
      | base h => cases hnone.symm.trans h
      | call h _ => cases hnone.symm.trans h
      | eval h _ => cases hnone.symm.trans h
      | both h _ _ => cases hnone.symm.trans h
  · rintro ⟨hi, hon⟩
    rw [if_pos hi, if_pos hon] at hslot
    exact layered_hookDisabledFunctions hslot hs.hooked

theorem serializeHooked_load (hphp : Foreign t₀) (hr : Reached allowBroken t₀ m)
    (hy : Yields (spLoadConfig p e newValue m) (ok, m')) : SerializeHooked p t₀ m' := by
  cases hr.outcome hy with
  | failed _ => exact serializeHooked_of_idle hphp hr.reset.2 fun h => by cases h.2
  | dumped _ hdumps => exact serializeHooked_of_idle hphp hr.reset.2 fun h => by cases hdumps.symm.trans h.1
  | started _ hdumps hs =>
    intro e' he
    have hglobals : hooksSerialize m'.globals = hooksSerialize _ := congrArg hooksSerialize hs.globals
    rw [layered_started hs hr.reset.2 he hphp, hglobals]
    exact ⟨fun h => ⟨h.1, hdumps, hs.isConfigValid, h.2⟩, fun h => ⟨h.1, h.2.2.2⟩⟩

/-- **It holds in every state reached.** -/
theorem serializeHooked_history (hphp : Foreign t₀) {l : List Event} (hr : Reached allowBroken t₀ m)
    (hm : SerializeHooked p t₀ m) (hy : Yields (history p l m) m') : SerializeHooked p t₀ m' := by
  refine hr.preserve (fun hr _ hy => serializeHooked_load hphp hr hy) (fun calls m hm => ?_)
    (fun {m} hm => ?_) hm hy
  · intro e' he
    obtain ⟨hsaved, hslot⟩ := handlerOf_exec (isModule_of_serializeFunctions he).2.2.1 calls m.hooks
    refine Iff.trans ⟨fun hl => ?_, fun hl => hl.congr hsaved hslot⟩ (hm e' he)
    exact hl.congr hsaved.symm hslot.symm
  · obtain ⟨_, _, _, hrinit⟩ := exists_rinitModule m
    rw [hrinit]
    exact hm

end Hooked

/-! ### What the handlers do without a secret -/

section Avoids
variable {w : World} {g : SpGlobals} {h : Hooks} {c : Crypto} {ops : Option Sha256} {r : Abort}

theorem avoids_spDoHashHmacSha256 (data key : ZendString) :
    Avoids .outOfBounds (spDoHashHmacSha256 w g ops data key) := by
  unfold spDoHashHmacSha256
  cases ops with
  | none => exact (avoids_spLogMsgf _ _ (by decide) (by decide) _ _ _ _ _).bind fun _ => avoids_pure _
  | some sha => exact avoids_pure _

theorem avoids_spSerialize (hk : g.unserialize.enable = true → g.encryptionKey.isSome = true)
    (s : ZendString) : Avoids .outOfBounds (spSerialize w g ops s) := by
  unfold spSerialize
  split_ifs with he
  · exact avoids_pure _
  · rw [Bool.not_eq_true', Bool.not_eq_false] at he
    obtain ⟨key, hkey⟩ := Option.isSome_iff_exists.mp (hk he)
    rw [hkey]
    refine (avoids_spDoHashHmacSha256 s key).bind fun hmac => ?_
    cases hmac with
    | none => exact avoids_abort (by decide)
    | some hmac =>
      dsimp only
      split_ifs
      · exact (avoids_spLogMsgf _ _ (by decide) (by decide) _ _ _ _ _).bind fun _ => avoids_abort (by decide)
      · exact avoids_pure _

theorem avoids_checkHmac (hk : g.encryptionKey.isSome = true) (buf : ZendString) (opts : Option HashTable) :
    Avoids .outOfBounds (checkHmac w g h ops buf opts) := by
  have hlog : ∀ level type fmt args, Avoids .outOfBounds (spLogMsgf w g "unserialize" level type fmt args) :=
    fun level type fmt args => avoids_spLogMsgf w g (by decide) (by decide) _ level type fmt args
  obtain ⟨key, hkey⟩ := Option.isSome_iff_exists.mp hk
  unfold checkHmac
  rw [hkey]
  by_cases hl : buf.length < 64
  · rw [if_pos hl]
    split_ifs
    · exact (hlog _ _ _ _).bind fun _ => avoids_pure _
    · exact (hlog _ _ _ _).bind fun _ => avoids_pure _
  · rw [if_neg hl]
    refine (avoids_spDoHashHmacSha256 _ key).bind fun hmac => ?_
    dsimp only
    split_ifs
    · exact avoids_pure _
    · refine Avoids.bind (Yields.avoids (out_spLogRequest _ _)) fun _ => ?_
      exact (hlog _ _ _ _).bind fun _ => avoids_pure _
    · refine Avoids.bind (Yields.avoids (out_spLogRequest _ _)) fun _ => ?_
      exact (hlog _ _ _ _).bind fun _ => avoids_pure _

/-- With `unserialize_noclass` there is no HMAC to take: the call ends before it. -/
theorem avoids_spUnserialize (hk : g.unserializeNoclass.enable = false → g.encryptionKey.isSome = true)
    (buf : ZendString) (opts : Option HashTable) :
    Avoids .outOfBounds (spUnserialize w g h ops buf opts) := by
  unfold spUnserialize
  split_ifs with he hphp
  · exact avoids_pure _
  · -- the drop does not return
    unfold Avoids
    rw [out_bind, out_spLogDrop]
    exact fun heq => by cases heq
  · exact avoids_checkHmac (hk (by simpa using he)) buf opts

theorem avoids_generateKey (hk : g.encryptionKey.isSome = true) : Avoids .assertion (generateKey w g c) := by
  obtain ⟨key, hkey⟩ := Option.isSome_iff_exists.mp hk
  unfold generateKey
  rw [hkey]
  dsimp only
  cases envVar w g with
  | some v => exact avoids_pure _
  | none =>
    have hfetch : Avoids .assertion (fetch g.cookiesEnvVar) := by
      cases g.cookiesEnvVar with
      | none => exact avoids_abort (by decide)
      | some name => exact avoids_pure name
    refine hfetch.bind fun name => ?_
    exact (avoids_spLogMsgf _ _ (by decide) (by decide) _ _ _ _ _).bind fun _ => avoids_pure _

theorem avoids_encryptZval (hk : g.encryptionKey.isSome = true) (nonce : Nonce) (data : ZendString) :
    Avoids .assertion (encryptZval w g c nonce data) := by
  unfold encryptZval
  refine (avoids_generateKey hk).bind fun key => ?_
  cases c.nacl.box nonce.bytes key (List.replicate zeroBytes 0 ++ (data ++ [0])) with
  | none => exact (avoids_spLogMsgf _ _ (by decide) (by decide) _ _ _ _ _).bind fun _ => avoids_pure _
  | some box => exact avoids_pure _

theorem avoids_decryptZval (hk : g.encryptionKey.isSome = true) (value : ZendString) (simulation : Bool)
    (hashKey : Option ZendString) : Avoids .assertion (decryptZval w g c value simulation hashKey) := by
  have hlog : ∀ level type fmt args,
      Avoids .assertion (spLogMsgf w g "cookie_encryption" level type fmt args) :=
    fun level type fmt args => avoids_spLogMsgf w g (by decide) (by decide) _ level type fmt args
  unfold decryptZval
  cases c.base64.decode value with
  | none => exact (hlog _ _ _ _).bind fun _ => avoids_pure _
  | some debase64 =>
    dsimp only
    split_ifs with h₁ h₂ h₃ h₄ h₅ h₆
    · exact (hlog _ _ _ _).bind fun _ => avoids_pure _
    · exact (hlog _ _ _ _).bind fun _ => avoids_pure _
    · exact (hlog _ _ _ _).bind fun _ => avoids_pure _
    · exact (hlog _ _ _ _).bind fun _ => avoids_pure _
    all_goals
      refine (avoids_generateKey hk).bind fun key => ?_
      cases c.nacl.open? (debase64.take nonceBytes) key (debase64.drop nonceBytes) with
      | none => exact (hlog _ _ _ _).bind fun _ => avoids_pure _
      | some decrypted => first | exact avoids_pure _ | exact avoids_abort (by decide)

theorem avoids_spLookupCookieConfig (key : ZendString) :
    Avoids .assertion (spLookupCookieConfig w g key) := by
  have hfrom : ∀ l : List SpCookie, Avoids .assertion (lookupCookieFrom w g key l) := by
    intro l
    induction l with
    | nil => exact avoids_pure _
    | cons config l ih =>
      refine (avoids_spMatchValue (by decide) (by decide) key config.name config.nameR).bind fun b => ?_
      cases b with
      | true => exact avoids_pure _
      | false => exact ih
  exact hfrom g.cookies

/-- A rule that is found is one of the configuration: if it encrypts, there is a secret. -/
theorem avoids_spSetcookie (hg : Tested g) (nonce : Nonce) (serverVars : Zval) (a : PhpSetcookie) :
    Avoids .assertion (spSetcookie w g c nonce serverVars a) := by
  unfold Avoids spSetcookie
  rw [out_bind]
  dsimp only
  cases hr : (spLookupCookieConfig w g a.name).out with
  | error r =>
    have havoid := avoids_spLookupCookieConfig (w := w) (g := g) a.name
    unfold Avoids at havoid
    rw [hr] at havoid
    exact fun heq => havoid (congrArg Except.error (Except.error.inj heq))
  | ok r =>
    refine Avoids.bind ?_ fun _ => avoids_pure _
    cases hcase : r with
    | none => exact avoids_pure _
    | some rule =>
      unfold applyRule
      dsimp only
      split_ifs with he
      · have hfind : g.cookies.find? (matchesName w a.name) = some rule :=
          (yields_spLookupCookieConfig hr).symm.trans hcase
        have hk := (hg.cookies rule (List.mem_of_find?_eq_some hfind) he).1
        cases a.value with
        | none => exact avoids_pure _
        | some value => exact (avoids_encryptZval hk nonce value).bind fun _ => avoids_pure _
      · exact avoids_pure _

theorem avoids_decryptCookies (cookies : OrdTable HashKey Zval) :
    Avoids .assertion (decryptCookies w g c cookies) := by
  unfold decryptCookies
  split_ifs with hon
  · obtain ⟨hk, -⟩ := (Bool.and_eq_true _ _).mp hon
    refine Avoids.foldlM (fun t entry => ?_) _ _
    have hcookie : Avoids .assertion (decryptCookie w g c entry.1 entry.2) := by
      unfold decryptCookie
      cases entry.1 with
      | idx i => exact avoids_pure _
      | str key =>
        refine (avoids_spLookupCookieConfig key).bind fun r => ?_
        cases r with
        | none => exact avoids_pure _
        | some rule =>
          dsimp only
          split_ifs
          · exact avoids_pure _
          · cases entry.2 with
            | string value =>
              dsimp only
              split_ifs
              · exact avoids_pure _
              · exact (avoids_decryptZval hk _ _ _).bind fun _ => avoids_pure _
            | _ => exact avoids_pure _
    refine Avoids.bind (hcookie.bind fun x => ?_) fun r => ?_
    · obtain ⟨ret, dest⟩ := x
      cases ret <;> exact avoids_pure _
    · cases r <;> exact avoids_pure _
  · exact avoids_pure _

theorem avoids_checkSidLength (key : Option ZendString) : Avoids .assertion (checkSidLength w g key) := by
  have hauto : ∀ fmt args, Avoids .assertion (spLogAuto w g "session" g.session.simulation fmt args) := by
    intro fmt args
    unfold spLogAuto
    split_ifs
    · exact avoids_spLogMsgf _ _ (by decide) (by decide) _ _ _ _ _
    · exact avoids_spLogMsgf _ _ (by decide) (by decide) _ _ _ _ _
  cases key with
  | none => exact avoids_pure _
  | some sid =>
    unfold checkSidLength
    refine Avoids.bind ?_ fun _ => ?_
    · unfold checkSidMinLength
      split_ifs
      · exact hauto _ _
      · exact avoids_pure _
    · unfold checkSidMaxLength
      split_ifs
      · exact hauto _ _
      · exact avoids_pure _

theorem avoids_readData (hg : Tested g) (b : Bool) (val : Option ZendString) :
    Avoids .assertion (readData w g c b val) := by
  cases val with
  | none => exact avoids_pure _
  | some val =>
    unfold readData
    dsimp only
    split_ifs with hnil he
    · exact avoids_pure _
    · have hk := (hg.session ((Bool.and_eq_true _ _).mp he).2).1
      refine (avoids_decryptZval hk _ _ _).bind fun x => ?_
      obtain ⟨ret, val⟩ := x
      cases ret with
      | keep => exact avoids_pure _
      | remove => exact avoids_abort (by decide)
    · exact avoids_pure _

theorem avoids_writeData (hg : Tested g) (nonce : Nonce) (val : ZendString) :
    Avoids .assertion (writeData w g c nonce val) := by
  unfold writeData
  split_ifs with he
  · exact avoids_encryptZval (hg.session ((Bool.and_eq_true _ _).mp he).2).1 nonce val
  · exact avoids_pure _

end Avoids

/-- Cookies and sessions never miss the secret, and the HMAC does not unless both features are on. -/
theorem keyPresent_of_hooked {p : PhpProcess} {t₀ : FunctionTable} {m : SpModule} (hg : Tested m.globals)
    (hm : SerializeHooked p t₀ m) (hn : ¬ KeyMissing p t₀ m) : KeyPresent m where
  serialize hl w ops s := by
    obtain ⟨hi, hd, hv, hon⟩ := (hm (zstr "serialize", .spSerialize) (by decide)).mp hl
    refine avoids_spSerialize (fun he => ?_) s
    cases hk : m.globals.encryptionKey with
    | some key => rfl
    | none =>
      unfold hooksSerialize at hon
      rw [hk, Option.isSome_none, Bool.false_and, Bool.false_or] at hon
      exact absurd ⟨hi, hd, hv, hk, he, hon⟩ hn
  unserialize hl w ops buf opts := by
    obtain ⟨-, -, -, hon⟩ := (hm (zstr "unserialize", .spUnserialize) (by decide)).mp hl
    refine avoids_spUnserialize (fun he => ?_) buf opts
    unfold hooksSerialize at hon
    rw [he, Bool.or_false, Bool.and_eq_true] at hon
    exact hon.1
  setcookie _ _ nonce serverVars a := avoids_spSetcookie hg nonce serverVars a
  cookies w c cookies := by
    unfold rinitCookies
    split_ifs
    · exact avoids_pure _
    · exact (avoids_spLogMsgf _ _ (by decide) (by decide) _ _ _ _ _).bind fun _ => avoids_abort (by decide)
    · exact (avoids_spLogMsgf _ _ (by decide) (by decide) _ _ _ _ _).bind fun _ => avoids_pure _
    · exact avoids_decryptCookies cookies
  sessionRead _ _ _ ps key st :=
    (avoids_checkSidLength key).bind fun _ => (avoids_readData hg _ _).bind fun _ => avoids_pure _
  sessionWrite _ _ _ ps nonce key val st :=
    (avoids_checkSidLength key).bind fun _ => (avoids_writeData hg nonce val).bind fun _ => avoids_pure _

/-- **When the secret is there whenever it is read**: always, unless `serialize` is hooked for
`unserialize_noclass`, and `unserialize_hmac` is on without a secret. -/
theorem key_present_iff (p : PhpProcess) (allowBroken : Bool) (t₀ : FunctionTable) (d₀ : IniDirectives)
    (w₀ : StreamWrappers) (hphp : Foreign t₀) (l : List Event) :
    ∃ m, Yields (history p l (freshModule allowBroken t₀ d₀ w₀)) m ∧
      (KeyPresent m ↔ ¬ KeyMissing p t₀ m) := by
  obtain ⟨m, hy⟩ := exists_history p l (freshModule allowBroken t₀ d₀ w₀)
  have hr : Reached allowBroken t₀ m := reached_freshModule.history hy
  have hm : SerializeHooked p t₀ m := by
    refine serializeHooked_history hphp reached_freshModule (serializeHooked_of_idle hphp rfl fun h => ?_) hy
    cases h.2
  refine ⟨m, hy, fun hkey => ?_, keyPresent_of_hooked hr.tested hm⟩
  rintro ⟨hi, hd, hv, hk, he, hnoclass⟩
  have hon : hooksSerialize m.globals = true := by
    unfold hooksSerialize
    rw [hnoclass, Bool.or_true]
  have hl := (hm (zstr "serialize", .spSerialize) (by decide)).mpr ⟨hi, hd, hv, hon⟩
  refine hkey.serialize hl (World.empty 80000) none [] ?_
  unfold spSerialize
  rw [he, hk]
  rfl

theorem nodup_serialize :
    ([(zstr "serialize", (⟨.internal, .php 0⟩ : FunctionEntry))].map Prod.fst).Nodup := List.nodup_singleton _

/-- `serialize` is an internal function. -/
def serializeTable : FunctionTable :=
  ⟨⟨[(zstr "serialize", ⟨.internal, .php 0⟩)], nodup_serialize⟩, by decide +kernel⟩

theorem foreign_serializeTable : Foreign serializeTable := fun _ _ => isModule_of_entries (by decide)

/-- Both features, and no secret. -/
def hmacWithoutSecret : Environment :=
  ofRules [[keyword "unserialize_noclass", emptyKeyword "enable"],
    [keyword "unserialize_hmac", emptyKeyword "enable"]]

theorem key_present_iff_sample :
    ∃ m, Yields (history cliProcess [.load hmacWithoutSecret (zstr "a.rules"), .request]
        (freshModule false serializeTable .empty .empty)) m ∧
      (KeyPresent m ↔ ¬ KeyMissing cliProcess serializeTable m) :=
  key_present_iff cliProcess false serializeTable .empty .empty foreign_serializeTable
    [.load hmacWithoutSecret (zstr "a.rules"), .request]

/-- A script calls `serialize`: its handler takes an HMAC with a secret that is not there. -/
theorem serialize_without_secret :
    ∃ r, Yields (spLoadConfig cliProcess hmacWithoutSecret (zstr "a.rules")
        (freshModule false serializeTable .empty .empty)) r ∧
      (r.1 = true ∧ r.2.globals.encryptionKey = none ∧
        r.2.hooks.functionTable.handlerOf (zstr "serialize") = some .spSerialize ∧
        (spSerialize (World.empty 80000) r.2.globals none (zstr "i:1;")).out = .error .outOfBounds) :=
  exists_of_yieldsA (by decide +kernel)

end Snuffleupagus.Load.Key
