import Snuffleupagus.Hook.Dispatch
import Snuffleupagus.Hook.Unhook
import Snuffleupagus.Unserialize.Handler

/-! # The hooks of the features

Each feature hooks a few functions of PHP, and keeps their handlers in `sp_internal_functions_hook`.
The rules and the blacklist of `eval` are hooked after them, in tables of their own. `Loading` says what
holds while a table is being filled; a hook keeps it (`Loading.hook`), if the table has not saved the
function yet. The calls of a script change the slots of functions that the first table has saved, and
nothing else (`touch_exec`). -/

namespace Snuffleupagus.Hook.Features

open Snuffleupagus.Lib.Effect Snuffleupagus.Lib.Table Snuffleupagus.Php.Bytes Snuffleupagus.Php.Engine
open Snuffleupagus.Config.Rule Snuffleupagus.Log Snuffleupagus.Hook.Table Snuffleupagus.Hook.Stores
open Snuffleupagus.Hook.Dispatch Snuffleupagus.Hook.Unhook Snuffleupagus.Unserialize.Handler

variable (w : World) (g : SpGlobals)

/-- Hook a function for a feature. -/
def hookInternal (h : Hooks) (e : ZendString × ZifHandler) : Hooks :=
  (hookFunction w e.1 .spInternalFunctionsHook e.2 h).2

/-- Hook the functions of a feature. -/
def hookInternals (l : List (ZendString × ZifHandler)) (h : Hooks) : Hooks := l.foldl (hookInternal w) h

/-- The functions of `harden_random`. -/
def randFunctions : List (ZendString × ZifHandler) :=
  [(zstr "rand", .spRand), (zstr "mt_rand", .spMtRand)]

/-- `hook_rand`. -/
def hookRand (h : Hooks) : Hooks := hookInternals w randFunctions h

/-- The functions of `xxe_protection`. -/
def libxmlFunctions : List (ZendString × ZifHandler) :=
  [(zstr "libxml_disable_entity_loader", .spLibxmlDisableEntityLoader),
    (zstr "libxml_set_external_entity_loader", .spLibxmlSetExternalEntityLoader)]

/-- `hook_libxml_disable_entity_loader`. -/
def hookLibxmlDisableEntityLoader (h : Hooks) : Hooks := hookInternals w libxmlFunctions h

/-- The functions of `wrappers_whitelist`. -/
def wrapperFunctions : List (ZendString × ZifHandler) :=
  [(zstr "stream_wrapper_register", .spStreamWrapperRegister),
    (zstr "stream_wrapper_restore", .spStreamWrapperRestore)]

/-- `hook_stream_wrappers`, as far as the functions go. -/
def hookStreamWrappers (h : Hooks) : Hooks := hookInternals w wrapperFunctions h

/-- The function of the cookies. -/
def cookieFunctions : List (ZendString × ZifHandler) := [(zstr "setcookie", .spSetcookie)]

/-- `hook_cookies`. -/
def hookCookies (h : Hooks) : Hooks := hookInternals w cookieFunctions h

/-- The features of `sp_load_config` that hook functions, in their order. -/
def hookFeatures (h : Hooks) : Hooks :=
  let h := if g.sloppy then hookSloppy w h else h
  let h := if g.random then hookRand w h else h
  let h := if g.xxeProtection then hookLibxmlDisableEntityLoader w h else h
  let h := if g.wrapper.enabled then hookStreamWrappers w h else h
  let h := loadSerialize w g h
  hookCookies w h

/-! ### The functions hooked -/

/-- The functions of `unserialize_hmac` and `unserialize_noclass`. -/
def serializeFunctions : List (ZendString × ZifHandler) :=
  [(zstr "serialize", .spSerialize), (zstr "unserialize", .spUnserialize)]

/-- The functions of a feature, if it is on. -/
def featureFunctions (enable : Bool) (l : List (ZendString × ZifHandler)) :
    List (ZendString × ZifHandler) :=
  if enable then l else []

/-- All functions hooked for a feature. -/
def internalFunctions : List (ZendString × ZifHandler) :=
  featureFunctions g.sloppy arrayFunctions ++ (featureFunctions g.random randFunctions ++
    (featureFunctions g.xxeProtection libxmlFunctions ++
      (featureFunctions g.wrapper.enabled wrapperFunctions ++
        (featureFunctions ((g.encryptionKey.isSome && g.unserialize.enable) || g.unserializeNoclass.enable)
          serializeFunctions ++ cookieFunctions))))

/-- All functions there are hooks for. -/
def knownFunctions : List (ZendString × ZifHandler) :=
  arrayFunctions ++ (randFunctions ++ (libxmlFunctions ++ (wrapperFunctions ++
    (serializeFunctions ++ cookieFunctions))))

theorem hookInternals_featureFunctions (enable : Bool) (l : List (ZendString × ZifHandler)) (h : Hooks) :
    hookInternals w (featureFunctions enable l) h = if enable then hookInternals w l h else h := by
  cases enable <;> rfl

theorem hookInternals_append (l l' : List (ZendString × ZifHandler)) (h : Hooks) :
    hookInternals w (l ++ l') h = hookInternals w l' (hookInternals w l h) := List.foldl_append

theorem hookFeatures_eq (h : Hooks) : hookFeatures w g h = hookInternals w (internalFunctions g) h := by
  unfold internalFunctions
  simp only [hookInternals_append, hookInternals_featureFunctions]
  rfl

theorem featureFunctions_sublist (enable : Bool) (l : List (ZendString × ZifHandler)) :
    (featureFunctions enable l).Sublist l := by
  cases enable
  · exact List.nil_sublist l
  · exact List.Sublist.refl l

theorem internalFunctions_sublist : (internalFunctions g).Sublist knownFunctions :=
  (featureFunctions_sublist _ _).append <| (featureFunctions_sublist _ _).append <|
    (featureFunctions_sublist _ _).append <| (featureFunctions_sublist _ _).append <|
      (featureFunctions_sublist _ _).append (List.Sublist.refl _)

/-- Names that are distinct and are no twins, with handlers of the module. -/
structure Distinct (l : List (ZendString × ZifHandler)) : Prop where
  nodup : (l.map Prod.fst).Nodup
  isPrefix : ∀ e ∈ l, (zstr "mb_").isPrefixOf e.1 = false
  isModule : ∀ e ∈ l, isModule e.2 = true

theorem distinct_knownFunctions : Distinct knownFunctions :=
  ⟨by decide +kernel, by decide +kernel, by decide +kernel⟩

theorem distinct_internalFunctions : Distinct (internalFunctions g) where
  nodup := distinct_knownFunctions.nodup.sublist ((internalFunctions_sublist g).map Prod.fst)
  isPrefix e he := distinct_knownFunctions.isPrefix e ((internalFunctions_sublist g).subset he)
  isModule e he := distinct_knownFunctions.isModule e ((internalFunctions_sublist g).subset he)

/-! ### The handlers of the functions hooked -/

/-- The twin of a name that is none itself. -/
theorem mbTwin_eq {w : World} {e k : ZendString} (he : (zstr "mb_").isPrefixOf e = false)
    (hk : mbTwin w e = some k) : k = zstr "mb_" ++ e := by
  unfold mbTwin at hk
  rw [he] at hk
  cases hm : w.multibyte with
  | false => rw [hm] at hk; cases hk
  | true => rw [hm] at hk; exact (Option.some.inj hk).symm

theorem ne_append_mb {e e' : ZendString} (he : (zstr "mb_").isPrefixOf e = false) :
    e ≠ zstr "mb_" ++ e' := by
  rintro rfl
  rw [List.isPrefixOf_iff_prefix.mpr (List.prefix_append _ _)] at he
  cases he

/-- The slot of a function that is no twin, after the functions of `l` have been hooked. -/
theorem handlerOf_hookInternals {f : ZendString} (hf : (zstr "mb_").isPrefixOf f = false)
    {l : List (ZendString × ZifHandler)} {h : Hooks} (hd : Distinct l) :
    (hookInternals w l h).functionTable.handlerOf f =
      if h.functionTable.typeOf f = some .internal then
        (OrdTable.lookup f l).or (h.functionTable.handlerOf f)
      else h.functionTable.handlerOf f := by
  refine handlerOf_foldl hd.nodup (fun e _ h => typeOf_hookFunction) fun e he h => ?_
  have htwin : mbTwin w e.1 ≠ some f := fun hk => ne_append_mb hf (mbTwin_eq (hd.isPrefix e he) hk)
  unfold hookInternal
  rw [handlerOf_hookFunction]
  simp only [htwin, or_false]

/-- **`serialize` and `unserialize`** are hooked under the condition of `sp_load_config`. -/
theorem lookup_internalFunctions {e : ZendString × ZifHandler} (he : e ∈ serializeFunctions) :
    OrdTable.lookup e.1 (internalFunctions g) =
      if (g.encryptionKey.isSome && g.unserialize.enable) || g.unserializeNoclass.enable then some e.2
      else none := by
  have hall : ∀ b₁ b₂ b₃ b₄ b₅ : Bool, ∀ e ∈ serializeFunctions,
      OrdTable.lookup e.1 (featureFunctions b₁ arrayFunctions ++ (featureFunctions b₂ randFunctions ++
        (featureFunctions b₃ libxmlFunctions ++ (featureFunctions b₄ wrapperFunctions ++
          (featureFunctions b₅ serializeFunctions ++ cookieFunctions))))) =
        if b₅ then some e.2 else none := by decide +kernel
  exact hall _ _ _ _ _ e he

/-! ### The blacklist of `eval` -/

/-- A name of the list is that of the function, or of its twin. -/
def NamedBy (l : List ZendString) (f : ZendString) : Prop :=
  ∃ name ∈ l, cstr name = f ∨ mbTwin w (cstr name) = some f

/-- **The callback of the blacklist** is in the slots of the internal functions it names, and every other
slot is as before. -/
theorem handlerOf_hookEvalBlacklist (h : Hooks) (f : ZendString) :
    (NamedBy w g.eval.blacklist f ∧ h.functionTable.typeOf f = some .internal →
      (hookEvalBlacklist w g h).functionTable.handlerOf f = some .evalBlacklistCallback) ∧
    (¬ (NamedBy w g.eval.blacklist f ∧ h.functionTable.typeOf f = some .internal) →
      (hookEvalBlacklist w g h).functionTable.handlerOf f = h.functionTable.handlerOf f) := by
  unfold hookEvalBlacklist
  induction g.eval.blacklist generalizing h with
  | nil =>
    refine ⟨?_, fun _ => rfl⟩
    rintro ⟨⟨name, hn, -⟩, -⟩
    cases hn
  | cons name l ih =>
    rw [List.foldl_cons]
    obtain ⟨hin, hout⟩ :=
      ih (hookFunction w (cstr name) .spEvalBlacklistFunctionsHook .evalBlacklistCallback h).2
    rw [typeOf_hookFunction] at hin hout
    have hslot : (hookFunction w (cstr name) .spEvalBlacklistFunctionsHook .evalBlacklistCallback
        h).2.functionTable.handlerOf f =
        if (cstr name = f ∨ mbTwin w (cstr name) = some f) ∧ h.functionTable.typeOf f = some .internal then
          some .evalBlacklistCallback
        else h.functionTable.handlerOf f := handlerOf_hookFunction
    constructor
    · rintro ⟨⟨name', hn, hf⟩, hi⟩
      by_cases hl : NamedBy w l f
      · exact hin ⟨hl, hi⟩
      rw [hout fun hc => hl hc.1, hslot, if_pos]
      rcases List.mem_cons.mp hn with rfl | hn
      · exact ⟨hf, hi⟩
      · exact absurd ⟨name', hn, hf⟩ hl
    · intro hc
      rw [hout fun hl => hc ⟨?_, hl.2⟩, hslot, if_neg]
      · exact fun hn => hc ⟨⟨name, List.mem_cons_self, hn.1⟩, hn.2⟩
      · obtain ⟨⟨name', hn, hf⟩, -⟩ := hl
        exact ⟨name', List.mem_cons_of_mem _ hn, hf⟩

/-- No slot holds the handler. -/
def Lacks (a : ZifHandler) (h : Hooks) : Prop := ∀ f, h.functionTable.handlerOf f ≠ some a

theorem Lacks.hook {w : World} {a new : ZifHandler} {h : Hooks} {name : ZendString} {t : HookTable}
    (hl : Lacks a h) (hne : new ≠ a) : Lacks a (hookFunction w name t new h).2 := by
  intro f
  rw [handlerOf_hookFunction]
  split_ifs
  · exact fun heq => hne (Option.some.inj heq)
  · exact hl f

theorem lacks_hookInternals {w : World} {a : ZifHandler} : ∀ {l : List (ZendString × ZifHandler)} {h : Hooks},
    (∀ e ∈ l, e.2 ≠ a) → Lacks a h → Lacks a (hookInternals w l h)
  | [], _, _, hl => hl
  | e :: l, h, hne, hl => by
    refine lacks_hookInternals (h := hookInternal w h e) (fun e he => hne e (List.mem_cons_of_mem _ he)) ?_
    exact hl.hook (hne e List.mem_cons_self)

/-- The callback is in no slot before the blacklist is hooked. -/
theorem lacks_hookFeatures {w : World} {g : SpGlobals} {h : Hooks} (hl : Lacks .evalBlacklistCallback h) :
    Lacks .evalBlacklistCallback (hookFeatures w g h) := by
  have hall : ∀ e ∈ knownFunctions, e.2 ≠ .evalBlacklistCallback := by decide +kernel
  rw [hookFeatures_eq]
  exact lacks_hookInternals (fun e he => hall e ((internalFunctions_sublist g).subset he)) hl

/-- **The slots with the callback** after all hooks. -/
theorem evalBlacklistCallback_iff {w : World} {g : SpGlobals} {s s' : Stores} {h h' : Hooks} {f : ZendString}
    (hl : Lacks .evalBlacklistCallback h) (hy : Yields (hookDisabledFunctions w g s h) (s', h')) :
    h'.functionTable.handlerOf f = some .evalBlacklistCallback ↔
      NamedBy w g.eval.blacklist f ∧ h.functionTable.typeOf f = some .internal := by
  unfold hookDisabledFunctions at hy
  obtain ⟨⟨s₁, h₁⟩, hrules, hy⟩ := yields_bind.mp hy
  cases yields_pure.mp hy
  have hcheck := checkSteps_hookRules hrules
  have hl₁ : Lacks .evalBlacklistCallback h₁ :=
    hcheck.preserve _ (fun _ _ hl => hl.hook (by decide)) hl
  obtain ⟨hin, hout⟩ := handlerOf_hookEvalBlacklist w g h₁ f
  rw [hcheck.typeOf] at hin hout
  refine ⟨fun hf => ?_, hin⟩
  by_contra hn
  rw [hout hn] at hf
  exact hl₁ f hf

/-! ### While a table is being filled -/

section Loading
variable {w g} {t₀ : FunctionTable} {t : HookTable} {h h' : Hooks} {new : ZifHandler} {name : ZendString}

/-- **The table `t` is being filled**: the later ones are empty, and what any has saved is hooked. -/
structure Loading (t₀ : FunctionTable) (t : HookTable) (h : Hooks) : Prop extends Tracks t₀ h where
  above : ∀ t' f, rank t < rank t' → (h.saved t').find? f = none
  wrapped : ∀ t' f a, (h.saved t').find? f = some a →
    ∃ b, h.functionTable.handlerOf f = some b ∧ isModule b = true

theorem loading_initial (t₀ : FunctionTable) :
    Loading t₀ .spInternalFunctionsHook { functionTable := t₀ } where
  toTracks := tracks_initial t₀
  above _ _ _ := rfl
  wrapped _ _ _ hs := by cases hs

/-- The next table. -/
theorem Loading.next (hl : Loading t₀ t h) {t' : HookTable} (ht : rank t ≤ rank t') : Loading t₀ t' h where
  toTracks := hl.toTracks
  above t'' f hlt := hl.above t'' f (lt_of_le_of_lt ht hlt)
  wrapped := hl.wrapped

theorem keys_hookFunctionRaw : (hookFunctionRaw name t new h).2.functionTable.table.keys =
    h.functionTable.table.keys := by
  unfold hookFunctionRaw
  cases h.functionTable.find? name with
  | none => rfl
  | some func =>
    dsimp only
    split_ifs
    · rfl
    · rfl
    · exact FunctionTable.keys_setHandler _ _ _

theorem keys_hookFunction : (hookFunction w name t new h).2.functionTable.table.keys =
    h.functionTable.table.keys := by
  unfold hookFunction
  cases mbTwin w name with
  | none => exact keys_hookFunctionRaw
  | some twin => exact keys_hookFunctionRaw.trans keys_hookFunctionRaw

/-- A handler that is saved in a table is the one before, if the later tables have none. -/
theorem original_hook {f : ZendString} {old : ZifHandler} (hold : h.functionTable.handlerOf f = some old)
    (hs : (h'.saved t).find? f = some old)
    (hother : ∀ t' ≠ t, (h'.saved t').find? f = (h.saved t').find? f)
    (hn : ∀ t', rank t ≤ rank t' → (h.saved t').find? f = none) : original h' f = original h f := by
  unfold original
  rw [hold]
  cases t with
  | spInternalFunctionsHook =>
    rw [hs, hn .spInternalFunctionsHook (by decide), hn .disabledFunctionsHook (by decide),
      hn .spEvalBlacklistFunctionsHook (by decide)]
    rfl
  | disabledFunctionsHook =>
    rw [hs, hother .spInternalFunctionsHook (by decide), hn .disabledFunctionsHook (by decide),
      hn .spEvalBlacklistFunctionsHook (by decide)]
    rfl
  | spEvalBlacklistFunctionsHook =>
    rw [hs, hother .spInternalFunctionsHook (by decide), hother .disabledFunctionsHook (by decide),
      hn .spEvalBlacklistFunctionsHook (by decide)]
    rfl

/-- **A hook keeps this**, if the table has not saved the function yet. -/
theorem Loading.hook (hl : Loading t₀ t h) (hm : isModule new = true)
    (hfresh : ∀ k, name = k ∨ mbTwin w name = some k → h.functionTable.handlerOf k ≠ some new →
      (h.saved t).find? k = none) : Loading t₀ t (hookFunction w name t new h).2 := by
  have hcases := hookFunction_cases w name t new h
  -- what a replaced function has saved before
  have hnone : ∀ k, h.functionTable.handlerOf k ≠ some new → (name = k ∨ mbTwin w name = some k) →
      ∀ t', rank t ≤ rank t' → (h.saved t').find? k = none := by
    intro k hne hk t' hle
    rcases Nat.lt_or_eq_of_le hle with hlt | heq
    · exact hl.above t' k hlt
    · have : t = t' := by cases t <;> cases t' <;> first | rfl | cases heq
      exact this ▸ hfresh k hk hne
  refine { keys := keys_hookFunction.trans hl.keys
           typeOf := fun f => typeOf_hookFunction.trans (hl.typeOf f)
           internal := ?_, original := ?_, later := ?_, above := ?_, wrapped := ?_ }
  · intro t' f a hs
    rcases hcases f with ⟨-, hsame⟩ | ⟨old, -, -, hi, -, -, -, hother⟩
    · exact hl.internal t' f a ((hsame t').symm.trans hs)
    · exact (hl.typeOf f).symm.trans hi
  · intro f
    rcases hcases f with ⟨hh, hsame⟩ | ⟨old, hold, hne, -, hk, hh, hs, hother⟩
    · rw [← hl.original f]
      unfold original
      rw [hh, hsame, hsame, hsame]
    · have hn := hnone f (fun e => hne (Option.some.inj (hold.symm.trans e))) hk
      exact (original_hook hold hs hother hn).trans (hl.original f)
  · intro t₁ t₂ f a b hlt h₁ h₂
    rcases hcases f with ⟨-, hsame⟩ | ⟨old, hold, hne, -, hk, hh, hs, hother⟩
    · exact hl.later t₁ t₂ f a b hlt ((hsame t₁).symm.trans h₁) ((hsame t₂).symm.trans h₂)
    · have hn := hnone f (fun e => hne (Option.some.inj (hold.symm.trans e))) hk
      by_cases ht₂ : t₂ = t
      · -- what is saved now is the handler of an earlier table
        subst ht₂
        have ht₁ : t₁ ≠ t₂ := fun e => by rw [e] at hlt; exact lt_irrefl _ hlt
        obtain ⟨c, hc, hmod⟩ := hl.wrapped t₁ f a ((hother t₁ ht₁).symm.trans h₁)
        rw [hs] at h₂
        cases h₂
        cases hold.symm.trans hc
        exact hmod
      · have h₂' := (hother t₂ ht₂).symm.trans h₂
        by_cases ht₁ : t₁ = t
        · subst ht₁
          rw [hn t₂ hlt.le] at h₂'
          cases h₂'
        · exact hl.later t₁ t₂ f a b hlt ((hother t₁ ht₁).symm.trans h₁) h₂'
  · intro t' f hlt
    have ht : t' ≠ t := fun e => by rw [e] at hlt; exact lt_irrefl _ hlt
    rcases hcases f with ⟨-, hsame⟩ | ⟨old, -, -, -, -, -, -, hother⟩
    · exact (hsame t').trans (hl.above t' f hlt)
    · exact (hother t' ht).trans (hl.above t' f hlt)
  · intro t' f a hs
    rcases hcases f with ⟨hh, hsame⟩ | ⟨old, -, -, -, -, hh, -, -⟩
    · obtain ⟨b, hb, hmod⟩ := hl.wrapped t' f a ((hsame t').symm.trans hs)
      exact ⟨b, hh.trans hb, hmod⟩
    · exact ⟨new, hh, hm⟩

/-- What a table with one handler has saved is hooked with it. -/
def Top (t : HookTable) (new : ZifHandler) (h : Hooks) : Prop :=
  ∀ f a, (h.saved t).find? f = some a → h.functionTable.handlerOf f = some new

theorem Top.hook (ht : Top t new h) : Top t new (hookFunction w name t new h).2 := by
  intro f a hs
  rcases hookFunction_cases w name t new h f with ⟨hh, hsame⟩ | ⟨old, -, -, -, -, hh, -, -⟩
  · exact hh.trans (ht f a ((hsame t).symm.trans hs))
  · exact hh

/-- Functions hooked one after the other with one handler. -/
theorem Loading.steps (hl : Loading t₀ t h) (hm : isModule new = true) (ht : Top t new h)
    (hs : HookSteps w t new h h') : Loading t₀ t h' := by
  refine (hs.preserve (fun h => Loading t₀ t h ∧ Top t new h) ?_ ⟨hl, ht⟩).1
  rintro name h ⟨hl, ht⟩
  refine ⟨hl.hook hm fun k _ hne => ?_, ht.hook⟩
  cases hsv : (h.saved t).find? k with
  | none => rfl
  | some a => exact absurd (ht k a hsv) hne

/-- A table that is still empty has nothing on top. -/
theorem top_of_above {t' : HookTable} (hl : Loading t₀ t' h) (hlt : rank t' < rank t) : Top t new h := by
  intro f a hs
  rw [hl.above t f hlt] at hs
  cases hs

/-- The first table has saved the functions of `l` or their twins. -/
def Covers (l : List (ZendString × ZifHandler)) (h : Hooks) : Prop :=
  ∀ f a, (h.saved .spInternalFunctionsHook).find? f = some a →
    ∃ e ∈ l, f = e.1 ∨ f = zstr "mb_" ++ e.1

/-- **The functions of the features**, hooked one after the other. -/
theorem loading_hookInternals : ∀ (l l' : List (ZendString × ZifHandler)) (h : Hooks),
    Distinct (l ++ l') → Loading t₀ .spInternalFunctionsHook h → Covers l h →
    Loading t₀ .spInternalFunctionsHook (hookInternals w l' h)
  | _, [], _, _, hl, _ => hl
  | l, e :: l', h, hd, hl, hc => by
    have hmem : e ∈ l ++ e :: l' := List.mem_append_right _ List.mem_cons_self
    have hpre := hd.isPrefix e hmem
    have hnodup := hd.nodup
    rw [List.map_append, List.map_cons, List.nodup_middle, List.nodup_cons, List.mem_append, not_or]
      at hnodup
    have hfresh : ∀ k, e.1 = k ∨ mbTwin w e.1 = some k →
        (h.saved .spInternalFunctionsHook).find? k = none := by
      intro k hk
      cases hs : (h.saved .spInternalFunctionsHook).find? k with
      | none => rfl
      | some a =>
        obtain ⟨e', he', hk'⟩ := hc k a hs
        have hpre' := hd.isPrefix e' (List.mem_append_left _ he')
        have hne : e.1 ≠ e'.1 := fun he => hnodup.1.1 (he ▸ List.mem_map_of_mem he')
        rcases hk with rfl | hk
        · rcases hk' with hk' | hk'
          · exact absurd hk' hne
          · exact absurd hk' (ne_append_mb hpre)
        · have hk := mbTwin_eq hpre hk
          subst hk
          rcases hk' with hk' | hk'
          · exact absurd hk'.symm (ne_append_mb hpre')
          · exact absurd (List.append_cancel_left hk') hne
    refine loading_hookInternals (l ++ [e]) l' (hookInternal w h e) (by simpa using hd)
      (hl.hook (hd.isModule e hmem) fun k hk _ => hfresh k hk) ?_
    intro f a hs
    rcases hookFunction_cases w e.1 .spInternalFunctionsHook e.2 h f with
      ⟨-, hsame⟩ | ⟨old, -, -, -, hk, -, -, -⟩
    · obtain ⟨e', he', hf⟩ := hc f a ((hsame _).symm.trans hs)
      exact ⟨e', List.mem_append_left _ he', hf⟩
    · refine ⟨e, List.mem_append_right _ List.mem_cons_self, ?_⟩
      rcases hk with hk | hk
      · exact Or.inl hk.symm
      · exact Or.inr (mbTwin_eq hpre hk)

theorem loading_hookFeatures (w : World) (g : SpGlobals) (t₀ : FunctionTable) :
    Loading t₀ .spInternalFunctionsHook (hookFeatures w g { functionTable := t₀ }) := by
  rw [hookFeatures_eq]
  exact loading_hookInternals [] _ _ (distinct_internalFunctions g) (loading_initial t₀)
    fun _ _ hs => by cases hs

/-- **All hooks of a load.** -/
theorem loading_hookDisabledFunctions {s s' : Stores} (hl : Loading t₀ .spInternalFunctionsHook h)
    (hy : Yields (hookDisabledFunctions w g s h) (s', h')) :
    Loading t₀ .spEvalBlacklistFunctionsHook h' := by
  unfold hookDisabledFunctions at hy
  obtain ⟨⟨s₁, h₁⟩, hrules, hy⟩ := yields_bind.mp hy
  cases yields_pure.mp hy
  have hd : Loading t₀ .disabledFunctionsHook h₁ :=
    (hl.next (by decide)).steps rfl (top_of_above hl (by decide)) (checkSteps_hookRules hrules)
  exact (hd.next (by decide)).steps rfl (top_of_above hd (by decide)) (evalSteps_hookEvalBlacklist w g h₁)

end Loading

/-! ### Calls -/

/-- **What calls can do to the hooks**: write the slots of functions the first table has saved. -/
structure Touch (h h' : Hooks) : Prop where
  saved : h'.saved = h.saved
  keys : h'.functionTable.table.keys = h.functionTable.table.keys
  typeOf : ∀ f, h'.functionTable.typeOf f = h.functionTable.typeOf f
  handlerOf : ∀ f, (h.saved .spInternalFunctionsHook).find? f = none →
    h'.functionTable.handlerOf f = h.functionTable.handlerOf f

section Touch
variable {h h' h'' : Hooks} {name : ZendString}

theorem Touch.refl (h : Hooks) : Touch h h := ⟨rfl, rfl, fun _ => rfl, fun _ _ => rfl⟩

theorem Touch.trans (h₁ : Touch h h') (h₂ : Touch h' h'') : Touch h h'' where
  saved := h₂.saved.trans h₁.saved
  keys := h₂.keys.trans h₁.keys
  typeOf f := (h₂.typeOf f).trans (h₁.typeOf f)
  handlerOf f hs := (h₂.handlerOf f (by rw [h₁.saved]; exact hs)).trans (h₁.handlerOf f hs)

theorem touch_setHandler {new : ZifHandler}
    (hs : ((h.saved .spInternalFunctionsHook).find? name).isSome = true) :
    Touch h (h.setHandler name new) where
  saved := rfl
  keys := FunctionTable.keys_setHandler _ _ _
  typeOf _ := FunctionTable.typeOf_setHandler _ _ _ _
  handlerOf f hn := FunctionTable.handlerOf_setHandler_of_ne fun e => by
    subst e
    rw [hn] at hs
    cases hs

end Touch

/-- **A relation between the hooks before and after**, which holds of calls if it holds of what the
handlers of `sloppy_comparison` write. -/
structure CallRelation (R : Hooks → Hooks → Prop) : Prop where
  refl : ∀ h, R h h
  trans : ∀ {h h' h''}, R h h' → R h' h'' → R h h''
  saved : ∀ {h h'}, R h h' → h'.saved = h.saved
  set : ∀ {h e a new}, e ∈ arrayFunctions → (h.saved .spInternalFunctionsHook).find? e.1 = some a →
    new = a ∨ new = e.2 → R h (h.setHandler e.1 new)

section CallRelation
variable {R : Hooks → Hooks → Prop} {h : Hooks} {drops : Check → Bool}

/-- One after the other. -/
theorem CallRelation.andThen (hR : CallRelation R) {o : Outcome} {k : Hooks → Outcome} (ho : R h o.hooks)
    (hk : ∀ h, R h (k h).hooks) : R h (o.andThen k).hooks := by
  unfold Outcome.andThen
  split_ifs
  · exact hR.trans ho (hk _)
  · exact ho

theorem CallRelation.arrayHandler (hR : CallRelation R) {e : ZendString × ZifHandler}
    (he : e ∈ arrayFunctions) {call : ZifHandler → Hooks → Outcome} (hcall : ∀ a h, R h (call a h).hooks)
    (h : Hooks) : R h (arrayHandler e.1 e.2 call h).hooks := by
  unfold Dispatch.arrayHandler
  cases hs : (h.saved .spInternalFunctionsHook).find? e.1 with
  | none => exact hR.refl h
  | some handler =>
    cases hf : h.functionTable.find? e.1 with
    | none => exact hR.refl h
    | some func =>
      dsimp only
      have hset : R h (h.setHandler e.1 handler) := hR.set he hs (Or.inl rfl)
      have hbody := hR.trans hset (hcall handler (h.setHandler e.1 handler))
      unfold Outcome.andThen
      split_ifs
      · exact hR.trans hbody (hR.set he (by rw [hR.saved hbody]; exact hs) (Or.inr rfl))
      · exact hbody

/-- A handler does no more than the function it runs. -/
theorem CallRelation.invoke (hR : CallRelation R) : ∀ (n : ℕ) (f : ZendString) (body : Hooks → Outcome),
    (∀ h, R h (body h).hooks) → ∀ (a : ZifHandler) (h : Hooks), R h (invoke drops n f body a h).hooks
  | 0, _, _, _, _, h => hR.refl h
  | n + 1, f, body, hbody, a, h => by
    have ih : ∀ g body, (∀ h, R h (body h).hooks) → ∀ a h, R h (Dispatch.invoke drops n g body a h).hooks :=
      fun g body hb a h => hR.invoke n g body hb a h
    have hdone : ∀ h, R h (done h).hooks := hR.refl
    have hperform : ∀ c h, R h (perform c f drops h).hooks := fun c h => hR.refl h
    cases a with
    | checkDisabledFunction =>
      unfold Dispatch.invoke
      refine hR.andThen (hperform .call h) fun h => hR.andThen ?_ (hperform .ret)
      cases (h.saved .disabledFunctionsHook).find? f with
      | none => exact hR.refl h
      | some a => exact ih f body hbody a h
    | evalBlacklistCallback =>
      unfold Dispatch.invoke
      refine hR.andThen (hperform .eval h) fun h => ?_
      cases (h.saved .spEvalBlacklistFunctionsHook).find? f with
      | none => exact hR.refl h
      | some a => exact ih f body hbody a h
    | spInArray => exact hR.arrayHandler (e := (zstr "in_array", .spInArray)) (by decide) (ih _ _ hdone) h
    | spArraySearch =>
      exact hR.arrayHandler (e := (zstr "array_search", .spArraySearch)) (by decide) (ih _ _ hdone) h
    | spArrayKeys =>
      exact hR.arrayHandler (e := (zstr "array_keys", .spArrayKeys)) (by decide) (ih _ _ hdone) h
    | _ => exact hbody h

/-- **What holds of the handlers holds of calls.** -/
theorem CallRelation.exec (hR : CallRelation R) : ∀ (calls : Calls) (h : Hooks), R h (exec calls h).hooks
  | .nil, h => hR.refl h
  | .call f drops inner rest, h => by
    unfold Dispatch.exec
    refine hR.andThen ?_ (hR.exec rest)
    cases internalHandler h f with
    | none => exact hR.exec inner h
    | some a => exact hR.invoke 4 f _ (hR.exec inner) a h

end CallRelation

section Touch
variable {h h' : Hooks}

/-- **Calls touch no more than the slots of functions the first table has saved.** -/
theorem touch_exec (calls : Calls) (h : Hooks) : Touch h (exec calls h).hooks :=
  CallRelation.exec ⟨Touch.refl, Touch.trans, Touch.saved,
    fun _ hs _ => touch_setHandler (Option.isSome_iff_exists.mpr ⟨_, hs⟩)⟩ calls h

/-- Calls leave the slots of functions that `sloppy_comparison` has no handler for. -/
theorem handlerOf_exec {f : ZendString} (hf : f ∉ arrayFunctions.map Prod.fst) (calls : Calls) (h : Hooks) :
    (exec calls h).hooks.saved = h.saved ∧
      (exec calls h).hooks.functionTable.handlerOf f = h.functionTable.handlerOf f := by
  refine CallRelation.exec (R := fun h h' => h'.saved = h.saved ∧
    h'.functionTable.handlerOf f = h.functionTable.handlerOf f) ⟨fun h => ⟨rfl, rfl⟩, ?_, fun h => h.1, ?_⟩ calls h
  · intro h h' h'' h₁ h₂
    exact ⟨h₂.1.trans h₁.1, h₂.2.trans h₁.2⟩
  · intro h e a new he _ _
    refine ⟨rfl, FunctionTable.handlerOf_setHandler_of_ne fun heq => hf ?_⟩
    exact heq ▸ List.mem_map_of_mem he

/-- Calls put no check into a slot: what they write is one of the handlers the first table has saved, or
one of `sloppy_comparison`. -/
theorem handlerOf_of_exec {f : ZendString} (hs : ∀ f a, (h.saved .spInternalFunctionsHook).find? f = some a →
      a ≠ .evalBlacklistCallback) (calls : Calls)
    (hf : (exec calls h).hooks.functionTable.handlerOf f = some .evalBlacklistCallback) :
    h.functionTable.handlerOf f = some .evalBlacklistCallback := by
  refine (CallRelation.exec (R := fun h h' => h'.saved = h.saved ∧
    ((∀ f a, (h.saved .spInternalFunctionsHook).find? f = some a → a ≠ .evalBlacklistCallback) →
      h'.functionTable.handlerOf f = some .evalBlacklistCallback →
        h.functionTable.handlerOf f = some .evalBlacklistCallback))
    ⟨fun h => ⟨rfl, fun _ hf => hf⟩, ?_, fun h => h.1, ?_⟩ calls h).2 hs hf
  · rintro h h' h'' ⟨hs₁, h₁⟩ ⟨hs₂, h₂⟩
    exact ⟨hs₂.trans hs₁, fun hs hf => h₁ hs (h₂ (by rwa [hs₁]) hf)⟩
  · intro h e a new he hsaved hnew
    refine ⟨rfl, fun hs hf => ?_⟩
    have hne : new ≠ .evalBlacklistCallback := by
      have hall : ∀ e ∈ arrayFunctions, e.2 ≠ .evalBlacklistCallback := by decide +kernel
      rcases hnew with rfl | rfl
      · exact hs _ _ hsaved
      · exact hall e he
    by_cases hk : e.1 = f
    · subst hk
      have hslot : (h.setHandler e.1 new).functionTable.handlerOf e.1 =
          (h.functionTable.find? e.1).map fun _ => new := FunctionTable.handlerOf_setHandler_self
      obtain ⟨func, -, rfl⟩ := Option.map_eq_some_iff.mp (hslot.symm.trans hf)
      exact absurd rfl hne
    · exact (FunctionTable.handlerOf_setHandler_of_ne hk).symm.trans hf

/-- The handlers before the hooks can still be told. -/
theorem Touch.tracks {t₀ : FunctionTable} (hto : Touch h h') (ht : Tracks t₀ h) : Tracks t₀ h' where
  keys := hto.keys.trans ht.keys
  typeOf f := (hto.typeOf f).trans (ht.typeOf f)
  internal t f a hs := ht.internal t f a (by rwa [← hto.saved])
  original f := by
    rw [← ht.original f]
    unfold original
    rw [hto.saved]
    cases hs : (h.saved .spInternalFunctionsHook).find? f with
    | none => rw [hto.handlerOf f hs]
    | some a => rfl
  later t t' f a b hlt h₁ h₂ :=
    ht.later t t' f a b hlt (by rwa [← hto.saved]) (by rwa [← hto.saved])

end Touch

end Snuffleupagus.Hook.Features
