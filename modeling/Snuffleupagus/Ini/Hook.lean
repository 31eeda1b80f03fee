import Snuffleupagus.Lib.Apply
import Snuffleupagus.Log

/-! # Hooking INI directives

A rule on an INI directive replaces the handler that is called when the directive is changed, if the
rule has something to check, and keeps the old handler in the rule. The handlers of PHP and of the other
extensions are parameters: `accepts` tells whether a handler lets a value through.

* `onModifyOf_spHookIni`, `find?_entries_spHookIni`: which directives are hooked;
* `onModifyOf_unhook_hook`: unhooking gives their handlers back. -/

namespace Snuffleupagus.Ini.Hook

open Snuffleupagus.Lib.Effect Snuffleupagus.Lib.Table Snuffleupagus.Lib.Apply Snuffleupagus.Php.Bytes
open Snuffleupagus.Php.Engine Snuffleupagus.Config.Rule Snuffleupagus.Log

/-- `zend_ini_entry`, as far as the module writes it. -/
structure ZendIniEntry where
  value : Option ZendString := none
  onModify : Option IniHandler := none

/-- `EG(ini_directives)`. -/
abbrev IniDirectives := OrdTable ZendString ZendIniEntry

/-- The rules on directives, and the directives. -/
structure IniTables where
  entries : OrdTable ZendString SpIniEntry
  directives : IniDirectives

/-- `SP_INI_HAS_CHECKS_COND`. -/
def iniHasChecks (e : SpIniEntry) : Bool := e.min.isSome || e.max.isSome || e.regexp.isSome

/-- `SP_INI_ACCESS_READONLY_COND`. -/
def iniAccessReadonly (cfg : SpConfigIni) (e : SpIniEntry) : Bool :=
  decide (e.access = .readonly) || (decide (e.access = .unset) && cfg.policyReadonly)

/-- A rule with something to check. -/
def iniChecked (cfg : SpConfigIni) (e : SpIniEntry) : Bool := iniHasChecks e || iniAccessReadonly cfg e

variable (w : World) (g : SpGlobals) (accepts : IniHandler → ZendString → ZendString → Bool)

/-- Keep a handler in a rule. -/
def keepOnModify (e : SpIniEntry) (handler : Option IniHandler) : SpIniEntry :=
  { e with origOnmodify := handler }

@[simp] theorem key_keepOnModify (e : SpIniEntry) (h : Option IniHandler) :
    (keepOnModify e h).key = e.key := rfl

@[simp] theorem origOnmodify_keepOnModify (e : SpIniEntry) (h : Option IniHandler) :
    (keepOnModify e h).origOnmodify = h := rfl

/-- The hook of one rule. -/
def hookOnModify (cfg : SpConfigIni) (t : IniTables) (k : ZendString) (e : SpIniEntry) (ini : ZendIniEntry) :
    IniTables :=
  if iniChecked cfg e then
    ⟨t.entries.insert k (keepOnModify e ini.onModify),
      t.directives.insert e.key { ini with onModify := some .spIniOnmodify }⟩
  else t

/-- Write the value of a directive. -/
def setValue (t : IniTables) (key value : ZendString) : IniTables :=
  match t.directives.find? key with
  | some ini => { t with directives := t.directives.insert key { ini with value := some value } }
  | none => t

/-- One turn of the loop of `sp_hook_ini`. -/
def hookIniEntry (cfg : SpConfigIni) (t : IniTables) (x : ZendString × SpIniEntry) : Sp IniTables :=
  match t.directives.find? x.2.key with
  | none => do
    spLogWarn w g "ini_protection"
      "Cannot hook INI var `%s`. Maybe a typo or the PHP extension providing this var is not loaded yet."
      [cstr x.2.key]
    pure t
  | some ini =>
    let t := hookOnModify cfg t x.1 x.2 ini
    match x.2.set with
    | none => pure t
    | some value =>
      if ini.onModify.all fun h => accepts h x.2.key value then pure (setValue t x.2.key value)
      else do
        spLogWarn w g "ini_protection" "Failed to set INI var `%s`." [cstr x.2.key]
        pure t

/-- `sp_hook_ini`. -/
def spHookIni (cfg : SpConfigIni) (directives : IniDirectives) : Sp IniTables :=
  cfg.entries.entries.foldlM (hookIniEntry w g accepts cfg) ⟨cfg.entries, directives⟩

/-- One turn of the loop of `sp_unhook_ini`. -/
def unhookIniEntry (t : IniTables) (x : ZendString × SpIniEntry) : IniTables :=
  match t.directives.find? x.2.key with
  | none => t
  | some ini =>
    ⟨t.entries.insert x.1 (keepOnModify x.2 none),
      if ini.onModify = some .spIniOnmodify then
        t.directives.insert x.2.key { ini with onModify := x.2.origOnmodify }
      else t.directives⟩

/-- `sp_unhook_ini`. -/
def spUnhookIni (entries : OrdTable ZendString SpIniEntry) (directives : IniDirectives) : IniTables :=
  entries.entries.foldl unhookIniEntry ⟨entries, directives⟩

/-! ### The handlers -/

/-- The handler of a directive. -/
def onModifyOf (d : IniDirectives) (k : ZendString) : Option (Option IniHandler) :=
  (d.find? k).map ZendIniEntry.onModify

/-- The rules are kept under the directives they are about. -/
def Keyed (l : List (ZendString × SpIniEntry)) : Prop := ∀ x ∈ l, x.2.key = x.1

section Turn
variable {w g accepts} {cfg : SpConfigIni} {t t' : IniTables} {x : ZendString × SpIniEntry} {k : ZendString}

/-- The rule of a directive hooks it. -/
def hooks (cfg : SpConfigIni) (d : IniDirectives) (e : SpIniEntry) : Bool :=
  iniChecked cfg e && (d.find? e.key).isSome

theorem onModifyOf_setValue (v : ZendString) (k' : ZendString) :
    onModifyOf (setValue t k' v).directives k = onModifyOf t.directives k := by
  unfold setValue
  cases h : t.directives.find? k' with
  | none => rfl
  | some ini =>
    unfold onModifyOf
    rw [OrdTable.find?_insert]
    split_ifs with hk
    · subst hk
      rw [h]
      rfl
    · rfl

theorem entries_setValue (v : ZendString) (k' : ZendString) : (setValue t k' v).entries = t.entries := by
  unfold setValue
  cases t.directives.find? k' <;> rfl

/-- The hook of a rule. -/
theorem onModifyOf_hookOnModify {ini : ZendIniEntry} (hx : x.2.key = x.1) :
    onModifyOf (hookOnModify cfg t x.1 x.2 ini).directives k =
      if x.1 = k ∧ iniChecked cfg x.2 = true then some (some .spIniOnmodify)
      else onModifyOf t.directives k := by
  unfold hookOnModify onModifyOf
  by_cases hc : iniChecked cfg x.2 = true
  · rw [if_pos hc, hx, OrdTable.find?_insert]
    by_cases hk : x.1 = k <;> simp [hk, hc]
  · simp [hc]

/-- The handler it keeps. -/
theorem entries_hookOnModify {ini : ZendIniEntry} : (hookOnModify cfg t x.1 x.2 ini).entries.find? k =
    if x.1 = k ∧ iniChecked cfg x.2 = true then some (keepOnModify x.2 ini.onModify)
    else t.entries.find? k := by
  unfold hookOnModify
  by_cases hc : iniChecked cfg x.2 = true
  · rw [if_pos hc, OrdTable.find?_insert]
    by_cases hk : x.1 = k <;> simp [hk, hc]
  · simp [hc]

/-- **What a turn of `sp_hook_ini` can do**: the directive is not there, or it is hooked and keeps its value, or it
is hooked and its value is set. -/
theorem hookIniEntry_cases (hy : Yields (hookIniEntry w g accepts cfg t x) t') :
    (t.directives.find? x.2.key = none ∧ t' = t) ∨
      ∃ ini, t.directives.find? x.2.key = some ini ∧
        (((∀ v, x.2.set = some v → ¬(ini.onModify.all fun h => accepts h x.2.key v) = true) ∧
            t' = hookOnModify cfg t x.1 x.2 ini) ∨
          ∃ v, x.2.set = some v ∧ (ini.onModify.all fun h => accepts h x.2.key v) = true ∧
            t' = setValue (hookOnModify cfg t x.1 x.2 ini) x.2.key v) := by
  unfold hookIniEntry at hy
  cases hd : t.directives.find? x.2.key with
  | none =>
    rw [hd] at hy
    obtain ⟨u, -, hy⟩ := yields_bind.mp hy
    exact Or.inl ⟨rfl, (yields_pure.mp hy).symm⟩
  | some ini =>
    rw [hd] at hy
    dsimp only at hy
    refine Or.inr ⟨ini, rfl, ?_⟩
    cases hset : x.2.set with
    | none =>
      rw [hset] at hy
      exact Or.inl ⟨nofun, (yields_pure.mp hy).symm⟩
    | some v =>
      rw [hset] at hy
      dsimp only at hy
      split_ifs at hy with ha
      · exact Or.inr ⟨v, rfl, ha, (yields_pure.mp hy).symm⟩
      · obtain ⟨u, -, hy⟩ := yields_bind.mp hy
        refine Or.inl ⟨?_, (yields_pure.mp hy).symm⟩
        rintro _ ⟨⟩
        exact ha

/-- What is kept under a name: the handler of the directive, and the entry. -/
def keptAt (t : IniTables) (k : ZendString) : Option (Option IniHandler) × Option SpIniEntry :=
  (onModifyOf t.directives k, t.entries.find? k)

/-- What the turn of an entry makes of it. -/
def hookedAt (cfg : SpConfigIni) (e : SpIniEntry) (p : Option (Option IniHandler) × Option SpIniEntry) :
    Option (Option IniHandler) × Option SpIniEntry :=
  if (iniChecked cfg e && p.1.isSome) = true then (some (some .spIniOnmodify), some (keepOnModify e p.1.join))
  else p

theorem hooks_eq {d : IniDirectives} {e : SpIniEntry} (he : e.key = k) :
    hooks cfg d e = (iniChecked cfg e && (onModifyOf d k).isSome) := by
  unfold hooks onModifyOf
  rw [he, Option.isSome_map]

/-- What a turn of `sp_hook_ini` leaves. -/
theorem keptAt_hookIniEntry (hx : x.2.key = x.1) (hy : Yields (hookIniEntry w g accepts cfg t x) t') :
    keptAt t' k = if x.1 = k then hookedAt cfg x.2 (keptAt t k) else keptAt t k := by
  rcases hookIniEntry_cases hy with ⟨hd, rfl⟩ | ⟨ini, hd, hturn⟩
  · -- there is nothing to hook
    split_ifs with hk
    · have hnone : onModifyOf t'.directives k = none := by
        unfold onModifyOf
        rw [← hk, ← hx, hd]
        rfl
      unfold hookedAt keptAt
      rw [hnone]
      simp
    · rfl
  · have hkept : keptAt t' k = keptAt (hookOnModify cfg t x.1 x.2 ini) k := by
      rcases hturn with ⟨-, rfl⟩ | ⟨v, -, -, rfl⟩
      · rfl
      · unfold keptAt
        rw [onModifyOf_setValue, entries_setValue]
    rw [hkept]
    unfold keptAt
    rw [onModifyOf_hookOnModify hx, entries_hookOnModify]
    by_cases hk : x.1 = k
    · have hsome : onModifyOf t.directives k = some ini.onModify := by
        unfold onModifyOf
        rw [← hk, ← hx, hd]
        rfl
      unfold hookedAt
      rw [hsome]
      by_cases hc : iniChecked cfg x.2 = true <;> simp [hk, hc]
    · simp [hk]

/-- What a turn of `sp_unhook_ini` leaves. -/
theorem onModifyOf_unhookIniEntry (hx : x.2.key = x.1) :
    onModifyOf (unhookIniEntry t x).directives k =
      if x.1 = k ∧ onModifyOf t.directives k = some (some .spIniOnmodify) then some x.2.origOnmodify
      else onModifyOf t.directives k := by
  unfold unhookIniEntry
  rw [hx]
  by_cases hk : x.1 = k
  · subst hk
    unfold onModifyOf
    cases hd : t.directives.find? x.1 with
    | none => simp [hd]
    | some ini =>
      by_cases hm : ini.onModify = some .spIniOnmodify
      · simp [hm]
      · simp [hm, hd]
  · rw [if_neg fun e => hk e.1]
    cases t.directives.find? x.1 with
    | none => rfl
    | some ini =>
      dsimp only
      split_ifs
      · unfold onModifyOf
        rw [OrdTable.find?_insert, if_neg hk]
      · rfl

end Turn

/-! ### The loops -/

section Loops
variable {w g accepts} {cfg : SpConfigIni} {k : ZendString}

/-- Which entry of a list is about a directive. -/
theorem onModifyOf_foldl (l : List (ZendString × SpIniEntry)) (t : IniTables) (hk : Keyed l)
    (hn : (l.map Prod.fst).Nodup) : onModifyOf (l.foldl unhookIniEntry t).directives k =
      if onModifyOf t.directives k = some (some .spIniOnmodify) then
        ((OrdTable.lookup k l).map SpIniEntry.origOnmodify).or (some (some .spIniOnmodify))
      else onModifyOf t.directives k := by
  have hturn : ∀ x ∈ l, ∀ t, onModifyOf (unhookIniEntry t x).directives k =
      if x.1 = k then
        if onModifyOf t.directives k = some (some .spIniOnmodify) then some x.2.origOnmodify
        else onModifyOf t.directives k
      else onModifyOf t.directives k := by
    intro x hx t
    rw [onModifyOf_unhookIniEntry (hk x hx)]
    by_cases hxk : x.1 = k <;> simp [hxk]
  rw [OrdTable.foldl_turn k (fun t : IniTables => onModifyOf t.directives k)
    (fun e o => if o = some (some .spIniOnmodify) then some e.origOnmodify else o) hn hturn]
  cases OrdTable.lookup k l with
  | none => simp
  | some e => simp

/-- The hooks of a list of rules. -/
theorem keptAt_foldlM {l : List (ZendString × SpIniEntry)} {t t' : IniTables} (hk : Keyed l)
    (hn : (l.map Prod.fst).Nodup) (hy : Yields (l.foldlM (hookIniEntry w g accepts cfg) t) t') :
    keptAt t' k = match OrdTable.lookup k l with
      | some e => hookedAt cfg e (keptAt t k)
      | none => keptAt t k := by
  have hturn : ∀ x ∈ l, ∀ t t', Yields (hookIniEntry w g accepts cfg t x) t' →
      if x.1 = k then keptAt t' k = hookedAt cfg x.2 (keptAt t k) else keptAt t' k = keptAt t k := by
    intro x hx t t' h
    rw [keptAt_hookIniEntry (hk x hx) h]
    split_ifs <;> rfl
  have hloop := foldlM_turn k (keptAt · k) (fun e p p' => p' = hookedAt cfg e p) hn hturn hy
  cases hl : OrdTable.lookup k l with
  | none => rwa [hl] at hloop
  | some e => rwa [hl] at hloop

end Loops

section Spec
variable {w g accepts} {cfg : SpConfigIni} {d d' : IniDirectives} {t : IniTables} {k : ZendString}

/-- The rules of a configuration are kept under the directives they are about. -/
theorem keyed_entries {entries : OrdTable ZendString SpIniEntry}
    (h : ∀ k e, entries.find? k = some e → e.key = k) : Keyed entries.entries :=
  fun x hx => h x.1 x.2 (OrdTable.find?_eq_some.mpr hx)

/-- What hooking leaves under a name. -/
theorem keptAt_spHookIni (hk : Keyed cfg.entries.entries) (hy : Yields (spHookIni w g accepts cfg d) t)
    (k : ZendString) : keptAt t k = match cfg.entries.find? k with
      | some e => hookedAt cfg e (onModifyOf d k, some e)
      | none => (onModifyOf d k, none) := by
  rw [keptAt_foldlM hk cfg.entries.nodup hy]
  unfold keptAt
  show (match cfg.entries.find? k with
    | some e => hookedAt cfg e (onModifyOf d k, cfg.entries.find? k)
    | none => (onModifyOf d k, cfg.entries.find? k)) = _
  cases cfg.entries.find? k <;> rfl

theorem keptAt_hooked (hk : Keyed cfg.entries.entries) (hy : Yields (spHookIni w g accepts cfg d) t)
    (k : ZendString) : keptAt t k =
      (if (cfg.entries.find? k).any (hooks cfg d) = true then some (some .spIniOnmodify) else onModifyOf d k,
        (cfg.entries.find? k).map fun e => if hooks cfg d e = true then keepOnModify e (onModifyOf d k).join else e) := by
  rw [keptAt_spHookIni hk hy k]
  cases hf : cfg.entries.find? k with
  | none => rfl
  | some e =>
    have hek : e.key = k := hk _ (OrdTable.find?_eq_some.mp hf)
    unfold hookedAt
    rw [Option.any_some, Option.map_some, hooks_eq hek]
    dsimp only
    split_ifs <;> rfl

/-- **Which directives are hooked.** -/
theorem onModifyOf_spHookIni (hk : Keyed cfg.entries.entries)
    (hy : Yields (spHookIni w g accepts cfg d) t) (k : ZendString) : onModifyOf t.directives k =
      if (cfg.entries.find? k).any (hooks cfg d) = true then some (some .spIniOnmodify)
      else onModifyOf d k :=
  congrArg Prod.fst (keptAt_hooked hk hy k)

/-- The handlers the rules keep. -/
theorem find?_entries_spHookIni (hk : Keyed cfg.entries.entries)
    (hy : Yields (spHookIni w g accepts cfg d) t) (k : ZendString) : t.entries.find? k =
      (cfg.entries.find? k).map fun e =>
        if hooks cfg d e = true then keepOnModify e (onModifyOf d k).join else e :=
  congrArg Prod.snd (keptAt_hooked hk hy k)

/-- Hooking a rule keeps which rules there are. -/
theorem keys_hookIniEntry {t t' : IniTables} {x : ZendString × SpIniEntry} (hx : x.1 ∈ t.entries.keys)
    (hy : Yields (hookIniEntry w g accepts cfg t x) t') : t'.entries.keys = t.entries.keys := by
  obtain ⟨e, he⟩ := OrdTable.mem_keys.mp hx
  have hhook : ∀ ini, (hookOnModify cfg t x.1 x.2 ini).entries.keys = t.entries.keys := by
    intro ini
    unfold hookOnModify
    split_ifs
    · exact OrdTable.keys_insert_of_find? he
    · rfl
  rcases hookIniEntry_cases hy with ⟨-, rfl⟩ | ⟨ini, -, ⟨-, rfl⟩ | ⟨v, -, -, rfl⟩⟩
  · rfl
  · exact hhook ini
  · rw [entries_setValue]
    exact hhook ini

theorem keys_spHookIni (hy : Yields (spHookIni w g accepts cfg d) t) :
    t.entries.keys = cfg.entries.keys := by
  have hloop : ∀ (l : List (ZendString × SpIniEntry)) (t t' : IniTables),
      (∀ x ∈ l, x.1 ∈ t.entries.keys) → Yields (l.foldlM (hookIniEntry w g accepts cfg) t) t' →
      t'.entries.keys = t.entries.keys := by
    intro l
    induction l with
    | nil =>
      intro t t' _ hy
      cases yields_pure.mp hy
      rfl
    | cons x l ih =>
      intro t t' hl hy
      rw [List.foldlM_cons] at hy
      obtain ⟨t₁, h₁, hy⟩ := yields_bind.mp hy
      have hk := keys_hookIniEntry (hl x List.mem_cons_self) h₁
      exact (ih t₁ t' (fun y hm => hk ▸ hl y (List.mem_cons_of_mem _ hm)) hy).trans hk
  exact hloop _ _ _ (fun x hx => List.mem_map_of_mem hx) hy

theorem onModifyOf_spUnhookIni {entries : OrdTable ZendString SpIniEntry} (hk : Keyed entries.entries)
    (k : ZendString) : onModifyOf (spUnhookIni entries d).directives k =
      if onModifyOf d k = some (some .spIniOnmodify) then
        ((entries.find? k).map SpIniEntry.origOnmodify).or (some (some .spIniOnmodify))
      else onModifyOf d k := onModifyOf_foldl _ _ hk entries.nodup

/-- The entries that keep the handlers are kept under their directives, too. -/
theorem keyed_spHookIni (hk : Keyed cfg.entries.entries) (hy : Yields (spHookIni w g accepts cfg d) t) :
    Keyed t.entries.entries := by
  refine keyed_entries fun k e hf => ?_
  rw [find?_entries_spHookIni hk hy] at hf
  obtain ⟨e', he', rfl⟩ := Option.map_eq_some_iff.mp hf
  have hek := hk _ (OrdTable.find?_eq_some.mp he')
  split_ifs <;> exact hek

/-- An entry that has nothing to check takes the module's own handler away, if the directive has it. -/
theorem onModifyOf_unhook_hook_eq (hk : Keyed cfg.entries.entries)
    (hy : Yields (spHookIni w g accepts cfg d) t) (k : ZendString) :
    onModifyOf (spUnhookIni t.entries t.directives).directives k =
      match cfg.entries.find? k with
      | some e =>
        if hooks cfg d e = false ∧ onModifyOf d k = some (some .spIniOnmodify) then some e.origOnmodify
        else onModifyOf d k
      | none => onModifyOf d k := by
  rw [onModifyOf_spUnhookIni (keyed_spHookIni hk hy), onModifyOf_spHookIni hk hy, find?_entries_spHookIni hk hy]
  cases hf : cfg.entries.find? k with
  | none => by_cases ho : onModifyOf d k = some (some .spIniOnmodify) <;> simp [ho]
  | some e =>
    by_cases hh : hooks cfg d e = true
    · -- the rule has kept the handler of the directive
      have hek : e.key = k := hk _ (OrdTable.find?_eq_some.mp hf)
      unfold hooks at hh
      rw [Bool.and_eq_true, hek] at hh
      obtain ⟨ini, hini⟩ := Option.isSome_iff_exists.mp hh.2
      unfold onModifyOf
      simp [hooks, hh.1, hek, hini]
    · by_cases ho : onModifyOf d k = some (some .spIniOnmodify) <;> simp [hh, ho]

/-- **Unhooking gives the handlers back.** -/
theorem onModifyOf_unhook_hook (hk : Keyed cfg.entries.entries)
    (hd : ∀ k, onModifyOf d k ≠ some (some .spIniOnmodify))
    (hy : Yields (spHookIni w g accepts cfg d) t) (k : ZendString) :
    onModifyOf (spUnhookIni t.entries t.directives).directives k = onModifyOf d k := by
  rw [onModifyOf_unhook_hook_eq hk hy]
  cases cfg.entries.find? k with
  | none => rfl
  | some e => exact if_neg fun h => hd k h.2

/-- Hooking does not fail. -/
theorem exists_yields_spHookIni : ∃ t, Yields (spHookIni w g accepts cfg d) t := by
  have hturn : ∀ t x, ∃ t', Yields (hookIniEntry w g accepts cfg t x) t' := by
    intro t x
    unfold hookIniEntry
    cases t.directives.find? x.2.key with
    | none => exact ⟨t, yields_bind.mpr ⟨(), out_spLogWarn w g _ _ _, yields_pure.mpr rfl⟩⟩
    | some ini =>
      dsimp only
      cases x.2.set with
      | none => exact ⟨_, yields_pure.mpr rfl⟩
      | some v =>
        dsimp only
        split_ifs
        · exact ⟨_, yields_pure.mpr rfl⟩
        · exact ⟨_, yields_bind.mpr ⟨(), out_spLogWarn w g _ _ _, yields_pure.mpr rfl⟩⟩
  exact exists_foldlM hturn _ _

end Spec

end Snuffleupagus.Ini.Hook
