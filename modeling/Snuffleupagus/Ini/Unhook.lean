import Snuffleupagus.Ini.Hook

/-! # What unhooking undoes

Hooking the directives writes to two of their fields. The handler of a directive is kept in its entry and given
back. A value that is set is written over the old one, which is kept nowhere.

So a directive is as it was before, exactly if no other value has been set (`unhook_restores_iff`), and if an
entry with nothing to check has not found the module's own handler: unhooking takes this one away although
hooking has not put it there. -/

namespace Snuffleupagus.Ini.Unhook

open Snuffleupagus.Lib.Effect Snuffleupagus.Lib.Table Snuffleupagus.Lib.Apply Snuffleupagus.Php.Bytes
open Snuffleupagus.Php.Engine Snuffleupagus.Config.Rule Snuffleupagus.Log Snuffleupagus.Ini.Hook

/-! ### The values -/

/-- The value of a directive. -/
def valueOf (d : IniDirectives) (k : ZendString) : Option (Option ZendString) :=
  (d.find? k).map ZendIniEntry.value

/-- What hooking an entry makes of the value of its directive. -/
def valueSet (accepts : IniHandler → ZendString → ZendString → Bool) (e : SpIniEntry) (ini : ZendIniEntry) :
    Option ZendString :=
  match e.set with
  | none => ini.value
  | some value => if ini.onModify.all fun h => accepts h e.key value then some value else ini.value

section Turn
variable {w : World} {g : SpGlobals} {accepts : IniHandler → ZendString → ZendString → Bool}
  {cfg : SpConfigIni} {t t' : IniTables} {x : ZendString × SpIniEntry} {k : ZendString}

theorem valueOf_hookOnModify {ini : ZendIniEntry} (hd : t.directives.find? x.2.key = some ini) :
    valueOf (hookOnModify cfg t x.1 x.2 ini).directives k = valueOf t.directives k := by
  unfold hookOnModify valueOf
  split_ifs
  · dsimp only
    rw [OrdTable.find?_insert]
    split_ifs with hk
    · rw [← hk, hd]
      rfl
    · rfl
  · rfl

theorem valueOf_setValue {v k' : ZendString} (h : (valueOf t.directives k').isSome = true) :
    valueOf (setValue t k' v).directives k = if k' = k then some (some v) else valueOf t.directives k := by
  unfold valueOf at h
  rw [Option.isSome_map] at h
  obtain ⟨ini, hini⟩ := Option.isSome_iff_exists.mp h
  unfold setValue valueOf
  rw [hini]
  dsimp only
  rw [OrdTable.find?_insert]
  split_ifs <;> rfl

theorem valueSet_of_accepted {e : SpIniEntry} {ini : ZendIniEntry} {v : ZendString} (hset : e.set = some v)
    (ha : (ini.onModify.all fun h => accepts h e.key v) = true) : valueSet accepts e ini = some v := by
  unfold valueSet
  rw [hset]
  exact if_pos ha

theorem valueSet_of_refused {e : SpIniEntry} {ini : ZendIniEntry}
    (h : ∀ v, e.set = some v → ¬(ini.onModify.all fun h => accepts h e.key v) = true) :
    valueSet accepts e ini = ini.value := by
  unfold valueSet
  cases hset : e.set with
  | none => rfl
  | some v => exact if_neg (h v hset)

/-- The value a turn of `sp_hook_ini` leaves. -/
theorem valueOf_hookIniEntry (hx : x.2.key = x.1) (hy : Yields (hookIniEntry w g accepts cfg t x) t') :
    valueOf t'.directives k =
      if x.1 = k then (t.directives.find? k).map (valueSet accepts x.2) else valueOf t.directives k := by
  rcases hookIniEntry_cases hy with ⟨hd, rfl⟩ | ⟨ini, hd, hturn⟩
  · split_ifs with hk
    · rw [hx, hk] at hd
      simp [valueOf, hd]
    · rfl
  · have hat : x.1 = k → t.directives.find? k = some ini := by
      rintro rfl
      rw [← hx]
      exact hd
    rcases hturn with ⟨hkeep, rfl⟩ | ⟨v, hset, ha, rfl⟩
    · -- the directive keeps its value
      rw [valueOf_hookOnModify hd]
      split_ifs with hk
      · unfold valueOf
        rw [hat hk, Option.map_some, Option.map_some, valueSet_of_refused hkeep]
      · rfl
    · have hthere : (valueOf (hookOnModify cfg t x.1 x.2 ini).directives x.2.key).isSome = true := by
        rw [valueOf_hookOnModify hd]
        unfold valueOf
        rw [hd]
        rfl
      rw [valueOf_setValue hthere, hx, valueOf_hookOnModify hd]
      split_ifs with hk
      · rw [hat hk, Option.map_some, valueSet_of_accepted hset ha]
      · rfl

/-- A turn of `sp_unhook_ini` leaves the values. -/
theorem valueOf_unhookIniEntry : valueOf (unhookIniEntry t x).directives k = valueOf t.directives k := by
  unfold unhookIniEntry
  cases hd : t.directives.find? x.2.key with
  | none => rfl
  | some ini =>
    dsimp only
    split_ifs
    · unfold valueOf
      rw [OrdTable.find?_insert]
      split_ifs with hk
      · rw [← hk, hd]
        rfl
      · rfl
    · rfl

/-- A directive is the value and the handler it has. -/
theorem find?_eq_iff {d d' : IniDirectives} :
    d.find? k = d'.find? k ↔ valueOf d k = valueOf d' k ∧ onModifyOf d k = onModifyOf d' k := by
  unfold valueOf onModifyOf
  constructor
  · intro h
    exact ⟨by rw [h], by rw [h]⟩
  · rintro ⟨hv, ho⟩
    cases hd : d.find? k with
    | none => cases hd' : d'.find? k <;> simp_all
    | some ini =>
      cases hd' : d'.find? k with
      | none => simp_all
      | some ini' =>
        rw [hd, hd'] at hv ho
        obtain ⟨v, o⟩ := ini
        obtain ⟨v', o'⟩ := ini'
        cases hv
        cases ho
        rfl

/-- A turn of `sp_hook_ini`, seen at a directive. -/
theorem find?_hookIniEntry (hx : x.2.key = x.1) (hy : Yields (hookIniEntry w g accepts cfg t x) t') :
    if x.1 = k then valueOf t'.directives k = (t.directives.find? k).map (valueSet accepts x.2)
    else t'.directives.find? k = t.directives.find? k := by
  have hvalue := valueOf_hookIniEntry (k := k) hx hy
  split_ifs with hk
  · rwa [if_pos hk] at hvalue
  · rw [if_neg hk] at hvalue
    have hhandler := congrArg Prod.fst (keptAt_hookIniEntry (k := k) hx hy)
    rw [if_neg hk] at hhandler
    exact find?_eq_iff.mpr ⟨hvalue, hhandler⟩

end Turn

/-! ### The loops -/

section Loops
variable {w : World} {g : SpGlobals} {accepts : IniHandler → ZendString → ZendString → Bool}
  {cfg : SpConfigIni} {d : IniDirectives} {t : IniTables} {k : ZendString}

/-- The values a list of entries sets; the handler an entry asks is the one in front of the loop. -/
theorem valueOf_foldlM {l : List (ZendString × SpIniEntry)} {t t' : IniTables} (hk : Keyed l)
    (hn : (l.map Prod.fst).Nodup) (hy : Yields (l.foldlM (hookIniEntry w g accepts cfg) t) t') :
    valueOf t'.directives k =
      match OrdTable.lookup k l with
      | some e => (t.directives.find? k).map (valueSet accepts e)
      | none => valueOf t.directives k := by
  have hloop := foldlM_turn k (fun t : IniTables => t.directives.find? k)
    (fun e o o' => o'.map ZendIniEntry.value = o.map (valueSet accepts e)) hn
    (fun x hx _ _ h => find?_hookIniEntry (hk x hx) h) hy
  cases hl : OrdTable.lookup k l with
  | none =>
    rw [hl] at hloop
    exact congrArg (Option.map ZendIniEntry.value) hloop
  | some e =>
    rw [hl] at hloop
    exact hloop

theorem valueOf_foldl : ∀ (l : List (ZendString × SpIniEntry)) (t : IniTables),
    valueOf (l.foldl unhookIniEntry t).directives k = valueOf t.directives k
  | [], _ => rfl
  | x :: l, t => by rw [List.foldl_cons, valueOf_foldl l, valueOf_unhookIniEntry]

/-- Unhooking leaves the values as hooking has set them. -/
theorem valueOf_unhook_hook (hk : Keyed cfg.entries.entries) (hy : Yields (spHookIni w g accepts cfg d) t) :
    valueOf (spUnhookIni t.entries t.directives).directives k =
      match cfg.entries.find? k with
      | some e => (d.find? k).map (valueSet accepts e)
      | none => valueOf d k :=
  (valueOf_foldl _ _).trans (valueOf_foldlM hk cfg.entries.nodup hy)

end Loops

/-! ### Unhooking after hooking -/

section Undo
variable {w : World} {g : SpGlobals} {accepts : IniHandler → ZendString → ZendString → Bool}
  {cfg : SpConfigIni} {d : IniDirectives} {e : SpIniEntry} {ini : ZendIniEntry}

/-- The value an entry sets is the one the directive has, or one its handler refuses. -/
def SetsNothing (accepts : IniHandler → ZendString → ZendString → Bool) (e : SpIniEntry) (ini : ZendIniEntry) :
    Prop :=
  ∀ v, e.set = some v → (ini.onModify.all fun h => accepts h e.key v) = true → ini.value = some v

/-- The entry hooks its directive, or the directive has a handler of its own. -/
def TakesNothing (cfg : SpConfigIni) (e : SpIniEntry) (ini : ZendIniEntry) : Prop :=
  iniChecked cfg e = true ∨ ini.onModify ≠ some .spIniOnmodify ∨ e.origOnmodify = some .spIniOnmodify

theorem valueSet_eq_iff : valueSet accepts e ini = ini.value ↔ SetsNothing accepts e ini := by
  unfold valueSet SetsNothing
  cases hs : e.set with
  | none => simp
  | some v =>
    dsimp only
    split_ifs with ha
    · constructor
      · rintro h _ ⟨⟩ -
        exact h.symm
      · exact fun h => (h v rfl ha).symm
    · exact iff_of_true rfl fun v' hv' ha' => absurd (Option.some.inj hv' ▸ ha') ha

/-- **Unhooking undoes hooking** on a directive, exactly if no other value has been set and no handler of the
module's is taken away that hooking has not put there. -/
theorem unhook_restores_iff (hk : Keyed cfg.entries.entries) :
    ∃ t, Yields (spHookIni w g accepts cfg d) t ∧
      ∀ k, (spUnhookIni t.entries t.directives).directives.find? k = d.find? k ↔
        ∀ e ini, cfg.entries.find? k = some e → d.find? k = some ini →
          SetsNothing accepts e ini ∧ TakesNothing cfg e ini := by
  obtain ⟨t, hy⟩ := @exists_yields_spHookIni w g accepts cfg d
  refine ⟨t, hy, fun k => ?_⟩
  rw [find?_eq_iff, valueOf_unhook_hook hk hy, onModifyOf_unhook_hook_eq hk hy]
  cases hf : cfg.entries.find? k with
  | none => exact iff_of_true ⟨rfl, rfl⟩ fun _ _ h => nomatch h
  | some e =>
    have hek : e.key = k := hk _ (OrdTable.find?_eq_some.mp hf)
    cases hd : d.find? k with
    | none =>
      refine iff_of_true ⟨?_, ?_⟩ fun _ _ _ h => nomatch h
      · unfold valueOf
        rw [hd]
        rfl
      · unfold onModifyOf
        rw [hd]
        exact if_neg nofun
    | some ini =>
      have hvalue : (some ini).map (valueSet accepts e) = valueOf d k ↔ SetsNothing accepts e ini := by
        unfold valueOf
        rw [hd, Option.map_some, Option.map_some, Option.some_inj]
        exact valueSet_eq_iff
      have hhandler : (if hooks cfg d e = false ∧ onModifyOf d k = some (some .spIniOnmodify) then
            some e.origOnmodify else onModifyOf d k) = onModifyOf d k ↔ TakesNothing cfg e ini := by
        unfold hooks onModifyOf TakesNothing
        rw [hek, hd]
        by_cases hc : iniChecked cfg e = true <;> by_cases ho : ini.onModify = some .spIniOnmodify <;>
          simp [hc, ho]
      constructor
      · rintro ⟨hv, ho⟩ _ _ ⟨⟩ ⟨⟩
        exact ⟨hvalue.mp hv, hhandler.mp ho⟩
      · intro h
        obtain ⟨hs, ht⟩ := h e ini rfl rfl
        exact ⟨hvalue.mpr hs, hhandler.mpr ht⟩

/-- The rule `sp.ini.key("display_errors").set("0");`. -/
def setsDisplayErrors : SpIniEntry := { key := zstr "display_errors", set := some (zstr "0") }

/-- It is the only rule. -/
def setsOne : SpConfigIni where
  enable := true
  entries := OrdTable.empty.insert (zstr "display_errors") setsDisplayErrors

/-- `display_errors`, with its value. -/
def displayErrors (value : String) : IniDirectives :=
  OrdTable.empty.insert (zstr "display_errors") { value := some (zstr value) }

theorem keyed_setsOne : Keyed setsOne.entries.entries := by
  intro x hx
  cases List.mem_singleton.mp hx
  rfl

theorem unhook_restores_off :
    ∃ t, Yields (spHookIni (World.empty 80200) {} (fun _ _ _ => true) setsOne (displayErrors "0")) t ∧
      ∀ k, (spUnhookIni t.entries t.directives).directives.find? k = (displayErrors "0").find? k ↔
        ∀ e ini, setsOne.entries.find? k = some e → (displayErrors "0").find? k = some ini →
          SetsNothing (fun _ _ _ => true) e ini ∧ TakesNothing setsOne e ini :=
  unhook_restores_iff keyed_setsOne

/-- **A value that is set stays** when the configuration goes. -/
theorem value_stays : ∃ t,
    Yields (spHookIni (World.empty 80200) {} (fun _ _ _ => true) setsOne (displayErrors "1")) t ∧
      (displayErrors "1").find? (zstr "display_errors") = some { value := some (zstr "1") } ∧
      (spUnhookIni t.entries t.directives).directives.find? (zstr "display_errors") =
        some { value := some (zstr "0") } :=
  ⟨_, rfl, rfl, rfl⟩

end Undo

end Snuffleupagus.Ini.Unhook
