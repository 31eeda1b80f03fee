import Snuffleupagus.Load.History

/-! # The wrappers over many loads

The whitelist of a configuration is applied to the table of the whole process when a request starts, and
no later load puts anything back. `Remaining` says what is left of the table whenever something happens;
so the wrappers of a request are those a fresh module has with the same configuration exactly if no
earlier whitelist that has been applied lacks one of them (`wrappers_fresh_iff`). The wrapper for `php`
looks at the configuration in force, whichever configuration has registered it. -/

namespace Snuffleupagus.Wrapper.History

open Snuffleupagus.Lib.Effect Snuffleupagus.Lib.Table
open Snuffleupagus.Php.Bytes Snuffleupagus.Php.Engine Snuffleupagus.Config.Rule
open Snuffleupagus.Log hiding Event
open Snuffleupagus.Config.Keyword hiding spProcessRule
open Snuffleupagus.Config.Sound Snuffleupagus.Hook.Table Snuffleupagus.Ini.Hook
open Snuffleupagus.Wrapper.Table Snuffleupagus.Load.Module Snuffleupagus.Load.Cases
open Snuffleupagus.Load.History

/-! ### Rounds -/

/-- A configuration is loaded, and some requests are served. -/
structure Round where
  env : Environment
  newValue : ZendString
  requests : ℕ

/-- What happens in a round. -/
def Round.events (c : Round) : List Event :=
  .load c.env c.newValue :: List.replicate c.requests .request

/-- The round, with one more request. -/
def Round.oneMore (c : Round) : Round := { c with requests := c.requests + 1 }

/-- The wrappers a whitelist leaves. -/
def allows (c : SpConfigWrapper) (k : ZendString) : Bool :=
  !c.enabled || c.whitelist.any fun s => equalsCi k s

/-- The wrappers a configuration leaves, if it has been accepted. -/
def Round.allows (allowBroken : Bool) (c : Round) (k : ZendString) : Bool :=
  (readConfiguration allowBroken c.env c.newValue).all fun g => History.allows g.wrapper k

/-- The wrappers a round leaves: the whitelist is applied when a request starts. -/
def Round.leaves (allowBroken : Bool) (c : Round) (k : ZendString) : Bool :=
  decide (c.requests = 0) || c.allows allowBroken k

/-- Is the stream opened by the wrapper for `php`? -/
def openPhp (w : World) (g : SpGlobals) (t : StreamWrappers) (path : ZendString) : Sp Bool :=
  match t.find? (zstr "php") with
  | none => pure false
  | some (.php _) => pure true
  | some .spPhp => spPhpStreamUrlWrapPhp w g path

/-- **The same wrappers are there**, and `php` opens the same streams. -/
structure SameWrappers (m m' : SpModule) : Prop where
  others : ∀ k, k ≠ zstr "php" → m.wrappers.find? k = m'.wrappers.find? k
  php : (m.wrappers.find? (zstr "php")).isSome = (m'.wrappers.find? (zstr "php")).isSome
  opens : ∀ w path, openPhp w m.globals m.wrappers path = openPhp w m'.globals m'.wrappers path

/-! ### What is left of the table -/

/-- The entry of a table, if it is among those left. -/
def leftEntry (w₀ : StreamWrappers) (left : ZendString → Bool) (k : ZendString) : Option StreamWrapper :=
  if left k then w₀.find? k else none

/-- **What is left of the table `w₀`**: the wrappers `left`. The one for `php` may be the module's, and
is with a list of streams. -/
structure Remaining (p : PhpProcess) (w₀ : StreamWrappers) (left : ZendString → Bool) (m : SpModule) :
    Prop where
  others : ∀ k, k ≠ zstr "php" → m.wrappers.find? k = leftEntry w₀ left k
  php : m.wrappers.find? (zstr "php") = leftEntry w₀ left (zstr "php") ∨
    dumps p = false ∧
      m.wrappers.find? (zstr "php") = (leftEntry w₀ left (zstr "php")).map fun _ => .spPhp
  filtered : dumps p = false → spPhpStreamIsFiltered m.globals = true →
    m.wrappers.find? (zstr "php") = (leftEntry w₀ left (zstr "php")).map fun _ => .spPhp
  off : m.isConfigValid ≠ .valid → m.globals.wrapper = {}
  counted : m.globals.wrapper.numWrapper ≠ 0 → ∀ k, (m.wrappers.find? k).isSome = true →
    wrapperIsWhitelisted m.globals k = true

section Remaining
variable {p : PhpProcess} {e : Environment} {allowBroken : Bool} {t₀ : FunctionTable} {d₀ : IniDirectives}
  {w₀ : StreamWrappers} {left left' : ZendString → Bool} {m m' : SpModule} {newValue : ZendString} {ok : Bool}

theorem isSome_wrappers (hm : Remaining p w₀ left m) (k : ZendString) :
    (m.wrappers.find? k).isSome = (leftEntry w₀ left k).isSome := by
  by_cases hk : k = zstr "php"
  · subst hk
    rcases hm.php with h | ⟨-, h⟩
    · rw [h]
    · rw [h, Option.isSome_map]
  · rw [hm.others k hk]

theorem remaining_freshModule :
    Remaining p w₀ (fun _ => true) (freshModule allowBroken t₀ d₀ w₀) where
  others _ _ := rfl
  php := Or.inl rfl
  filtered _ h := by cases h
  off _ := rfl
  counted h := absurd rfl h

/-- A load removes no wrapper. -/
theorem Remaining.load (hm : Remaining p w₀ left m) (hr : Reached allowBroken t₀ m)
    (hy : Yields (spLoadConfig p e newValue m) (ok, m')) : Remaining p w₀ left m' := by
  have hreset : (resetModule m).wrappers = m.wrappers := by
    unfold resetModule
    split_ifs <;> rfl
  have hothers : ∀ k, k ≠ zstr "php" → (resetModule m).wrappers.find? k = leftEntry w₀ left k := by
    rw [hreset]
    exact hm.others
  have hphp : (resetModule m).wrappers.find? (zstr "php") = leftEntry w₀ left (zstr "php") ∨
      dumps p = false ∧ (resetModule m).wrappers.find? (zstr "php") =
        (leftEntry w₀ left (zstr "php")).map fun _ => .spPhp := by
    rw [hreset]
    exact hm.php
  cases hr.outcome hy with
  | failed hread =>
    exact ⟨hothers, hphp, fun _ h => (by cases h), fun _ => rfl, fun h => absurd rfl h⟩
  | dumped hread hdumps =>
    obtain ⟨-, hn⟩ := tested_of_readConfiguration hread
    refine ⟨hothers, hphp, fun h => ?_, fun h => absurd rfl h, fun h => absurd hn h⟩
    cases h.symm.trans hdumps
  | @started g s d _ hread hdumps hs =>
    obtain ⟨ht, hn⟩ := tested_of_readConfiguration hread
    have hwrapper : m'.globals.wrapper = g.wrapper := (congrArg SpGlobals.wrapper hs.globals :)
    have hmap : ∀ o : Option StreamWrapper,
        (o.map fun _ => StreamWrapper.spPhp).map (fun _ => StreamWrapper.spPhp) =
          o.map fun _ => StreamWrapper.spPhp := by
      intro o
      cases o <;> rfl
    have hsame : spPhpStreamIsFiltered m'.globals = spPhpStreamIsFiltered g := by
      unfold spPhpStreamIsFiltered
      rw [hwrapper]
    refine ⟨fun k hk => ?_, ?_, fun _ hf => ?_, fun h => absurd hs.isConfigValid h, fun h => ?_⟩
    · rw [hs.wrappers, if_neg fun h => hk h.2.2]
      exact hothers k hk
    · rw [hs.wrappers]
      split_ifs
      · right
        rcases hphp with h | ⟨-, h⟩
        · exact ⟨hdumps, by rw [h]⟩
        · exact ⟨hdumps, by rw [h, hmap]⟩
      · exact hphp
    · rw [hsame] at hf
      have henabled : g.wrapper.enabled = true := by
        refine ht.wrapper fun hnil => ?_
        unfold spPhpStreamIsFiltered at hf
        rw [hnil] at hf
        cases hf
      rw [hs.wrappers, if_pos ⟨henabled, hf, rfl⟩]
      rcases hphp with h | ⟨-, h⟩
      · rw [h]
      · rw [h, hmap]
    · rw [hwrapper] at h
      exact absurd hn h

theorem leftEntry_and (k : ZendString) (a : ZendString → Bool) :
    leftEntry w₀ (fun k => left k && a k) k = if a k then leftEntry w₀ left k else none := by
  unfold leftEntry
  by_cases hl : left k = true <;> by_cases ha : a k = true <;> simp [hl, ha]

/-- A filter that lets everything through that is there. -/
theorem Remaining.all (hm : Remaining p w₀ left m) {a : ZendString → Bool}
    (ha : ∀ k, (m.wrappers.find? k).isSome = true → a k = true) :
    Remaining p w₀ (fun k => left k && a k) m := by
  have hentry : ∀ k, leftEntry w₀ (fun k => left k && a k) k = leftEntry w₀ left k := by
    intro k
    rw [leftEntry_and]
    split_ifs with h
    · rfl
    · have hnone : ¬ (leftEntry w₀ left k).isSome = true := by
        rw [← isSome_wrappers hm k]
        exact fun hs => h (ha k hs)
      exact (Option.not_isSome_iff_eq_none.mp hnone).symm
  refine ⟨fun k hk => ?_, ?_, ?_, hm.off, hm.counted⟩
  · rw [hentry]
    exact hm.others k hk
  · rw [hentry]
    exact hm.php
  · rw [hentry]
    exact hm.filtered

/-- The filter of a whitelist. -/
theorem Remaining.filter (hm : Remaining p w₀ left m) {n : ℕ} (hv : m.isConfigValid = .valid) :
    Remaining p w₀ (fun k => left k && wrapperIsWhitelisted m.globals k)
      { m with wrappers := spDisableWrapper m.globals m.wrappers
               globals := Config.Features.onWrapper (fun c => { c with numWrapper := n }) m.globals } := by
  refine ⟨fun k hk => ?_, ?_, fun hd hf => ?_, fun h => absurd hv h, fun _ k hk => ?_⟩
  · rw [leftEntry_and, ← hm.others k hk]
    exact find?_spDisableWrapper
  · rw [leftEntry_and]
    show (spDisableWrapper m.globals m.wrappers).find? _ = _ ∨ _ ∧
      (spDisableWrapper m.globals m.wrappers).find? _ = _
    rw [find?_spDisableWrapper]
    split_ifs
    · exact hm.php
    · exact Or.inl rfl
  · rw [leftEntry_and]
    show (spDisableWrapper m.globals m.wrappers).find? _ = _
    rw [find?_spDisableWrapper]
    split_ifs
    · exact hm.filtered hd hf
    · rfl
  · change ((spDisableWrapper m.globals m.wrappers).find? k).isSome = true at hk
    rw [find?_spDisableWrapper] at hk
    split_ifs at hk with h
    · exact h
    · cases hk

/-- **A request applies the whitelist in force.** -/
theorem Remaining.request (hm : Remaining p w₀ left m) (hr : Reached allowBroken t₀ m) :
    Remaining p w₀ (fun k => left k && allows m.globals.wrapper k) (rinitModule m) := by
  have hoff : m.isConfigValid ≠ .valid → ∀ k, allows m.globals.wrapper k = true := by
    intro h k
    rw [hm.off h]
    rfl
  unfold rinitModule
  rw [hr.resetCounters_eq]
  dsimp only
  split_ifs with hi ha hn
  · exact hm.all fun k _ => hoff (by rw [hi]; decide) k
  · have hall := hm.all (a := allows m.globals.wrapper) fun k _ => hoff (by rw [hi]; decide) k
    exact ⟨hall.others, hall.php, hall.filtered, hall.off, hall.counted⟩
  · refine hm.all fun k _ => hoff ?_ k
    rw [of_decide_eq_true (Bool.and_eq_true_iff.mp hn).2]
    decide
  · unfold filterWrappers
    by_cases he : m.globals.wrapper.enabled = true
    · have hallows : allows m.globals.wrapper = wrapperIsWhitelisted m.globals := by
        funext k
        unfold allows wrapperIsWhitelisted
        rw [he]
        rfl
      have hv : m.isConfigValid = .valid := by
        by_contra hv
        rw [hm.off hv] at he
        cases he
      rw [hallows]
      split_ifs with hf
      · exact hm.filter hv
      · -- the table has been filtered before, or it is empty
        refine hm.all fun k hk => ?_
        rw [he, Bool.true_and, decide_eq_true_iff, not_not] at hf
        refine hm.counted (fun h0 => ?_) k hk
        rw [h0] at hf
        rw [OrdTable.find?, List.length_eq_zero_iff.mp hf] at hk
        cases hk
    · rw [if_neg fun h => he (Bool.and_eq_true_iff.mp h).1]
      refine hm.all fun k _ => ?_
      unfold allows
      rw [Bool.eq_false_iff.mpr he]
      rfl

/-! ### Rounds -/

theorem allows_rinitModule (m : SpModule) :
    allows (rinitModule m).globals.wrapper = allows m.globals.wrapper := by
  obtain ⟨_, _, _, hrinit⟩ := exists_rinitModule m
  rw [hrinit]
  rfl

/-- Requests one after the other. -/
theorem Remaining.requests : ∀ (n : ℕ) {left : ZendString → Bool} {m : SpModule}, Remaining p w₀ left m →
    Reached allowBroken t₀ m → Yields (history p (List.replicate n .request) m) m' →
    Remaining p w₀ (fun k => left k && (decide (n = 0) || allows m.globals.wrapper k)) m'
  | 0, left, m, hm, _, hy => by
    cases yields_pure.mp hy
    exact hm.all fun _ _ => rfl
  | n + 1, left, m, hm, hr, hy => by
    rw [List.replicate_succ, history, List.foldlM_cons] at hy
    obtain ⟨m₁, h₁, hy⟩ := yields_bind.mp hy
    cases yields_pure.mp h₁
    have h := Remaining.requests n (hm.request hr) hr.request hy
    rw [allows_rinitModule] at h
    have hleft : (fun k => (left k && allows m.globals.wrapper k) &&
        (decide (n = 0) || allows m.globals.wrapper k)) =
        fun k => left k && (decide (n + 1 = 0) || allows m.globals.wrapper k) := by
      funext k
      cases left k <;> cases allows m.globals.wrapper k <;> simp
    rw [hleft] at h
    exact h

/-- The whitelist in force after a load. -/
theorem allows_load (hr : Reached allowBroken t₀ m)
    (hy : Yields (spLoadConfig p e newValue m) (ok, m')) (k : ZendString) :
    allows m'.globals.wrapper k =
      (readConfiguration allowBroken e newValue).all fun g => allows g.wrapper k := by
  cases hr.outcome hy with
  | failed hread =>
    rw [hread]
    rfl
  | dumped hread _ =>
    rw [hread]
    rfl
  | started hread _ hs =>
    rw [hread]
    exact congrArg (fun g => allows g.wrapper k) hs.globals

theorem Remaining.round {c : Round} (hm : Remaining p w₀ left m) (hr : Reached allowBroken t₀ m)
    (hy : Yields (history p c.events m) m') :
    Remaining p w₀ (fun k => left k && c.leaves allowBroken k) m' ∧ Reached allowBroken t₀ m' := by
  refine ⟨?_, hr.history hy⟩
  rw [Round.events, history, List.foldlM_cons] at hy
  obtain ⟨m₁, h₁, hy⟩ := yields_bind.mp hy
  obtain ⟨⟨ok, m₁⟩, hload, rfl⟩ := yields_map.mp h₁
  have h := Remaining.requests c.requests (hm.load hr hload) (hr.load hload) hy
  have hallows : allows m₁.globals.wrapper = c.allows allowBroken :=
    funext (allows_load hr hload)
  rw [hallows] at h
  exact h

/-- **What many rounds leave.** -/
theorem Remaining.rounds : ∀ (l : List Round) {left : ZendString → Bool} {m : SpModule},
    Remaining p w₀ left m → Reached allowBroken t₀ m →
    Yields (history p (l.flatMap Round.events) m) m' →
    Remaining p w₀ (fun k => left k && l.all fun c => c.leaves allowBroken k) m' ∧
      Reached allowBroken t₀ m'
  | [], left, m, hm, hr, hy => by
    cases yields_pure.mp hy
    exact ⟨hm.all fun _ _ => rfl, hr⟩
  | c :: l, left, m, hm, hr, hy => by
    rw [List.flatMap_cons, history, List.foldlM_append] at hy
    obtain ⟨m₁, h₁, hy⟩ := yields_bind.mp hy
    obtain ⟨hm₁, hr₁⟩ := hm.round hr h₁
    obtain ⟨h, hr'⟩ := Remaining.rounds l hm₁ hr₁ hy
    refine ⟨?_, hr'⟩
    simpa only [List.all_cons, Bool.and_assoc] using h

end Remaining

/-! ### The wrapper for `php` -/

/-- The configuration, without the number of the wrappers and the rules on directives. -/
def uncounted (g : SpGlobals) : SpGlobals :=
  Config.Features.onWrapper (fun c => { c with numWrapper := 0 }) (withEntries .empty g)

section Php
variable {p : PhpProcess} {allowBroken : Bool} {t₀ : FunctionTable} {w₀ : StreamWrappers}
  {left left' : ZendString → Bool} {m m' : SpModule}

theorem uncounted_rinitModule (hr : Reached allowBroken t₀ m) (hv : m.isConfigValid = .valid) :
    uncounted (rinitModule m).globals = uncounted m.globals := by
  unfold rinitModule filterWrappers
  rw [hr.resetCounters_eq]
  dsimp only
  rw [if_neg (by rw [hv]; decide)]
  split_ifs <;> rfl

theorem spPhpStreamUrlWrapPhp_uncounted (w : World) (g : SpGlobals) (path : ZendString) :
    spPhpStreamUrlWrapPhp w (uncounted g) path = spPhpStreamUrlWrapPhp w g path := rfl

/-- Without a list of streams `php` opens them all, whoever's wrapper it is. -/
theorem openPhp_unfiltered {g : SpGlobals} (hf : spPhpStreamIsFiltered g = false) (w : World)
    (t : StreamWrappers) (path : ZendString) :
    openPhp w g t path = pure (t.find? (zstr "php")).isSome := by
  unfold openPhp
  rcases t.find? (zstr "php") with _ | ⟨_ | _⟩
  · rfl
  · rfl
  · unfold spPhpStreamUrlWrapPhp
    rw [hf]
    rfl

/-- `php` opens the streams on the list in force, or all of them if there is no list. -/
theorem Remaining.openPhp (hm : Remaining p w₀ left m) (hd : dumps p = false) (w : World)
    (path : ZendString) : History.openPhp w m.globals m.wrappers path =
      if left (zstr "php") && (w₀.find? (zstr "php")).isSome then spPhpStreamUrlWrapPhp w m.globals path
      else pure false := by
  have hsome : (m.wrappers.find? (zstr "php")).isSome =
      (left (zstr "php") && (w₀.find? (zstr "php")).isSome) := by
    rw [isSome_wrappers hm, leftEntry]
    split_ifs with hl
    · rw [hl, Bool.true_and]
    · rw [Bool.eq_false_iff.mpr hl]
      rfl
  rw [← hsome]
  by_cases hf : spPhpStreamIsFiltered m.globals = true
  · have hentry := hm.filtered hd hf
    unfold History.openPhp
    rw [hentry]
    cases leftEntry w₀ left (zstr "php") <;> rfl
  · have hf := Bool.eq_false_iff.mpr hf
    rw [openPhp_unfiltered hf]
    unfold spPhpStreamUrlWrapPhp
    rw [hf]
    cases (m.wrappers.find? (zstr "php")).isSome <;> rfl

/-- **`php` opens the same streams**, if the configurations and what is left of the table are the same. -/
theorem openPhp_eq (hm : Remaining p w₀ left m) (hm' : Remaining p w₀ left' m')
    (hleft : leftEntry w₀ left (zstr "php") = leftEntry w₀ left' (zstr "php"))
    (hv : m.isConfigValid = m'.isConfigValid)
    (hg : m.isConfigValid = .valid → uncounted m.globals = uncounted m'.globals) (w : World)
    (path : ZendString) : openPhp w m.globals m.wrappers path = openPhp w m'.globals m'.wrappers path := by
  have hsome : (m.wrappers.find? (zstr "php")).isSome = (m'.wrappers.find? (zstr "php")).isSome := by
    rw [isSome_wrappers hm, isSome_wrappers hm', hleft]
  by_cases hvalid : m.isConfigValid = .valid
  · have hsame : spPhpStreamIsFiltered m.globals = spPhpStreamIsFiltered m'.globals :=
      (congrArg spPhpStreamIsFiltered (hg hvalid) :)
    by_cases hf : spPhpStreamIsFiltered m.globals = true
    · have hentry : m.wrappers.find? (zstr "php") = m'.wrappers.find? (zstr "php") := by
        cases hd : dumps p with
        | false => rw [hm.filtered hd hf, hm'.filtered hd (hsame ▸ hf), hleft]
        | true =>
          rcases hm.php with h | ⟨h, -⟩
          · rcases hm'.php with h' | ⟨h', -⟩
            · rw [h, h', hleft]
            · cases hd.symm.trans h'
          · cases hd.symm.trans h
      unfold openPhp
      rw [hentry, ← spPhpStreamUrlWrapPhp_uncounted w m.globals, hg hvalid]
      rfl
    · have hf := Bool.eq_false_iff.mpr hf
      rw [openPhp_unfiltered hf, openPhp_unfiltered (hsame ▸ hf), hsome]
  · have hf : spPhpStreamIsFiltered m.globals = false := by
      unfold spPhpStreamIsFiltered
      rw [hm.off hvalid]
      rfl
    have hf' : spPhpStreamIsFiltered m'.globals = false := by
      unfold spPhpStreamIsFiltered
      rw [hm'.off (hv ▸ hvalid)]
      rfl
    rw [openPhp_unfiltered hf, openPhp_unfiltered hf', hsome]

/-- **The same wrappers are there exactly if** the same ones are left of the initial table. -/
theorem sameWrappers_iff (hm : Remaining p w₀ left m) (hm' : Remaining p w₀ left' m')
    (hv : m.isConfigValid = m'.isConfigValid)
    (hg : m.isConfigValid = .valid → uncounted m.globals = uncounted m'.globals) :
    SameWrappers m m' ↔ ∀ k, (w₀.find? k).isSome = true → left k = left' k := by
  constructor
  · intro hs k hk
    have hsome : (m.wrappers.find? k).isSome = (m'.wrappers.find? k).isSome := by
      by_cases hp : k = zstr "php"
      · rw [hp]
        exact hs.php
      · rw [hs.others k hp]
    rw [isSome_wrappers hm, isSome_wrappers hm', leftEntry, leftEntry] at hsome
    cases hl : left k <;> cases hl' : left' k <;> simp [hl, hl', hk] at hsome ⊢
  · intro hleft
    have hentry : ∀ k, leftEntry w₀ left k = leftEntry w₀ left' k := by
      intro k
      unfold leftEntry
      cases hk : w₀.find? k with
      | none => rw [ite_self, ite_self]
      | some s => rw [hleft k (by rw [hk]; rfl)]
    refine ⟨fun k hk => ?_, ?_, openPhp_eq hm hm' (hentry _) hv hg⟩
    · rw [hm.others k hk, hm'.others k hk, hentry]
    · rw [isSome_wrappers hm, isSome_wrappers hm', hentry]

end Php

/-! ### The wrappers of a request -/

section Fresh
variable {p : PhpProcess} {allowBroken : Bool} {t₀ : FunctionTable} {d₀ : IniDirectives}
  {w₀ : StreamWrappers} {m m' r r' : SpModule} {l l' : List Round} {c : Round}

/-- A load and a few requests, from two modules. -/
theorem round_determined (hr : Reached allowBroken t₀ r) (hr' : Reached allowBroken t₀ r')
    (hy : Yields (history p c.events r) m) (hy' : Yields (history p c.events r') m') :
    m.isConfigValid = m'.isConfigValid ∧
      (m.isConfigValid = .valid → uncounted m.globals = uncounted m'.globals) := by
  -- a request keeps what is compared
  have hrequests : ∀ (n : ℕ) {r m : SpModule}, Reached allowBroken t₀ r →
      Yields (history p (List.replicate n .request) r) m → m.isConfigValid = r.isConfigValid ∧
        (r.isConfigValid = .valid → uncounted m.globals = uncounted r.globals) := by
    intro n
    induction n with
    | zero =>
      intro r m _ hy
      cases yields_pure.mp hy
      exact ⟨rfl, fun _ => rfl⟩
    | succ n ih =>
      intro r m hr hy
      rw [List.replicate_succ, history, List.foldlM_cons] at hy
      obtain ⟨r₁, h₁, hy⟩ := yields_bind.mp hy
      cases yields_pure.mp h₁
      have hvalid : (rinitModule r).isConfigValid = r.isConfigValid := by
        obtain ⟨_, _, _, hrinit⟩ := exists_rinitModule r
        rw [hrinit]
      obtain ⟨hv, hg⟩ := ih hr.request hy
      rw [hvalid] at hv hg
      exact ⟨hv, fun h => (hg h).trans (uncounted_rinitModule hr h)⟩
  rw [Round.events, history, List.foldlM_cons] at hy hy'
  obtain ⟨r₁, h₁, hy⟩ := yields_bind.mp hy
  obtain ⟨r₁', h₁', hy'⟩ := yields_bind.mp hy'
  obtain ⟨⟨ok, r₁⟩, hload, rfl⟩ := yields_map.mp h₁
  obtain ⟨⟨ok', r₁'⟩, hload', rfl⟩ := yields_map.mp h₁'
  obtain ⟨-, -, hv, hrest⟩ := load_determined hr hr' hload hload'
  obtain ⟨hvm, hgm⟩ := hrequests _ (hr.load hload) hy
  obtain ⟨hvm', hgm'⟩ := hrequests _ (hr'.load hload') hy'
  refine ⟨by rw [hvm, hvm', hv], fun h => ?_⟩
  rw [hgm (hvm ▸ h), hgm' (by rw [← hv, ← hvm]; exact h)]
  exact congrArg (Config.Features.onWrapper fun c => { c with numWrapper := 0 }) hrest

end Fresh

/-- **The wrappers of a request are those of a fresh module exactly if** the whitelists that have been
applied before have each of them. In a fresh module they are the ones on the whitelist. -/
theorem wrappers_fresh_iff (p : PhpProcess) (allowBroken : Bool) (t₀ : FunctionTable) (d₀ : IniDirectives)
    (w₀ : StreamWrappers) (l : List Round) (c : Round) :
    ∃ m₁ m₂, Yields (history p ((l ++ [c.oneMore]).flatMap Round.events)
        (freshModule allowBroken t₀ d₀ w₀)) m₁ ∧
      Yields (history p c.oneMore.events (freshModule allowBroken t₀ d₀ w₀)) m₂ ∧
      (∀ k, (m₂.wrappers.find? k).isSome = (c.allows allowBroken k && (w₀.find? k).isSome)) ∧
      (dumps p = false → ∀ w path, openPhp w m₂.globals m₂.wrappers path =
        if c.allows allowBroken (zstr "php") && (w₀.find? (zstr "php")).isSome then
          spPhpStreamUrlWrapPhp w m₂.globals path
        else pure false) ∧
      (SameWrappers m₁ m₂ ↔
        ∀ k, (w₀.find? k).isSome = true → c.allows allowBroken k = true →
          ∀ c' ∈ l, c'.requests ≠ 0 → c'.allows allowBroken k = true) := by
  obtain ⟨r, hl⟩ := exists_history p (l.flatMap Round.events) (freshModule allowBroken t₀ d₀ w₀)
  obtain ⟨m₁, h₁⟩ := exists_history p c.oneMore.events r
  obtain ⟨m₂, h₂⟩ := exists_history p c.oneMore.events (freshModule allowBroken t₀ d₀ w₀)
  have hfresh : Reached allowBroken t₀ (freshModule allowBroken t₀ d₀ w₀) := reached_freshModule
  obtain ⟨hm, hr⟩ := Remaining.rounds l remaining_freshModule hfresh hl
  obtain ⟨hm₁, -⟩ := hm.round hr h₁
  obtain ⟨hm₂, -⟩ := remaining_freshModule.round hfresh h₂
  obtain ⟨hv, hg⟩ := round_determined hr hfresh h₁ h₂
  have hleaves : ∀ k, c.oneMore.leaves allowBroken k = c.allows allowBroken k := fun k => by
    simp [Round.leaves, Round.allows, Round.oneMore]
  refine ⟨m₁, m₂, ?_, h₂, fun k => ?_, fun hd w path => ?_, ?_⟩
  · rw [List.flatMap_append, history, List.foldlM_append]
    refine yields_bind.mpr ⟨r, hl, ?_⟩
    rw [List.flatMap_singleton]
    exact h₁
  · rw [isSome_wrappers hm₂, leftEntry, Bool.true_and, hleaves]
    cases c.allows allowBroken k <;> rfl
  · rw [hm₂.openPhp hd, Bool.true_and, hleaves]
  · have hcond : ∀ k, (l.all fun c => c.leaves allowBroken k) = true ↔
        ∀ c' ∈ l, c'.requests ≠ 0 → c'.allows allowBroken k = true := by
      intro k
      simp only [List.all_eq_true, Round.leaves, Bool.or_eq_true, decide_eq_true_iff]
      exact forall₂_congr fun c _ => or_iff_not_imp_left
    rw [sameWrappers_iff hm₁ hm₂ hv hg]
    refine forall₂_congr fun k _ => ?_
    rw [← hcond, hleaves]
    cases c.allows allowBroken k <;> cases l.all fun c => c.leaves allowBroken k <;> simp

/-- `php` and `http` are the wrappers of PHP. -/
def phpAndHttp : StreamWrappers := ⟨[(zstr "php", .php 0), (zstr "http", .php 1)], by decide⟩

/-- A whitelist without `http`, applied to one request. -/
def withoutHttp : Round := ⟨ofRules [[keyword "wrappers_whitelist", strKeyword "list" "php"]], zstr "a.rules", 1⟩

/-- A configuration without a whitelist. -/
def noWhitelist : Round := ⟨ofRules [], zstr "b.rules", 0⟩

/-- A wrapper an earlier whitelist has taken away does not come back. -/
theorem http_stays_away :
    ∃ m₁ m₂, Yields (history cliProcess (([withoutHttp] ++ [noWhitelist.oneMore]).flatMap Round.events)
        (freshModule false ⟨.empty, by decide⟩ .empty phpAndHttp)) m₁ ∧
      Yields (history cliProcess noWhitelist.oneMore.events
        (freshModule false ⟨.empty, by decide⟩ .empty phpAndHttp)) m₂ ∧
      m₁.isConfigValid = .valid ∧ ¬ SameWrappers m₁ m₂ := by
  obtain ⟨m₁, h₁, hv, hnone⟩ := exists_of_yieldsA (x := history cliProcess
    (([withoutHttp] ++ [noWhitelist.oneMore]).flatMap Round.events)
    (freshModule false ⟨.empty, by decide⟩ .empty phpAndHttp))
    (p := fun m => m.isConfigValid = .valid ∧ m.wrappers.find? (zstr "http") = none) (by decide +kernel)
  obtain ⟨m₂, h₂, hsome⟩ := exists_of_yieldsA (x := history cliProcess noWhitelist.oneMore.events
    (freshModule false ⟨.empty, by decide⟩ .empty phpAndHttp))
    (p := fun m => m.wrappers.find? (zstr "http") = some (.php 1)) (by decide +kernel)
  refine ⟨m₁, m₂, h₁, h₂, hv, fun h => ?_⟩
  have hsame := h.others (zstr "http") (by decide)
  rw [hnone, hsome] at hsame
  cases hsame

end Snuffleupagus.Wrapper.History
