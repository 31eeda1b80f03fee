import Snuffleupagus.Match.VarValue
import Mathlib.Logic.Function.Basic

/-! # Properties of an object

PHP stores the properties of an object under mangled names: that of a protected property tells that it is
one, and that of a private property the class that declares it. `PropId` is what a name stands for, and
`Layout` the slots of an object of a class with parents. A slot of a declared property may be empty: the
property has been unset, or not been initialized yet.

`get_object_property` tries the names of a public and of a protected property, and of a private one of the
class of the object. Behind each of them it tries an integer key, as for an array, and in front of all it
takes the value of a constant of that name for the name of the property. `resolves_iff` says for which
objects it finds the property nevertheless, whatever the values in the slots are. -/

namespace Snuffleupagus.Match.Property

open Snuffleupagus.Lib.Effect Snuffleupagus.Lib.Table Snuffleupagus.Php.Bytes Snuffleupagus.Php.Value
open Snuffleupagus.Php.Engine Snuffleupagus.Config.Rule Snuffleupagus.Log Snuffleupagus.Match.VarValue

/-! ### Names of properties -/

/-- What a key in the table of an object stands for: a property, or an element of an object that is used as
an array. -/
inductive PropId
  | ofPublic (p : ZendString)
  | ofProtected (p : ZendString)
  | ofPrivate (className p : ZendString)
  | ofIndex (i : BitVec 64)
  deriving DecidableEq

namespace PropId

/-- The key. -/
def key : PropId → HashKey
  | ofPublic p => .str p
  | ofProtected p => .str (protectedProp p)
  | ofPrivate className p => .str ([0] ++ className ++ [0] ++ p)
  | ofIndex i => .idx i

/-- PHP refuses names of properties that start with a NUL. A declared property has an identifier for its
name, and a class too, or one that starts with an identifier. -/
def Valid : PropId → Prop
  | ofPublic p => p.head? ≠ some 0
  | ofProtected p => 0 ∉ p
  | ofPrivate className p => 0 ∉ p ∧ cstr className ≠ zstr "*"
  | ofIndex _ => True

/-- Behind the last NUL is the name of the property. -/
theorem append_zero_inj {s t p q : ZendString} (hp : 0 ∉ p) (hq : 0 ∉ q) (h : s ++ [0] ++ p = t ++ [0] ++ q) :
    s = t ∧ p = q := by
  have hsplit : ∀ {s p : ZendString}, 0 ∉ p → (s ++ [0] ++ p).reverse.takeWhile (· ≠ 0) = p.reverse := by
    intro s p hp
    rw [List.reverse_append, List.reverse_append, List.reverse_singleton,
      List.takeWhile_append_of_pos (fun c hc => by
        simp only [ne_eq, decide_eq_true_eq]
        rintro rfl
        exact hp (List.mem_reverse.mp hc))]
    simp
  have hpq : p = q := by
    have heq := congrArg (fun l : ZendString => l.reverse.takeWhile (· ≠ 0)) h
    rw [hsplit hp, hsplit hq] at heq
    exact List.reverse_injective heq
  subst hpq
  exact ⟨List.append_cancel_right (List.append_cancel_right h), rfl⟩

/-- **A key stands for one property only.** -/
theorem key_injective {x y : PropId} (hx : x.Valid) (hy : y.Valid) (h : x.key = y.key) : x = y := by
  have hstar : cstr (zstr "*") = zstr "*" := by decide
  cases x with
  | ofIndex i =>
    cases y with
    | ofIndex j => rw [HashKey.idx.inj h]
    | _ => cases h
  | ofPublic p =>
    cases y with
    | ofPublic q => rw [HashKey.str.inj h]
    | ofIndex j => cases h
    | _ =>
      have hp : p = _ := HashKey.str.inj h
      rw [hp] at hx
      exact absurd rfl hx
  | ofProtected p =>
    cases y with
    | ofPublic q =>
      have hq : _ = q := HashKey.str.inj h
      rw [← hq] at hy
      exact absurd rfl hy
    | ofProtected q => rw [(append_zero_inj hx hy (HashKey.str.inj h)).2]
    | ofPrivate c q =>
      obtain ⟨hc, -⟩ := append_zero_inj hx hy.1 (HashKey.str.inj h)
      have hc : zstr "*" = c := List.append_cancel_left hc
      exact absurd (hc ▸ hstar) hy.2
    | ofIndex j => cases h
  | ofPrivate c p =>
    cases y with
    | ofPublic q =>
      have hq : _ = q := HashKey.str.inj h
      rw [← hq] at hy
      exact absurd rfl hy
    | ofProtected q =>
      obtain ⟨hc, -⟩ := append_zero_inj hx.1 hy (HashKey.str.inj h)
      have hc : c = zstr "*" := List.append_cancel_left hc
      exact absurd (hc ▸ hstar) hx.2
    | ofPrivate d q =>
      obtain ⟨hc, hp⟩ := append_zero_inj hx.1 hy.1 (HashKey.str.inj h)
      rw [List.append_cancel_left hc, hp]
    | ofIndex j => cases h

end PropId

/-! ### Objects -/

/-- A slot: that of a property that is not declared, or a declared one with or without a value. -/
inductive Slot
  | dynamic
  | declared
  | empty
  deriving DecidableEq

/-- A value a property can have. -/
def PropValue := { v : Zval // v.strip = v ∧ v.type ≠ .undef }

/-- **The slots of an object**, of a class with its parents, the nearest one first. -/
structure Layout where
  className : ZendString
  parents : List ZendString
  slots : List (PropId × Slot)
  nodup : (slots.map Prod.fst).Nodup
  valid : ∀ e ∈ slots, e.1.Valid
  identifier : cstr className ≠ zstr "*"
  declared : ∀ c p k, (.ofPrivate c p, k) ∈ slots → c ∈ className :: parents

/-- What is stored in a slot. -/
def Slot.content (v : Zval) : Slot → Zval
  | empty => .indirect .undef
  | dynamic => v
  | declared => .indirect v

/-- What is read from a slot. -/
def Slot.read (v : Zval) : Slot → Zval
  | dynamic => v
  | declared => v
  | empty => .undef

namespace Layout

variable (l : Layout)

/-- The object with the given values. -/
def object (val : PropId → PropValue) : Object :=
  ⟨l.className, l.slots.map fun e => (e.1.key, e.2.content (val e.1).1)⟩

/-- There is a slot, with a value or without. -/
def present (id : PropId) : Bool := (OrdTable.lookup id l.slots).isSome

/-- There is a slot with a value. -/
def defined (id : PropId) : Bool := ((OrdTable.lookup id l.slots).filter (· ≠ .empty)).isSome

/-- The properties of a name an object can have: as seen from its class first, and then from the parents. -/
def namesakes (p : ZendString) : List PropId :=
  [.ofPublic p, .ofProtected p] ++ (l.className :: l.parents).map fun c => .ofPrivate c p

/-- **The property of that name.** -/
def property (p : ZendString) : Option PropId := (l.namesakes p).find? l.defined

/-- The keys `get_object_property` tries, in their order. -/
def tried (p : ZendString) : List PropId :=
  [.ofPublic p, .ofIndex (BitVec.ofInt 64 (atol (cstr p))), .ofProtected p, .ofIndex 0, .ofPrivate (cstr l.className) p,
    .ofIndex 0]

end Layout

variable {l : Layout} {val : PropId → PropValue}

/-- What is found under a key. -/
theorem find_object {id : PropId} (hid : id.Valid) : (zendHashFind (l.object val).properties id.key).map Zval.strip =
    (OrdTable.lookup id l.slots).map (Slot.read (val id).1) := by
  have hvalid := l.valid
  unfold Layout.object zendHashFind
  dsimp only
  generalize l.slots = slots at hvalid
  induction slots with
  | nil => rfl
  | cons e slots ih =>
    obtain ⟨id', k⟩ := e
    have hid' : id'.Valid := hvalid (id', k) List.mem_cons_self
    rw [List.map_cons, OrdTable.lookup, OrdTable.lookup]
    by_cases heq : id' = id
    · subst heq
      rw [if_pos rfl, if_pos rfl]
      cases k with
      | empty => rfl
      | _ => exact congrArg some (val id').2.1
    · rw [if_neg heq, if_neg fun h => heq (PropId.key_injective hid' hid h)]
      exact ih fun e he => hvalid e (List.mem_cons_of_mem _ he)

/-- A search for the first key that is there. -/
theorem find?_present_cons (id : PropId) (ids : List PropId) :
    ((id :: ids).find? l.present).bind (fun x => (OrdTable.lookup x l.slots).map (Slot.read (val x).1)) =
      ((OrdTable.lookup id l.slots).map (Slot.read (val id).1)).or
        ((ids.find? l.present).bind fun x => (OrdTable.lookup x l.slots).map (Slot.read (val x).1)) := by
  rw [List.find?_cons]
  unfold Layout.present
  cases h : OrdTable.lookup id l.slots with
  | none => rfl
  | some k => simp [h]

/-- **The lookup tries one key after the other.** -/
theorem findProperty_eq {p : ZendString} (hp : 0 ∉ p) : findProperty (l.object val) p =
    ((l.tried p).find? l.present).bind fun x => (OrdTable.lookup x l.slots).map (Slot.read (val x).1) := by
  have hpub : (PropId.ofPublic p).Valid := by
    intro hhead
    exact hp (List.mem_of_head? hhead)
  have hprot : (PropId.ofProtected p).Valid := hp
  have hpriv : (PropId.ofPrivate (cstr l.className) p).Valid := ⟨hp, by rw [cstr_cstr]; exact l.identifier⟩
  have hfind : ∀ id : PropId, id.Valid → (OrdTable.lookup id l.slots).map (Slot.read (val id).1) =
      (zendHashFind (l.object val).properties id.key).map Zval.strip := fun id hid => (find_object hid).symm
  have hindex : ∀ i, (PropId.ofIndex i).Valid := fun i => trivial
  unfold Layout.tried
  rw [find?_present_cons, find?_present_cons, find?_present_cons, find?_present_cons, find?_present_cons,
    find?_present_cons, List.find?_nil, Option.bind_none, Option.or_none, hfind _ hpub, hfind _ (hindex _),
    hfind _ hprot, hfind _ (hindex 0), hfind _ hpriv]
  have hentry : ∀ k : ZendString, getEntryHashtable (l.object val).properties k =
      ((zendHashFind (l.object val).properties (.str k)).map Zval.strip).or
        ((zendHashFind (l.object val).properties (.idx (BitVec.ofInt 64 (atol (cstr k))))).map Zval.strip) := by
    intro k
    unfold getEntryHashtable
    rw [Option.map_or]
  unfold findProperty
  rw [hentry, hentry, hentry, Option.or_assoc, Option.or_assoc, Option.or_assoc]
  rfl

/-! ### The property of an object -/

section Resolve
variable {w : World} {g : SpGlobals} {ed : Stack} {handle : ℕ} {p : ZendString} {isParam : Bool}

/-- The world with this object under a handle. -/
def withObject (w : World) (handle : ℕ) (o : Object) : World :=
  { w with objects := Function.update w.objects handle o }

/-- The name that is looked up: a constant with a string stands for it, and another one for nothing. -/
def nameOf (w : World) (p : ZendString) : Option ZendString :=
  match w.constants p with
  | some (.string name) => some (cstr name)
  | some _ => none
  | none => some p

/-- **The lookup of a literal name.** -/
theorem getObjectProperty_eq (hp : 0 ∉ p) (hlit : p.head? ≠ some 36) :
    getObjectProperty (withObject w handle (l.object val)) g ed handle p isParam =
      pure ((nameOf w p).bind fun name => ((l.tried name).find? l.present).bind fun x =>
        (OrdTable.lookup x l.slots).map (Slot.read (val x).1)) := by
  have hvar : getVarValue (withObject w handle (l.object val)) g ed p isParam = pure (w.constants p) := by
    unfold getVarValue
    split
    · exact absurd rfl hlit
    · rfl
  have hobject : (withObject w handle (l.object val)).objects handle = l.object val := Function.update_self ..
  have hcstr : ∀ s : ZendString, 0 ∉ cstr s := by
    intro s h0
    simpa using List.mem_takeWhile_imp h0
  unfold getObjectProperty nameOf
  rw [hvar, pure_bind]
  cases hc : w.constants p with
  | none =>
    dsimp only
    rw [hobject, findProperty_eq hp, Option.bind_some]
  | some v =>
    cases v with
    | string name =>
      dsimp only
      rw [hobject, findProperty_eq (hcstr name), Option.bind_some]
    | _ => rfl

variable (w g ed handle l p isParam) in
/-- **What `->p` should give**, whatever the values in the slots are: the property of that name, or nothing if
there is none. -/
def Resolves : Prop := ∀ val : PropId → PropValue,
  getObjectProperty (withObject w handle (l.object val)) g ed handle p isParam =
    pure ((l.property p).map fun id => (val id).1)

/-- Two slots have the same values, whatever these are, if they are the same. -/
theorem forall_values_iff {x y : Option PropId} (hx : ∀ id, x = some id → l.present id = true)
    (hy : ∀ id, y = some id → l.defined id = true) :
    (∀ val : PropId → PropValue, (x.bind fun id => (OrdTable.lookup id l.slots).map (Slot.read (val id).1)) =
      y.map fun id => (val id).1) ↔ x = y := by
  have hread : ∀ (val : PropId → PropValue) id, l.defined id = true →
      (OrdTable.lookup id l.slots).map (Slot.read (val id).1) = some (val id).1 := by
    intro val id hdef
    unfold Layout.defined at hdef
    cases hl : OrdTable.lookup id l.slots with
    | none => simp [hl] at hdef
    | some k =>
      rw [hl] at hdef
      cases k with
      | empty => simp at hdef
      | _ => rfl
  constructor
  · intro h
    -- a value for the one slot, and another for all others
    let val (id : PropId) : PropId → PropValue := fun id' =>
      if id' = id then ⟨.long 0, rfl, by decide⟩ else ⟨.long 1, rfl, by decide⟩
    cases y with
    | none =>
      cases x with
      | none => rfl
      | some id =>
        have heq := h (val id)
        obtain ⟨k, hk⟩ := Option.isSome_iff_exists.mp (hx id rfl)
        rw [Option.bind_some, hk] at heq
        cases heq
    | some id =>
      have heq := h (val id)
      cases x with
      | none => cases heq
      | some id' =>
        obtain ⟨k, hk⟩ := Option.isSome_iff_exists.mp (hx id' rfl)
        rw [Option.bind_some, hk, Option.map_some, Option.map_some] at heq
        have heq := Option.some.inj heq
        by_contra hne
        have hne' : id' ≠ id := fun h => hne (congrArg some h)
        have hval' : (val id id').1 = .long 1 := congrArg Subtype.val (if_neg hne')
        have hval : (val id id).1 = .long 0 := congrArg Subtype.val (if_pos rfl)
        rw [hval, hval'] at heq
        cases k <;> cases heq
  · rintro rfl val
    cases x with
    | none => rfl
    | some id => exact hread val id (hy id rfl)

/-- A key that is tried for a name stands for a property of this name, or for none of any name. -/
theorem eq_of_mem_tried {name : ZendString} {id : PropId} (htried : id ∈ l.tried name)
    (hid : id ∈ l.namesakes p) : name = p := by
  simp only [Layout.tried, Layout.namesakes, List.mem_cons, List.mem_append, List.mem_map, List.not_mem_nil,
    or_false] at htried hid
  rcases hid with (rfl | rfl) | ⟨c, -, rfl⟩ <;> simp at htried
  · exact htried.symm
  · exact htried.symm
  · exact htried.2.symm

variable (w l p) in
/-- The lookup comes to the property, or to nothing: no constant diverts it, the property is the first there is
of the keys that are tried, and there is none of these if there is no property. -/
def Undiverted : Prop :=
  match l.property p with
  | some id => nameOf w p = some p ∧
      ∃ before after, l.tried p = before ++ id :: after ∧ ∀ x ∈ before, l.present x = false
  | none => ∀ name, nameOf w p = some name → ∀ x ∈ l.tried name, l.present x = false

/-- **The property is found**, whatever its value, exactly if the lookup comes to it. -/
theorem resolves_iff (hp : 0 ∉ p) (hlit : p.head? ≠ some 36) :
    Resolves l w g ed handle p isParam ↔ Undiverted l w p := by
  have hpure : ∀ {α : Type} {a b : α}, (pure a : Sp α) = pure b ↔ a = b := by
    intro α a b
    refine ⟨fun h => ?_, congrArg pure⟩
    exact Except.ok.inj (congrArg Run.out h)
  have hbind : ∀ val : PropId → PropValue, ((nameOf w p).bind fun name =>
      ((l.tried name).find? l.present).bind fun x => (OrdTable.lookup x l.slots).map (Slot.read (val x).1)) =
      ((nameOf w p).bind fun name => (l.tried name).find? l.present).bind
        fun x => (OrdTable.lookup x l.slots).map (Slot.read (val x).1) := by
    intro val
    rw [Option.bind_assoc]
  have hx : ∀ id, ((nameOf w p).bind fun name => (l.tried name).find? l.present) = some id →
      l.present id = true := by
    intro id h
    obtain ⟨name, -, h⟩ := Option.bind_eq_some_iff.mp h
    exact List.find?_some h
  have hy : ∀ id, l.property p = some id → l.defined id = true := fun id h => List.find?_some h
  unfold Resolves
  simp only [getObjectProperty_eq hp hlit, hpure, hbind]
  rw [forall_values_iff hx hy]
  unfold Undiverted
  cases hprop : l.property p with
  | none =>
    rw [Option.bind_eq_none_iff]
    refine forall_congr' fun name => imp_congr_right fun _ => ?_
    rw [List.find?_eq_none]
    simp only [Bool.not_eq_true]
  | some id =>
    have hdef : l.defined id = true := hy id hprop
    have hpres : l.present id = true := by
      unfold Layout.defined at hdef
      unfold Layout.present
      cases hl : OrdTable.lookup id l.slots with
      | none => simp [hl] at hdef
      | some k => rfl
    have hmem : id ∈ l.namesakes p := List.mem_of_find?_eq_some hprop
    constructor
    · intro h
      obtain ⟨name, hname, hfind⟩ := Option.bind_eq_some_iff.mp h
      have heq := eq_of_mem_tried (List.mem_of_find?_eq_some hfind) hmem
      rw [heq] at hname hfind
      obtain ⟨-, before, after, hsplit, hbefore⟩ := List.find?_eq_some_iff_append.mp hfind
      exact ⟨hname, before, after, hsplit, by simpa using hbefore⟩
    · rintro ⟨hname, before, after, hsplit, hbefore⟩
      rw [hname, Option.bind_some]
      exact List.find?_eq_some_iff_append.mpr ⟨hpres, before, after, hsplit, by simpa using hbefore⟩

end Resolve

/-- An object of the class `B`, whose parent is `A`, with one property. -/
def sampleLayout (id : PropId) (hid : id.Valid) (hdecl : ∀ c p, id = .ofPrivate c p → c ∈ [zstr "B", zstr "A"]) :
    Layout where
  className := zstr "B"
  parents := [zstr "A"]
  slots := [(id, .declared)]
  nodup := by simp
  valid := by simpa using hid
  identifier := by decide
  declared c p k h := hdecl c p (by simp at h; exact h.1.symm)

/-- `class A { private $p; } class B extends A {}` -/
def inherited : Layout :=
  sampleLayout (.ofPrivate (zstr "A") (zstr "p")) ⟨by decide, by decide⟩ (by
    intro c p h
    cases h
    decide)

/-- `class B extends A { public $p; }` -/
def ownPublic : Layout :=
  sampleLayout (.ofPublic (zstr "p")) (by unfold PropId.Valid; decide) (by
    intro c p h
    cases h)

theorem resolves_public : Resolves ownPublic (World.empty 80000) {} [] 0 (zstr "p") false := by
  refine (resolves_iff (by decide) (by decide)).mpr ?_
  exact ⟨rfl, [], _, rfl, nofun⟩

/-- A private property of the parent is not found, and neither is a property whose name is that of a
constant. -/
theorem resolves_fails : ¬ Resolves inherited (World.empty 80000) {} [] 0 (zstr "p") false ∧
    ¬ Resolves ownPublic { World.empty 80000 with constants := fun _ => some (.long 7) } {} [] 0 (zstr "p")
      false := by
  let val : PropId → PropValue := fun _ => ⟨.long 1, rfl, by decide⟩
  constructor
  · intro h
    have heq : Except.ok none = Except.ok (some (Zval.long 1)) := congrArg Run.out (h val)
    cases heq
  · intro h
    have heq : Except.ok none = Except.ok (some (Zval.long 1)) := congrArg Run.out (h val)
    cases heq

end Snuffleupagus.Match.Property
