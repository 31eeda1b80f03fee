import Mathlib.Logic.Function.Basic
import Snuffleupagus.Ini.Check

/-! # Changing directives in a request

A script changes a directive by `ini_set`, and takes the change back by `ini_restore`. At the end of the
request PHP takes back what is left: the handler of the directive is given the value the directive had at the
start of the request, and whatever it says to this, that value is recorded. What is in effect, however, is the
value the handler of PHP or of an extension was given last.

The handler of the module stands before that handler then, too, and it may refuse the value of the start
(`ini_undone_iff`). -/

namespace Snuffleupagus.Ini.Request

open Snuffleupagus.Lib.Effect Snuffleupagus.Lib.Table Snuffleupagus.Php.Bytes Snuffleupagus.Php.Engine
open Snuffleupagus.Config.Rule Snuffleupagus.Log Snuffleupagus.Ini.Hook Snuffleupagus.Ini.Check

/-- **A directive in a request**: `zend_ini_entry`, with the value its own handler was given last. -/
structure Directive where
  entry : ZendIniEntry
  /-- `ZEND_INI_USER`: scripts may change it. -/
  modifiable : Bool
  modified : Bool := false
  origValue : Option ZendString := none
  effective : Option ZendString

/-- What a script does to a directive. -/
inductive Change
  | set (name value : ZendString)
  | restore (name : ZendString)

/-- The directive that is changed. -/
def Change.name : Change → ZendString
  | .set name _ => name
  | .restore name => name

variable (w : World) (g : SpGlobals) (accepts : IniHandler → ZendString → Option ZendString → Bool)

/-- The reply of `on_modify`, if there is one: a bailout is a refusal. -/
def onModify (handler : Option IniHandler) (name : ZendString) (newValue : Option ZendString) : Option Reply :=
  handler.map fun handler =>
    match handler with
    | .spIniOnmodify =>
      match (spIniOnmodify w g accepts name newValue).out with
      | .ok reply => reply
      | .error _ => .refused
    | handler => .passed handler (accepts handler name newValue)

/-- The value in effect, after a reply. -/
def takeEffect (d : Directive) (newValue : Option ZendString) (reply : Option Reply) : Directive :=
  match reply with
  | some (.passed _ _) => { d with effective := newValue }
  | _ => d

/-- Keep the value of the start, before the first change. -/
def keepOriginal (d : Directive) : Directive :=
  if d.modified then d else { d with modified := true, origValue := d.entry.value }

/-- `zend_alter_ini_entry`, by a script. -/
def alterIniEntry (name : ZendString) (newValue : Option ZendString) (d : Directive) : Directive :=
  if !d.modifiable then d
  else
    let reply := onModify w g accepts d.entry.onModify name newValue
    let d := takeEffect (keepOriginal d) newValue reply
    if reply.all Reply.success then { d with entry := { d.entry with value := newValue } } else d

/-- Back to the value of the start. -/
def putBack (d : Directive) : Directive :=
  { d with entry := { d.entry with value := d.origValue }, modified := false, origValue := none }

/-- `zend_restore_ini_entry_cb`. While the script is running, a refusal leaves the directive as it is. -/
def restoreIniEntryCb (runtime : Bool) (name : ZendString) (d : Directive) : Directive :=
  if !d.modified then d
  else
    let reply := onModify w g accepts d.entry.onModify name d.origValue
    let d := takeEffect d d.origValue reply
    if runtime && !reply.any Reply.success then d else putBack d

/-- `zend_restore_ini_entry`, by a script. -/
def restoreIniEntry (name : ZendString) (d : Directive) : Directive :=
  if !d.modifiable then d else restoreIniEntryCb w g accepts true name d

/-- A change, to the directive it is about. -/
def Change.apply : Change → Directive → Directive
  | .set name value => alterIniEntry w g accepts name (some value)
  | .restore name => restoreIniEntry w g accepts name

/-- `EG(ini_directives)`. -/
abbrev Directives := ZendString → Option Directive

/-- One change. -/
def step (ds : Directives) (c : Change) : Directives :=
  match ds c.name with
  | none => ds
  | some d => Function.update ds c.name (some (c.apply w g accepts d))

/-- The changes of a request, and its end. -/
def request (changes : List Change) (ds : Directives) : Directives := fun name =>
  (changes.foldl (step w g accepts) ds name).map (restoreIniEntryCb w g accepts false name)

/-- The directives at the start of a request: the values recorded are in effect. -/
def start (t : IniDirectives) (modifiable : ZendString → Bool) : Directives := fun name =>
  (t.find? name).map fun ini => { entry := ini, modifiable := modifiable name, effective := ini.value }

/-- The value of a directive that is in effect. -/
def effectiveOf (ds : Directives) (name : ZendString) : Option (Option ZendString) :=
  (ds name).map Directive.effective

/-- **No change outlives the request.** -/
def Undone (t : IniDirectives) (modifiable : ZendString → Bool) (changes : List Change) : Prop :=
  ∀ name, effectiveOf (request w g accepts changes (start t modifiable)) name =
    effectiveOf (start t modifiable) name

/-- The check of the module lets the value through. -/
def Passes (name : ZendString) (value : Option ZendString) : Prop := Yields (spIniCheck w g name value) true

/-- The value comes to the directive's own handler. -/
def Gets (handler : Option IniHandler) (name : ZendString) (value : Option ZendString) : Prop :=
  ∃ own accepted, onModify w g accepts handler name value = some (.passed own accepted)

/-! ### The handlers -/

section Handlers
variable {w g accepts} {handler : Option IniHandler} {name : ZendString} {value value' : Option ZendString}

theorem onModify_spIniOnmodify (name : ZendString) (value : Option ZendString) :
    onModify w g accepts (some .spIniOnmodify) name value =
      some (if yieldsA (· = true) (spIniCheck w g name value) then
        match (g.ini.entries.find? name).bind SpIniEntry.origOnmodify with
        | some own => .passed own (accepts own name value)
        | none => .taken
      else .refused) := by
  unfold onModify spIniOnmodify yieldsA
  rw [Option.map_some, out_bind]
  dsimp only
  cases (spIniCheck w g name value).out with
  | error e => rfl
  | ok b =>
    cases b with
    | false => rfl
    | true => cases (g.ini.entries.find? name).bind SpIniEntry.origOnmodify <;> rfl

theorem yieldsA_true {x : Sp Bool} : yieldsA (· = true) x = true ↔ Yields x true := by
  refine ⟨fun h => ?_, fun h => ?_⟩
  · obtain ⟨b, hb, rfl⟩ := exists_of_yieldsA h
    exact hb
  · unfold yieldsA
    rw [show x.out = .ok true from h]
    rfl

/-- The handler of the module hands on what passes its check. -/
theorem gets_spIniOnmodify : Gets w g accepts (some .spIniOnmodify) name value ↔
    Passes w g name value ∧ ∃ own, (g.ini.entries.find? name).bind SpIniEntry.origOnmodify = some own := by
  unfold Gets Passes
  rw [onModify_spIniOnmodify, ← yieldsA_true]
  cases (g.ini.entries.find? name).bind SpIniEntry.origOnmodify with
  | none => split_ifs <;> simp
  | some own => split_ifs with hy <;> simp [hy]

/-- Any other handler is given every value. -/
theorem gets_of_ne {own : IniHandler} (hown : own ≠ .spIniOnmodify) : Gets w g accepts (some own) name value := by
  refine ⟨own, accepts own name value, ?_⟩
  cases own with
  | spIniOnmodify => exact absurd rfl hown
  | php id => rfl
  | spOnUpdateSaveHandler => rfl

/-- Where a value is taken without asking a handler, none is asked about another one. -/
theorem not_gets_of_taken (h : onModify w g accepts handler name value = some .taken) :
    ¬ Gets w g accepts handler name value' := by
  intro hgets
  cases handler with
  | none => cases h
  | some own =>
    by_cases hown : own = .spIniOnmodify
    · subst hown
      obtain ⟨-, own', hown'⟩ := gets_spIniOnmodify.mp hgets
      rw [onModify_spIniOnmodify, hown'] at h
      split_ifs at h
      · cases h
      · cases h
    · obtain ⟨own', ok, hpassed⟩ : Gets w g accepts (some own) name value := gets_of_ne hown
      rw [hpassed] at h
      cases h

/-- The value in effect changes only if a handler is given one. -/
theorem takeEffect_of_not {d : Directive} (h : ¬ Gets w g accepts handler name value) :
    takeEffect d value (onModify w g accepts handler name value) = d := by
  unfold takeEffect
  split
  · exact absurd ⟨_, _, ‹_›⟩ h
  · rfl

theorem takeEffect_of_gets {d : Directive} (h : Gets w g accepts handler name value) :
    takeEffect d value (onModify w g accepts handler name value) = { d with effective := value } := by
  obtain ⟨own, ok, h⟩ := h
  rw [h]
  rfl

end Handlers

/-! ### One directive -/

section Directive
variable {w g accepts} {name : ZendString} {handler : Option IniHandler} {v₀ : Option ZendString}
  {modifiable : Bool} {d : Directive}

variable (w g accepts) in
/-- Another value than `v₀` may come to the directive's own handler. -/
def Leaves (handler : Option IniHandler) (name : ZendString) (v₀ : Option ZendString) : Prop :=
  ∃ v, some v ≠ v₀ ∧ Gets w g accepts handler name (some v)

variable (w g accepts) in
/-- **What holds of a directive in a request** that starts with the value `v₀`: this value is kept, and if
another one is in effect, it has been let through and the change has not been taken back. -/
inductive Invariant (name : ZendString) (handler : Option IniHandler) (v₀ : Option ZendString)
    (modifiable : Bool) : Directive → Prop
  | unmodified : Invariant name handler v₀ modifiable ⟨⟨v₀, handler⟩, modifiable, false, none, v₀⟩
  | modified (recorded effective : Option ZendString) (hmodifiable : modifiable = true)
      (heffective : effective = v₀ ∨ Leaves w g accepts handler name v₀) :
      Invariant name handler v₀ modifiable ⟨⟨recorded, handler⟩, modifiable, true, v₀, effective⟩

variable (w g accepts name) in
/-- What is in effect after a reply. -/
theorem takeEffect_cases (d : Directive) (handler : Option IniHandler) (value : Option ZendString) :
    ∃ effective, takeEffect d value (onModify w g accepts handler name value) = { d with effective := effective } ∧
      (effective = value ∧ Gets w g accepts handler name value ∨
        effective = d.effective ∧ ¬ Gets w g accepts handler name value) := by
  by_cases hgets : Gets w g accepts handler name value
  · exact ⟨value, takeEffect_of_gets hgets, Or.inl ⟨rfl, hgets⟩⟩
  · exact ⟨d.effective, takeEffect_of_not hgets, Or.inr ⟨rfl, hgets⟩⟩

/-- A change leaves the directive modified, whatever the reply is. -/
theorem invariant_alterIniEntry (hd : Invariant w g accepts name handler v₀ modifiable d) (v : ZendString) :
    Invariant w g accepts name handler v₀ modifiable (alterIniEntry w g accepts name (some v) d) := by
  have hafter : ∀ recorded effective, modifiable = true → (effective = v₀ ∨ Leaves w g accepts handler name v₀) →
      Invariant w g accepts name handler v₀ modifiable (alterIniEntry w g accepts name (some v)
        ⟨⟨recorded, handler⟩, modifiable, true, v₀, effective⟩) := by
    rintro recorded effective rfl heffective
    obtain ⟨effective', htake, heffective'⟩ := takeEffect_cases w g accepts name
      ⟨⟨recorded, handler⟩, true, true, v₀, effective⟩ handler (some v)
    have hnew : effective' = v₀ ∨ Leaves w g accepts handler name v₀ := by
      rcases heffective' with ⟨rfl, hgets⟩ | ⟨rfl, -⟩
      · by_cases hv : some v = v₀
        · exact Or.inl hv
        · exact Or.inr ⟨v, hv, hgets⟩
      · exact heffective
    unfold alterIniEntry keepOriginal
    dsimp only
    simp only [Bool.not_true, Bool.false_eq_true, if_false, if_true]
    rw [htake]
    split_ifs
    · exact .modified (some v) effective' rfl hnew
    · exact .modified recorded effective' rfl hnew
  cases hd with
  | unmodified =>
    cases modifiable with
    | false => exact .unmodified
    | true => exact hafter v₀ v₀ rfl (Or.inl rfl)
  | modified recorded effective hmodifiable heffective => exact hafter recorded effective hmodifiable heffective

/-- Where a value is taken without asking the directive's own handler, this is never asked. -/
theorem eq_of_taken {value effective : Option ZendString}
    (htaken : onModify w g accepts handler name value = some .taken)
    (heffective : effective = v₀ ∨ Leaves w g accepts handler name v₀) : effective = v₀ := by
  rcases heffective with heff | ⟨v, -, hgets⟩
  · exact heff
  · exact absurd hgets (not_gets_of_taken htaken)

/-- A script takes a change back, or is refused to. -/
theorem invariant_restoreIniEntry (hd : Invariant w g accepts name handler v₀ modifiable d) :
    Invariant w g accepts name handler v₀ modifiable (restoreIniEntry w g accepts name d) := by
  cases hd with
  | unmodified =>
    unfold restoreIniEntry restoreIniEntryCb
    cases modifiable with
    | false => exact .unmodified
    | true => exact .unmodified
  | modified recorded effective hmodifiable heffective =>
    subst hmodifiable
    obtain ⟨effective', htake, heffective'⟩ := takeEffect_cases w g accepts name
      ⟨⟨recorded, handler⟩, true, true, v₀, effective⟩ handler v₀
    unfold restoreIniEntry restoreIniEntryCb
    simp only [Bool.not_true, Bool.false_eq_true, if_false, Bool.true_and]
    rw [htake]
    split_ifs with hrefused
    · refine .modified recorded effective' rfl ?_
      rcases heffective' with ⟨rfl, -⟩ | ⟨rfl, -⟩
      · exact Or.inl rfl
      · exact heffective
    · have hback : effective' = v₀ := by
        rcases heffective' with ⟨heff, -⟩ | ⟨rfl, hnot⟩
        · exact heff
        · -- the reply is no refusal, and no handler has been given the value
          cases hreply : onModify w g accepts handler name v₀ with
          | none => simp [hreply] at hrefused
          | some reply =>
            cases reply with
            | refused => simp [hreply, Reply.success] at hrefused
            | passed own accepted => exact absurd ⟨own, accepted, hreply⟩ hnot
            | taken => exact eq_of_taken hreply heffective
      rw [hback]
      exact .unmodified

theorem invariant_foldl : ∀ {l : List Change} {d : Directive}, (∀ c ∈ l, c.name = name) →
    Invariant w g accepts name handler v₀ modifiable d →
    Invariant w g accepts name handler v₀ modifiable (l.foldl (fun d c => c.apply w g accepts d) d)
  | [], _, _, hd => hd
  | c :: l, d, hl', hd => by
    obtain ⟨hc, hl⟩ := List.forall_mem_cons.mp hl'
    have hstep : Invariant w g accepts name handler v₀ modifiable (c.apply w g accepts d) := by
      cases c with
      | set name' v =>
        cases hc
        exact invariant_alterIniEntry hd v
      | restore name' =>
        cases hc
        exact invariant_restoreIniEntry hd
    rw [List.foldl_cons]
    exact invariant_foldl hl hstep

/-- **The end of a request** takes back what is in effect, if the value of the start comes to the handler, or
no other one does. -/
theorem effective_restoreIniEntryCb (hd : Invariant w g accepts name handler v₀ modifiable d)
    (h : modifiable = true → Gets w g accepts handler name v₀ ∨ ¬ Leaves w g accepts handler name v₀) :
    (restoreIniEntryCb w g accepts false name d).effective = v₀ := by
  cases hd with
  | unmodified => rfl
  | modified recorded effective hmodifiable heffective =>
    obtain ⟨effective', htake, heffective'⟩ := takeEffect_cases w g accepts name
      ⟨⟨recorded, handler⟩, modifiable, true, v₀, effective⟩ handler v₀
    have hend : effective' = v₀ := by
      rcases heffective' with ⟨heff, -⟩ | ⟨rfl, hnot⟩
      · exact heff
      · rcases h hmodifiable with hgets | hleaves
        · exact absurd hgets hnot
        · exact heffective.resolve_right hleaves
    unfold restoreIniEntryCb
    simp only [Bool.not_true, Bool.false_eq_true, if_false, Bool.false_and]
    rw [htake]
    exact hend

/-- A value that has come to the handler stays in effect, if the one of the start is refused. -/
theorem effective_left {v : ZendString} (hgets : Gets w g accepts handler name (some v))
    (hnot : ¬ Gets w g accepts handler name v₀) :
    (restoreIniEntryCb w g accepts false name
      (alterIniEntry w g accepts name (some v) ⟨⟨v₀, handler⟩, true, false, none, v₀⟩)).effective = some v := by
  have halter : ∃ recorded, alterIniEntry w g accepts name (some v) ⟨⟨v₀, handler⟩, true, false, none, v₀⟩ =
      ⟨⟨recorded, handler⟩, true, true, v₀, some v⟩ := by
    unfold alterIniEntry keepOriginal
    simp only [Bool.not_true, Bool.false_eq_true, if_false]
    rw [takeEffect_of_gets hgets]
    split_ifs
    · exact ⟨some v, rfl⟩
    · exact ⟨v₀, rfl⟩
  obtain ⟨recorded, halter⟩ := halter
  rw [halter]
  unfold restoreIniEntryCb
  simp only [Bool.not_true, Bool.false_eq_true, if_false, Bool.false_and]
  rw [takeEffect_of_not hnot]
  rfl

end Directive

/-! ### Requests -/

section Requests
variable {w g accepts}

/-- Each directive is changed by the changes about it. -/
theorem foldl_step (name : ZendString) : ∀ (l : List Change) (ds : Directives),
    l.foldl (step w g accepts) ds name =
      (ds name).map ((l.filter fun c => c.name = name).foldl fun d c => c.apply w g accepts d)
  | [], ds => by
    show ds name = (ds name).map fun d => d
    exact Option.map_id'.symm
  | c :: l, ds => by
    have hstep : step w g accepts ds c name =
        if c.name = name then (ds name).map (c.apply w g accepts) else ds name := by
      unfold step
      split_ifs with hc
      · subst hc
        cases hd : ds c.name with
        | none => exact hd
        | some d => exact Function.update_self ..
      · cases ds c.name with
        | none => rfl
        | some d => exact Function.update_of_ne (Ne.symm hc) ..
    rw [List.foldl_cons, foldl_step name l, hstep, List.filter_cons]
    by_cases hc : c.name = name
    · rw [if_pos hc, if_pos (by simpa using hc), Option.map_map]
      rfl
    · rw [if_neg hc, if_neg (by simpa using hc)]

/-- What comes to a directive's own handler, if the module has hooked it. -/
theorem gets_or_not_leaves {name : ZendString} {v₀ : Option ZendString} {handler : IniHandler}
    (hown : (g.ini.entries.find? name).bind SpIniEntry.origOnmodify = some handler) :
    (Gets w g accepts (some .spIniOnmodify) name v₀ ∨ ¬ Leaves w g accepts (some .spIniOnmodify) name v₀) ↔
      (Passes w g name v₀ ∨ ∀ v, some v ≠ v₀ → ¬ Passes w g name (some v)) := by
  unfold Leaves
  simp only [gets_spIniOnmodify, hown, Option.some.injEq, exists_eq', and_true, not_exists, not_and]

/-- A directive that is not hooked, or has no handler of its own, is taken back. -/
theorem gets_or_not_leaves_of_not {name : ZendString} {v₀ : Option ZendString} {handler : Option IniHandler}
    (h : ∀ own, handler = some .spIniOnmodify →
      (g.ini.entries.find? name).bind SpIniEntry.origOnmodify ≠ some own) :
    Gets w g accepts handler name v₀ ∨ ¬ Leaves w g accepts handler name v₀ := by
  cases handler with
  | none =>
    right
    rintro ⟨v, -, own, accepted, heq⟩
    cases heq
  | some own =>
    by_cases hown : own = .spIniOnmodify
    · right
      rintro ⟨v, -, hgets⟩
      subst hown
      obtain ⟨-, own', hown'⟩ := gets_spIniOnmodify.mp hgets
      exact h own' rfl hown'
    · exact Or.inl (gets_of_ne hown)

/-- What is in effect at the end of a request. -/
theorem effectiveOf_request {t : IniDirectives} {modifiable : ZendString → Bool} {name : ZendString}
    {ini : ZendIniEntry} (hini : t.find? name = some ini) (changes : List Change) :
    effectiveOf (request w g accepts changes (start t modifiable)) name =
      some (restoreIniEntryCb w g accepts false name
        ((changes.filter fun c => c.name = name).foldl (fun d c => c.apply w g accepts d)
          ⟨ini, modifiable name, false, none, ini.value⟩)).effective := by
  unfold effectiveOf request
  rw [foldl_step]
  unfold start
  rw [hini]
  rfl

/-- **No change outlives a request** exactly if, for every directive a script may change and the module has
hooked, the value of the start passes the check of the module, or no other one does. -/
theorem ini_undone_iff (w : World) (g : SpGlobals) (accepts : IniHandler → ZendString → Option ZendString → Bool)
    (t : IniDirectives) (modifiable : ZendString → Bool) :
    (∀ changes, Undone w g accepts t modifiable changes) ↔
      ∀ name ini handler, t.find? name = some ini → modifiable name = true → ini.onModify = some .spIniOnmodify →
        (g.ini.entries.find? name).bind SpIniEntry.origOnmodify = some handler →
          Passes w g name ini.value ∨ ∀ v, some v ≠ ini.value → ¬ Passes w g name (some v) := by
  constructor
  · rintro hundone name ⟨v₀, _⟩ handler hini hmodifiable rfl hown
    by_contra hnot
    push Not at hnot
    obtain ⟨hstart, v, hne, hv⟩ := hnot
    have hend := hundone [.set name v] name
    rw [effectiveOf_request hini, hmodifiable] at hend
    have hleft : effectiveOf (start t modifiable) name = some v₀ := by
      unfold effectiveOf start
      rw [hini]
      rfl
    have hgets : Gets w g accepts (some .spIniOnmodify) name (some v) := gets_spIniOnmodify.mpr ⟨hv, _, hown⟩
    have hrefused : ¬ Gets w g accepts (some .spIniOnmodify) name v₀ :=
      fun hgets => hstart (gets_spIniOnmodify.mp hgets).1
    have heffective := effective_left hgets hrefused
    rw [hleft, List.filter_cons_of_pos (by simp [Change.name])] at hend
    exact hne (heffective.symm.trans (Option.some.inj hend))
  · intro h changes name
    cases hini : t.find? name with
    | none =>
      unfold effectiveOf request
      rw [foldl_step]
      unfold start
      rw [hini]
      rfl
    | some ini =>
      obtain ⟨v₀, handler⟩ := ini
      rw [effectiveOf_request hini]
      unfold effectiveOf start
      rw [hini]
      have habout : ∀ c ∈ changes.filter fun c => c.name = name, c.name = name := by
        intro c hc
        simpa using (List.mem_filter.mp hc).2
      have hinvariant : Invariant w g accepts name handler v₀ (modifiable name)
          ((changes.filter fun c => c.name = name).foldl (fun d c => c.apply w g accepts d)
            ⟨⟨v₀, handler⟩, modifiable name, false, none, v₀⟩) := invariant_foldl habout .unmodified
      refine congrArg some (effective_restoreIniEntryCb hinvariant fun hmodifiable => ?_)
      by_cases hhooked : ∃ own, handler = some .spIniOnmodify ∧
          (g.ini.entries.find? name).bind SpIniEntry.origOnmodify = some own
      · obtain ⟨own, rfl, hown⟩ := hhooked
        exact (gets_or_not_leaves hown).mpr (h name _ own hini hmodifiable rfl hown)
      · refine gets_or_not_leaves_of_not fun own heq hown => hhooked ⟨own, heq, hown⟩

/-! ### An instance -/

/-- The directive of `sp.ini.key("unserialize_callback_func").set("def").regexp("^abc$");`. -/
def callbackFunc : ZendString := zstr "unserialize_callback_func"

/-- The configuration of this rule. -/
def callbackIni : SpConfigIni where
  enable := true
  entries := .insert .empty callbackFunc
    { key := callbackFunc, set := some (zstr "def"), regexp := some ⟨zstr "^abc$"⟩ }

/-- A world in which only `abc` matches. -/
def callbackWorld : World :=
  { World.empty 80300 with pcreExec := fun _ s => if s = zstr "abc" then 0 else -1 }

/-- The globals when the rule has been put into force. -/
def callbackGlobals (entries : OrdTable ZendString SpIniEntry) : SpGlobals :=
  { ini := { callbackIni with entries := entries } }

/-- The directive starts with `def`. A script sets it to `abc`, and this is in effect in the next request. -/
theorem ini_outlives : ∃ t, Yields (spHookIni callbackWorld {} (fun _ _ _ => true) callbackIni
      (.insert .empty callbackFunc { onModify := some (.php 0) })) t ∧
    ((t.directives.find? callbackFunc).map ZendIniEntry.value = some (some (zstr "def")) ∧
      ¬ Undone callbackWorld (callbackGlobals t.entries) (fun _ _ _ => true) t.directives (fun _ => true)
        [.set callbackFunc (zstr "abc")]) := by
  have hrun : ∃ t, Yields (spHookIni callbackWorld {} (fun _ _ _ => true) callbackIni
        (.insert .empty callbackFunc { onModify := some (.php 0) })) t ∧
      ((t.directives.find? callbackFunc).map ZendIniEntry.value = some (some (zstr "def")) ∧
        effectiveOf (start t.directives fun _ => true) callbackFunc = some (some (zstr "def")) ∧
        effectiveOf (request callbackWorld (callbackGlobals t.entries) (fun _ _ _ => true)
          [.set callbackFunc (zstr "abc")] (start t.directives fun _ => true)) callbackFunc =
            some (some (zstr "abc"))) :=
    exists_of_yieldsA (by decide +kernel)
  obtain ⟨t, ht, hset, hstart, hend⟩ := hrun
  refine ⟨t, ht, hset, fun hundone => ?_⟩
  have heq := hundone callbackFunc
  rw [hstart, hend] at heq
  exact absurd heq (by decide)

end Requests

end Snuffleupagus.Ini.Request
