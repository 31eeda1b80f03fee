import Mathlib.Data.List.Induction
import Snuffleupagus.Hook.Stores

/-! # Every rule is in one store

`storesOf` puts every rule into exactly one store, in the order written, and
`hook_disabled_functions` moves whole lists from one table to another and loses none
(`stores_partition`). A list is moved if its function is an internal one, which it then hooks, or if
it is about a language construct. Both tests are on the C string of the key. -/

namespace Snuffleupagus.Hook.Partition

open Snuffleupagus.Lib.Effect Snuffleupagus.Lib.Table Snuffleupagus.Php.Bytes Snuffleupagus.Php.Value
open Snuffleupagus.Php.Engine Snuffleupagus.Config.Rule Snuffleupagus.Config.Keyword
open Snuffleupagus.Config.DisabledFunctions Snuffleupagus.Log Snuffleupagus.Match.Value
open Snuffleupagus.Hook.Table Snuffleupagus.Hook.Stores

/-- The three stores for the time of a call (`false`) or of a return (`true`). -/
def unhooked (s : Stores) (ret : Bool) : RuleTable :=
  if ret then s.disabledFunctionsRet else s.disabledFunctions

def hooked (s : Stores) (ret : Bool) : RuleTable :=
  if ret then s.disabledFunctionsRetHooked else s.disabledFunctionsHooked

def regexps (s : Stores) (ret : Bool) : List SpDisabledFunction :=
  if ret then s.disabledFunctionsRegRet else s.disabledFunctionsReg

/-- What is in the three stores for a call, or a return. -/
def side (s : Stores) (ret : Bool) : List SpDisabledFunction :=
  (unhooked s ret).values ++ (hooked s ret).values ++ regexps s ret

/-- What is in the six stores together. -/
def contents (s : Stores) : List SpDisabledFunction := side s false ++ side s true

/-- The rules about `k`, in the order written. -/
def rulesFor (rules : List SpDisabledFunction) (ret : Bool) (k : ZendString) :
    List SpDisabledFunction :=
  rules.filter fun r => isRet r == ret && target r == some k

/-- The rules about no name. -/
def regexpRules (rules : List SpDisabledFunction) (ret : Bool) : List SpDisabledFunction :=
  rules.filter fun r => isRet r == ret && target r == none

/-! ### Reading the configuration -/

theorem addDfToHashtable_eq {ht : RuleTable} {r : SpDisabledFunction} {k : ZendString}
    (h : target r = some k) : addDfToHashtable ht r = ht.push (.str k) r := by
  have hk : r.functionsList.head?.getD (r.function.getD []) = k := by
    unfold target at h
    cases hl : r.functionsList with
    | nil => rw [hl] at h; rw [show r.function = some k from h]; rfl
    | cons f l => rw [hl] at h; exact Option.some.inj h
  unfold addDfToHashtable OrdTable.push
  rw [hk]
  dsimp only
  cases ht.find? (.str k) <;> rfl

theorem hasTarget_iff (r : SpDisabledFunction) :
    (r.function.isSome || decide (r.functionsList ≠ [])) = (target r).isSome := by
  unfold target
  cases hl : r.functionsList with
  | nil => simp
  | cons f l => simp

section Insert
variable (s : Stores) (r : SpDisabledFunction) (ret : Bool)

theorem unhooked_insertRule : unhooked (insertRule s r) ret =
    match target r with
    | some k => if isRet r = ret then (unhooked s ret).push (.str k) r else unhooked s ret
    | none => unhooked s ret := by
  unfold insertRule
  rw [hasTarget_iff]
  cases h : target r with
  | none => cases isRet r <;> cases ret <;> rfl
  | some k =>
    rw [addDfToHashtable_eq h, addDfToHashtable_eq h]
    cases isRet r <;> cases ret <;> rfl

theorem hooked_insertRule : hooked (insertRule s r) ret = hooked s ret := by
  unfold insertRule
  rw [hasTarget_iff]
  cases target r <;> cases isRet r <;> cases ret <;> rfl

theorem regexps_insertRule : regexps (insertRule s r) ret =
    if isRet r = ret ∧ target r = none then regexps s ret ++ [r] else regexps s ret := by
  unfold insertRule
  rw [hasTarget_iff]
  cases target r <;> cases isRet r <;> cases ret <;> rfl

theorem side_insertRule : (side (insertRule s r) ret).Perm
    (side s ret ++ if isRet r = ret then [r] else []) := by
  unfold side
  rw [unhooked_insertRule, hooked_insertRule, regexps_insertRule]
  by_cases hr : isRet r = ret
  · cases h : target r with
    | none => simp [hr]
    | some k =>
      simp only [hr, if_true, reduceCtorEq, and_false, if_false]
      -- the element pushed moves behind the other two stores
      have hp := (OrdTable.values_push (unhooked s ret) (.str k) r).append_right
        ((hooked s ret).values ++ regexps s ret)
      rw [List.append_assoc]
      refine hp.trans ?_
      rw [List.append_assoc, List.append_assoc, List.append_assoc]
      exact (List.perm_append_comm.trans (by rw [List.append_assoc])).append_left _
  · cases target r <;> simp [hr]

theorem contents_insertRule : (contents (insertRule s r)).Perm (contents s ++ [r]) := by
  have hf := side_insertRule s r false
  have ht := side_insertRule s r true
  unfold contents
  cases hr : isRet r with
  | false =>
    simp only [hr, if_true, Bool.false_eq_true, if_false, List.append_nil] at hf ht
    refine (hf.append ht).trans ?_
    rw [List.append_assoc, List.append_assoc]
    exact List.perm_append_comm.append_left _
  | true =>
    simp only [hr, if_true, Bool.true_eq_false, if_false, List.append_nil] at hf ht
    refine (hf.append ht).trans ?_
    rw [List.append_assoc]

end Insert

theorem storesOf_concat (rules : List SpDisabledFunction) (r : SpDisabledFunction) :
    storesOf (rules ++ [r]) = insertRule (storesOf rules) r := by
  unfold storesOf
  rw [List.foldl_concat]

/-- What the stores hold after reading. -/
structure Read (rules : List SpDisabledFunction) (s : Stores) : Prop where
  find : ∀ ret k, (unhooked s ret).find? (.str k) = nonempty? (rulesFor rules ret k)
  find_idx : ∀ ret i, (unhooked s ret).find? (.idx i) = none
  hooked : ∀ ret, hooked s ret = .empty
  regexps : ∀ ret, regexps s ret = regexpRules rules ret
  contents : (contents s).Perm rules
  time : ∀ ret, ∀ r ∈ side s ret, isRet r = ret

theorem filter_concat {α : Type} (p : α → Bool) (l : List α) (a : α) :
    (l ++ [a]).filter p = if p a then l.filter p ++ [a] else l.filter p := by
  rw [List.filter_append]
  by_cases h : p a = true
  · rw [if_pos h, List.filter_cons_of_pos h]
    rfl
  · rw [if_neg h, List.filter_cons_of_neg h]
    exact List.append_nil _

theorem rulesFor_concat (rules : List SpDisabledFunction) (r : SpDisabledFunction) (ret : Bool)
    (k : ZendString) : rulesFor (rules ++ [r]) ret k =
      if isRet r = ret ∧ target r = some k then rulesFor rules ret k ++ [r] else rulesFor rules ret k := by
  unfold rulesFor
  rw [filter_concat]
  simp only [Bool.and_eq_true, beq_iff_eq]

theorem regexpRules_concat (rules : List SpDisabledFunction) (r : SpDisabledFunction) (ret : Bool) :
    regexpRules (rules ++ [r]) ret =
      if isRet r = ret ∧ target r = none then regexpRules rules ret ++ [r] else regexpRules rules ret := by
  unfold regexpRules
  rw [filter_concat]
  simp only [Bool.and_eq_true, beq_iff_eq]

/-- One rule is put where it belongs. -/
theorem Read.insertRule {rules : List SpDisabledFunction} {s : Stores} (h : Read rules s)
    (r : SpDisabledFunction) : Read (rules ++ [r]) (insertRule s r) where
  find ret k := by
    rw [unhooked_insertRule, rulesFor_concat]
    cases ht : target r with
    | none => simpa using h.find ret k
    | some k' =>
      by_cases hr : isRet r = ret
      · by_cases hk : k' = k
        · subst hk
          simp [hr, h.find, getD_nonempty?, nonempty?_concat]
        · simp [hr, hk, h.find]
      · simp [hr, h.find]
  find_idx ret i := by
    rw [unhooked_insertRule]
    cases target r with
    | none => exact h.find_idx ret i
    | some k =>
      by_cases hr : isRet r = ret
      · simp [hr, h.find_idx]
      · simp [hr, h.find_idx]
  hooked ret := by rw [hooked_insertRule, h.hooked]
  regexps ret := by rw [regexps_insertRule, regexpRules_concat, h.regexps]
  contents := (contents_insertRule s r).trans (h.contents.append_right [r])
  time ret r' hr' := by
    rw [(side_insertRule s r ret).mem_iff, List.mem_append] at hr'
    rcases hr' with hr' | hr'
    · exact h.time ret r' hr'
    · split_ifs at hr' with hr
      · rw [List.mem_singleton.mp hr', hr]
      · cases hr'

/-- **Reading puts every rule where it belongs.** -/
theorem read_storesOf (rules : List SpDisabledFunction) : Read rules (storesOf rules) := by
  induction rules using List.reverseRecOn with
  | nil =>
    refine ⟨fun ret k => ?_, fun ret i => ?_, fun ret => ?_, fun ret => ?_, List.Perm.refl _,
      fun ret r hr => ?_⟩
    all_goals cases ret
    all_goals first | rfl | cases hr
  | append_singleton rules r ih =>
    rw [storesOf_concat]
    exact ih.insertRule r

/-! ### Hooking -/

/-- The function runs `check_disabled_function`. -/
def CheckAt (h : Hooks) (f : ZendString) : Prop :=
  h.functionTable.handlerOf f = some .checkDisabledFunction

/-- The functions have the types `ty`. -/
def Typed (ty : ZendString → Option FnType) (h : Hooks) : Prop :=
  ∀ f, h.functionTable.typeOf f = ty f

theorem checkAt_hookCheck {w : World} {ty : ZendString → Option FnType} {key : ZendString} {h : Hooks}
    (ht : Typed ty h) (hi : ty (cstr key) = some .internal) :
    CheckAt (hookCheck w key h).2 (cstr key) := by
  unfold CheckAt hookCheck
  rw [handlerOf_hookFunction, if_pos ⟨Or.inl rfl, (ht _).trans hi⟩]

/-! ### Moving the lists -/

/-- A list that is moved, the types of the functions being `ty`. -/
def moves (ty : ZendString → Option FnType) (k : HashKey) (l : List SpDisabledFunction) : Bool :=
  match k with
  | .idx _ => false
  | .str key => decide (ty (cstr key) = some .internal) || l.head?.any checkIsBuiltinName

section Moving
variable {w : World} {ty : ZendString → Option FnType}

theorem hooks_hookEntry {m : Moving} {key : ZendString} {l : List SpDisabledFunction} :
    (hookEntry w m (.str key, l)).hooks = (hookCheck w key m.hooks).2 := by
  unfold hookEntry
  dsimp only
  split_ifs <;> rfl

theorem tables_hookEntry (w : World) {m : Moving} {k : HashKey} {l : List SpDisabledFunction}
    (ht : Typed ty m.hooks)
    (hkey : ∀ key, k = .str key → moves ty k l = true → symtableKey key = .str key) (k' : HashKey) :
    (hookEntry w m (k, l)).toHookHt.find? k' =
        (if k = k' ∧ moves ty k l = true then none else m.toHookHt.find? k') ∧
      (hookEntry w m (k, l)).hookedHt.find? k' =
        (if k = k' ∧ moves ty k l = true then some l else m.hookedHt.find? k') := by
  cases k with
  | idx i => simp [hookEntry, moves]
  | str key =>
    have hcond : ((hookCheck w key m.hooks).1 || l.head?.any checkIsBuiltinName) =
        moves ty (.str key) l := by
      unfold hookCheck moves
      rw [fst_hookFunction, ht]
    unfold hookEntry
    dsimp only
    rw [hcond]
    by_cases hm : moves ty (.str key) l = true
    · rw [if_pos hm, hkey key rfl hm]
      simp [hm]
    · rw [if_neg hm]
      simp [hm]

/-- Everything the loop does to the tables and the hooks. -/
structure Moved (ty : ZendString → Option FnType) (l : List (HashKey × List SpDisabledFunction))
    (m m' : Moving) : Prop where
  toHook : ∀ k, m'.toHookHt.find? k =
    if (OrdTable.lookup k l).any (moves ty k) then none else m.toHookHt.find? k
  hooked : ∀ k, m'.hookedHt.find? k =
    if (OrdTable.lookup k l).any (moves ty k) then OrdTable.lookup k l else m.hookedHt.find? k
  check : ∀ f, (.str f ∈ l.map Prod.fst ∧ ty (cstr f) = some .internal) → CheckAt m'.hooks (cstr f)

theorem typed_hookEntry {m : Moving} (ht : Typed ty m.hooks) (e : HashKey × List SpDisabledFunction) :
    Typed ty (hookEntry w m e).hooks :=
  fun f => (checkSteps_hookEntry (w := w) (m := m) e).typeOf.trans (ht f)

/-- Every internal function the lists are about runs the check when the loop is over. -/
theorem checkAt_foldl : ∀ {l : List (HashKey × List SpDisabledFunction)} {m : Moving},
    Typed ty m.hooks → ∀ f, .str f ∈ l.map Prod.fst → ty (cstr f) = some .internal →
    CheckAt (l.foldl (hookEntry w) m).hooks (cstr f)
  | [], _, _, _, hmem, _ => by cases hmem
  | (a, v) :: l, m, ht, f, hmem, hi => by
    rw [List.map_cons, List.mem_cons] at hmem
    rcases hmem with rfl | hmem
    · have hc : CheckAt (hookEntry w m (.str f, v)).hooks (cstr f) := by
        rw [hooks_hookEntry]
        exact checkAt_hookCheck ht hi
      exact (checkSteps_foldl w l _).handlerOf hc
    · exact checkAt_foldl (typed_hookEntry ht (a, v)) f hmem hi

/-- What the loop leaves under a key, in the table it empties and in the table it fills. -/
theorem tables_foldl {l : List (HashKey × List SpDisabledFunction)} {m : Moving}
    (hn : (l.map Prod.fst).Nodup) (ht : Typed ty m.hooks)
    (hkey : ∀ key v, (.str key, v) ∈ l → moves ty (.str key) v = true → symtableKey key = .str key)
    (k : HashKey) :
    (l.foldl (hookEntry w) m).toHookHt.find? k =
        (if (OrdTable.lookup k l).any (moves ty k) then none else m.toHookHt.find? k) ∧
      (l.foldl (hookEntry w) m).hookedHt.find? k =
        if (OrdTable.lookup k l).any (moves ty k) then OrdTable.lookup k l else m.hookedHt.find? k := by
  -- only the turn of this key changes what is found there
  have hturn : ∀ e ∈ l, ∀ m : Moving, Typed ty m.hooks → Typed ty (hookEntry w m e).hooks ∧
      ((hookEntry w m e).toHookHt.find? k, (hookEntry w m e).hookedHt.find? k) =
        if e.1 = k then
          if moves ty k e.2 = true then (none, some e.2) else (m.toHookHt.find? k, m.hookedHt.find? k)
        else (m.toHookHt.find? k, m.hookedHt.find? k) := by
    rintro ⟨a, v⟩ he m ht
    refine ⟨typed_hookEntry ht (a, v), ?_⟩
    obtain ⟨hto, hed⟩ := tables_hookEntry w ht (fun key h hm => hkey key v (h ▸ he) (h ▸ hm)) k
    rw [hto, hed]
    by_cases hk : a = k
    · subst hk
      by_cases hm : moves ty a v = true <;> simp [hm]
    · simp [hk]
  have hloop := OrdTable.foldl_turn_of (fun m : Moving => Typed ty m.hooks) k
    (fun m => (m.toHookHt.find? k, m.hookedHt.find? k))
    (fun v old => if moves ty k v = true then (none, some v) else old) hn hturn m ht
  rw [Prod.ext_iff] at hloop
  cases hl : OrdTable.lookup k l with
  | none => simpa [hl] using hloop
  | some v => by_cases hm : moves ty k v = true <;> simpa [hl, hm] using hloop

theorem moved_foldl {l : List (HashKey × List SpDisabledFunction)} {m : Moving}
    (hn : (l.map Prod.fst).Nodup) (ht : Typed ty m.hooks)
    (hkey : ∀ key v, (.str key, v) ∈ l → moves ty (.str key) v = true → symtableKey key = .str key) :
    Moved ty l m (l.foldl (hookEntry w) m) :=
  ⟨fun k => (tables_foldl hn ht hkey k).1, fun k => (tables_foldl hn ht hkey k).2,
    fun f hf => checkAt_foldl ht f hf.1 hf.2⟩

/-- What `hook_functions` does to a table of which nothing has been moved yet. -/
theorem moved_hookFunctions {m : Moving} (ht : Typed ty m.hooks)
    (hkey : ∀ key v, m.toHookHt.find? (.str key) = some v → moves ty (.str key) v = true →
      symtableKey key = .str key) : Moved ty m.toHookHt.entries m (hookFunctions w m) :=
  moved_foldl m.toHookHt.nodup ht fun key v hv => hkey key v (OrdTable.find?_eq_some.mpr hv)

end Moving

/-! ### The stores after hooking -/

/-- The function runs `check_disabled_function`, behind the check on `eval` or not. -/
def Checked (h : Hooks) (f : ZendString) : Prop :=
  CheckAt h f ∨ h.functionTable.handlerOf f = some .evalBlacklistCallback ∧
    (h.saved .spEvalBlacklistFunctionsHook).find? f = some .checkDisabledFunction

instance (h : Hooks) (f : ZendString) : Decidable (Checked h f) := by
  unfold Checked CheckAt; infer_instance

/-- The list under `k` belongs into a table of the hooked. -/
def InHooked (h : Hooks) (k : ZendString) : Prop :=
  (h.functionTable.typeOf (cstr k) = some .internal ∧ Checked h (cstr k)) ∨ cstr k ∈ builtinNames

/-- **The six stores**, after the functions have been hooked. -/
structure Partitioned (rules : List SpDisabledFunction) (s : Stores) (h : Hooks) : Prop where
  perm : (contents s).Perm rules
  time : ∀ ret, ∀ r ∈ side s ret, isRet r = ret
  inUnhooked : ∀ ret k l, (unhooked s ret).find? (.str k) = some l ↔
    l ≠ [] ∧ l = rulesFor rules ret k ∧ ¬ InHooked h k
  inHooked : ∀ ret k l, (hooked s ret).find? (.str k) = some l ↔
    l ≠ [] ∧ l = rulesFor rules ret k ∧ InHooked h k
  keys : ∀ ret i, (unhooked s ret).find? (.idx i) = none ∧ (hooked s ret).find? (.idx i) = none
  patterns : ∀ ret, regexps s ret = regexpRules rules ret

theorem validHead_builtinNames : ∀ f ∈ builtinNames, validHead f = true := by decide

theorem mem_rulesFor {rules : List SpDisabledFunction} {ret : Bool} {k : ZendString}
    {r : SpDisabledFunction} : r ∈ rulesFor rules ret k ↔ r ∈ rules ∧ isRet r = ret ∧ target r = some k := by
  simp [rulesFor, List.mem_filter]

theorem checkIsBuiltinName_eq {r : SpDisabledFunction} {k : ZendString} (h : target r = some k) :
    checkIsBuiltinName r = decide (cstr k ∈ builtinNames) := by
  unfold target at h
  unfold checkIsBuiltinName
  cases hl : r.functionsList with
  | cons f l => rw [hl] at h; rw [show f = k from Option.some.inj h]
  | nil => rw [hl] at h; rw [show r.function = some k from h]

/-- All the rules of a list are about its key, so its first rule tells whether it is about a
construct. -/
theorem moves_rulesFor {rules : List SpDisabledFunction} {ret : Bool} {k : ZendString}
    {ty : ZendString → Option FnType} {l : List SpDisabledFunction}
    (h : nonempty? (rulesFor rules ret k) = some l) : moves ty (.str k) l = true ↔
      ty (cstr k) = some .internal ∨ cstr k ∈ builtinNames := by
  obtain ⟨hn, rfl⟩ := nonempty?_eq_some.mp h
  obtain ⟨r, l, hl⟩ := List.exists_cons_of_ne_nil hn
  have hr : r ∈ rulesFor rules ret k := by rw [hl]; exact List.mem_cons_self
  have hb := checkIsBuiltinName_eq (mem_rulesFor.mp hr).2.2
  simp [moves, hl, hb]

/-- What the hooks are about: internal functions and language constructs. -/
def Movable (ty : ZendString → Option FnType) (k : ZendString) : Prop :=
  ty (cstr k) = some .internal ∨ cstr k ∈ builtinNames

instance (ty : ZendString → Option FnType) (k : ZendString) : Decidable (Movable ty k) := by
  unfold Movable; infer_instance

theorem any_moves_iff {t : RuleTable} {rules : List SpDisabledFunction} {ret : Bool}
    {ty : ZendString → Option FnType}
    (hfind : ∀ k, t.find? (.str k) = nonempty? (rulesFor rules ret k)) (k : ZendString) :
    (OrdTable.lookup (.str k) t.entries).any (moves ty (.str k)) = true ↔
      Movable ty k ∧ rulesFor rules ret k ≠ [] := by
  have hk : OrdTable.lookup (.str k) t.entries = nonempty? (rulesFor rules ret k) := hfind k
  rw [hk]
  cases hl : nonempty? (rulesFor rules ret k) with
  | none => simp [nonempty?_eq_none.mp hl]
  | some l =>
    have hn : rulesFor rules ret k ≠ [] := by
      obtain ⟨hn, rfl⟩ := nonempty?_eq_some.mp hl
      exact hn
    rw [Option.any_some, moves_rulesFor hl]
    exact ⟨fun h => ⟨h, hn⟩, And.left⟩

/-- One table and its hooked counterpart. -/
structure Half (ty : ZendString → Option FnType) (rules : List SpDisabledFunction) (ret : Bool)
    (table : RuleTable) (m : Moving) : Prop where
  toHook : ∀ k, m.toHookHt.find? (.str k) =
    if Movable ty k then none else nonempty? (rulesFor rules ret k)
  hooked : ∀ k, m.hookedHt.find? (.str k) =
    if Movable ty k then nonempty? (rulesFor rules ret k) else none
  idx : ∀ i, m.toHookHt.find? (.idx i) = none ∧ m.hookedHt.find? (.idx i) = none
  values : (m.toHookHt.values ++ m.hookedHt.values).Perm table.values
  typed : Typed ty m.hooks
  check : ∀ k, rulesFor rules ret k ≠ [] → ty (cstr k) = some .internal → CheckAt m.hooks (cstr k)

theorem half_hookFunctions (w : World) (m : Moving) {ty : ZendString → Option FnType}
    {rules : List SpDisabledFunction} {ret : Bool} (ht : Typed ty m.hooks)
    (hfind : ∀ k, m.toHookHt.find? (.str k) = nonempty? (rulesFor rules ret k))
    (hidx : ∀ i, m.toHookHt.find? (.idx i) = none) (he : m.hookedHt = .empty) :
    Half ty rules ret m.toHookHt (hookFunctions w m) := by
  have hhead : ∀ k, Movable ty k → validHead (cstr k) = true := by
    rintro k (hi | hb)
    · exact FunctionTable.validHead_of_typeOf ((ht _).trans hi)
    · exact validHead_builtinNames _ hb
  have hmoved : Moved ty m.toHookHt.entries m (hookFunctions w m) := by
    refine moved_hookFunctions ht fun key v hv hm => symtableKey_of_validHead (hhead key ?_)
    exact (moves_rulesFor ((hfind key).symm.trans hv)).mp hm
  have hany : ∀ k, (OrdTable.lookup (.str k) m.toHookHt.entries).any (moves ty (.str k)) = true ↔
      Movable ty k ∧ rulesFor rules ret k ≠ [] := any_moves_iff hfind
  have hto : ∀ k, (hookFunctions w m).toHookHt.find? (.str k) =
      if Movable ty k then none else nonempty? (rulesFor rules ret k) := by
    intro k
    rw [hmoved.toHook, hfind, if_congr (hany k) rfl rfl]
    by_cases hm : Movable ty k <;> by_cases hn : rulesFor rules ret k = [] <;> simp [hm, hn, nonempty?]
  have hhooked : ∀ k, (hookFunctions w m).hookedHt.find? (.str k) =
      if Movable ty k then nonempty? (rulesFor rules ret k) else none := by
    intro k
    have hk : OrdTable.lookup (.str k) m.toHookHt.entries = nonempty? (rulesFor rules ret k) := hfind k
    rw [hmoved.hooked, he, if_congr (hany k) rfl rfl, hk]
    by_cases hm : Movable ty k <;> by_cases hn : rulesFor rules ret k = [] <;> simp [hm, hn, nonempty?]
  have hindex : ∀ i, (hookFunctions w m).toHookHt.find? (.idx i) = none ∧
      (hookFunctions w m).hookedHt.find? (.idx i) = none := by
    intro i
    have hi : OrdTable.lookup (.idx i) m.toHookHt.entries = none := hidx i
    rw [hmoved.toHook, hmoved.hooked, hi, hidx, he]
    exact ⟨rfl, rfl⟩
  refine ⟨hto, hhooked, hindex, ?_, fun f => (checkSteps_hookFunctions w m).typeOf.trans (ht f),
    fun k hn hi => hmoved.check k ⟨?_, hi⟩⟩
  · refine OrdTable.values_split hmoved.toHook fun k => ?_
    rw [hmoved.hooked, he]
    rfl
  · refine OrdTable.mem_keys.mpr ⟨rulesFor rules ret k, ?_⟩
    rw [hfind, nonempty?, if_neg hn]

/-! ### The check on `eval` -/

theorem Checked.hookEval {w : World} {h : Hooks} {f name : ZendString} (hc : Checked h f) :
    Checked (hookFunction w name .spEvalBlacklistFunctionsHook .evalBlacklistCallback h).2 f := by
  unfold Checked CheckAt at *
  rcases hookFunction_cases w name .spEvalBlacklistFunctionsHook .evalBlacklistCallback h f with
    ⟨hh, hs⟩ | ⟨old, hold, hne, -, -, hh, hs, -⟩
  · rwa [hh, hs]
  · rw [hh, hs]
    rcases hc with hc | ⟨he, -⟩
    · exact Or.inr ⟨rfl, hold.symm.trans hc⟩
    · exact absurd (Option.some.inj (hold.symm.trans he)) hne

theorem hookEvalBlacklist_spec (w : World) (g : SpGlobals) (h : Hooks) :
    (∀ f, (hookEvalBlacklist w g h).functionTable.typeOf f = h.functionTable.typeOf f) ∧
      ∀ f, Checked h f → Checked (hookEvalBlacklist w g h) f := by
  have hsteps := evalSteps_hookEvalBlacklist w g h
  exact ⟨fun f => hsteps.typeOf,
    fun f hf => hsteps.preserve (fun h => Checked h f) (fun _ _ hc => hc.hookEval) hf⟩

/-! ### The whole -/

/-- The stores that hooking leaves, the types of the functions being `ty`. -/
structure After (ty : ZendString → Option FnType) (rules : List SpDisabledFunction) (s : Stores) :
    Prop where
  half : ∀ ret, ∃ m, unhooked s ret = m.toHookHt ∧ hooked s ret = m.hookedHt ∧
    Half ty rules ret (unhooked (storesOf rules) ret) m
  regexps : ∀ ret, regexps s ret = regexps (storesOf rules) ret

theorem After.side {ty : ZendString → Option FnType} {rules : List SpDisabledFunction} {s : Stores}
    (h : After ty rules s) (ret : Bool) : (side s ret).Perm (side (storesOf rules) ret) := by
  obtain ⟨m, hu, hh, hm⟩ := h.half ret
  unfold Partition.side
  rw [hu, hh, h.regexps, (read_storesOf rules).hooked]
  refine List.Perm.append_right _ (hm.values.trans ?_)
  rw [show (OrdTable.empty : RuleTable).values = [] from rfl, List.append_nil]

theorem After.partitioned {rules : List SpDisabledFunction} {s : Stores} {h : Hooks}
    (ha : After h.functionTable.typeOf rules s)
    (hc : ∀ ret k, rulesFor rules ret k ≠ [] → h.functionTable.typeOf (cstr k) = some .internal →
      Checked h (cstr k)) : Partitioned rules s h := by
  have hread := read_storesOf rules
  have hin : ∀ ret k, rulesFor rules ret k ≠ [] →
      (InHooked h k ↔ Movable h.functionTable.typeOf k) := by
    intro ret k hn
    unfold InHooked Movable
    exact or_congr_left (and_iff_left_of_imp (hc ret k hn))
  refine ⟨?_, fun ret r hr => ?_, fun ret k l => ?_, fun ret k l => ?_, fun ret i => ?_, fun ret => ?_⟩
  · exact ((ha.side false).append (ha.side true)).trans hread.contents
  · exact hread.time ret r ((ha.side ret).mem_iff.mp hr)
  · obtain ⟨m, hu, -, hm⟩ := ha.half ret
    rw [hu, hm.toHook, Option.ite_none_left_eq_some, nonempty?_eq_some]
    constructor
    · rintro ⟨hk, hne, rfl⟩
      exact ⟨hne, rfl, (hin ret k hne).not.mpr hk⟩
    · rintro ⟨hne, rfl, hk⟩
      exact ⟨(hin ret k hne).not.mp hk, hne, rfl⟩
  · obtain ⟨m, -, hh, hm⟩ := ha.half ret
    rw [hh, hm.hooked, Option.ite_none_right_eq_some, nonempty?_eq_some]
    constructor
    · rintro ⟨hk, hne, rfl⟩
      exact ⟨hne, rfl, (hin ret k hne).mpr hk⟩
    · rintro ⟨hne, rfl, hk⟩
      exact ⟨(hin ret k hne).mp hk, hne, rfl⟩
  · obtain ⟨m, hu, hh, hm⟩ := ha.half ret
    rw [hu, hh]
    exact hm.idx i
  · rw [ha.regexps, hread.regexps]

/-- What the hooks of the rules leave. -/
theorem after_hookRules {w : World} {g : SpGlobals} {rules : List SpDisabledFunction} {s : Stores}
    {h₀ h : Hooks} (hy : Yields (hookRules w g (storesOf rules) h₀) (s, h)) :
    After h₀.functionTable.typeOf rules s ∧ Typed h₀.functionTable.typeOf h ∧
      ∀ ret k, rulesFor rules ret k ≠ [] → h₀.functionTable.typeOf (cstr k) = some .internal →
        CheckAt h (cstr k) := by
  have hread := read_storesOf rules
  unfold hookRules at hy
  obtain ⟨h₁, hy₁, hy⟩ := yields_bind.mp hy
  obtain ⟨h₂, hy₂, hy⟩ := yields_bind.mp hy
  cases yields_pure.mp hy
  have hcall := half_hookFunctions w ⟨(storesOf rules).disabledFunctions,
    (storesOf rules).disabledFunctionsHooked, h₀⟩ (fun f => rfl) (hread.find false)
    (hread.find_idx false) (hread.hooked false)
  have hret := half_hookFunctions w ⟨(storesOf rules).disabledFunctionsRet,
    (storesOf rules).disabledFunctionsRetHooked, _⟩ hcall.typed (hread.find true)
    (hread.find_idx true) (hread.hooked true)
  have hreg : CheckSteps w _ h :=
    (checkSteps_hookFunctionsRegexp hy₁).trans (checkSteps_hookFunctionsRegexp hy₂)
  refine ⟨⟨fun ret => ?_, fun ret => by cases ret <;> rfl⟩, fun f => hreg.typeOf.trans (hret.typed f),
    fun ret k hn hi => ?_⟩
  · cases ret with
    | false => exact ⟨_, rfl, rfl, hcall⟩
    | true => exact ⟨_, rfl, rfl, hret⟩
  · cases ret with
    | false =>
      have hc := (checkSteps_hookFunctions w ⟨(storesOf rules).disabledFunctionsRet,
        (storesOf rules).disabledFunctionsRetHooked, _⟩).handlerOf (hcall.check k hn hi)
      exact hreg.handlerOf hc
    | true => exact hreg.handlerOf (hret.check k hn hi)

/-- What all the hooks leave: the stores, and the check on the internal functions with rules. -/
theorem after_hookDisabledFunctions {w : World} {g : SpGlobals} {rules : List SpDisabledFunction}
    {s : Stores} {h₀ h : Hooks} (hy : Yields (hookDisabledFunctions w g (storesOf rules) h₀) (s, h)) :
    After h.functionTable.typeOf rules s ∧ ∀ ret k, rulesFor rules ret k ≠ [] →
      h.functionTable.typeOf (cstr k) = some .internal → Checked h (cstr k) := by
  unfold hookDisabledFunctions at hy
  obtain ⟨⟨s₁, h₁⟩, hrules, hy⟩ := yields_bind.mp hy
  cases yields_pure.mp hy
  obtain ⟨ha, ht, hc⟩ := after_hookRules hrules
  obtain ⟨hty, hcheck⟩ := hookEvalBlacklist_spec w g h₁
  have htyped : (hookEvalBlacklist w g h₁).functionTable.typeOf = h₀.functionTable.typeOf :=
    funext fun f => (hty f).trans (ht f)
  rw [htyped]
  exact ⟨ha, fun ret k hn hi => hcheck _ (Or.inl (hc ret k hn hi))⟩

theorem partitioned_hookDisabledFunctions {w : World} {g : SpGlobals} {rules : List SpDisabledFunction}
    {s : Stores} {h₀ h : Hooks} (hy : Yields (hookDisabledFunctions w g (storesOf rules) h₀) (s, h)) :
    Partitioned rules s h := by
  obtain ⟨ha, hc⟩ := after_hookDisabledFunctions hy
  exact ha.partitioned hc

/-- **Where every rule is.** After the rules have been read and the functions have been hooked, the
six stores share the rules: at their time, under their target, in the order written, and with the
hooked exactly the lists about functions that are hooked and about language constructs. -/
theorem stores_partition {w : World} {g : SpGlobals} {rules : List SpDisabledFunction} {s : Stores}
    {h₀ h : Hooks} (hy : Yields (hookDisabledFunctions w g (storesOf rules) h₀) (s, h)) :
    Partitioned rules s h :=
  partitioned_hookDisabledFunctions hy

/-- The engine has one function, `system`. -/
def sampleHooks : Hooks where
  functionTable := ⟨⟨[(zstr "system", ⟨.internal, .php 0⟩)], by decide⟩, by decide⟩

theorem stores_partition_sample : ∃ s h,
    Yields (hookDisabledFunctions (World.empty 80300) {} (storesOf [{ function := some (zstr "system") }])
      sampleHooks) (s, h) ∧ Partitioned [{ function := some (zstr "system") }] s h :=
  ⟨_, _, rfl, stores_partition rfl⟩

/-- The keywords of `sp.disable_function.function("include\").drop();`, where the backslash takes the
NUL at the end of the argument. -/
def nulKeywords : List SpParsedKeyword :=
  [{ kw := zstr "function", arg := some (zstr "include\\"), argtype := .str },
    { kw := zstr "drop", argtype := .empty }]

/-- The rule they give. -/
def nulRule : SpDisabledFunction where
  textualRepresentation := spGetTextualRepresentation ({ kw := zstr "disable_function" } :: nulKeywords)
  function := some (zstr "include" ++ [0])

/-- The list of this rule is with the hooked, although its key is neither the name of a function nor
that of a language construct. -/
theorem nul_key_hooked : Accepted (World.empty 80300) nulRule ∧
    ∃ s h, Yields (hookDisabledFunctions (World.empty 80300) {} (storesOf [nulRule]) sampleHooks) (s, h) ∧
      (hooked s false).find? (.str (zstr "include" ++ [0])) = some [nulRule] ∧
      zstr "include" ++ [0] ∉ builtinNames ∧
      h.functionTable.typeOf (zstr "include" ++ [0]) = none := by
  refine ⟨⟨{ kw := zstr "disable_function" }, nulKeywords, by rfl⟩, _, _, rfl, by rfl, by decide, by rfl⟩

end Snuffleupagus.Hook.Partition
