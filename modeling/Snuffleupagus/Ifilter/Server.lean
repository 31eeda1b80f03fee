import Snuffleupagus.Config.Rule
import Snuffleupagus.Lib.InPlace
import Snuffleupagus.Php.Value

/-! # The filter on server variables

`sp_register_server_variables` lets PHP register the variables of a request, and then encodes or strips
some of them. `sp_server_encode` gives a variable a new string, and `sp_server_strip` writes into the string
the variable has.

Strings are shared. PHP has a table with the strings of one character, which lives as long as the process,
and takes a value of one byte from there. So stripping such a value changes the table, for the rest of the
process (`interned_intact_iff`). -/

namespace Snuffleupagus.Ifilter.Server

open Snuffleupagus.Lib.Table Snuffleupagus.Lib.InPlace Snuffleupagus.Php.Bytes Snuffleupagus.Php.Value
open Snuffleupagus.Config.Rule

/-! ### Strings -/

/-- A pointer to a string: to an entry of `zend_one_char_string`, or to a string of its own. -/
inductive Ref
  | interned (c : UInt8)
  | allocated (i : ℕ)
  deriving DecidableEq

/-- The strings of a process. Those from `next` on have not been allocated yet. -/
structure Heap where
  content : Ref → ZendString
  next : ℕ

/-- `zend_string_alloc`, with the contents. -/
def Heap.alloc (h : Heap) (s : ZendString) : Ref × Heap :=
  (.allocated h.next, ⟨Function.update h.content (.allocated h.next) s, h.next + 1⟩)

/-- The string has been allocated. -/
def Heap.Has (h : Heap) : Ref → Prop
  | .interned _ => True
  | .allocated i => i < h.next

/-- **Every interned string denotes its own character.** -/
def Heap.Intact (h : Heap) : Prop := ∀ c, h.content (.interned c) = [c]

/-- A server variable: a string, or something else. -/
inductive Svar
  | string (s : Ref)
  | other (v : Zval)

/-- `$_SERVER`. -/
abbrev Svars := OrdTable ZendString Svar

/-- The string under a key. -/
def stringAt (svars : Svars) (key : ZendString) : Option Ref :=
  match svars.find? key with
  | some (.string s) => some s
  | _ => none

/-! ### The filter -/

/-- `sp_is_dangerous_char`. -/
def spIsDangerousChar (c : UInt8) : Bool := [10, 13, 34, 39, 60, 62, 96].contains c

/-- One turn of the loop of `sp_server_strip`. -/
def stripByte (c : UInt8) : UInt8 := if spIsDangerousChar c then 95 else c

/-- `sp_server_strip`. -/
def spServerStrip (svars : Svars) (h : Heap) (key : ZendString) : Heap :=
  match stringAt svars key with
  | none => h
  | some s => { h with content := modify (List.map stripByte) h.content s }

/-- `sp_hexchars`. -/
def spHexchars : ZendString := zstr "0123456789ABCDEF"

/-- One turn of the second loop of `sp_server_encode`. -/
def encodeByte (c : UInt8) : ZendString :=
  if spIsDangerousChar c then [37, nibble spHexchars (c.toNat / 16), nibble spHexchars (c.toNat % 16)] else [c]

/-- `sp_server_encode`. -/
def spServerEncode (key : ZendString) (p : Svars × Heap) : Svars × Heap :=
  match stringAt p.1 key with
  | none => p
  | some s =>
    let extra := 2 * (p.2.content s).countP spIsDangerousChar
    if extra = 0 then p
    else
      -- the old string is released
      let (new, h) := p.2.alloc ((p.2.content s).flatMap encodeByte)
      (p.1.insert key (.string new), h)

/-- What a server has for a variable: the bytes of a value, or a value that is not a string. -/
inductive ServerValue
  | bytes (s : ZendString)
  | other (v : Zval)

/-- A request: the configuration in force, and what the server has for the variables. -/
structure ServerRequest where
  globals : SpGlobals
  vars : OrdTable ZendString ServerValue

/-- How PHP stores a value. -/
def store (h : Heap) : ServerValue → Svar × Heap
  | .bytes [c] => (.string (.interned c), h)
  | .bytes s => ((.string (h.alloc s).1), (h.alloc s).2)
  | .other v => (.other v, h)

/-- PHP registers one variable. -/
def register (p : Svars × Heap) (e : ZendString × ServerValue) : Svars × Heap :=
  (p.1.insert e.1 (store p.2 e.2).1, (store p.2 e.2).2)

/-- `orig_register_server_variables`. -/
def origRegisterServerVariables (q : ServerRequest) (h : Heap) : Svars × Heap :=
  q.vars.entries.foldl register (.empty, h)

/-- The variables that are stripped. -/
def strippedKeys : List ZendString :=
  [zstr "PHP_SELF", zstr "HTTP_HOST", zstr "HTTP_USER_AGENT", zstr "PATH_INFO", zstr "PATH_TRANSLATED",
    zstr "ORIG_PATH_TRANSLATED", zstr "ORIG_PATH_INFO"]

/-- `sp_register_server_variables`, up to the stripping. -/
def registerAndEncode (q : ServerRequest) (h : Heap) : Svars × Heap :=
  let p := origRegisterServerVariables q h
  if q.globals.serverEncode then spServerEncode (zstr "QUERY_STRING") (spServerEncode (zstr "REQUEST_URI") p)
  else p

/-- `sp_register_server_variables`. -/
def spRegisterServerVariables (q : ServerRequest) (h : Heap) : Svars × Heap :=
  let p := registerAndEncode q h
  if q.globals.serverStrip then (p.1, strippedKeys.foldl (spServerStrip p.1) p.2) else p

/-- Requests, one after the other. -/
def serve (l : List ServerRequest) (h : Heap) : Heap :=
  l.foldl (fun h q => (spRegisterServerVariables q h).2) h

/-- The strings of a process that starts. -/
def initialHeap (strings : List ZendString) : Heap where
  content
    | .interned c => [c]
    | .allocated i => strings.getD i []
  next := strings.length

/-! ### What should hold -/

/-- **Nothing is corrupted** by a request: the interned strings are what they should be, and of what is there
once PHP has registered the variables, only the values of those that are stripped have changed. -/
structure Uncorrupted (h : Heap) (q : ServerRequest) : Prop where
  intact : (spRegisterServerVariables q h).2.Intact
  others : ∀ s, (origRegisterServerVariables q h).2.Has s →
    (∀ key ∈ strippedKeys, stringAt (spRegisterServerVariables q h).1 key ≠ some s) →
      (spRegisterServerVariables q h).2.content s = (origRegisterServerVariables q h).2.content s

/-- A stripped variable has a value of one byte, which is dangerous. -/
def StripsInterned (q : ServerRequest) : Prop :=
  q.globals.serverStrip = true ∧ ∃ key ∈ strippedKeys, ∃ c, spIsDangerousChar c = true ∧
    q.vars.find? key = some (.bytes [c])

/-! ### What is only added -/

/-- What has been there is as it was. -/
def Extends (h h' : Heap) : Prop := ∀ s, h.Has s → h'.Has s ∧ h'.content s = h.content s

section Extends
variable {h h' h'' : Heap} {q : ServerRequest}

theorem Extends.refl (h : Heap) : Extends h h := fun _ hs => ⟨hs, rfl⟩

theorem Extends.trans (h₁ : Extends h h') (h₂ : Extends h' h'') : Extends h h'' := by
  intro s hs
  obtain ⟨hs', heq⟩ := h₁ s hs
  obtain ⟨hs'', heq'⟩ := h₂ s hs'
  exact ⟨hs'', heq'.trans heq⟩

theorem extends_alloc (h : Heap) (s : ZendString) : Extends h (h.alloc s).2 := by
  intro r hr
  have hne : r ≠ .allocated h.next := by
    rintro rfl
    exact lt_irrefl _ hr
  refine ⟨?_, ?_⟩
  · cases r with
    | interned c => trivial
    | allocated i => exact Nat.lt_succ_of_lt hr
  · show Function.update h.content (.allocated h.next) s r = h.content r
    exact Function.update_of_ne hne s h.content

theorem extends_store (h : Heap) (v : ServerValue) : Extends h (store h v).2 := by
  unfold store
  split
  · exact .refl h
  · exact extends_alloc h _
  · exact .refl h

theorem extends_register : ∀ (l : List (ZendString × ServerValue)) (p : Svars × Heap),
    Extends p.2 (l.foldl register p).2
  | [], p => .refl p.2
  | e :: l, p => (extends_store p.2 e.2).trans (extends_register l (register p e))

theorem extends_spServerEncode (key : ZendString) (p : Svars × Heap) : Extends p.2 (spServerEncode key p).2 := by
  unfold spServerEncode
  cases stringAt p.1 key with
  | none => exact .refl p.2
  | some s =>
    dsimp only
    split_ifs
    · exact .refl p.2
    · exact extends_alloc p.2 _

theorem extends_registerAndEncode (q : ServerRequest) (h : Heap) :
    Extends (origRegisterServerVariables q h).2 (registerAndEncode q h).2 := by
  unfold registerAndEncode
  dsimp only
  split_ifs
  · exact (extends_spServerEncode _ _).trans (extends_spServerEncode _ _)
  · exact .refl _

/-- Up to the stripping, no interned string has changed. -/
theorem content_registerAndEncode (q : ServerRequest) (h : Heap) (c : UInt8) :
    (registerAndEncode q h).2.content (.interned c) = h.content (.interned c) :=
  (((extends_register _ _).trans (extends_registerAndEncode q h)) (.interned c) trivial).2

end Extends

/-! ### Which strings are stripped -/

section Strip
variable {h : Heap} {q : ServerRequest} {key : ZendString} {c : UInt8}

theorem stringAt_insert (svars : Svars) (k : ZendString) (v : Svar) (key : ZendString) :
    stringAt (svars.insert k v) key =
      if k = key then (match v with | .string s => some s | .other _ => none) else stringAt svars key := by
  unfold stringAt
  rw [OrdTable.find?_insert]
  split_ifs
  · cases v <;> rfl
  · rfl

/-- A value is an interned string if it is one byte long. -/
theorem store_eq_interned {v : ServerValue} : (store h v).1 = .string (.interned c) ↔ v = .bytes [c] := by
  constructor
  · intro heq
    unfold store at heq
    split at heq
    · cases heq
      rfl
    · cases heq
    · cases heq
  · rintro rfl
    rfl

theorem stringAt_register (p : Svars × Heap) (k : ZendString) (v : ServerValue) :
    stringAt (register p (k, v)).1 key = some (.interned c) ↔
      if k = key then v = .bytes [c] else stringAt p.1 key = some (.interned c) := by
  show stringAt (p.1.insert k (store p.2 v).1) key = _ ↔ _
  rw [stringAt_insert]
  split_ifs
  · rw [← store_eq_interned (h := p.2)]
    cases (store p.2 v).1 with
    | string s => simp
    | other v => simp
  · rfl

/-- The strings of the variables that are registered. -/
theorem stringAt_foldl_register (l : List (ZendString × ServerValue)) (p : Svars × Heap)
    (hn : (l.map Prod.fst).Nodup) : stringAt (l.foldl register p).1 key = some (.interned c) ↔
      OrdTable.lookup key l = some (.bytes [c]) ∨
        (key ∉ l.map Prod.fst ∧ stringAt p.1 key = some (.interned c)) := by
  have hloop := OrdTable.foldl_turn key (fun p : Svars × Heap => stringAt p.1 key = some (.interned c))
    (fun v _ => v = .bytes [c]) hn (fun e _ p => propext (stringAt_register p e.1 e.2)) p
  rw [hloop, ← OrdTable.lookup_eq_none]
  cases OrdTable.lookup key l <;> simp

theorem stringAt_spServerEncode {key' : ZendString} (hne : key' ≠ key) (p : Svars × Heap) :
    stringAt (spServerEncode key' p).1 key = stringAt p.1 key := by
  unfold spServerEncode
  cases stringAt p.1 key' with
  | none => rfl
  | some s =>
    dsimp only
    split_ifs
    · rfl
    · exact (stringAt_insert ..).trans (if_neg hne)

/-- Other variables are encoded than are stripped. -/
theorem stringAt_registerAndEncode (hkey : key ∈ strippedKeys) :
    stringAt (registerAndEncode q h).1 key = some (.interned c) ↔ q.vars.find? key = some (.bytes [c]) := by
  have hencoded : ∀ key ∈ strippedKeys, zstr "QUERY_STRING" ≠ key ∧ zstr "REQUEST_URI" ≠ key := by
    simp only [strippedKeys, List.forall_mem_cons]
    decide
  obtain ⟨hquery, huri⟩ := hencoded key hkey
  have horig : stringAt (registerAndEncode q h).1 key = stringAt (origRegisterServerVariables q h).1 key := by
    unfold registerAndEncode
    dsimp only
    split_ifs
    · rw [stringAt_spServerEncode hquery, stringAt_spServerEncode huri]
    · rfl
  rw [horig]
  refine (stringAt_foldl_register q.vars.entries (.empty, h) q.vars.nodup).trans ?_
  have hempty : stringAt .empty key ≠ some (.interned c) := fun heq => by cases heq
  simp [hempty, OrdTable.find?]

/-- The strings that are stripped. -/
def strippedStrings (q : ServerRequest) (svars : Svars) : List Ref :=
  if q.globals.serverStrip then strippedKeys.filterMap (stringAt svars) else []

theorem foldl_spServerStrip (svars : Svars) : ∀ (l : List ZendString) (h : Heap),
    (l.foldl (spServerStrip svars) h).content =
      modifyAll (List.map stripByte) (l.filterMap (stringAt svars)) h.content
  | [], _ => rfl
  | key :: l, h => by
    have ih := foldl_spServerStrip svars l
    rw [List.foldl_cons, ih, List.filterMap_cons]
    unfold spServerStrip
    cases stringAt svars key with
    | none => rfl
    | some s => rfl

theorem stripByte_stripByte (c : UInt8) : stripByte (stripByte c) = stripByte c := by
  unfold stripByte
  split_ifs
  · rfl
  · rfl
  · rfl

theorem strip_strip (s : ZendString) : (s.map stripByte).map stripByte = s.map stripByte := by
  rw [List.map_map]
  exact List.map_congr_left fun c _ => stripByte_stripByte c

/-- **What a request does to a string.** -/
theorem content_spRegisterServerVariables (q : ServerRequest) (h : Heap) (s : Ref) :
    (spRegisterServerVariables q h).2.content s =
      if s ∈ strippedStrings q (registerAndEncode q h).1 then
        ((registerAndEncode q h).2.content s).map stripByte
      else (registerAndEncode q h).2.content s := by
  unfold spRegisterServerVariables strippedStrings
  dsimp only
  by_cases hstrip : q.globals.serverStrip = true
  · rw [if_pos hstrip, if_pos hstrip]
    show (strippedKeys.foldl (spServerStrip _) _).content s = _
    rw [foldl_spServerStrip, modifyAll_apply strip_strip]
  · rw [if_neg hstrip, if_neg hstrip, if_neg List.not_mem_nil]

theorem fst_spRegisterServerVariables (q : ServerRequest) (h : Heap) :
    (spRegisterServerVariables q h).1 = (registerAndEncode q h).1 := by
  unfold spRegisterServerVariables
  dsimp only
  split_ifs
  · rfl
  · rfl

theorem interned_mem_strippedStrings : Ref.interned c ∈ strippedStrings q (registerAndEncode q h).1 ↔
    q.globals.serverStrip = true ∧ ∃ key ∈ strippedKeys, q.vars.find? key = some (.bytes [c]) := by
  unfold strippedStrings
  split_ifs with hstrip
  · rw [List.mem_filterMap]
    constructor
    · rintro ⟨key, hkey, hat⟩
      exact ⟨hstrip, key, hkey, (stringAt_registerAndEncode hkey).mp hat⟩
    · rintro ⟨-, key, hkey, hfind⟩
      exact ⟨key, hkey, (stringAt_registerAndEncode hkey).mpr hfind⟩
  · exact iff_of_false List.not_mem_nil fun h => hstrip h.1

end Strip

/-! ### Requests -/

section Requests
variable {h : Heap} {q : ServerRequest}

/-- Nothing dangerous is left by the stripping. -/
theorem spIsDangerousChar_stripByte (c : UInt8) : spIsDangerousChar (stripByte c) = false := by
  unfold stripByte
  split_ifs with hc
  · rfl
  · exact eq_false_of_ne_true hc

/-- An interned string that is stripped of its dangerous character is lost. -/
theorem not_stripsInterned (hi : (spRegisterServerVariables q h).2.Intact) : ¬ StripsInterned q := by
  rintro ⟨hstrip, key, hkey, c, hc, hfind⟩
  have hmem := interned_mem_strippedStrings (h := h).mpr ⟨hstrip, key, hkey, hfind⟩
  have hcontent := hi c
  rw [content_spRegisterServerVariables, if_pos hmem] at hcontent
  obtain ⟨c', -, heq⟩ := List.mem_map.mp (hcontent ▸ List.mem_singleton_self c)
  have hsafe := spIsDangerousChar_stripByte c'
  rw [heq, hc] at hsafe
  cases hsafe

/-- The others stay what they are. -/
theorem intact_spRegisterServerVariables (hh : h.Intact) (hq : ¬ StripsInterned q) :
    (spRegisterServerVariables q h).2.Intact := by
  intro c
  rw [content_spRegisterServerVariables, content_registerAndEncode, hh c]
  split_ifs with hmem
  · obtain ⟨hstrip, key, hkey, hfind⟩ := interned_mem_strippedStrings.mp hmem
    have hc : ¬ spIsDangerousChar c = true := fun hc => hq ⟨hstrip, key, hkey, c, hc, hfind⟩
    rw [List.map_singleton, stripByte, if_neg hc]
  · rfl

/-- Nothing else than the values of stripped variables changes, in any case. -/
theorem content_of_not_stripped {s : Ref} (hs : (origRegisterServerVariables q h).2.Has s)
    (hother : ∀ key ∈ strippedKeys, stringAt (spRegisterServerVariables q h).1 key ≠ some s) :
    (spRegisterServerVariables q h).2.content s = (origRegisterServerVariables q h).2.content s := by
  have hmem : s ∉ strippedStrings q (registerAndEncode q h).1 := by
    unfold strippedStrings
    split_ifs
    · intro hs
      obtain ⟨key, hkey, hat⟩ := List.mem_filterMap.mp hs
      rw [fst_spRegisterServerVariables] at hother
      exact hother key hkey hat
    · exact List.not_mem_nil
  rw [content_spRegisterServerVariables, if_neg hmem]
  exact (extends_registerAndEncode q h s hs).2

/-- What a run of requests preserves. -/
theorem intact_serve : ∀ {l : List ServerRequest} {h : Heap}, h.Intact → (∀ q ∈ l, ¬ StripsInterned q) →
    (serve l h).Intact
  | [], _, hh, _ => hh
  | q :: l, h, hh, hl => by
    obtain ⟨hq, hl⟩ := List.forall_mem_cons.mp hl
    show (serve l (spRegisterServerVariables q h).2).Intact
    exact intact_serve (intact_spRegisterServerVariables hh hq) hl

/-- **No request corrupts anything** exactly if none strips a variable whose value is one dangerous byte. -/
theorem interned_intact_iff (strings : List ZendString) (l : List ServerRequest) :
    (∀ pre q post, l = pre ++ q :: post → Uncorrupted (serve pre (initialHeap strings)) q) ↔
      ∀ q ∈ l, ¬ StripsInterned q := by
  constructor
  · intro hall q hq
    obtain ⟨pre, post, heq⟩ := List.append_of_mem hq
    exact not_stripsInterned (hall pre q post heq).intact
  · rintro hl pre q post rfl
    rw [List.forall_mem_append, List.forall_mem_cons] at hl
    have hinitial : (initialHeap strings).Intact := fun _ => rfl
    have hpre := intact_serve hinitial hl.1
    exact ⟨intact_spRegisterServerVariables hpre hl.2.1, fun _ => content_of_not_stripped⟩

/-- A request with the header `User-Agent: <`, and `server_strip` on. -/
def sampleRequest : ServerRequest where
  globals := { serverStrip := true }
  vars := .insert .empty (zstr "HTTP_USER_AGENT") (.bytes (zstr "<"))

/-- The string `<` is the string `_` from then on. -/
theorem interned_corrupted : (serve [sampleRequest] (initialHeap [])).content (.interned 60) = zstr "_" ∧
    ¬ Uncorrupted (initialHeap []) sampleRequest := by
  have hcontent : (spRegisterServerVariables sampleRequest (initialHeap [])).2.content (.interned 60) =
      zstr "_" := by decide +kernel
  refine ⟨hcontent, fun hu => ?_⟩
  have hintact := hu.intact 60
  rw [hcontent] at hintact
  exact absurd hintact (by decide)

end Requests

end Snuffleupagus.Ifilter.Server
