import Snuffleupagus.Ifilter.Server
import Snuffleupagus.Lib.Percent

/-! # The encoder of server variables

`sp_server_encode` goes through a string twice. The first loop counts, in an `int`, how much longer the encoding
is, and the second writes the encoding into a buffer of that size. Here the sum and the writing are watched: a sum
above the largest `int` is undefined, and so is writing behind the buffer (`encodeString`).

The sum leaves its type from 2^30 dangerous characters on. All other strings are encoded as they should be
(`server_encoding_iff`), the variables included that are registered for a request; there the watched function is the
one of the rest of the development (`filterVariables_eq`). -/

namespace Snuffleupagus.Ifilter.Encode

open Snuffleupagus.Lib Snuffleupagus.Lib.Table Snuffleupagus.Lib.InPlace Snuffleupagus.Php.Bytes
open Snuffleupagus.Php.Value Snuffleupagus.Config.Rule Snuffleupagus.Ifilter.Server

/-! ### The two loops -/

/-- The largest `int`. -/
def intMax : ℕ := 2 ^ 31 - 1

/-- One turn of the first loop: `extra += sp_is_dangerous_char[c] * 2`. -/
def countByte (extra : ℕ) (c : UInt8) : Option ℕ :=
  let sum := extra + if spIsDangerousChar c then 2 else 0
  if sum ≤ intMax then some sum else none

/-- One turn of the second loop: the bytes go behind those that are written, in a buffer of `size` bytes. -/
def writeByte (size : ℕ) (written : ZendString) (c : UInt8) : Option ZendString :=
  let written := written ++ encodeByte c
  if written.length ≤ size then some written else none

/-- What the encoder leaves: the string itself, or what is written to a new one of that size. -/
inductive Encoding
  | unchanged
  | allocated (size : ℕ) (written : ZendString)

/-- The string that is there afterwards. -/
def Encoding.text (s : ZendString) : Encoding → ZendString
  | .unchanged => s
  | .allocated _ written => written

/-- `sp_server_encode`, on a string. -/
def encodeString (s : ZendString) : Option Encoding := do
  let extra ← s.foldlM countByte 0
  if extra = 0 then some .unchanged
  else do
    let written ← s.foldlM (writeByte (s.length + extra)) []
    some (.allocated (s.length + extra) written)

/-- `php_raw_url_decode`, and `php_url_decode`, which takes `+` for a blank. -/
def urlDecode (plus : Bool) : ZendString → ZendString :=
  Percent.decode fun c => if plus && c == 43 then 32 else c

/-- **A string is encoded as it should be**: the new string is written whole, nothing dangerous is left, the encoding
is not encoded again, and whoever decodes reads the same. -/
structure Encodes (s : ZendString) (e : Encoding) : Prop where
  run : encodeString s = some e
  exact : ∀ size written, e = .allocated size written → written.length = size
  safe : ∀ c ∈ e.text s, spIsDangerousChar c = false
  idempotent : encodeString (e.text s) = some .unchanged
  lossless : ∀ plus, urlDecode plus (e.text s) = urlDecode plus s

section Loops
variable {s : ZendString}

theorem foldlM_countByte : ∀ {s : ZendString} {extra : ℕ}, extra ≤ intMax → s.foldlM countByte extra =
    if extra + 2 * s.countP spIsDangerousChar ≤ intMax then some (extra + 2 * s.countP spIsDangerousChar) else none
  | [], extra, h => by simp [h]
  | c :: s, extra, h => by
    have hsum : (extra + if spIsDangerousChar c then 2 else 0) + 2 * s.countP spIsDangerousChar =
        extra + 2 * (c :: s).countP spIsDangerousChar := by
      rw [List.countP_cons]
      split_ifs <;> omega
    rw [List.foldlM_cons, countByte]
    by_cases hle : (extra + if spIsDangerousChar c then 2 else 0) ≤ intMax
    · rw [if_pos hle, ← hsum]
      exact foldlM_countByte hle
    · rw [if_neg hle, if_neg (by omega)]
      rfl

theorem foldlM_writeByte {size : ℕ} : ∀ {s written : ZendString}, (written ++ s.flatMap encodeByte).length ≤ size →
    s.foldlM (writeByte size) written = some (written ++ s.flatMap encodeByte)
  | [], written, _ => by simp
  | c :: s, written, h => by
    rw [List.flatMap_cons, ← List.append_assoc] at h ⊢
    have hle : (written ++ encodeByte c).length ≤ size := le_trans (by simp) h
    rw [List.foldlM_cons, writeByte]
    rw [if_pos hle]
    exact foldlM_writeByte h

/-- The bytes that are written are those of the encoding. -/
theorem flatMap_encodeByte (s : ZendString) : s.flatMap encodeByte = Percent.encode spIsDangerousChar s := by
  have hdigit : ∀ n < 16, nibble spHexchars n = Percent.digit n := by decide
  refine List.flatMap_congr fun c _ => ?_
  have hlt : c.toNat < 256 := c.toNat_lt
  unfold encodeByte Percent.escape
  rw [hdigit _ (by omega), hdigit _ (by omega)]

/-- **What the encoder does.** -/
theorem encodeString_eq (s : ZendString) : encodeString s =
    if 2 * s.countP spIsDangerousChar ≤ intMax then
      some (if s.countP spIsDangerousChar = 0 then .unchanged
        else .allocated (s.length + 2 * s.countP spIsDangerousChar) (s.flatMap encodeByte))
    else none := by
  unfold encodeString
  rw [foldlM_countByte (Nat.zero_le _), Nat.zero_add]
  by_cases hle : 2 * s.countP spIsDangerousChar ≤ intMax
  · rw [if_pos hle, if_pos hle]
    show (if 2 * s.countP spIsDangerousChar = 0 then some Encoding.unchanged else _) = _
    have hlength : (s.flatMap encodeByte).length = s.length + 2 * s.countP spIsDangerousChar := by
      rw [flatMap_encodeByte, Percent.length_encode]
    rw [foldlM_writeByte (by rw [List.nil_append, hlength])]
    by_cases hzero : s.countP spIsDangerousChar = 0
    · rw [if_pos (by omega), if_pos hzero]
    · rw [if_neg (by omega), if_neg hzero]
      rfl
  · rw [if_neg hle, if_neg hle]
    rfl

/-! ### What the encoding is -/

/-- The dangerous characters are neither `%` nor digits. -/
theorem spares_spIsDangerousChar : Percent.Spares spIsDangerousChar := by
  refine ⟨rfl, fun c hc => eq_false_of_ne_true fun hd => ?_⟩
  have hall : ∀ c ∈ ([10, 13, 34, 39, 60, 62, 96] : ZendString), (Percent.hexValue c).isSome = false := by
    decide +kernel
  rw [hall c (List.contains_iff_mem.mp hd)] at hc
  cases hc

/-- No decoder changes a dangerous character. -/
theorem plain_spIsDangerousChar (plus : Bool) {c : UInt8} (hc : spIsDangerousChar c = true) :
    (if plus && c == 43 then (32 : UInt8) else c) = c := by
  have hall : ∀ c ∈ ([10, 13, 34, 39, 60, 62, 96] : ZendString), (c == 43) = false := by
    decide +kernel
  rw [hall c (List.contains_iff_mem.mp hc), Bool.and_false]
  rfl

theorem countP_eq_zero : s.countP spIsDangerousChar = 0 ↔ ∀ c ∈ s, spIsDangerousChar c = false := by
  simp [List.countP_eq_zero]

/-- A string without dangerous characters is its own encoding. -/
theorem flatMap_encodeByte_of_safe (h : ∀ c ∈ s, spIsDangerousChar c = false) : s.flatMap encodeByte = s :=
  (flatMap_encodeByte s).trans (Percent.encode_of_forall_not h)

/-- The string that is there afterwards is the encoding. -/
theorem text_encodeString {e : Encoding} (h : encodeString s = some e) : e.text s = s.flatMap encodeByte := by
  rw [encodeString_eq] at h
  split_ifs at h with hle hzero
  · cases h
    exact (flatMap_encodeByte_of_safe (countP_eq_zero.mp hzero)).symm
  · cases h
    rfl

theorem encodeString_of_safe (h : ∀ c ∈ s, spIsDangerousChar c = false) : encodeString s = some .unchanged := by
  rw [encodeString_eq, countP_eq_zero.mpr h]
  rfl

/-- **A string is encoded as it should be**, if its dangerous characters can be counted. -/
theorem encodes_iff (s : ZendString) : (∃ e, Encodes s e) ↔ s.countP spIsDangerousChar < 2 ^ 30 := by
  have hmax : 2 * s.countP spIsDangerousChar ≤ intMax ↔ s.countP spIsDangerousChar < 2 ^ 30 := by
    unfold intMax
    omega
  rw [← hmax]
  constructor
  · rintro ⟨e, he⟩
    have hrun := he.run
    rw [encodeString_eq] at hrun
    by_contra hle
    rw [if_neg hle] at hrun
    cases hrun
  · intro hle
    obtain ⟨e, he⟩ : ∃ e, encodeString s = some e := ⟨_, by rw [encodeString_eq, if_pos hle]⟩
    have htext := (text_encodeString he).trans (flatMap_encodeByte s)
    have hsafe : ∀ c ∈ e.text s, spIsDangerousChar c = false := by
      rw [htext]
      exact Percent.forall_mem_encode spares_spIsDangerousChar s
    refine ⟨e, he, ?_, hsafe, encodeString_of_safe hsafe, fun plus => ?_⟩
    · rintro size written rfl
      rw [encodeString_eq, if_pos hle] at he
      split_ifs at he
      · cases he
      · obtain ⟨rfl, rfl⟩ := Encoding.allocated.inj (Option.some.inj he)
        rw [flatMap_encodeByte, Percent.length_encode]
    · rw [htext]
      exact Percent.decode_encode spares_spIsDangerousChar (fun c => plain_spIsDangerousChar plus) s

end Loops

/-! ### The variables of a request -/

/-- `sp_server_encode`. -/
def spServerEncodeWatched (key : ZendString) (p : Svars × Heap) : Option (Svars × Heap) :=
  match stringAt p.1 key with
  | none => some p
  | some s => do
    match ← encodeString (p.2.content s) with
    | .unchanged => some p
    | .allocated _ written =>
      -- the old string is released
      let (new, h) := p.2.alloc written
      some (p.1.insert key (.string new), h)

/-- `sp_register_server_variables`, behind `orig_register_server_variables`. -/
def filterVariables (g : SpGlobals) (p : Svars × Heap) : Option (Svars × Heap) := do
  let p ← if g.serverEncode then do
      let p ← spServerEncodeWatched (zstr "REQUEST_URI") p
      spServerEncodeWatched (zstr "QUERY_STRING") p
    else some p
  some (if g.serverStrip then (p.1, strippedKeys.foldl (spServerStrip p.1) p.2) else p)

/-- The same, with sums and buffers of any size. -/
def encodeAndStrip (g : SpGlobals) (p : Svars × Heap) : Svars × Heap :=
  let p := if g.serverEncode then spServerEncode (zstr "QUERY_STRING") (spServerEncode (zstr "REQUEST_URI") p) else p
  if g.serverStrip then (p.1, strippedKeys.foldl (spServerStrip p.1) p.2) else p

theorem spRegisterServerVariables_eq (q : ServerRequest) (h : Heap) :
    spRegisterServerVariables q h = encodeAndStrip q.globals (origRegisterServerVariables q h) := rfl

/-- The variables that are encoded. -/
def encodedKeys : List ZendString := [zstr "REQUEST_URI", zstr "QUERY_STRING"]

/-- The value of a variable. -/
def valueOf (p : Svars × Heap) (key : ZendString) : Option ServerValue :=
  (p.1.find? key).map fun v =>
    match v with
    | .string s => .bytes (p.2.content s)
    | .other v => .other v

/-- **Each variable owns its string.** -/
structure Owned (p : Svars × Heap) : Prop where
  has : ∀ key s, stringAt p.1 key = some s → p.2.Has s
  unique : ∀ key key' s, stringAt p.1 key = some s → stringAt p.1 key' = some s → key = key'

/-- **The variables are filtered**: those that are listed and strings have nothing dangerous, the others have the
values they had. -/
structure Filtered (p p' : Svars × Heap) : Prop where
  safe : ∀ key ∈ encodedKeys ++ strippedKeys, ∀ s, valueOf p' key = some (.bytes s) →
    ∀ c ∈ s, spIsDangerousChar c = false
  others : ∀ key, key ∉ encodedKeys ++ strippedKeys → valueOf p' key = valueOf p key

/-- The dangerous characters of a variable can be counted. -/
def Countable (p : Svars × Heap) (key : ZendString) : Prop :=
  ∀ s, valueOf p key = some (.bytes s) → s.countP spIsDangerousChar < 2 ^ 30

/-- A change of the bytes of a value. -/
def ServerValue.mapBytes (f : ZendString → ZendString) : ServerValue → ServerValue
  | .bytes s => .bytes (f s)
  | .other v => .other v

section Variables
variable {p p' : Svars × Heap} {key k : ZendString} {s : Ref} {g : SpGlobals}

theorem find?_of_stringAt (h : stringAt p.1 key = some s) : p.1.find? key = some (.string s) := by
  unfold stringAt at h
  split at h
  · rename_i hfind
    cases h
    exact hfind
  · cases h

theorem valueOf_of_stringAt (h : stringAt p.1 key = some s) : valueOf p key = some (.bytes (p.2.content s)) := by
  unfold valueOf
  rw [find?_of_stringAt h]
  rfl

/-- A variable without a string has no bytes. -/
theorem valueOf_ne_bytes (h : stringAt p.1 key = none) (s : ZendString) : valueOf p key ≠ some (.bytes s) := by
  unfold stringAt at h
  unfold valueOf
  cases hfind : p.1.find? key with
  | none => nofun
  | some v =>
    cases v with
    | string s =>
      rw [hfind] at h
      cases h
    | other v => nofun

theorem mapBytes_valueOf (f : ZendString → ZendString) (h : stringAt p.1 key = none) :
    (valueOf p key).map (ServerValue.mapBytes f) = valueOf p key := by
  cases hv : valueOf p key with
  | none => rfl
  | some v =>
    cases v with
    | bytes s => exact absurd hv (valueOf_ne_bytes h s)
    | other v => rfl

theorem valueOf_congr {q : Svars × Heap} (hfind : q.1.find? k = p.1.find? k)
    (hcontent : ∀ s, stringAt p.1 k = some s → q.2.content s = p.2.content s) : valueOf q k = valueOf p k := by
  unfold valueOf
  rw [hfind]
  cases hv : p.1.find? k with
  | none => rfl
  | some v =>
    cases v with
    | string s =>
      have hat : stringAt p.1 k = some s := by
        unfold stringAt
        rw [hv]
      show some (ServerValue.bytes _) = some (ServerValue.bytes _)
      rw [hcontent s hat]
    | other v => rfl

/-- **The watched encoder is `sp_server_encode`**, if the dangerous characters can be counted. -/
theorem spServerEncodeWatched_eq (key : ZendString) (p : Svars × Heap) : (Countable p key →
    spServerEncodeWatched key p = some (spServerEncode key p)) ∧
      (¬Countable p key → spServerEncodeWatched key p = none) := by
  unfold spServerEncodeWatched spServerEncode
  cases hat : stringAt p.1 key with
  | none =>
    exact ⟨fun _ => rfl, fun h => absurd (fun s hs => absurd hs (valueOf_ne_bytes hat s)) h⟩
  | some s =>
    have hcount : Countable p key ↔ 2 * (p.2.content s).countP spIsDangerousChar ≤ intMax := by
      unfold Countable intMax
      rw [valueOf_of_stringAt hat]
      constructor
      · intro h
        have hlt := h _ rfl
        omega
      · rintro h _ ⟨⟩
        omega
    dsimp only
    rw [hcount, encodeString_eq]
    constructor
    · intro hle
      rw [if_pos hle]
      by_cases hzero : (p.2.content s).countP spIsDangerousChar = 0
      · rw [if_pos hzero, if_pos (by omega)]
        rfl
      · rw [if_neg hzero, if_neg (by omega)]
        rfl
    · intro hlt
      rw [if_neg hlt]
      rfl

/-- The other variables keep their values. -/
theorem valueOf_spServerEncode_of_ne (hhas : ∀ key s, stringAt p.1 key = some s → p.2.Has s) (hk : key ≠ k) :
    valueOf (spServerEncode key p) k = valueOf p k := by
  unfold spServerEncode
  cases stringAt p.1 key with
  | none => rfl
  | some s =>
    dsimp only
    split_ifs
    · rfl
    · refine valueOf_congr (by rw [OrdTable.find?_insert, if_neg hk]) fun r hr => ?_
      exact (extends_alloc p.2 _ r (hhas k r hr)).2

/-- The bytes of a variable that is encoded. -/
theorem valueOf_spServerEncode_self :
    valueOf (spServerEncode key p) key = (valueOf p key).map (ServerValue.mapBytes (List.flatMap encodeByte)) := by
  unfold spServerEncode
  cases hat : stringAt p.1 key with
  | none => exact (mapBytes_valueOf _ hat).symm
  | some s =>
    rw [valueOf_of_stringAt hat]
    show _ = some (ServerValue.bytes ((p.2.content s).flatMap encodeByte))
    dsimp only
    split_ifs with hzero
    · have hsafe := countP_eq_zero.mp (show (p.2.content s).countP spIsDangerousChar = 0 by omega)
      rw [valueOf_of_stringAt hat, flatMap_encodeByte_of_safe hsafe]
    · unfold valueOf
      rw [OrdTable.find?_insert, if_pos rfl]
      exact congrArg (fun b => some (ServerValue.bytes b)) (Function.update_self ..)

theorem valueOf_spServerEncode (ho : Owned p) : valueOf (spServerEncode key p) k =
    if key = k then (valueOf p k).map (ServerValue.mapBytes (List.flatMap encodeByte)) else valueOf p k := by
  split_ifs with hk
  · rw [← hk]
    exact valueOf_spServerEncode_self
  · exact valueOf_spServerEncode_of_ne ho.has hk

theorem owned_spServerEncode (ho : Owned p) : Owned (spServerEncode key p) := by
  unfold spServerEncode
  cases hat : stringAt p.1 key with
  | none => exact ho
  | some s =>
    dsimp only
    split_ifs with hzero
    · exact ho
    · -- the new string has not been there
      have hnew : ∀ k, stringAt p.1 k ≠ some (.allocated p.2.next) := fun k hk =>
        lt_irrefl _ (show p.2.next < p.2.next from ho.has k _ hk)
      refine ⟨fun k r hr => ?_, fun k k' r hr hr' => ?_⟩
      · rw [stringAt_insert] at hr
        split_ifs at hr
        · cases hr
          exact Nat.lt_succ_self _
        · exact (extends_alloc p.2 _ r (ho.has k r hr)).1
      · rw [stringAt_insert] at hr hr'
        split_ifs at hr hr' with hk hk'
        · exact hk.symm.trans hk'
        · cases hr
          exact absurd hr' (hnew k')
        · cases hr'
          exact absurd hr (hnew k)
        · exact ho.unique k k' r hr hr'

/-- The bytes of a variable that is stripped. -/
theorem valueOf_strip (ho : Owned p) : valueOf (p.1, strippedKeys.foldl (spServerStrip p.1) p.2) k =
    if k ∈ strippedKeys then (valueOf p k).map (ServerValue.mapBytes (List.map stripByte)) else valueOf p k := by
  have hcontent : ∀ s, stringAt p.1 k = some s → (strippedKeys.foldl (spServerStrip p.1) p.2).content s =
      if k ∈ strippedKeys then (p.2.content s).map stripByte else p.2.content s := by
    intro s hs
    have hmem : s ∈ strippedKeys.filterMap (stringAt p.1) ↔ k ∈ strippedKeys := by
      rw [List.mem_filterMap]
      constructor
      · rintro ⟨key, hkey, hat⟩
        exact ho.unique key k s hat hs ▸ hkey
      · exact fun hk => ⟨k, hk, hs⟩
    rw [foldl_spServerStrip, modifyAll_apply strip_strip]
    by_cases hk : k ∈ strippedKeys
    · rw [if_pos (hmem.mpr hk), if_pos hk]
    · rw [if_neg fun h => hk (hmem.mp h), if_neg hk]
  cases hat : stringAt p.1 k with
  | none =>
    have hsame : valueOf (p.1, strippedKeys.foldl (spServerStrip p.1) p.2) k = valueOf p k :=
      valueOf_congr rfl fun s hs => by rw [hat] at hs; cases hs
    rw [hsame]
    split_ifs
    · exact (mapBytes_valueOf _ hat).symm
    · rfl
  | some s =>
    rw [valueOf_of_stringAt (show stringAt (p.1, strippedKeys.foldl (spServerStrip p.1) p.2).1 k = some s from hat),
      valueOf_of_stringAt hat, hcontent s hat]
    split_ifs <;> rfl

/-- **What the filter leaves**, with both parts on. -/
theorem valueOf_encodeAndStrip (hencode : g.serverEncode = true) (hstrip : g.serverStrip = true) (ho : Owned p) :
    valueOf (encodeAndStrip g p) k =
      if k ∈ strippedKeys then (valueOf p k).map (ServerValue.mapBytes (List.map stripByte))
      else if k ∈ encodedKeys then (valueOf p k).map (ServerValue.mapBytes (List.flatMap encodeByte))
      else valueOf p k := by
  have hdisjoint : ∀ key ∈ strippedKeys, zstr "QUERY_STRING" ≠ key ∧ zstr "REQUEST_URI" ≠ key := by
    simp only [strippedKeys, List.forall_mem_cons]
    decide
  have hne : zstr "REQUEST_URI" ≠ zstr "QUERY_STRING" := by decide
  unfold encodeAndStrip
  rw [if_pos hencode]
  dsimp only
  rw [if_pos hstrip, valueOf_strip (owned_spServerEncode (owned_spServerEncode ho)),
    valueOf_spServerEncode (owned_spServerEncode ho), valueOf_spServerEncode ho]
  by_cases hk : k ∈ strippedKeys
  · rw [if_pos hk, if_pos hk, if_neg (hdisjoint k hk).1, if_neg (hdisjoint k hk).2]
  · rw [if_neg hk, if_neg hk]
    by_cases hquery : zstr "QUERY_STRING" = k
    · subst hquery
      rw [if_pos rfl, if_neg hne, if_pos (by decide)]
    · by_cases huri : zstr "REQUEST_URI" = k
      · subst huri
        rw [if_neg hquery, if_pos rfl, if_pos (by decide)]
      · have hmem : k ∉ encodedKeys := by
          simp only [encodedKeys, List.mem_cons, List.not_mem_nil, or_false, not_or]
          exact ⟨Ne.symm huri, Ne.symm hquery⟩
        rw [if_neg hquery, if_neg huri, if_neg hmem]

/-- **The watched filter is that of a request**, exactly if the dangerous characters can be counted. -/
theorem filterVariables_eq (hhas : ∀ key s, stringAt p.1 key = some s → p.2.Has s) :
    ((g.serverEncode = true → ∀ key ∈ encodedKeys, Countable p key) →
      filterVariables g p = some (encodeAndStrip g p)) ∧
    ((g.serverEncode = true ∧ ∃ key ∈ encodedKeys, ¬Countable p key) → filterVariables g p = none) := by
  have hne : zstr "REQUEST_URI" ≠ zstr "QUERY_STRING" := by decide
  have hsecond : Countable (spServerEncode (zstr "REQUEST_URI") p) (zstr "QUERY_STRING") ↔
      Countable p (zstr "QUERY_STRING") := by
    unfold Countable
    rw [valueOf_spServerEncode_of_ne hhas hne]
  unfold filterVariables encodeAndStrip
  constructor
  · intro hc
    by_cases hencode : g.serverEncode = true
    · have huri := hc hencode _ List.mem_cons_self
      have hquery := hc hencode (zstr "QUERY_STRING") (by decide)
      rw [if_pos hencode, if_pos hencode, (spServerEncodeWatched_eq _ p).1 huri]
      show (spServerEncodeWatched _ _ >>= _) = _
      rw [(spServerEncodeWatched_eq _ _).1 (hsecond.mpr hquery)]
      rfl
    · rw [if_neg hencode, if_neg hencode]
      rfl
  · rintro ⟨hencode, key, hkey, hc⟩
    rw [if_pos hencode]
    by_cases huri : Countable p (zstr "REQUEST_URI")
    · rw [(spServerEncodeWatched_eq _ p).1 huri]
      have hquery : ¬Countable p (zstr "QUERY_STRING") := by
        simp only [encodedKeys, List.mem_cons, List.not_mem_nil, or_false] at hkey
        rcases hkey with rfl | rfl
        · exact absurd huri hc
        · exact hc
      show (spServerEncodeWatched _ _ >>= _) = _
      rw [(spServerEncodeWatched_eq _ _).2 fun h => hquery (hsecond.mp h)]
      rfl
    · rw [(spServerEncodeWatched_eq _ p).2 huri]
      rfl

/-- The variables that are listed have nothing dangerous, and the others are as they were. -/
theorem filtered_encodeAndStrip (hencode : g.serverEncode = true) (hstrip : g.serverStrip = true) (ho : Owned p) :
    Filtered p (encodeAndStrip g p) := by
  refine ⟨fun key hkey s hs => ?_, fun key hkey => ?_⟩
  · rw [valueOf_encodeAndStrip hencode hstrip ho] at hs
    have hbytes : ∀ f, (valueOf p key).map (ServerValue.mapBytes f) = some (.bytes s) → ∃ s', s = f s' := by
      intro f hf
      cases hv : valueOf p key with
      | none =>
        rw [hv] at hf
        cases hf
      | some v =>
        rw [hv] at hf
        cases v with
        | bytes s' =>
          cases hf
          exact ⟨s', rfl⟩
        | other v => cases hf
    split_ifs at hs with hstripped hencoded
    · obtain ⟨s', rfl⟩ := hbytes _ hs
      intro c hc
      obtain ⟨c', -, rfl⟩ := List.mem_map.mp hc
      exact spIsDangerousChar_stripByte c'
    · obtain ⟨s', rfl⟩ := hbytes _ hs
      rw [flatMap_encodeByte]
      exact Percent.forall_mem_encode spares_spIsDangerousChar s'
    · exact absurd hkey (by rw [List.mem_append]; exact fun h => h.elim hencoded hstripped)
  · rw [List.mem_append, not_or] at hkey
    rw [valueOf_encodeAndStrip hencode hstrip ho, if_neg hkey.2, if_neg hkey.1]

end Variables

/-- **Server variables are encoded and stripped as they should be**, exactly if no string that is encoded has 2^30
dangerous characters. -/
theorem server_encoding_iff (s : ZendString) (g : SpGlobals) (p : Svars × Heap) :
    ((∃ e, Encodes s e) ↔ s.countP spIsDangerousChar < 2 ^ 30) ∧
    (g.serverEncode = true → g.serverStrip = true → Owned p →
      ((∃ p', filterVariables g p = some p' ∧ Filtered p p') ↔ ∀ key ∈ encodedKeys, Countable p key)) := by
  refine ⟨encodes_iff s, fun hencode hstrip ho => ?_⟩
  obtain ⟨hgood, hbad⟩ := filterVariables_eq (g := g) ho.has
  constructor
  · rintro ⟨p', hp', -⟩
    by_contra hc
    push Not at hc
    rw [hbad ⟨hencode, hc⟩] at hp'
    cases hp'
  · intro hc
    exact ⟨_, hgood fun _ => hc, filtered_encodeAndStrip hencode hstrip ho⟩

/-- A request for `/?<`, by a browser called `<`. -/
def sampleVariables : Svars × Heap :=
  ((OrdTable.empty.insert (zstr "REQUEST_URI") (.string (.allocated 0))).insert (zstr "HTTP_USER_AGENT")
    (.string (.allocated 1)), initialHeap [zstr "/?<", zstr "<<"])

theorem owned_sampleVariables : Owned sampleVariables := by
  have hat : ∀ key s, stringAt sampleVariables.1 key = some s →
      (key = zstr "REQUEST_URI" ∧ s = .allocated 0) ∨ (key = zstr "HTTP_USER_AGENT" ∧ s = .allocated 1) := by
    intro key s hs
    unfold sampleVariables at hs
    rw [stringAt_insert, stringAt_insert] at hs
    split_ifs at hs with hagent huri
    · cases hs
      exact Or.inr ⟨hagent.symm, rfl⟩
    · cases hs
      exact Or.inl ⟨huri.symm, rfl⟩
    · cases hs
  refine ⟨fun key s hs => ?_, fun key key' s hs hs' => ?_⟩
  · rcases hat key s hs with ⟨-, rfl⟩ | ⟨-, rfl⟩
    · exact Nat.zero_lt_two
    · exact Nat.one_lt_two
  · rcases hat key s hs with ⟨rfl, rfl⟩ | ⟨rfl, rfl⟩
    · rcases hat key' _ hs' with ⟨rfl, -⟩ | ⟨-, h⟩
      · rfl
      · cases h
    · rcases hat key' _ hs' with ⟨-, h⟩ | ⟨rfl, -⟩
      · cases h
      · rfl

theorem server_encoding_sample :
    (∃ p', filterVariables { serverEncode := true, serverStrip := true } sampleVariables = some p' ∧
      Filtered sampleVariables p') ↔ ∀ key ∈ encodedKeys, Countable sampleVariables key :=
  (server_encoding_iff [] { serverEncode := true, serverStrip := true } sampleVariables).2 rfl rfl owned_sampleVariables

/-- **A string of 2^30 times `<`**: the sum is no `int`. -/
theorem not_encoded_long : encodeString (List.replicate (2 ^ 30) 60) = none ∧
    ¬∃ e, Encodes (List.replicate (2 ^ 30) 60) e := by
  have hcount : (List.replicate (2 ^ 30) (60 : UInt8)).countP spIsDangerousChar = 2 ^ 30 := by
    rw [List.countP_replicate]
    exact if_pos rfl
  have hrun : encodeString (List.replicate (2 ^ 30) 60) = none := by
    rw [encodeString_eq, hcount]
    exact if_neg (by unfold intMax; omega)
  refine ⟨hrun, ?_⟩
  rintro ⟨e, he⟩
  rw [he.run] at hrun
  cases hrun

end Snuffleupagus.Ifilter.Encode
