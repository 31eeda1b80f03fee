import Mathlib.Data.List.Basic
import Mathlib.Tactic.SplitIfs

/-! # Percent-encoding

The bytes of a set are written as `%XX`, all others as they are. A decoder reads `%` and two digits as a byte;
where no two digits follow, the `%` is as plain as any other byte, and plain bytes may be changed in passing (a
`+` into a blank, say).

If neither `%` nor a digit is in the set, nothing of it is left in an encoded text (`forall_mem_encode`), and whoever
decodes reads the same with the encoding and without it (`decode_encode`). -/

namespace Snuffleupagus.Lib.Percent

/-- The digit of a number below 16. -/
def digit (n : ℕ) : UInt8 := UInt8.ofNat (if n < 10 then 48 + n else 55 + n)

/-- The number of a digit, in upper case or in lower case. -/
def hexValue (c : UInt8) : Option ℕ :=
  if 48 ≤ c && c ≤ 57 then some (c.toNat - 48)
  else if 65 ≤ c && c ≤ 70 then some (c.toNat - 55)
  else if 97 ≤ c && c ≤ 102 then some (c.toNat - 87)
  else none

/-- `%XX`. -/
def escape (c : UInt8) : List UInt8 := [37, digit (c.toNat / 16), digit (c.toNat % 16)]

/-- The bytes of a set are escaped. -/
def encode (p : UInt8 → Bool) (s : List UInt8) : List UInt8 := s.flatMap fun c => if p c then escape c else [c]

/-- What a decoder reads, and what it makes of plain bytes. -/
def decode (plain : UInt8 → UInt8) : List UInt8 → List UInt8
  | [] => []
  | 37 :: a :: b :: s =>
    match hexValue a, hexValue b with
    | some x, some y => UInt8.ofNat (16 * x + y) :: decode plain s
    | _, _ => plain 37 :: decode plain (a :: b :: s)
  | c :: s => plain c :: decode plain s

/-- **A set that leaves the escapes alone**: neither `%` nor a digit is in it. -/
structure Spares (p : UInt8 → Bool) : Prop where
  percent : p 37 = false
  digit : ∀ c, (hexValue c).isSome = true → p c = false

variable {p : UInt8 → Bool} {plain : UInt8 → UInt8} {c : UInt8} {s : List UInt8}

theorem hexValue_digit {n : ℕ} (h : n < 16) : hexValue (digit n) = some n := by
  have hall : ∀ n < 16, hexValue (digit n) = some n := by decide
  exact hall n h

theorem encode_cons (c : UInt8) (s : List UInt8) :
    encode p (c :: s) = (if p c then escape c else [c]) ++ encode p s := List.flatMap_cons

theorem encode_cons_of_not (h : p c = false) : encode p (c :: s) = c :: encode p s := by
  rw [encode_cons, h]
  rfl

/-! ### The escapes -/

theorem hexValue_escape : (hexValue (digit (c.toNat / 16))) = some (c.toNat / 16) ∧
    hexValue (digit (c.toNat % 16)) = some (c.toNat % 16) := by
  have hlt : c.toNat < 256 := c.toNat_lt
  exact ⟨hexValue_digit (by omega), hexValue_digit (by omega)⟩

/-- An escape is read as its byte. -/
theorem decode_escape (c : UInt8) (s : List UInt8) : decode plain (escape c ++ s) = c :: decode plain s := by
  obtain ⟨hhigh, hlow⟩ := hexValue_escape (c := c)
  show decode plain (37 :: digit (c.toNat / 16) :: digit (c.toNat % 16) :: s) = _
  rw [decode, hhigh, hlow]
  dsimp only
  rw [Nat.div_add_mod, UInt8.ofNat_toNat]

/-- No escape is in the set. -/
theorem forall_mem_escape (hp : Spares p) (c : UInt8) : ∀ b ∈ escape c, p b = false := by
  obtain ⟨hhigh, hlow⟩ := hexValue_escape (c := c)
  unfold escape
  simp only [List.forall_mem_cons]
  exact ⟨hp.percent, hp.digit _ (by rw [hhigh]; rfl), hp.digit _ (by rw [hlow]; rfl), nofun⟩

/-! ### The text that is encoded -/

/-- **Nothing of the set is left.** -/
theorem forall_mem_encode (hp : Spares p) : ∀ s, ∀ b ∈ encode p s, p b = false
  | [], _, hb => nomatch hb
  | c :: s, b, hb => by
    rw [encode_cons, List.mem_append] at hb
    rcases hb with hb | hb
    · split_ifs at hb with hc
      · exact forall_mem_escape hp c b hb
      · rw [List.mem_singleton.mp hb]
        exact eq_false_of_ne_true hc
    · exact forall_mem_encode hp s b hb

theorem encode_of_forall_not : ∀ {s : List UInt8}, (∀ b ∈ s, p b = false) → encode p s = s
  | [], _ => rfl
  | c :: s, h => by
    rw [List.forall_mem_cons] at h
    rw [encode_cons_of_not h.1, encode_of_forall_not h.2]

theorem length_encode : ∀ s : List UInt8, (encode p s).length = s.length + 2 * s.countP p
  | [] => rfl
  | c :: s => by
    rw [encode_cons, List.length_append, length_encode s, List.length_cons, List.countP_cons]
    split_ifs <;> simp only [escape, List.length_cons, List.length_nil] <;> omega

/-! ### The text that is decoded -/

theorem decode_cons_of_ne (h : c ≠ 37) : decode plain (c :: s) = plain c :: decode plain s := by
  rw [decode]
  exact fun _ _ _ hc => absurd hc h

/-- Two digits follow. -/
def TwoDigits : List UInt8 → Prop
  | a :: b :: _ => (hexValue a).isSome = true ∧ (hexValue b).isSome = true
  | _ => False

/-- A `%` that begins no escape. -/
theorem decode_percent : ∀ {s : List UInt8}, ¬TwoDigits s → decode plain (37 :: s) = plain 37 :: decode plain s
  | [], _ => rfl
  | [_], _ => rfl
  | a :: b :: s, h => by
    rw [decode]
    cases ha : hexValue a with
    | none => rfl
    | some x =>
      cases hb : hexValue b with
      | none => rfl
      | some y => exact absurd (by rw [TwoDigits, ha, hb]; exact ⟨rfl, rfl⟩) h

/-- The encoding does not put digits where there are none. -/
theorem twoDigits_of_encode : ∀ {s : List UInt8}, TwoDigits (encode p s) → TwoDigits s := by
  -- a byte of the set is replaced by a `%`, which is no digit
  have hescape : ∀ c l, ¬TwoDigits (escape c ++ l) := fun c l h => nomatch h.1
  have hsecond : ∀ d c l, ¬TwoDigits (d :: (escape c ++ l)) := fun d c l h => nomatch h.2
  intro s h
  rcases s with _ | ⟨a, _ | ⟨b, s⟩⟩
  · exact h
  · rw [encode_cons] at h
    split_ifs at h
    · exact absurd h (hescape _ _)
    · exact h
  · rw [encode_cons] at h
    split_ifs at h with ha
    · exact absurd h (hescape _ _)
    · rw [encode_cons] at h
      split_ifs at h with hb
      · exact absurd h (hsecond _ _ _)
      · exact h

/-- **The decoder reads the same**, with the encoding and without it, if it leaves the bytes of the set as they
are. -/
theorem decode_encode (hp : Spares p) (hplain : ∀ c, p c = true → plain c = c) :
    ∀ s, decode plain (encode p s) = decode plain s
  | [] => rfl
  | c :: s => by
    by_cases hc : c = 37
    · subst hc
      rw [encode_cons_of_not hp.percent]
      by_cases hs : TwoDigits s
      · -- the two digits are left as they are
        rcases s with _ | ⟨a, _ | ⟨b, s⟩⟩
        · exact hs.elim
        · exact hs.elim
        · rw [encode_cons_of_not (hp.digit a hs.1), encode_cons_of_not (hp.digit b hs.2)]
          obtain ⟨x, hx⟩ := Option.isSome_iff_exists.mp hs.1
          obtain ⟨y, hy⟩ := Option.isSome_iff_exists.mp hs.2
          rw [decode, decode, hx, hy]
          dsimp only
          rw [decode_encode hp hplain s]
      · rw [decode_percent hs, decode_percent fun h => hs (twoDigits_of_encode h), decode_encode hp hplain s]
    · rw [decode_cons_of_ne hc, encode_cons]
      split_ifs with hset
      · rw [decode_escape, decode_encode hp hplain s, hplain c hset]
      · rw [List.singleton_append, decode_cons_of_ne hc, decode_encode hp hplain s]

end Snuffleupagus.Lib.Percent
