import Mathlib.Tactic.IntervalCases
import Mathlib.Tactic.Ring
import Snuffleupagus.Php.Bytes

/-! # Decimal numerals

`strtol` and its relatives read a numeral behind blanks, and do not say what follows it. `Parts` is a text
taken apart as they do: whatever has parts is read (`strtoNum_text`), whatever is read has them
(`exists_parts`), and only in one way (`Parts.eq_of_text`). `decimal` writes the numerals that are read back
(`digits_decimal`). -/

namespace Snuffleupagus.Php.Numeral

open Snuffleupagus.Php.Bytes

/-! ### Digits -/

section Digits
variable {c : UInt8} {s t : ZendString}

theorem toNat_of_isDigit (h : isDigit c = true) : 48 ≤ c.toNat ∧ c.toNat ≤ 57 := by
  simp only [isDigit, Bool.and_eq_true, decide_eq_true_eq] at h
  exact ⟨UInt8.le_iff_toNat_le.mp h.1, UInt8.le_iff_toNat_le.mp h.2⟩

theorem ne_zero_of_isDigit (h : isDigit c = true) : c ≠ 0 := by
  rintro rfl
  cases h

theorem isSpace_of_isDigit (h : isDigit c = true) : isSpace c = false := by
  have hc := (toNat_of_isDigit h).1
  have hne : c ≠ 32 := by
    rintro rfl
    cases h
  have hle : ¬ c ≤ 13 := by
    intro hle
    have hle := UInt8.le_iff_toNat_le.mp hle
    have h13 : (13 : UInt8).toNat = 13 := rfl
    omega
  simp [isSpace, hne, hle]

theorem ne_sign_of_isDigit (h : isDigit c = true) : c ≠ 43 ∧ c ≠ 45 := by
  constructor
  · rintro rfl
    cases h
  · rintro rfl
    cases h

theorem digits_append (hs : ∀ c ∈ s, isDigit c = true) (acc : ℕ) :
    digits acc (s ++ t) = digits (digits acc s) t := by
  induction s generalizing acc with
  | nil => rfl
  | cons c s ih =>
    rw [List.forall_mem_cons] at hs
    rw [List.cons_append, digits, digits, if_pos hs.1, if_pos hs.1]
    exact ih hs.2 _

theorem digits_lt (hs : ∀ c ∈ s, isDigit c = true) (acc : ℕ) :
    digits acc s < (acc + 1) * 10 ^ s.length := by
  induction s generalizing acc with
  | nil => simp [digits]
  | cons c s ih =>
    rw [List.forall_mem_cons] at hs
    have hc := toNat_of_isDigit hs.1
    rw [digits, if_pos hs.1]
    calc digits (10 * acc + (c.toNat - 48)) s
        < (10 * acc + (c.toNat - 48) + 1) * 10 ^ s.length := ih hs.2 _
      _ ≤ (10 * (acc + 1)) * 10 ^ s.length := Nat.mul_le_mul_right _ (by omega)
      _ = (acc + 1) * 10 ^ (c :: s).length := by rw [List.length_cons, pow_succ]; ring

/-- The reading ends in front of the first byte that is no digit. -/
theorem digits_of_stop (acc : ℕ) (ht : ∀ c ∈ t.head?, isDigit c = false) : digits acc t = acc := by
  cases t with
  | nil => rfl
  | cons c t => rw [digits, if_neg (by rw [ht c rfl]; decide)]

theorem digits_append_stop (hs : ∀ c ∈ s, isDigit c = true) (ht : ∀ c ∈ t.head?, isDigit c = false) :
    digits 0 (s ++ t) = digits 0 s := by rw [digits_append hs, digits_of_stop _ ht]

end Digits

/-! ### A numeral in a text -/

/-- The sign of a numeral. -/
inductive Sign
  | none | plus | minus
  deriving DecidableEq

/-- The sign, as it is written. -/
def Sign.text : Sign → ZendString
  | .none => []
  | .plus => [43]
  | .minus => [45]

/-- The number with the sign. -/
def Sign.apply (sign : Sign) (n : ℕ) : ℤ := if sign = .minus then -n else n

/-- **A numeral in a text**: blanks in front of it, its sign and digits, and what follows. -/
@[ext] structure Parts where
  blanks : ZendString
  sign : Sign
  digits : ZendString
  rest : ZendString
  isSpace_blanks : ∀ c ∈ blanks, isSpace c = true
  ne_nil : digits ≠ []
  isDigit_digits : ∀ c ∈ digits, isDigit c = true
  stop : ∀ c ∈ rest.head?, isDigit c = false

/-- The text. -/
def Parts.text (p : Parts) : ZendString := p.blanks ++ (p.sign.text ++ (p.digits ++ p.rest))

/-- The number. -/
def Parts.value (p : Parts) : ℤ := p.sign.apply (Bytes.digits 0 p.digits)

/-- The text is nothing but a numeral. -/
def Parts.Whole (p : Parts) : Prop := p.blanks = [] ∧ p.rest = []

/-- **The decimal numeral of a number**, with a sign or without. -/
def IsNumeral (s : ZendString) (z : ℤ) : Prop := ∃ p : Parts, p.text = s ∧ p.Whole ∧ p.value = z

namespace Parts
variable (p : Parts)

/-- Behind the blanks, the text does not start with one. -/
theorem dropWhile_isSpace : p.text.dropWhile isSpace = p.sign.text ++ (p.digits ++ p.rest) := by
  obtain ⟨d, ds, hds⟩ := List.exists_cons_of_ne_nil p.ne_nil
  have hd : isSpace d = false := isSpace_of_isDigit (p.isDigit_digits d (hds ▸ List.mem_cons_self))
  unfold text
  rw [List.dropWhile_append_of_pos p.isSpace_blanks, hds]
  cases p.sign with
  | none => exact List.dropWhile_cons_of_neg (by rw [hd]; decide)
  | plus => exact List.dropWhile_cons_of_neg (by decide)
  | minus => exact List.dropWhile_cons_of_neg (by decide)

theorem takeWhile_isSpace : p.text.takeWhile isSpace = p.blanks := by
  have h := p.text.takeWhile_append_dropWhile (p := isSpace)
  rw [p.dropWhile_isSpace] at h
  exact List.append_cancel_right h

theorem takeWhile_isDigit : (p.digits ++ p.rest).takeWhile isDigit = p.digits := by
  rw [List.takeWhile_append_of_pos p.isDigit_digits]
  cases hrest : p.rest with
  | nil => simp
  | cons c s => rw [List.takeWhile_cons_of_neg (by rw [p.stop c (by rw [hrest]; rfl)]; decide), List.append_nil]

/-- **What has parts is read.** -/
theorem strtoNum_text : strtoNum p.text = some p.value := by
  obtain ⟨d, ds, hds⟩ := List.exists_cons_of_ne_nil p.ne_nil
  have hd := p.isDigit_digits d (hds ▸ List.mem_cons_self)
  obtain ⟨hplus, hminus⟩ := ne_sign_of_isDigit hd
  have hvalue : Bytes.digits 0 (d :: (ds ++ p.rest)) = Bytes.digits 0 (d :: ds) := by
    rw [← List.cons_append, ← hds]
    exact digits_append_stop p.isDigit_digits p.stop
  unfold strtoNum value
  rw [p.dropWhile_isSpace, hds]
  cases p.sign with
  | none => simp [Sign.text, Sign.apply, hplus, hminus, hd, hvalue]
  | plus => simp [Sign.text, Sign.apply, hd, hvalue]
  | minus => simp [Sign.text, Sign.apply, hd, hvalue]

/-- A sign is told from the digits behind it. -/
theorem sign_cancel {a b : Sign} {c d : UInt8} {s t : ZendString} (hc : isDigit c = true)
    (hd : isDigit d = true) (h : a.text ++ c :: s = b.text ++ d :: t) : a = b ∧ c :: s = d :: t := by
  have hc := ne_sign_of_isDigit hc
  have hd := ne_sign_of_isDigit hd
  cases a <;> cases b <;> simp [Sign.text] at h ⊢ <;> grind

/-- **The parts of a text.** -/
theorem eq_of_text {p q : Parts} (h : p.text = q.text) : p = q := by
  obtain ⟨c, s, hc⟩ := List.exists_cons_of_ne_nil p.ne_nil
  obtain ⟨d, t, hd⟩ := List.exists_cons_of_ne_nil q.ne_nil
  have hblanks : p.blanks = q.blanks := by rw [← p.takeWhile_isSpace, ← q.takeWhile_isSpace, h]
  have hsign : p.sign.text ++ c :: (s ++ p.rest) = q.sign.text ++ d :: (t ++ q.rest) := by
    rw [← List.cons_append, ← List.cons_append, ← hc, ← hd, ← p.dropWhile_isSpace, ← q.dropWhile_isSpace, h]
  obtain ⟨hsign, hrest⟩ := sign_cancel (p.isDigit_digits c (hc ▸ List.mem_cons_self))
    (q.isDigit_digits d (hd ▸ List.mem_cons_self)) hsign
  rw [← List.cons_append, ← List.cons_append, ← hc, ← hd] at hrest
  have hdigits : p.digits = q.digits := by rw [← p.takeWhile_isDigit, ← q.takeWhile_isDigit, hrest]
  rw [hdigits] at hrest
  exact Parts.ext hblanks hsign hdigits (List.append_cancel_left hrest)

end Parts

/-- Nothing but a numeral. -/
def Parts.ofDigits (sign : Sign) (s : ZendString) (hne : s ≠ []) (hs : ∀ c ∈ s, isDigit c = true) : Parts :=
  ⟨[], sign, s, [], nofun, hne, hs, nofun⟩

theorem Parts.text_ofDigits {sign : Sign} {s : ZendString} {hne : s ≠ []} {hs : ∀ c ∈ s, isDigit c = true} :
    (ofDigits sign s hne hs).text = sign.text ++ s := by simp [text, ofDigits]

/-- `strtol` reads a numeral. -/
theorem strtoNum_numeral (sign : Sign) {s : ZendString} (hne : s ≠ []) (hs : ∀ c ∈ s, isDigit c = true) :
    strtoNum (sign.text ++ s) = some (sign.apply (digits 0 s)) := by
  have h := (Parts.ofDigits sign s hne hs).strtoNum_text
  rw [Parts.text_ofDigits] at h
  exact h

theorem atol_of_strtoNum {s : ZendString} {v : ℤ} (h : strtoNum s = some v) (hmin : longMin < v)
    (hmax : v ≤ longMax) : atol s = v := by
  unfold atol strtoimax
  rw [h, Option.map_some, Option.map_some, Option.getD_some]
  rw [min_eq_right hmax, max_eq_right hmin.le]

/-- **What is read has parts.** -/
theorem exists_parts {s : ZendString} {v : ℤ} (h : strtoNum s = some v) : ∃ p : Parts, p.text = s := by
  -- behind the blanks and the sign there is a digit
  have hsplit : ∃ (sign : Sign) (u : ZendString), s.dropWhile isSpace = sign.text ++ u ∧
      ∃ d ∈ u.head?, isDigit d = true := by
    unfold strtoNum at h
    cases hs : s.dropWhile isSpace with
    | nil => rw [hs] at h; cases h
    | cons c t =>
      rw [hs] at h
      dsimp only at h
      have hdigit : ∀ u, (match u with
          | [] => none
          | e :: _ => if isDigit e then some (if c = 45 then -(digits 0 u : ℤ) else digits 0 u) else none) =
            some v → ∃ d ∈ u.head?, isDigit d = true := by
        intro u hu
        cases u with
        | nil => cases hu
        | cons e u =>
          by_cases he : isDigit e = true
          · exact ⟨e, rfl, he⟩
          · simp [he] at hu
      have hu := hdigit _ h
      by_cases hplus : c = 43
      · exact ⟨.plus, t, by rw [hplus]; rfl, by simpa [hplus] using hu⟩
      · by_cases hminus : c = 45
        · exact ⟨.minus, t, by rw [hminus]; rfl, by simpa [hminus] using hu⟩
        · exact ⟨.none, c :: t, rfl, by simpa [hplus, hminus] using hu⟩
  obtain ⟨sign, u, hu, d, hd, hdigit⟩ := hsplit
  refine ⟨⟨s.takeWhile isSpace, sign, u.takeWhile isDigit, u.dropWhile isDigit,
    fun c hc => List.mem_takeWhile_imp hc, ?_, fun c hc => List.mem_takeWhile_imp hc, ?_⟩, ?_⟩
  · cases u with
    | nil => cases hd
    | cons e u =>
      cases hd
      rw [List.takeWhile_cons_of_pos hdigit]
      exact List.cons_ne_nil _ _
  · intro c hc
    have hhead := List.head?_dropWhile_not isDigit u
    rw [hc] at hhead
    simpa using hhead
  · unfold Parts.text
    rw [List.takeWhile_append_dropWhile, ← hu, List.takeWhile_append_dropWhile]

/-- The numeral, with the blanks in front. -/
def Parts.head (p : Parts) : ZendString := p.blanks ++ (p.sign.text ++ p.digits)

theorem Parts.text_eq (p : Parts) : p.text = p.head ++ p.rest := by simp [text, head]

/-- Only the first byte behind the numeral matters. -/
theorem Parts.strtoNum_head_append (p : Parts) {t : ZendString} (ht : ∀ c ∈ t.head?, isDigit c = false) :
    strtoNum (p.head ++ t) = some p.value := by
  have h := (Parts.mk p.blanks p.sign p.digits t p.isSpace_blanks p.ne_nil p.isDigit_digits ht).strtoNum_text
  rw [Parts.text_eq] at h
  exact h

theorem Parts.ne_zero_of_mem_head (p : Parts) : ∀ c ∈ p.head, c ≠ 0 := by
  intro c hc
  rcases List.mem_append.mp hc with hc | hc
  · rintro rfl
    exact absurd (p.isSpace_blanks 0 hc) (by decide)
  · rcases List.mem_append.mp hc with hc | hc
    · rintro rfl
      revert hc
      cases p.sign <;> simp [Sign.text]
    · exact ne_zero_of_isDigit (p.isDigit_digits c hc)

/-- `strtol` does not look behind a NUL. -/
theorem strtoNum_cstr (s : ZendString) : strtoNum (cstr s) = strtoNum s := by
  have hsplit : cstr s ++ s.dropWhile (· ≠ 0) = s := List.takeWhile_append_dropWhile
  cases hc : strtoNum (cstr s) with
  | some v =>
    obtain ⟨p, hp⟩ := exists_parts hc
    rw [← hp, p.strtoNum_text] at hc
    rw [p.text_eq] at hp
    rw [← hp, List.append_assoc] at hsplit
    rw [← hsplit, p.strtoNum_head_append, hc]
    intro c hmem
    cases hrest : p.rest with
    | nil =>
      rw [hrest, List.nil_append] at hmem
      have hzero := List.head?_dropWhile_not (fun x : UInt8 => decide (x ≠ 0)) s
      rw [hmem] at hzero
      rw [show c = 0 by simpa using hzero]
      rfl
    | cons d t =>
      rw [hrest] at hmem
      exact p.stop c (by rw [hrest]; exact hmem)
  | none =>
    cases hs : strtoNum s with
    | none => rfl
    | some v =>
      -- the numeral ends in front of the first NUL
      obtain ⟨p, hp⟩ := exists_parts hs
      rw [p.text_eq] at hp
      have hcstr : cstr s = p.head ++ cstr p.rest := by
        rw [← hp]
        exact List.takeWhile_append_of_pos fun c hc => decide_eq_true (p.ne_zero_of_mem_head c hc)
      rw [hcstr, p.strtoNum_head_append] at hc
      · cases hc
      · intro c hmem
        cases hrest : p.rest with
        | nil => rw [hrest] at hmem; cases hmem
        | cons d t =>
          rw [hrest] at hmem
          unfold cstr at hmem
          rw [List.takeWhile_cons] at hmem
          split_ifs at hmem
          · exact p.stop c (by rw [hrest]; exact hmem)
          · cases hmem

/-! ### Writing a number -/

theorem decimal_of_lt {n : ℕ} (h : n < 10) : decimal n = [UInt8.ofNat (48 + n)] := by
  interval_cases n <;> rfl

theorem decimal_of_le {n : ℕ} (h : 10 ≤ n) : decimal n = decimal (n / 10) ++ [UInt8.ofNat (48 + n % 10)] := by
  have hlast := decimal_of_lt (Nat.mod_lt n (by decide : 0 < 10))
  unfold decimal at hlast ⊢
  rw [Nat.toDigits_of_base_le (by decide) h, List.map_append, ← hlast,
    Nat.toDigits_of_lt_base (Nat.mod_lt n (by decide))]

theorem isDigit_ofNat {n : ℕ} (h : n < 10) : isDigit (UInt8.ofNat (48 + n)) = true := by
  interval_cases n <;> rfl

theorem isDigit_decimal (n : ℕ) : ∀ c ∈ decimal n, isDigit c = true := by
  induction n using Nat.strong_induction_on with
  | _ n ih =>
    by_cases h : n < 10
    · rw [decimal_of_lt h]
      simpa using isDigit_ofNat h
    · rw [decimal_of_le (by omega), List.forall_mem_append]
      exact ⟨ih (n / 10) (by omega), by simpa using isDigit_ofNat (Nat.mod_lt n (by decide))⟩

theorem decimal_ne_nil (n : ℕ) : decimal n ≠ [] := by
  unfold decimal
  simp [Nat.toDigits_ne_nil]

theorem length_decimal_le {n k : ℕ} (h : 0 < k) : (decimal n).length ≤ k ↔ n < 10 ^ k := by
  unfold decimal
  rw [List.length_map]
  exact Nat.length_toDigits_le_iff (by decide) h

/-- **Writing and reading a number.** -/
theorem digits_decimal (n : ℕ) : digits 0 (decimal n) = n := by
  induction n using Nat.strong_induction_on with
  | _ n ih =>
    have hone : ∀ acc m, m < 10 → digits acc [UInt8.ofNat (48 + m)] = 10 * acc + m := by
      intro acc m hm
      rw [digits, if_pos (isDigit_ofNat hm), digits, UInt8.toNat_ofNat_of_lt' (by simp only [UInt8.size]; omega)]
      omega
    by_cases h : n < 10
    · rw [decimal_of_lt h, hone 0 n h]
      omega
    · rw [decimal_of_le (by omega), digits_append (isDigit_decimal _), ih (n / 10) (by omega),
        hone _ _ (Nat.mod_lt n (by decide))]
      omega

end Snuffleupagus.Php.Numeral
