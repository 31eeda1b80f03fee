import Snuffleupagus.Config.Parser
import Snuffleupagus.Php.Numeral

/-! # Numbers as arguments

`parse_int`, `parse_uint` and `parse_ulong` run `strtoimax` or `strtoul` on the argument and ask for two things
only: that a digit has been read, and that the conversion has not left its own range. What has been read is
then cut to the type of the option.

`ReadsNumerals` is what such a parser should do: accept the numerals in the range of the type, with their
values, and nothing else. It does so on the arguments that are `Plain`: if a numeral is found in them that the
conversion can hold, it is the whole argument, and the type can hold it too (`parse_number_iff`). -/

namespace Snuffleupagus.Config.Number

open Snuffleupagus.Lib.Attempts Snuffleupagus.Php.Bytes Snuffleupagus.Php.Numeral
open Snuffleupagus.Config.Rule Snuffleupagus.Config.Keyword Snuffleupagus.Config.Parser

/-! ### The parsers on their variable -/

/-- The number a parser has written, if it accepts the argument. -/
def written (r : Except ConfigError (ParserResult × ℤ)) : Option ℤ :=
  match r with
  | .ok (_, v) => some v
  | .error _ => none

/-- The same for a parser that writes before it looks. -/
def writtenOn (r : Except ConfigError ParserResult × ℤ) : Option ℤ :=
  match r with
  | (.ok _, v) => some v
  | (.error _, _) => none

section Parsers
variable (token : ZendString) (kw : SpParsedKeyword) (rule : List SpParsedKeyword) (v₀ : ℤ)

/-- `parse_int` on an `int`. -/
def intOf : Option ℤ := written (parseInt (fun n _ => n) token kw v₀)

/-- `parse_uint` on an `unsigned int` among the local variables of a rule. -/
def uintOf : Option ℤ := written (parseUint (fun n _ => n) token kw v₀)

/-- `parse_uint` on one in the configuration. -/
def uintToOf : Option ℤ := writtenOn (runOn (parseUintTo (fun n _ => n) token kw rule) v₀)

/-- `parse_ulong` on an `unsigned long` in the configuration. -/
def ulongOf : Option ℤ := writtenOn (runOn (parseUlong (fun n _ => n) token kw rule) v₀)

end Parsers

/-! ### What is meant -/

/-- **The numerals of the numbers from `lo` to `hi`** are accepted, with these numbers, and nothing else is. -/
def ReadsNumerals (lo hi : ℤ) (s : ZendString) (r : Option ℤ) : Prop :=
  ∀ v, r = some v ↔ IsNumeral s v ∧ lo ≤ v ∧ v ≤ hi

/-- The numbers `strtoimax` returns without an error. -/
def FitsIntmax (v : ℤ) : Prop := longMin ≤ v ∧ v ≤ longMax

/-- The numbers `strtoul` returns without an error, some of them modulo `2 ^ 64`. -/
def FitsUlong (v : ℤ) : Prop := v.natAbs < 2 ^ 64

/-- **A numeral that the conversion can hold is the whole argument**, and the type can hold it. -/
def Plain (wide : ℤ → Prop) (lo hi : ℤ) (s : ZendString) : Prop :=
  ∀ p : Parts, p.text = s → wide p.value → p.Whole ∧ lo ≤ p.value ∧ p.value ≤ hi

section Read
variable {wide : ℤ → Prop} [DecidablePred wide] {narrow : ℤ → ℤ} {lo hi : ℤ} {s : ZendString} {r : Option ℤ}

/-- **A conversion and a cut** read the numerals exactly on plain arguments. -/
theorem readsNumerals_iff (hr : r = ((strtoNum s).filter fun v => decide (wide v)).map narrow)
    (hin : ∀ v, lo ≤ v → v ≤ hi → wide v ∧ narrow v = v) : ReadsNumerals lo hi s r ↔ Plain wide lo hi s := by
  subst hr
  constructor
  · intro h p hp hw
    have hread : strtoNum s = some p.value := hp ▸ p.strtoNum_text
    have hv := (h (narrow p.value)).mp (by simp [hread, hw])
    obtain ⟨⟨q, hq, hwhole, hvalue⟩, hlo, hhi⟩ := hv
    -- the only numeral in the argument
    have hpq : q = p := Parts.eq_of_text (hq.trans hp.symm)
    subst hpq
    rw [← hvalue] at hlo hhi
    exact ⟨hwhole, hlo, hhi⟩
  · intro h v
    constructor
    · intro hv
      obtain ⟨u, hu, rfl⟩ := Option.map_eq_some_iff.mp hv
      obtain ⟨hread, hw⟩ := Option.filter_eq_some_iff.mp hu
      obtain ⟨p, hp⟩ := exists_parts hread
      have hvalue : p.value = u := Option.some.inj (p.strtoNum_text.symm.trans (hp ▸ hread))
      obtain ⟨hwhole, hlo, hhi⟩ := h p hp (by simpa [hvalue] using hw)
      rw [hvalue] at hlo hhi
      rw [(hin u hlo hhi).2]
      exact ⟨⟨p, hp, hwhole, hvalue⟩, hlo, hhi⟩
    · rintro ⟨⟨p, hp, -, hvalue⟩, hlo, hhi⟩
      have hread : strtoNum s = some v := by rw [← hp, p.strtoNum_text, hvalue]
      obtain ⟨hw, hn⟩ := hin v hlo hhi
      simp [hread, hw, hn]

end Read

instance : DecidablePred FitsIntmax := fun v => by unfold FitsIntmax; infer_instance

instance : DecidablePred FitsUlong := fun v => by unfold FitsUlong; infer_instance

section Numbers
variable {token : ZendString} {kw : SpParsedKeyword} {rule : List SpParsedKeyword} {v₀ : ℤ} {s : ZendString}

/-- The number `parse_uint` cuts out of what `strtoul` returns. -/
def uintPart (v : ℤ) : ℤ := ((v % 2 ^ 64).toNat % 2 ^ 32 : ℕ)

/-- The number `strtoul` returns. -/
def ulongPart (v : ℤ) : ℤ := ((v % 2 ^ 64).toNat : ℕ)

theorem spParseArg_of_some (hs : spGetArgString kw = some s) : spParseArg token kw = .ok s := by
  unfold spParseArg
  rw [hs]

/-- What the conversions return. -/
theorem strtoimax_cases : (strtoNum s = none ∧ strtoimax (cstr s) = none) ∨
    ∃ v, strtoNum s = some v ∧
      (FitsIntmax v ∧ strtoimax (cstr s) = some (v, false) ∨
        ¬FitsIntmax v ∧ ∃ u, strtoimax (cstr s) = some (u, true)) := by
  unfold strtoimax
  rw [strtoNum_cstr]
  cases strtoNum s with
  | none => exact Or.inl ⟨rfl, rfl⟩
  | some v =>
    refine Or.inr ⟨v, rfl, ?_⟩
    rw [Option.map_some]
    by_cases hv : FitsIntmax v
    · refine Or.inl ⟨hv, ?_⟩
      unfold FitsIntmax at hv
      rw [min_eq_right hv.2, max_eq_right hv.1, decide_eq_false (by omega)]
    · refine Or.inr ⟨hv, max longMin (min longMax v), ?_⟩
      unfold FitsIntmax at hv
      rw [decide_eq_true (by omega)]

theorem strtoul_cases : (strtoNum s = none ∧ strtoul (cstr s) = none) ∨
    ∃ v, strtoNum s = some v ∧
      (FitsUlong v ∧ strtoul (cstr s) = some ((v % 2 ^ 64).toNat, false) ∨
        ¬FitsUlong v ∧ ∃ u, strtoul (cstr s) = some (u, true)) := by
  unfold strtoul
  rw [strtoNum_cstr]
  cases strtoNum s with
  | none => exact Or.inl ⟨rfl, rfl⟩
  | some v =>
    refine Or.inr ⟨v, rfl, ?_⟩
    rw [Option.map_some]
    by_cases hv : FitsUlong v
    · exact Or.inl ⟨hv, congrArg some (if_pos hv)⟩
    · exact Or.inr ⟨hv, 2 ^ 64 - 1, congrArg some (if_neg hv)⟩

/-- What is read, if it fits. -/
theorem filter_some_eq {wide : ℤ → Prop} [DecidablePred wide] (narrow : ℤ → ℤ) (v : ℤ) :
    ((some v).filter fun v => decide (wide v)).map narrow = if wide v then some (narrow v) else none := by
  by_cases hv : wide v <;> simp [Option.filter, hv]

theorem intOf_eq (hs : spGetArgString kw = some s) :
    intOf token kw v₀ = ((strtoNum s).filter fun v => decide (FitsIntmax v)).map (·.bmod (2 ^ 32)) := by
  unfold intOf parseInt
  rw [spParseArg_of_some hs]
  dsimp only [Bind.bind, Except.bind]
  rcases strtoimax_cases (s := s) with ⟨hn, h⟩ | ⟨v, hn, ⟨hv, h⟩ | ⟨hv, u, h⟩⟩
  · rw [h, hn]
    rfl
  · rw [h, hn, filter_some_eq, if_pos hv]
    rfl
  · rw [h, hn, filter_some_eq, if_neg hv]
    rfl

theorem uintOf_eq (hs : spGetArgString kw = some s) :
    uintOf token kw v₀ = ((strtoNum s).filter fun v => decide (FitsUlong v)).map uintPart := by
  unfold uintOf parseUint
  rw [spParseArg_of_some hs]
  dsimp only [Bind.bind, Except.bind]
  rcases strtoul_cases (s := s) with ⟨hn, h⟩ | ⟨v, hn, ⟨hv, h⟩ | ⟨hv, u, h⟩⟩
  · rw [h, hn]
    rfl
  · rw [h, hn, filter_some_eq, if_pos hv]
    rfl
  · rw [h, hn, filter_some_eq, if_neg hv]
    rfl

/-- What a parser writes that cuts the number by `cut`. -/
theorem parseNumber_eq (hs : spGetArgString kw = some s) (cut : ℕ → ℤ) :
    writtenOn (runOn (parseNumber (fun n _ => cut n) token kw rule) v₀) =
      ((strtoNum s).filter fun v => decide (FitsUlong v)).map fun v => cut (v % 2 ^ 64).toNat := by
  unfold parseNumber
  rw [spParseArg_of_some hs, runOn_bind, runOn_ofAnswer]
  dsimp only
  rcases strtoul_cases (s := s) with ⟨hn, h⟩ | ⟨v, hn, ⟨hv, h⟩ | ⟨hv, u, h⟩⟩
  · rw [h, hn]
    rfl
  · rw [h, hn, filter_some_eq, if_pos hv]
    rfl
  · rw [h, hn, filter_some_eq, if_neg hv]
    rfl

theorem uintToOf_eq (hs : spGetArgString kw = some s) :
    uintToOf token kw rule v₀ = ((strtoNum s).filter fun v => decide (FitsUlong v)).map uintPart :=
  parseNumber_eq hs fun n => (n % 2 ^ 32 : ℕ)

theorem ulongOf_eq (hs : spGetArgString kw = some s) :
    ulongOf token kw rule v₀ = ((strtoNum s).filter fun v => decide (FitsUlong v)).map ulongPart :=
  parseNumber_eq hs fun n => n

/-- The numbers of an `unsigned int` and an `unsigned long` are not cut. -/
theorem uintPart_of_mem {v : ℤ} (hlo : 0 ≤ v) (hhi : v ≤ 2 ^ 32 - 1) : FitsUlong v ∧ uintPart v = v := by
  unfold FitsUlong uintPart
  omega

theorem ulongPart_of_mem {v : ℤ} (hlo : 0 ≤ v) (hhi : v ≤ 2 ^ 64 - 1) : FitsUlong v ∧ ulongPart v = v := by
  unfold FitsUlong ulongPart
  omega

theorem bmod_of_mem {v : ℤ} (hlo : -2 ^ 31 ≤ v) (hhi : v ≤ 2 ^ 31 - 1) :
    FitsIntmax v ∧ v.bmod (2 ^ 32) = v := by
  refine ⟨?_, Int.bmod_eq_of_le (by omega) (by omega)⟩
  unfold FitsIntmax longMin longMax
  omega

/-- **Each parser reads the numerals of its type exactly on plain arguments.** -/
theorem parse_number_iff (token : ZendString) (rule : List SpParsedKeyword) (v₀ : ℤ)
    (hs : spGetArgString kw = some s) :
    (ReadsNumerals (-2 ^ 31) (2 ^ 31 - 1) s (intOf token kw v₀) ↔
      Plain FitsIntmax (-2 ^ 31) (2 ^ 31 - 1) s) ∧
    (ReadsNumerals 0 (2 ^ 32 - 1) s (uintOf token kw v₀) ↔ Plain FitsUlong 0 (2 ^ 32 - 1) s) ∧
    (ReadsNumerals 0 (2 ^ 32 - 1) s (uintToOf token kw rule v₀) ↔ Plain FitsUlong 0 (2 ^ 32 - 1) s) ∧
    (ReadsNumerals 0 (2 ^ 64 - 1) s (ulongOf token kw rule v₀) ↔ Plain FitsUlong 0 (2 ^ 64 - 1) s) :=
  ⟨readsNumerals_iff (intOf_eq hs) fun _ => bmod_of_mem,
    readsNumerals_iff (uintOf_eq hs) fun _ => uintPart_of_mem,
    readsNumerals_iff (uintToOf_eq hs) fun _ => uintPart_of_mem,
    readsNumerals_iff (ulongOf_eq hs) fun _ => ulongPart_of_mem⟩

/-- The argument of a keyword. -/
def keywordOf (arg : String) : SpParsedKeyword := { kw := zstr "line", arg := some (zstr arg) }

/-- A plain argument. -/
theorem parse_number_twelve :
    (ReadsNumerals (-2 ^ 31) (2 ^ 31 - 1) (zstr "12") (intOf (zstr "line") (keywordOf "12") 0) ↔
      Plain FitsIntmax (-2 ^ 31) (2 ^ 31 - 1) (zstr "12")) ∧
    (ReadsNumerals 0 (2 ^ 32 - 1) (zstr "12") (uintOf (zstr "line") (keywordOf "12") 0) ↔
      Plain FitsUlong 0 (2 ^ 32 - 1) (zstr "12")) ∧
    (ReadsNumerals 0 (2 ^ 32 - 1) (zstr "12") (uintToOf (zstr "line") (keywordOf "12") [] 0) ↔
      Plain FitsUlong 0 (2 ^ 32 - 1) (zstr "12")) ∧
    (ReadsNumerals 0 (2 ^ 64 - 1) (zstr "12") (ulongOf (zstr "line") (keywordOf "12") [] 0) ↔
      Plain FitsUlong 0 (2 ^ 64 - 1) (zstr "12")) :=
  parse_number_iff (zstr "line") [] 0 rfl

/-- A numeral ends with a digit. -/
theorem isDigit_of_isNumeral {c : UInt8} {v : ℤ} (h : IsNumeral (s ++ [c]) v) : isDigit c = true := by
  obtain ⟨p, hp, ⟨-, hrest⟩, -⟩ := h
  have hlast := congrArg List.getLast? hp
  rw [p.text_eq, hrest, List.append_nil, Parts.head, ← List.append_assoc,
    List.getLast?_append_of_ne_nil _ p.ne_nil, List.getLast?_concat] at hlast
  exact p.isDigit_digits c (List.mem_of_getLast? hlast)

/-- **A negative number with a letter behind it**, far below the range, is accepted by all of them. -/
theorem parse_number_garbage :
    intOf (zstr "line") (keywordOf "-4294967295x") 0 = some 1 ∧
    uintOf (zstr "line") (keywordOf "-4294967295x") 0 = some 1 ∧
    uintToOf (zstr "line") (keywordOf "-4294967295x") [] 0 = some 1 ∧
    ulongOf (zstr "line") (keywordOf "-4294967295x") [] 0 = some 18446744069414584321 ∧
    ∀ v, ¬IsNumeral (zstr "-4294967295x") v := by
  have hread : strtoNum (zstr "-4294967295x") = some (-4294967295) := by decide
  refine ⟨?_, ?_, ?_, ?_, fun v h => ?_⟩
  · rw [intOf_eq (s := zstr "-4294967295x") rfl, hread]
    rfl
  · rw [uintOf_eq (s := zstr "-4294967295x") rfl, hread]
    rfl
  · rw [uintToOf_eq (s := zstr "-4294967295x") rfl, hread]
    rfl
  · rw [ulongOf_eq (s := zstr "-4294967295x") rfl, hread]
    rfl
  · exact absurd (isDigit_of_isNumeral (s := zstr "-4294967295") (c := 120) h) (by decide)

end Numbers

end Snuffleupagus.Config.Number
