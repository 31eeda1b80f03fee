import Snuffleupagus.Config.PathTokens

/-! # The bounds of the parser of paths

`parse_tokens` computes with the positions of the delimiters: it takes their differences for lengths, and
copies parts of the text. The parser is watched here: it fails on a difference below zero, on a part that is
not within the text, and on an index that is not shorter than the text it stands in.

Nothing of this happens on a text of at most `2 ^ 31` characters (`parse_safe`): what has been taken off ends
in front of the next delimiter, and an open index starts behind it. In a longer text the difference of two
positions need not be an `int`. Then the delimiters are not sorted, and a length is below zero
(`not_safe_farQuote`). -/

namespace Snuffleupagus.Config.PathBounds

open Snuffleupagus.Php.Bytes Snuffleupagus.Php.Engine Snuffleupagus.Config.Rule
open Snuffleupagus.Config.VarParser Snuffleupagus.Config.PathTokens

/-- What must not happen. -/
inductive Fault
  | underflow | outOfBounds | notShorter

/-- A computation that is watched. -/
abbrev Watched := Except Fault

/-- A difference of two `size_t`. -/
def lenSub (a b : ℕ) : Watched ℕ := if b ≤ a then .ok (a - b) else .error .underflow

/-- A part of a text. -/
def substr (str : ZendString) (pos len : ℕ) : Watched ZendString :=
  if pos + len ≤ str.length then .ok ((str.drop pos).take len) else .error .outOfBounds

/-! ### The parser -/

section Watched
variable (w : World)

/-- The element a delimiter ends. -/
def takeOffWatched (parseVar : ZendString → Watched (Option SpTree)) (str : ZendString) (token : SpConfToken)
    (type : ElemType) (s : PathState) : Watched (Option PathState) := do
  let valueLen ← lenSub token.pos s.pos
  let valueLen ← (if type = .array then lenSub valueLen token.textRepr.length else .ok valueLen)
  let idxLen ← (if s.posIdxStart > 0 then lenSub token.pos s.posIdxStart.toNat else .ok 0)
  let idxText ← (if s.posIdxStart > 0 then substr str s.posIdxStart.toNat idxLen else .ok [])
  let valueLen ← lenSub valueLen idxLen
  let _ ← substr str s.pos valueLen
  match createVar w (str.drop s.pos) valueLen type .nil with
  | none => .ok none
  | some node => do
    let idx ← (if s.posIdxStart > 0 then parseVar idxText else .ok none)
    .ok (some { s with
      tree := s.tree ++ [{ node with idx := idx.getD .nil }]
      pos := token.pos + token.textRepr.length
      posIdxStart := -1 })

/-- One turn of the loop of `parse_tokens`; `is_token_valid` compares with the position of a last delimiter. -/
def tokenStepWatched (parseVar : ZendString → Watched (Option SpTree)) (str : ZendString) (token : SpConfToken)
    (next : Option SpConfToken) (s : PathState) : Watched (Option PathState) := do
  let _ ← lenSub str.length token.textRepr.length
  if !isTokenValid token next s.quote s.arrayCount str s.pos then .ok none
  else
    let (type, s) := quoteStep token s
    if s.quote ≠ .undefined then .ok (some s)
    else
      let (type, s) := bracketStep token type s
      if s.arrayCount ≠ 0 then .ok (some s)
      else takeOffWatched w parseVar str token type s

end Watched

/-! ### Within the bounds -/

theorem sizeSub_of_le {a b : ℕ} (hb : b ≤ a) (ha : a < 2 ^ 64) : sizeSub a b = a - b := by
  unfold sizeSub
  rw [Int.emod_eq_of_lt (by omega) (by omega)]
  omega

theorem lenSub_of_le {a b : ℕ} (hb : b ≤ a) : lenSub a b = .ok (a - b) := if_pos hb

theorem substr_of_le {str : ZendString} {pos len : ℕ} (h : pos + len ≤ str.length) :
    substr str pos len = .ok ((str.drop pos).take len) := if_pos h

/-- A start of an index that is still of use is not cut. -/
theorem bmod_of_lt {n : ℕ} (h : n < 2 ^ 31) : ((n : ℕ) : ℤ).bmod (2 ^ 32) = n := by
  rw [Int.bmod_eq_of_le] <;> omega

/-- **What holds between two turns**, if the delimiters up to `e` have been looked at: what has been taken off
ends there, and so does what is in front of an open index. -/
structure InBounds (str : ZendString) (e : ℕ) (s : PathState) : Prop where
  pos_le : s.pos ≤ e
  le_length : e ≤ str.length
  count : 0 ≤ s.arrayCount
  outside : s.arrayCount = 0 → s.posIdxStart = -1
  inside : 0 < s.arrayCount → ∃ q : ℕ, s.posIdxStart = (q : ℤ).bmod (2 ^ 32) ∧ s.pos < q ∧ q ≤ e

/-- A delimiter of the text, behind `e`. -/
structure TokenAt (str : ZendString) (e : ℕ) (t : SpConfToken) : Prop where
  mem : (t.type, t.textRepr) ∈ delimiterList
  le : e ≤ t.pos
  end_le : t.pos + t.textRepr.length ≤ str.length

section Step
variable {w : World} {parseVar : ZendString → Option SpTree} {parseVarW : ZendString → Watched (Option SpTree)}
  {str : ZendString} {e : ℕ} {t : SpConfToken} {next : Option SpConfToken} {s : PathState}

/-- Brackets are single characters. -/
theorem length_bracket : ∀ d ∈ delimiterList, d.1 = .array ∨ d.1 = .arrayEnd → d.2.length = 1 := by decide

theorem tokenStepWatched_eq (hlen : t.textRepr.length ≤ str.length) : tokenStepWatched w parseVarW str t next s =
    if isTokenValid t next s.quote s.arrayCount str s.pos = false then .ok none
    else if (quoteStep t s).2.quote ≠ .undefined then .ok (some (quoteStep t s).2)
    else if (bracketStep t (quoteStep t s).1 (quoteStep t s).2).2.arrayCount ≠ 0 then
      .ok (some (bracketStep t (quoteStep t s).1 (quoteStep t s).2).2)
    else takeOffWatched w parseVarW str t (bracketStep t (quoteStep t s).1 (quoteStep t s).2).1
      (bracketStep t (quoteStep t s).1 (quoteStep t s).2).2 := by
  unfold tokenStepWatched
  rw [lenSub_of_le hlen]
  simp only [bind, Except.bind, Bool.not_eq_true']

/-- What is taken off before a delimiter that is no bracket. -/
theorem takeOffWatched_plain {type : ElemType} (htype : type ≠ .array) (hpos : s.pos ≤ t.pos)
    (hidx : s.posIdxStart = -1) (hend : t.pos ≤ str.length) (hlen : str.length ≤ 2 ^ 31) :
    takeOffWatched w parseVarW str t type s = .ok (takeOff w parseVar str t type s) := by
  have hno : ¬(-1 : ℤ) > 0 := by omega
  have hpart : s.pos + (t.pos - s.pos) ≤ str.length := by omega
  unfold takeOffWatched takeOff
  rw [hidx, sizeSub_of_le hpos (by omega), lenSub_of_le hpos]
  simp only [if_neg htype, if_neg hno, bind, Except.bind, lenSub_of_le (Nat.zero_le _), Nat.sub_zero,
    substr_of_le hpart]
  cases hnode : createVar w (str.drop s.pos) (t.pos - s.pos) type .nil with
  | none => rfl
  | some node =>
    have hnil := createVar_idx w (str.drop s.pos) (t.pos - s.pos) type .nil
    rw [hnode, Option.map_some, Option.some_inj] at hnil
    rw [hnil]
    rfl

/-- What is taken off at the end of an index that starts at `q`. -/
theorem takeOffWatched_array {q : ℕ} (ht : t.textRepr.length = 1) (hq : s.posIdxStart = q) (hpos : s.pos < q)
    (hle : q ≤ t.pos) (hend : t.pos < str.length) (hlen : str.length ≤ 2 ^ 31)
    (hp : ∀ idx, idx.length < str.length → parseVarW idx = .ok (parseVar idx)) :
    takeOffWatched w parseVarW str t .array s = .ok (takeOff w parseVar str t .array s) := by
  have hidx : (q : ℤ) > 0 := by omega
  have hpart : s.pos + (t.pos - s.pos - 1 - (t.pos - q)) ≤ str.length := by omega
  have hlt : ((str.drop q).take (t.pos - q)).length < str.length := by
    rw [List.length_take, List.length_drop]
    omega
  unfold takeOffWatched takeOff
  rw [hq, ht, sizeSub_of_le (show s.pos ≤ t.pos by omega) (by omega), lenSub_of_le (show s.pos ≤ t.pos by omega)]
  simp only [if_pos hidx, bind, Except.bind, if_true, Int.toNat_natCast, sizeSub_of_le hle (show t.pos < 2 ^ 64 by omega),
    lenSub_of_le (show 1 ≤ t.pos - s.pos by omega), lenSub_of_le hle,
    sizeSub_of_le (show 1 ≤ t.pos - s.pos by omega) (show t.pos - s.pos < 2 ^ 64 by omega),
    lenSub_of_le (show t.pos - q ≤ t.pos - s.pos - 1 by omega),
    sizeSub_of_le (show t.pos - q ≤ t.pos - s.pos - 1 by omega) (show t.pos - s.pos - 1 < 2 ^ 64 by omega),
    substr_of_le (show q + (t.pos - q) ≤ str.length by omega), substr_of_le hpart]
  rw [createVar_idx w _ _ _ ((parseVar _).getD .nil)]
  cases createVar w (str.drop s.pos) (t.pos - s.pos - 1 - (t.pos - q)) .array .nil with
  | none => rfl
  | some node =>
    dsimp only
    rw [hp _ hlt]
    rfl

/-- What a delimiter that no quote hides does to the brackets: an index starts behind what has been taken off,
and only its end is handled as a bracket. -/
theorem bracketStep_safe (hs : InBounds str e s) (ht : TokenAt str e t)
    (hv : isTokenValid t next s.quote s.arrayCount str s.pos = true) (hquote : (quoteStep t s).2.quote = .undefined)
    {b : ElemType × PathState} (hb : bracketStep t (quoteStep t s).1 (quoteStep t s).2 = b) :
    b.2.pos = s.pos ∧ 0 ≤ b.2.arrayCount ∧
      (0 < b.2.arrayCount → ∃ q : ℕ, b.2.posIdxStart = (q : ℤ).bmod (2 ^ 32) ∧ s.pos < q ∧
        q ≤ t.pos + t.textRepr.length) ∧
      (b.2.arrayCount = 0 → (b.1 ≠ .array ∧ b.2.posIdxStart = -1) ∨
        (b.1 = .array ∧ t.textRepr.length = 1 ∧
          ∃ q : ℕ, b.2.posIdxStart = (q : ℤ).bmod (2 ^ 32) ∧ s.pos < q ∧ q ≤ e)) := by
  have hlen := List.length_pos_iff.mpr (delimiter_ne_nil _ ht.mem)
  have hle := ht.le
  have hpos := hs.pos_le
  have hcount := hs.count
  dsimp only at hlen
  obtain ⟨hqc, hqi, hqp⟩ := quoteStep_spec t s
  have hqpos : (quoteStep t s).2.pos = s.pos := hqp.resolve_right fun h => h.1 hquote
  have hbpos : b.2.pos = s.pos := by rw [← hb, (bracketStep_rest t _ _).1, hqpos]
  have hinside : 0 < s.arrayCount → ∃ q : ℕ, s.posIdxStart = (q : ℤ).bmod (2 ^ 32) ∧ s.pos < q ∧
      q ≤ t.pos + t.textRepr.length := by
    intro h
    obtain ⟨q, hq, hlo, hhi⟩ := hs.inside h
    exact ⟨q, hq, hlo, by omega⟩
  -- a bracket is no quote
  have hbracket : (quoteStep t s).1 = .array ∨ (quoteStep t s).1 = .arrayEnd →
      quoteStep t s = (t.type, s) ∧ t.textRepr.length = 1 := by
    intro h
    rcases quoteStep_type t s with ⟨heq, -, -⟩ | hstr
    · rw [heq] at h
      exact ⟨heq, length_bracket _ ht.mem h⟩
    · rw [hstr] at h
      simp at h
  refine ⟨hbpos, ?_⟩
  rcases bracketStep_spec t (quoteStep t s).1 (quoteStep t s).2 with
    ⟨htype, -, hc, hi⟩ | ⟨htype, hb1, hc, hi⟩ | ⟨hne, hne', heq⟩
  · -- an index starts
    obtain ⟨-, hone⟩ := hbracket (Or.inl htype)
    rw [hb, hqc] at hc
    rw [hb, hqc, hqi] at hi
    refine ⟨by omega, fun _ => ?_, fun h => by omega⟩
    by_cases h0 : s.arrayCount = 0
    · rw [if_neg (not_not.mpr h0)] at hi
      exact ⟨_, hi, by omega, le_rfl⟩
    · rw [if_pos h0] at hi
      rw [hi]
      exact hinside (by omega)
  · -- an index ends
    obtain ⟨heq, hone⟩ := hbracket (Or.inr htype)
    rw [heq] at htype hquote
    have hopen := arrayCount_of_valid hv htype hquote
    rw [hb, hqc] at hc
    rw [hb, hqi] at hi
    rw [hb] at hb1
    rw [hi]
    exact ⟨by omega, fun _ => hinside hopen, fun _ => Or.inr ⟨hb1, hone, hs.inside hopen⟩⟩
  · -- any other delimiter
    rw [hb] at heq
    rw [heq]
    dsimp only
    rw [hqc, hqi]
    exact ⟨hcount, hinside, fun h0 => Or.inl ⟨hne, hs.outside h0⟩⟩

/-- An element ends in front of its delimiter. -/
theorem inBounds_takeOff {type : ElemType} {s' : PathState} (ht : TokenAt str e t) (hcount : s.arrayCount = 0)
    (h : takeOff w parseVar str t type s = some s') : InBounds str (t.pos + t.textRepr.length) s' := by
  unfold takeOff at h
  obtain ⟨node, -, rfl⟩ := Option.map_eq_some_iff.mp h
  refine ⟨le_rfl, ht.end_le, hcount.ge, fun _ => rfl, fun hpos => ?_⟩
  dsimp only at hpos
  omega

/-- What holds after a quote, or after a bracket that leaves others open. -/
theorem inBounds_of_open {s' : PathState} (ht : TokenAt str e t) (hpos : s'.pos ≤ t.pos + t.textRepr.length)
    (hcount : 0 ≤ s'.arrayCount) (hout : s'.arrayCount = 0 → s'.posIdxStart = -1)
    (hin : 0 < s'.arrayCount → ∃ q : ℕ, s'.posIdxStart = (q : ℤ).bmod (2 ^ 32) ∧ s'.pos < q ∧
      q ≤ t.pos + t.textRepr.length) : InBounds str (t.pos + t.textRepr.length) s' :=
  ⟨hpos, ht.end_le, hcount, hout, hin⟩

/-- **One turn stays within the bounds.** -/
theorem tokenStep_safe (next : Option SpConfToken) (hs : InBounds str e s) (ht : TokenAt str e t)
    (hlen : str.length ≤ 2 ^ 31)
    (hp : ∀ idx, idx.length < str.length → parseVarW idx = .ok (parseVar idx)) :
    tokenStepWatched w parseVarW str t next s = .ok (tokenStep w parseVar str t next s) ∧
      ∀ s', tokenStep w parseVar str t next s = some s' → InBounds str (t.pos + t.textRepr.length) s' := by
  have hpos := List.length_pos_iff.mpr (delimiter_ne_nil _ ht.mem)
  have hle := ht.le
  have hend := ht.end_le
  have hs0 := hs.pos_le
  dsimp only at hpos
  rw [tokenStepWatched_eq (by omega), tokenStep_eq]
  split_ifs with hv hquote hcount
  · exact ⟨rfl, nofun⟩
  · -- a quote is open now
    refine ⟨rfl, fun s' h => ?_⟩
    rw [Option.some_inj] at h
    subst h
    obtain ⟨hc, hi, hp⟩ := quoteStep_spec t s
    refine inBounds_of_open ht ?_ ?_ ?_ ?_
    · omega
    · rw [hc]
      exact hs.count
    · rw [hc, hi]
      exact hs.outside
    · rw [hc, hi]
      intro hpos
      obtain ⟨q, hq, hlo, hhi⟩ := hs.inside hpos
      exact ⟨q, hq, by omega, by omega⟩
  · -- a bracket is open now
    obtain ⟨hbpos, hc, hin, -⟩ := bracketStep_safe hs ht (by simpa using hv) (not_not.mp hquote) rfl
    refine ⟨rfl, fun s' h => ?_⟩
    rw [Option.some_inj] at h
    rw [h] at hcount hbpos hc hin
    rw [← hbpos] at hin
    exact inBounds_of_open ht (by omega) hc (fun h0 => absurd h0 hcount) hin
  · -- an element ends
    obtain ⟨hbpos, -, -, hout⟩ := bracketStep_safe hs ht (by simpa using hv) (not_not.mp hquote) rfl
    refine ⟨?_, fun s' h => inBounds_takeOff ht (not_not.mp hcount) h⟩
    rcases hout (not_not.mp hcount) with ⟨hne, hi⟩ | ⟨htype, hone, q, hi, hlo, hhi⟩
    · exact takeOffWatched_plain hne (by omega) hi (by omega) hlen
    · rw [bmod_of_lt (by omega)] at hi
      rw [htype]
      exact takeOffWatched_array hone hi (by omega) (by omega) (by omega) hlen hp

theorem inBounds_start : InBounds str 0 {} :=
  ⟨le_rfl, Nat.zero_le _, le_rfl, fun _ => rfl, fun h => absurd h (lt_irrefl _)⟩

theorem tokenAt_sorted : ∀ t ∈ sorted str, TokenAt str 0 t := by
  intro t ht
  obtain ⟨hmem, hlo, hhi⟩ := mem_scan (mem_sorted.mp ht)
  exact ⟨hmem, by omega, by omega⟩

end Step

/-- Two quotes at the start, and one `2 ^ 31` characters later. -/
def farQuote (n : ℕ) : ZendString :=
  39 :: 39 :: (List.replicate (2 ^ 31 - 2) 97 ++ 39 :: List.replicate n 97)

theorem length_farQuote (n : ℕ) : (farQuote n).length = n + 2 ^ 31 + 1 := by
  simp only [farQuote, List.length_cons, List.length_append, List.length_replicate]
  omega

theorem plain_replicate (n : ℕ) : ∀ c ∈ List.replicate n (97 : UInt8), isPlain c = true := by
  intro c hc
  rw [List.eq_of_mem_replicate hc]
  decide

/-- A quote of `farQuote`. -/
def quoteAt (pos : ℕ) : SpConfToken := ⟨.literalString, zstr "'", pos⟩

theorem scan_quote (s : ZendString) (pos : ℕ) : scan pos 0 (39 :: s) = quoteAt pos :: scan (pos + 1) 0 s :=
  scan_delimiter (show (.literalString, zstr "'") ∈ delimiterList by decide) s pos

theorem scan_farQuote (n : ℕ) : scan 0 0 (farQuote n) = [quoteAt 0, quoteAt 1, quoteAt (2 ^ 31)] := by
  unfold farQuote
  rw [scan_quote, scan_quote, scan_plain (plain_replicate _), scan_quote, List.length_replicate,
    ← List.append_nil (List.replicate n 97), scan_plain (plain_replicate n)]
  rfl

theorem collected_farQuote (n : ℕ) : collected (farQuote n) = [quoteAt 0, quoteAt 1, quoteAt (2 ^ 31)] := by
  rw [collected_eq, scan_farQuote]
  rfl

end Snuffleupagus.Config.PathBounds
