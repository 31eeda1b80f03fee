import Snuffleupagus.Scanner.RoundTrip
import Mathlib.Algebra.Ring.Parity

/-! # The backslashes of an argument

`sp_get_arg_string` copies an argument within its own buffer, with an index for the byte that is read and one for the
byte that is written. Here the loop is on this buffer, and the places it reads are kept.

A backslash is an escaping one if an even number of backslashes stands directly in front of it. The loop takes out
exactly these and stays within the argument, unless the argument ends with an escaping one: there it reads the NUL
behind the argument, and copies it (`arg_string_iff`). -/

namespace Snuffleupagus.Scanner.Unescape

open Snuffleupagus.Lib.Derivative Snuffleupagus.Php.Bytes
open Snuffleupagus.Config.Keyword (SpParsedKeyword unescape)
open Snuffleupagus.Scanner.Token Snuffleupagus.Scanner.Scan Snuffleupagus.Scanner.Word
open Snuffleupagus.Scanner.RoundTrip (unescape_cons)

/-! ### The loop -/

/-- The variables of `sp_get_arg_string`: the buffer of `ret` with its NUL, the places of `pin` and `pout`, and the
places that have been read. -/
structure Copying where
  buf : ZendString
  pin : ℕ := 0
  pout : ℕ := 0
  reads : List ℕ := []

/-- One turn. -/
def Copying.turn (s : Copying) : Copying :=
  let pin := if s.buf.getD s.pin 0 = 92 then s.pin + 1 else s.pin
  { buf := s.buf.set s.pout (s.buf.getD pin 0)
    pin := pin + 1
    pout := s.pout + 1
    reads := s.reads ++ [s.pin, pin] }

/-- The loop; each turn moves `pin`, so there are at most as many turns as bytes. -/
def Copying.loop (pend : ℕ) : ℕ → Copying → Copying
  | 0, s => s
  | turns + 1, s => if s.pin < pend then Copying.loop pend turns s.turn else s

/-- The string that is returned, and the places that have been read for it. -/
structure Returned where
  value : ZendString
  reads : List ℕ

/-- `sp_get_arg_string`. -/
def spGetArgString (kw : SpParsedKeyword) : Option Returned :=
  kw.arg.map fun arg =>
    let s := Copying.loop arg.length arg.length { buf := arg ++ [0] }
    if s.pin ≠ s.pout then ⟨(s.buf.set s.pout 0).take s.pout, s.reads⟩
    else ⟨s.buf.take arg.length, s.reads⟩

/-! ### What it is to do -/

/-- The number of backslashes at the end. -/
def backslashes (s : ZendString) : ℕ := (s.rtakeWhile (· == 92)).length

/-- Here is an escaping backslash. -/
def Escaping (content : ZendString) (i : ℕ) : Prop :=
  content[i]? = some 92 ∧ Even (backslashes (content.take i))

instance (content : ZendString) (i : ℕ) : Decidable (Escaping content i) := by
  unfold Escaping; infer_instance

/-- The places of the escaping backslashes. -/
def escapes (content : ZendString) : List ℕ := (List.range content.length).filter (Escaping content ·)

/-- The content without them. -/
def withoutEscapes (content : ZendString) : ZendString :=
  (content.zipIdx.filter fun p => ¬Escaping content p.2).map Prod.fst

/-- The string that is returned is the content without the escaping backslashes, and nothing else has been read. -/
structure Unescapes (content : ZendString) (r : Returned) : Prop where
  reads : ∀ i ∈ r.reads, i < content.length
  nul : 0 ∉ r.value
  value : r.value = withoutEscapes content
  length : r.value.length = content.length - (escapes content).length

/-! ### What it does -/

/-- The last byte is an escaping backslash: the loop goes one byte too far. -/
def dangling : ZendString → Bool
  | [] => false
  | [c] => c == 92
  | c :: d :: s => if c = 92 then dangling s else dangling (d :: s)

/-- The loop has copied, and stands in front of the rest. -/
structure At (s : Copying) (done gap rest : ZendString) : Prop where
  buf : s.buf = done ++ gap ++ rest
  pout : s.pout = done.length
  pin : s.pin = done.length + gap.length

variable {s : Copying} {done gap rest mid content : ZendString} {pend : ℕ} {c d : UInt8}

/-- A byte is written over the first one that has been read. -/
theorem set_copied {x : UInt8} (h : mid ≠ []) :
    (done ++ mid ++ rest).set done.length x = done ++ [x] ++ mid.tail ++ rest := by
  obtain ⟨y, mid, rfl⟩ := List.exists_cons_of_ne_nil h
  simp

theorem At.getD (mid : ZendString) (h : At s done gap (mid ++ c :: rest)) : s.buf.getD (s.pin + mid.length) 0 = c := by
  rw [h.buf, h.pin, ← List.length_append, ← List.append_assoc, ← List.length_append]
  simp

/-- Behind a turn. -/
theorem At.copied {s' : Copying} (mid : ZendString) (h : At s done gap (mid ++ c :: rest)) (hbuf : s'.buf = s.buf.set s.pout c)
    (hpin : s'.pin = s.pin + mid.length + 1) (hpout : s'.pout = s.pout + 1) :
    ∃ gap', At s' (done ++ [c]) gap' rest := by
  refine ⟨(gap ++ mid ++ [c]).tail, ?_, ?_, ?_⟩
  · rw [hbuf, ← set_copied (by simp), ← h.pout, h.buf]
    simp only [List.append_assoc, List.singleton_append]
  · rw [hpout, h.pout, List.length_append, List.length_singleton]
  · rw [hpin, h.pin]
    simp only [List.length_append, List.length_singleton, List.length_tail]
    omega

/-- A turn at a byte that is no backslash. -/
theorem At.turn_plain (h : At s done gap (c :: rest)) (hc : c ≠ 92) :
    s.turn.reads = s.reads ++ [s.pin, s.pin] ∧ s.turn.pin = s.pin + 1 ∧
      ∃ gap', At s.turn (done ++ [c]) gap' rest := by
  have hread : s.buf.getD s.pin 0 = c := At.getD [] h
  have hturn : s.turn = ⟨s.buf.set s.pout c, s.pin + 1, s.pout + 1, s.reads ++ [s.pin, s.pin]⟩ := by
    unfold Copying.turn
    rw [hread, if_neg hc]
    dsimp only
    rw [hread]
  rw [hturn]
  exact ⟨rfl, rfl, At.copied [] h rfl rfl rfl⟩

/-- A turn at a backslash. -/
theorem At.turn_backslash (h : At s done gap (92 :: d :: rest)) :
    s.turn.reads = s.reads ++ [s.pin, s.pin + 1] ∧ s.turn.pin = s.pin + 2 ∧
      ∃ gap', At s.turn (done ++ [d]) gap' rest := by
  have hread : s.buf.getD s.pin 0 = 92 := At.getD [] h
  have hread' : s.buf.getD (s.pin + 1) 0 = d := At.getD [92] h
  have hturn : s.turn = ⟨s.buf.set s.pout d, s.pin + 2, s.pout + 1, s.reads ++ [s.pin, s.pin + 1]⟩ := by
    unfold Copying.turn
    rw [hread, if_pos rfl]
    dsimp only
    rw [hread']
  rw [hturn]
  exact ⟨rfl, rfl, At.copied [92] h rfl rfl rfl⟩

theorem dangling_cons (hc : c ≠ 92) : dangling (c :: rest) = dangling rest := by
  cases rest with
  | nil => exact beq_false_of_ne hc
  | cons d rest =>
    unfold dangling
    rw [if_neg hc]
    cases rest <;> rfl

/-- Behind the loop; `done` and `reads` are what was there before it. -/
structure Ends (pend : ℕ) (done : ZendString) (reads : List ℕ) (rest : ZendString) (r : Copying) : Prop where
  value : r.buf.take r.pout = done ++ unescape rest
  stops : r.pin = pend ∨ r.pout < r.pin
  reads : ∀ i ∈ r.reads, i ∈ reads ∨ i < pend ∨ i = pend ∧ dangling rest = true
  passes : dangling rest = true → pend ∈ r.reads

/-- One turn more. -/
theorem Ends.cons {reads : List ℕ} {i j : ℕ} {rest' : ZendString} {r : Copying}
    (h : Ends pend (done ++ [c]) (reads ++ [i, j]) rest' r) (hi : i < pend) (hj : j < pend)
    (hvalue : unescape rest = c :: unescape rest') (hdangling : dangling rest = dangling rest') :
    Ends pend done reads rest r := by
  refine ⟨?_, h.stops, fun k hk => ?_, fun hd => h.passes (hdangling ▸ hd)⟩
  · rw [h.value, hvalue, List.append_assoc, List.singleton_append]
  · rw [hdangling]
    rcases h.reads k hk with hmem | hk
    · rcases List.mem_append.mp hmem with hmem | hmem
      · exact .inl hmem
      · rcases List.mem_pair.mp hmem with rfl | rfl
        · exact .inr (.inl hi)
        · exact .inr (.inl hj)
    · exact .inr hk

theorem loop_stops {turns : ℕ} (h : ¬s.pin < pend) : Copying.loop pend turns s = s := by
  cases turns with
  | zero => rfl
  | succ turns => exact if_neg h

/-- **The loop** copies the rest, and reads the NUL if the rest ends with an escaping backslash. -/
theorem loop_ends : ∀ (turns : ℕ) {s : Copying} {done gap rest : ZendString}, rest.length ≤ turns →
    At s done gap (rest ++ [0]) → s.pin + rest.length = pend →
    Ends pend done s.reads rest (Copying.loop pend turns s)
  | turns, s, done, gap, [], _, hat, hpend => by
    have hpin : s.pin = pend := hpend
    rw [loop_stops (by omega)]
    refine ⟨?_, .inl hpin, fun i hi => .inl hi, nofun⟩
    rw [hat.buf, hat.pout, List.append_assoc, List.take_left]
    exact (List.append_nil done).symm
  | turns + 1, s, done, gap, c :: rest, hturns, hat, hpend => by
    rw [List.length_cons] at hturns hpend
    have hlt : s.pin < pend := by omega
    have hloop : Copying.loop pend (turns + 1) s = Copying.loop pend turns s.turn := if_pos hlt
    rw [hloop]
    by_cases hc : c = 92
    · subst hc
      cases rest with
      | nil =>
        -- the NUL is copied, and the loop stops behind it
        rw [List.length_nil] at hpend
        obtain ⟨hreads, hpin, gap', hat'⟩ := hat.turn_backslash
        rw [loop_stops (by omega)]
        refine ⟨?_, .inr ?_, fun i hi => ?_, fun _ => ?_⟩
        · rw [hat'.buf, hat'.pout, List.append_assoc, List.take_left]
          rfl
        · rw [hat'.pout, hpin, hat.pin, List.length_append, List.length_singleton]
          omega
        · rw [hreads] at hi
          rcases List.mem_append.mp hi with hi | hi
          · exact .inl hi
          · rcases List.mem_pair.mp hi with rfl | rfl
            · exact .inr (.inl hlt)
            · exact .inr (.inr ⟨hpend, rfl⟩)
        · rw [hreads, ← hpend]
          simp
      | cons d rest =>
        rw [List.length_cons] at hturns hpend
        obtain ⟨hreads, hpin, gap', hat'⟩ := hat.turn_backslash
        have hends := loop_ends turns (by omega) hat' (by rw [hpin]; omega)
        rw [hreads] at hends
        exact hends.cons hlt (by omega) (if_pos rfl) (if_pos rfl)
    · obtain ⟨hreads, hpin, gap', hat'⟩ := hat.turn_plain hc
      have hends := loop_ends turns (by omega) hat' (by rw [hpin]; omega)
      rw [hreads] at hends
      exact hends.cons hlt hlt (unescape_cons hc rest) (dangling_cons hc)

/-- **What is returned**: the value is that of the loop over the bytes, and the NUL is read if the argument ends with an
escaping backslash. -/
theorem spGetArgString_eq (kw : SpParsedKeyword) (harg : kw.arg = some content) :
    ∃ r, spGetArgString kw = some r ∧ r.value = unescape content ∧
      (∀ i ∈ r.reads, i < content.length ∨ i = content.length ∧ dangling content = true) ∧
      (dangling content = true → content.length ∈ r.reads) := by
  have hat : At { buf := content ++ [0] } [] [] (content ++ [0]) := ⟨rfl, rfl, rfl⟩
  have hends := loop_ends content.length le_rfl hat (Nat.zero_add _)
  unfold spGetArgString
  rw [harg]
  refine ⟨_, rfl, ?_⟩
  dsimp only
  generalize Copying.loop content.length content.length { buf := content ++ [0] } = r at hends
  have hreads : ∀ i ∈ r.reads, i < content.length ∨ i = content.length ∧ dangling content = true := fun i hi =>
    (hends.reads i hi).resolve_left List.not_mem_nil
  split_ifs with hpin
  · refine ⟨?_, hreads, hends.passes⟩
    rw [List.take_set_of_le le_rfl, hends.value]
    rfl
  · rcases hends.stops with hstop | hlt
    · refine ⟨?_, hreads, hends.passes⟩
      rw [← hstop, not_ne_iff.mp hpin, hends.value]
      rfl
    · exact absurd (not_ne_iff.mp hpin) hlt.ne'

/-- The string is that of the parsers. -/
theorem spGetArgString_value (kw : SpParsedKeyword) :
    (spGetArgString kw).map Returned.value = Config.Keyword.spGetArgString kw := by
  unfold Config.Keyword.spGetArgString
  cases harg : kw.arg with
  | none =>
    unfold spGetArgString
    rw [harg]
    rfl
  | some content =>
    obtain ⟨r, hr, hvalue, -⟩ := spGetArgString_eq kw harg
    rw [hr, Option.map_some, hvalue]
    rfl

/-! ### The escaping backslashes -/

theorem backslashes_concat (s : ZendString) (c : UInt8) :
    backslashes (s ++ [c]) = if c = 92 then backslashes s + 1 else 0 := by
  unfold backslashes
  by_cases hc : c = 92
  · rw [List.rtakeWhile_concat_pos _ _ _ (by rw [hc]; rfl), if_pos hc, List.length_append, List.length_singleton]
  · rw [List.rtakeWhile_concat_neg _ _ _ (by simpa using hc), if_neg hc, List.length_nil]

variable {pre : ZendString}

theorem escaping_iff : Escaping (pre ++ c :: rest) pre.length ↔ c = 92 ∧ Even (backslashes pre) := by
  unfold Escaping
  simp

/-- The bytes behind a prefix that are no escaping backslashes. -/
def kept (pre rest : ZendString) : ZendString :=
  ((rest.zipIdx pre.length).filter fun p => ¬Escaping (pre ++ rest) p.2).map Prod.fst

theorem kept_cons : kept pre (c :: rest) =
    if c = 92 ∧ Even (backslashes pre) then kept (pre ++ [c]) rest else c :: kept (pre ++ [c]) rest := by
  have htail : kept (pre ++ [c]) rest =
      ((rest.zipIdx (pre.length + 1)).filter fun p => ¬Escaping (pre ++ c :: rest) p.2).map Prod.fst := by
    unfold kept
    rw [List.length_append, List.length_singleton, List.append_assoc, List.singleton_append]
  rw [htail]
  unfold kept
  rw [List.zipIdx_cons, List.filter_cons]
  simp only [escaping_iff]
  split_ifs <;> simp_all

theorem even_backslashes_cons (hpre : Even (backslashes pre)) : Even (backslashes (pre ++ [92, c])) := by
  rw [List.append_cons, backslashes_concat, backslashes_concat, if_pos rfl]
  split_ifs
  · exact hpre.add (even_two)
  · exact Even.zero

/-- The last byte is an escaping backslash if the bytes end with an odd number of backslashes. -/
theorem dangling_iff : ∀ {rest : ZendString} (pre : ZendString), Even (backslashes pre) →
    (dangling rest = true ↔ Odd (backslashes (pre ++ rest)))
  | [], pre, hpre => by
    rw [List.append_nil, ← Nat.not_even_iff_odd]
    exact iff_of_false nofun (not_not.mpr hpre)
  | [c], pre, hpre => by
    show (c == 92) = true ↔ _
    rw [beq_iff_eq, backslashes_concat]
    split_ifs with hc
    · exact iff_of_true hc hpre.add_one
    · exact iff_of_false hc Nat.not_odd_zero
  | c :: d :: rest, pre, hpre => by
    by_cases hc : c = 92
    · subst hc
      have hdangling : dangling (92 :: d :: rest) = dangling rest := if_pos rfl
      rw [hdangling, dangling_iff _ (even_backslashes_cons (c := d) hpre), List.append_assoc]
      rfl
    · have hpre' : Even (backslashes (pre ++ [c])) := by
        rw [backslashes_concat, if_neg hc]
        exact Even.zero
      rw [dangling_cons hc, dangling_iff _ hpre', List.append_assoc, List.singleton_append]

/-- **The loop leaves what is no escaping backslash**, if it stays within the bytes. -/
theorem unescape_eq : ∀ {rest : ZendString} (pre : ZendString), Even (backslashes pre) → dangling rest = false →
    unescape rest = kept pre rest
  | [], _, _, _ => rfl
  | [c], pre, _, hdangling => by
    have hc : c ≠ 92 := ne_of_beq_false hdangling
    rw [unescape_cons hc, kept_cons, if_neg fun h => hc h.1]
    rfl
  | c :: d :: rest, pre, hpre, hdangling => by
    by_cases hc : c = 92
    · subst hc
      have hodd : ¬Even (backslashes (pre ++ [92])) := by
        rw [backslashes_concat, if_pos rfl, Nat.not_even_iff_odd]
        exact hpre.add_one
      have hunescape : unescape (92 :: d :: rest) = d :: unescape rest := if_pos rfl
      rw [hunescape, kept_cons, if_pos ⟨rfl, hpre⟩, kept_cons, if_neg fun h => hodd h.2, List.append_assoc]
      exact congrArg (d :: ·) (unescape_eq _ (even_backslashes_cons hpre) hdangling)
    · have hpre' : Even (backslashes (pre ++ [c])) := by
        rw [backslashes_concat, if_neg hc]
        exact Even.zero
      rw [unescape_cons hc, kept_cons, if_neg fun h => hc h.1,
        unescape_eq _ hpre' ((dangling_cons hc).symm.trans hdangling)]

theorem length_withoutEscapes (content : ZendString) :
    (withoutEscapes content).length + (escapes content).length = content.length := by
  have hescapes : (escapes content).length = (content.zipIdx.filter fun p => Escaping content p.2).length := by
    unfold escapes
    rw [List.range_eq_range', ← List.zipIdx_map_snd, List.filter_map, List.length_map]
    rfl
  rw [hescapes, withoutEscapes, List.length_map, ← List.countP_eq_length_filter, ← List.countP_eq_length_filter,
    Nat.add_comm]
  have hall := List.length_eq_countP_add_countP (fun p => Escaping content p.2) (l := content.zipIdx)
  rw [List.length_zipIdx] at hall
  rw [hall]
  simp

/-! ### The result -/

instance decidableQuotesEscaped : ∀ (b : Bool) (s : ZendString), Decidable (QuotesEscaped b s)
  | _, [] => .isTrue trivial
  | b, c :: s =>
    have := decidableQuotesEscaped (c == 92) s
    inferInstanceAs (Decidable (isInLine c = true ∧ (c = 34 → b = true) ∧ QuotesEscaped (c == 92) s))

theorem isInLine_of_quotesEscaped : ∀ {b : Bool} {s : ZendString}, QuotesEscaped b s → ∀ c ∈ s, isInLine c = true
  | _, [], _ => List.forall_mem_nil _
  | _, _ :: _, h => List.forall_mem_cons.mpr ⟨h.1, isInLine_of_quotesEscaped h.2.2⟩

/-- **An argument that the token of a string matches loses exactly its escaping backslashes**, and nothing but the argument
is read, if and only if it does not end with an odd number of backslashes. -/
theorem arg_string_iff (kw : SpParsedKeyword) (content : ZendString) (harg : kw.arg = some content)
    (hstring : 34 :: (content ++ [34]) ∈ string.language) :
    (∃ r, spGetArgString kw = some r ∧ Unescapes content r) ↔ ¬Odd (backslashes content) := by
  obtain ⟨r, hr, hvalue, hreads, hpasses⟩ := spGetArgString_eq kw harg
  have hdangling : dangling content = true ↔ Odd (backslashes content) := dangling_iff [] Even.zero
  rw [← hdangling]
  constructor
  · rintro ⟨r', hr', hunescapes⟩ hlast
    cases hr.symm.trans hr'
    exact lt_irrefl _ (hunescapes.reads _ (hpasses hlast))
  · intro hlast
    have hwithout : r.value = withoutEscapes content :=
      hvalue.trans (unescape_eq [] Even.zero (Bool.eq_false_iff.mpr hlast))
    refine ⟨r, hr, ⟨fun i hi => (hreads i hi).resolve_right fun h => hlast h.2, ?_, hwithout, ?_⟩⟩
    · obtain ⟨body, hbody, hquotes⟩ := mem_string.mp hstring
      obtain rfl : content = body := List.append_cancel_right (List.cons_eq_cons.mp hbody).2
      rw [hwithout]
      intro hmem
      obtain ⟨p, hp, hzero⟩ := List.mem_map.mp hmem
      have hin := (List.mem_zipIdx' (List.mem_of_mem_filter hp)).2
      have hline := isInLine_of_quotesEscaped hquotes 0 (hzero ▸ hin ▸ List.getElem_mem _)
      cases hline
    · rw [hwithout, ← length_withoutEscapes content, Nat.add_sub_cancel]

/-- `a\"b\\`. -/
theorem arg_string_escaped :
    (∃ r, spGetArgString { kw := zstr "x", arg := some (zstr "a\\\"b\\\\"), argtype := .str } = some r ∧
      Unescapes (zstr "a\\\"b\\\\") r) ↔ ¬Odd (backslashes (zstr "a\\\"b\\\\")) :=
  arg_string_iff _ _ rfl (mem_string.mpr ⟨_, rfl, by decide⟩)

/-- **A backslash in front of the last quote**: the scanner hands out `sp.x("\");` with this argument, and its string is a
NUL, for which the loop has read the byte behind it. -/
theorem trailing_backslash :
    ∃ rule kw, .rule rule ∈ (spConfigScan ⟨fun _ => false, 80000, []⟩ (zstr "sp.x(\"\\\");")).1 ∧ kw ∈ rule ∧
      kw.arg = some [92] ∧ 34 :: ([92] ++ [34]) ∈ string.language ∧
        spGetArgString kw = some ⟨[0], [0, 1]⟩ ∧ ¬∃ r, spGetArgString kw = some r ∧ Unescapes [92] r := by
  refine ⟨[{ kw := zstr "x", arg := some [92], argtype := .str }], _, List.mem_singleton.mpr rfl,
    List.mem_singleton_self _, rfl, mem_string.mpr ⟨_, rfl, by decide⟩, rfl, ?_⟩
  rintro ⟨r, hr, hunescapes⟩
  obtain rfl : ⟨[0], [0, 1]⟩ = r := Option.some.inj hr
  exact absurd (hunescapes.reads 1 (by simp)) (lt_irrefl 1)

end Snuffleupagus.Scanner.Unescape
