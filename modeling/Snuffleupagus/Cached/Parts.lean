import Snuffleupagus.Cached.Scan
import Snuffleupagus.Scanner.Textual

/-! # The parts of a token

What the tags of the generated scanner cut out of a token is what the scanner takes from its text. The segments of the
token say where the tags are; two runs of bytes that end in front of a byte that is in neither are the same
(`span_unique`), so the segments are those of the expression. -/

namespace Snuffleupagus.Cached.Parts

open Snuffleupagus.Lib.Derivative Snuffleupagus.Lib.Lexer
open Snuffleupagus.Lib.Segments
open Snuffleupagus.Php.Bytes
open Snuffleupagus.Scanner.Token
open Snuffleupagus.Scanner.Scan (inner setParts messageText callParts keywordParts newlineLength)
open Snuffleupagus.Scanner.Word Snuffleupagus.Scanner.Textual
open Snuffleupagus.Cached.Machine hiding message string keyword newline whitespace lit byte
open Snuffleupagus.Cached.Scan

/-! ### Runs of bytes -/

/-- A run ends where a byte stands that is not in it. -/
theorem span_unique {p : UInt8 → Bool} {b b' : UInt8} {x x' : ZendString} (hb : p b = false) (hb' : p b' = false) :
    ∀ {u u' : ZendString}, (∀ c ∈ u, p c = true) → (∀ c ∈ u', p c = true) → u ++ b :: x = u' ++ b' :: x' →
      u = u' ∧ b :: x = b' :: x'
  | [], [], _, _, h => ⟨rfl, h⟩
  | [], c :: u', _, hu', h => by
    obtain ⟨rfl, -⟩ := List.cons_eq_cons.mp h
    rw [hu' b List.mem_cons_self] at hb
    cases hb
  | c :: u, [], hu, _, h => by
    obtain ⟨rfl, -⟩ := List.cons_eq_cons.mp h
    rw [hu c List.mem_cons_self] at hb'
    cases hb'
  | c :: u, c' :: u', hu, hu', h => by
    obtain ⟨rfl, htail⟩ := List.cons_eq_cons.mp h
    obtain ⟨rfl, hrest⟩ := span_unique hb hb' (List.forall_mem_cons.mp hu).2 (List.forall_mem_cons.mp hu').2 htail
    exact ⟨rfl, hrest⟩

/-- The same from the end. -/
theorem span_unique_right {p : UInt8 → Bool} {b : UInt8} (hb : p b = false) {x x' u u' : ZendString}
    (hu : ∀ c ∈ u, p c = true) (hu' : ∀ c ∈ u', p c = true) (h : x ++ b :: u = x' ++ b :: u') : u = u' := by
  have hreverse : u.reverse ++ b :: x.reverse = u'.reverse ++ b :: x'.reverse := by
    have hrev := congrArg List.reverse h
    simpa using hrev
  have hsame := (span_unique hb hb (fun c hc => hu c (List.mem_reverse.mp hc))
    (fun c hc => hu' c (List.mem_reverse.mp hc)) hreverse).1
  exact List.reverse_injective hsame

theorem slice_append (u v w : ZendString) : slice (u ++ v ++ w) u.length (u ++ v).length = v := by
  unfold slice
  rw [List.take_left, List.drop_left]

/-- What stands between two bytes. -/
theorem slice_between (u v : ZendString) (b b' : UInt8) (w : ZendString) :
    slice (u ++ (b :: w ++ [b']) ++ v) (u.length + 1) ((u ++ (b :: w ++ [b'])).length - 1) = w := by
  have hfirst : u.length + 1 = (u ++ [b]).length := by rw [List.length_append, List.length_singleton]
  have hlast : (u ++ (b :: w ++ [b'])).length - 1 = (u ++ [b] ++ w).length := by
    simp only [List.length_append, List.length_cons, List.length_nil]
    omega
  have htext : u ++ (b :: w ++ [b']) ++ v = u ++ [b] ++ w ++ (b' :: v) := by simp
  rw [hfirst, hlast, htext, slice_append]

/-! ### Segments -/

variable {w : ZendString} {yyt : Tags Tag} {tags : List Tag} {first k : ByteClass} {b : UInt8}
  {gs : List (Segment ByteClass Tag)}

/-- A segment of one class. -/
theorem parted_run (hfirst : ∀ c, first.den.mem c = true → k.den.mem c = true)
    (h : Parted ByteClass.has (⟨tags, first, some k⟩ :: gs) w yyt) : ∃ v s, w = v ++ s ∧ Parted ByteClass.has gs v yyt ∧
      s ≠ [] ∧ (∀ c ∈ s, k.den.mem c = true) ∧ ∀ t ∈ tags, yyt t = some v.length := by
  obtain ⟨v, x, s, rfl, hv, hx, hs, ht⟩ := h
  refine ⟨v, x :: s, rfl, hv, List.cons_ne_nil _ _, List.forall_mem_cons.mpr ⟨?_, fun c hc => ?_⟩, ht⟩
  · exact hfirst x ((mem_den first x).trans hx)
  · exact (mem_den k c).trans (hs c hc)

/-- A segment that begins with a byte. -/
theorem parted_byte_run (h : Parted ByteClass.has (⟨tags, .byte b, some k⟩ :: gs) w yyt) : ∃ v s, w = v ++ b :: s ∧
    Parted ByteClass.has gs v yyt ∧ (∀ c ∈ s, k.den.mem c = true) ∧ ∀ t ∈ tags, yyt t = some v.length := by
  obtain ⟨v, x, s, rfl, hv, hx, hs, ht⟩ := h
  have hxb := (mem_den (.byte b) x).trans hx
  cases of_decide_eq_true hxb
  exact ⟨v, s, rfl, hv, fun c hc => (mem_den k c).trans (hs c hc), ht⟩

/-- A segment of one byte. -/
theorem parted_byte (h : Parted ByteClass.has (⟨tags, .byte b, none⟩ :: gs) w yyt) : ∃ v, w = v ++ [b] ∧
    Parted ByteClass.has gs v yyt ∧ ∀ t ∈ tags, yyt t = some v.length := by
  obtain ⟨v, x, s, rfl, hv, hx, hs, ht⟩ := h
  have hxb := (mem_den (.byte b) x).trans hx
  cases of_decide_eq_true hxb
  have hnil : s = [] := List.eq_nil_iff_forall_not_mem.mpr fun y hy => Bool.false_ne_true (hs y hy)
  exact ⟨v, by rw [hnil], hv, ht⟩

/-! ### A variable -/

/-- The parts of a variable, from the segments. -/
theorem parted_setEnd {t : Tag} (h : Parted ByteClass.has (Init.setEnd t) w yyt) : ∃ d bl name gap s e : ZendString,
    w = d ++ bl ++ name ++ gap ++ (34 :: s ++ [34]) ++ e ∧ (∀ c ∈ d, ByteClass.dark.den.mem c = true) ∧
      bl ≠ [] ∧ (∀ c ∈ bl, isBlank c = true) ∧ name ≠ [] ∧ (∀ c ∈ name, isWord c = true) ∧
      gap ≠ [] ∧ (∀ c ∈ gap, isBlank c = true) ∧ (∀ c ∈ e, ByteClass.ending.den.mem c = true) ∧
      yyt .yyt1 = some (d ++ bl).length ∧ yyt .yyt2 = some (d ++ bl ++ name).length ∧
      yyt .yyt3 = some (d ++ bl ++ name ++ gap).length ∧
      yyt t = some (d ++ bl ++ name ++ gap ++ (34 :: s ++ [34])).length := by
  obtain ⟨_, e, rfl, h, -, he, ht⟩ := parted_run (fun _ => id) h
  obtain ⟨_, rfl, h, -⟩ := parted_byte h
  obtain ⟨_, s, rfl, h, -, h3⟩ := parted_byte_run h
  obtain ⟨_, gap, rfl, h, hgap, hgaps, h2⟩ := parted_run (fun _ => id) h
  obtain ⟨_, name, rfl, h, hname, hnames, h1⟩ := parted_run (fun c hc => by
    show isWord c = true
    unfold isWord
    rw [show isAlpha c = true from hc]
    rfl) h
  obtain ⟨_, bl, rfl, h, hbl, hbls, -⟩ := parted_run (fun _ => id) h
  obtain ⟨d, x, rfl, h, -, hx, -⟩ := parted_run (fun _ => id) h
  cases h
  refine ⟨x, bl, name, gap, s, e, by simp, hx, hbl, hbls, hname, hnames, hgap, hgaps, he, ?_, ?_, ?_, ?_⟩
  · exact h1 _ (List.mem_singleton_self _)
  · exact h2 _ (List.mem_singleton_self _)
  · exact h3 _ (List.mem_singleton_self _)
  · rw [ht _ (List.mem_singleton_self _)]
    simp

/-- Behind `set` stands a blank. -/
theorem head_setWord (h : w ∈ setWord.language) : ∃ u b x, (u = [64] ∨ u = []) ∧ isBlank b = true ∧
    w = u ++ zstr "set" ++ b :: x := by
  obtain ⟨u, hu, w₁, h₁, rfl⟩ := mem_seqs.mp h
  obtain ⟨k, hk, w₂, h₂, rfl⟩ := mem_seqs.mp h₁
  obtain ⟨ws, hws, w₃, -, rfl⟩ := mem_seqs.mp h₂
  obtain ⟨hne, hblank⟩ := Regex.mem_plus_cls.mp hws
  obtain ⟨b, ws, rfl⟩ := List.exists_cons_of_ne_nil hne
  obtain rfl : k = zstr "set" := Regex.mem_word.mp hk
  refine ⟨u, b, ws ++ w₃, (Regex.mem_opt.mp hu).imp_left mem_byte.mp, hblank b List.mem_cons_self, ?_⟩
  rw [List.append_assoc]
  rfl

/-- A blank is not part of `set`. -/
theorem not_dark_of_blank (h : isBlank b = true) : ByteClass.dark.den.mem b = false := by
  show (!isBlank b && b != 34) = false
  rw [h]
  rfl

theorem not_blank_of_word (h : isWord b = true) : isBlank b = false := by
  refine Bool.eq_false_iff.mpr fun hblank => ?_
  unfold isBlank at hblank
  rw [Bool.or_eq_true, beq_iff_eq, beq_iff_eq] at hblank
  rcases hblank with rfl | rfl <;> cases h

/-- The segments an action relies on, without the writes behind them. -/
theorem parted_of_good_set (hgood : Good ByteClass.has Init.plan .set w yyt) :
    Parted ByteClass.has (Init.setEnd .yyt4) w yyt := by
  obtain ⟨p, hp, r₀, hparted, rfl⟩ := hgood _ rfl
  rcases List.mem_pair.mp hp with rfl | rfl
  · exact hparted
  · exact parted_le included_sub (parted_retags [.copy .yyt4 .yyt5] w.length hparted) (by decide)

theorem takeWhile_append_cons {p : UInt8 → Bool} {u v : ZendString} (hu : ∀ x ∈ u, p x = true) (hb : p b = false) :
    (u ++ b :: v).takeWhile p = u := by
  rw [List.takeWhile_append_of_pos hu, List.takeWhile_cons_of_neg (Bool.eq_false_iff.mp hb), List.append_nil]

/-- What the scanner takes from the text. -/
theorem setParts_split {u bl name gap s ws : ZendString} {z g : UInt8} (hu : u = [64] ∨ u = [])
    (hbls : ∀ c ∈ bl, isBlank c = true) (hnames : ∀ c ∈ z :: name, isWord c = true)
    (hgaps : ∀ c ∈ g :: gap, isBlank c = true) (hws : ∀ c ∈ ws, isBlank c = true) :
    setParts (u ++ zstr "set" ++ bl ++ z :: name ++ g :: gap ++ (34 :: s ++ [34]) ++ (ws ++ [59])) = (z :: name, s) := by
  have hg : isWord g = false := Bool.eq_false_iff.mpr fun h =>
    Bool.false_ne_true ((not_blank_of_word h).symm.trans (hgaps g List.mem_cons_self))
  set rest := 34 :: (s ++ [34]) ++ (ws ++ [59]) with hrest
  have hdrop : ∀ v : ZendString, (u ++ zstr "set" ++ v).drop
      (if (u ++ zstr "set" ++ v).head? = some 64 then 4 else 3) = v := by
    rcases hu with rfl | rfl <;> exact fun v => rfl
  have htext : u ++ zstr "set" ++ bl ++ z :: name ++ g :: gap ++ (34 :: s ++ [34]) ++ (ws ++ [59]) =
      u ++ zstr "set" ++ (bl ++ (z :: name ++ (g :: gap ++ rest))) := by
    rw [hrest]
    simp
  have ht1 : (bl ++ (z :: name ++ (g :: gap ++ rest))).dropWhile isBlank = z :: name ++ (g :: gap ++ rest) :=
    dropWhile_append_cons hbls (not_blank_of_word (hnames z List.mem_cons_self))
  have ht2 : (z :: name ++ (g :: gap ++ rest)).dropWhile isWord = g :: gap ++ rest := dropWhile_append_cons hnames hg
  have hkey : (z :: name ++ (g :: gap ++ rest)).takeWhile isWord = z :: name := takeWhile_append_cons hnames hg
  have ht3 : (g :: gap ++ rest).dropWhile isBlank = rest := dropWhile_append_cons hgaps rfl
  have hlast : rest.dropLast.rdropWhile isBlank = 34 :: (s ++ [34]) := by
    rw [hrest, ← List.append_assoc, List.dropLast_concat]
    exact rdropWhile_append_cons (u := 34 :: s) hws rfl
  rw [htext]
  unfold setParts
  dsimp only
  rw [hdrop, ht1, hkey, ht2, ht3, hlast, inner_concat]

/-- **The tags of a variable are its name and its value.** -/
theorem setTags_eq (hw : w ∈ setWord.language) (hgood : Good ByteClass.has Init.plan .set w yyt) :
    setTags w yyt = some (setParts w) := by
  obtain ⟨d, bl, name, gap, s, e, hsplit, hd, hbl, hbls, hname, hnames, hgap, hgaps, he, h1, h2, h3, h4⟩ :=
    parted_setEnd (parted_of_good_set hgood)
  obtain ⟨y, bl, rfl⟩ := List.exists_cons_of_ne_nil hbl
  obtain ⟨z, name, rfl⟩ := List.exists_cons_of_ne_nil hname
  obtain ⟨g, gap, rfl⟩ := List.exists_cons_of_ne_nil hgap
  have hy := hbls y List.mem_cons_self
  have hz := not_blank_of_word (hnames z List.mem_cons_self)
  have hg := hgaps g List.mem_cons_self
  -- the head and the end of the expression
  obtain ⟨u, b, x, hu, hb, hhead⟩ := head_setWord hw
  have hdark : ∀ c ∈ u ++ zstr "set", ByteClass.dark.den.mem c = true := by
    rcases hu with rfl | rfl <;> exact List.all_eq_true.mp rfl
  have hd : d = u ++ zstr "set" := by
    have hsame : d ++ y :: (bl ++ z :: name ++ g :: gap ++ (34 :: s ++ [34]) ++ e) = u ++ zstr "set" ++ b :: x := by
      rw [← hhead, hsplit]
      simp
    exact (span_unique (not_dark_of_blank hy) (not_dark_of_blank hb) hd hdark hsame).1
  have he : ∃ ws : ZendString, e = ws ++ [59] ∧ ∀ c ∈ ws, isBlank c = true := by
    obtain ⟨u', ws, name', b', ws', body, ws'', -, hlang, -, -, -, -, hws''⟩ := mem_setWord hw
    refine ⟨ws'', ?_, hws''⟩
    have hquote : ∀ c ∈ e, (fun c : UInt8 => c != 34) c = true := fun c hc => by
      have hend : (isBlank c || c == 59) = true := he c hc
      rw [Bool.or_eq_true, beq_iff_eq] at hend
      rcases hend with hend | rfl
      · refine bne_iff_ne.mpr ?_
        rintro rfl
        cases hend
      · rfl
    have hquote' : ∀ c ∈ ws'' ++ [59], (fun c : UInt8 => c != 34) c = true := fun c hc => by
      rcases List.mem_append.mp hc with hc | hc
      · refine bne_iff_ne.mpr ?_
        rintro rfl
        cases hws'' 34 hc
      · cases List.mem_singleton.mp hc
        rfl
    have hsame : (d ++ y :: bl ++ z :: name ++ g :: gap ++ 34 :: s) ++ 34 :: e =
        (u' ++ zstr "set" ++ ws ++ name' ++ b' :: ws' ++ 34 :: body) ++ 34 :: (ws'' ++ [59]) := by
      calc d ++ y :: bl ++ z :: name ++ g :: gap ++ 34 :: s ++ 34 :: e = w := by rw [hsplit]; simp
        _ = u' ++ zstr "set" ++ ws ++ name' ++ b' :: ws' ++ 34 :: body ++ 34 :: (ws'' ++ [59]) := by
          rw [hlang]
          simp
    exact span_unique_right rfl hquote hquote' hsame
  obtain ⟨ws, rfl, hws⟩ := he
  have hvalue := slice_between (d ++ y :: bl ++ z :: name ++ g :: gap) (ws ++ [59]) 34 34 s
  rw [← hsplit] at hvalue
  have hkey : slice w (d ++ y :: bl).length (d ++ y :: bl ++ z :: name).length = z :: name := by
    rw [hsplit, List.append_assoc _ (34 :: s ++ [34]), List.append_assoc _ (g :: gap), slice_append]
  unfold setTags
  rw [h1, h2, h3, h4]
  dsimp only [Option.bind_eq_bind, Option.bind_some]
  rw [if_pos, hkey, hvalue, hsplit, hd, setParts_split hu hbls hnames hgaps hws]
  · rfl
  · simp only [List.length_append, List.length_cons]
    omega

/-! ### A message -/

/-- The parts of a message. -/
theorem mem_message {k k' : String} (hk : ∀ c ∈ zstr k, (c != 34) = true) (hk' : ∀ c ∈ zstr k', (c != 34) = true)
    (h : w ∈ (message k k').language) : ∃ v body : ZendString, w = v ++ 34 :: (body ++ [34, 59]) ∧
      ∀ c ∈ v, (c != 34) = true := by
  obtain ⟨u, hu, w₁, h₁, rfl⟩ := mem_seqs.mp h
  obtain ⟨ws, hws, w₂, h₂, rfl⟩ := mem_seqs.mp h₁
  obtain ⟨str, hstr, e, he, rfl⟩ := mem_seqs.mp h₂
  obtain ⟨body, rfl, -⟩ := mem_string.mp hstr
  obtain rfl : e = [59] := mem_byte.mp he
  refine ⟨u ++ ws, body, by simp, fun c hc => ?_⟩
  rcases List.mem_append.mp hc with hc | hc
  · rcases Regex.mem_alt.mp hu with hu | hu
    · rw [Regex.mem_word.mp hu] at hc
      exact hk c hc
    · rw [Regex.mem_word.mp hu] at hc
      exact hk' c hc
  · refine bne_iff_ne.mpr ?_
    rintro rfl
    cases (Regex.mem_plus_cls.mp hws).2 34 hc

/-- **The tag of a message is its text.** -/
theorem messageTags_eq {t : InitRule} {k k' : String} (hk : ∀ c ∈ zstr k, (c != 34) = true)
    (hk' : ∀ c ∈ zstr k', (c != 34) = true) (hw : w ∈ (message k k').language)
    (ht : Init.plan.final t = some [(Init.messageString, [])]) (hgood : Good ByteClass.has Init.plan t w yyt) :
    messageTags w yyt = some (messageText w) := by
  obtain ⟨v, body, htext, hv⟩ := mem_message hk hk' hw
  obtain ⟨p, hp, r₀, hparted, rfl⟩ := hgood _ ht
  cases List.mem_singleton.mp hp
  obtain ⟨v', s, hsplit, hquiet, -, h1⟩ := parted_byte_run hparted
  obtain ⟨_, x, rfl, hnil, -, hx, -⟩ := parted_run (fun _ => id) hquiet
  cases hnil
  rw [List.nil_append] at hsplit h1
  rw [hsplit] at htext
  obtain ⟨rfl, htail⟩ := span_unique (p := fun c => c != 34) rfl rfl hx hv htext
  obtain ⟨-, rfl⟩ := List.cons_eq_cons.mp htail
  have h1 : r₀ .yyt1 = some x.length := h1 _ (List.mem_singleton_self _)
  have hlen : w.length - 1 = x.length + body.length + 2 := by
    rw [hsplit]
    simp only [List.length_append, List.length_cons, List.length_nil]
    omega
  have hdrop : w.drop (x.length + 1) = body ++ [34, 59] := by
    rw [hsplit, ← List.drop_drop, List.drop_left]
    rfl
  have htext : messageText w = body.take 1023 := by
    have hlast : (34 :: (body ++ [34, 59])).dropLast = 34 :: (body ++ [34]) := by
      rw [show 34 :: (body ++ [34, 59]) = 34 :: (body ++ [34]) ++ [59] by simp, List.dropLast_concat]
    unfold messageText
    rw [hsplit, dropWhile_append_cons (fun c hc => ?_) rfl, hlast, inner_concat]
    exact decide_eq_true (bne_iff_ne.mp (hx c hc))
  unfold messageTags
  show (r₀ .yyt1).bind _ = _
  rw [h1, Option.bind_some]
  dsimp only
  rw [hlen, if_pos (by omega), hdrop, htext, show x.length + body.length + 2 - x.length - 2 = body.length by omega,
    Nat.min_comm, ← List.take_take, List.take_left]
  rfl

/-! ### Conditions -/

/-- **The tag of a token that is one part** is where the token begins. -/
theorem wordTags_eq {Q τ : Type} {P : Plan Q τ ByteClass Tag} {t : τ}
    (ht : P.final t = some [([⟨[.yyt1], first, some k⟩], [])]) (hgood : Good ByteClass.has P t w yyt) :
    wordTags w yyt = some w := by
  obtain ⟨p, hp, r₀, hparted, rfl⟩ := hgood _ ht
  cases List.mem_singleton.mp hp
  obtain ⟨v, x, s, rfl, hnil, -, -, h1⟩ := hparted
  cases hnil
  have h1 : r₀ .yyt1 = some 0 := h1 _ (List.mem_singleton_self _)
  unfold wordTags
  show (r₀ .yyt1).bind _ = _
  rw [h1, Option.bind_some, slice, List.take_length]
  rfl

theorem word_of_alpha (c : UInt8) (h : ByteClass.alpha.den.mem c = true) : ByteClass.word.den.mem c = true := by
  show isWord c = true
  unfold isWord
  rw [show isAlpha c = true from h]
  rfl

/-- **The tags of a function are its name and its argument.** -/
theorem callTags_eq (hgood : Good ByteClass.has Cond.plan .call w yyt) : callTags w yyt = some (callParts w) := by
  obtain ⟨p, hp, r₀, hparted, rfl⟩ := hgood _ rfl
  cases List.mem_singleton.mp hp
  obtain ⟨_, s, rfl, h, hs, -, h2⟩ := parted_run (fun _ => id) hparted
  obtain ⟨_, rfl, h, -⟩ := parted_byte h
  obtain ⟨_, name, rfl, hnil, -, hname, h1⟩ := parted_run word_of_alpha h
  cases hnil
  rw [List.nil_append] at h2 ⊢
  have h1 : r₀ .yyt1 = some 0 := h1 _ (List.mem_singleton_self _)
  have h2 : r₀ .yyt2 = some (name ++ [40]).length := h2 _ (List.mem_singleton_self _)
  have hname : ∀ c ∈ name, isWord c = true := hname
  obtain ⟨arg, c, rfl⟩ : ∃ arg c, s = arg ++ [c] := ⟨_, _, (List.dropLast_concat_getLast hs).symm⟩
  have hparts : callParts (name ++ [40] ++ (arg ++ [c])) = (name, arg) := by
    have htext : name ++ [40] ++ (arg ++ [c]) = name ++ 40 :: (arg ++ [c]) := by simp
    unfold callParts
    rw [htext, takeWhile_append_cons hname rfl, dropWhile_append_cons hname rfl, inner_concat]
  have hkey : slice (name ++ [40] ++ (arg ++ [c])) 0 ((name ++ [40]).length - 1) = name := by
    rw [List.length_append, List.length_singleton, Nat.add_sub_cancel, slice, List.append_assoc, List.take_left]
    rfl
  have harg : slice (name ++ [40] ++ (arg ++ [c])) (name ++ [40]).length ((name ++ [40] ++ (arg ++ [c])).length - 1) =
      arg := by
    have hlen : (name ++ [40] ++ (arg ++ [c])).length - 1 = (name ++ [40] ++ arg).length := by
      rw [← List.append_assoc, List.length_append, List.length_singleton, Nat.add_sub_cancel]
    rw [hlen, ← List.append_assoc, slice_append]
  unfold callTags
  show (r₀ .yyt1).bind _ = _
  rw [h1, Option.bind_some]
  show (r₀ .yyt2).bind _ = _
  rw [h2, Option.bind_some, hkey, harg, hparts]
  rfl

/-! ### Rules -/

/-- **Behind a newline the scanner goes on** where the text goes on. -/
theorem newlineTag_eq (hgood : Good ByteClass.has Rule.plan .newline w yyt) : yyt .yyt1 = some (newlineLength w) := by
  obtain ⟨p, hp, r₀, hparted, rfl⟩ := hgood _ rfl
  rcases List.mem_pair.mp hp with rfl | rfl
  · obtain ⟨_, s, rfl, h, -, -, h1⟩ := parted_run (fun _ => id) hparted
    obtain ⟨_, rfl, hnil, -⟩ := parted_byte h
    cases hnil
    exact h1 _ (List.mem_singleton_self _)
  · obtain ⟨_, s, rfl, h, -, -, h1⟩ := parted_run (fun _ => id) hparted
    obtain ⟨_, rfl, h, -⟩ := parted_byte h
    obtain ⟨_, rfl, hnil, -⟩ := parted_byte h
    cases hnil
    exact h1 _ (List.mem_singleton_self _)

/-- The segments of the name of a keyword. -/
theorem parted_name (h : Parted ByteClass.has Rule.name w yyt) : ∃ kw : ZendString, w = 46 :: kw ∧
    (∀ c ∈ kw, isWord c = true) ∧ yyt .yyt1 = some 1 := by
  obtain ⟨_, kw, rfl, h, -, hkw, h1⟩ := parted_run word_of_alpha h
  obtain ⟨_, rfl, hnil, -⟩ := parted_byte h
  cases hnil
  exact ⟨kw, rfl, hkw, h1 _ (List.mem_singleton_self _)⟩

/-- What the tags cut out of a keyword with parentheses. -/
theorem keywordTags_arg {kw arg : ZendString} (h1 : yyt .yyt1 = some 1) (h2 : yyt .yyt2 = some (46 :: kw).length)
    (h3 : yyt .yyt3 = some (46 :: kw ++ [40]).length) (h4 : yyt .yyt4 = some (46 :: kw ++ [40] ++ arg).length) :
    keywordTags (46 :: kw ++ [40] ++ arg ++ [41]) yyt = some (kw, some arg) := by
  have hkey : slice (46 :: kw ++ [40] ++ arg ++ [41]) 1 (46 :: kw).length = kw := by
    rw [slice, List.append_assoc, List.append_assoc, List.take_left]
    rfl
  unfold keywordTags
  rw [h1, h2, h3, h4]
  dsimp only [Option.bind_eq_bind, Option.bind_some]
  rw [hkey, slice_append]
  rfl

/-- **The tags of a keyword are its name and its argument.** -/
theorem keywordTags_eq (hgood : Good ByteClass.has Rule.plan .keyword w yyt) :
    keywordTags w yyt = some (keywordParts w) := by
  have hparts {kw : ZendString} (hkw : ∀ c ∈ kw, isWord c = true) (arg : ZendString) :
      keywordParts (46 :: kw ++ [40] ++ arg ++ [41]) = (kw, some arg) := by
    have htext : 46 :: kw ++ [40] ++ arg ++ [41] = 46 :: (kw ++ 40 :: (arg ++ [41])) := by simp
    rw [htext, keywordParts_arg hkw]
  obtain ⟨p, hp, r₀, hparted, rfl⟩ := hgood _ rfl
  simp only [List.mem_cons, List.not_mem_nil, or_false] at hp
  rcases hp with rfl | rfl | rfl
  · obtain ⟨kw, rfl, hkw, h1⟩ := parted_name hparted
    rw [keywordParts_name hkw]
    unfold keywordTags
    show (r₀ .yyt1).bind _ = _
    rw [h1, Option.bind_some]
    show some (slice (46 :: kw) 1 (46 :: kw).length, none) = _
    rw [slice, List.take_length]
    rfl
  · obtain ⟨_, rfl, h, h34⟩ := parted_byte hparted
    obtain ⟨_, rfl, h, h2⟩ := parted_byte h
    obtain ⟨kw, rfl, hkw, h1⟩ := parted_name h
    have h3 : r₀ .yyt3 = some (46 :: kw ++ [40]).length := h34 _ List.mem_cons_self
    have h4 : r₀ .yyt4 = some (46 :: kw ++ [40] ++ []).length := by
      rw [List.append_nil]
      exact h34 _ (List.mem_cons_of_mem _ List.mem_cons_self)
    have htags := keywordTags_arg h1 (h2 _ (List.mem_singleton_self _)) h3 h4
    have hnone := hparts hkw []
    rw [List.append_nil] at htags hnone
    rw [hnone]
    exact htags
  · obtain ⟨_, rfl, h, h4⟩ := parted_byte hparted
    obtain ⟨_, arg, rfl, h, -, -, h3⟩ := parted_run (fun _ => id) h
    obtain ⟨_, rfl, h, h2⟩ := parted_byte h
    obtain ⟨kw, rfl, hkw, h1⟩ := parted_name h
    rw [hparts hkw]
    exact keywordTags_arg h1 (h2 _ (List.mem_singleton_self _)) (h3 _ (List.mem_singleton_self _))
      (h4 _ (List.mem_singleton_self _))

end Snuffleupagus.Cached.Parts
