import Snuffleupagus.Lib.OutBuffer
import Snuffleupagus.Scanner.Ascii
import Snuffleupagus.Scanner.Word

/-! # The text of a rule

`sp_get_textual_representation` computes a length in one loop, and writes the text in another. Here both are as in the
code, and the text is written over what the memory holds (`memory`).

The two loops do not look at a keyword in the same way. They agree on the keywords that the scanner makes (`Made`): a
keyword without an argument has no parentheses, and one with an argument has it between quotes, or is empty. So a text is
as long as has been computed, and each part of it is read as the keyword it is for (`text_written`). -/

namespace Snuffleupagus.Scanner.Textual

open Snuffleupagus.Lib.Derivative Snuffleupagus.Lib.Lexer Snuffleupagus.Lib.OutBuffer Snuffleupagus.Php.Bytes
open Snuffleupagus.Lib.Derivative.Regex (plus opt)
open Snuffleupagus.Config.Keyword (SpParsedKeyword)
open Snuffleupagus.Load.Module (Statement)
open Snuffleupagus.Scanner.Token Snuffleupagus.Scanner.Scan Snuffleupagus.Scanner.Run Snuffleupagus.Scanner.Handed
open Snuffleupagus.Scanner.Ascii Snuffleupagus.Scanner.Word

/-! ### The code -/

/-- A turn of the loop that computes the length. -/
def addLength (len : ℕ) (kw : SpParsedKeyword) : ℕ :=
  let len := len + 1 + kw.kw.length
  match kw.argtype with
  | .empty => len + 2
  | .str => len + 2 + (kw.arg.getD []).length + 2
  | .unknown | .none => len

/-- `has_parens`. -/
def hasParens (kw : SpParsedKeyword) : Bool :=
  kw.argtype == .empty || kw.argtype == .str || kw.argtype == .unknown

/-- A turn of the loop that writes. -/
def writeKeyword (ret : Out UInt8) (kw : SpParsedKeyword) : Out UInt8 :=
  let ret := (ret.put [46]).put kw.kw
  let ret := if hasParens kw then ret.put [40] else ret
  let ret :=
    match kw.argtype, kw.arg with
    | .str, some arg => ((ret.put [34]).put arg).put [34]
    | _, _ => ret
  if hasParens kw then ret.put [41] else ret

/-- `sp_get_textual_representation`: the length of the string that is allocated, and its bytes. -/
def spGetTextualRepresentation (parsedRule : List SpParsedKeyword) (memory : ℕ → UInt8) : ℕ × Out UInt8 :=
  let len := parsedRule.foldl addLength 3
  let ret := parsedRule.foldl writeKeyword (Out.put { cells := memory } (zstr "sp"))
  let ret := ret.put [59]
  (len, { ret with cells := (ret.put [0]).cells })

/-! ### What it is to do -/

/-- The argument of a keyword, as it is written. -/
def written (kw : SpParsedKeyword) : Option ZendString :=
  match kw.argtype with
  | .none => none
  | .str => kw.arg.map fun arg => 34 :: (arg ++ [34])
  | .empty | .unknown => some []

/-- The text is a keyword in the syntax of a rule, with the name and the argument of this one. -/
structure Spells (token : ZendString) (kw : SpParsedKeyword) : Prop where
  mem : token ∈ ruleKeyword.language
  parts : keywordParts token = (kw.kw, written kw)

/-- The string is as long as has been allocated, and is the text of the keywords. -/
structure Represents (kws : List SpParsedKeyword) (memory : ℕ → UInt8) (len : ℕ) (ret : Out UInt8) : Prop where
  ptr : ret.ptr = len
  nul : ret.cells len = 0
  outside : ∀ i, len < i → ret.cells i = memory i
  text : ∃ tokens, List.Forall₂ Spells tokens kws ∧
    ret.contents len = zstr "sp" ++ tokens.flatten ++ zstr ";"

/-! ### The keywords of the scanner -/

/-- A keyword as the scanner makes it. -/
structure Made (kw : SpParsedKeyword) : Prop where
  name : kw.kw ∈ keyword.language
  arg : kw.argtype = .none ∧ kw.arg = none ∨ kw.argtype = .empty ∧ kw.arg = some [] ∨
    kw.argtype = .str ∧ ∃ arg, kw.arg = some arg ∧ QuotesEscaped false arg

variable {c : Context} {s s' : State} {l : List Statement} {kw : SpParsedKeyword} {n : ℕ} {u v w : ZendString}

/-- What is in front of a byte that ends a run. -/
theorem dropWhile_append_cons {p : UInt8 → Bool} {b : UInt8} (hu : ∀ x ∈ u, p x = true) (hb : p b = false) :
    (u ++ b :: v).dropWhile p = b :: v := by
  rw [List.dropWhile_append_of_pos hu, List.dropWhile_cons_of_neg (Bool.eq_false_iff.mp hb)]

theorem rdropWhile_append_cons {p : UInt8 → Bool} {b : UInt8} (hv : ∀ x ∈ v, p x = true) (hb : p b = false) :
    (u ++ [b] ++ v).rdropWhile p = u ++ [b] := by
  have hreverse : (u ++ [b] ++ v).reverse = v.reverse ++ b :: u.reverse := by simp
  unfold List.rdropWhile
  rw [hreverse, dropWhile_append_cons (fun x hx => hv x (List.mem_reverse.mp hx)) hb]
  simp

/-- The expression of `@set name "value";`. -/
def setWord : Regex UInt8 :=
  seqs [opt (byte 64), lit "set", plus whitespace, keyword, plus whitespace, string, .star whitespace, byte 59]

theorem mem_setWord (h : w ∈ setWord.language) : ∃ u ws name b ws' body ws'', (u = [64] ∨ u = []) ∧
    w = u ++ (zstr "set" ++ (ws ++ (name ++ (b :: ws' ++ (34 :: (body ++ [34]) ++ (ws'' ++ [59])))))) ∧
    (∀ x ∈ ws, isBlank x = true) ∧ name ∈ keyword.language ∧ (∀ x ∈ b :: ws', isBlank x = true) ∧
    QuotesEscaped false body ∧ ∀ x ∈ ws'', isBlank x = true := by
  obtain ⟨u, hu, w₁, h₁, rfl⟩ := mem_seqs.mp h
  obtain ⟨k, hk, w₂, h₂, rfl⟩ := mem_seqs.mp h₁
  obtain ⟨ws, hws, w₃, h₃, rfl⟩ := mem_seqs.mp h₂
  obtain ⟨name, hname, w₄, h₄, rfl⟩ := mem_seqs.mp h₃
  obtain ⟨bs, hbs, w₅, h₅, rfl⟩ := mem_seqs.mp h₄
  obtain ⟨str, hstr, w₆, h₆, rfl⟩ := mem_seqs.mp h₅
  obtain ⟨ws'', hws'', e, he, rfl⟩ := mem_seqs.mp h₆
  obtain ⟨hne, hblank⟩ := Regex.mem_plus_cls.mp hbs
  obtain ⟨b, ws', rfl⟩ := List.exists_cons_of_ne_nil hne
  obtain ⟨body, rfl, hbody⟩ := mem_string.mp hstr
  obtain rfl : e = [59] := mem_byte.mp he
  obtain rfl : k = zstr "set" := Regex.mem_word.mp hk
  exact ⟨u, ws, name, b, ws', body, ws'', (Regex.mem_opt.mp hu).imp_left mem_byte.mp, rfl,
    (Regex.mem_plus_cls.mp hws).2, hname, hblank, hbody, Regex.mem_star_cls.mp hws''⟩

/-- The value of a variable is what stands between the quotes. -/
theorem setParts_text {name ws ws' body ws'' : ZendString} {b : UInt8} (hu : u = [64] ∨ u = [])
    (hws : ∀ x ∈ ws, isBlank x = true) (hname : name ∈ keyword.language) (hbs : ∀ x ∈ b :: ws', isBlank x = true)
    (hws'' : ∀ x ∈ ws'', isBlank x = true) :
    (setParts (u ++ (zstr "set" ++
      (ws ++ (name ++ (b :: ws' ++ (34 :: (body ++ [34]) ++ (ws'' ++ [59])))))))).2 = body := by
  have hword := isWord_of_mem_keyword hname
  obtain ⟨x, name, rfl, hx, -⟩ := mem_keyword.mp hname
  obtain ⟨hb, hws'⟩ := List.forall_mem_cons.mp hbs
  have hnotblank : ∀ {y}, isWord y = true → isBlank y = false := by
    intro y hy
    refine Bool.eq_false_iff.mpr fun hblank => ?_
    unfold isBlank at hblank
    rw [Bool.or_eq_true, beq_iff_eq, beq_iff_eq] at hblank
    rcases hblank with rfl | rfl <;> cases hy
  have hnotword : isWord b = false := Bool.eq_false_iff.mpr fun hy => by rw [hnotblank hy] at hb; cases hb
  set rest := 34 :: (body ++ [34]) ++ (ws'' ++ [59]) with hrest
  have hdrop : ∀ v : ZendString, (u ++ (zstr "set" ++ v)).drop
      (if (u ++ (zstr "set" ++ v)).head? = some 64 then 4 else 3) = v := by
    rcases hu with rfl | rfl <;> exact fun v => rfl
  have ht1 : (ws ++ (x :: name ++ (b :: ws' ++ rest))).dropWhile isBlank = x :: name ++ (b :: ws' ++ rest) :=
    dropWhile_append_cons hws (hnotblank (hword x List.mem_cons_self))
  have ht2 : (x :: name ++ (b :: ws' ++ rest)).dropWhile isWord = b :: ws' ++ rest :=
    dropWhile_append_cons hword hnotword
  have ht3 : (b :: ws' ++ rest).dropWhile isBlank = rest := dropWhile_append_cons hbs rfl
  have hlast : rest.dropLast.rdropWhile isBlank = 34 :: (body ++ [34]) := by
    rw [hrest, ← List.append_assoc, List.dropLast_concat]
    exact rdropWhile_append_cons (u := 34 :: body) hws'' rfl
  unfold setParts
  dsimp only
  rw [hdrop, ht1, ht2, ht3, hlast, inner_concat]

/-- It is what a string can hold. -/
theorem setParts_value (h : w ∈ setWord.language) :
    ∃ body, (setParts w).2 = body ∧ QuotesEscaped false body := by
  obtain ⟨u, ws, name, b, ws', body, ws'', hu, rfl, hws, hname, hbs, hbody, hws''⟩ := mem_setWord h
  exact ⟨body, setParts_text hu hws hname hbs hws'', hbody⟩

/-- Every variable has a value that a string can hold. -/
def Quoted (s : State) : Prop := ∀ p ∈ s.vars, QuotesEscaped false p.2

theorem quoted_decimal (n : ℕ) : QuotesEscaped false (decimal n) := by
  refine quotesEscaped_of_isInString fun b hb => isInString_of_isWord ?_
  unfold isWord
  rw [Php.Numeral.isDigit_decimal n b hb, Bool.or_true, Bool.true_or]

theorem quoted_start (c : Context) (data : ZendString) : Quoted (start c data) :=
  List.forall_mem_singleton.mpr (quoted_decimal _)

theorem quoted_of_setAt {name value : ZendString} (h : SetAt s name value) : QuotesEscaped false value := by
  obtain ⟨-, -, n, hnext, hparts⟩ := h
  have hl := longest_of_next hnext (by decide)
  have hmem := hl.names.mem_of_unique (r := setWord) fun r hr => by simpa [initRules, setWord] using hr
  obtain ⟨body, hvalue, hbody⟩ := setParts_value hmem
  rw [hparts] at hvalue
  rw [show value = body from hvalue]
  exact hbody

theorem Quoted.next {out : Option Statement} (h : Quoted s) (hstep : step c s = .next s' out) : Quoted s' := by
  rcases step_vars hstep with ⟨name, value, hset, hvars⟩ | ⟨hvars, -⟩
  · unfold Quoted
    rw [hvars]
    exact List.forall_mem_cons.mpr ⟨quoted_of_setAt hset, h⟩
  · unfold Quoted
    rw [hvars]
    exact h

theorem Quoted.steps (h : Quoted s) (hsteps : Steps c s l s') : Quoted s' := by
  induction hsteps with
  | refl => exact h
  | cons hstep _ ih => exact ih (h.next hstep)

theorem quoted_lookup {name value : ZendString} (h : Quoted s) (hlookup : s.vars.lookup name = some value) :
    QuotesEscaped false value := by
  obtain ⟨l₁, l₂, hvars, -⟩ := List.lookup_eq_some_iff.mp hlookup
  exact h (name, value) (by rw [hvars]; simp)

/-- **The keywords that are read** are as the scanner makes them. -/
theorem made_of_keywordAt (h : KeywordAt c s n kw) (hvars : Quoted s) : Made kw := by
  have hl := longest_of_next h.next (by decide)
  have hmem := hl.names.mem_of_unique (r := ruleKeyword) fun r hr => by simpa [ruleRules, ruleKeyword] using hr
  obtain ⟨name, hname, htext | ⟨arg, harg, htext⟩⟩ := mem_ruleKeyword.mp hmem
  all_goals
    have hparses := h.parses
    unfold parseKeyword at hparses
    rw [htext] at hparses
  · rw [keywordParts_name (isWord_of_mem_keyword hname)] at hparses
    cases hparses
    exact ⟨hname, .inl ⟨rfl, rfl⟩⟩
  · rw [keywordParts_arg (isWord_of_mem_keyword hname)] at hparses
    dsimp only at hparses
    split at hparses
    · cases hparses
    split_ifs at hparses with hnil hquoted
    · cases hparses
      exact ⟨hname, .inr (.inl ⟨rfl, rfl⟩)⟩
    · cases hparses
      refine ⟨hname, .inr (.inr ⟨rfl, _, rfl, ?_⟩)⟩
      rcases harg with hstring | hempty | hkeyword
      · obtain ⟨body, rfl, hbody⟩ := mem_string.mp hstring
        rw [inner_concat]
        exact hbody
      · exact absurd hempty hnil
      · obtain ⟨x, u, rfl, hx, -⟩ := mem_keyword.mp hkeyword
        obtain rfl : x = 34 := Option.some.inj hquoted.2
        cases hx
    · split at hparses
      · rename_i value hlookup
        cases hparses
        exact ⟨hname, .inr (.inr ⟨rfl, value, rfl, quoted_lookup hvars hlookup⟩)⟩
      · cases hparses

/-- The keywords of the rules that are handed out. -/
theorem made_of_mem {contents : ZendString} {rule : List SpParsedKeyword}
    (h : .rule rule ∈ (spConfigScan c contents).1) : ∀ kw ∈ rule, Made kw := by
  obtain ⟨l, s, e, hsteps, -, hrun⟩ := exists_steps (c := c) (start c (contents ++ [0]))
  rw [spConfigScan, hrun] at h
  have hread : ∀ l₁ s₁ n kw, Steps c (start c (contents ++ [0])) l₁ s₁ → KeywordAt c s₁ n kw → Made kw :=
    fun l₁ s₁ n kw hsteps₁ hkw => made_of_keywordAt hkw ((quoted_start c _).steps hsteps₁)
  exact (steps_keywords hsteps hread (List.forall_mem_nil _)).2 rule h

/-! ### The two loops -/

/-- What is written for a keyword. -/
def token (kw : SpParsedKeyword) : ZendString :=
  46 :: (kw.kw ++ ((written kw).elim [] fun arg => 40 :: (arg ++ [41])))

theorem token_of_none (h : written kw = none) : token kw = 46 :: kw.kw := by
  unfold token
  rw [h, Option.elim_none, List.append_nil]

theorem token_of_some {arg : ZendString} (h : written kw = some arg) :
    token kw = 46 :: (kw.kw ++ 40 :: (arg ++ [41])) := by
  unfold token
  rw [h, Option.elim_some]

/-- The argument is one that the expression of a keyword allows. -/
theorem Made.written_cases (h : Made kw) : written kw = none ∨
    ∃ arg, written kw = some arg ∧ (arg ∈ string.language ∨ arg = [] ∨ arg ∈ keyword.language) := by
  obtain ⟨htype, -⟩ | ⟨htype, -⟩ | ⟨htype, arg, harg, hquotes⟩ := h.arg
  · refine .inl ?_
    unfold written
    rw [htype]
  · refine .inr ⟨[], ?_, .inr (.inl rfl)⟩
    unfold written
    rw [htype]
  · refine .inr ⟨34 :: (arg ++ [34]), ?_, .inl (mem_string.mpr ⟨arg, rfl, hquotes⟩)⟩
    unfold written
    rw [htype, harg]
    rfl

theorem Made.spells (h : Made kw) : Spells (token kw) kw := by
  have hword := isWord_of_mem_keyword h.name
  rcases h.written_cases with hnone | ⟨arg, hsome, harg⟩
  · rw [token_of_none hnone]
    refine ⟨mem_ruleKeyword.mpr ⟨kw.kw, h.name, .inl rfl⟩, ?_⟩
    rw [keywordParts_name hword, hnone]
  · rw [token_of_some hsome]
    refine ⟨mem_ruleKeyword.mpr ⟨kw.kw, h.name, .inr ⟨arg, harg, rfl⟩⟩, ?_⟩
    rw [keywordParts_arg hword, hsome]

theorem Made.addLength (h : Made kw) (len : ℕ) : addLength len kw = len + (token kw).length := by
  unfold Textual.addLength token written
  obtain ⟨htype, -⟩ | ⟨htype, -⟩ | ⟨htype, arg, harg, -⟩ := h.arg
  · rw [htype]
    simp
    omega
  · rw [htype]
    simp
    omega
  · rw [htype, harg]
    simp
    omega

theorem Made.write (h : Made kw) {memory : ℕ → UInt8} {l : ZendString} {o : Out UInt8} (ho : Written memory l o) :
    Written memory (l ++ token kw) (writeKeyword o kw) := by
  have hname := (ho.put [46]).put kw.kw
  unfold writeKeyword hasParens token written
  obtain ⟨htype, -⟩ | ⟨htype, -⟩ | ⟨htype, arg, harg, -⟩ := h.arg
  · rw [htype]
    simpa using hname
  · rw [htype]
    simpa using (hname.put [40]).put [41]
  · rw [htype, harg]
    simpa using ((((hname.put [40]).put [34]).put arg).put [34]).put [41]

variable {kws : List SpParsedKeyword}

/-- The text of the keywords. -/
def text (kws : List SpParsedKeyword) : ZendString := zstr "sp" ++ kws.flatMap token ++ zstr ";"

theorem length_computed (h : ∀ kw ∈ kws, Made kw) : ∀ len, kws.foldl addLength len = len + (kws.flatMap token).length := by
  induction kws with
  | nil => exact fun len => rfl
  | cons kw kws ih =>
    intro len
    obtain ⟨hkw, hkws⟩ := List.forall_mem_cons.mp h
    rw [List.foldl_cons, ih hkws, hkw.addLength, List.flatMap_cons, List.length_append, Nat.add_assoc]

/-- **The text has the length that has been computed.** -/
theorem length_text (h : ∀ kw ∈ kws, Made kw) (memory : ℕ → UInt8) :
    (spGetTextualRepresentation kws memory).1 = (text kws).length := by
  show kws.foldl addLength 3 = _
  rw [length_computed h, text, List.length_append, List.length_append]
  show 3 + _ = 2 + _ + 1
  omega

/-- **The text is written**, and a NUL behind it. -/
theorem written_text (h : ∀ kw ∈ kws, Made kw) (memory : ℕ → UInt8) :
    (spGetTextualRepresentation kws memory).2.ptr = (text kws).length ∧
      ∃ ret, Written memory (text kws ++ [0]) ret ∧ (spGetTextualRepresentation kws memory).2.cells = ret.cells := by
  have hsp : Written memory (zstr "sp") (Out.put { cells := memory } (zstr "sp")) := Written.start.put _
  have htext : Written memory (text kws) _ :=
    (Written.foldl (fun kw hkw {l o} ho => (h kw hkw).write ho) hsp).put [59]
  exact ⟨htext.ptr, _, htext.put [0], rfl⟩

theorem contents_eq (h : ∀ kw ∈ kws, Made kw) (memory : ℕ → UInt8) :
    (spGetTextualRepresentation kws memory).2.contents (spGetTextualRepresentation kws memory).1 = text kws := by
  obtain ⟨-, ret, hret, hcells⟩ := written_text h memory
  have hcontents := hret.contents (n := (text kws).length) (List.prefix_append ..).length_le
  rw [length_text h memory]
  unfold Out.contents at hcontents ⊢
  rw [hcells, hcontents, List.take_left]

theorem represents (h : ∀ kw ∈ kws, Made kw) (memory : ℕ → UInt8) :
    Represents kws memory (spGetTextualRepresentation kws memory).1 (spGetTextualRepresentation kws memory).2 := by
  obtain ⟨hptr, ret, hret, hcells⟩ := written_text h memory
  have hlen := length_text h memory
  refine ⟨hptr.trans hlen.symm, ?_, fun i hi => ?_, kws.map token, ?_, ?_⟩
  · rw [hcells, hlen, hret.cell, List.getElem?_append_right le_rfl, Nat.sub_self]
    rfl
  · rw [hcells]
    refine hret.behind ?_
    rw [List.length_append, List.length_singleton, ← hlen]
    exact hi
  · exact List.forall₂_map_left_iff.mpr (List.forall₂_same.mpr fun kw hkw => (h kw hkw).spells)
  · rw [contents_eq h memory, text, List.flatMap_def]

/-- The text is that of the log. -/
theorem text_eq (h : ∀ kw ∈ kws, Made kw) : Config.Keyword.spGetTextualRepresentation kws = text kws := by
  unfold Config.Keyword.spGetTextualRepresentation text
  rw [List.flatMap_congr (g := token)]
  intro kw hkw
  unfold token written
  obtain ⟨htype, -⟩ | ⟨htype, -⟩ | ⟨htype, arg, harg, -⟩ := (h kw hkw).arg
  · rw [htype]
    rfl
  · rw [htype]
    rfl
  · rw [htype, harg]
    simp [zstr]

/-- **The text of a rule**: for every list of keywords that the scanner hands out, and for every end of it, exactly the bytes
that have been allocated are written, and they are `sp`, the keywords with their arguments in the syntax of a rule, and a
semicolon. -/
theorem text_written (c : Context) (contents : ZendString) (rule kws : List SpParsedKeyword)
    (h : .rule rule ∈ (spConfigScan c contents).1) (hkws : kws <:+ rule) (memory : ℕ → UInt8) :
    Represents kws memory (spGetTextualRepresentation kws memory).1 (spGetTextualRepresentation kws memory).2 :=
  represents (fun kw hkw => made_of_mem h kw (hkws.subset hkw)) memory

/-- `sp.a.b().c("x").d(A);`, where the variable `A` is `y\"`. -/
theorem text_written_sample : ∃ rule,
    .rule rule ∈ (spConfigScan ⟨fun _ => false, 80000, []⟩ (zstr "@set A \"y\\\"\";sp.a.b().c(\"x\").d(A);")).1 ∧
      Represents rule (fun _ => 0) (spGetTextualRepresentation rule fun _ => 0).1
        (spGetTextualRepresentation rule fun _ => 0).2 ∧
      (spGetTextualRepresentation rule fun _ => 0).1 = 25 := by
  have hrule : Statement.rule [{ kw := zstr "a" }, { kw := zstr "b", arg := some [], argtype := .empty },
        { kw := zstr "c", arg := some (zstr "x"), argtype := .str },
        { kw := zstr "d", arg := some (zstr "y\\\""), argtype := .str }] ∈
      (spConfigScan ⟨fun _ => false, 80000, []⟩ (zstr "@set A \"y\\\"\";sp.a.b().c(\"x\").d(A);")).1 :=
    List.mem_singleton.mpr rfl
  exact ⟨_, hrule, text_written _ _ _ _ hrule (List.suffix_refl _) _, rfl⟩

end Snuffleupagus.Scanner.Textual
