import Snuffleupagus.Lib.Backup

/-! # Expressions in code

An expression whose classes have names can be compared with another one, so that a table of labels can be checked by
evaluation: `ok` follows every byte from every label, and `simulates_of_ok` says that a lexer that passes finds the
longest token. What the expressions ask for at a label is given by a text that leads there. -/

namespace Snuffleupagus.Lib.Coded

open Snuffleupagus.Lib.Derivative Snuffleupagus.Lib.Lexer Snuffleupagus.Lib.Backup

/-- Expressions over named classes. -/
inductive Code (N : Type)
  | empty
  | eps
  | cls (k : N)
  | seq (r s : Code N)
  | alt (r s : Code N)
  | star (r : Code N)
  deriving BEq, ReflBEq, LawfulBEq

namespace Code
variable {N α : Type}

/-- The expression. -/
def regex (den : N → Class α) : Code N → Regex α
  | .empty => .empty
  | .eps => .eps
  | .cls k => .cls (den k)
  | .seq r s => .seq (r.regex den) (s.regex den)
  | .alt r s => .alt (r.regex den) (s.regex den)
  | .star r => .star (r.regex den)

def nullable : Code N → Bool
  | .empty | .cls _ => false
  | .eps | .star _ => true
  | .seq r s => r.nullable && s.nullable
  | .alt r s => r.nullable || s.nullable

def inhabited : Code N → Bool
  | .empty => false
  | .eps | .cls _ | .star _ => true
  | .seq r s => r.inhabited && s.inhabited
  | .alt r s => r.inhabited || s.inhabited

def canMove : Code N → Bool
  | .empty | .eps => false
  | .cls _ => true
  | .seq r s => (r.canMove && s.inhabited) || (r.inhabited && s.canMove)
  | .alt r s => r.canMove || s.canMove
  | .star r => r.canMove

def isEmpty : Code N → Bool
  | .empty => true
  | _ => false

def mkSeq : Code N → Code N → Code N
  | .empty, _ => .empty
  | .eps, s => s
  | r, s => .seq r s

def mkAlt : Code N → Code N → Code N
  | .empty, s => s
  | r, .empty => r
  | r, s => .alt r s

/-- The derivative, for a character that is in the classes `mem`. -/
def deriv (mem : N → Bool) : Code N → Code N
  | .empty | .eps => .empty
  | .cls k => if mem k then .eps else .empty
  | .seq r s =>
    if r.nullable then mkAlt (mkSeq (r.deriv mem) s) (s.deriv mem) else mkSeq (r.deriv mem) s
  | .alt r s => mkAlt (r.deriv mem) (s.deriv mem)
  | .star r => mkSeq (r.deriv mem) (.star r)

/-- `r+`. -/
def plus (r : Code N) : Code N := .seq r (.star r)

/-- `r?`. -/
def opt (r : Code N) : Code N := .alt r .eps

/-- One after the other. -/
def seqs : List (Code N) → Code N
  | [] => .eps
  | [r] => r
  | r :: rs => .seq r (seqs rs)

/-- A word, of characters with a class of their own. -/
def word (single : α → N) : List α → Code N
  | [] => .eps
  | c :: w => .seq (.cls (single c)) (word single w)

/-! ### The code and the expression -/

variable (den : N → Class α)

@[simp] theorem nullable_regex (r : Code N) : (r.regex den).nullable = r.nullable := by
  induction r with
  | empty | eps | cls k | star r ih => rfl
  | seq r s ihr ihs => rw [regex, Regex.nullable, ihr, ihs, nullable]
  | alt r s ihr ihs => rw [regex, Regex.nullable, ihr, ihs, nullable]

@[simp] theorem inhabited_regex (r : Code N) : (r.regex den).inhabited = r.inhabited := by
  induction r with
  | empty | eps | cls k | star r ih => rfl
  | seq r s ihr ihs => rw [regex, Regex.inhabited, ihr, ihs, inhabited]
  | alt r s ihr ihs => rw [regex, Regex.inhabited, ihr, ihs, inhabited]

@[simp] theorem canMove_regex (r : Code N) : (r.regex den).canMove = r.canMove := by
  induction r with
  | empty | eps | cls k => rfl
  | seq r s ihr ihs =>
    rw [regex, Regex.canMove, ihr, ihs, inhabited_regex, inhabited_regex, canMove]
  | alt r s ihr ihs => rw [regex, Regex.canMove, ihr, ihs, canMove]
  | star r ih => rw [regex, Regex.canMove, ih, canMove]

theorem regex_mkSeq (r s : Code N) : (mkSeq r s).regex den = Regex.mkSeq (r.regex den) (s.regex den) := by
  cases r <;> rfl

theorem regex_mkAlt (r s : Code N) : (mkAlt r s).regex den = Regex.mkAlt (r.regex den) (s.regex den) := by
  cases r <;> cases s <;> rfl

theorem regex_deriv (c : α) (r : Code N) :
    (r.deriv fun k => (den k).mem c).regex den = (r.regex den).deriv c := by
  induction r with
  | empty | eps => rfl
  | cls k =>
    unfold regex deriv Regex.deriv
    split_ifs <;> rfl
  | seq r s ihr ihs =>
    unfold deriv
    rw [regex, Regex.deriv, nullable_regex]
    split_ifs
    · rw [regex_mkAlt, regex_mkSeq, ihr, ihs]
    · rw [regex_mkSeq, ihr]
  | alt r s ihr ihs => rw [deriv, regex_mkAlt, ihr, ihs]; rfl
  | star r ih => rw [deriv, regex_mkSeq, ih]; rfl

end Code

/-! ### Rules -/

section Rules
variable {N α τ : Type}

/-- The expressions in code, each with the name of its tokens. -/
abbrev CodedRules (N τ : Type) := List (Code N × τ)

/-- The rules. -/
def rulesOf (den : N → Class α) (l : CodedRules N τ) : Rules α τ := l.map fun r => (r.1.regex den, r.2)

def CodedRules.live (l : CodedRules N τ) : Bool := l.any fun r => r.1.canMove

def CodedRules.current (l : CodedRules N τ) : Option τ := (l.find? fun r => r.1.nullable).map Prod.snd

/-- The rules behind a character that is in the classes `mem`; those without a word are left out. -/
def CodedRules.advance (mem : N → Bool) (l : CodedRules N τ) : CodedRules N τ :=
  (l.map fun r => (r.1.deriv mem, r.2)).filter fun r => !r.1.isEmpty

theorem live_rulesOf (den : N → Class α) (l : CodedRules N τ) : live (rulesOf den l) = CodedRules.live l := by
  unfold live rulesOf CodedRules.live
  rw [List.any_map]
  simp only [Function.comp_def, Code.canMove_regex]

theorem current_rulesOf (den : N → Class α) (l : CodedRules N τ) :
    current (rulesOf den l) = CodedRules.current l := by
  unfold current rulesOf CodedRules.current
  rw [List.find?_map, Option.map_map]
  simp only [Function.comp_def, Code.nullable_regex]

theorem munch_advance (den : N → Class α) (c : α) (l : CodedRules N τ) (s : List α) :
    munch (Lexer.advance c (rulesOf den l)) s = munch (rulesOf den (CodedRules.advance (fun k => (den k).mem c) l)) s := by
  have hadvance : Lexer.advance c (rulesOf den l) =
      rulesOf den (l.map fun r => (r.1.deriv fun k => (den k).mem c, r.2)) := by
    unfold Lexer.advance rulesOf
    rw [List.map_map, List.map_map]
    simp only [Function.comp_def, Code.regex_deriv]
  rw [hadvance]
  unfold CodedRules.advance
  generalize (l.map fun r => (r.1.deriv fun k => (den k).mem c, r.2)) = l
  refine munch_congr fun w t => ?_
  induction l with
  | nil => exact Iff.rfl
  | cons r l ih =>
    obtain ⟨r, t'⟩ := r
    cases r with
    | empty => exact names_cons_empty.trans ih
    | eps | cls k | seq r s | alt r s | star r => exact names_cons_congr ih

end Rules

/-! ### The check -/

section Check
variable {N Q O A R τ : Type} [BEq N] [DecidableEq τ]
variable (M : Machine UInt8 Q O A R) (has : N → ℕ → Bool) (name : A → τ)
variable (rules : CodedRules N τ) (texts : Q → List (List UInt8)) (needs : Q → Bool)

/-- What the rules ask for behind a byte. -/
def behind (l : CodedRules N τ) (c : UInt8) : CodedRules N τ := CodedRules.advance (fun k => has k c.toNat) l

/-- What they ask for behind a text. -/
def after (u : List UInt8) : CodedRules N τ := u.foldl (behind has) rules

/-- Nothing is asked for any more. -/
def exhausted (l : CodedRules N τ) : Bool := !CodedRules.live l && CodedRules.current l == none

/-- The check of one jump. -/
def okJump (q : Q) (l : CodedRules N τ) (mark : Option ℕ) (c : UInt8) : Jump Q O A → Bool
  | .goto q' _ => (texts q').any (fun u => after has rules u == behind has l c) &&
      (!needs q' || mark.isSome || (needs q && CodedRules.current l == none))
  | .act a _ => exhausted (behind has l c) && CodedRules.current l == some (name a)
  | .restore => exhausted (behind has l c) && (mark.isSome || (needs q && CodedRules.current l == none))

/-- The check of one label, where the rules ask for `l`. -/
def okBlock (q : Q) (l : CodedRules N τ) : Block UInt8 Q O A → Bool
  | .skip a _ => !CodedRules.live l && CodedRules.current l == some (name a)
  | .read mark _ branch => CodedRules.live l &&
      mark.all (fun k => CodedRules.current l == some (name (M.marked k).1)) &&
      (List.range 256).all fun n =>
        okJump has name rules texts needs q l mark (UInt8.ofNat n) (branch (UInt8.ofNat n))

/-- The check of one label. -/
def ok (q : Q) : Bool :=
  (texts q).all fun u => okBlock M has name rules texts needs q (after has rules u) (M.block q)

variable {M has name rules texts needs} {den : N → Class UInt8}

/-- What a label is related to: the rules behind one of its texts. -/
def Behind (den : N → Class UInt8) (has : N → ℕ → Bool) (rules : CodedRules N τ) (texts : Q → List (List UInt8))
    (q : Q) (rules' : Rules UInt8 τ) : Prop := ∃ u ∈ texts q, rules' = rulesOf den (after has rules u)

omit [BEq N] [DecidableEq τ] in
theorem munch_behind (hden : ∀ k c, (den k).mem c = has k c.toNat) (l : CodedRules N τ) (c : UInt8)
    (s : List UInt8) : munch (Lexer.advance c (rulesOf den l)) s = munch (rulesOf den (behind has l c)) s := by
  rw [munch_advance]
  simp only [hden]
  rfl

omit [BEq N] in
theorem exhausted_iff {l : CodedRules N τ} :
    exhausted l = true ↔ CodedRules.live l = false ∧ CodedRules.current l = none := by
  unfold exhausted
  rw [Bool.and_eq_true, Bool.not_eq_true', beq_iff_eq]

omit [BEq N] in
theorem dead_of_exhausted (hden : ∀ k c, (den k).mem c = has k c.toNat) {l : CodedRules N τ} {c : UInt8}
    (h : exhausted (behind has l c) = true) : Dead (Lexer.advance c (rulesOf den l)) := by
  obtain ⟨hlive, hcur⟩ := exhausted_iff.mp h
  intro s
  rw [munch_behind hden]
  exact dead_of_not_live ((live_rulesOf den _).trans hlive) ((current_rulesOf den _).trans hcur) s

theorem follows_of_okJump [LawfulBEq N] (hden : ∀ k c, (den k).mem c = has k c.toNat) {q : Q} {l : CodedRules N τ}
    {mark : Option ℕ} {c : UInt8} {j : Jump Q O A} (h : okJump has name rules texts needs q l mark c j = true) :
    Follows name (Behind den has rules texts) (fun q => needs q = true) q (rulesOf den l) mark c j := by
  have hcur := current_rulesOf den l
  cases j with
  | goto q' ops =>
    obtain ⟨htext, hneed⟩ := Bool.and_eq_true_iff.mp h
    obtain ⟨u, hu, hafter⟩ := List.any_eq_true.mp htext
    refine ⟨⟨_, ⟨u, hu, rfl⟩, fun s => ?_⟩, fun hq' hmark => ?_⟩
    · rw [munch_behind hden, beq_iff_eq.mp hafter]
    · rw [hq', hmark, Bool.not_true, Bool.false_or, Option.isSome_none, Bool.false_or, Bool.and_eq_true,
        beq_iff_eq] at hneed
      exact ⟨hneed.1, hcur.trans hneed.2⟩
  | act a ops =>
    obtain ⟨hdead, hname⟩ := Bool.and_eq_true_iff.mp h
    exact ⟨dead_of_exhausted hden hdead, hcur.trans (beq_iff_eq.mp hname)⟩
  | restore =>
    obtain ⟨hdead, hneed⟩ := Bool.and_eq_true_iff.mp h
    refine ⟨dead_of_exhausted hden hdead, fun hmark => ?_⟩
    rw [hmark, Option.isSome_none, Bool.false_or, Bool.and_eq_true, beq_iff_eq] at hneed
    exact ⟨hneed.1, hcur.trans hneed.2⟩

/-- **A lexer that passes the check finds the longest token.** -/
theorem simulates_of_ok [LawfulBEq N] (hden : ∀ k c, (den k).mem c = has k c.toNat)
    (hok : ∀ q, ok M has name rules texts needs q = true) :
    Simulates M name (Behind den has rules texts) (fun q => needs q = true) := by
  have hblock {q : Q} {u : List UInt8} (hu : u ∈ texts q) :
      okBlock M has name rules texts needs q (after has rules u) (M.block q) = true :=
    List.all_eq_true.mp (hok q) u hu
  constructor
  · rintro q _ a ops ⟨u, hu, rfl⟩ hb
    have h := hblock hu
    rw [hb] at h
    obtain ⟨hlive, hcur⟩ := Bool.and_eq_true_iff.mp h
    rw [live_rulesOf, current_rulesOf]
    exact ⟨(Bool.not_eq_true' _).mp hlive, beq_iff_eq.mp hcur⟩
  · rintro q _ mark ops branch ⟨u, hu, rfl⟩ hb
    have h := hblock hu
    rw [hb] at h
    rw [live_rulesOf]
    exact (Bool.and_eq_true_iff.mp (Bool.and_eq_true_iff.mp h).1).1
  · rintro q _ k ops branch ⟨u, hu, rfl⟩ hb
    have h := hblock hu
    rw [hb] at h
    rw [current_rulesOf]
    exact beq_iff_eq.mp (Bool.and_eq_true_iff.mp (Bool.and_eq_true_iff.mp h).1).2
  · rintro q _ mark ops branch ⟨u, hu, rfl⟩ hb c
    have h := hblock hu
    rw [hb] at h
    have hjump := List.all_eq_true.mp (Bool.and_eq_true_iff.mp h).2 c.toNat (List.mem_range.mpr c.toNat_lt)
    rw [UInt8.ofNat_toNat] at hjump
    exact follows_of_okJump hden hjump

/-- What a lexer that passes the check finds. -/
theorem scan_of_ok [LawfulBEq N] (hden : ∀ k c, (den k).mem c = has k c.toNat)
    (hok : ∀ q, ok M has name rules texts needs q = true) (hstart : [] ∈ texts M.start)
    (hneeds : needs M.start = false) (s : List UInt8) (r : R) :
    (M.scan s r).map (fun x => (name x.1, x.2.1)) =
      match munch (rulesOf den rules) s with
      | .overrun => none
      | .token t n => some (t, n)
      | .nothing => none :=
  scan_eq (simulates_of_ok hden hok) ⟨[], hstart, rfl⟩ (by rw [hneeds]; exact Bool.false_ne_true) s r

end Check

end Snuffleupagus.Lib.Coded
