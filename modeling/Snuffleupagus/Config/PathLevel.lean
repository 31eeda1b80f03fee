import Snuffleupagus.Config.PathIndex

/-! # One level of a path

When is a level of a path taken (`parts`)? `Comes` goes from one delimiter to the next by the quotes and brackets
alone. A level is well formed if every delimiter is valid where it stands, every name that is taken off is valid,
and nothing is open at the end. These are the levels that are taken, and their elements are those that end at a
delimiter (`parts_level`). -/

namespace Snuffleupagus.Config.PathLevel

open Snuffleupagus.Php.Bytes Snuffleupagus.Php.Engine Snuffleupagus.Config.Rule
open Snuffleupagus.Config.VarParser Snuffleupagus.Config.PathTokens Snuffleupagus.Config.PathIndex

/-! ### From one delimiter to the next -/

/-- The state in which an element ends, and how its delimiter is handled. -/
def closing (t : SpConfToken) (s : PathState) : ElemType × PathState :=
  bracketStep t (quoteStep t s).1 (quoteStep t s).2

/-- Behind the delimiter no quote and no bracket is open. -/
def Ends (t : SpConfToken) (s : PathState) : Prop :=
  (quoteStep t s).2.quote = .undefined ∧ (closing t s).2.arrayCount = 0

/-- The state behind a delimiter. -/
def advance (t : SpConfToken) (s : PathState) : PathState :=
  if (quoteStep t s).2.quote ≠ .undefined then (quoteStep t s).2
  else if (closing t s).2.arrayCount ≠ 0 then (closing t s).2
  else { (closing t s).2 with pos := t.pos + t.textRepr.length, posIdxStart := -1 }

/-- **The loop comes from a state and delimiters to others**, if no delimiter is rejected. -/
inductive Comes : PathState → List SpConfToken → PathState → List SpConfToken → Prop
  | refl (s : PathState) (tokens : List SpConfToken) : Comes s tokens s tokens
  | step {t : SpConfToken} {s s' : PathState} {tokens tokens' : List SpConfToken} :
    Comes (advance t s) tokens s' tokens' → Comes s (t :: tokens) s' tokens'

/-- The name of the element that ends at a delimiter. -/
def elementName (str : ZendString) (t : SpConfToken) (s : PathState) : ZendString :=
  let b := closing t s
  let len := sizeSub t.pos b.2.pos
  let len := if b.1 = .array then sizeSub len t.textRepr.length else len
  let len := if b.2.posIdxStart > 0 then sizeSub len (sizeSub t.pos b.2.posIdxStart.toNat) else len
  (str.drop b.2.pos).take len

/-- The text of its index. -/
def elementIndex (str : ZendString) (t : SpConfToken) (s : PathState) : Option ZendString :=
  let b := closing t s
  if b.2.posIdxStart > 0 then
    some ((str.drop b.2.posIdxStart.toNat).take (sizeSub t.pos b.2.posIdxStart.toNat))
  else none

/-- A delimiter is valid where it stands, and so is the name that it ends. -/
def Passes (w : World) (str : ZendString) (t : SpConfToken) (next : Option SpConfToken) (s : PathState) : Prop :=
  isTokenValid t next s.quote s.arrayCount str s.pos = true ∧
    (Ends t s → (closing t s).1 = .interpretedString ∨ isVarNameValid w (elementName str t s) = true)

/-- **A level without an error of its own.** -/
structure WellFormed (w : World) (str : ZendString) : Prop where
  delimiters : ∀ s t tokens, Comes {} (sorted str) s (t :: tokens) → Passes w str t tokens.head? s
  closed : ∀ s, Comes {} (sorted str) s [] → s.arrayCount = 0 ∧ s.quote = .undefined
  last : ∀ s, Comes {} (sorted str) s [] →
    s.pos = str.length ∨ isVarNameValid w ((str.drop s.pos).take (sizeSub str.length s.pos)) = true

/-! ### What the loop makes of a level -/

section Level
variable {w : World} {str : ZendString} {t : SpConfToken} {next : Option SpConfToken} {s : PathState}
  {tree : List VarNode}

theorem createVar_eq_none {value : ZendString} {len : ℕ} {type : ElemType} {idx : SpTree} :
    createVar w value len type idx = none ↔ ¬(type = .interpretedString ∨ isVarNameValid w (value.take len) = true) := by
  unfold createVar
  dsimp only
  split_ifs with hvar hname hname <;> simp_all

/-- What an element says of the delimiter it ends at. -/
def Describes (n : VarNode) (str : ZendString) (t : SpConfToken) (s : PathState) : Prop :=
  Ends t s ∧ (n.type = .array ↔ (closing t s).1 = .array) ∧ indexText n = elementIndex str t s

/-- The element that ends at a delimiter is the one that is taken off. -/
theorem takeOff_closing (hends : Ends t s) :
    (takeOff w unparsed str t (closing t s).1 { (closing t s).2 with tree := tree } = none ∧
        ¬((closing t s).1 = .interpretedString ∨ isVarNameValid w (elementName str t s) = true)) ∨
      ∃ n, takeOff w unparsed str t (closing t s).1 { (closing t s).2 with tree := tree } =
          some { advance t s with tree := tree ++ [n] } ∧
        ((closing t s).1 = .interpretedString ∨ isVarNameValid w (elementName str t s) = true) ∧ Describes n str t s := by
  have hadvance : advance t s =
      { (closing t s).2 with pos := t.pos + t.textRepr.length, posIdxStart := -1 } := by
    unfold advance
    rw [if_neg (not_not.mpr hends.1), if_neg (not_not.mpr hends.2)]
  unfold takeOff
  dsimp only
  generalize hnode : createVar w (str.drop (closing t s).2.pos) _ (closing t s).1 _ = node
  cases node with
  | none =>
    have hinvalid := createVar_eq_none.mp hnode
    exact Or.inl ⟨rfl, hinvalid⟩
  | some n =>
    have hvalid : (closing t s).1 = .interpretedString ∨ isVarNameValid w (elementName str t s) = true := by
      by_contra hinvalid
      rw [createVar_eq_none.mpr hinvalid] at hnode
      exact absurd hnode nofun
    obtain ⟨htype, hidx⟩ := createVar_type hnode
    refine Or.inr ⟨n, ?_, hvalid, hends, htype, ?_⟩
    · rw [hadvance]
      rfl
    · unfold indexText elementIndex
      rw [hidx]
      dsimp only
      split_ifs <;> rfl

theorem tokenStep_withTree : tokenStep w unparsed str t next { s with tree := tree } =
    if isTokenValid t next s.quote s.arrayCount str s.pos = false then none
    else if (quoteStep t s).2.quote ≠ .undefined then some { (quoteStep t s).2 with tree := tree }
    else if (closing t s).2.arrayCount ≠ 0 then some { (closing t s).2 with tree := tree }
    else takeOff w unparsed str t (closing t s).1 { (closing t s).2 with tree := tree } := by
  rw [tokenStep_eq, quoteStep_withTree]
  dsimp only
  rw [bracketStep_withTree]
  rfl

/-- A delimiter that is not valid ends the loop. -/
theorem tokenStep_of_not_passes (h : ¬Passes w str t next s) :
    tokenStep w unparsed str t next { s with tree := tree } = none := by
  rw [tokenStep_withTree]
  split_ifs with hv hquote hcount
  · rfl
  · exact absurd ⟨by simpa using hv, fun hends => absurd hends.1 hquote⟩ h
  · exact absurd ⟨by simpa using hv, fun hends => absurd hends.2 hcount⟩ h
  · have hends : Ends t s := ⟨not_not.mp hquote, not_not.mp hcount⟩
    rcases takeOff_closing hends with ⟨hnone, -⟩ | ⟨n, -, hvalid, -⟩
    · exact hnone
    · exact absurd ⟨by simpa using hv, fun _ => hvalid⟩ h

/-- Any other one takes off the element that it ends. -/
theorem tokenStep_of_passes (tree : List VarNode) (h : Passes w str t next s) :
    ∃ nodes, tokenStep w unparsed str t next { s with tree := tree } =
        some { advance t s with tree := tree ++ nodes } ∧
      (∀ n ∈ nodes, Describes n str t s) ∧ (Ends t s → nodes ≠ []) := by
  obtain ⟨hv, hname⟩ := h
  rw [tokenStep_withTree, if_neg (by simp [hv])]
  split_ifs with hquote hcount
  · refine ⟨[], ?_, nofun, fun hends => absurd hends.1 hquote⟩
    rw [advance, if_pos hquote, List.append_nil]
  · refine ⟨[], ?_, nofun, fun hends => absurd hends.2 hcount⟩
    rw [advance, if_neg hquote, if_pos hcount, List.append_nil]
  · have hends : Ends t s := ⟨not_not.mp hquote, not_not.mp hcount⟩
    rcases takeOff_closing hends with ⟨-, hinvalid⟩ | ⟨n, hsome, -, hn⟩
    · exact absurd (hname hends) hinvalid
    · refine ⟨[n], hsome, fun m hm => ?_, fun _ => List.cons_ne_nil _ _⟩
      obtain rfl := List.mem_singleton.mp hm
      exact hn

theorem comes_nil {s' : PathState} {tokens' : List SpConfToken} :
    Comes s [] s' tokens' ↔ s' = s ∧ tokens' = [] := by
  constructor
  · rintro ⟨⟩
    exact ⟨rfl, rfl⟩
  · rintro ⟨rfl, rfl⟩
    exact Comes.refl _ _

theorem comes_cons {s' : PathState} {tokens tokens' : List SpConfToken} :
    Comes s (t :: tokens) s' tokens' ↔
      (s' = s ∧ tokens' = t :: tokens) ∨ Comes (advance t s) tokens s' tokens' := by
  constructor
  · rintro (_ | h)
    · exact Or.inl ⟨rfl, rfl⟩
    · exact Or.inr h
  · rintro (⟨rfl, rfl⟩ | h)
    · exact Comes.refl _ _
    · exact Comes.step h

/-- The loop comes to one end only. -/
theorem Comes.end_unique {a b : PathState} {tokens : List SpConfToken} (ha : Comes s tokens a [])
    (hb : Comes s tokens b []) : a = b := by
  induction tokens generalizing s with
  | nil => rw [(comes_nil.mp ha).1, (comes_nil.mp hb).1]
  | cons t tokens ih =>
    have ha := (comes_cons.mp ha).resolve_left fun h => absurd h.2 nofun
    have hb := (comes_cons.mp hb).resolve_left fun h => absurd h.2 nofun
    exact ih ha hb

/-- The elements of a level are those that end at its delimiters. -/
structure Elements (str : ZendString) (s : PathState) (tokens : List SpConfToken) (nodes : List VarNode) : Prop where
  sound : ∀ n ∈ nodes, ∃ s' t tokens', Comes s tokens s' (t :: tokens') ∧ Describes n str t s'
  complete : ∀ s' t tokens', Comes s tokens s' (t :: tokens') → Ends t s' → ∃ n ∈ nodes, Describes n str t s'

/-- Every delimiter is valid where the loop comes to it. -/
def Passing (w : World) (str : ZendString) (s : PathState) (tokens : List SpConfToken) : Prop :=
  ∀ s' t tokens', Comes s tokens s' (t :: tokens') → Passes w str t tokens'.head? s'

theorem passing_cons {tokens : List SpConfToken} : Passing w str s (t :: tokens) ↔
    Passes w str t tokens.head? s ∧ Passing w str (advance t s) tokens := by
  constructor
  · intro h
    exact ⟨h _ _ _ (Comes.refl _ _), fun s' u tokens' hc => h _ _ _ (Comes.step hc)⟩
  · rintro ⟨hpass, hrest⟩ s' u tokens' hc
    rcases comes_cons.mp hc with ⟨rfl, heq⟩ | hc
    · obtain ⟨rfl, rfl⟩ := List.cons.inj heq
      exact hpass
    · exact hrest _ _ _ hc

/-- **The loop goes through a level whose delimiters are valid**, and only through such a level. -/
theorem tokenLoop_level (tokens : List SpConfToken) (s : PathState) (tree : List VarNode) :
    (tokenLoop w unparsed str tokens { s with tree := tree } = none ∧ ¬Passing w str s tokens) ∨
      ∃ s' nodes, tokenLoop w unparsed str tokens { s with tree := tree } = some { s' with tree := tree ++ nodes } ∧
        Passing w str s tokens ∧ Comes s tokens s' [] ∧ Elements str s tokens nodes := by
  induction tokens generalizing s tree with
  | nil =>
    refine Or.inr ⟨s, [], ?_, fun s' t tokens' h => absurd (comes_nil.mp h).2 nofun, Comes.refl _ _, nofun, ?_⟩
    · rw [tokenLoop, List.append_nil]
    · exact fun s' t tokens' h => absurd (comes_nil.mp h).2 nofun
  | cons t tokens ih =>
    rw [tokenLoop]
    by_cases hpass : Passes w str t tokens.head? s
    · obtain ⟨nodes, hstep, hnodes, hends⟩ := tokenStep_of_passes tree hpass
      rw [hstep]
      dsimp only
      rcases ih (advance t s) (tree ++ nodes) with ⟨hloop, hno⟩ | ⟨s', rest, hloop, hpassing, hend, helements⟩
      · exact Or.inl ⟨hloop, fun h => hno (passing_cons.mp h).2⟩
      · refine Or.inr ⟨s', nodes ++ rest, ?_, passing_cons.mpr ⟨hpass, hpassing⟩, Comes.step hend, ?_, ?_⟩
        · rw [hloop, List.append_assoc]
        · intro n hn
          rcases List.mem_append.mp hn with hn | hn
          · exact ⟨s, t, tokens, Comes.refl _ _, hnodes n hn⟩
          · obtain ⟨s'', u, tokens', hc, hd⟩ := helements.sound n hn
            exact ⟨s'', u, tokens', Comes.step hc, hd⟩
        · intro s'' u tokens' hc he
          rcases comes_cons.mp hc with ⟨rfl, heq⟩ | hc
          · obtain ⟨rfl, rfl⟩ := List.cons.inj heq
            obtain ⟨n, hn⟩ := List.exists_mem_of_ne_nil _ (hends he)
            exact ⟨n, List.mem_append_left _ hn, hnodes n hn⟩
          · obtain ⟨n, hn, hd⟩ := helements.complete s'' u tokens' hc he
            exact ⟨n, List.mem_append_right _ hn, hd⟩
    · refine Or.inl ⟨?_, fun h => hpass (passing_cons.mp h).1⟩
      rw [tokenStep_of_not_passes hpass]

/-- **A level is taken exactly if it is well formed.** Its elements are those that end at its delimiters, and
perhaps a last name. -/
theorem parts_level (w : World) (str : ZendString) :
    (parts w str = none ∧ ¬WellFormed w str) ∨
      ∃ front last, parts w str = some (front ++ last) ∧ WellFormed w str ∧ Elements str {} (sorted str) front ∧
        ∀ n ∈ last, n.type ≠ .array ∧ indexText n = none := by
  unfold parts parseTokens
  rcases tokenLoop_level (w := w) (sorted str) {} [] with ⟨hloop, hno⟩ | ⟨s, front, hloop, hpassing, hend, helements⟩
  · refine Or.inl ⟨?_, fun h => hno h.delimiters⟩
    rw [hloop]
  · rw [hloop]
    dsimp only
    have hunique : ∀ s', Comes {} (sorted str) s' [] → s' = s := fun s' h => h.end_unique hend
    split_ifs with hcount hquote hpos
    · exact Or.inl ⟨rfl, fun h => hcount (h.closed s hend).1⟩
    · exact Or.inl ⟨rfl, fun h => hquote (h.closed s hend).2⟩
    · refine Or.inr ⟨front, [], by simp, ⟨hpassing, fun s' h => ?_, fun s' h => ?_⟩, helements, nofun⟩
      · rw [hunique s' h]
        exact ⟨not_not.mp hcount, not_not.mp hquote⟩
      · rw [hunique s' h]
        exact Or.inl hpos
    · generalize hlast : createVar w (str.drop s.pos) (sizeSub str.length s.pos) .constant .nil = last
      cases last with
      | none =>
        refine Or.inl ⟨rfl, fun h => ?_⟩
        have hinvalid := createVar_eq_none.mp hlast
        exact hinvalid (Or.inr ((h.last s hend).resolve_left hpos))
      | some n =>
        obtain ⟨htype, hidx⟩ := createVar_type hlast
        have hname : isVarNameValid w ((str.drop s.pos).take (sizeSub str.length s.pos)) = true := by
          by_contra hinvalid
          rw [createVar_eq_none.mpr (by simpa using hinvalid)] at hlast
          exact absurd hlast nofun
        refine Or.inr ⟨front, [n], by simp, ⟨hpassing, fun s' h => ?_, fun s' h => ?_⟩, helements, fun m hm => ?_⟩
        · rw [hunique s' h]
          exact ⟨not_not.mp hcount, not_not.mp hquote⟩
        · rw [hunique s' h]
          exact Or.inr hname
        · obtain rfl := List.mem_singleton.mp hm
          refine ⟨fun harray => ?_, by rw [indexText, hidx]⟩
          exact absurd (htype.mp harray) (by decide)

end Level

end Snuffleupagus.Config.PathLevel
