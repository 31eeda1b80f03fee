import Mathlib.Logic.Relation
import Snuffleupagus.Config.Path
import Snuffleupagus.Config.PathBounds

/-! # The indices of a path

`create_var` parses the text between the brackets of an index with `sp_parse_var` and does not look at the
result. So a path is rejected for what is outside of its brackets only (`rejected_iff`), and an index that is
rejected is missing in the tree: the element is an array element without an index, which no array has.

Every array element of a tree has an index exactly if no text between brackets that the parser comes to, at any
depth, is malformed (`indexed_iff`). -/

namespace Snuffleupagus.Config.PathIndex

open Snuffleupagus.Php.Bytes Snuffleupagus.Php.Engine Snuffleupagus.Config.Rule
open Snuffleupagus.Config.VarParser Snuffleupagus.Config.PathTokens Snuffleupagus.Config.PathBounds

/-- **Every array element has an index**, in the indices as well. -/
def AllIndexed : SpTree → Prop
  | .nil => True
  | .node type _ idx next => (type = .array → idx ≠ .nil) ∧ AllIndexed idx ∧ AllIndexed next

/-! ### One level -/

/-- The text of an index in its place. -/
def unparsed (t : ZendString) : Option SpTree := some (.node .constant t .nil .nil)

/-- The elements of a path, with the texts of their indices; none if it is malformed outside of the brackets. -/
def parts (w : World) (s : ZendString) : Option (List VarNode) := parseTokens w unparsed s (sorted s)

/-- The text of the index of an element. -/
def indexText (n : VarNode) : Option ZendString :=
  match n.idx with
  | .nil => none
  | .node _ t _ _ => some t

/-- `t` is the text between the brackets of an index of `s`. -/
def Index (w : World) (s t : ZendString) : Prop := ∃ nodes, parts w s = some nodes ∧ ∃ n ∈ nodes, indexText n = some t

/-- An element whose index is parsed. -/
def parsed (parseVar : ZendString → Option SpTree) (n : VarNode) : VarNode :=
  { n with idx := ((indexText n).bind parseVar).getD .nil }

section Level
variable {w : World} {parseVar : ZendString → Option SpTree} {str : ZendString}

/-- The state with the indices of its elements parsed. -/
def parsedState (parseVar : ZendString → Option SpTree) (s : PathState) : PathState :=
  { s with tree := s.tree.map (parsed parseVar) }

theorem takeOff_parsed (t : SpConfToken) (type : ElemType) (s : PathState) :
    takeOff w parseVar str t type (parsedState parseVar s) =
      (takeOff w unparsed str t type s).map (parsedState parseVar) := by
  unfold takeOff parsedState
  dsimp only
  rw [createVar_idx w _ _ _ (if s.posIdxStart > 0 then (parseVar _).getD .nil else .nil),
    createVar_idx w _ _ _ (if s.posIdxStart > 0 then (unparsed _).getD .nil else .nil)]
  cases createVar w (str.drop s.pos) _ type .nil with
  | none => rfl
  | some node =>
    simp only [Option.map_some, List.map_append, List.map_cons, List.map_nil]
    split_ifs <;> rfl

theorem quoteStep_parsed (t : SpConfToken) (s : PathState) : quoteStep t (parsedState parseVar s) =
    ((quoteStep t s).1, parsedState parseVar (quoteStep t s).2) := by
  unfold parsedState
  rw [quoteStep_withTree, quoteStep_tree]

theorem bracketStep_parsed (t : SpConfToken) (type : ElemType) (s : PathState) :
    bracketStep t type (parsedState parseVar s) =
      ((bracketStep t type s).1, parsedState parseVar (bracketStep t type s).2) := by
  unfold parsedState
  rw [bracketStep_withTree, (bracketStep_rest t type s).2.2]

/-- A turn of the loop does not depend on the indices. -/
theorem tokenStep_parsed (t : SpConfToken) (next : Option SpConfToken) (s : PathState) :
    tokenStep w parseVar str t next (parsedState parseVar s) =
      (tokenStep w unparsed str t next s).map (parsedState parseVar) := by
  rw [tokenStep_eq, tokenStep_eq, quoteStep_parsed, bracketStep_parsed, takeOff_parsed]
  dsimp only [parsedState]
  rw [apply_ite (Option.map _), apply_ite (Option.map _), apply_ite (Option.map _)]
  rfl

theorem tokenLoop_parsed (tokens : List SpConfToken) (s : PathState) :
    tokenLoop w parseVar str tokens (parsedState parseVar s) =
      (tokenLoop w unparsed str tokens s).map (parsedState parseVar) := by
  induction tokens generalizing s with
  | nil => rfl
  | cons t tokens ih =>
    rw [tokenLoop, tokenLoop, tokenStep_parsed]
    cases tokenStep w unparsed str t tokens.head? s with
    | none => rfl
    | some s' => exact ih s'

/-- The indices are parsed after all. -/
theorem parseTokens_parsed (tokens : List SpConfToken) : parseTokens w parseVar str tokens =
    (parseTokens w unparsed str tokens).map (List.map (parsed parseVar)) := by
  have hloop : tokenLoop w parseVar str tokens {} = (tokenLoop w unparsed str tokens {}).map (parsedState parseVar) :=
    tokenLoop_parsed tokens {}
  unfold parseTokens
  rw [hloop]
  cases tokenLoop w unparsed str tokens {} with
  | none => rfl
  | some s =>
    dsimp only [Option.map_some, parsedState]
    split_ifs
    · rfl
    · rfl
    · rfl
    · rw [createVar_idx]
      cases createVar w (str.drop s.pos) (sizeSub str.length s.pos) .constant .nil with
      | none => rfl
      | some node =>
        simp only [Option.map_some, List.map_append, List.map_cons, List.map_nil]
        rfl

end Level

/-- **The tree of a path**: its elements, with their indices parsed. -/
theorem spParseVar_parts (w : World) (s : ZendString) :
    spParseVar w s = treeOf ((parts w s).map (List.map (parsed (spParseVar w)))) := by
  rw [spParseVar_eq, parseTokens_parsed]
  rfl

/-- **A path is rejected for what is outside of its brackets only.** -/
theorem rejected_iff (w : World) (s : ZendString) : spParseVar w s = none ↔ parts w s = none := by
  rw [spParseVar_parts]
  rcases parts w s with - | (- | ⟨n, nodes⟩) <;> simp [treeOf]

/-! ### Which elements have an index -/

section Elements
variable {w : World} {str : ZendString} {t : SpConfToken} {next : Option SpConfToken} {s s' : PathState}

/-- An index only starts where a bracket is open, and an element with an index is one of an array. -/
structure Shaped (str : ZendString) (s : PathState) : Prop where
  count : 0 ≤ s.arrayCount
  inside : 0 < s.posIdxStart → 0 < s.arrayCount
  nodes : ∀ n ∈ s.tree, ∀ idx, indexText n = some idx → n.type = .array ∧ idx.length ≤ str.length - 1

/-- The element that is taken off, and its index. -/
theorem takeOff_spec {type : ElemType} (h : takeOff w unparsed str t type s = some s') :
    s'.arrayCount = s.arrayCount ∧ s'.posIdxStart = -1 ∧ ∃ n, s'.tree = s.tree ++ [n] ∧
      (n.type = .array ↔ type = .array) ∧ (indexText n = none ↔ s.posIdxStart ≤ 0) ∧
        ∀ idx, indexText n = some idx → idx.length ≤ str.length - 1 := by
  unfold takeOff at h
  obtain ⟨n, hn, rfl⟩ := Option.map_eq_some_iff.mp h
  refine ⟨rfl, rfl, n, rfl, ?_⟩
  obtain ⟨htype, hidx⟩ := createVar_type hn
  refine ⟨htype, ?_⟩
  unfold indexText
  rw [hidx]
  split_ifs with hpos
  · refine ⟨by simpa [unparsed] using hpos, fun idx h => ?_⟩
    obtain rfl := Option.some_inj.mp h
    rw [List.length_take, List.length_drop]
    omega
  · exact ⟨by simpa using hpos, nofun⟩

/-- Where no bracket is open any more, one has just been closed if an index has a start. -/
theorem bracketStep_shaped (hs : Shaped str s) (hv : isTokenValid t next s.quote s.arrayCount str s.pos = true)
    (hquote : (quoteStep t s).2.quote = .undefined) {b : ElemType × PathState}
    (hb : bracketStep t (quoteStep t s).1 (quoteStep t s).2 = b) :
    0 ≤ b.2.arrayCount ∧ b.2.tree = s.tree ∧ (0 < b.2.posIdxStart → 0 < b.2.arrayCount ∨ b.1 = .array) := by
  have hcount := hs.count
  obtain ⟨hqc, hqi, -⟩ := quoteStep_spec t s
  have htree : b.2.tree = s.tree := by
    rw [← hb, (bracketStep_rest t _ _).2.2]
    exact quoteStep_tree t s
  rcases bracketStep_spec t (quoteStep t s).1 (quoteStep t s).2 with
    ⟨-, hb1, hc, -⟩ | ⟨htype, hb1, hc, -⟩ | ⟨-, -, heq⟩
  · rw [hb] at hb1 hc
    exact ⟨by omega, htree, fun _ => Or.inr hb1⟩
  · rw [hb] at hb1 hc
    refine ⟨?_, htree, fun _ => Or.inr hb1⟩
    rcases quoteStep_type t s with ⟨heq, -, -⟩ | hstr
    · rw [heq] at htype hquote
      have hopen := arrayCount_of_valid hv htype hquote
      omega
    · rw [hstr] at htype
      simp at htype
  · rw [hb] at heq
    rw [heq] at htree ⊢
    dsimp only
    rw [hqc, hqi]
    exact ⟨hcount, htree, fun hpos => Or.inl (hs.inside hpos)⟩

/-- **One turn of the loop.** -/
theorem tokenStep_shaped (hs : Shaped str s) (h : tokenStep w unparsed str t next s = some s') :
    Shaped str s' := by
  rw [tokenStep_eq] at h
  split_ifs at h with hv hquote hcount
  · obtain rfl := Option.some_inj.mp h
    obtain ⟨hqc, hqi, -⟩ := quoteStep_spec t s
    refine ⟨by rw [hqc]; exact hs.count, by rw [hqc, hqi]; exact hs.inside, ?_⟩
    rw [quoteStep_tree]
    exact hs.nodes
  · obtain ⟨hc, htree, -⟩ := bracketStep_shaped hs (by simpa using hv) (not_not.mp hquote) rfl
    obtain rfl := Option.some_inj.mp h
    refine ⟨hc, fun _ => by omega, ?_⟩
    rw [htree]
    exact hs.nodes
  · obtain ⟨hc, htree, hin⟩ := bracketStep_shaped hs (by simpa using hv) (not_not.mp hquote) rfl
    obtain ⟨hc', hi', n, hn, htype, hidx, hlen⟩ := takeOff_spec h
    refine ⟨by omega, fun hpos => by omega, fun m hm idx hm' => ?_⟩
    rw [hn, htree] at hm
    rcases List.mem_append.mp hm with hm | hm
    · exact hs.nodes m hm idx hm'
    · obtain rfl := List.mem_singleton.mp hm
      refine ⟨htype.mpr ((hin ?_).resolve_left (by omega)), hlen idx hm'⟩
      by_contra hpos
      rw [hidx.mpr (not_lt.mp hpos)] at hm'
      exact absurd hm' nofun

theorem tokenLoop_shaped {tokens : List SpConfToken} (hs : Shaped str s)
    (h : tokenLoop w unparsed str tokens s = some s') : Shaped str s' := by
  induction tokens generalizing s with
  | nil =>
    obtain rfl := Option.some_inj.mp h
    exact hs
  | cons t tokens ih =>
    rw [tokenLoop] at h
    cases hstep : tokenStep w unparsed str t tokens.head? s with
    | none =>
      rw [hstep] at h
      simp at h
    | some s'' =>
      rw [hstep] at h
      exact ih (tokenStep_shaped hs hstep) h

/-- The elements of a path are those of the loop, and perhaps a last one. -/
theorem parts_cases {nodes : List VarNode} (h : parts w str = some nodes) :
    ∃ s, tokenLoop w unparsed str (sorted str) {} = some s ∧
      ∀ n ∈ nodes, n ∈ s.tree ∨ (n.type ≠ .array ∧ indexText n = none) := by
  unfold parts parseTokens at h
  cases hloop : tokenLoop w unparsed str (sorted str) {} with
  | none =>
    rw [hloop] at h
    simp at h
  | some s =>
    refine ⟨s, rfl, fun n hn => ?_⟩
    rw [hloop] at h
    dsimp only at h
    split_ifs at h
    · obtain rfl := Option.some_inj.mp h
      exact Or.inl hn
    · cases hlast : createVar w (str.drop s.pos) (sizeSub str.length s.pos) .constant .nil with
      | none =>
        rw [hlast] at h
        simp at h
      | some last =>
        rw [hlast] at h
        obtain rfl := Option.some_inj.mp h
        obtain ⟨htype, hidx⟩ := createVar_type hlast
        rcases List.mem_append.mp hn with hn | hn
        · exact Or.inl hn
        · obtain rfl := List.mem_singleton.mp hn
          refine Or.inr ⟨fun harray => ?_, by rw [indexText, hidx]⟩
          exact absurd (htype.mp harray) (by decide)

/-- **Only array elements have indices**, and they are shorter than the path. -/
theorem type_of_indexText {nodes : List VarNode} (h : parts w str = some nodes) {n : VarNode} (hn : n ∈ nodes)
    {idx : ZendString} (hidx : indexText n = some idx) : n.type = .array ∧ idx.length < str.length := by
  obtain ⟨s, hloop, hnodes⟩ := parts_cases h
  have hstart : Shaped str {} := ⟨le_rfl, fun h => absurd h (by decide), nofun⟩
  rcases hnodes n hn with hn | ⟨-, hno⟩
  · obtain ⟨htype, hlen⟩ := (tokenLoop_shaped hstart hloop).nodes n hn idx hidx
    refine ⟨htype, ?_⟩
    by_cases hstr : str = []
    · subst hstr
      obtain rfl := Option.some_inj.mp hloop
      exact absurd hn List.not_mem_nil
    · have hpos := List.length_pos_iff.mpr hstr
      omega
  · rw [hno] at hidx
    exact absurd hidx nofun

theorem tokenStep_filled {e : ℕ} (hlen : str.length ≤ 2 ^ 31) (hs : InBounds str e s) (ht : TokenAt str e t)
    (hnodes : ∀ n ∈ s.tree, n.type = .array → indexText n ≠ none)
    (h : tokenStep w unparsed str t next s = some s') : ∀ n ∈ s'.tree, n.type = .array → indexText n ≠ none := by
  rw [tokenStep_eq] at h
  split_ifs at h with hv hquote hcount
  · obtain rfl := Option.some_inj.mp h
    rw [quoteStep_tree]
    exact hnodes
  · obtain rfl := Option.some_inj.mp h
    rw [(bracketStep_rest t _ _).2.2, quoteStep_tree]
    exact hnodes
  · obtain ⟨-, -, n, hn, htype, hidx, -⟩ := takeOff_spec h
    obtain ⟨-, -, -, hout⟩ := bracketStep_safe hs ht (by simpa using hv) (not_not.mp hquote) rfl
    rw [(bracketStep_rest t _ _).2.2, quoteStep_tree] at hn
    intro m hm harray
    rw [hn] at hm
    rcases List.mem_append.mp hm with hm | hm
    · exact hnodes m hm harray
    · obtain rfl := List.mem_singleton.mp hm
      rcases hout (not_not.mp hcount) with ⟨hne, -⟩ | ⟨-, -, q, hq, hlo, hhi⟩
      · exact absurd (htype.mp harray) hne
      · have hle := ht.le
        have hend := ht.end_le
        have hpos := List.length_pos_iff.mpr (delimiter_ne_nil _ ht.mem)
        dsimp only at hpos
        rw [bmod_of_lt (by omega)] at hq
        rw [Ne, hidx, hq]
        omega

/-- In a text of `2 ^ 31` characters an index has a start. -/
theorem tokenLoop_filled (hlen : str.length ≤ 2 ^ 31) {tokens : List SpConfToken} {e : ℕ} (hs : InBounds str e s)
    (ht : ∀ t ∈ tokens, TokenAt str e t) (hord : tokens.Pairwise fun a b => a.pos + a.textRepr.length ≤ b.pos)
    (hnodes : ∀ n ∈ s.tree, n.type = .array → indexText n ≠ none)
    (h : tokenLoop w unparsed str tokens s = some s') : ∀ n ∈ s'.tree, n.type = .array → indexText n ≠ none := by
  have hp : ∀ idx : ZendString, idx.length < str.length →
      (fun idx => (.ok (unparsed idx) : Watched (Option SpTree))) idx = .ok (unparsed idx) := fun _ _ => rfl
  induction tokens generalizing e s with
  | nil =>
    obtain rfl := Option.some_inj.mp h
    exact hnodes
  | cons t tokens ih =>
    rw [List.forall_mem_cons] at ht
    obtain ⟨hafter, hord⟩ := List.pairwise_cons.mp hord
    rw [tokenLoop] at h
    cases hstep : tokenStep w unparsed str t tokens.head? s with
    | none =>
      rw [hstep] at h
      simp at h
    | some s'' =>
      rw [hstep] at h
      have hnext := (tokenStep_safe tokens.head? hs ht.1 hlen hp).2 s'' hstep
      refine ih hnext (fun u hu => ⟨(ht.2 u hu).mem, hafter u hu, (ht.2 u hu).end_le⟩) hord ?_ h
      exact tokenStep_filled hlen hs ht.1 hnodes hstep

/-- **In a text of at most `2 ^ 31` characters all of them do.** -/
theorem indexText_of_type (hlen : str.length ≤ 2 ^ 31) {nodes : List VarNode} (h : parts w str = some nodes)
    {n : VarNode} (hn : n ∈ nodes) (harray : n.type = .array) : indexText n ≠ none := by
  obtain ⟨s, hloop, hnodes⟩ := parts_cases h
  rcases hnodes n hn with hn | ⟨hno, -⟩
  · have hord := pairwise_scan str 0 0
    rw [← sorted_eq_scan hlen] at hord
    exact tokenLoop_filled hlen inBounds_start tokenAt_sorted hord nofun hloop n hn harray
  · exact absurd harray hno

end Elements

/-! ### The trees -/

/-- **Every array element of the tree of a path has an index.** -/
def Indexed (w : World) (s : ZendString) : Prop := ∀ tree, spParseVar w s = some tree → AllIndexed tree

theorem allIndexed_link (nodes : List VarNode) :
    AllIndexed (link nodes) ↔ ∀ n ∈ nodes, (n.type = .array → n.idx ≠ .nil) ∧ AllIndexed n.idx := by
  induction nodes with
  | nil => simp [link, AllIndexed]
  | cons n nodes ih => simp only [link, AllIndexed, ih, List.forall_mem_cons, and_assoc]

theorem allIndexed_treeOf {nodes : List VarNode} {tree : SpTree} (h : treeOf (some nodes) = some tree) :
    AllIndexed tree ↔ ∀ n ∈ nodes, (n.type = .array → n.idx ≠ .nil) ∧ AllIndexed n.idx := by
  cases nodes with
  | nil =>
    obtain rfl := Option.some_inj.mp h
    simp [AllIndexed]
  | cons n nodes =>
    obtain rfl := Option.some_inj.mp h
    exact allIndexed_link (n :: nodes)

/-- A tree is not empty. -/
theorem spParseVar_ne_nil (w : World) (s : ZendString) : spParseVar w s ≠ some .nil := by
  rw [spParseVar_eq]
  rcases parseTokens w (spParseVar w) s (sorted s) with - | (- | ⟨n, nodes⟩) <;> simp [treeOf, link]

section Indexed
variable {w : World}

theorem idx_parsed_ne_nil (n : VarNode) :
    (parsed (spParseVar w) n).idx ≠ .nil ↔ ∃ t, indexText n = some t ∧ spParseVar w t ≠ none := by
  unfold parsed
  cases htext : indexText n with
  | none => simp
  | some t =>
    have hnil := spParseVar_ne_nil w t
    cases htree : spParseVar w t with
    | none => simp [htree]
    | some tree =>
      rw [htree, Ne, Option.some_inj] at hnil
      simp [htree, hnil]

theorem allIndexed_idx_parsed (n : VarNode) :
    AllIndexed (parsed (spParseVar w) n).idx ↔ ∀ t, indexText n = some t → Indexed w t := by
  unfold parsed Indexed
  cases htext : indexText n with
  | none => simp [AllIndexed]
  | some t => cases htree : spParseVar w t <;> simp [htree, AllIndexed]

/-- One level of the tree. -/
theorem indexed_level (w : World) (s : ZendString) : Indexed w s ↔
    ∀ nodes, parts w s = some nodes → ∀ n ∈ nodes,
      (n.type = .array → ∃ t, indexText n = some t ∧ spParseVar w t ≠ none) ∧
        ∀ t, indexText n = some t → Indexed w t := by
  have htree := spParseVar_parts w s
  cases hparts : parts w s with
  | none =>
    rw [hparts] at htree
    refine ⟨fun _ nodes h => absurd h nofun, fun _ tree h => ?_⟩
    rw [htree] at h
    exact absurd h nofun
  | some nodes =>
    rw [hparts, Option.map_some] at htree
    have hlevel : Indexed w s ↔ ∀ n ∈ nodes, (n.type = .array → (parsed (spParseVar w) n).idx ≠ .nil) ∧
        AllIndexed (parsed (spParseVar w) n).idx := by
      obtain ⟨tree, h⟩ : ∃ tree, treeOf (some (nodes.map (parsed (spParseVar w)))) = some tree := by
        cases nodes with
        | nil => exact ⟨_, rfl⟩
        | cons n nodes => exact ⟨_, rfl⟩
      unfold Indexed
      rw [htree, h]
      simp only [Option.some_inj, forall_eq', allIndexed_treeOf h, List.forall_mem_map]
      rfl
    rw [hlevel]
    simp only [Option.some_inj, forall_eq', idx_parsed_ne_nil, allIndexed_idx_parsed]

/-- What is between brackets is indexed as well, and has been parsed. -/
theorem Indexed.index {s t : ZendString} (h : Indexed w s) (hidx : Index w s t) : parts w t ≠ none ∧ Indexed w t := by
  obtain ⟨nodes, hparts, n, hn, ht⟩ := hidx
  obtain ⟨hsome, hrest⟩ := (indexed_level w s).mp h nodes hparts n hn
  refine ⟨?_, hrest t ht⟩
  obtain ⟨t', ht', hne⟩ := hsome (type_of_indexText hparts hn ht).1
  obtain rfl := Option.some_inj.mp (ht.symm.trans ht')
  rwa [Ne, rejected_iff] at hne

/-- Every array element of one level has the text of an index. -/
def Filled (w : World) (s : ZendString) : Prop :=
  ∀ nodes, parts w s = some nodes → ∀ n ∈ nodes, n.type = .array → indexText n ≠ none

theorem Indexed.filled {s : ZendString} (h : Indexed w s) : Filled w s := by
  intro nodes hparts n hn harray
  obtain ⟨t, ht, -⟩ := ((indexed_level w s).mp h nodes hparts n hn).1 harray
  rw [ht]
  nofun

theorem Indexed.reaches {s t : ZendString} (h : Indexed w s) (ht : Relation.ReflTransGen (Index w) s t) :
    Indexed w t := by
  induction ht with
  | refl => exact h
  | tail _ hidx ih => exact (ih.index hidx).2

/-- An index is shorter than its path. -/
theorem indexed_of_parts {s : ZendString} (hwell : ∀ t, Relation.TransGen (Index w) s t → parts w t ≠ none)
    (hfilled : ∀ t, Relation.ReflTransGen (Index w) s t → Filled w t) : Indexed w s := by
  induction hlen : s.length using Nat.strong_induction_on generalizing s with
  | _ len ih =>
    subst hlen
    refine (indexed_level w s).mpr fun nodes hparts n hn => ⟨fun harray => ?_, fun t ht => ?_⟩
    · have hsome := hfilled s Relation.ReflTransGen.refl nodes hparts n hn harray
      obtain ⟨t, ht⟩ := Option.ne_none_iff_exists'.mp hsome
      refine ⟨t, ht, ?_⟩
      rw [Ne, rejected_iff]
      exact hwell t (Relation.TransGen.single ⟨nodes, hparts, n, hn, ht⟩)
    · have hidx : Index w s t := ⟨nodes, hparts, n, hn, ht⟩
      refine ih t.length (type_of_indexText hparts hn ht).2 ?_ ?_ rfl
      · exact fun u hu => hwell u (Relation.TransGen.head hidx hu)
      · exact fun u hu => hfilled u (Relation.ReflTransGen.head hidx hu)

/-- **Every array element has an index exactly if no text between brackets that the parser comes to is malformed
outside of its own brackets**; in a text of more than `2 ^ 31` characters the start of an index must be an `int`
in addition. -/
theorem indexed_iff (w : World) (s : ZendString) : Indexed w s ↔
    (∀ t, Relation.TransGen (Index w) s t → parts w t ≠ none) ∧
      ∀ t, Relation.ReflTransGen (Index w) s t → 2 ^ 31 < t.length → Filled w t := by
  constructor
  · intro h
    refine ⟨fun t ht => ?_, fun t ht _ => (h.reaches ht).filled⟩
    obtain ⟨u, hu, hidx⟩ := Relation.TransGen.tail'_iff.mp ht
    exact ((h.reaches hu).index hidx).1
  · rintro ⟨hwell, hlong⟩
    refine indexed_of_parts hwell fun t ht => ?_
    rcases Nat.lt_or_ge (2 ^ 31) t.length with h | h
    · exact hlong t ht h
    · exact fun nodes hparts n hn harray => indexText_of_type h hparts hn harray

end Indexed

/-! ### A negative index -/

/-- `$a[-1]` is an array element without an index: `-1` is no name. -/
theorem not_indexed_negative : spParseVar Path.nameWorld (zstr "-1") = none ∧
    spParseVar Path.nameWorld (zstr "$a[-1]") = some (.node .array (zstr "$a") .nil .nil) ∧
      ¬Indexed Path.nameWorld (zstr "$a[-1]") := by
  have htree : spParseVar Path.nameWorld (zstr "$a[-1]") = some (.node .array (zstr "$a") .nil .nil) := by decide +kernel
  refine ⟨by decide +kernel, htree, fun h => ?_⟩
  exact (h _ htree).1 rfl rfl

end Snuffleupagus.Config.PathIndex
