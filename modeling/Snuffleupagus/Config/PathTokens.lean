import Snuffleupagus.Config.VarParser
import Mathlib.Data.List.Perm.Lattice
import Mathlib.Tactic.SplitIfs

/-! # The delimiters of a path in one pass

`sp_parse_var` looks for one delimiter after the other and sorts what it has found. As long as a difference
of two positions is an `int`, this is what a single pass over the text finds (`sorted_eq_scan`): no two
delimiters overlap, and at most one starts at a place. -/

namespace Snuffleupagus.Config.PathTokens

open Snuffleupagus.Php.Bytes Snuffleupagus.Php.Engine Snuffleupagus.Config.Rule
open Snuffleupagus.Config.VarParser

/-! ### Insertion sort -/

section Sorting
variable {α : Type} {lt lt' : α → α → Bool} {key : α → ℕ}

theorem perm_insertSorted (x : α) (l : List α) : (insertSorted lt x l).Perm (x :: l) := by
  induction l with
  | nil => exact List.Perm.refl _
  | cons y l ih =>
    unfold insertSorted
    split_ifs
    · exact List.Perm.refl _
    · exact (ih.cons y).trans (List.Perm.swap x y l)

theorem foldl_insertSorted_perm (l acc : List α) :
    (l.foldl (fun sorted x => insertSorted lt x sorted) acc).Perm (acc ++ l) := by
  induction l generalizing acc with
  | nil => simp
  | cons x l ih =>
    rw [List.foldl_cons]
    refine (ih _).trans ?_
    have hx : (insertSorted lt x acc ++ l).Perm (x :: acc ++ l) := (perm_insertSorted x acc).append_right l
    exact hx.trans List.perm_middle.symm

theorem perm_spListSort (l : List α) : (spListSort lt l).Perm l := foldl_insertSorted_perm l []

/-- Insertion in front of the first greater element keeps a list sorted. -/
theorem pairwise_insertSorted {R : α → α → Prop} (hlt : ∀ a b, lt a b = true → R a b)
    (hge : ∀ a b, lt a b = false → R b a) (htrans : ∀ a b c, R a b → R b c → R a c) (x : α) {l : List α}
    (h : l.Pairwise R) : (insertSorted lt x l).Pairwise R := by
  induction l with
  | nil => exact List.pairwise_singleton R x
  | cons y l ih =>
    obtain ⟨hy, hl⟩ := List.pairwise_cons.mp h
    unfold insertSorted
    split_ifs with hxy
    · refine List.pairwise_cons.mpr ⟨fun a ha => ?_, h⟩
      rcases List.mem_cons.mp ha with rfl | ha
      · exact hlt x a hxy
      · exact htrans x y a (hlt x y hxy) (hy a ha)
    · refine List.pairwise_cons.mpr ⟨fun a ha => ?_, ih hl⟩
      rcases List.mem_cons.mp ((perm_insertSorted x l).mem_iff.mp ha) with rfl | ha
      · exact hge a y (Bool.eq_false_iff.mpr hxy)
      · exact hy a ha

theorem foldl_insertSorted_pairwise {R : α → α → Prop} (hlt : ∀ a b, lt a b = true → R a b)
    (hge : ∀ a b, lt a b = false → R b a) (htrans : ∀ a b c, R a b → R b c → R a c) :
    ∀ {l acc : List α}, acc.Pairwise R → (l.foldl (fun sorted x => insertSorted lt x sorted) acc).Pairwise R
  | [], _, h => h
  | x :: l, _, h =>
    foldl_insertSorted_pairwise (l := l) hlt hge htrans (pairwise_insertSorted hlt hge htrans x h)

theorem pairwise_spListSort (hlt : ∀ a b, lt a b = true ↔ key a < key b) (l : List α) :
    (spListSort lt l).Pairwise fun a b => key a ≤ key b :=
  foldl_insertSorted_pairwise (fun a b h => ((hlt a b).mp h).le)
    (fun a b h => not_lt.mp fun hab => Bool.false_ne_true (h.symm.trans ((hlt a b).mpr hab)))
    (fun _ _ _ => le_trans) List.Pairwise.nil

/-- The elements that are there keep their order. -/
theorem sublist_insertSorted (x : α) : ∀ l : List α, l.Sublist (insertSorted lt x l)
  | [] => List.nil_sublist _
  | y :: l => by
    unfold insertSorted
    split_ifs
    · exact List.sublist_cons_self x _
    · exact (sublist_insertSorted x l).cons_cons y

theorem sublist_foldl_insertSorted : ∀ l acc : List α,
    acc.Sublist (l.foldl (fun sorted x => insertSorted lt x sorted) acc)
  | [], acc => List.Sublist.refl acc
  | x :: l, acc => (sublist_insertSorted x acc).trans (sublist_foldl_insertSorted l _)

theorem insertSorted_congr {x : α} {l : List α} (h : ∀ y ∈ l, lt x y = lt' x y) :
    insertSorted lt x l = insertSorted lt' x l := by
  induction l with
  | nil => rfl
  | cons y l ih =>
    rw [List.forall_mem_cons] at h
    unfold insertSorted
    rw [h.1, ih h.2]

/-- Two comparisons that agree on the elements of a list sort it alike. -/
theorem spListSort_congr {l : List α} (h : ∀ x ∈ l, ∀ y ∈ l, lt x y = lt' x y) :
    spListSort lt l = spListSort lt' l := by
  have hfold : ∀ (l' acc : List α), (∀ x ∈ l', x ∈ l) → (∀ x ∈ acc, x ∈ l) →
      l'.foldl (fun sorted x => insertSorted lt x sorted) acc =
        l'.foldl (fun sorted x => insertSorted lt' x sorted) acc := by
    intro l'
    induction l' with
    | nil => exact fun acc _ _ => rfl
    | cons x l' ih =>
      intro acc hl' hacc
      rw [List.forall_mem_cons] at hl'
      rw [List.foldl_cons, List.foldl_cons, insertSorted_congr fun y hy => h x hl'.1 y (hacc y hy)]
      refine ih _ hl'.2 fun y hy => ?_
      rcases List.mem_cons.mp ((perm_insertSorted x acc).mem_iff.mp hy) with rfl | hy
      · exact hl'.1
      · exact hacc y hy
  exact hfold l [] (fun x hx => hx) nofun

/-- A list is its parts, taken by the values of a function. -/
theorem perm_flatMap_filter {κ : Type} [DecidableEq κ] {f : α → κ} {ks : List κ} (hn : ks.Nodup) :
    ∀ {l : List α}, (∀ a ∈ l, f a ∈ ks) → (ks.flatMap fun k => l.filter fun a => f a = k).Perm l := by
  induction ks with
  | nil =>
    intro l h
    have hnil : l = [] := List.eq_nil_iff_forall_not_mem.mpr fun a ha => List.not_mem_nil (h a ha)
    simp [hnil]
  | cons k ks ih =>
    intro l h
    obtain ⟨hk, hn⟩ := List.nodup_cons.mp hn
    have hrest : ∀ a ∈ l.filter fun a => !decide (f a = k), f a ∈ ks := by
      intro a ha
      obtain ⟨ha, hne⟩ := List.mem_filter.mp ha
      exact (List.mem_cons.mp (h a ha)).resolve_left (by simpa using hne)
    have hsame : ∀ k' ∈ ks, (l.filter fun a => decide (f a = k')) =
        (l.filter fun a => !decide (f a = k)).filter fun a => decide (f a = k') := by
      intro k' hk'
      rw [List.filter_filter]
      refine List.filter_congr fun a _ => ?_
      by_cases ha : f a = k'
      · have hne : f a ≠ k := fun hak => hk (hak ▸ ha ▸ hk')
        simp [ha, ha ▸ hne]
      · simp [ha]
    have hflat : (ks.flatMap fun k' => l.filter fun a => decide (f a = k')) =
        ks.flatMap fun k' => (l.filter fun a => !decide (f a = k)).filter fun a => decide (f a = k') := by
      refine List.flatMap_congr fun k' hk' => hsame k' hk'
    rw [List.flatMap_cons, hflat]
    exact ((ih hn hrest).append_left _).trans (List.filter_append_perm _ l)

end Sorting

/-! ### One pass -/

/-- The delimiter at the head of a text. -/
def delimiterAt (s : ZendString) : Option (ElemType × ZendString) :=
  delimiterList.find? fun d => d.2.isPrefixOf s

/-- The delimiters of a text, those after `skip` characters of it. -/
def scan : ℕ → ℕ → ZendString → List SpConfToken
  | _, _, [] => []
  | pos, skip + 1, _ :: s => scan (pos + 1) skip s
  | pos, 0, c :: s =>
    match delimiterAt (c :: s) with
    | some d => ⟨d.1, d.2, pos⟩ :: scan (pos + 1) (d.2.length - 1) s
    | none => scan (pos + 1) 0 s

/-- A delimiter is not empty. -/
theorem delimiter_ne_nil : ∀ d ∈ delimiterList, d.2 ≠ [] := by decide

/-- Delimiters differ in their first characters, and in their types. -/
theorem delimiter_inj : ∀ d ∈ delimiterList, ∀ e ∈ delimiterList, (d.2.head? = e.2.head? ∨ d.1 = e.1) → d = e := by
  decide

/-- A delimiter has at most two characters, and the second one starts no other delimiter. -/
theorem delimiter_second : ∀ d ∈ delimiterList, ∀ e ∈ delimiterList, d ≠ e → e.2.length - 1 ≠ 0 →
    e.2.length - 1 = 1 ∧ d.2.head? ≠ e.2[1]? := by
  decide

theorem getElem?_of_isPrefixOf {t s : ZendString} (h : t.isPrefixOf s = true) {i : ℕ} (hi : i < t.length) :
    s[i]? = t[i]? := by
  obtain ⟨r, rfl⟩ := List.isPrefixOf_iff_prefix.mp h
  rw [List.getElem?_append_left hi]

/-- Only one delimiter starts at a place. -/
theorem eq_of_isPrefixOf {d e : ElemType × ZendString} (hd : d ∈ delimiterList) (he : e ∈ delimiterList)
    {s : ZendString} (hds : d.2.isPrefixOf s = true) (hes : e.2.isPrefixOf s = true) : d = e := by
  have hhead : ∀ d ∈ delimiterList, d.2.isPrefixOf s = true → d.2.head? = s[0]? := by
    intro d hd hds
    rw [List.head?_eq_getElem?]
    exact (getElem?_of_isPrefixOf hds (List.length_pos_iff.mpr (delimiter_ne_nil d hd))).symm
  refine delimiter_inj d hd e he (Or.inl ?_)
  rw [hhead d hd hds, hhead e he hes]

/-- In the second character of a delimiter no other one starts. -/
theorem not_isPrefixOf_of_ne {d e : ElemType × ZendString} (hd : d ∈ delimiterList) (he : e ∈ delimiterList)
    (hne : d ≠ e) {c : UInt8} {s : ZendString} (hes : e.2.isPrefixOf (c :: s) = true)
    (hlen : e.2.length - 1 ≠ 0) : e.2.length - 1 = 1 ∧ d.2.isPrefixOf s = false := by
  obtain ⟨hone, hsecond⟩ := delimiter_second d hd e he hne hlen
  refine ⟨hone, ?_⟩
  by_contra hds
  have hds : d.2.isPrefixOf s = true := by simpa using hds
  have hd0 := getElem?_of_isPrefixOf hds (List.length_pos_iff.mpr (delimiter_ne_nil d hd))
  have he1 := getElem?_of_isPrefixOf hes (show 1 < e.2.length by omega)
  rw [List.getElem?_cons_succ] at he1
  rw [List.head?_eq_getElem?, ← hd0, he1] at hsecond
  exact hsecond rfl

theorem isPrefixOf_of_delimiterAt {s : ZendString} {d : ElemType × ZendString} (h : delimiterAt s = some d) :
    d ∈ delimiterList ∧ d.2.isPrefixOf s = true := by
  unfold delimiterAt at h
  have hs := List.find?_some h
  exact ⟨List.mem_of_find?_eq_some h, hs⟩

theorem not_isPrefixOf_of_delimiterAt {s : ZendString} {d : ElemType × ZendString} (h : delimiterAt s = none)
    (hd : d ∈ delimiterList) : d.2.isPrefixOf s = false := by
  have hs : ¬ (fun d : ElemType × ZendString => d.2.isPrefixOf s) d = true := List.find?_eq_none.mp h d hd
  exact Bool.not_eq_true _ ▸ hs

/-- **The pass finds each delimiter where `parse_str_tokens` does.** -/
theorem filter_scan {d : ElemType × ZendString} (hd : d ∈ delimiterList) : ∀ (s : ZendString) (pos k k' : ℕ),
    (k' = k ∨ k = 1 ∧ k' = 0 ∧ d.2.isPrefixOf s = false) →
      ((scan pos k s).filter fun t => t.type = d.1) = parseStrTokens d.1 d.2 pos k' s
  | [], pos, k, k', _ => by simp [scan, parseStrTokens]
  | c :: s, pos, k + 1, k', hsync => by
    rcases hsync with rfl | ⟨hk, rfl, hno⟩
    · rw [scan, parseStrTokens]
      exact filter_scan hd s (pos + 1) k k (Or.inl rfl)
    · obtain rfl : k = 0 := by omega
      rw [scan, parseStrTokens, if_neg (by simp [hno])]
      exact filter_scan hd s (pos + 1) 0 0 (Or.inl rfl)
  | c :: s, pos, 0, k', hsync => by
    obtain rfl : k' = 0 := by omega
    rw [scan, parseStrTokens]
    cases hat : delimiterAt (c :: s) with
    | none =>
      have hno := not_isPrefixOf_of_delimiterAt hat hd
      rw [if_neg (by simp [hno])]
      exact filter_scan hd s (pos + 1) 0 0 (Or.inl rfl)
    | some e =>
      obtain ⟨he, hes⟩ := isPrefixOf_of_delimiterAt hat
      dsimp only
      by_cases hde : d = e
      · subst hde
        rw [if_pos hes, List.filter_cons_of_pos (by simp)]
        exact congrArg _ (filter_scan hd s (pos + 1) _ _ (Or.inl rfl))
      · have hno : d.2.isPrefixOf (c :: s) = false := by
          by_contra hds
          exact hde (eq_of_isPrefixOf hd he (by simpa using hds) hes)
        have htype : e.1 ≠ d.1 := fun h => hde (delimiter_inj d hd e he (Or.inr h.symm))
        rw [if_neg (by simp [hno]), List.filter_cons_of_neg (by simp [htype])]
        refine filter_scan hd s (pos + 1) _ 0 ?_
        by_cases hlen : e.2.length - 1 = 0
        · exact Or.inl hlen.symm
        · obtain ⟨hone, hnext⟩ := not_isPrefixOf_of_ne hd he hde hes hlen
          exact Or.inr ⟨hone, rfl, hnext⟩

/-- Where the delimiters are: behind what is skipped, and within the text. -/
theorem mem_scan : ∀ {s : ZendString} {pos k : ℕ} {t : SpConfToken}, t ∈ scan pos k s →
    (t.type, t.textRepr) ∈ delimiterList ∧ pos + k ≤ t.pos ∧ t.pos + t.textRepr.length ≤ pos + s.length
  | [], pos, k, t, h => by simp [scan] at h
  | c :: s, pos, k + 1, t, h => by
    rw [scan] at h
    obtain ⟨hmem, hlo, hhi⟩ := mem_scan h
    refine ⟨hmem, by omega, ?_⟩
    rw [List.length_cons]
    omega
  | c :: s, pos, 0, t, h => by
    rw [scan] at h
    rw [List.length_cons]
    cases hat : delimiterAt (c :: s) with
    | none =>
      rw [hat] at h
      obtain ⟨hmem, hlo, hhi⟩ := mem_scan h
      exact ⟨hmem, by omega, by omega⟩
    | some d =>
      rw [hat] at h
      obtain ⟨hd, hds⟩ := isPrefixOf_of_delimiterAt hat
      rcases List.mem_cons.mp h with rfl | h
      · have hlen := (List.isPrefixOf_iff_prefix.mp hds).length_le
        rw [List.length_cons] at hlen
        exact ⟨hd, le_rfl, by dsimp only; omega⟩
      · obtain ⟨hmem, hlo, hhi⟩ := mem_scan h
        exact ⟨hmem, by omega, by omega⟩

/-- **No two delimiters overlap.** -/
theorem pairwise_scan : ∀ (s : ZendString) (pos k : ℕ),
    (scan pos k s).Pairwise fun a b => a.pos + a.textRepr.length ≤ b.pos
  | [], pos, k => by simp [scan]
  | c :: s, pos, k + 1 => by
    rw [scan]
    exact pairwise_scan s (pos + 1) k
  | c :: s, pos, 0 => by
    rw [scan]
    cases hat : delimiterAt (c :: s) with
    | none => exact pairwise_scan s (pos + 1) 0
    | some d =>
      refine List.pairwise_cons.mpr ⟨fun b hb => ?_, pairwise_scan s (pos + 1) _⟩
      have hlo := (mem_scan hb).2.1
      have hpos := List.length_pos_iff.mpr (delimiter_ne_nil d (isPrefixOf_of_delimiterAt hat).1)
      dsimp only
      omega

theorem textRepr_length_pos {s : ZendString} {pos k : ℕ} {t : SpConfToken} (h : t ∈ scan pos k s) :
    0 < t.textRepr.length := List.length_pos_iff.mpr (delimiter_ne_nil _ (mem_scan h).1)

/-- They are found in the order of their places. -/
theorem sorted_scan (s : ZendString) (pos k : ℕ) : (scan pos k s).Pairwise fun a b => a.pos < b.pos := by
  refine (pairwise_scan s pos k).imp_of_mem fun {a b} ha _ hab => ?_
  have hpos := textRepr_length_pos ha
  omega

/-- The delimiters as `sp_parse_var` collects them. -/
def collected (line : ZendString) : List SpConfToken :=
  delimiterList.flatMap fun d => parseStrTokens d.1 d.2 0 0 line

/-- The delimiters as `sp_parse_var` sorts them. -/
def sorted (line : ZendString) : List SpConfToken :=
  spListSort (fun a b => cmpTokens a b < 0) (collected line)

/-- They are those of one pass, one kind after the other. -/
theorem collected_eq (line : ZendString) : collected line =
    (delimiterList.map Prod.fst).flatMap fun k => (scan 0 0 line).filter fun t => t.type = k := by
  unfold collected
  rw [List.flatMap_map]
  refine List.flatMap_congr fun d hd => ?_
  exact (filter_scan hd line 0 0 0 (Or.inl rfl)).symm

/-- **All delimiters are found.** -/
theorem collected_perm (line : ZendString) : (collected line).Perm (scan 0 0 line) := by
  rw [collected_eq]
  refine perm_flatMap_filter (by decide) fun t ht => ?_
  exact List.mem_map.mpr ⟨_, (mem_scan ht).1, rfl⟩

theorem mem_sorted {line : ZendString} {t : SpConfToken} : t ∈ sorted line ↔ t ∈ scan 0 0 line :=
  ((perm_spListSort _).trans (collected_perm line)).mem_iff

/-- Differences of positions in a text of `2 ^ 31` characters fit into an `int`. -/
theorem cmpTokens_eq {a b : SpConfToken} (ha : a.pos < 2 ^ 31) (hb : b.pos < 2 ^ 31) :
    cmpTokens a b = (a.pos : ℤ) - b.pos := by
  unfold cmpTokens
  rw [Int.bmod_eq_of_le] <;> omega

/-- **The sorted delimiters are those of one pass**, as long as positions fit into an `int`. -/
theorem sorted_eq_scan {line : ZendString} (hlen : line.length ≤ 2 ^ 31) : sorted line = scan 0 0 line := by
  have hpos : ∀ t ∈ collected line, t.pos < 2 ^ 31 := by
    intro t ht
    have ht := (collected_perm line).mem_iff.mp ht
    have hhi := (mem_scan ht).2.2
    have h0 := textRepr_length_pos ht
    omega
  have hcongr : sorted line = spListSort (fun a b => decide (a.pos < b.pos)) (collected line) := by
    refine spListSort_congr fun a ha b hb => ?_
    rw [cmpTokens_eq (hpos a ha) (hpos b hb)]
    exact decide_eq_decide.mpr (by omega)
  have hperm : (sorted line).Perm (scan 0 0 line) := (perm_spListSort _).trans (collected_perm line)
  have hle : (sorted line).Pairwise fun a b => a.pos ≤ b.pos := by
    rw [hcongr]
    exact pairwise_spListSort (fun a b => decide_eq_true_iff) _
  have hge : (scan 0 0 line).Pairwise fun a b => a.pos ≤ b.pos := (sorted_scan line 0 0).imp le_of_lt
  refine hperm.eq_of_pairwise (fun a b ha hb hab hba => ?_) hle hge
  -- two delimiters at the same place are the same
  have hnodup : ((scan 0 0 line).map SpConfToken.pos).Nodup :=
    List.pairwise_map.mpr ((sorted_scan line 0 0).imp ne_of_lt)
  exact List.inj_on_of_nodup_map hnodup (mem_sorted.mp ha) hb (le_antisymm hab hba)

/-! ### Text without delimiters -/

/-- No delimiter starts with the character. -/
def isPlain (c : UInt8) : Bool := delimiterList.all fun d => d.2.head? != some c

theorem delimiterAt_of_isPlain {c : UInt8} {s : ZendString} (h : isPlain c = true) : delimiterAt (c :: s) = none := by
  cases hat : delimiterAt (c :: s) with
  | none => rfl
  | some d =>
    obtain ⟨hd, hds⟩ := isPrefixOf_of_delimiterAt hat
    have hne := List.all_eq_true.mp h d hd
    have hhead := getElem?_of_isPrefixOf hds (List.length_pos_iff.mpr (delimiter_ne_nil d hd))
    rw [List.getElem?_cons_zero, ← List.head?_eq_getElem?] at hhead
    simp [← hhead] at hne

/-- The pass goes over plain characters. -/
theorem scan_plain {a : ZendString} (h : ∀ c ∈ a, isPlain c = true) (b : ZendString) (pos : ℕ) :
    scan pos 0 (a ++ b) = scan (pos + a.length) 0 b := by
  induction a generalizing pos with
  | nil => rfl
  | cons c a ih =>
    rw [List.forall_mem_cons] at h
    rw [List.cons_append, scan, delimiterAt_of_isPlain h.1]
    dsimp only
    rw [ih h.2, List.length_cons]
    congr 1
    omega

/-- At a delimiter the pass finds it, and goes on behind it. -/
theorem delimiterAt_append {d : ElemType × ZendString} (hd : d ∈ delimiterList) (s : ZendString) :
    delimiterAt (d.2 ++ s) = some d := by
  have hpre : d.2.isPrefixOf (d.2 ++ s) = true := List.isPrefixOf_iff_prefix.mpr (List.prefix_append _ _)
  cases hat : delimiterAt (d.2 ++ s) with
  | none =>
    have hno := not_isPrefixOf_of_delimiterAt hat hd
    simp [hpre] at hno
  | some e =>
    obtain ⟨he, hes⟩ := isPrefixOf_of_delimiterAt hat
    rw [eq_of_isPrefixOf he hd hes hpre]

theorem scan_skip (a b : ZendString) (pos : ℕ) : scan pos a.length (a ++ b) = scan (pos + a.length) 0 b := by
  induction a generalizing pos with
  | nil => rfl
  | cons c a ih =>
    rw [List.length_cons, List.cons_append, scan, ih]
    congr 1
    omega

theorem scan_delimiter {d : ElemType × ZendString} (hd : d ∈ delimiterList) (s : ZendString) (pos : ℕ) :
    scan pos 0 (d.2 ++ s) = ⟨d.1, d.2, pos⟩ :: scan (pos + d.2.length) 0 s := by
  have hat := delimiterAt_append hd s
  cases hrepr : d.2 with
  | nil => exact absurd hrepr (delimiter_ne_nil d hd)
  | cons c r =>
    rw [hrepr, List.cons_append] at hat
    rw [List.cons_append, scan, hat]
    dsimp only
    rw [hrepr, List.length_cons, Nat.add_sub_cancel, scan_skip]
    congr 2
    omega

/-! ### One turn of the loop -/

/-- The index of an element makes no difference to its other parts. -/
theorem createVar_idx (w : World) (value : ZendString) (len : ℕ) (type : ElemType) (idx : SpTree) :
    createVar w value len type idx =
      (createVar w value len type .nil).map fun node => { node with idx := idx } := by
  unfold createVar
  dsimp only
  split_ifs <;> rfl

theorem createVar_type {w : World} {value : ZendString} {len : ℕ} {type : ElemType} {idx : SpTree} {n : VarNode}
    (h : createVar w value len type idx = some n) : (n.type = .array ↔ type = .array) ∧ n.idx = idx := by
  unfold createVar at h
  dsimp only at h
  split_ifs at h with hvar hname hname
  · obtain rfl := Option.some_inj.mp h
    simp [hvar.2]
  · obtain rfl := Option.some_inj.mp h
    exact ⟨Iff.rfl, rfl⟩

/-- The element a delimiter ends, if no quote and no bracket is open. -/
def takeOff (w : World) (parseVar : ZendString → Option SpTree) (str : ZendString) (token : SpConfToken)
    (type : ElemType) (s : PathState) : Option PathState :=
  let valueLen := sizeSub token.pos s.pos
  let valueLen := if type = .array then sizeSub valueLen token.textRepr.length else valueLen
  let idxLen := sizeSub token.pos s.posIdxStart.toNat
  let idxText := (str.drop s.posIdxStart.toNat).take idxLen
  let valueLen := if s.posIdxStart > 0 then sizeSub valueLen idxLen else valueLen
  let idx := if s.posIdxStart > 0 then (parseVar idxText).getD .nil else .nil
  (createVar w (str.drop s.pos) valueLen type idx).map fun node =>
    { s with tree := s.tree ++ [node], pos := token.pos + token.textRepr.length, posIdxStart := -1 }

theorem tokenStep_eq (w : World) (parseVar : ZendString → Option SpTree) (str : ZendString) (t : SpConfToken)
    (next : Option SpConfToken) (s : PathState) : tokenStep w parseVar str t next s =
      if isTokenValid t next s.quote s.arrayCount str s.pos = false then none
      else if (quoteStep t s).2.quote ≠ .undefined then some (quoteStep t s).2
      else if (bracketStep t (quoteStep t s).1 (quoteStep t s).2).2.arrayCount ≠ 0 then
        some (bracketStep t (quoteStep t s).1 (quoteStep t s).2).2
      else takeOff w parseVar str t (bracketStep t (quoteStep t s).1 (quoteStep t s).2).1
        (bracketStep t (quoteStep t s).1 (quoteStep t s).2).2 := by
  unfold tokenStep takeOff
  simp only [Bool.not_eq_true']
  congr 3
  cases createVar w _ _ _ _ <;> rfl

/-- A quote leaves the brackets alone. It moves the position only where it opens outside of an index. -/
theorem quoteStep_spec (t : SpConfToken) (s : PathState) : (quoteStep t s).2.arrayCount = s.arrayCount ∧
    (quoteStep t s).2.posIdxStart = s.posIdxStart ∧
      ((quoteStep t s).2.pos = s.pos ∨ ((quoteStep t s).2.quote ≠ .undefined ∧ s.arrayCount = 0 ∧
        (quoteStep t s).2.pos = s.pos + t.textRepr.length)) := by
  unfold quoteStep
  by_cases hquote : t.type = .interpretedString ∨ t.type = .literalString
  · rw [if_pos hquote]
    refine ⟨rfl, rfl, ?_⟩
    dsimp only
    by_cases hopen : s.quote = .undefined ∧ s.arrayCount = 0
    · refine Or.inr ⟨?_, hopen.2, if_pos hopen⟩
      rw [if_pos hopen.1]
      rcases hquote with h | h <;> rw [h] <;> decide
    · exact Or.inl (if_neg hopen)
  · rw [if_neg hquote]
    exact ⟨rfl, rfl, Or.inl rfl⟩

theorem quoteStep_tree (t : SpConfToken) (s : PathState) : (quoteStep t s).2.tree = s.tree := by
  unfold quoteStep
  split_ifs <;> rfl

/-- The type a delimiter is handled as is its own, or that of a string. -/
theorem quoteStep_type (t : SpConfToken) (s : PathState) : (quoteStep t s = (t.type, s) ∧
    t.type ≠ .interpretedString ∧ t.type ≠ .literalString) ∨ (quoteStep t s).1 = .interpretedString := by
  unfold quoteStep
  by_cases hquote : t.type = .interpretedString ∨ t.type = .literalString
  · exact Or.inr (by rw [if_pos hquote])
  · rw [if_neg hquote]
    exact Or.inl ⟨rfl, fun h => hquote (Or.inl h), fun h => hquote (Or.inr h)⟩

/-- Only an open bracket is closed. -/
theorem arrayCount_of_valid {t : SpConfToken} {next : Option SpConfToken} {s : PathState} {str : ZendString}
    (hv : isTokenValid t next s.quote s.arrayCount str s.pos = true)
    (htype : t.type = .arrayEnd) (hquote : s.quote = .undefined) : 0 < s.arrayCount := by
  unfold isTokenValid at hv
  rw [htype] at hv
  dsimp only at hv
  rw [if_pos hquote] at hv
  split_ifs at hv with hcount
  omega

/-- Outside of quotes a delimiter counts as it is. -/
theorem bracketStep_spec (t : SpConfToken) (type : ElemType) (s : PathState) :
    (type = .array ∧ (bracketStep t type s).1 = .array ∧ (bracketStep t type s).2.arrayCount = s.arrayCount + 1 ∧
        (bracketStep t type s).2.posIdxStart = if s.arrayCount ≠ 0 then s.posIdxStart
          else ((t.pos + t.textRepr.length : ℕ) : ℤ).bmod (2 ^ 32)) ∨
      (type = .arrayEnd ∧ (bracketStep t type s).1 = .array ∧
        (bracketStep t type s).2.arrayCount = s.arrayCount - 1 ∧
        (bracketStep t type s).2.posIdxStart = s.posIdxStart) ∨
      (type ≠ .array ∧ type ≠ .arrayEnd ∧ bracketStep t type s = (type, s)) := by
  cases type <;> simp [bracketStep]

theorem bracketStep_rest (t : SpConfToken) (type : ElemType) (s : PathState) :
    (bracketStep t type s).2.pos = s.pos ∧ (bracketStep t type s).2.quote = s.quote ∧
      (bracketStep t type s).2.tree = s.tree := by
  cases type <;> exact ⟨rfl, rfl, rfl⟩

/-! The elements taken off so far make no difference to the rest of the state. -/

theorem quoteStep_withTree (t : SpConfToken) (s : PathState) (tree : List VarNode) :
    quoteStep t { s with tree := tree } = ((quoteStep t s).1, { (quoteStep t s).2 with tree := tree }) := by
  unfold quoteStep
  by_cases hquote : t.type = .interpretedString ∨ t.type = .literalString
  · rw [if_pos hquote, if_pos hquote]
  · rw [if_neg hquote, if_neg hquote]

theorem bracketStep_withTree (t : SpConfToken) (type : ElemType) (s : PathState) (tree : List VarNode) :
    bracketStep t type { s with tree := tree } =
      ((bracketStep t type s).1, { (bracketStep t type s).2 with tree := tree }) := by
  cases type <;> rfl

/-! ### The room for nested indices -/

section Fuel
variable {w : World} {parseVar parseVar' : ZendString → Option SpTree} {str : ZendString}

/-- An index is shorter than the text it stands in. -/
theorem length_idx_lt (hstr : str ≠ []) {n : ℤ} (hn : 0 < n) (len : ℕ) :
    ((str.drop n.toNat).take len).length < str.length := by
  have hpos := List.length_pos_iff.mpr hstr
  rw [List.length_take, List.length_drop]
  omega

theorem tokenStep_congr (h : ∀ idx, idx.length < str.length → parseVar idx = parseVar' idx) (hstr : str ≠ [])
    (token : SpConfToken) (next : Option SpConfToken) (s : PathState) :
    tokenStep w parseVar str token next s = tokenStep w parseVar' str token next s := by
  have hidx : ∀ (n : ℤ) (len : ℕ), (if n > 0 then (parseVar ((str.drop n.toNat).take len)).getD .nil else .nil) =
      if n > 0 then (parseVar' ((str.drop n.toNat).take len)).getD .nil else .nil := by
    intro n len
    split_ifs with hn
    · rw [h _ (length_idx_lt hstr hn len)]
    · rfl
  unfold tokenStep
  simp only [hidx]

theorem tokenLoop_congr (h : ∀ idx, idx.length < str.length → parseVar idx = parseVar' idx) (hstr : str ≠ []) :
    ∀ (tokens : List SpConfToken) (s : PathState),
      tokenLoop w parseVar str tokens s = tokenLoop w parseVar' str tokens s
  | [], s => rfl
  | token :: tokens, s => by
    rw [tokenLoop, tokenLoop, tokenStep_congr h hstr]
    cases tokenStep w parseVar' str token tokens.head? s with
    | none => rfl
    | some s' => exact tokenLoop_congr h hstr tokens s'

theorem parseTokens_congr (h : ∀ idx, idx.length < str.length → parseVar idx = parseVar' idx) :
    parseTokens w parseVar str (sorted str) = parseTokens w parseVar' str (sorted str) := by
  by_cases hstr : str = []
  · subst hstr
    rfl
  · unfold parseTokens
    rw [tokenLoop_congr h hstr]

/-- What `sp_parse_var` makes of the elements. -/
def treeOf : Option (List VarNode) → Option SpTree
  | none => none
  | some [] => some (.node .constant [] .nil .nil)
  | some nodes => some (link nodes)

theorem parseVarFuel_succ (w : World) (n : ℕ) (line : ZendString) : parseVarFuel w (n + 1) line =
    treeOf (parseTokens w (parseVarFuel w n) line (sorted line)) := by
  rw [parseVarFuel]
  unfold treeOf sorted collected
  rfl

/-- With room for the length of the text there is always enough. -/
theorem parseVarFuel_eq (w : World) : ∀ (n m : ℕ) (line : ZendString), line.length < n → line.length < m →
    parseVarFuel w n line = parseVarFuel w m line
  | 0, m, line, hn, _ => absurd hn (Nat.not_lt_zero _)
  | n + 1, 0, line, _, hm => absurd hm (Nat.not_lt_zero _)
  | n + 1, m + 1, line, hn, hm => by
    rw [parseVarFuel_succ, parseVarFuel_succ]
    congr 1
    exact parseTokens_congr fun idx hidx => parseVarFuel_eq w n m idx (by omega) (by omega)

/-- **`sp_parse_var` parses the indices with itself.** -/
theorem spParseVar_eq (w : World) (line : ZendString) :
    spParseVar w line = treeOf (parseTokens w (spParseVar w) line (sorted line)) := by
  unfold spParseVar
  rw [parseVarFuel_succ]
  congr 1
  exact parseTokens_congr fun idx hidx => parseVarFuel_eq w _ _ idx hidx (by omega)

end Fuel

end Snuffleupagus.Config.PathTokens
