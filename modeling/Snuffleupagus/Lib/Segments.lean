import Mathlib.Logic.Function.Basic
import Snuffleupagus.Lib.Backup

/-! # Texts in segments

A lexer that has registers for the parts of a token goes through these parts one after the other. The text read so far
is cut into segments, the last one first, and each segment names the registers that hold the position of its first
byte (`Parted`).

Which segments there are is given for every label, and for every mark. `keepsAt` follows every byte from every label: it
may belong to the last segment, begin another one, or show that what looked like other segments was still part of an
earlier one. `keeps_of_keepsAt` says that the registers of a lexer that passes are right at the end. -/

namespace Snuffleupagus.Lib.Segments

open Snuffleupagus.Lib.Backup

/-! ### Registers -/

section Registers
variable {T : Type} [DecidableEq T]

/-- What is written to the registers: the position, the contents of another one, or nothing at all. -/
inductive TagOp (T : Type)
  | data (t : T)
  | copy (t t' : T)
  | null (t : T)
  deriving DecidableEq

/-- What the registers hold: a position in the text, or nothing. -/
abbrev Tags (T : Type) := T → Option ℕ

/-- One write, at position `n`. -/
def TagOp.write : TagOp T → ℕ → Tags T → Tags T
  | .data t, n, r => Function.update r t (some n)
  | .copy t t', _, r => Function.update r t (r t')
  | .null t, _, r => Function.update r t none

/-- The writes of a jump, all with the same position. -/
def writes (ops : List (TagOp T)) (n : ℕ) (r : Tags T) : Tags T := ops.foldl (fun r o => o.write n r) r

/-- Of some registers with the same contents, those that still have it behind a write; a copy may be one more. -/
def TagOp.retag : TagOp T → List T → List T
  | .data t, l | .null t, l => l.filter fun t' => t' != t
  | .copy t t', l => if t' ∈ l then t :: l.filter fun t' => t' != t else l.filter fun t' => t' != t

/-- Of some registers that hold the position, those that hold it behind a write. -/
def TagOp.fresh : TagOp T → List T → List T
  | .data t, l => t :: l
  | op, l => op.retag l

/-- The registers that hold the position behind some writes. -/
def fresh (ops : List (TagOp T)) : List T := ops.foldl (fun l op => op.fresh l) []

variable {l : List T} {r : Tags T} {x : Option ℕ}

theorem update_filter (h : ∀ t ∈ l, r t = x) (t : T) (y : Option ℕ) :
    ∀ t' ∈ l.filter fun t' => t' != t, Function.update r t y t' = x := by
  intro t' ht'
  obtain ⟨hmem, hne⟩ := List.mem_filter.mp ht'
  rw [Function.update_of_ne (bne_iff_ne.mp hne)]
  exact h t' hmem

theorem write_retag (h : ∀ t ∈ l, r t = x) (op : TagOp T) (n : ℕ) : ∀ t ∈ op.retag l, op.write n r t = x := by
  cases op with
  | data t => exact update_filter h t _
  | null t => exact update_filter h t _
  | copy t t' =>
    dsimp only [TagOp.retag]
    split_ifs with hmem
    · refine List.forall_mem_cons.mpr ⟨?_, update_filter h t _⟩
      exact (Function.update_self ..).trans (h t' hmem)
    · exact update_filter h t _

theorem write_fresh {n : ℕ} (h : ∀ t ∈ l, r t = some n) (op : TagOp T) :
    ∀ t ∈ op.fresh l, op.write n r t = some n := by
  cases op with
  | data t =>
    refine List.forall_mem_cons.mpr ⟨Function.update_self .., fun t' ht' => ?_⟩
    by_cases heq : t' = t
    · rw [heq]
      exact Function.update_self ..
    · exact (Function.update_of_ne heq ..).trans (h t' ht')
  | copy t t' => exact write_retag h (.copy t t') n
  | null t => exact write_retag h (.null t) n

theorem writes_fresh (ops : List (TagOp T)) (n : ℕ) (r : Tags T) : ∀ t ∈ fresh ops, writes ops n r t = some n := by
  have hfold : ∀ (l : List T) (r : Tags T), (∀ t ∈ l, r t = some n) →
      ∀ t ∈ ops.foldl (fun l op => op.fresh l) l, writes ops n r t = some n := by
    induction ops with
    | nil => exact fun l r h => h
    | cons op ops ih => exact fun l r h => ih _ _ (write_fresh h op)
  exact hfold [] r (List.forall_mem_nil _)

end Registers

/-! ### Segments -/

/-- A segment: the registers that hold its position, the class of its first byte, and the class of the others, if it
may have more than one. -/
structure Segment (N T : Type) where
  tags : List T
  first : N
  rest : Option N

section Segments
variable {N T : Type} [DecidableEq T] (has : N → ℕ → Bool) (sub : N → N → Bool)

/-- Another byte of the segment. -/
def Segment.goesOn (g : Segment N T) (n : ℕ) : Bool := g.rest.any fun k => has k n

/-- The text consists of these segments, the last one first, and the registers are where they begin. -/
def Parted : List (Segment N T) → List UInt8 → Tags T → Prop
  | [], u, _ => u = []
  | g :: gs, u, r => ∃ v x s, u = v ++ x :: s ∧ Parted gs v r ∧ has g.first x.toNat = true ∧
      (∀ y ∈ s, g.goesOn has y.toNat = true) ∧ ∀ t ∈ g.tags, r t = some v.length

/-- The segments behind some writes. -/
def retags (ops : List (TagOp T)) (gs : List (Segment N T)) : List (Segment N T) :=
  ops.foldl (fun gs op => gs.map fun g => { g with tags := op.retag g.tags }) gs

/-- A segment says less than another one. -/
def Segment.le (g g' : Segment N T) : Bool :=
  sub g.first g'.first && g.rest.all (fun k => g'.rest.any (sub k)) && g'.tags.all (fun t => t ∈ g.tags)

/-- The second list of segments says less than the first. -/
def le : List (Segment N T) → List (Segment N T) → Bool
  | [], [] => true
  | g :: gs, g' :: gs' => g.le sub g' && le gs gs'
  | _, _ => false

/-- The bytes of a segment may belong to the one in front of it. -/
def Segment.takes (h g : Segment N T) : Bool :=
  h.rest.any (sub g.first) && g.rest.all (fun k => h.rest.any (sub k))

/-- The last segments may have been part of an earlier one: behind the segments `gs` there were those in `dropped`. -/
def absorbs (dropped : List (Segment N T)) : List (Segment N T) → List (List (Segment N T))
  | [] => if dropped.isEmpty then [[]] else []
  | h :: gs => (if dropped.all (h.takes sub) then [h :: gs] else []) ++ absorbs (h :: dropped) gs

/-- A byte behind the segments `gs`: it belongs to the last one, or it begins another one. -/
def okStep (n : ℕ) (new : List T) (gs : List (Segment N T)) : List (Segment N T) → Bool
  | [] => false
  | g' :: gs' => (gs.head?.any fun g => g.goesOn has n) && le sub gs (g' :: gs') ||
      has g'.first n && g'.tags.all (fun t => t ∈ new) && le sub gs gs'

/-- `sub` relates a class only to classes that have all its bytes. -/
def Included : Prop := ∀ k k', sub k k' = true → ∀ n, has k n = true → has k' n = true

variable {has sub} {gs gs' : List (Segment N T)} {u : List UInt8} {r : Tags T}

theorem parted_retags (ops : List (TagOp T)) (n : ℕ) : ∀ {gs : List (Segment N T)} {r : Tags T}, Parted has gs u r →
    Parted has (retags ops gs) u (writes ops n r) := by
  have hone (op : TagOp T) : ∀ {gs : List (Segment N T)} {u : List UInt8} {r : Tags T}, Parted has gs u r →
      Parted has (gs.map fun g => { g with tags := op.retag g.tags }) u (op.write n r) := by
    intro gs
    induction gs with
    | nil => exact fun h => h
    | cons g gs ih =>
      rintro u r ⟨v, x, s, rfl, hparted, hfirst, hrest, htags⟩
      exact ⟨v, x, s, rfl, ih hparted, hfirst, hrest, write_retag htags op n⟩
  induction ops with
  | nil => exact fun h => h
  | cons op ops ih => exact fun h => ih (hone op h)

omit [DecidableEq T] in
theorem goesOn_of_all (hsub : Included has sub) {g h : Segment N T}
    (hle : g.rest.all (fun k => h.rest.any (sub k)) = true) {n : ℕ} (hn : g.goesOn has n = true) :
    h.goesOn has n = true := by
  unfold Segment.goesOn at hn ⊢
  obtain ⟨k, hk, hn⟩ := (Option.any_eq_true _ _).mp hn
  obtain ⟨k', hk', hkk'⟩ := (Option.any_eq_true _ _).mp ((Option.all_eq_true _ _).mp hle k hk)
  exact (Option.any_eq_true _ _).mpr ⟨k', hk', hsub k k' hkk' n hn⟩

theorem parted_le (hsub : Included has sub) :
    ∀ {gs gs' : List (Segment N T)} {u : List UInt8}, Parted has gs u r → le sub gs gs' = true → Parted has gs' u r
  | [], [], _, h, _ => h
  | [], _ :: _, _, _, h | _ :: _, [], _, _, h => by cases h
  | g :: gs, g' :: gs', u, hparted, hle => by
    obtain ⟨hg, hgs⟩ := Bool.and_eq_true_iff.mp hle
    obtain ⟨hg, htag⟩ := Bool.and_eq_true_iff.mp hg
    obtain ⟨hfirst, hrest⟩ := Bool.and_eq_true_iff.mp hg
    obtain ⟨v, x, s, rfl, hv, hx, hs, ht⟩ := hparted
    refine ⟨v, x, s, rfl, parted_le hsub hv hgs, hsub _ _ hfirst _ hx, fun y hy => ?_, fun t hmem => ?_⟩
    · exact goesOn_of_all hsub hrest (hs y hy)
    · exact ht t (of_decide_eq_true (List.all_eq_true.mp htag t hmem))

omit [DecidableEq T] in
theorem parted_absorbs (hsub : Included has sub) {gs' : List (Segment N T)} : ∀ {gs dropped : List (Segment N T)}
    {v w : List UInt8}, Parted has gs v r →
      (∀ y ∈ w, ∃ g ∈ dropped, has g.first y.toNat = true ∨ g.goesOn has y.toNat = true) →
      gs' ∈ absorbs sub dropped gs → Parted has gs' (v ++ w) r
  | [], dropped, v, w, hv, hw, hmem => by
    unfold absorbs at hmem
    split_ifs at hmem with hdropped
    · cases List.isEmpty_iff.mp hdropped
      have hnil : w = [] := List.eq_nil_iff_forall_not_mem.mpr fun y hy => by
        obtain ⟨g, hg, -⟩ := hw y hy
        cases hg
      rw [hnil, List.append_nil]
      cases List.mem_singleton.mp hmem
      exact hv
    · cases hmem
  | h :: gs, dropped, v, w, hv, hw, hmem => by
    obtain ⟨v, x, s, rfl, hv, hx, hs, ht⟩ := hv
    unfold absorbs at hmem
    rcases List.mem_append.mp hmem with hmem | hmem
    · split_ifs at hmem with htakes
      · cases List.mem_singleton.mp hmem
        refine ⟨v, x, s ++ w, by simp, hv, hx, fun y hy => ?_, ht⟩
        rcases List.mem_append.mp hy with hy | hy
        · exact hs y hy
        · obtain ⟨g, hg, hbyte⟩ := hw y hy
          obtain ⟨hfirst, hrest⟩ := Bool.and_eq_true_iff.mp (List.all_eq_true.mp htakes g hg)
          rcases hbyte with hbyte | hbyte
          · obtain ⟨k, hk, hsubk⟩ := (Option.any_eq_true _ _).mp hfirst
            exact (Option.any_eq_true _ _).mpr ⟨k, hk, hsub _ _ hsubk _ hbyte⟩
          · exact goesOn_of_all hsub hrest hbyte
      · cases hmem
    · rw [List.append_assoc]
      refine parted_absorbs hsub hv (fun y hy => ?_) hmem
      rcases List.mem_append.mp hy with hy | hy
      · refine ⟨h, List.mem_cons_self, ?_⟩
        rcases List.mem_cons.mp hy with rfl | hy
        · exact .inl hx
        · exact .inr (hs y hy)
      · obtain ⟨g, hg, hbyte⟩ := hw y hy
        exact ⟨g, List.mem_cons_of_mem h hg, hbyte⟩

omit [DecidableEq T] in
theorem parted_goesOn {g : Segment N T} {c : UInt8} (h : Parted has (g :: gs) u r) (hc : g.goesOn has c.toNat = true) :
    Parted has (g :: gs) (u ++ [c]) r := by
  obtain ⟨v, x, s, rfl, hv, hx, hs, ht⟩ := h
  refine ⟨v, x, s ++ [c], by simp, hv, hx, fun y hy => ?_, ht⟩
  rcases List.mem_append.mp hy with hy | hy
  · exact hs y hy
  · cases List.mem_singleton.mp hy
    exact hc

theorem parted_okStep (hsub : Included has sub) {c : UInt8}
    {new : List T} (h : Parted has gs u r) (hnew : ∀ t ∈ new, r t = some u.length)
    (hok : okStep has sub c.toNat new gs gs' = true) : Parted has gs' (u ++ [c]) r := by
  cases gs' with
  | nil => cases hok
  | cons g' gs' =>
    rcases Bool.or_eq_true_iff.mp hok with hok | hok
    · obtain ⟨hon, hle⟩ := Bool.and_eq_true_iff.mp hok
      obtain ⟨g, hg, hc⟩ := (Option.any_eq_true _ _).mp hon
      obtain ⟨gs, rfl⟩ := List.head?_eq_some_iff.mp hg
      exact parted_le hsub (parted_goesOn h hc) hle
    · obtain ⟨hg, hle⟩ := Bool.and_eq_true_iff.mp hok
      obtain ⟨hfirst, htags⟩ := Bool.and_eq_true_iff.mp hg
      refine ⟨u, c, [], rfl, parted_le hsub h hle, hfirst, List.forall_mem_nil _, fun t ht => ?_⟩
      exact hnew t (of_decide_eq_true (List.all_eq_true.mp htags t ht))

end Segments

/-! ### The check -/

section Check
variable {Q A N T : Type} [DecidableEq T] (has : N → ℕ → Bool) (sub : N → N → Bool)

/-- What is known about the registers: the segments at a label, of which one list is right, the marks that may have
been set there, the segments at a mark, and those an action relies on, before some writes. -/
structure Plan (Q A N T : Type) where
  cuts : Q → List (List (Segment N T))
  marks : Q → List ℕ
  markCut : ℕ → List (Segment N T)
  final : A → Option (List (List (Segment N T) × List (TagOp T)))

variable (M : Machine UInt8 Q (TagOp T) A (Tags T)) (P : Plan Q A N T)

/-- An action, in front of its writes. -/
def okFinal (a : A) (gs : List (Segment N T)) (ops : List (TagOp T)) : Bool :=
  (P.final a).all fun l => l.any fun p => p.2 == ops && le sub gs p.1

/-- The writes leave the registers of these segments alone. -/
def avoids (gs : List (Segment N T)) (ops : List (TagOp T)) : Bool := le sub (retags ops gs) gs

/-- The check of one jump, behind the segments `cuts` and one of the marks `marks`. -/
def keepsJump (cuts : List (List (Segment N T))) (marks : List ℕ) (n : ℕ) : Jump Q (TagOp T) A → Bool
  | .goto q ops =>
    (cuts.all fun gs => (P.cuts q).any fun gs' =>
      (absorbs sub [] (retags ops gs)).any fun gs => okStep has sub n (fresh ops) gs gs') &&
    ((P.marks q).isEmpty || !marks.isEmpty && marks.all fun k => k ∈ P.marks q && avoids sub (P.markCut k) ops)
  | .act a ops => cuts.all fun gs => okFinal sub P a gs ops
  | .restore => !marks.isEmpty && marks.all fun k => okFinal sub P (M.marked k).1 (P.markCut k) (M.marked k).2

/-- The check of one label. -/
def keepsAt (q : Q) : Bool :=
  match M.block q with
  | .skip a ops => (P.cuts q).all fun gs => okFinal sub P a gs ops
  | .read none ops branch => ops.isEmpty && (List.range 256).all fun n =>
      keepsJump has sub M P (P.cuts q) (P.marks q) n (branch (UInt8.ofNat n))
  | .read (some k) ops branch =>
    ((P.cuts q).map (retags ops)).all (fun gs => le sub gs (P.markCut k)) && (List.range 256).all fun n =>
      keepsJump has sub M P ((P.cuts q).map (retags ops)) [k] n (branch (UInt8.ofNat n))

/-- What holds at a label: the text read so far has its segments, and where a mark is needed, the text at the mark
has those of the mark. -/
def Inv (q : Q) (u : List UInt8) (r : Tags T) (v : List UInt8) (k : ℕ) : Prop :=
  (∃ gs ∈ P.cuts q, Parted has gs u r) ∧ (P.marks q ≠ [] → k ∈ P.marks q ∧ Parted has (P.markCut k) v r)

/-- What an action can rely on. -/
def Good (a : A) (u : List UInt8) (r : Tags T) : Prop :=
  ∀ l, P.final a = some l → ∃ p ∈ l, ∃ r₀, Parted has p.1 u r₀ ∧ r = writes p.2 u.length r₀

variable {has sub M P}

theorem good_of_okFinal (hsub : Included has sub) {a : A} {gs : List (Segment N T)} {ops : List (TagOp T)}
    {u : List UInt8} {r : Tags T} (hok : okFinal sub P a gs ops = true) (h : Parted has gs u r) :
    Good has P a u (writes ops u.length r) := by
  intro l hl
  obtain ⟨p, hp, hgood⟩ := List.any_eq_true.mp ((Option.all_eq_true _ _).mp hok l hl)
  obtain ⟨hops, hle⟩ := Bool.and_eq_true_iff.mp hgood
  exact ⟨p, hp, r, parted_le hsub h hle, by rw [beq_iff_eq.mp hops]⟩

/-- The rule for one jump. -/
theorem leads_of_keepsJump (hsub : Included has sub) (hwrite : M.write = TagOp.write)
    {cuts : List (List (Segment N T))} {marks : List ℕ} {u v : List UInt8} {k : ℕ} {r : Tags T}
    (hu : ∃ gs ∈ cuts, Parted has gs u r) (hv : marks ≠ [] → k ∈ marks ∧ Parted has (P.markCut k) v r) {c : UInt8}
    {j : Jump Q (TagOp T) A} (hok : keepsJump has sub M P cuts marks c.toNat j = true) :
    Leads M (Inv has P) (Good has P) u v k r c j := by
  have hwrites (ops : List (TagOp T)) (n : ℕ) (r : Tags T) : M.writes ops n r = writes ops n r := by
    unfold Machine.writes writes
    rw [hwrite]
  obtain ⟨gs, hgs, hparted⟩ := hu
  have hne {l : List ℕ} (h : (!l.isEmpty) = true) : l ≠ [] := by
    rintro rfl
    cases h
  cases j with
  | goto q ops =>
    obtain ⟨hcut, hmark⟩ := Bool.and_eq_true_iff.mp hok
    obtain ⟨gs', hgs', hstep⟩ := List.any_eq_true.mp (List.all_eq_true.mp hcut gs hgs)
    obtain ⟨gs₁, hgs₁, hstep⟩ := List.any_eq_true.mp hstep
    have hback := parted_absorbs hsub (parted_retags ops u.length hparted) (List.forall_mem_nil _) hgs₁
    rw [List.append_nil] at hback
    refine ⟨⟨gs', hgs', ?_⟩, fun hneed => ?_⟩
    · rw [hwrites]
      exact parted_okStep hsub hback (writes_fresh ops u.length r) hstep
    · rcases Bool.or_eq_true_iff.mp hmark with hmark | hmark
      · exact absurd (List.isEmpty_iff.mp hmark) hneed
      · obtain ⟨hsome, hall⟩ := Bool.and_eq_true_iff.mp hmark
        obtain ⟨hk, hvk⟩ := hv (hne hsome)
        obtain ⟨hmem, havoids⟩ := Bool.and_eq_true_iff.mp (List.all_eq_true.mp hall k hk)
        rw [hwrites]
        exact ⟨of_decide_eq_true hmem, parted_le hsub (parted_retags ops u.length hvk) havoids⟩
  | act a ops =>
    show Good has P a u (M.writes ops u.length r)
    rw [hwrites]
    exact good_of_okFinal hsub (List.all_eq_true.mp hok gs hgs) hparted
  | restore =>
    obtain ⟨hsome, hall⟩ := Bool.and_eq_true_iff.mp hok
    obtain ⟨hk, hvk⟩ := hv (hne hsome)
    show Good has P (M.marked k).1 v (M.writes (M.marked k).2 v.length r)
    rw [hwrites]
    exact good_of_okFinal hsub (List.all_eq_true.mp hall k hk) hvk

/-- **The registers of a lexer that passes the check are right.** -/
theorem keeps_of_keepsAt (hsub : Included has sub) (hwrite : M.write = TagOp.write)
    (hok : ∀ q, keepsAt has sub M P q = true) : Keeps M (Inv has P) (Good has P) := by
  have hwrites (ops : List (TagOp T)) (n : ℕ) (r : Tags T) : M.writes ops n r = writes ops n r := by
    unfold Machine.writes writes
    rw [hwrite]
  have hbyte {cuts : List (List (Segment N T))} {marks : List ℕ} {branch : UInt8 → Jump Q (TagOp T) A}
      (h : ((List.range 256).all fun n => keepsJump has sub M P cuts marks n (branch (UInt8.ofNat n))) = true)
      (c : UInt8) : keepsJump has sub M P cuts marks c.toNat (branch c) = true := by
    have hc := List.all_eq_true.mp h c.toNat (List.mem_range.mpr c.toNat_lt)
    rwa [UInt8.ofNat_toNat] at hc
  constructor
  · rintro q a ops u r v k hb ⟨⟨gs, hgs, hparted⟩, -⟩
    have h := hok q
    unfold keepsAt at h
    rw [hb] at h
    rw [hwrites]
    exact good_of_okFinal hsub (List.all_eq_true.mp h gs hgs) hparted
  · rintro q ops branch u r v k hb ⟨hu, hv⟩ c
    have h := hok q
    unfold keepsAt at h
    rw [hb] at h
    obtain ⟨hops, hjump⟩ := Bool.and_eq_true_iff.mp h
    cases List.isEmpty_iff.mp hops
    exact leads_of_keepsJump hsub hwrite hu hv (hbyte hjump c)
  · rintro q k' ops branch u r v k hb ⟨⟨gs, hgs, hparted⟩, -⟩ c
    have h := hok q
    unfold keepsAt at h
    rw [hb] at h
    obtain ⟨hmark, hjump⟩ := Bool.and_eq_true_iff.mp h
    have hback := parted_retags ops u.length hparted
    have hmem : retags ops gs ∈ (P.cuts q).map (retags ops) := List.mem_map_of_mem hgs
    rw [hwrites]
    refine leads_of_keepsJump hsub hwrite ⟨_, hmem, hback⟩ (fun _ => ⟨List.mem_singleton_self k', ?_⟩) (hbyte hjump c)
    exact parted_le hsub hback (List.all_eq_true.mp hmark _ hmem)

/-- What the registers of a lexer that passes the check hold for its action. -/
theorem scan_good (hsub : Included has sub) (hwrite : M.write = TagOp.write) (hok : ∀ q, keepsAt has sub M P q = true)
    (hcut : [] ∈ P.cuts M.start) (hmarks : P.marks M.start = []) {s : List UInt8} {r r' : Tags T} {a : A} {n : ℕ}
    (hscan : M.scan s r = some (a, n, r')) : Good has P a (s.take n) r' :=
  scan_keeps (keeps_of_keepsAt hsub hwrite hok) (fun _ => ⟨⟨[], hcut, rfl⟩, fun h => absurd hmarks h⟩) hscan

end Check

end Snuffleupagus.Lib.Segments
