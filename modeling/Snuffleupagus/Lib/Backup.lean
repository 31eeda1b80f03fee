import Snuffleupagus.Lib.Lexer

/-! # Lexers with a backup position

A generated lexer goes from label to label, one character at a time. Where a token may end and a longer one may
follow it marks its position; where nothing can follow any more it goes back to the mark. On the way it writes
positions to registers, for the parts of the token.

`Simulates` relates the labels to what the expressions still ask for there, and `scan_eq` says that the lexer then
finds the longest token. `run_keeps` is the rule for what the registers hold: it is enough to look at one character
at a time. -/

namespace Snuffleupagus.Lib.Backup

open Snuffleupagus.Lib.Lexer Snuffleupagus.Lib.Derivative

/-- Where a character leads: to a label, to an action, or back to the mark. -/
inductive Jump (Q O A : Type)
  | goto (q : Q) (ops : List O)
  | act (a : A) (ops : List O)
  | restore

/-- What stands behind a label: a character is read, behind a mark or not, or an action follows at once. -/
inductive Block (α Q O A : Type)
  | read (mark : Option ℕ) (ops : List O) (branch : α → Jump Q O A)
  | skip (a : A) (ops : List O)

/-- A lexer: what is written to the registers, where it starts, its labels, and what it does back at a mark. -/
structure Machine (α Q O A R : Type) where
  write : O → ℕ → R → R
  start : Q
  block : Q → Block α Q O A
  marked : ℕ → A × List O

variable {α Q O A R τ : Type} (M : Machine α Q O A R)

/-- Some writes, all with the same position. -/
def Machine.writes (ops : List O) (n : ℕ) (r : R) : R := ops.foldl (fun r o => M.write o n r) r

/-- The lexer from a label on, behind `n` characters: the action, its position and the registers. The position at the
mark, and its number, are `mk`. Nothing if the input is overrun. -/
def Machine.run (q : Q) (n : ℕ) (s : List α) (mk : ℕ × ℕ) (r : R) : Option (A × ℕ × R) :=
  match M.block q with
  | .skip a ops => some (a, n, M.writes ops n r)
  | .read mark ops branch =>
    match s with
    | [] => none
    | c :: s =>
      let mk := mark.elim mk fun k => (n, k)
      let r := M.writes ops n r
      match branch c with
      | .goto q ops => Machine.run q (n + 1) s mk (M.writes ops n r)
      | .act a ops => some (a, n, M.writes ops n r)
      | .restore => some ((M.marked mk.2).1, mk.1, M.writes (M.marked mk.2).2 mk.1 r)

/-- The lexer at the head of the input. -/
def Machine.scan (s : List α) (r : R) : Option (A × ℕ × R) := M.run M.start 0 s (0, 0) r

/-! ### The longest token -/

/-- The expressions have no word. -/
def Dead (rules : Rules α τ) : Prop := ∀ s, munch rules s = .nothing

theorem here_of_current {rules : Rules α τ} {t : τ} (h : current rules = some t) : here rules = .token t 0 := by
  unfold here
  rw [h]

theorem here_of_none {rules : Rules α τ} (h : current rules = none) : here rules = .nothing := by
  unfold here
  rw [h]

theorem munch_of_not_live {rules : Rules α τ} (h : live rules = false) (s : List α) : munch rules s = here rules := by
  cases s with
  | nil => rw [munch, h, if_neg Bool.false_ne_true]
  | cons c s => rw [munch, h, if_neg Bool.false_ne_true]

theorem dead_of_not_live {rules : Rules α τ} (hlive : live rules = false) (hcur : current rules = none) :
    Dead rules := fun s => by rw [munch_of_not_live hlive, here_of_none hcur]

section Simulation
variable (name : A → τ) (Res : Q → Rules α τ → Prop) (needs : Q → Prop)

/-- What a jump on `c` has to be, where the expressions are `rules`. Back at the mark the lexer has to find the last
token: either it has just been marked, or there is none here and the mark is needed already. -/
def Follows (q : Q) (rules : Rules α τ) (mark : Option ℕ) (c : α) : Jump Q O A → Prop
  | .goto q' _ => (∃ rules', Res q' rules' ∧ ∀ s, munch (advance c rules) s = munch rules' s) ∧
      (needs q' → mark = none → needs q ∧ current rules = none)
  | .act a _ => Dead (advance c rules) ∧ current rules = some (name a)
  | .restore => Dead (advance c rules) ∧ (mark = none → needs q ∧ current rules = none)

/-- **The labels are where the expressions are**: `Res` relates them, and where the lexer `needs` the mark it may go
back to one that has been set before. -/
structure Simulates : Prop where
  skip : ∀ {q rules a ops}, Res q rules → M.block q = .skip a ops →
    live rules = false ∧ current rules = some (name a)
  live : ∀ {q rules mark ops branch}, Res q rules → M.block q = .read mark ops branch → live rules = true
  mark : ∀ {q rules k ops branch}, Res q rules → M.block q = .read (some k) ops branch →
    current rules = some (name (M.marked k).1)
  follows : ∀ {q rules mark ops branch}, Res q rules → M.block q = .read mark ops branch →
    ∀ c, Follows name Res needs q rules mark c (branch c)

variable {M name Res needs} {q : Q} {rules : Rules α τ}

/-- What the lexer should find, with this mark. -/
def expected (M : Machine α Q O A R) (name : A → τ) (n : ℕ) (mk : ℕ × ℕ) : Lexed τ → Option (τ × ℕ)
  | .overrun => none
  | .token t m => some (t, n + m)
  | .nothing => some (name (M.marked mk.2).1, mk.1)

/-- **From a label on, the lexer finds the longest token**, or goes back to the mark if there is none. -/
theorem run_eq (h : Simulates M name Res needs) (s : List α) : ∀ {q : Q} {rules : Rules α τ}, Res q rules →
    ∀ (n : ℕ) (mk : ℕ × ℕ) (r : R),
      (M.run q n s mk r).map (fun x => (name x.1, x.2.1)) = expected M name n mk (munch rules s) ∧
        (munch rules s = .nothing → needs q) := by
  induction s with
  | nil =>
    intro q rules hres n mk r
    unfold Machine.run
    cases hb : M.block q with
    | skip a ops =>
      obtain ⟨hlive, hcur⟩ := h.skip hres hb
      rw [munch_of_not_live hlive, here_of_current hcur]
      exact ⟨rfl, nofun⟩
    | read mark ops branch =>
      rw [munch, h.live hres hb, if_pos rfl]
      exact ⟨rfl, nofun⟩
  | cons c s ih =>
    intro q rules hres n mk r
    unfold Machine.run
    cases hb : M.block q with
    | skip a ops =>
      obtain ⟨hlive, hcur⟩ := h.skip hres hb
      rw [munch_of_not_live hlive, here_of_current hcur]
      exact ⟨rfl, nofun⟩
    | read mark ops branch =>
      have hfol := h.follows hres hb c
      rw [munch, h.live hres hb, if_pos rfl]
      -- where the lexer goes back, it finds what ends here, or the mark from before
      have hback (hneed : mark = none → needs q ∧ current rules = none) :
          some (name (M.marked (mark.elim mk fun k => (n, k)).2).1, (mark.elim mk fun k => (n, k)).1) =
              expected M name n mk (here rules) ∧ (here rules = .nothing → needs q) := by
        cases mark with
        | none =>
          obtain ⟨hq, hcur⟩ := hneed rfl
          rw [here_of_none hcur]
          exact ⟨rfl, fun _ => hq⟩
        | some k =>
          rw [here_of_current (h.mark hres hb)]
          exact ⟨rfl, nofun⟩
      cases hj : branch c with
      | goto q' ops' =>
        rw [hj] at hfol
        obtain ⟨⟨rules', hres', hsame⟩, hneed⟩ := hfol
        obtain ⟨hrun, hnothing⟩ := ih hres' (n + 1) (mark.elim mk fun k => (n, k))
          (M.writes ops' n (M.writes ops n r))
        dsimp only
        rw [hj]
        dsimp only
        rw [hrun, hsame]
        cases hm : munch rules' s with
        | overrun => exact ⟨rfl, nofun⟩
        | token t m =>
          refine ⟨?_, nofun⟩
          show some (t, n + 1 + m) = some (t, n + (m + 1))
          rw [Nat.add_assoc, Nat.add_comm 1 m]
        | nothing => exact hback (hneed (hnothing hm))
      | act a ops' =>
        rw [hj] at hfol
        obtain ⟨hdead, hcur⟩ := hfol
        dsimp only
        rw [hj, hdead, here_of_current hcur]
        exact ⟨rfl, nofun⟩
      | restore =>
        rw [hj] at hfol
        obtain ⟨hdead, hneed⟩ := hfol
        dsimp only
        rw [hj, hdead]
        exact hback hneed

/-- **The lexer finds the longest token**; where there is none, it has no right answer. -/
theorem scan_eq (h : Simulates M name Res needs) (hres : Res M.start rules) (hstart : ¬ needs M.start)
    (s : List α) (r : R) : (M.scan s r).map (fun x => (name x.1, x.2.1)) =
      match munch rules s with
      | .overrun => none
      | .token t n => some (t, n)
      | .nothing => none := by
  obtain ⟨hrun, hnothing⟩ := run_eq h s hres 0 (0, 0) r
  unfold Machine.scan
  rw [hrun]
  cases hm : munch rules s with
  | overrun => rfl
  | token t n => exact congrArg (fun k => some (t, k)) (Nat.zero_add n)
  | nothing => exact absurd (hnothing hm) hstart

end Simulation

/-! ### Registers -/

section Registers
variable (I : Q → List α → R → List α → ℕ → Prop) (Good : A → List α → R → Prop)

/-- What has to hold where a jump leads, behind the text `u` and with the text `v` at mark `k`. -/
def Leads (u v : List α) (k : ℕ) (r : R) (c : α) : Jump Q O A → Prop
  | .goto q ops => I q (u ++ [c]) (M.writes ops u.length r) v k
  | .act a ops => Good a u (M.writes ops u.length r)
  | .restore => Good (M.marked k).1 v (M.writes (M.marked k).2 v.length r)

/-- `I` is kept from label to label, and makes the registers `Good` for the action. -/
structure Keeps : Prop where
  skip : ∀ {q a ops u r v k}, M.block q = .skip a ops → I q u r v k → Good a u (M.writes ops u.length r)
  unmarked : ∀ {q ops branch u r v k}, M.block q = .read none ops branch → I q u r v k →
    ∀ c, Leads M I Good u v k (M.writes ops u.length r) c (branch c)
  marked : ∀ {q k' ops branch u r v k}, M.block q = .read (some k') ops branch → I q u r v k →
    ∀ c, Leads M I Good u u k' (M.writes ops u.length r) c (branch c)

variable {M I Good}

/-- **What one character keeps, the whole run keeps**: at the end the registers are good for the text read. -/
theorem run_keeps (h : Keeps M I Good) (s : List α) : ∀ {q : Q} {u v : List α} {k : ℕ} {r : R}, I q u r v k →
    v <+: u → ∀ {a : A} {n : ℕ} {r' : R}, M.run q u.length s (v.length, k) r = some (a, n, r') →
      Good a ((u ++ s).take n) r' := by
  have hend {u v s : List α} (hv : v <+: u) : (u ++ s).take v.length = v := by
    obtain ⟨x, rfl⟩ := hv
    rw [List.append_assoc, List.take_left]
  induction s with
  | nil =>
    intro q u v k r hI hv a n r' hrun
    unfold Machine.run at hrun
    cases hb : M.block q with
    | skip a' ops =>
      rw [hb] at hrun
      cases hrun
      rw [List.take_left]
      exact h.skip hb hI
    | read mark ops branch =>
      rw [hb] at hrun
      cases hrun
  | cons c s ih =>
    intro q u v k r hI hv a n r' hrun
    unfold Machine.run at hrun
    cases hb : M.block q with
    | skip a' ops =>
      rw [hb] at hrun
      cases hrun
      rw [List.take_left]
      exact h.skip hb hI
    | read mark ops branch =>
      rw [hb] at hrun
      dsimp only at hrun
      -- the text at the mark
      obtain ⟨v', k', hmk, hv', hleads⟩ : ∃ v' k', (mark.elim (v.length, k) fun k => (u.length, k)) =
          (v'.length, k') ∧ v' <+: u ∧ Leads M I Good u v' k' (M.writes ops u.length r) c (branch c) := by
        cases mark with
        | none => exact ⟨v, k, rfl, hv, h.unmarked hb hI c⟩
        | some k' => exact ⟨u, k', rfl, List.prefix_rfl, h.marked hb hI c⟩
      rw [hmk] at hrun
      cases hj : branch c with
      | goto q' ops' =>
        rw [hj] at hrun hleads
        have hlen : (u ++ [c]).length = u.length + 1 := List.length_append
        have hrest := ih hleads (hv'.trans (List.prefix_append u [c])) (hlen ▸ hrun)
        rwa [List.append_assoc] at hrest
      | act a' ops' =>
        rw [hj] at hrun hleads
        cases hrun
        rw [List.take_left]
        exact hleads
      | restore =>
        rw [hj] at hrun hleads
        cases hrun
        rw [hend hv']
        exact hleads

/-- What a scan leaves in the registers. -/
theorem scan_keeps (h : Keeps M I Good) (hstart : ∀ r, I M.start [] r [] 0) {s : List α} {r r' : R} {a : A} {n : ℕ}
    (hscan : M.scan s r = some (a, n, r')) : Good a (s.take n) r' :=
  run_keeps h s (hstart r) List.prefix_rfl hscan

end Registers

end Snuffleupagus.Lib.Backup
