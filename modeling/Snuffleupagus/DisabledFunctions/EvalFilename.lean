import Snuffleupagus.DisabledFunctions.Dispatch
import Snuffleupagus.Php.Numeral

/-! # The file of evaluated code

PHP names evaluated code after the place of its `eval`: the name of the file there, the line, and a remark. Where
`eval` is nested, the remark is repeated. `get_eval_filename` cuts such a name at the second opening parenthesis from
the end, whatever is in front of it; these two are in the last remark (`getEvalFilename_evalName`).

So the path of the script is found if `eval` is not nested (`eval_filename_iff`). The offset of the scan is an `int`:
in a name of 2^31 bytes it does not start at the end. -/

namespace Snuffleupagus.DisabledFunctions.EvalFilename

open Snuffleupagus.Php.Bytes Snuffleupagus.Php.Numeral Snuffleupagus.Php.Engine
open Snuffleupagus.DisabledFunctions.Filter Snuffleupagus.DisabledFunctions.Dispatch

/-- The path of a script, as C has it. -/
def ScriptPath := { path : ZendString // ∀ c ∈ path, c ≠ 0 }

/-- What is between the two parentheses. -/
def callSite (line : ℕ) : ZendString := decimal line ++ zstr ") : eval"

/-- What PHP puts behind the name of the file an `eval` is in: `(line) : eval()'d code`. -/
def evalSuffix (line : ℕ) : ZendString := 40 :: (callSite line ++ 40 :: zstr ")'d code")

/-- The name of evaluated code, from the outermost `eval` to the innermost. -/
def evalName (path : ZendString) (lines : List ℕ) : ZendString := path ++ lines.flatMap evalSuffix

/-- The offset the scan starts at. -/
def scanStart (name : ZendString) : ℤ := (name.length : ℤ).bmod (2 ^ 32)

/-- **The scan starts in the first remark**, behind its second parenthesis. -/
def StartsInFirst (path : ZendString) (line : ℕ) (lines : List ℕ) : Prop :=
  (path.length + (callSite line).length + 1 : ℤ) ≤ scanStart (evalName path (line :: lines)) ∧
    (lines = [] ∨ scanStart (evalName path (line :: lines)) < path.length + (evalSuffix line).length)

/-! ### The loop -/

section Loop
variable {path rest name : ZendString} {count : ℕ}

/-- A name that is cut is cut in what the loop goes through. -/
theorem evalFilenameLoop_length (name : ZendString) : ∀ count k : ℕ,
    evalFilenameLoop name count k = name ∨ (evalFilenameLoop name count k).length < k
  | _, 0 => Or.inl rfl
  | count, k + 1 => by
    rw [evalFilenameLoop]
    split_ifs
    · exact Or.inr (Nat.lt_succ_of_le (List.length_take_le ..))
    · exact (evalFilenameLoop_length name _ k).imp_right Nat.lt_succ_of_lt
    · exact (evalFilenameLoop_length name _ k).imp_right Nat.lt_succ_of_lt

/-- A scan that ends in a path does not cut the name there. -/
theorem evalFilenameLoop_ne {k : ℕ} (hk : k ≤ path.length) : evalFilenameLoop (path ++ 40 :: rest) count k ≠ path := by
  intro h
  rcases evalFilenameLoop_length (path ++ 40 :: rest) count k with hcut | hcut
  · rw [h] at hcut
    have hlength := congrArg List.length hcut
    rw [List.length_append, List.length_cons] at hlength
    omega
  · rw [h] at hcut
    omega

/-- **Where the name is cut**: at a parenthesis that has one other behind it, in what the loop has gone through. -/
theorem evalFilenameLoop_eq : ∀ {m count : ℕ}, count ≤ 1 →
    (evalFilenameLoop (path ++ 40 :: rest) count (path.length + 1 + m) = path ↔
      (rest.take m).count 40 + count = 1) := by
  intro m
  induction m with
  | zero =>
    intro count hcount
    rw [Nat.add_zero, evalFilenameLoop, if_pos (by simp), List.take_zero, List.count_nil, Nat.zero_add]
    split_ifs with hc
    · simp [hc]
    · exact iff_of_false (evalFilenameLoop_ne le_rfl) hc
  | succ m ih =>
    intro count hcount
    have hat : (path ++ 40 :: rest)[path.length + 1 + m]? = rest[m]? := by
      rw [List.getElem?_append_right (by omega), show path.length + 1 + m - path.length = m + 1 by omega,
        List.getElem?_cons_succ]
    rw [← Nat.add_assoc, evalFilenameLoop, hat, List.take_add_one, List.count_append]
    by_cases hopen : rest[m]? = some 40
    · rw [if_pos hopen, hopen]
      have hm : m < rest.length := (List.getElem?_eq_some_iff.mp hopen).1
      split_ifs with hc
      · refine iff_of_false (fun h => ?_) (by simp only [Option.toList_some, List.count_singleton_self]; omega)
        -- the name is cut behind the path
        have hlength := congrArg List.length h
        rw [List.length_take, List.length_append, List.length_cons] at hlength
        omega
      · rw [ih (by omega), Option.toList_some, List.count_singleton_self]
        omega
    · have hother : rest[m]?.toList.count 40 = 0 := by
        cases hm : rest[m]? with
        | none => rfl
        | some c =>
          rw [hm] at hopen
          exact List.count_eq_zero.mpr fun h => hopen (by rw [List.mem_singleton.mp h])
      rw [if_neg hopen, ih hcount, hother, Nat.add_zero]

end Loop

/-! ### The names of PHP -/

section Names
variable {path : ZendString} {line : ℕ} {lines : List ℕ}

/-- What is behind the second parenthesis. -/
def remark : ZendString := zstr ")'d code"

theorem evalName_cons (path : ZendString) (line : ℕ) (lines : List ℕ) : evalName path (line :: lines) =
    path ++ 40 :: (callSite line ++ 40 :: (remark ++ lines.flatMap evalSuffix)) := by
  simp [evalName, evalSuffix, remark]

theorem evalName_append (path : ZendString) (lines : List ℕ) (line : ℕ) :
    evalName path (lines ++ [line]) = evalName (evalName path lines) [line] := by
  simp [evalName]

theorem length_evalSuffix (line : ℕ) : (evalSuffix line).length = (callSite line).length + remark.length + 2 := by
  simp [evalSuffix, remark]
  omega

theorem mem_callSite {c : UInt8} (hc : c ∈ callSite line) : c ≠ 40 ∧ c ≠ 0 := by
  rcases List.mem_append.mp hc with hc | hc
  · have hdigit := isDigit_decimal line c hc
    constructor
    · rintro rfl
      cases hdigit
    · rintro rfl
      cases hdigit
  · have hall : ∀ c ∈ zstr ") : eval", c ≠ 40 ∧ c ≠ 0 := by decide +kernel
    exact hall c hc

theorem mem_remark : ∀ c ∈ remark, c ≠ 40 ∧ c ≠ 0 := by decide +kernel

/-- The name of evaluated code has no NUL. -/
theorem cstr_evalName (hpath : ∀ c ∈ path, c ≠ 0) (lines : List ℕ) : cstr (evalName path lines) = evalName path lines := by
  refine cstr_eq_self fun c hc => ?_
  rw [evalName, List.mem_append, List.mem_flatMap] at hc
  rcases hc with hc | ⟨line, -, hc⟩
  · exact hpath c hc
  · rw [evalSuffix, List.mem_cons, List.mem_append, List.mem_cons] at hc
    rcases hc with rfl | hc | rfl | hc
    · decide
    · exact (mem_callSite hc).2
    · decide
    · exact (mem_remark c hc).2

/-- The parentheses in the beginning of a text, if the first one is behind `u`. -/
theorem count_take {u v : ZendString} (hu : ∀ c ∈ u, c ≠ 40) (m : ℕ) : ((u ++ 40 :: v).take m).count 40 =
    if m ≤ u.length then 0 else 1 + (v.take (m - u.length - 1)).count 40 := by
  have hnone : ∀ n, (u.take n).count 40 = 0 := fun n =>
    List.count_eq_zero.mpr fun h => hu _ (List.mem_of_mem_take h) rfl
  split_ifs with hm
  · rw [List.take_append_of_le_length hm, hnone]
  · obtain ⟨n, rfl⟩ : ∃ n, m = u.length + (n + 1) := ⟨m - u.length - 1, by omega⟩
    rw [List.take_append, List.count_append, hnone, Nat.add_sub_cancel_left, List.take_succ_cons,
      List.count_cons_self, Nat.add_sub_cancel]
    omega

/-- The remark has no parenthesis, but another remark begins with one. -/
theorem count_take_remark (lines : List ℕ) (m : ℕ) :
    ((remark ++ lines.flatMap evalSuffix).take m).count 40 = 0 ↔ lines = [] ∨ m ≤ remark.length := by
  cases lines with
  | nil =>
    refine iff_of_true (List.count_eq_zero.mpr fun h => ?_) (Or.inl rfl)
    rw [List.flatMap_nil, List.append_nil] at h
    exact (mem_remark _ (List.mem_of_mem_take h)).1 rfl
  | cons line lines =>
    rw [List.flatMap_cons, evalSuffix, List.cons_append, count_take fun c hc => (mem_remark c hc).1]
    split_ifs with hm
    · simp [hm]
    · simp [hm]

/-- **Which names are cut at the path.** -/
theorem getEvalFilename_eq (hpath : ∀ c ∈ path, c ≠ 0) :
    getEvalFilename (evalName path (line :: lines)) = path ↔ StartsInFirst path line lines := by
  have hsuffix := length_evalSuffix line
  unfold getEvalFilename StartsInFirst
  rw [cstr_evalName hpath]
  show evalFilenameLoop (evalName path (line :: lines)) 0 (scanStart (evalName path (line :: lines)) + 1).toNat = path ↔ _
  generalize scanStart (evalName path (line :: lines)) = start
  rw [evalName_cons]
  rcases lt_or_ge start (path.length : ℤ) with hstart | hstart
  · exact iff_of_false (evalFilenameLoop_ne (by omega)) fun h => by omega
  · obtain ⟨m, rfl⟩ : ∃ m : ℕ, start = path.length + m := ⟨(start - path.length).toNat, by omega⟩
    rw [show ((path.length + m : ℤ) + 1).toNat = path.length + 1 + m by omega, evalFilenameLoop_eq (Nat.zero_le _),
      count_take fun c hc => (mem_callSite hc).1]
    split_ifs with hm
    · exact iff_of_false nofun fun h => by omega
    · rw [Nat.add_zero, Nat.add_eq_left, count_take_remark]
      constructor
      · rintro h
        exact ⟨by omega, h.imp_right fun h => by omega⟩
      · rintro ⟨-, h⟩
        exact h.imp_right fun h => by omega

/-- In a name of fewer than 2^31 bytes the scan starts at the end. -/
theorem scanStart_eq {name : ZendString} (h : name.length < 2 ^ 31) : scanStart name = name.length :=
  Int.bmod_eq_of_le (by omega) (by omega)

/-- **One `eval` is taken off**, whatever the path and the other levels are. -/
theorem getEvalFilename_evalName (hpath : ∀ c ∈ path, c ≠ 0) (hlen : (evalName path (lines ++ [line])).length < 2 ^ 31) :
    getEvalFilename (evalName path (lines ++ [line])) = evalName path lines := by
  have hname : ∀ c ∈ evalName path lines, c ≠ 0 := fun c hc hzero => by
    rw [← cstr_evalName hpath lines] at hc
    simpa [hzero] using List.mem_takeWhile_imp hc
  rw [evalName_append] at hlen ⊢
  refine (getEvalFilename_eq hname).mpr ⟨?_, Or.inl rfl⟩
  rw [scanStart_eq hlen]
  simp only [evalName, evalSuffix, List.length_append, List.flatMap_cons, List.flatMap_nil, List.length_cons,
    List.length_nil]
  omega

end Names

/-! ### The file filters see -/

/-- The call in which the rules on `eval` are evaluated, as `evalMatching` makes it. -/
def evalCall (source : ZendString) (s : Stack) : Call := ⟨s, some ⟨source, some (zstr "code")⟩⟩

/-- **The path of the script is found**, exactly if the scan starts in the first remark: at the end of a name of fewer
than 2^31 bytes, if `eval` is not nested. Filters on the file see what is found. -/
theorem eval_filename_iff (path : ScriptPath) (line : ℕ) (lines : List ℕ) :
    (getEvalFilename (evalName path.1 (line :: lines)) = path.1 ↔ StartsInFirst path.1 line lines) ∧
    ((evalName path.1 (line :: lines)).length < 2 ^ 31 → (StartsInFirst path.1 line lines ↔ lines = [])) ∧
    ∀ source s, zendGetExecutedFilename s = evalName path.1 (line :: lines) →
      (callFilename (evalCall source s) (zstr "eval") = path.1 ↔ StartsInFirst path.1 line lines) := by
  have hcut : getEvalFilename (evalName path.1 (line :: lines)) = path.1 ↔ StartsInFirst path.1 line lines :=
    getEvalFilename_eq path.2
  refine ⟨hcut, fun hlen => ?_, fun source s hs => ?_⟩
  · unfold StartsInFirst
    rw [scanStart_eq hlen, evalName_cons]
    have hsuffix := length_evalSuffix line
    simp only [List.length_append, List.length_cons]
    constructor
    · rintro ⟨-, h | h⟩
      · exact h
      · omega
    · rintro rfl
      exact ⟨by omega, Or.inl rfl⟩
  · have hcall : callFilename (evalCall source s) (zstr "eval") = getEvalFilename (zendGetExecutedFilename s) :=
      if_pos ⟨rfl, rfl⟩
    rw [hcall, hs]
    exact hcut

/-- The code of an `eval` in the first line of `/a(b).php` is executed. -/
theorem eval_filename_plain : callFilename
    (evalCall (zstr "f();") [{ func := some { type := .eval, filename := evalName (zstr "/a(b).php") [1] } }])
    (zstr "eval") = zstr "/a(b).php" := by
  obtain ⟨-, hshort, hcall⟩ := eval_filename_iff ⟨zstr "/a(b).php", by decide +kernel⟩ 1 []
  exact (hcall (zstr "f();") _ rfl).mpr ((hshort (by decide +kernel)).mpr rfl)

/-- **An `eval` in the code of another** is taken for code of a file called `/a.php(1) : eval()'d code`. -/
theorem eval_filename_nested :
    getEvalFilename (evalName (zstr "/a.php") [1, 2]) = zstr "/a.php(1) : eval()'d code" ∧
    getEvalFilename (evalName (zstr "/a.php") [1, 2]) ≠ zstr "/a.php" := by decide +kernel

end Snuffleupagus.DisabledFunctions.EvalFilename
