import Snuffleupagus.Config.Rule

/-! # Call chains

A rule on `f1>f2>..>fn` is about a call of `fn` with `f1`, .., `f(n-1)` further out on the call stack.
The chain is kept innermost function first (`parse_functions_list` prepends), and
`is_functions_list_matching` walks the stack outwards and takes a function of the list off whenever
the frame has its name.

The walk ends at the first frame without a name, and finds out that the list is used up only when
there is one more frame to look at. So it sees the names `visible s` (`isFunctionsListMatching_iff_of_ne`), and not all
the names of the stack (`chain_matching_iff`). -/

namespace Snuffleupagus.Match.Chain

open Snuffleupagus.Php.Bytes Snuffleupagus.Php.Engine

/-- `get_complete_function_path`: the name of the function a frame runs, with its class. -/
def getCompleteFunctionPath (f : Frame) : Option ZendString :=
  match f.func with
  | none => none
  | some func =>
    match func.functionName with
    | none => none
    | some name =>
      match func.type, func.scope with
      | .eval, _ => some (cstr name)
      | _, some className => some (cstr className ++ zstr "::" ++ cstr name)
      | _, none => some (cstr name)

theorem cstr_of_path {f : Frame} {path : ZendString} (h : getCompleteFunctionPath f = some path) :
    cstr path = path := by
  have hcolon : ∀ a b : ZendString, cstr (cstr a ++ zstr "::" ++ cstr b) = cstr a ++ zstr "::" ++ cstr b := by
    refine fun a b => cstr_eq_self fun c hc h0 => ?_
    subst h0
    rw [List.mem_append, List.mem_append] at hc
    rcases hc with (hc | hc) | hc
    · simpa using List.mem_takeWhile_imp hc
    · exact absurd hc (by decide)
    · simpa using List.mem_takeWhile_imp hc
  unfold getCompleteFunctionPath at h
  cases hfunc : f.func with
  | none => rw [hfunc] at h; cases h
  | some func =>
    rw [hfunc] at h
    dsimp only at h
    cases hname : func.functionName with
    | none => rw [hname] at h; cases h
    | some name =>
      rw [hname] at h
      dsimp only at h
      split at h
      all_goals
        cases h
        first | exact cstr_cstr name | exact hcolon _ _

/-- The separator of a chain, `>`. -/
def chainSep : UInt8 := 62

/-- `parse_functions_list`: the names of the chain, the last one first. -/
def parseFunctionsList (value : ZendString) : List ZendString :=
  if chainSep ∈ cstr value then (strtok chainSep (cstr value)).reverse else []

/-- `is_functions_list_matching`, started at the first frame of the stack. -/
def isFunctionsListMatching : Stack → List ZendString → Bool
  | [], _ => false
  -- every function in the list matched
  | _ :: _, [] => true
  | f :: s, g :: l =>
    match getCompleteFunctionPath f with
    | none => false
    | some path => isFunctionsListMatching s (if g = path then l else g :: l)

theorem isFunctionsListMatching_cons {f : Frame} {path g : ZendString} {s : Stack}
    {l : List ZendString} (h : getCompleteFunctionPath f = some path) :
    isFunctionsListMatching (f :: s) (g :: l) =
      isFunctionsListMatching s (if g = path then l else g :: l) := by
  conv_lhs => unfold isFunctionsListMatching
  rw [h]

/-- The names on a stack, innermost first. -/
def names (s : Stack) : List ZendString := s.filterMap getCompleteFunctionPath

/-- The names the walk can take: those before the first frame without a name, without that of the
outermost frame of the stack. -/
def visible (s : Stack) : List ZendString :=
  names (s.dropLast.takeWhile fun f => (getCompleteFunctionPath f).isSome)

theorem visible_cons_some {f f' : Frame} {s : Stack} {path : ZendString}
    (h : getCompleteFunctionPath f = some path) :
    visible (f :: f' :: s) = path :: visible (f' :: s) := by
  unfold visible names
  rw [List.dropLast_cons_cons, List.takeWhile_cons_of_pos (by simp [h]), List.filterMap_cons_some h]

theorem visible_cons_none {f f' : Frame} {s : Stack} (h : getCompleteFunctionPath f = none) :
    visible (f :: f' :: s) = [] := by
  unfold visible names
  rw [List.dropLast_cons_cons, List.takeWhile_cons_of_neg (by simp [h])]
  rfl

theorem visible_sublist_names (s : Stack) : (visible s).Sublist (names s) :=
  ((List.takeWhile_sublist _).trans (List.dropLast_sublist s)).filterMap _

/-- One name of the walk: the list goes on with its tail if the head is met. -/
theorem cons_sublist_cons_ite {g path : ZendString} {l v : List ZendString} :
    (g :: l).Sublist (path :: v) ↔ (if g = path then l else g :: l).Sublist v := by
  split_ifs with h
  · rw [h, List.cons_sublist_cons]
  · refine ⟨fun hs => ?_, fun hs => hs.cons path⟩
    rcases List.cons_sublist_cons'.mp hs with hs | ⟨hg, -⟩
    · exact hs
    · exact absurd hg h

/-- **The walk takes the list off the visible names.** -/
theorem isFunctionsListMatching_iff_of_ne : ∀ {s : Stack} {l : List ZendString}, s ≠ [] →
    (isFunctionsListMatching s l = true ↔ l.Sublist (visible s))
  | [], _, h => absurd rfl h
  | _ :: _, [], _ => by simp [isFunctionsListMatching]
  | [f], g :: l, _ => by
    have hf : isFunctionsListMatching [f] (g :: l) = false := by
      unfold isFunctionsListMatching
      cases getCompleteFunctionPath f with
      | none => rfl
      | some path => unfold isFunctionsListMatching; rfl
    simp [hf, visible, names]
  | f :: f' :: s, g :: l, _ => by
    cases hp : getCompleteFunctionPath f with
    | none =>
      unfold isFunctionsListMatching
      simp [hp, visible_cons_none hp]
    | some path =>
      rw [isFunctionsListMatching_cons hp, visible_cons_some hp, cons_sublist_cons_ite]
      exact isFunctionsListMatching_iff_of_ne (List.cons_ne_nil _ _)

theorem isFunctionsListMatching_nil (l : List ZendString) : isFunctionsListMatching [] l = false := by
  unfold isFunctionsListMatching; rfl

theorem isFunctionsListMatching_iff {s : Stack} {l : List ZendString} (hl : l ≠ []) :
    isFunctionsListMatching s l = true ↔ l.Sublist (visible s) := by
  by_cases hs : s = []
  · subst hs
    simp [isFunctionsListMatching_nil, visible, names, hl]
  · exact isFunctionsListMatching_iff_of_ne hs

/-! ### The chain of a rule -/

/-- A name that can stand in a chain. -/
structure ChainName (f : ZendString) : Prop where
  ne_nil : f ≠ []
  sep : chainSep ∉ f
  nul : 0 ∉ f

/-- The argument `f1>f2>..>fn` of the rule. -/
def chainText (l : List ZendString) : ZendString := [chainSep].intercalate l

theorem mem_chainText {c : UInt8} : ∀ {l : List ZendString},
    c ∈ chainText l → c = chainSep ∨ ∃ f ∈ l, c ∈ f
  | [], h => by simp [chainText] at h
  | [f], h => by
    rw [chainText, List.intercalate_singleton] at h
    exact Or.inr ⟨f, List.mem_singleton_self f, h⟩
  | f :: f' :: l, h => by
    rw [chainText, List.intercalate_cons_cons, List.mem_append, List.mem_append] at h
    rcases h with (h | h) | h
    · exact Or.inr ⟨f, List.mem_cons_self, h⟩
    · exact Or.inl (List.mem_singleton.mp h)
    · rcases mem_chainText h with h | ⟨g, hg, h⟩
      · exact Or.inl h
      · exact Or.inr ⟨g, List.mem_cons_of_mem f hg, h⟩

theorem chainSep_mem_chainText {f f' : ZendString} {l : List ZendString} :
    chainSep ∈ chainText (f :: f' :: l) := by
  rw [chainText, List.intercalate_cons_cons]
  simp

theorem cstr_chainText {l : List ZendString} (h : ∀ f ∈ l, ChainName f) :
    cstr (chainText l) = chainText l := by
  refine cstr_eq_self fun c hc h0 => ?_
  subst h0
  rcases mem_chainText hc with h0 | ⟨f, hf, h0⟩
  · exact absurd h0 (by decide)
  · exact (h f hf).nul h0

/-- The list of a rule is its chain, innermost function first. -/
theorem parseFunctionsList_chainText {l : List ZendString} (h : ∀ f ∈ l, ChainName f)
    (hl : 2 ≤ l.length) : parseFunctionsList (chainText l) = l.reverse := by
  obtain ⟨f, f', t, rfl⟩ : ∃ f f' t, l = f :: f' :: t := by
    match l, hl with
    | f :: f' :: t, _ => exact ⟨f, f', t, rfl⟩
  unfold parseFunctionsList
  rw [cstr_chainText h, if_pos chainSep_mem_chainText]
  exact congrArg List.reverse (strtok_intercalate (List.cons_ne_nil _ _)
    (fun f hf => (h f hf).sep) fun f hf => (h f hf).ne_nil)

/-- **When a chain is matched as documented.** The rule is on `f1>..>fn`, with `outer` the names
`f1`, .., `f(n-1)`; the walk starts at a frame of `fn`. It finds the chain exactly when `f(n-1)`, ..,
`f1` occur in this order among the names further out, if and only if those that occur at all already
occur where the walk sees them: before the first frame without a name, with one more frame behind. -/
theorem chain_matching_iff {outer : List ZendString} {fn : ZendString} {f : Frame} {s : Stack}
    (hne : outer ≠ []) (hnames : ∀ g ∈ outer ++ [fn], ChainName g)
    (hf : getCompleteFunctionPath f = some fn) :
    (isFunctionsListMatching (f :: s) (parseFunctionsList (chainText (outer ++ [fn]))) = true ↔
      outer.reverse.Sublist (names s)) ↔
    (outer.reverse.Sublist (names s) → outer.reverse.Sublist (visible s)) := by
  have hlen : 2 ≤ (outer ++ [fn]).length := by
    have := List.length_pos_of_ne_nil hne
    rw [List.length_append, List.length_singleton]
    omega
  have hcode : isFunctionsListMatching (f :: s) (parseFunctionsList (chainText (outer ++ [fn]))) =
      isFunctionsListMatching s outer.reverse := by
    rw [parseFunctionsList_chainText hnames hlen, List.reverse_append]
    exact (isFunctionsListMatching_cons hf).trans (by rw [if_pos rfl]; rfl)
  rw [hcode, isFunctionsListMatching_iff (by simpa using hne)]
  exact ⟨fun h => h.mpr, fun h => ⟨fun hv => hv.trans (visible_sublist_names s), h⟩⟩

/-- A frame of a function without a class. -/
def functionFrame (name : String) : Frame where
  func := some { type := .user, functionName := some (zstr name) }

/-- A frame of the code of a script. -/
def scriptFrame : Frame where
  func := some { type := .user }

theorem chain_matching_iff_sample :
    (isFunctionsListMatching [functionFrame "b", functionFrame "a", scriptFrame]
      (parseFunctionsList (chainText ([zstr "a"] ++ [zstr "b"]))) = true ↔
      [zstr "a"].reverse.Sublist (names [functionFrame "a", scriptFrame])) ↔
    ([zstr "a"].reverse.Sublist (names [functionFrame "a", scriptFrame]) →
      [zstr "a"].reverse.Sublist (visible [functionFrame "a", scriptFrame])) :=
  chain_matching_iff (by decide)
    (by
      intro g hg
      simp only [List.singleton_append, List.mem_cons, List.not_mem_nil, or_false] at hg
      rcases hg with rfl | rfl <;> exact ⟨by decide, by decide, by decide⟩)
    (by rfl)

/-- `a()` includes a file that calls `b()`, and a callback `a()` run by the engine itself calls `b()`:
the rule on `a>b` misses both. -/
theorem chain_missed_samples :
    (¬ (isFunctionsListMatching [functionFrame "b", scriptFrame, functionFrame "a", scriptFrame]
        (parseFunctionsList (zstr "a>b")) = true ↔
      [zstr "a"].Sublist (names [scriptFrame, functionFrame "a", scriptFrame]))) ∧
    ¬ (isFunctionsListMatching [functionFrame "b", functionFrame "a"]
        (parseFunctionsList (zstr "a>b")) = true ↔
      [zstr "a"].Sublist (names [functionFrame "a"])) := by
  decide

end Snuffleupagus.Match.Chain
