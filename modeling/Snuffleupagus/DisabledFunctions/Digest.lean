import Snuffleupagus.Config.DisabledFunctions
import Snuffleupagus.DisabledFunctions.Evaluate

/-! # The digest of a file

A rule with a `hash` asks for the digest of the file being executed. It is computed for the first such rule
and kept for the others: whenever the loop over the rules comes to a rule, the buffer is empty or holds the
digest (`hashBuffer_of_turn`).

The length the comparison is bounded by is that of a digest, and not that of its hexadecimal form. So the
second half of the configured string is never looked at (`hash_filter_iff`). -/

namespace Snuffleupagus.DisabledFunctions.Digest

open Snuffleupagus.Lib.Effect Snuffleupagus.Php.Bytes Snuffleupagus.Php.Engine
open Snuffleupagus.Config.Rule Snuffleupagus.Config.Keyword Snuffleupagus.Config.DisabledFunctions
open Snuffleupagus.Log Snuffleupagus.DisabledFunctions.Filter Snuffleupagus.DisabledFunctions.Evaluate

/-! ### The turns of the loop -/

section Turn
variable {μ : Type} {matching : ZendString → SpDisabledFunction → Sp (ZendString × Option μ)}
  {log : SpDisabledFunction → μ → Sp Unit}

variable (matching log) in
/-- **The turn of a rule**: the loop comes to it, with this buffer. -/
inductive Turn : ZendString → List SpDisabledFunction → ZendString → SpDisabledFunction → Prop
  | head {h : ZendString} {r : SpDisabledFunction} {l : List SpDisabledFunction} : Turn h (r :: l) h r
  | skip {h h₁ h' : ZendString} {r r' : SpDisabledFunction} {l : List SpDisabledFunction}
      (hm : Yields (matching h r) (h₁, none)) (ht : Turn h₁ l h' r') : Turn h (r :: l) h' r'
  | logged {h h₁ h' : ZendString} {r r' : SpDisabledFunction} {l : List SpDisabledFunction} {m : μ}
      (hm : Yields (matching h r) (h₁, some m)) (hallow : r.allow = false) (hlog : Yields (log r m) ())
      (ht : Turn h₁ l h' r') : Turn h (r :: l) h' r'

/-- What every rule preserves of the buffer holds at each turn. -/
theorem Turn.invariant {I : ZendString → Prop}
    (step : ∀ h r h' m, I h → Yields (matching h r) (h', m) → I h') {h h' : ZendString}
    {l : List SpDisabledFunction} {r : SpDisabledFunction} (ht : Turn matching log h l h' r) (hh : I h) :
    I h' := by
  induction ht with
  | head => exact hh
  | skip hm _ ih => exact ih (step _ _ _ _ hh hm)
  | logged hm _ _ _ ih => exact ih (step _ _ _ _ hh hm)

variable {h h₁ h' : ZendString} {r r' : SpDisabledFunction} {l : List SpDisabledFunction} {m : μ}

/-- Behind a rule that does not match the next one has its turn. -/
theorem turn_skip_iff (hm : Yields (matching h r) (h₁, none)) :
    Turn matching log h (r :: l) h' r' ↔ (h' = h ∧ r' = r) ∨ Turn matching log h₁ l h' r' := by
  constructor
  · intro ht
    cases ht with
    | head => exact Or.inl ⟨rfl, rfl⟩
    | skip hm' ht =>
      cases hm.unique hm'
      exact Or.inr ht
    | logged hm' _ _ _ => cases hm.unique hm'
  · rintro (⟨rfl, rfl⟩ | ht)
    · exact .head
    · exact .skip hm ht

/-- Behind a rule that matches and does not end the request, too. -/
theorem turn_logged_iff (hm : Yields (matching h r) (h₁, some m)) (hallow : r.allow = false)
    (hlog : Yields (log r m) ()) :
    Turn matching log h (r :: l) h' r' ↔ (h' = h ∧ r' = r) ∨ Turn matching log h₁ l h' r' := by
  constructor
  · intro ht
    cases ht with
    | head => exact Or.inl ⟨rfl, rfl⟩
    | skip hm' _ => cases hm.unique hm'
    | logged hm' _ _ ht =>
      cases hm.unique hm'
      exact Or.inr ht
  · rintro (⟨rfl, rfl⟩ | ht)
    · exact .head
    · exact .logged hm hallow hlog ht

/-- A rule that matches and allows is the last one. -/
theorem turn_allow_iff (hm : Yields (matching h r) (h₁, some m)) (hallow : r.allow = true) :
    Turn matching log h (r :: l) h' r' ↔ h' = h ∧ r' = r := by
  constructor
  · intro ht
    cases ht with
    | head => exact ⟨rfl, rfl⟩
    | skip hm' _ => cases hm.unique hm'
    | logged _ hallow' _ _ =>
      rw [hallow] at hallow'
      cases hallow'
  · rintro ⟨rfl, rfl⟩
    exact .head

end Turn

/-- **An evaluation of a list of rules**, at the time of a call or of a return. -/
inductive Evaluation
  | ofCall (c : Call) (completeFunctionPath currentFilename : ZendString)
  | ofReturn (ret : Return) (completeFunctionPath : ZendString)

namespace Evaluation

/-- The file whose digest is asked for. -/
def file : Evaluation → ZendString
  | ofCall _ _ currentFilename => currentFilename
  | ofReturn ret _ => cstr (zendGetExecutedFilename ret.current)

/-- The evaluator comes to the rule, with this buffer. -/
def ComesTo (w : World) (g : SpGlobals) (config : List SpDisabledFunction) (h : ZendString)
    (r : SpDisabledFunction) : Evaluation → Prop
  | ofCall c path f => Turn (callMatching w g c path f)
      (fun r m => spLogDisable w g (loggedPath path r) m r) [] config h r
  | ofReturn ret path => Turn (retMatching w g ret path (cstr (zendGetExecutedFilename ret.current)))
      (fun r v => spLogDisableRet w g path v r) [] config h r

end Evaluation

variable {w : World} {g : SpGlobals} {e : Evaluation} {config : List SpDisabledFunction}
  {h hash d : ZendString} {r : SpDisabledFunction}

/-- **The buffer is empty or holds the digest**, at every turn. -/
theorem hashBuffer_of_turn (ht : e.ComesTo w g config h r) : HashBuffer w e.file h := by
  cases e with
  | ofCall c path f =>
    have hstep : ∀ h r h' m, HashBuffer w f h → Yields (callMatching w g c path f h r) (h', m) →
        HashBuffer w f h' := fun h r h' m hb hm => (answer_ruleMatching hb).2 h' m hm
    exact Turn.invariant hstep ht (Or.inl rfl)
  | ofReturn ret path =>
    have hstep : ∀ h r h' m, HashBuffer w (cstr (zendGetExecutedFilename ret.current)) h →
        Yields (retMatching w g ret path (cstr (zendGetExecutedFilename ret.current)) h r) (h', m) →
          HashBuffer w (cstr (zendGetExecutedFilename ret.current)) h' :=
      fun h r h' m hb hm => (answer_ruleMatching hb).2 h' m hm
    exact Turn.invariant hstep ht (Or.inl rfl)

/-! ### The comparison -/

variable (w g h r) in
/-- The filter of the rule on the digest of the file is satisfied. -/
def HashSatisfied (f : ZendString) : Prop := ∃ h', Yields (hashMatching w g f h r) (h', true)

theorem nibble_ne_zero : ∀ n < 16, nibble (zstr "0123456789abcdef") n ≠ 0 := by decide

/-- No digit of a digest is cut off. -/
theorem cstr_bin2hex (s : ZendString) : cstr (bin2hex s) = bin2hex s := by
  refine cstr_eq_self fun c hc => ?_
  obtain ⟨b, -, hc⟩ := List.mem_flatMap.mp hc
  have hb : b.toNat < 256 := b.toNat_lt
  have hhigh : nibble (zstr "0123456789abcdef") (b.toNat / 16) ≠ 0 := nibble_ne_zero _ (by omega)
  have hlow : nibble (zstr "0123456789abcdef") (b.toNat % 16) ≠ 0 := nibble_ne_zero _ (by omega)
  simp only [List.mem_cons, List.not_mem_nil, or_false] at hc
  rcases hc with rfl | rfl
  · exact hhigh
  · exact hlow

/-- **The first `SHA256_SIZE` digits decide.** -/
theorem hashSatisfied_iff {f : ZendString} (hb : HashBuffer w f h) (hr : r.hash = some hash)
    (hfile : w.fileSha256 f = some d) (hd : cstr d = d) :
    HashSatisfied w g h r f ↔ d.take sha256Size = (cstr hash).take sha256Size := by
  have hbuffer : (if h.headD 0 = 0 then (computeHash w g f h).out else .ok h) = .ok d := by
    have hc : (computeHash w g f h).out = .ok d := by
      unfold computeHash
      rw [hfile]
      rfl
    rcases hb with h0 | hs
    · rw [if_pos h0, hc]
    · rw [hfile] at hs
      cases hs
      rw [hc, ite_self]
  unfold HashSatisfied Yields
  rw [out_hashMatching_some hr, hbuffer, ok_bind, hd]
  constructor
  · rintro ⟨h', heq⟩
    have hp := Prod.mk.inj (Except.ok.inj heq)
    exact eq_of_beq hp.2
  · intro heq
    exact ⟨d, by rw [heq, BEq.rfl]⟩

variable (w g h r) in
/-- **What `hash` should compare**: the configured string with the digest in full. -/
def ComparesDigest (f hash d : ZendString) : Prop := HashSatisfied w g h r f ↔ hash = bin2hex d

/-- **The digest is compared right**, at every turn of both evaluators, exactly if it is not another one
with the same first `SHA256_SIZE` digits as the configured string. -/
theorem hash_filter_iff (ht : e.ComesTo w g config h r) (hr : r.hash = some hash)
    (hfile : w.fileSha256 e.file = some (bin2hex d)) :
    ComparesDigest w g h r e.file hash d ↔
      ((bin2hex d).take sha256Size = (cstr hash).take sha256Size → hash = bin2hex d) := by
  unfold ComparesDigest
  rw [hashSatisfied_iff (hashBuffer_of_turn ht) hr hfile (cstr_bin2hex d)]
  refine ⟨Iff.mp, fun h => ⟨h, ?_⟩⟩
  rintro rfl
  rw [cstr_bin2hex]

/-- A digest of 32 bytes, the second half of which is given. -/
def sampleDigest (c : UInt8) : ZendString := List.replicate 16 0 ++ List.replicate 16 c

/-- Two files whose digests differ in their second half. -/
def sampleWorld : World :=
  { World.empty 80000 with
    fileSha256 := fun f => some (bin2hex (sampleDigest (if f = zstr "/a.php" then 0 else 1))) }

/-- `sp.disable_function.function("f").hash("00...00").allow();` -/
def sampleKeywords : List SpParsedKeyword :=
  [{ kw := zstr "function", arg := some (zstr "f"), argtype := .str },
    { kw := zstr "hash", arg := some (bin2hex (sampleDigest 0)), argtype := .str },
    { kw := zstr "allow", argtype := .empty }]

/-- The rule it gives. -/
def sampleRule : SpDisabledFunction where
  textualRepresentation := spGetTextualRepresentation ({ kw := zstr "disable_function" } :: sampleKeywords)
  function := some (zstr "f")
  hash := some (bin2hex (sampleDigest 0))
  allow := true

/-- A call of `f` in a file. -/
def sampleEvaluation (f : String) : Evaluation := .ofCall ⟨[], none⟩ (zstr "f") (zstr f)

theorem hash_filter_same : ComparesDigest sampleWorld {} [] sampleRule (zstr "/a.php") (bin2hex (sampleDigest 0))
    (sampleDigest 0) := by
  have hturn : (sampleEvaluation "/a.php").ComesTo sampleWorld {} [sampleRule] [] sampleRule := .head
  exact (hash_filter_iff hturn rfl rfl).mpr fun _ => rfl

/-- The rule allows `f` in two files with different digests. -/
theorem hash_filter_half : Accepted (World.empty 80000) sampleRule ∧ sampleDigest 0 ≠ sampleDigest 1 ∧
    (∀ f ∈ ["/a.php", "/b.php"], (sampleEvaluation f).ComesTo sampleWorld {} [sampleRule] [] sampleRule ∧
      HashSatisfied sampleWorld {} [] sampleRule (zstr f)) ∧
        ¬ ComparesDigest sampleWorld {} [] sampleRule (zstr "/b.php") (bin2hex (sampleDigest 0))
          (sampleDigest 1) := by
  have hb : HashSatisfied sampleWorld {} [] sampleRule (zstr "/b.php") := ⟨_, rfl⟩
  refine ⟨⟨{ kw := zstr "disable_function" }, sampleKeywords, rfl⟩, by decide, ?_, fun h => ?_⟩
  · intro f hf
    simp only [List.mem_cons, List.not_mem_nil, or_false] at hf
    rcases hf with rfl | rfl
    · exact ⟨.head, _, rfl⟩
    · exact ⟨.head, hb⟩
  · exact absurd (h.mp hb) (by decide)

end Snuffleupagus.DisabledFunctions.Digest
