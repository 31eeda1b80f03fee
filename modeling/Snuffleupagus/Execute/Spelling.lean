import Snuffleupagus.Execute.Include

/-! # Two spellings of a path

A file can be included by its path `p`, or as `file://p`. `sp_stream_open_checks` moves its pointer behind the scheme,
and then leaves out the check the pointer is moved for. So the two spellings come to the same end exactly if the check
of `p` has nothing to report (`spelling_iff`): it is off, `p` has a scheme itself, or what `terminate_if_writable` asks
of the file system is granted (`Immutable`). -/

namespace Snuffleupagus.Execute.Spelling

open Snuffleupagus.Lib.Effect Snuffleupagus.Lib.Table Snuffleupagus.Php.Bytes Snuffleupagus.Php.Engine
open Snuffleupagus.Config.Rule Snuffleupagus.Log Snuffleupagus.Execute.Handler Snuffleupagus.Execute.Include

variable (w : World) (g : SpGlobals)

/-- `file://p`. -/
def fileUrl (p : ZendString) : ZendString := zstr "file://" ++ p

/-- `access` denies writing. -/
def Denied (filename : ZendString) : Prop := ∃ errno, w.accessW filename = .error errno ∧ isDenied errno = true

/-- `stat` finds another owner. -/
def Foreign (filename : ZendString) : Prop := ∃ uid, w.statUid filename = .ok uid ∧ uid ≠ w.geteuid

/-- **The process cannot change the file**: it may not write to it and, as far as the extended checks ask, neither
owns it nor may write to its directory or owns that. -/
def Immutable (filename : ZendString) : Prop :=
  Denied w filename ∧ (g.readonlyExec.extendedChecks = true →
    Foreign w filename ∧ Denied w (w.phpDirname filename) ∧ Foreign w (w.phpDirname filename))

/-- **The check has nothing to report** of a path. -/
def Unreported (p : ZendString) : Prop :=
  g.readonlyExec.enable = false ∨ zstr "://" <:+: p ∨ Immutable w g (cstr p)

/-! ### Reports -/

section Reports
variable {w g}

theorem ne_pure_of_log {α : Type} {x : Sp α} {a : α} (h : x.log ≠ []) : x ≠ pure a := by
  rintro rfl
  exact h rfl

theorem log_bind_ne {α β : Type} {x : Sp α} (f : α → Sp β) (h : x.log ≠ []) : (x >>= f).log ≠ [] := by
  cases hx : x.out with
  | ok a =>
    rw [log_bind_ok hx]
    exact fun hnil => h (List.append_eq_nil_iff.mp hnil).1
  | error e => rwa [log_bind_error hx]

/-- Every message is written, to one medium or another. -/
theorem log_spLogMsgf_ne (feature : String) (level : Level) (type : LogType) (fmt : String) (args : List ZendString) :
    (spLogMsgf w g feature level type fmt args).log ≠ [] := by
  have hemit : ∀ line, (emit (.log line) : Sp Unit).log ≠ [] := fun _ => List.cons_ne_nil _ _
  unfold spLogMsgf
  dsimp only
  cases g.logMedia.type with
  | zend => exact log_bind_ne _ (hemit _)
  | syslog => exact log_bind_ne _ (hemit _)
  | file =>
    dsimp only
    split
    · exact log_bind_ne _ (hemit _)
    · exact log_bind_ne _ (hemit _)

theorem readonlyErr_ne {filename : ZendString} (errno : Errno) : readonlyErr w g filename errno ≠ pure () :=
  ne_pure_of_log (log_spLogMsgf_ne _ _ _ _ _)

theorem readonlyViolation_ne {filename : ZendString} {errmsg : String} :
    readonlyViolation w g filename errmsg ≠ pure () := by
  refine ne_pure_of_log ?_
  unfold readonlyViolation
  rw [log_bind_ok (out_spLogRequest ..)]
  refine fun hnil => absurd (List.append_eq_nil_iff.mp hnil).2 ?_
  split_ifs
  · exact log_spLogMsgf_ne _ _ _ _ _
  · exact log_spLogMsgf_ne _ _ _ _ _

/-! ### What passes without one -/

section Questions
variable {x k : Sp Unit} {y : Errno → Sp Unit}

/-- The question whether a file may be written to. -/
theorem access_eq_pure (hx : x ≠ pure ()) (hy : ∀ errno, y errno ≠ pure ()) (filename : ZendString) :
    (match w.accessW filename with
      | .ok () => x
      | .error errno => if !isDenied errno then y errno else k) = pure () ↔ Denied w filename ∧ k = pure () := by
  unfold Denied
  cases w.accessW filename with
  | ok u => exact iff_of_false hx fun h => nomatch h.1
  | error errno =>
    dsimp only
    cases hdenied : isDenied errno with
    | false =>
      rw [Bool.not_false, if_pos rfl]
      refine iff_of_false (hy errno) ?_
      rintro ⟨⟨errno', herrno, h⟩, -⟩
      cases herrno
      exact absurd h (by rw [hdenied]; decide)
    | true =>
      rw [Bool.not_true, if_neg Bool.false_ne_true]
      exact ⟨fun h => ⟨⟨errno, rfl, hdenied⟩, h⟩, fun h => h.2⟩

/-- The question who owns it. -/
theorem stat_eq_pure (hx : x ≠ pure ()) (hy : ∀ errno, y errno ≠ pure ()) (filename : ZendString) :
    (match w.statUid filename with
      | .error errno => y errno
      | .ok uid => if uid = w.geteuid then x else k) = pure () ↔ Foreign w filename ∧ k = pure () := by
  unfold Foreign
  cases w.statUid filename with
  | error errno => exact iff_of_false (hy errno) fun h => nomatch h.1
  | ok uid =>
    dsimp only
    by_cases huid : uid = w.geteuid
    · refine iff_of_false (by rwa [if_pos huid]) ?_
      rintro ⟨⟨uid', h, hne⟩, -⟩
      cases h
      exact hne huid
    · rw [if_neg huid]
      exact ⟨fun h => ⟨⟨uid, rfl, huid⟩, h⟩, fun h => h.2⟩

end Questions

/-- **`terminate_if_writable` reports nothing exactly of files that cannot be changed.** -/
theorem terminateIfWritable_eq_pure (filename : ZendString) :
    terminateIfWritable w g filename = pure () ↔ Immutable w g filename := by
  unfold terminateIfWritable Immutable
  refine (access_eq_pure readonlyViolation_ne readonlyErr_ne filename).trans (and_congr_right fun _ => ?_)
  cases g.readonlyExec.extendedChecks with
  | false => exact iff_of_true rfl nofun
  | true =>
    rw [Bool.not_true, if_neg Bool.false_ne_true, forall_prop_of_true rfl]
    refine (stat_eq_pure readonlyViolation_ne readonlyErr_ne filename).trans (and_congr_right fun _ => ?_)
    refine (access_eq_pure readonlyViolation_ne readonlyErr_ne _).trans (and_congr_right fun _ => ?_)
    exact (stat_eq_pure readonlyViolation_ne readonlyErr_ne _).trans (and_iff_left rfl)

/-! ### The check of an inclusion -/

/-- A path with the scheme `file` is passed over. -/
theorem checkIncluded_fileUrl (p : ZendString) : checkIncluded w g (fileUrl p) = pure () := by
  have hscheme : zstr "file://" <+: fileUrl p := List.prefix_append _ _
  unfold checkIncluded
  rw [if_pos hscheme]
  exact ite_self _

theorem checkIncluded_eq_pure (p : ZendString) : checkIncluded w g p = pure () ↔ Unreported w g p := by
  have hscheme : zstr "file://" <+: p → zstr "://" <:+: p := fun h =>
    List.IsInfix.trans ⟨zstr "file", [], rfl⟩ h.isInfix
  unfold checkIncluded Unreported
  cases g.readonlyExec.enable with
  | false => exact iff_of_true rfl (Or.inl rfl)
  | true =>
    rw [if_pos rfl]
    by_cases hfile : zstr "file://" <+: p
    · rw [if_pos hfile]
      exact iff_of_true rfl (Or.inr (Or.inl (hscheme hfile)))
    · rw [if_neg hfile]
      by_cases hany : zstr "://" <:+: p
      · rw [if_neg (not_not.mpr hany)]
        exact iff_of_true rfl (Or.inr (Or.inl hany))
      · rw [if_pos hany, terminateIfWritable_eq_pure]
        simp [hany]

/-- Without rules on a kind of inclusion, the read-only check is all that is done. -/
theorem spStreamOpenChecks_atInclude {k : Inclusion} {data : Frame} {fn : ZendFunction} {s : Stack}
    (hfn : data.func = some fn) (huser : fn.type = .user)
    (hrules : g.stores.disabledFunctionsHooked.find? (.str k.name) = none) (filename : ZendString) :
    spStreamOpenChecks w g (atInclude k (data :: s)) filename = checkIncluded w g filename := by
  unfold spStreamOpenChecks atInclude
  dsimp only
  rw [hfn]
  show (if fn.type = .user ∧ Opcode.includeOrEval = .includeOrEval then _ else _) = _
  rw [if_pos ⟨huser, rfl⟩, find?_all]
  unfold isBuiltinMatching
  dsimp only
  rw [hrules]
  exact bind_pure_id _

end Reports

/-- **The spelling does not matter**, exactly if the check has nothing to report of the path. -/
theorem spelling_iff (p : ZendString) :
    (checkIncluded w g (fileUrl p) = checkIncluded w g p ↔ Unreported w g p) ∧
    ∀ k data fn s, data.func = some fn → fn.type = .user →
      g.stores.disabledFunctionsHooked.find? (.str (Inclusion.name k)) = none →
      (spStreamOpenChecks w g (atInclude k (data :: s)) (fileUrl p) =
        spStreamOpenChecks w g (atInclude k (data :: s)) p ↔ Unreported w g p) := by
  have hcheck : checkIncluded w g (fileUrl p) = checkIncluded w g p ↔ Unreported w g p := by
    rw [checkIncluded_fileUrl, eq_comm]
    exact checkIncluded_eq_pure p
  refine ⟨hcheck, fun k data fn s hfn huser hrules => ?_⟩
  rw [spStreamOpenChecks_atInclude hfn huser hrules, spStreamOpenChecks_atInclude hfn huser hrules]
  exact hcheck

/-- A world in which every file may be written to. -/
def writableWorld : World := { World.empty 80200 with accessW := fun _ => .ok () }

def readonlyGlobals : SpGlobals := { readonlyExec := { enable := true } }

theorem spelling_iff_include : spStreamOpenChecks writableWorld readonlyGlobals
      (atInclude .includeFile [{ func := some { type := .user } }]) (fileUrl (zstr "http://a")) =
    spStreamOpenChecks writableWorld readonlyGlobals
      (atInclude .includeFile [{ func := some { type := .user } }]) (zstr "http://a") :=
  ((spelling_iff writableWorld readonlyGlobals (zstr "http://a")).2 .includeFile _ _ [] rfl rfl rfl).mpr
    (Or.inr (Or.inl ⟨zstr "http", zstr "a", rfl⟩))

/-- **A file that may be written to** is included as `file:///a.php`, but not as `/a.php`. -/
theorem spelling_matters : (checkIncluded writableWorld readonlyGlobals (zstr "file:///a.php")).out = .ok () ∧
    (checkIncluded writableWorld readonlyGlobals (zstr "/a.php")).out = .error .drop := by
  have hplain : checkIncluded writableWorld readonlyGlobals (zstr "/a.php") =
      readonlyViolation writableWorld readonlyGlobals (zstr "/a.php") "Attempted execution of a writable file" := by
    have henable : readonlyGlobals.readonlyExec.enable = true := rfl
    unfold checkIncluded
    rw [if_pos henable, if_neg (by decide), if_pos (by decide)]
    rfl
  refine ⟨congrArg Run.out (checkIncluded_fileUrl (zstr "/a.php")), ?_⟩
  rw [hplain, readonlyViolation, out_bind, out_spLogRequest, ok_bind]
  exact out_spLogDrop ..

end Snuffleupagus.Execute.Spelling
