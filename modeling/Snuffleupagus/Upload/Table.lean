import Snuffleupagus.Upload.Validation

/-! # The table of uploads

A field `f` has one entry in `$_FILES`, with the name, the temporary file, the error and the size of what has been
uploaded. For fields like `f[]` or `f[a][b]` there is one entry for all of them, in which each of these is an array, in
the shape of the indices: the tree of the files is transposed.

The callback takes every entry for one of a single file, and reads the arrays as strings and numbers
(`upload_table_iff`). -/

namespace Snuffleupagus.Upload.Table

open Snuffleupagus.Lib.Effect Snuffleupagus.Php.Bytes Snuffleupagus.Php.Value Snuffleupagus.Php.Engine
open Snuffleupagus.Config.Rule Snuffleupagus.Upload.Validation
open Snuffleupagus.Log hiding Event

mutual

/-- The files uploaded under one field, by their indices. -/
inductive Tree
  | file (f : UploadedFile)
  | dir (entries : Forest)

/-- What is below an index. -/
inductive Forest
  | nil
  | cons (key : HashKey) (tree : Tree) (rest : Forest)

end

mutual

/-- One property of the files, in the shape of the indices. -/
def Tree.attribute (get : UploadedFile → Zval) : Tree → Zval
  | .file f => get f
  | .dir entries => .array (entries.attributes get)

def Forest.attributes (get : UploadedFile → Zval) : Forest → HashTable
  | .nil => []
  | .cons key tree rest => (key, tree.attribute get) :: rest.attributes get

end

mutual

/-- The files. -/
def Tree.files : Tree → List UploadedFile
  | .file f => [f]
  | .dir entries => entries.files

def Forest.files : Forest → List UploadedFile
  | .nil => []
  | .cons _ tree rest => tree.files ++ rest.files

end

/-- The entry of a field in `$_FILES`. -/
def Tree.entry (t : Tree) : Zval :=
  .array [(.str (zstr "name"), t.attribute fun f => .string f.name),
    (.str (zstr "tmp_name"), t.attribute fun f => .string f.tmpName),
    (.str (zstr "error"), t.attribute fun f => .long f.error),
    (.str (zstr "size"), t.attribute fun f => .long f.size)]

/-- `$_FILES`. -/
def filesTable (fields : List (HashKey × Tree)) : HashTable := fields.map fun e => (e.1, e.2.entry)

/-- The temporary files, of the files that have been uploaded without an error. -/
def temporaryFiles (fields : List (HashKey × Tree)) : List ZendString :=
  ((fields.flatMap fun e => e.2.files).map fun f => cstr f.tmpName).filter (· ≠ [])

/-- The files the script is run on. -/
def validated (events : List Event) : List ZendString :=
  events.filterMap fun
    | .validation argv _ => argv[1]?
    | .report _ => none

/-- **Every table is handled**: nothing is read as what it is not, and if the loop comes to its end, the script has been
run exactly once on each temporary file. -/
structure Handled (x : Site) (fields : List (HashKey × Tree)) : Prop where
  typed : ∀ origCallback processes,
    Avoids .outOfBounds (spRfc1867Callback x origCallback processes (filesTable fields) .end)
  once : ∀ origCallback processes retval,
    Yields (spRfc1867Callback x origCallback processes (filesTable fields) .end) retval →
      (validated (spRfc1867Callback x origCallback processes (filesTable fields) .end).log).filter (· ≠ []) =
        temporaryFiles fields

/-- A field with a single file. -/
def isSingle : Tree → Bool
  | .file _ => true
  | .dir _ => false

section Loop
variable {x : Site} {p : Process} {script : ZendString}

/-! ### Entries of single files -/

theorem avoids_reported {α : Type} {r : Abort} {y : Sp α} (h : Avoids r y) : Avoids r (reported y) := h

theorem avoids_checkStatus (filename : ZendString) : Avoids .outOfBounds (checkStatus x p filename) := by
  unfold checkStatus spLogAuto
  split_ifs
  · exact avoids_reported (avoids_spLogMsgf _ _ (by decide) (by decide) _ _ _ _ _)
  · exact avoids_reported (avoids_spLogMsgf _ _ (by decide) (by decide) _ _ _ _ _)
  · exact avoids_pure ()

theorem avoids_runScript (script filename tmpName : ZendString) (filesize : ℤ) :
    Avoids .outOfBounds (runScript x p script filename tmpName filesize) := by
  have hlog : ∀ level fmt args, Avoids .outOfBounds
      (reported (spLogMsgf x.w x.g "upload_validation" level .log fmt args)) := fun level fmt args =>
    avoids_reported (avoids_spLogMsgf _ _ (by decide) (by decide) _ _ _ _ _)
  unfold runScript
  refine (avoids_emit _).bind fun _ => ?_
  cases p with
  | exits code => exact avoids_checkStatus filename
  | killed signal core => exact avoids_checkStatus filename
  | notExecuted errno => exact (hlog _ _ _).bind fun _ => avoids_checkStatus filename
  | notForked errno => exact hlog _ _ _

/-- Only reports are written. -/
def OnlyReports {α : Type} (y : Validates α) : Prop := Writes (fun e => ∃ r, e = .report r) y

theorem onlyReports_reported {α : Type} (y : Sp α) : OnlyReports (reported y) := by
  intro e he
  obtain ⟨r, -, rfl⟩ := List.mem_map.mp he
  exact ⟨r, rfl⟩

theorem validated_of_onlyReports {α : Type} {y : Validates α} (h : OnlyReports y) : validated y.log = [] := by
  refine List.filterMap_eq_nil_iff.mpr fun e he => ?_
  obtain ⟨r, rfl⟩ := h e he
  rfl

theorem onlyReports_checkStatus (filename : ZendString) : OnlyReports (checkStatus x p filename) := by
  unfold checkStatus
  split_ifs
  · exact onlyReports_reported _
  · exact Writes.pure ()

/-- The script is run on the temporary file. -/
theorem validated_runScript (script filename tmpName : ZendString) (filesize : ℤ) :
    validated (runScript x p script filename tmpName filesize).log = [cstr tmpName] := by
  have hrest : ∀ (y : Validates Unit), OnlyReports y →
      validated (emit (.validation (argv script tmpName) (env x filename filesize)) >>= fun _ => y).log =
        [cstr tmpName] := by
    intro y hy
    rw [log_bind_ok (out_emit _), validated, List.filterMap_append]
    exact congrArg (cstr tmpName :: ·) (validated_of_onlyReports hy)
  unfold runScript
  refine hrest _ ?_
  cases p with
  | exits code => exact onlyReports_checkStatus filename
  | killed signal core => exact onlyReports_checkStatus filename
  | notExecuted errno => exact (onlyReports_reported _).bind fun _ => onlyReports_checkStatus filename
  | notForked errno => exact onlyReports_reported _

/-- A script that exits with zero accepts the file, in simulation as well. -/
theorem runScript_zero (script filename tmpName : ZendString) (filesize : ℤ) :
    (runScript x (.exits 0) script filename tmpName filesize).out = .ok () := rfl

/-! ### The loop -/

/-- The files of fields with a single one each. -/
theorem exists_files {fields : List (HashKey × Tree)} (h : ∀ e ∈ fields, isSingle e.2 = true) :
    ∃ files : List UploadedFile, fields.map (fun e => e.2.entry) = files.map UploadedFile.record ∧
      (fields.flatMap fun e => e.2.files) = files := by
  induction fields with
  | nil => exact ⟨[], rfl, rfl⟩
  | cons e fields ih =>
    rw [List.forall_mem_cons] at h
    obtain ⟨files, hrecords, hfiles⟩ := ih h.2
    obtain ⟨key, t⟩ := e
    cases t with
    | file f =>
      refine ⟨f :: files, ?_, ?_⟩
      · rw [List.map_cons, hrecords]
        rfl
      · rw [List.flatMap_cons, hfiles]
        rfl
    | dir entries => cases h.1

theorem avoids_validateFiles (hscript : x.g.uploadValidation.script = some script) (processes : ℕ → Process) :
    ∀ (files : List UploadedFile) (n : ℕ),
      Avoids .outOfBounds (validateFiles x processes n (files.map UploadedFile.record))
  | [], _ => avoids_pure ()
  | f :: files, n => by
    rw [List.map_cons, validateFiles, validateFile_record hscript]
    exact (avoids_runScript _ _ _ _).bind fun _ => avoids_validateFiles hscript processes files (n + 1)

theorem validated_validateFiles (hscript : x.g.uploadValidation.script = some script) (processes : ℕ → Process) :
    ∀ (files : List UploadedFile) (n : ℕ),
      (validateFiles x processes n (files.map UploadedFile.record)).out = .ok () →
        validated (validateFiles x processes n (files.map UploadedFile.record)).log = files.map fun f => cstr f.tmpName
  | [], _, _ => rfl
  | f :: files, n, h => by
    rw [List.map_cons, validateFiles, validateFile_record hscript] at h ⊢
    rw [out_bind, bind_eq_ok] at h
    obtain ⟨u, hu, hrest⟩ := h
    rw [log_bind_ok hu, validated, List.filterMap_append, List.map_cons]
    refine congrArg₂ (· ++ ·) (validated_runScript script f.name f.tmpName f.size) ?_
    exact validated_validateFiles hscript processes files (n + 1) hrest

/-- The arrays of a field with indices are read as strings. -/
theorem validateFile_dir (entries : Forest) : (validateFile x p (Tree.dir entries).entry).out = .error .outOfBounds := rfl

/-- **Where all files are accepted**, the loop comes to the entry of a field with indices. -/
theorem validateFiles_dir (hscript : x.g.uploadValidation.script = some script) : ∀ (fields : List (HashKey × Tree)) (n : ℕ),
    (∃ e ∈ fields, isSingle e.2 = false) →
      (validateFiles x (fun _ => .exits 0) n (fields.map fun e => e.2.entry)).out = .error .outOfBounds
  | [], _, h => nomatch h.choose_spec.1
  | (key, t) :: fields, n, h => by
    rw [List.map_cons, validateFiles, out_bind]
    cases t with
    | dir entries =>
      rw [validateFile_dir]
      rfl
    | file f =>
      have hfile : (validateFile x (.exits 0) (Tree.file f).entry).out = .ok () :=
        (congrArg Run.out (validateFile_record hscript f)).trans (runScript_zero ..)
      rw [hfile]
      refine validateFiles_dir hscript fields (n + 1) ?_
      obtain ⟨e, he, hdir⟩ := h
      rcases List.mem_cons.mp he with rfl | he
      · cases hdir
      · exact ⟨e, he, hdir⟩

/-- The callback at the end of the form is the loop. -/
theorem out_callback (henable : x.g.uploadValidation.enable = true) (origCallback : Option (MultipartEvent → ℤ))
    (processes : ℕ → Process) (fields : List (HashKey × Tree)) :
    ∃ retval, spRfc1867Callback x origCallback processes (filesTable fields) .end =
      (do validateFiles x processes 0 (fields.map fun e => e.2.entry); pure retval) := by
  have hentries : (filesTable fields).map Prod.snd = fields.map fun e => e.2.entry := by
    simp [filesTable]
  unfold spRfc1867Callback
  rw [if_pos ⟨rfl, henable⟩, hentries]
  exact ⟨_, rfl⟩

end Loop

/-- **A table is handled**, exactly if no field has indices. -/
theorem upload_table_iff (x : Site) {script : ZendString} (henable : x.g.uploadValidation.enable = true)
    (hscript : x.g.uploadValidation.script = some script) (fields : List (HashKey × Tree)) :
    Handled x fields ↔ ∀ e ∈ fields, isSingle e.2 = true := by
  constructor
  · intro h e he
    by_contra hdir
    obtain ⟨retval, hcallback⟩ := out_callback henable none (fun _ => .exits 0) fields
    refine h.typed none (fun _ => .exits 0) ?_
    rw [hcallback, out_bind, validateFiles_dir hscript fields 0 ⟨e, he, eq_false_of_ne_true hdir⟩]
    rfl
  · intro h
    obtain ⟨files, hrecords, hfiles⟩ := exists_files h
    refine ⟨fun origCallback processes => ?_, fun origCallback processes retval hy => ?_⟩
    · obtain ⟨retval, hcallback⟩ := out_callback henable origCallback processes fields
      rw [hcallback, hrecords]
      exact (avoids_validateFiles hscript processes files 0).bind fun _ => avoids_pure retval
    · obtain ⟨retval', hcallback⟩ := out_callback henable origCallback processes fields
      rw [hcallback, hrecords] at hy ⊢
      obtain ⟨u, hu, -⟩ := yields_bind.mp hy
      rw [log_bind_ok hu, log_pure, List.append_nil, validated_validateFiles hscript processes files 0 hu,
        temporaryFiles, hfiles]

/-- A form with one file under `f`. -/
theorem upload_table_single : Handled sampleSite [(.str (zstr "f"), .file sampleFile)] :=
  (upload_table_iff sampleSite rfl rfl _).mpr (by decide)

/-- **A file under `f[]`** is read as what it is not. -/
theorem upload_table_indexed : ¬Handled sampleSite
    [(.str (zstr "f"), .dir (.cons (.idx 0) (.file sampleFile) .nil))] :=
  fun h => h.typed none (fun _ => .exits 0) rfl

end Snuffleupagus.Upload.Table
