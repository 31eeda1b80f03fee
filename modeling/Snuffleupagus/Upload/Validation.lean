import Snuffleupagus.Log

/-! # Validation of uploads

When a form has been read, `sp_rfc1867_callback` goes through `$_FILES`. For each entry it forks, executes the script
on the temporary file, and waits. The reads of an entry are watched: `Z_STRVAL_P` of something that is no string is not
the read of a string.

What is looked at in the end is `WEXITSTATUS`, which is zero as well if the script has been killed by a signal; and a
file for which no process could be started is passed over if the error lets the request go on. So files are only
validated if they meet neither fate (`upload_validation_iff`). -/

namespace Snuffleupagus.Upload.Validation

open Snuffleupagus.Lib.Effect Snuffleupagus.Php.Bytes Snuffleupagus.Php.Value Snuffleupagus.Php.Engine
open Snuffleupagus.Config.Rule
open Snuffleupagus.Log hiding Event

/-! ### Processes -/

/-- The number of a signal that kills a process. -/
def Signal := { n : ℕ // 0 < n ∧ n < 127 }

/-- What becomes of the process that validates a file. -/
inductive Process
  | exits (code : Fin 256)
  | killed (signal : Signal) (core : Bool)
  | notExecuted (errno : Errno)
  | notForked (errno : Errno)

/-- The status `waitpid` stores, if there is a process. If `execve` fails, the child ends with `_exit(1)`. -/
def Process.waitStatus : Process → ℕ
  | .exits code => code * 256
  | .killed signal core => signal.1 + if core then 128 else 0
  | .notExecuted _ => 256
  | .notForked _ => 0

/-- `WEXITSTATUS`. -/
def wexitstatus (status : ℕ) : ℕ := status / 256 % 256

/-! ### The callback -/

/-- What can be seen of the validation: what is reported, and the arguments and the environment of each validation. -/
inductive Event
  | report (e : Snuffleupagus.Log.Event)
  | validation (argv env : List ZendString)

/-- A computation that validates. -/
abbrev Validates := Run Abort Event

/-- A computation of the module, as a part of one that validates. -/
def reported {α : Type} (x : Sp α) : Validates α := ⟨x.log.map .report, x.out⟩

/-- `Z_ARRVAL_P`. -/
def arrval : Zval → Validates HashTable
  | .array ht => pure ht
  | _ => abort .outOfBounds

/-- `Z_STRVAL_P(zend_hash_str_find(..))`. -/
def strval (ht : HashTable) (key : String) : Validates ZendString :=
  match zendHashFind ht (.str (zstr key)) with
  | some (.string s) => pure s
  | _ => abort .outOfBounds

/-- `Z_LVAL_P(zend_hash_str_find(..))`. -/
def lval (ht : HashTable) (key : String) : Validates ℤ :=
  match zendHashFind ht (.str (zstr key)) with
  | some (.long n) => pure n
  | _ => abort .outOfBounds

/-- The events of `rfc1867.c`. -/
inductive MultipartEvent
  | start | formdata | fileStart | fileData | fileEnd | end
  deriving DecidableEq

/-- Where the callback runs: the world, the globals, the frames, and whether it is a debug build. -/
structure Site where
  w : World
  g : SpGlobals
  frames : Stack := []
  debug : Bool := false

/-- The arguments of the script. -/
def argv (script tmpName : ZendString) : List ZendString := [script, cstr tmpName]

/-- The environment of the script. -/
def env (x : Site) (filename : ZendString) (filesize : ℤ) : List ZendString :=
  [zstr "SP_FILENAME=" ++ cstr filename,
    zstr "SP_REMOTE_ADDR=" ++ (x.w.getenv (zstr "REMOTE_ADDR")).getD [],
    zstr "SP_CURRENT_FILE=" ++ cstr (zendGetExecutedFilename x.frames),
    zstr "SP_FILESIZE=" ++ decimal (filesize % 2 ^ 64).toNat]

/-- What is done about the status of the child. -/
def checkStatus (x : Site) (p : Process) (filename : ZendString) : Validates Unit :=
  if wexitstatus p.waitStatus ≠ 0 then
    reported (spLogAuto x.w x.g "upload_validation" x.g.uploadValidation.simulation
      "The upload of %s on %s was rejected." [cstr filename, (x.w.getenv (zstr "REQUEST_URI")).getD (zstr "?")])
  else pure ()

/-- `fork`, `execve` in the child, and what becomes of the file. -/
def runScript (x : Site) (p : Process) (script filename tmpName : ZendString) (filesize : ℤ) : Validates Unit := do
  emit (.validation (argv script tmpName) (env x filename filesize))
  match p with
  | .notForked errno =>
    reported (spLogErr x.w x.g "upload_validation" "Could not fork process : %s\n" [x.w.strerror errno])
  | .notExecuted errno => do
    reported (spLogWarn x.w x.g "upload_validation" "Could not call '%s' : %s" [script, x.w.strerror errno])
    checkStatus x p filename
  | p => checkStatus x p filename

/-- One turn of the loop of `sp_rfc1867_callback`. The field `error` is only read for the debug log. -/
def validateFile (x : Site) (p : Process) (file : Zval) : Validates Unit := do
  let ht ← arrval file
  let filename ← strval ht "name"
  let tmpName ← strval ht "tmp_name"
  let filesize ← lval ht "size"
  if x.debug then do
    let _ ← lval ht "error"
    pure ()
  else pure ()
  match x.g.uploadValidation.script with
  | none => abort .outOfBounds
  | some script => runScript x p script filename tmpName filesize

/-- The loop, from the `n`-th entry on: `processes n` is what becomes of its process. -/
def validateFiles (x : Site) (processes : ℕ → Process) : ℕ → List Zval → Validates Unit
  | _, [] => pure ()
  | n, file :: files => do
    validateFile x (processes n) file
    validateFiles x processes (n + 1) files

/-- `sp_rfc1867_callback`. -/
def spRfc1867Callback (x : Site) (origCallback : Option (MultipartEvent → ℤ)) (processes : ℕ → Process)
    (table : HashTable) (event : MultipartEvent) : Validates ℤ := do
  let retval := match origCallback with
    | some f => f event
    | none => 0
  if event = .end ∧ x.g.uploadValidation.enable then validateFiles x processes 0 (table.map Prod.snd)
  else pure ()
  pure retval

/-! ### Uploaded files -/

/-- What PHP writes down of an uploaded file, as far as the callback reads it. -/
structure UploadedFile where
  name : ZendString
  tmpName : ZendString
  error : ℤ
  size : ℤ

/-- The entry of a field with a single file. -/
def UploadedFile.record (f : UploadedFile) : Zval :=
  .array [(.str (zstr "name"), .string f.name), (.str (zstr "tmp_name"), .string f.tmpName),
    (.str (zstr "error"), .long f.error), (.str (zstr "size"), .long f.size)]

/-- `$_FILES`, for fields with a single file each. -/
def singleFiles (files : List (HashKey × UploadedFile)) : HashTable := files.map fun e => (e.1, e.2.record)

/-- The script rejects the file, or an error ends the request. -/
def Rejected (x : Site) : Process → Prop
  | .exits code => code ≠ 0
  | .killed _ _ => False
  | .notExecuted _ => True
  | .notForked _ => errorsReturn x.w x.g = false

/-- The file is not validated, and the loop goes on. -/
def Masked (x : Site) : Process → Prop
  | .exits _ => False
  | .killed _ _ => True
  | .notExecuted _ => False
  | .notForked _ => errorsReturn x.w x.g = true

section Loop
variable {x : Site} {p : Process} {script : ZendString}

/-- What a validated file comes to. -/
theorem exits_zero_iff : p = .exits 0 ↔ ¬Rejected x p ∧ ¬Masked x p := by
  cases p with
  | exits code => simp [Rejected, Masked]
  | killed signal core => simp [Rejected, Masked]
  | notExecuted errno => simp [Rejected, Masked]
  | notForked errno => simp [Rejected, Masked]

theorem wexitstatus_exits (code : Fin 256) : wexitstatus (Process.exits code).waitStatus = code := by
  show code.1 * 256 / 256 % 256 = code.1
  have := code.2
  omega

/-- **A process that has been killed** has an exit status of zero. -/
theorem wexitstatus_killed (signal : Signal) (core : Bool) :
    wexitstatus (Process.killed signal core).waitStatus = 0 := by
  show (signal.1 + if core then 128 else 0) / 256 % 256 = 0
  have := signal.2
  split_ifs <;> omega

theorem yields_checkStatus (hsim : x.g.uploadValidation.simulation = false) (filename : ZendString) :
    (checkStatus x p filename).out = .ok () ↔ wexitstatus p.waitStatus = 0 := by
  unfold checkStatus
  by_cases hstatus : wexitstatus p.waitStatus = 0
  · rw [if_neg (not_not.mpr hstatus)]
    exact iff_of_true rfl hstatus
  · rw [if_pos hstatus]
    refine iff_of_false ?_ hstatus
    show (spLogAuto ..).out ≠ _
    rw [out_spLogAuto, hsim]
    exact nofun

theorem yields_runScript (hsim : x.g.uploadValidation.simulation = false) (filename tmpName : ZendString)
    (filesize : ℤ) : (runScript x p script filename tmpName filesize).out = .ok () ↔ ¬Rejected x p := by
  unfold runScript
  rw [out_bind, out_emit, ok_bind]
  cases p with
  | exits code =>
    refine (yields_checkStatus hsim filename).trans ?_
    rw [wexitstatus_exits, Rejected, not_not, Fin.ext_iff]
    rfl
  | killed signal core =>
    exact (yields_checkStatus hsim filename).trans (iff_of_true (wexitstatus_killed signal core) id)
  | notExecuted errno =>
    have hwarn : (reported (spLogWarn x.w x.g "upload_validation" "Could not call '%s' : %s"
        [script, x.w.strerror errno])).out = .ok () := out_spLogWarn ..
    dsimp only
    rw [out_bind, hwarn, ok_bind]
    refine (yields_checkStatus hsim filename).trans (iff_of_false (fun h => ?_) fun h => h trivial)
    exact absurd h (show wexitstatus 256 ≠ 0 by decide)
  | notForked errno =>
    have herr := yields_spLogErr x.w x.g "upload_validation" "Could not fork process : %s\n" [x.w.strerror errno]
    exact herr.trans (by rw [Rejected, Bool.not_eq_false])

/-- The entry of a single file is read. -/
theorem validateFile_record (hscript : x.g.uploadValidation.script = some script) (f : UploadedFile) :
    validateFile x p f.record = runScript x p script f.name f.tmpName f.size := by
  unfold validateFile
  rw [hscript]
  cases x.debug <;> rfl

/-- **The loop goes on** as long as no file is rejected. -/
theorem yields_validateFiles (hsim : x.g.uploadValidation.simulation = false)
    (hscript : x.g.uploadValidation.script = some script) (processes : ℕ → Process) :
    ∀ (files : List UploadedFile) (n : ℕ), (validateFiles x processes n (files.map UploadedFile.record)).out = .ok () ↔
      ∀ i < files.length, ¬Rejected x (processes (n + i))
  | [], n => iff_of_true rfl fun i hi => absurd hi (Nat.not_lt_zero i)
  | f :: files, n => by
    rw [List.map_cons, validateFiles, validateFile_record hscript]
    have hfile : (runScript x (processes n) script f.name f.tmpName f.size).out = .ok () ↔ ¬Rejected x (processes n) :=
      yields_runScript hsim ..
    have hrest := yields_validateFiles hsim hscript processes files (n + 1)
    rw [out_bind, bind_eq_ok]
    constructor
    · rintro ⟨u, hu, h⟩ i hi
      cases i with
      | zero => exact hfile.mp hu
      | succ i =>
        have := hrest.mp h i (by simpa using hi)
        rwa [Nat.add_assoc, Nat.add_comm 1 i] at this
    · intro h
      refine ⟨(), hfile.mpr (h 0 (by simp)), hrest.mpr fun i hi => ?_⟩
      have := h (i + 1) (by simpa using hi)
      rwa [Nat.add_assoc, Nat.add_comm 1 i]

end Loop

/-- **Only validated uploads are accepted**, exactly if some file is rejected, or none is passed over. -/
theorem upload_validation_iff (x : Site) (origCallback : Option (MultipartEvent → ℤ)) (processes : ℕ → Process)
    (files : List (HashKey × UploadedFile)) {script : ZendString} (henable : x.g.uploadValidation.enable = true)
    (hsim : x.g.uploadValidation.simulation = false) (hscript : x.g.uploadValidation.script = some script) :
    ((∃ retval, Yields (spRfc1867Callback x origCallback processes (singleFiles files) .end) retval) ↔
        ∀ i < files.length, processes i = .exits 0) ↔
      (∃ i < files.length, Rejected x (processes i)) ∨ ∀ i < files.length, ¬Masked x (processes i) := by
  have hloop : (∃ retval, Yields (spRfc1867Callback x origCallback processes (singleFiles files) .end) retval) ↔
      ∀ i < files.length, ¬Rejected x (processes i) := by
    have hrecords : (singleFiles files).map Prod.snd = (files.map Prod.snd).map UploadedFile.record := by
      simp [singleFiles]
    have hfiles := yields_validateFiles hsim hscript processes (files.map Prod.snd) 0
    simp only [List.length_map, Nat.zero_add] at hfiles
    rw [← hfiles, ← hrecords]
    unfold spRfc1867Callback Yields
    simp only [out_bind, bind_eq_ok, henable, and_self, if_true]
    constructor
    · rintro ⟨retval, u, hu, -⟩
      exact hu
    · exact fun h => ⟨_, (), h, rfl⟩
  rw [hloop]
  constructor
  · intro h
    by_cases hrejected : ∃ i < files.length, Rejected x (processes i)
    · exact Or.inl hrejected
    · refine Or.inr fun i hi => ?_
      push Not at hrejected
      exact (exits_zero_iff.mp (h.mp hrejected i hi)).2
  · rintro (⟨i, hi, hrejected⟩ | hmasked)
    · refine iff_of_false (fun h => h i hi hrejected) fun h => ?_
      exact (exits_zero_iff (x := x)).mp (h i hi) |>.1 hrejected
    · exact ⟨fun h i hi => (exits_zero_iff (x := x)).mpr ⟨h i hi, hmasked i hi⟩,
        fun h i hi => ((exits_zero_iff (x := x)).mp (h i hi)).1⟩

/-- The script that is started for uploads. -/
def sampleSite : Site where
  w := World.empty 80200
  g := { uploadValidation := { enable := true, script := some (zstr "/check") } }

def sampleFile : UploadedFile := ⟨zstr "a.png", zstr "/tmp/php1", 0, 7⟩

theorem upload_validation_one : (∃ retval, Yields (spRfc1867Callback sampleSite none (fun _ => .exits 0)
      (singleFiles [(.str (zstr "f"), sampleFile)]) .end) retval) ↔
    ∀ i < 1, (fun _ => Process.exits 0) i = .exits 0 :=
  (upload_validation_iff sampleSite none (fun _ => .exits 0) [(.str (zstr "f"), sampleFile)] rfl rfl rfl).mpr
    (Or.inr fun _ _ => id)

/-- A segmentation fault of the script. -/
def segfault : Process := .killed ⟨11, by decide⟩ true

/-- **A script that crashes** accepts the file. -/
theorem upload_validation_crash : (∃ retval, Yields (spRfc1867Callback sampleSite none (fun _ => segfault)
      (singleFiles [(.str (zstr "f"), sampleFile)]) .end) retval) ∧
    ¬∀ i < 1, (fun _ => segfault) i = .exits 0 :=
  ⟨⟨0, rfl⟩, fun h => nomatch h 0 Nat.zero_lt_one⟩

end Snuffleupagus.Upload.Validation
