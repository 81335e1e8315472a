import TcadWebapp.Devsim.Proofs.Screening
import TcadWebapp.Jobs.Record
import TcadWebapp.StrParser.Numbers

/-!
# Which jobs end

`run_once` ends a job whose execution raised. A result it can only record if nothing that
recording calls raises: three kinds of results make it raise, and leave the job running
(`runOnce_ends_iff`).
-/

namespace TcadWebapp.Jobs

open Devsim StrParser

variable {recorder : Recorder} {db : Database} {id : JobId}

/-! ## Artifacts -/

theorem snd_mem_of_numbered {files : List Listed} {entry : Nat × Listed}
    (h : entry ∈ numbered files) : entry.2 ∈ files := by
  obtain ⟨⟨file, i⟩, hf, rfl⟩ := List.mem_map.mp h
  exact List.fst_mem_of_mem_zipIdx hf

theorem exists_numbered {files : List Listed} {file : Listed} (h : file ∈ files) :
    ∃ i, (i, file) ∈ numbered files := by
  obtain ⟨i, lt, rfl⟩ := List.getElem_of_mem h
  refine ⟨1 + i, List.mem_map.mpr ⟨(files[i], 1 + i), ?_, rfl⟩⟩
  exact List.mem_zipIdx_iff_le_and_getElem?_sub.mpr ⟨by omega, by simp [lt]⟩

theorem forall_numbered {files : List Listed} {P : Listed → Prop} :
    (∀ entry ∈ numbered files, P entry.2) ↔ ∀ file ∈ files, P file := by
  constructor
  · intro h file hf
    obtain ⟨i, hi⟩ := exists_numbered hf
    exact h _ hi
  · exact fun h entry he => h _ (snd_mem_of_numbered he)

theorem saveArtifacts_raisesUnless (db : Database) (id : JobId) (files : List Listed) :
    RaisesUnless .osError (∀ file ∈ files, file.size.isSome) (saveArtifacts db id files) := by
  unfold saveArtifacts
  refine ((RaisesUnless.mapM (R := fun entry => entry.2.size.isSome) fun entry _ => ?_).bind
    (R := fun _ => True) fun rows _ => RaisesUnless.of_ok trivial).congr ?_
  · cases found : entry.2.size with
    | none => exact Or.inr ⟨by simp, rfl⟩
    | some size => exact RaisesUnless.of_ok rfl
  · rw [forall_numbered (P := fun file => file.size.isSome)]
    simp

theorem saveArtifacts_jobs {files : List Listed} {db' : Database}
    (h : saveArtifacts db id files = .ok db') : db'.jobs = db.jobs := by
  obtain ⟨rows, -, h⟩ := bind_eq_ok.mp h
  obtain rfl := Except.ok.inj h
  rfl

/-! ## Structures -/

theorem keepAnalysable_raisesUnless (reader : Reader Rat) (entries : List (Nat × Listed)) :
    RaisesUnless .indexError (∀ entry ∈ entries, Screenable reader entry.2.content)
      (keepAnalysable reader entries) := by
  induction entries with
  | nil => exact RaisesUnless.of_ok (by simp)
  | cons entry rest ih =>
    rw [keepAnalysable]
    refine ((analysable_raisesUnless reader entry.2.content).bind fun keep _ =>
      ih.bind (R := fun _ => True) fun kept _ => RaisesUnless.of_ok trivial).congr ?_
    rw [List.forall_mem_cons]
    constructor
    · intro h
      obtain ⟨keep, found⟩ := (analysable_raisesUnless reader entry.2.content).ok_iff.mpr h.1
      exact ⟨h.1, (h.2 keep found).1⟩
    · exact fun h => ⟨h.1, fun _ _ => ⟨h.2, fun _ _ => trivial⟩⟩

theorem copyEach_cases (folder : String) (entries : List (Nat × Listed)) :
    (∃ placed, copyEach folder entries = .ok placed) ∨ copyEach folder entries = .error .osError := by
  induction entries with
  | nil => exact Or.inl ⟨[], rfl⟩
  | cons entry rest ih =>
    rw [copyEach]
    split
    · exact ih
    · split
      · exact Or.inr rfl
      · rcases ih with ⟨placed, h⟩ | h
        · rw [h]
          exact Or.inl ⟨_, rfl⟩
        · rw [h]
          exact Or.inr rfl

/-- Besides an OSError `place_files` raises what screening raises. -/
theorem placeFiles_cases (reader : Reader Rat) (folder : String) (made : Bool)
    (entries : List (Nat × Listed)) :
    ((∀ entry ∈ entries, Screenable reader entry.2.content) ∧
      ((∃ placed, placeFiles reader folder made entries = .ok placed) ∨
        placeFiles reader folder made entries = .error .osError)) ∨
    ((¬ ∀ entry ∈ entries, Screenable reader entry.2.content) ∧
      placeFiles reader folder made entries = .error .indexError) := by
  unfold placeFiles
  rcases keepAnalysable_raisesUnless reader entries with ⟨all, keep, kept⟩ | ⟨some, raised⟩
  · rw [kept]
    refine Or.inl ⟨all, ?_⟩
    simp only [bind, Except.bind]
    split
    · exact Or.inl ⟨[], rfl⟩
    · split
      · exact Or.inr rfl
      · exact copyEach_cases folder keep
  · rw [raised]
    exact Or.inr ⟨some, rfl⟩

/-- The row of the job names the source whose structures are kept. -/
def NamesSource (db : Database) (id : JobId) : Prop :=
  ∃ job sourcePath, db.job? id = some job ∧ job.sourcePath = some sourcePath ∧ sourcePath ≠ ""

theorem saveStructures_raisesUnless (recorder : Recorder) (db : Database) (id : JobId)
    (files : List Listed) :
    RaisesUnless .indexError
      (NamesSource db id → ∀ file ∈ files, Screenable recorder.reader file.content)
      (saveStructures recorder db id files) := by
  unfold saveStructures NamesSource
  cases db.job? id with
  | none => exact RaisesUnless.of_ok (by simp)
  | some job =>
    dsimp only
    split
    · rename_i empty
      exact RaisesUnless.of_ok (by simp [empty])
    · rename_i empty
      exact RaisesUnless.of_ok (by simp [empty])
    · rename_i sourcePath ne named
      have kept : (∃ job' source, some job = some job' ∧ job'.sourcePath = some source ∧
          source ≠ "") := ⟨job, sourcePath, rfl, named, ne⟩
      rw [← forall_numbered (P := fun file => Screenable recorder.reader file.content)]
      rcases placeFiles_cases recorder.reader (recorder.folder job.ownerId sourcePath)
        recorder.made (numbered files) with ⟨all, ⟨placed, h⟩ | h⟩ | ⟨some, h⟩
      · rw [h]
        exact RaisesUnless.of_ok fun _ => all
      · rw [h]
        exact RaisesUnless.of_ok fun _ => all
      · rw [h]
        exact Or.inr ⟨fun all => some (all kept), rfl⟩

theorem saveStructures_jobs {files : List Listed} {db' : Database}
    (h : saveStructures recorder db id files = .ok db') : db'.jobs = db.jobs := by
  unfold saveStructures at h
  split at h
  · obtain rfl := Except.ok.inj h
    rfl
  · split at h
    · obtain rfl := Except.ok.inj h
      rfl
    · obtain rfl := Except.ok.inj h
      rfl
    · split at h
      · obtain rfl := Except.ok.inj h
        rfl
      · cases h
      · obtain rfl := Except.ok.inj h
        rfl

/-- All structures of a simulation that succeeded can be looked through. -/
def Keepable (recorder : Recorder) (db : Database) (id : JobId) (result : Result) : Prop :=
  ∀ r, result = .simulation r → r.succeeded = true → NamesSource db id →
    ∀ file ∈ r.structureFiles, Screenable recorder.reader file.content

theorem saveResult_raisesUnless (recorder : Recorder) (db : Database) (id : JobId)
    (result : Result) :
    RaisesUnless .indexError (Keepable recorder db id result) (saveResult recorder db id result) := by
  unfold Keepable
  cases result with
  | device r => exact RaisesUnless.of_ok (by simp)
  | simulation r =>
    rw [saveResult]
    split
    · rename_i succeeded
      refine (saveStructures_raisesUnless recorder db id r.structureFiles).congr ?_
      constructor
      · intro h r' same _ named
        obtain rfl := Result.simulation.inj same
        exact h named
      · exact fun h => h r rfl succeeded
    · rename_i failed
      refine RaisesUnless.of_ok ?_
      intro r' same succeeded
      obtain rfl := Result.simulation.inj same
      exact absurd succeeded failed

theorem saveResult_jobs {result : Result} {db' : Database}
    (h : saveResult recorder db id result = .ok db') : db'.jobs = db.jobs := by
  cases result with
  | device r =>
    obtain rfl := Except.ok.inj h
    rfl
  | simulation r =>
    rw [saveResult] at h
    split at h
    · exact saveStructures_jobs h
    · obtain rfl := Except.ok.inj h
      rfl

/-! ## The status -/

/-- A number, which can be compared with 0. -/
def isNumber : Json → Bool
  | .bool _ | .int _ | .num _ => true
  | .null | .str _ | .arr _ | .obj _ => false

/-- The number of points in the data of a device simulation is one, where it decides. -/
def Gradable (result : Result) : Prop :=
  ∀ r dataset value, result = .device r → r.timedOut = false → r.errors = [] → r.exitCode = 0 →
    r.dataset = some dataset → Json.get? dataset "completed" = some value → isNumber value = true

theorem positive_raisesUnless (value : Json) :
    RaisesUnless .typeError (isNumber value = true) (positive value) := by
  cases value with
  | bool b => exact RaisesUnless.of_ok rfl
  | int n => exact RaisesUnless.of_ok rfl
  | num v => exact RaisesUnless.of_ok rfl
  | null => exact Or.inr ⟨by simp [isNumber], rfl⟩
  | str s => exact Or.inr ⟨by simp [isNumber], rfl⟩
  | arr items => exact Or.inr ⟨by simp [isNumber], rfl⟩
  | obj entries => exact Or.inr ⟨by simp [isNumber], rfl⟩

theorem DeviceResult.succeeded_raisesUnless (r : DeviceResult) (inTime : r.timedOut = false) :
    RaisesUnless .typeError (Gradable (.device r)) r.succeeded := by
  unfold DeviceResult.succeeded Gradable
  split
  · rename_i failed
    refine RaisesUnless.of_ok ?_
    intro r' dataset value same inTime' errors exitCode
    obtain rfl := Result.device.inj same
    simp [inTime', errors, exitCode] at failed
  · rename_i fine
    simp only [inTime, not_or, not_not] at fine
    obtain ⟨-, errors, exitCode⟩ := fine
    split
    · rename_i none
      refine RaisesUnless.of_ok ?_
      intro r' dataset value same _ _ _ found
      obtain rfl := Result.device.inj same
      rw [none] at found
      cases found
    · rename_i empty
      refine RaisesUnless.of_ok ?_
      intro r' dataset value same _ _ _ found completed
      obtain rfl := Result.device.inj same
      obtain rfl := Option.some.inj (empty.symm.trans found)
      cases completed
    · rename_i dataset ne found
      refine (positive_raisesUnless _).congr ?_
      constructor
      · intro h r' dataset' value same _ _ _ found' completed
        obtain rfl := Result.device.inj same
        obtain rfl := Option.some.inj (found.symm.trans found')
        rw [completed] at h
        exact h
      · intro h
        cases completed : Json.get? dataset "completed" with
        | none => rfl
        | some value => exact h r dataset value rfl inTime errors exitCode found completed

theorem Result.statusFor_raisesUnless (result : Result) :
    RaisesUnless .typeError (Gradable result) result.statusFor := by
  cases result with
  | simulation r => exact RaisesUnless.of_ok (by simp [Gradable])
  | device r =>
    rw [Result.statusFor]
    split
    · rename_i timedOut
      refine RaisesUnless.of_ok ?_
      intro r' dataset value same inTime
      obtain rfl := Result.device.inj same
      rw [timedOut] at inTime
      cases inTime
    · rename_i inTime
      rw [Bool.not_eq_true] at inTime
      exact ((r.succeeded_raisesUnless inTime).bind (R := fun _ => True) fun succeeded _ =>
        RaisesUnless.of_ok trivial).congr (by simp)

theorem Result.isTerminal_of_statusFor {result : Result} {status : JobStatus}
    (h : result.statusFor = .ok status) : status.isTerminal = true := by
  cases result with
  | simulation r =>
    obtain rfl := Except.ok.inj h
    split
    · rfl
    · split <;> rfl
  | device r =>
    rw [Result.statusFor] at h
    split at h
    · obtain rfl := Except.ok.inj h
      rfl
    · obtain ⟨succeeded, -, h⟩ := bind_eq_ok.mp h
      obtain rfl := Except.ok.inj h
      cases succeeded <;> rfl

/-! ## `run_once` -/

theorem Database.job?_markFinished (db : Database) (id : JobId) (status : JobStatus) (log : String)
    (exitCode : Option Int) (now : Time) :
    (db.markFinished id status log exitCode now).job? id = (db.job? id).map fun r =>
      if r.status = .running then (Queue.finishUpdate id status log exitCode now).set r else r := by
  unfold job? markFinished
  dsimp only
  induction db.jobs with
  | nil => rfl
  | cons r rest ih =>
    rw [List.map_cons, List.find?_cons, List.find?_cons]
    by_cases same : r.id = id
    · by_cases running : r.status = .running <;> simp [Queue.finishUpdate, same, running]
    · simpa [Queue.finishUpdate, same] using ih

/-- The call returned True and the job has ended. -/
def Ended (id : JobId) (after : Database × Except Exn Bool) : Prop :=
  after.2 = .ok true ∧ ∃ row, after.1.job? id = some row ∧ row.status.isTerminal = true

/-- The row of the job has not gone back to the queue. -/
def StillClaimed (db : Database) (id : JobId) : Prop :=
  ∃ row, db.job? id = some row ∧ row.status ≠ .queued

theorem ended_iff_stillClaimed {db' : Database} (same : db'.jobs = db.jobs) {status : JobStatus}
    (terminal : status.isTerminal = true) (log : String) (exitCode : Option Int) (now : Time) :
    Ended id (db'.markFinished id status log exitCode now, .ok true) ↔ StillClaimed db id := by
  have job : db'.job? id = db.job? id := by
    unfold Database.job?
    rw [same]
  unfold Ended StillClaimed
  rw [Database.job?_markFinished, job]
  constructor
  · intro h
    obtain ⟨-, row, found, ended⟩ := h
    obtain ⟨old, was, rfl⟩ := Option.map_eq_some_iff.mp found
    refine ⟨old, was, fun queued => ?_⟩
    simp [queued, JobStatus.isTerminal] at ended
  · intro h
    obtain ⟨row, found, free⟩ := h
    refine ⟨rfl, _, Option.map_eq_some_iff.mpr ⟨row, found, rfl⟩, ?_⟩
    split
    · exact terminal
    · rename_i notRunning
      cases hs : row.status with
      | queued => exact absurd hs free
      | running => exact absurd hs notRunning
      | succeeded => rfl
      | failed => rfl
      | timedOut => rfl
      | cancelled => rfl

/-- Recording the result raises nothing. -/
structure Recordable (recorder : Recorder) (db : Database) (id : JobId) (result : Result) :
    Prop where
  /-- The files that the result lists are still there. -/
  present : ∀ file ∈ result.files, file.size.isSome
  keepable : Keepable recorder db id result
  gradable : Gradable result

theorem keepable_congr {db' : Database} (same : db'.jobs = db.jobs) (result : Result) :
    Keepable recorder db' id result ↔ Keepable recorder db id result := by
  unfold Keepable NamesSource Database.job?
  rw [same]

theorem record_cases (recorder : Recorder) (db : Database) (id : JobId) (result : Result) :
    (Recordable recorder db id result ∧ ∃ (db' : Database) (status : JobStatus), db'.jobs = db.jobs ∧
      status.isTerminal = true ∧ record recorder db id result =
        (db'.markFinished id status result.log (some result.exitCode) recorder.now, .ok ())) ∨
    (¬ Recordable recorder db id result ∧ ∃ db' e, record recorder db id result = (db', .error e)) := by
  unfold record
  rcases saveArtifacts_raisesUnless db id result.files with ⟨present, db₁, saved⟩ | ⟨gone, raised⟩
  · rw [saved]
    have same := saveArtifacts_jobs saved
    dsimp only
    rcases saveResult_raisesUnless recorder db₁ id result with ⟨keepable, db₂, kept⟩ | ⟨not, raised⟩
    · rw [kept]
      rw [keepable_congr same] at keepable
      dsimp only
      rcases result.statusFor_raisesUnless with ⟨gradable, status, graded⟩ | ⟨not, raised⟩
      · rw [graded]
        exact Or.inl ⟨⟨present, keepable, gradable⟩, db₂, status,
          (saveResult_jobs kept).trans same, Result.isTerminal_of_statusFor graded, rfl⟩
      · rw [raised]
        exact Or.inr ⟨fun h => not h.gradable, db₂, _, rfl⟩
    · rw [raised]
      rw [keepable_congr same] at not
      exact Or.inr ⟨fun h => not h.keepable, db₁, _, rfl⟩
  · rw [raised]
    exact Or.inr ⟨fun h => gone h.present, db, _, rfl⟩

/-- A job ends exactly if it has not gone back to the queue and its result, if there is one, can
be recorded. -/
theorem runOnce_ends_iff (recorder : Recorder) (db : Database) (job : Job) (executed : Executed) :
    Ended job.id (runOnce recorder db (some job) executed) ↔ StillClaimed db job.id ∧
      ∀ result, executed = .returned result → Recordable recorder db job.id result := by
  cases executed with
  | raised =>
    rw [runOnce, ended_iff_stillClaimed rfl rfl]
    simp
  | returned result =>
    have only : (∀ result', Executed.returned result = .returned result' →
        Recordable recorder db job.id result') ↔ Recordable recorder db job.id result := by
      constructor
      · exact fun h => h result rfl
      · intro h result' same
        obtain rfl := Executed.returned.inj same
        exact h
    rw [only, runOnce]
    rcases record_cases recorder db job.id result with
      ⟨recordable, db', status, same, terminal, h⟩ | ⟨not, db', e, h⟩
    · rw [h]
      dsimp only
      rw [ended_iff_stillClaimed same terminal]
      exact ⟨fun claimed => ⟨claimed, recordable⟩, And.left⟩
    · rw [h]
      constructor
      · intro ended
        obtain ⟨returned, -⟩ := ended
        cases returned
      · exact fun h => absurd h.2 not

/-- A claimed job, alone in the database. -/
def claimedJob : Job where
  id := 1
  kind := .suprem
  ownerId := 1
  sourceRevisionId := none
  sourcePath := some "a.in"
  source := some ""
  status := .running
  workdir := "/jobs/job-1"
  log := none
  exitCode := none
  createdAt := 0
  startedAt := some 0
  finishedAt := none

def claimedDatabase : Database := ⟨[claimedJob], [], []⟩

def plainRecorder : Recorder := ⟨plainReader, fun _ _ => "/structures/user-1/a.in", true, 1⟩

/-- A file that could be listed but is gone. -/
def goneFile : Listed := ⟨"iv.json", "/jobs/job-1/iv.json", none, ⟨none, none⟩, false, none⟩

/-- A triangle of aluminum whose first neighbour is an element that the file does not have. -/
def brokenText : Text :=
  "v SUPREM-IV\nD 2 3 3\nc 1 0 0 0\nc 2 1 0 0\nc 3 0 1 0\nr 1 6\nt 1 1 1 2 3 9 -1024 -1024 0 0\ns 0\n".toList

def brokenFile : Listed :=
  ⟨"a.str", "/jobs/job-1/a.str", some 83,
    ⟨some (brokenText.map fun c => c.toNat.toUInt8), some brokenText⟩, true, some 83⟩

/-- A device simulation whose result file is gone, and a simulation that wrote a structure with a
neighbour beyond its elements. -/
theorem runOnce_not_ended :
    ¬ Ended 1 (runOnce plainRecorder claimedDatabase (some claimedJob)
      (.returned (.device ⟨0, "", false, [], some [("completed", .int 1)], [goneFile]⟩))) ∧
    ¬ Ended 1 (runOnce plainRecorder claimedDatabase (some claimedJob)
      (.returned (.simulation ⟨0, "", false, [brokenFile], []⟩))) := by
  have raises : ∀ after : Database × Except Exn Bool, after.2.isOk = false → ¬ Ended 1 after := by
    intro after raised ended
    rw [ended.1] at raised
    cases raised
  exact ⟨raises _ (by decide), raises _ (by decide)⟩

end TcadWebapp.Jobs
