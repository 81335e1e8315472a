import TcadWebapp.Devsim.Screening
import TcadWebapp.Jobs.Queue
import TcadWebapp.Misc.Json

/-!
# Recording the result of a job

`Worker.run_once` of `jobs/worker.py` from the claim on, and `place_files` of
`devsim/catalog.py`. A path stands for what the calls on it give when the code comes to them:
files may have gone since they were listed. Database statements succeed; a session that is left
by an exception has written nothing. The folder a structure is kept in is a parameter.
-/

namespace TcadWebapp.Jobs

open Devsim StrParser

/-! ## Results -/

/-- A file that a result lists. -/
structure Listed where
  name : String
  path : String
  /-- `path.stat().st_size`; `none` is an OSError. -/
  size : Option Nat
  content : StructureFile
  /-- `shutil.copyfile` to the folder does not raise an OSError. -/
  copied : Bool
  /-- `target.stat().st_size`. -/
  copiedSize : Option Nat

/-- `SimulationResult` (`runner/results.py:92-110`). -/
structure SimulationResult where
  exitCode : Int
  log : String
  timedOut : Bool
  structureFiles : List Listed
  errors : List String

def SimulationResult.succeeded (r : SimulationResult) : Bool :=
  !r.timedOut && r.errors = [] && r.exitCode = 0

/-- `DeviceResult` (`devsim/service.py:76-103`). -/
structure DeviceResult where
  exitCode : Int
  log : String
  timedOut : Bool
  errors : List String
  dataset : Option (List (String × Json))
  artifacts : List Listed

/-- `value > 0`. -/
def positive : Json → Except Exn Bool
  | .bool b => .ok b
  | .int n => .ok (n > 0)
  | .num v => .ok (v > 0)
  | .null | .str _ | .arr _ | .obj _ => .error .typeError

def DeviceResult.succeeded (r : DeviceResult) : Except Exn Bool :=
  if r.timedOut ∨ r.errors ≠ [] ∨ r.exitCode ≠ 0 then .ok false
  else match r.dataset with
    | none | some [] => .ok false
    | some dataset => positive ((Json.get? dataset "completed").getD (.int 0))

inductive Result where
  | simulation (r : SimulationResult)
  | device (r : DeviceResult)

namespace Result

def log : Result → String
  | simulation r => r.log
  | device r => r.log

def exitCode : Result → Int
  | simulation r => r.exitCode
  | device r => r.exitCode

/-- The files that are recorded as artifacts. -/
def files : Result → List Listed
  | simulation r => r.structureFiles
  | device r => r.artifacts

/-- `_status_for` (`worker.py:247-255`). -/
def statusFor : Result → Except Exn JobStatus
  | simulation r =>
    .ok (if r.timedOut then .timedOut else if r.succeeded then .succeeded else .failed)
  | device r =>
    if r.timedOut then .ok .timedOut
    else do
      let succeeded ← r.succeeded
      .ok (if succeeded then .succeeded else .failed)

end Result

/-! ## The database -/

/-- A row of `artifacts`. -/
structure Artifact where
  jobId : JobId
  filename : String
  path : String
  sizeBytes : Nat
  sequence : Nat
  deriving DecidableEq, Repr

/-- A row of `saved_structures`. -/
structure SavedStructure where
  ownerId : Nat
  sourcePath : String
  jobId : JobId
  sequence : Nat
  filename : String
  path : String
  sizeBytes : Nat
  deriving DecidableEq, Repr

structure Database where
  jobs : List Job
  artifacts : List Artifact
  structures : List SavedStructure

namespace Database

/-- `session.get(Job, id)`. -/
def job? (db : Database) (id : JobId) : Option Job := db.jobs.find? (·.id = id)

/-- `mark_finished`, that hits a job only while it is running. -/
def markFinished (db : Database) (id : JobId) (status : JobStatus) (log : String)
    (exitCode : Option Int) (now : Time) : Database :=
  let update := Queue.finishUpdate id status log exitCode now
  { db with jobs := db.jobs.map fun r => if update.hits r then update.set r else r }

end Database

/-! ## Keeping structures -/

/-- `Placed` (`catalog.py:39-44`). -/
structure Placed where
  sequence : Nat
  filename : String
  path : String
  sizeBytes : Nat

/-- `keep`. -/
def keepAnalysable (reader : Reader Rat) :
    List (Nat × Listed) → Except Exn (List (Nat × Listed))
  | [] => .ok []
  | entry :: rest => do
    let keep ← analysable reader entry.2.content
    let kept ← keepAnalysable reader rest
    .ok (if keep then entry :: kept else kept)

/-- The loop that copies; a file that cannot be copied is skipped. -/
def copyEach (folder : String) : List (Nat × Listed) → Except Exn (List Placed)
  | [] => .ok []
  | (sequence, file) :: rest =>
    if !file.copied then copyEach folder rest
    else match file.copiedSize with
      | none => .error .osError
      | some size => do
        let placed ← copyEach folder rest
        .ok (⟨sequence, file.name, folder ++ "/" ++ file.name, size⟩ :: placed)

/-- `place_files` (`catalog.py:65-106`); `made` says whether the folder can be made. -/
def placeFiles (reader : Reader Rat) (folder : String) (made : Bool)
    (artifacts : List (Nat × Listed)) : Except Exn (List Placed) := do
  let keep ← keepAnalysable reader artifacts
  if keep = [] then .ok []
  else if !made then .error .osError
  else copyEach folder keep

/-! ## Recording -/

/-- What recording depends on besides the result. -/
structure Recorder where
  reader : Reader Rat
  /-- `_folder`, of an owner and the path of a source. -/
  folder : Nat → String → String
  /-- `folder.mkdir` does not raise. -/
  made : Bool
  now : Time

/-- `list(enumerate(files, start=1))`. -/
def numbered (files : List Listed) : List (Nat × Listed) := (files.zipIdx 1).map Prod.swap

/-- `_save_artifacts` (`worker.py:178-195`). -/
def saveArtifacts (db : Database) (id : JobId) (files : List Listed) : Except Exn Database := do
  let rows ← (numbered files).mapM fun entry => match entry.2.size with
    | some size => .ok (⟨id, entry.2.name, entry.2.path, size, entry.1⟩ : Artifact)
    | none => .error .osError
  .ok { db with artifacts := db.artifacts ++ rows }

/-- `_save_structures` (`worker.py:197-244`); it catches an OSError. -/
def saveStructures (recorder : Recorder) (db : Database) (id : JobId) (files : List Listed) :
    Except Exn Database :=
  match db.job? id with
  | none => .ok db
  | some job =>
    match job.sourcePath with
    | none | some "" => .ok db
    | some sourcePath =>
      match placeFiles recorder.reader (recorder.folder job.ownerId sourcePath) recorder.made
          (numbered files) with
      | .error .osError => .ok db
      | .error e => .error e
      | .ok placed => .ok { db with
          structures := db.structures.filter (fun row =>
              !(row.ownerId = job.ownerId && row.sourcePath = sourcePath)) ++
            placed.map fun entry => ⟨job.ownerId, sourcePath, id, entry.sequence, entry.filename,
              entry.path, entry.sizeBytes⟩ }

/-- The part of `_record` that keeps the structures of a simulation that succeeded. -/
def saveResult (recorder : Recorder) (db : Database) (id : JobId) : Result → Except Exn Database
  | .simulation r =>
    if r.succeeded then saveStructures recorder db id r.structureFiles else .ok db
  | .device _ => .ok db

/-- `_record` (`worker.py:157-176`). What is written before an exception stays. -/
def record (recorder : Recorder) (db : Database) (id : JobId) (result : Result) :
    Database × Except Exn Unit :=
  match saveArtifacts db id result.files with
  | .error e => (db, .error e)
  | .ok db =>
    match saveResult recorder db id result with
    | .error e => (db, .error e)
    | .ok db =>
      match result.statusFor with
      | .error e => (db, .error e)
      | .ok status =>
        (db.markFinished id status result.log (some result.exitCode) recorder.now, .ok ())

/-- How `_execute` ends. -/
inductive Executed where
  | raised
  | returned (result : Result)

/-- `run_once` (`worker.py:80-105`), with the job that `claim_next` returned. -/
def runOnce (recorder : Recorder) (db : Database) (claimed : Option Job) (executed : Executed) :
    Database × Except Exn Bool :=
  match claimed with
  | none => (db, .ok false)
  | some job =>
    match executed with
    | .raised =>
      (db.markFinished job.id .failed "워커에서 예기치 못한 오류가 발생했습니다." none recorder.now,
        .ok true)
    | .returned result =>
      match record recorder db job.id result with
      | (db, .ok ()) => (db, .ok true)
      | (db, .error e) => (db, .error e)

end TcadWebapp.Jobs
