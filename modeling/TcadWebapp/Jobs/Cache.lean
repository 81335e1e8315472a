import Mathlib.Data.List.Sort
import TcadWebapp.Jobs.Record

/-!
# The artifact cache

`enforce_storage_quota` of `jobs/cache.py`. Its statements are taken to run with no other in between.
The directories that it hands to `rmtree` are collected, what becomes of them is not modelled here.
-/

namespace TcadWebapp.Jobs

namespace Database

def hasArtifacts (db : Database) (job : Job) : Bool := db.artifacts.any fun a => a.jobId = job.id

/-- `sum(Artifact.size_bytes)` of the group of a job. -/
def sizeOf (db : Database) (job : Job) : Nat :=
  ((db.artifacts.filter fun a => a.jobId = job.id).map Artifact.sizeBytes).sum

/-- The jobs of a user that have artifacts, with the sizes of these, the newest job first
(`cache.py:79-87`). -/
def sizedJobs (db : Database) (ownerId : Nat) : List (Job × Nat) :=
  ((db.jobs.filter fun job => job.ownerId = ownerId && db.hasArtifacts job).insertionSort
    fun a b => Queue.Precedes b a).map fun job => (job, db.sizeOf job)

/-- `total` of `enforce_storage_quota`. -/
def totalOf (db : Database) (ownerId : Nat) : Nat := ((db.sizedJobs ownerId).map Prod.snd).sum

end Database

/-- The loop over the jobs behind the newest; `kept` is what the jobs so far take. -/
def doomed (quotaBytes : Int) : List (Job × Nat) → Nat → List Job
  | [], _ => []
  | (job, size) :: rest, kept =>
    if (kept + size : Nat) ≤ quotaBytes then doomed quotaBytes rest (kept + size)
    else if !job.status.isTerminal then doomed quotaBytes rest (kept + size)
    else job :: doomed quotaBytes rest kept

/-- What a call of `enforce_storage_quota` returns and leaves. -/
structure Eviction where
  freed : Nat
  database : Database
  /-- The paths handed to `rmtree`. -/
  removed : List String

/-- `enforce_storage_quota` (`cache.py:59-129`). -/
def enforceStorageQuota (db : Database) (ownerId : Nat) (quotaBytes : Int) : Eviction :=
  let rows := db.sizedJobs ownerId
  if (db.totalOf ownerId : Int) ≤ quotaBytes then ⟨0, db, []⟩
  else
    let chosen := match rows with
      | [] => []
      | (_, size) :: rest => doomed quotaBytes rest size
    if chosen = [] then ⟨0, db, []⟩
    else
      let ids := chosen.map Job.id
      ⟨((db.artifacts.filter fun a => a.jobId ∈ ids).map Artifact.sizeBytes).sum,
        { db with artifacts := db.artifacts.filter fun a => a.jobId ∉ ids },
        (chosen.filter fun job => job.workdir ≠ "").map Job.workdir⟩

/-- The artifacts that a job had are gone. -/
def Eviction.Discards (eviction : Eviction) (db : Database) (job : Job) : Prop :=
  db.hasArtifacts job ∧ !eviction.database.hasArtifacts job

instance (eviction : Eviction) (db : Database) (job : Job) : Decidable (eviction.Discards db job) :=
  inferInstanceAs (Decidable (_ ∧ _))

/-- No job of the user that has artifacts is newer. -/
def Database.IsNewest (db : Database) (job : Job) : Prop :=
  ∀ other ∈ db.jobs, other.ownerId = job.ownerId → db.hasArtifacts other → Queue.Precedes other job

/-- The oldest jobs of the user go first, and no more go than have to. -/
structure OldestFirst (db : Database) (ownerId : Nat) (quotaBytes : Int) (eviction : Eviction) :
    Prop where
  spared : ∀ job ∈ db.jobs, eviction.Discards db job →
    job.ownerId = ownerId ∧ job.status.isTerminal ∧ ¬ db.IsNewest job
  oldest : ∀ job ∈ db.jobs, eviction.Discards db job → ∀ older ∈ db.jobs, older.ownerId = ownerId →
    Queue.Precedes older job → older.status.isTerminal → db.hasArtifacts older →
      eviction.Discards db older
  freed : eviction.freed = ((db.artifacts.filter fun a => a ∉ eviction.database.artifacts).map
    Artifact.sizeBytes).sum
  bound : (eviction.database.totalOf ownerId : Int) ≤ quotaBytes ∨
    ∀ job ∈ db.jobs, job.ownerId = ownerId → eviction.database.hasArtifacts job →
      db.IsNewest job ∨ !job.status.isTerminal

end TcadWebapp.Jobs
