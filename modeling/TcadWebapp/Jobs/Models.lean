import Mathlib.Tactic.Common

/-!
# The job table

`backend/app/db/models.py`: the life-cycle status, the two kinds of job and the columns of a
`jobs` row that the queue, the worker and the endpoints read or write. Instants are
microseconds on one clock (Python's `datetime` has that resolution); the other tables of the
schema are not used by the queue and are left out.
-/

namespace TcadWebapp.Jobs

/-- An instant, in microseconds. -/
abbrev Time := Int

/-- `timedelta(seconds=n)`. -/
def seconds (n : Nat) : Time := 1000000 * n

theorem seconds_le {m n : Nat} (h : m ≤ n) : seconds m ≤ seconds n := by
  show (1000000 * m : Int) ≤ 1000000 * n
  omega

/-- `JobStatus` (`db/models.py:38-55`). -/
inductive JobStatus where
  | queued
  | running
  | succeeded
  | failed
  | timedOut
  | cancelled
  deriving DecidableEq, Repr

/-- `JobStatus.is_terminal` (`db/models.py:53-55`). -/
def JobStatus.isTerminal : JobStatus → Bool
  | .queued | .running => false
  | _ => true

/-- `JobKind` (`db/models.py:165-176`); the column is a string that `ck_jobs_kind` keeps to
these two values. -/
inductive JobKind where
  | suprem
  | devsim
  deriving DecidableEq, Repr

abbrev JobId := Nat

/-- A row of the `jobs` table (`db/models.py:179-248`). -/
structure Job where
  id : JobId
  kind : JobKind
  ownerId : Nat
  sourceRevisionId : Option Nat
  sourcePath : Option String
  source : Option String
  status : JobStatus
  workdir : String
  log : Option String
  exitCode : Option Int
  createdAt : Time
  startedAt : Option Time
  finishedAt : Option Time
  deriving DecidableEq, Repr

/-- The arguments of `JobQueue.enqueue` (`jobs/queue.py:30-39`). -/
structure NewJob where
  ownerId : Nat
  sourceRevisionId : Option Nat
  workdir : String
  sourcePath : Option String
  source : Option String
  kind : JobKind
  deriving DecidableEq, Repr

/-- The row `enqueue` adds (`jobs/queue.py:46-57`): `id` and `created_at` come from the
database, the columns that are not given are NULL. -/
def NewJob.toJob (new : NewJob) (id : JobId) (createdAt : Time) : Job where
  id := id
  kind := new.kind
  ownerId := new.ownerId
  sourceRevisionId := new.sourceRevisionId
  sourcePath := new.sourcePath
  source := new.source
  status := .queued
  workdir := new.workdir
  log := none
  exitCode := none
  createdAt := createdAt
  startedAt := none
  finishedAt := none

end TcadWebapp.Jobs
