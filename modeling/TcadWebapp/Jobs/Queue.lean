import Mathlib.Logic.Function.Basic
import TcadWebapp.Jobs.Models
import TcadWebapp.Misc.Lts
import TcadWebapp.Misc.Table

/-!
# The job queue, statement by statement

`backend/app/jobs/queue.py`. Any number of calls of `enqueue`, `claim_next`,
`mark_finished`, `cancel` and `requeue_stale` are under way at once, each with a database
session of its own. One step of the system is one statement of one call: it sees the rows
that are committed at that moment, and its writes show at its commit (`Misc/Table`). Between
any two statements of a call, statements of the others may run, the clock may move on, and
the connection may be lost, which rolls the call back.

A call that ends returns to `Call.idle` and may be followed by the next call of the same
worker or request. `ValueError`, raised before any statement is sent, is no step.
-/

namespace TcadWebapp.Jobs

/-- Names a caller: a worker loop, a request, a starting worker process. -/
abbrev CallId := Nat

/-- Which operation an executed UPDATE belongs to. -/
inductive Move where
  | claim
  | finish
  | cancel (before : Job)
  | requeue (cutoff : Time)
  deriving DecidableEq, Repr

/-- How far a call has come. -/
inductive Call where
  | idle
  /-- `enqueue`: the row is inserted. -/
  | inserted (job : Job)
  /-- `claim_next`: the count was below the cap. -/
  | counted
  /-- `claim_next`: this job was the oldest one waiting. -/
  | selected (candidate : JobId)
  /-- `cancel`: the row was read and is not finished. -/
  | read (before : Job)
  /-- An UPDATE was executed and hit the rows that `images` replace. -/
  | updated (move : Move) (images : List Job)
  deriving DecidableEq, Repr

/-- The committed rows and their locks, the calls, the id sequence and the clock. -/
structure Queue where
  table : Table Job.id CallId
  call : CallId → Call
  nextId : JobId
  now : Time

namespace Queue

/-- Rows of one status, for the SELECTs below. -/
def hasStatus (status : JobStatus) (r : Job) : Bool := r.status = status

/-- `JobQueue._running_count` (`queue.py:195-200`). -/
def runningCount (q : Queue) : Nat := q.table.rows.countP (hasStatus .running)

/-- `ORDER BY created_at, id`: `r` does not come after `r'`. -/
def Precedes (r r' : Job) : Prop :=
  r.createdAt < r'.createdAt ∨ r.createdAt = r'.createdAt ∧ r.id ≤ r'.id

instance (r r' : Job) : Decidable (Precedes r r') := inferInstanceAs (Decidable (_ ∨ _))

/-- The first of the rows in that order, `LIMIT 1`. -/
def oldest : List Job → Option Job
  | [] => none
  | r :: rest =>
    match oldest rest with
    | none => some r
    | some r' => if Precedes r r' then some r else some r'

/-- The SELECT of `claim_next` (`queue.py:77-82`): the oldest row in the queue. -/
def oldestQueued (q : Queue) : Option JobId :=
  (oldest (q.table.hits (hasStatus .queued))).map Job.id

/-- `UPDATE ... WHERE ... SET ...`. -/
structure Update where
  hits : Job → Bool
  set : Job → Job

/-- The conditional UPDATE of `claim_next` (`queue.py:86-93`). -/
def claimUpdate (candidate : JobId) (startedAt : Time) : Update where
  hits r := r.id = candidate && r.status = .queued
  set r := { r with status := .running, startedAt := some startedAt }

/-- The UPDATE of `mark_finished` (`queue.py:121-130`). -/
def finishUpdate (id : JobId) (status : JobStatus) (log : String) (exitCode : Option Int)
    (finishedAt : Time) : Update where
  hits r := r.id = id && r.status = .running
  set r := { r with
    status := status, log := some log, exitCode := exitCode, finishedAt := some finishedAt }

/-- The UPDATE of `cancel` (`queue.py:155-165`). -/
def cancelUpdate (id : JobId) (finishedAt : Time) : Update where
  hits r := r.id = id && (r.status = .queued || r.status = .running)
  set r := { r with status := .cancelled, finishedAt := some finishedAt }

/-- The UPDATE of `requeue_stale` (`queue.py:181-185`); a comparison with NULL is not true. -/
def requeueUpdate (cutoff : Time) : Update where
  hits r := r.status = .running && r.startedAt.any (· < cutoff)
  set r := { r with status := .queued, startedAt := none }

/-- One statement of a call, with the arguments of the call where it begins. Where the code
reads the clock for a statement, `clock` is what it read. -/
inductive Stmt where
  /-- `enqueue`: INSERT. -/
  | insert (new : NewJob)
  /-- `claim_next`: count of the running rows. -/
  | count
  /-- `claim_next`: select of the oldest queued row. -/
  | select
  /-- `claim_next`: conditional UPDATE. -/
  | claim (clock : Time)
  /-- `mark_finished`: conditional UPDATE. -/
  | finish (id : JobId) (status : JobStatus) (log : String) (exitCode : Option Int) (clock : Time)
  /-- `cancel`: read of the row. -/
  | read (id : JobId)
  /-- `cancel`: conditional UPDATE. -/
  | cancel (clock : Time)
  /-- `requeue_stale`: UPDATE. -/
  | requeue (maxRuntime : Time) (clock : Time)
  /-- COMMIT of any of them. -/
  | commit
  /-- The session is lost. -/
  | rollback
  deriving DecidableEq, Repr

/-- The call of `w` goes on to `c`. -/
def enter (q : Queue) (w : CallId) (c : Call) : Queue :=
  { q with call := Function.update q.call w c }

/-- The UPDATE `u` is executed for `w`, which becomes `next` of the images it holds. -/
def execute (q : Queue) (w : CallId) (u : Update) (next : List Job → Call) : Option Queue :=
  match q.table.update w u.hits u.set with
  | none => none
  | some (images, table) => some ({ q with table := table }.enter w (next images))

/-- One statement of `w`. `max` is `JobQueue.max_concurrent`. -/
def statement (max : Nat) (q : Queue) (w : CallId) (stmt : Stmt) : Option Queue :=
  match stmt, q.call w with
  | .insert new, .idle =>
    some ({ q with nextId := q.nextId + 1 }.enter w (.inserted (new.toJob q.nextId q.now)))
  | .commit, .inserted job =>
    match q.table.insert job with
    | none => none
    | some table => some ({ q with table := table }.enter w .idle)
  | .count, .idle =>
    -- the cap is reached: `return None`
    if q.runningCount ≥ max then some q else some (q.enter w .counted)
  | .select, .counted =>
    match q.oldestQueued with
    | none => some (q.enter w .idle)
    | some candidate => some (q.enter w (.selected candidate))
  | .claim clock, .selected candidate =>
    if clock ≤ q.now then
      -- `rowcount == 0`: another worker was first, `rollback` and `return None`
      q.execute w (claimUpdate candidate clock) fun images =>
        if images = [] then .idle else .updated .claim images
    else none
  | .finish id status log exitCode clock, .idle =>
    if status.isTerminal ∧ clock ≤ q.now then
      q.execute w (finishUpdate id status log exitCode clock) (.updated .finish)
    else none
  | .read id, .idle =>
    match q.table.get? id with
    | none => some q
    | some before => if before.status.isTerminal then some q else some (q.enter w (.read before))
  | .cancel clock, .read before =>
    if clock ≤ q.now then
      q.execute w (cancelUpdate before.id clock) (.updated (.cancel before))
    else none
  | .requeue maxRuntime clock, .idle =>
    if clock ≤ q.now then
      let cutoff := clock - maxRuntime
      q.execute w (requeueUpdate cutoff) (.updated (.requeue cutoff))
    else none
  | .commit, .updated _ images =>
    some ({ q with table := q.table.commit w images }.enter w .idle)
  | .rollback, _ => some ({ q with table := q.table.release w }.enter w .idle)
  | _, _ => none

/-- A step of the system: a statement of one call, or time going by. -/
inductive Label where
  | stmt (w : CallId) (stmt : Stmt)
  | tick (d : Nat)
  deriving DecidableEq, Repr

/-- One step of the queue. -/
def step (max : Nat) (q : Queue) : Label → Option Queue
  | .stmt w s => q.statement max w s
  | .tick d => some { q with now := q.now + d }

/-- An empty queue with no call under way. -/
def init (now : Time) : Queue := ⟨.empty, fun _ => .idle, 1, now⟩

end Queue

/-- The job queue with the cap `max`, from an empty queue at any time. -/
def queueLts (max : Nat) : Lts Queue Queue.Label where
  start q := ∃ now, q = Queue.init now
  step := Queue.step max

end TcadWebapp.Jobs
