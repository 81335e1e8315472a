import TcadWebapp.Jobs.Queue

/-!
# Workers, cancel requests and the queue together

`backend/app/jobs/worker.py`, `backend/app/jobs/main.py` and the cancel endpoint of
`backend/app/api/routes_jobs.py`, over the queue of `Jobs/Queue`. A worker loop claims a job,
loads its source, starts containers one after the other and records the result; a worker
process that starts calls `recover_stale`; a cancel request reads, updates, and kills.

What a container computes is left open: a step says how it ended, and every way to end is
possible. Of the sandbox limits only the timeout matters here.
-/

namespace TcadWebapp.Jobs

/-- `SandboxLimits.timeout_seconds` (`runner/sandbox.py:42`). -/
structure SandboxLimits where
  timeoutSeconds : Nat
  deriving DecidableEq, Repr

/-- The limits a `Worker` holds (`jobs/worker.py:49-73`). -/
structure Worker where
  limits : SandboxLimits
  devsimLimits : SandboxLimits
  deriving DecidableEq, Repr

/-- `DEFAULT_LIMITS` of the device simulation (`devsim/service.py:71-73`). -/
def devsimDefaultLimits : SandboxLimits := ⟨6000⟩

/-- `build_worker` (`jobs/main.py:47-63`): the setting reaches one of the two limits. -/
def buildWorker (jobTimeoutSeconds : Nat) : Worker := ⟨⟨jobTimeoutSeconds⟩, devsimDefaultLimits⟩

/-- `_STALE_MULTIPLIER` (`jobs/worker.py:46`). -/
def staleMultiplier : Nat := 3

/-- `_CLIENT_TIMEOUT_MARGIN_SECONDS` (`runner/runner.py:40`, `devsim/service.py:53`). -/
def clientTimeoutMarginSeconds : Nat := 30

namespace Worker

/-- The limits `_execute` passes on for a kind (`jobs/worker.py:115-139`). -/
def limitsOf (worker : Worker) : JobKind → SandboxLimits
  | .suprem => worker.limits
  | .devsim => worker.devsimLimits

/-- The argument of `recover_stale` to `requeue_stale` (`jobs/worker.py:107-113`). -/
def maxRuntime (worker : Worker) : Time :=
  seconds (worker.limits.timeoutSeconds * staleMultiplier)

end Worker

/-! ## The containers of one execution -/

/-- A container that an execution starts. `again` marks the second try after podman was
repaired. -/
inductive Container where
  /-- `_prepare_device` of the device simulation (`devsim/service.py:100-122`). -/
  | remesh (again : Bool)
  /-- `_execute` of either simulation. -/
  | solve (again : Bool)
  /-- The remesh within `_resume` (`runner/runner.py:255-295`). -/
  | resumeRemesh
  /-- The run from the checkpoint within `_resume`. -/
  | resumeSolve
  deriving DecidableEq, Repr

/-- How a container ended, as far as the next one depends on it. -/
inductive Outcome where
  | done
  | failed
  /-- Podman could not start it, and a repair was made. -/
  | infraFailure
  /-- The simulator stopped in a panic and left a checkpoint, on a mesh that has to be made
  anew or not. -/
  | panic (needsRemesh : Bool)
  deriving DecidableEq, Repr

/-- The first container of a kind. -/
def JobKind.first : JobKind → Container
  | .devsim => .remesh false
  | .suprem => .solve false

/-- The container that follows (`run_device_simulation`, `run_simulation`); with none the
execution is over. -/
def JobKind.next : JobKind → Container → Outcome → Option Container
  | .devsim, .remesh _, .done => some (.solve false)
  | .devsim, .remesh false, .infraFailure => some (.remesh true)
  | .devsim, .solve false, .infraFailure => some (.solve true)
  | .suprem, .solve false, .infraFailure => some (.solve true)
  | .suprem, .solve _, .panic needsRemesh =>
    some (if needsRemesh then .resumeRemesh else .resumeSolve)
  | .suprem, .resumeRemesh, _ => some .resumeSolve
  | _, _, _ => none

/-! ## The system -/

/-- How far `run_once` has come with a claimed job. -/
inductive Phase where
  | loading
  | ready (c : Container)
  | inside (c : Container)
  /-- `_execute` has returned or raised; the result is being recorded. -/
  | executed
  deriving DecidableEq, Repr

/-- A worker loop: between jobs, or with the job it has claimed, as the claim wrote it. -/
inductive Loop where
  | idle
  | executing (job : Job) (phase : Phase)
  deriving DecidableEq, Repr

/-- A cancel request whose `queue.cancel` returned `before`, and whether it has killed. -/
inductive Request where
  | none
  | answered (before : Job) (killed : Bool)
  deriving DecidableEq, Repr

structure Backend where
  queue : Queue
  loop : CallId → Loop
  request : CallId → Request

namespace Backend

/-- A step of the system. -/
inductive Label where
  /-- A database statement of a loop, a request or a starting process. A rollback is the
  caller's end: the exception leaves `run_once`, the request or the process. -/
  | stmt (w : CallId) (stmt : Queue.Stmt)
  | tick (d : Nat)
  /-- `_load_source`. -/
  | load (w : CallId)
  /-- A container is started. -/
  | start (w : CallId)
  /-- It has ended. -/
  | ends (w : CallId) (outcome : Outcome)
  /-- `_execute` returns or raises without starting a container it could have started. -/
  | leave (w : CallId)
  /-- `kill_container` of a cancel request. -/
  | kill (e : CallId)
  /-- The cancel request answers. -/
  | respond (e : CallId)
  deriving DecidableEq, Repr

/-- Which statements a caller sends in its present role: a loop that has executed a job
records that job, and stale rows are put back by the worker's own limit. -/
def permits (worker : Worker) (s : Backend) (w : CallId) (stmt : Queue.Stmt) : Bool :=
  match stmt, s.loop w, s.request w with
  | .commit, _, _ => true
  | .rollback, _, _ => true
  | .finish id _ _ _ _, .executing job .executed, .none => id = job.id
  | .finish _ _ _ _ _, _, _ => false
  | .requeue maxRuntime _, .idle, .none => maxRuntime = worker.maxRuntime
  | _, .idle, .none => true
  | _, _, _ => false

/-- The loop of `w` after a statement: a committed claim starts an execution, a committed
record ends it. -/
def loopAfter (s : Backend) (w : CallId) (stmt : Queue.Stmt) : Loop :=
  match stmt, s.queue.call w with
  | .commit, .updated .claim (job :: _) => .executing job .loading
  | .commit, .updated .finish _ => .idle
  | .rollback, _ => .idle
  | _, _ => s.loop w

/-- The request of `w` after a statement: `cancel` returns the row it read if its UPDATE hit
one, and `None` is answered with 409 at once. -/
def requestAfter (s : Backend) (w : CallId) (stmt : Queue.Stmt) : Request :=
  match stmt, s.queue.call w with
  | .commit, .updated (.cancel before) (_ :: _) => .answered before false
  | .rollback, _ => .none
  | _, _ => s.request w

def setLoop (s : Backend) (w : CallId) (l : Loop) : Backend :=
  { s with loop := Function.update s.loop w l }

def setRequest (s : Backend) (e : CallId) (r : Request) : Backend :=
  { s with request := Function.update s.request e r }

def step (worker : Worker) (max : Nat) (s : Backend) : Label → Option Backend
  | .stmt w stmt =>
    if s.permits worker w stmt then
      match s.queue.statement max w stmt with
      | none => none
      | some queue => some (({ s with queue := queue }.setLoop w (s.loopAfter w stmt)).setRequest w
          (s.requestAfter w stmt))
    else none
  | .tick d => some { s with queue := { s.queue with now := s.queue.now + d } }
  | .load w =>
    match s.loop w with
    | .executing job .loading => some (s.setLoop w (.executing job (.ready job.kind.first)))
    | _ => none
  | .start w =>
    match s.loop w with
    | .executing job (.ready c) => some (s.setLoop w (.executing job (.inside c)))
    | _ => none
  | .ends w outcome =>
    match s.loop w with
    | .executing job (.inside c) =>
      match job.kind.next c outcome with
      | some c' => some (s.setLoop w (.executing job (.ready c')))
      | none => some (s.setLoop w (.executing job .executed))
    | _ => none
  | .leave w =>
    match s.loop w with
    | .executing job .loading => some (s.setLoop w (.executing job .executed))
    | .executing job (.ready _) => some (s.setLoop w (.executing job .executed))
    | _ => none
  | .kill e =>
    match s.request e with
    | .answered before false =>
      if before.status = .running then some (s.setRequest e (.answered before true)) else none
    | _ => none
  | .respond e =>
    match s.request e with
    | .answered before killed =>
      -- `if before.status is JobStatus.RUNNING: kill_container(...)` comes first
      if before.status = .running ∧ killed = false then none else some (s.setRequest e .none)
    | .none => none

def init (now : Time) : Backend := ⟨Queue.init now, fun _ => .idle, fun _ => .none⟩

end Backend

/-- Any number of loops, requests and starting processes over one queue. -/
def backendLts (worker : Worker) (max : Nat) : Lts Backend Backend.Label where
  start s := ∃ now, s = Backend.init now
  step := Backend.step worker max

end TcadWebapp.Jobs
