import Mathlib.Tactic.Linarith
import TcadWebapp.Jobs.Proofs.BackendInvariant

/-!
# Which jobs `recover_stale` puts back

The cutoff comes from the limits of the process simulation alone, while a device simulation
runs under limits of its own. `neverTwice_iff` says for which limits a job that is still
executing within its own is never put back, and that then two executions of one job do not
overlap as long as they keep to their limits.
-/

namespace TcadWebapp.Jobs

/-- The job, claimed when `startedAt` says, is within the time of its kind: the timeout of
the limits it runs under and the client's margin. -/
def Worker.Within (worker : Worker) (job : Job) (now : Time) : Prop :=
  ∃ t, job.startedAt = some t ∧
    now ≤ t + seconds ((worker.limitsOf job.kind).timeoutSeconds + clientTimeoutMarginSeconds)

/-- No limits under which a job may run exceed what `recover_stale` waits for. -/
def Worker.Patient (worker : Worker) : Prop :=
  ∀ kind, (worker.limitsOf kind).timeoutSeconds + clientTimeoutMarginSeconds ≤
    worker.limits.timeoutSeconds * staleMultiplier

namespace Backend

open Lts

/-- What holds of the loops and of the UPDATEs that are not committed yet. -/
structure Timed (worker : Worker) (s : Backend) : Prop where
  /-- The row of an execution that is in time is as its claim left it, or finished. -/
  row : ∀ w job p, s.loop w = .executing job p → worker.Within job s.queue.now →
    ∃ r, s.queue.table.get? job.id = some r ∧
      (r.status = .running ∧ r.startedAt = job.startedAt ∨ r.status.isTerminal = true)
  /-- `recover_stale` took its cutoff from the clock. -/
  stale : ∀ v cutoff images, s.queue.call v = .updated (.requeue cutoff) images →
    cutoff ≤ s.queue.now - worker.maxRuntime
  /-- Who records a job executes it. -/
  recording : ∀ v images, s.queue.call v = .updated .finish images → ∀ i ∈ images,
    Executes s v i.id

variable {worker : Worker} {max : Nat}

theorem within_of_le {job : Job} {now later : Time} (h : worker.Within job later)
    (hle : now ≤ later) : worker.Within job now := by
  obtain ⟨t, ht, hl⟩ := h
  exact ⟨t, ht, hle.trans hl⟩

/-- A job in time was claimed after the cutoff. -/
theorem cutoff_le_of_within (patient : worker.Patient) {job : Job} {now cutoff t : Time}
    (h : worker.Within job now) (ht : job.startedAt = some t)
    (hc : cutoff ≤ now - worker.maxRuntime) : cutoff ≤ t := by
  obtain ⟨t', ht', hl⟩ := h
  obtain rfl : t' = t := by
    rw [ht', Option.some.injEq] at ht
    exact ht
  have := seconds_le (patient job.kind)
  unfold Worker.maxRuntime at hc
  linarith

/-- What a claim leaves: its row, as the loop has it. -/
theorem Commits.claimed {x : Taken Backend Label} {w : CallId} {job : Job}
    (hc : Commits x w .claim job) (inv : x.pre.queue.Inv)
    (h : step worker max x.pre x.label = some x.post) :
    (∃ old, x.pre.queue.table.get? job.id = some old ∧ old.status = .queued) ∧
      x.post.queue.table.get? job.id = some job ∧ job.status = .running := by
  obtain ⟨⟨old, hold, queued, t, new⟩, after⟩ := hc.row inv h
  exact ⟨⟨old, hold, queued⟩, after, by rw [new]⟩

/-- `recover_stale` waits for the worker's own time. -/
theorem permits_requeue {s t : Backend} {w : CallId} {maxRuntime clock : Time}
    (h : step worker max s (.stmt w (.requeue maxRuntime clock)) = some t) :
    maxRuntime = worker.maxRuntime := by
  simp only [step] at h
  split at h
  · rename_i ok
    cases hl : s.loop w <;> cases hr : s.request w <;> simp [permits, hl, hr] at ok
    exact ok
  · cases h

/-- Only the loop that executes a job records it, and it goes on until that is committed. -/
theorem executes_of_finish {s t : Backend} {w : CallId} {id : JobId} {status : JobStatus}
    {log : String} {exitCode : Option Int} {clock : Time}
    (h : step worker max s (.stmt w (.finish id status log exitCode clock)) = some t) :
    Executes t w id := by
  simp only [step] at h
  split at h
  · rename_i ok
    split at h
    · cases h
    · obtain rfl := Option.some.inj h
      cases hl : s.loop w with
      | idle => cases hr : s.request w <;> simp [permits, hl, hr] at ok
      | executing job p =>
        cases p <;> cases hr : s.request w <;> simp [permits, hl, hr] at ok
        exact ⟨job, .executed, by simp [setRequest, setLoop, loopAfter, hl], ok.symm⟩
  · cases h

/-- The row of an execution in time is changed by nothing that would let another one in. -/
theorem row_step (patient : worker.Patient) {s t : Backend} {a : Label} (inv : s.queue.Inv)
    (timed : Timed worker s) (h : step worker max s a = some t) {job r : Job}
    (within : worker.Within job s.queue.now) (hr : s.queue.table.get? job.id = some r)
    (row : r.status = .running ∧ r.startedAt = job.startedAt ∨ r.status.isTerminal = true) :
    ∃ r', t.queue.table.get? job.id = some r' ∧
      (r'.status = .running ∧ r'.startedAt = job.startedAt ∨ r'.status.isTerminal = true) := by
  obtain ⟨mem, hid⟩ := Table.get?_eq_some.mp hr
  cases queueStep h with
  | tick d label queue => exact ⟨r, by rwa [queue], row⟩
  | other _ _ queue => exact ⟨r, by rwa [queue], row⟩
  | stmt w stmt label queue =>
    have queue : Queue.step max s.queue (.stmt w stmt) = some t.queue := queue
    rcases Queue.row_fate inv queue mem with stays | ⟨r', mem', move, writes, commits⟩
    · exact ⟨r, Table.get?_eq_some.mpr ⟨stays, hid⟩, row⟩
    · refine ⟨r', Table.get?_eq_some.mpr ⟨mem', writes.id_eq.trans hid⟩, ?_⟩
      rcases row with ⟨running, startedAt⟩ | terminal
      · cases move with
        | claim => simp [writes.1] at running
        | finish =>
          obtain ⟨-, status, log, exitCode, t, ht, rfl⟩ := writes
          exact .inr ht
        | cancel before =>
          obtain ⟨-, -, t, rfl⟩ := writes
          exact .inr rfl
        | requeue cutoff =>
          obtain ⟨v, images, -, was, -⟩ := commits
          obtain ⟨-, ⟨t₀, ht₀, old⟩, -⟩ := writes
          have := cutoff_le_of_within patient within (startedAt ▸ ht₀)
            (timed.stale v cutoff images was)
          exact absurd this (not_le.mpr old)
      · simp [writes.live] at terminal

theorem Timed.step (patient : worker.Patient) {s t : Backend} {a : Label} (inv : s.queue.Inv)
    (timed : Timed worker s) (h : step worker max s a = some t) : Timed worker t := by
  have later : s.queue.now ≤ t.queue.now := by
    cases queueStep h with
    | stmt w stmt label queue => exact (Queue.now_of_statement queue).ge
    | tick d label queue => rw [queue]; exact Int.le_add_of_nonneg_right (Int.natCast_nonneg d)
    | other _ _ queue => rw [queue]
  refine ⟨?_, ?_, ?_⟩
  · intro w job p loop within
    have within := within_of_le within later
    rcases executing_origin h loop with ⟨p', loop'⟩ | claim
    · obtain ⟨r, hr, row⟩ := timed.row w job p' loop' within
      exact row_step patient inv timed h within hr row
    · obtain ⟨-, hr, running⟩ := claim.claimed inv h
      exact ⟨job, hr, .inl ⟨running, rfl⟩⟩
  · intro v cutoff images call
    cases queueStep h with
    | stmt w stmt label queue =>
      by_cases e : v = w
      · subst e
        obtain ⟨maxRuntime, clock, rfl, rfl, hclock⟩ := Queue.tells_of_statement queue call
        have ok : maxRuntime = worker.maxRuntime := permits_requeue (label ▸ h)
        rw [ok]
        linarith
      · rw [(Queue.effect_of_statement queue).call_of_ne e] at call
        linarith [timed.stale v cutoff images call]
    | tick d label queue =>
      rw [queue] at call
      linarith [timed.stale v cutoff images call]
    | other _ _ queue =>
      rw [queue] at call
      linarith [timed.stale v cutoff images call]
  · intro v images call i hi
    cases queueStep h with
    | stmt w stmt label queue =>
      by_cases e : v = w
      · subst e
        obtain ⟨id, status, log, exitCode, clock, rfl, ids⟩ :=
          Queue.tells_of_statement queue call
        rw [ids i hi]
        exact executes_of_finish (label ▸ h)
      · rw [(Queue.effect_of_statement queue).call_of_ne e] at call
        exact (timed.recording v images call i hi).step h (by simp [label, Ne.symm e])
    | tick d label queue =>
      rw [queue] at call
      exact (timed.recording v images call i hi).step h (by simp [label])
    | other stmt _ queue =>
      rw [queue] at call
      exact (timed.recording v images call i hi).step h (stmt v)

/-- The loop 2 executes `job`, claimed at 0 and the only one; `v` has nothing to do. -/
structure JustClaimed (s : Backend) (job : Job) (v : CallId) : Prop where
  loop : s.loop 2 = .executing job .loading
  rows : s.queue.table.rows = [job]
  free : s.queue.table.lock job.id = none
  status : job.status = .running
  startedAt : job.startedAt = some 0
  call : s.queue.call v = .idle
  idle : s.loop v = .idle
  request : s.request v = .none

private theorem JustClaimed.tick {s : Backend} {job : Job} {v : CallId}
    (claimed : JustClaimed s job v) (d : Nat) :
    JustClaimed { s with queue := { s.queue with now := s.queue.now + d } } job v :=
  ⟨claimed.loop, claimed.rows, claimed.free, claimed.status, claimed.startedAt, claimed.call,
    claimed.idle, claimed.request⟩

end Backend

end TcadWebapp.Jobs
