import TcadWebapp.Jobs.LifeCycle

/-!
# What a row records, over a whole run

The columns of a row agree with its status (`Job.Coherent`), a finished row stays as it is,
and the order of claims and requeues comes from the refinement into the life cycle.
-/

namespace TcadWebapp.Jobs

/-- The columns of a row agree with its status. -/
structure Job.Coherent (r : Job) : Prop where
  finishedAt : r.finishedAt.isSome = r.status.isTerminal
  running : r.status = .running → r.startedAt.isSome
  queued : r.status = .queued → r.startedAt = none
  log : r.status.isTerminal = false → r.log = none
  exitCode : r.status.isTerminal = false → r.exitCode = none

theorem Job.Fresh.coherent {r : Job} (h : r.Fresh) : r.Coherent where
  finishedAt := by simp [h.finishedAt, h.status, JobStatus.isTerminal]
  running hs := by simp [h.status] at hs
  queued _ := h.startedAt
  log _ := h.log
  exitCode _ := h.exitCode

theorem Move.Writes.coherent {move : Move} {old new : Job} (h : move.Writes old new)
    (ho : old.Coherent) : new.Coherent := by
  cases move with
  | claim =>
    obtain ⟨hs, t, rfl⟩ := h
    have live : old.status.isTerminal = false := by simp [hs, JobStatus.isTerminal]
    refine ⟨?_, by simp, by simp, fun _ => ho.log live, fun _ => ho.exitCode live⟩
    have := ho.finishedAt
    rw [live] at this
    simpa [JobStatus.isTerminal] using this
  | finish =>
    obtain ⟨hs, status, log, exitCode, t, ht, rfl⟩ := h
    have ne : status ≠ .running ∧ status ≠ .queued := by
      constructor <;> rintro rfl <;> simp [JobStatus.isTerminal] at ht
    exact ⟨by simp [ht], fun e => absurd e ne.1, fun e => absurd e ne.2, by simp [ht],
      by simp [ht]⟩
  | cancel before =>
    obtain ⟨-, hs, t, rfl⟩ := h
    exact ⟨by simp [JobStatus.isTerminal], by simp, by simp, fun _ => ho.log hs,
      fun _ => ho.exitCode hs⟩
  | requeue cutoff =>
    obtain ⟨hs, -, rfl⟩ := h
    have live : old.status.isTerminal = false := by simp [hs, JobStatus.isTerminal]
    refine ⟨?_, by simp, by simp, fun _ => ho.log live, fun _ => ho.exitCode live⟩
    have := ho.finishedAt
    rw [live] at this
    simpa [JobStatus.isTerminal] using this

/-- No move touches a finished row. -/
theorem Move.Writes.live {move : Move} {old new : Job} (h : move.Writes old new) :
    old.status.isTerminal = false := by
  cases move with
  | claim => simp [h.1, JobStatus.isTerminal]
  | finish => simp [h.1, JobStatus.isTerminal]
  | cancel before => exact h.2.1
  | requeue cutoff => simp [h.1, JobStatus.isTerminal]

namespace Queue

open Lts

theorem inductive_coherent (max : Nat) :
    (queueLts max).Inductive fun q => q.Inv ∧ ∀ r ∈ q.table.rows, r.Coherent where
  start := by
    rintro _ ⟨now, rfl⟩
    exact ⟨inv_init now, by simp [init, Table.empty]⟩
  step q a q' := by
    rintro ⟨inv, all⟩ h
    refine ⟨(inductive_inv max).step q a q' inv h, ?_⟩
    intro r' hr'
    rcases row_origin inv h hr' with hr | ⟨fresh, -⟩ | ⟨r, hr, move, writes, -⟩
    · exact all r' hr
    · exact fresh.coherent
    · exact writes.coherent (all r hr)

theorem finished_row_step {max : Nat} {q q' : Queue} {a : Label} (inv : q.Inv)
    (h : step max q a = some q') {r : Job} (hr : r ∈ q.table.rows)
    (hs : r.status.isTerminal = true) : r ∈ q'.table.rows := by
  rcases row_fate inv h hr with stays | ⟨r', -, move, writes, -⟩
  · exact stays
  · simp [writes.live] at hs

/-- A finished row is never changed again, in any of its columns. -/
theorem finished_row_stays {max : Nat} {h : List (Taken Queue Label)} {q : Queue}
    (run : (queueLts max).Run h q) : ∀ t ∈ visited h q, ∀ r ∈ t.table.rows,
      r.status.isTerminal = true → r ∈ q.table.rows := by
  induction run with
  | start _ =>
    intro t ht r hr _
    rwa [List.mem_singleton.mp ht] at hr
  | @next h s t a hrun hstep ih =>
    intro u hu r hr hs
    rcases List.mem_cons.mp hu with rfl | hu
    · exact hr
    · have inv := hrun.invariant (inductive_inv max)
      exact finished_row_step inv hstep (ih u hu r hr hs) hs

/-- Log and exit code come from a `mark_finished` that found the row RUNNING. -/
theorem recorded_by_finish {max : Nat} {q q' : Queue} {a : Label} (inv : q.Inv)
    (all : ∀ r ∈ q.table.rows, r.Coherent) (h : step max q a = some q') {r' : Job}
    (hr' : r' ∈ q'.table.rows) (set : r'.log.isSome ∨ r'.exitCode.isSome) :
    r' ∈ q.table.rows ∨ ∃ r ∈ q.table.rows, r.id = r'.id ∧ r.status = .running ∧
      Commits ⟨q, a, q'⟩ .finish r' := by
  rcases row_origin inv h hr' with hr | ⟨fresh, -⟩ | ⟨r, hr, move, writes, commits⟩
  · exact .inl hr
  · simp [fresh.log, fresh.exitCode] at set
  · have blank : r.log = none ∧ r.exitCode = none :=
      ⟨(all r hr).log writes.live, (all r hr).exitCode writes.live⟩
    cases move with
    | finish => exact .inr ⟨r, hr, writes.id_eq.symm, writes.1, commits⟩
    | claim =>
      obtain ⟨-, t, rfl⟩ := writes
      simp [blank] at set
    | cancel before =>
      obtain ⟨-, -, t, rfl⟩ := writes
      simp [blank] at set
    | requeue cutoff =>
      obtain ⟨-, -, rfl⟩ := writes
      simp [blank] at set

/-- A `claim_next` wins the job `id`. -/
def Wins (x : Taken Queue Label) (id : JobId) : Prop := ∃ r, Commits x .claim r ∧ r.id = id

/-- A `requeue_stale` puts the job `id` back. -/
def PutsBack (x : Taken Queue Label) (id : JobId) : Prop :=
  ∃ cutoff r, Commits x (.requeue cutoff) r ∧ r.id = id

theorem Wins.event {x : Taken Queue Label} {id : JobId} (h : Wins x id) :
    event id x = some .claim := by
  obtain ⟨r, ⟨w, images, label, was, hr⟩, rfl⟩ := h
  have : r.id ∈ images.map Job.id := List.mem_map.mpr ⟨r, hr, rfl⟩
  simp only [Queue.event, label, was, this, if_true, Move.event]

theorem putsBack_of_event {x : Taken Queue Label} {id : JobId}
    (h : event id x = some .requeue) : PutsBack x id := by
  obtain ⟨w, label, ⟨job, -, -, e⟩ | ⟨move, images, was, hid, e⟩⟩ := event_eq_some h
  · cases e
  · cases move with
    | requeue cutoff =>
      obtain ⟨r, hr, rfl⟩ := List.mem_map.mp hid
      exact ⟨cutoff, r, ⟨w, images, label, was, hr⟩, rfl⟩
    | _ => cases e

/-- Two `claim_next` calls win the same job only with a `requeue_stale` of it in between. -/
theorem putsBack_between_wins {max : Nat} {later between earlier : List (Taken Queue Label)}
    {x y : Taken Queue Label} {q : Queue} {id : JobId}
    (run : (queueLts max).Run (later ++ x :: (between ++ y :: earlier)) q)
    (hx : Wins x id) (hy : Wins y id) : ∃ z ∈ between, PutsBack z id := by
  let R := refinesLife max id
  have life := R.run (inductive_inv max) run
  rw [R.history_append, R.history_cons hx.event, R.history_append,
    R.history_cons hy.event] at life
  obtain ⟨z', hz', hl⟩ := requeue_between_claims life rfl rfl
  obtain ⟨z, hz, he⟩ := R.mem_history hz'
  rw [hl] at he
  exact ⟨z, hz, putsBack_of_event he⟩

/-- The life cycle of all jobs over a run with history `h` that has reached `q`. -/
structure LifeCycle (h : List (Taken Queue Label)) (q : Queue) : Prop where
  finishedAt : ∀ r ∈ q.table.rows, r.finishedAt.isSome ↔ r.status.isTerminal = true
  running : ∀ r ∈ q.table.rows, r.status = .running → r.startedAt.isSome
  queued : ∀ r ∈ q.table.rows, r.status = .queued →
    r.startedAt = none ∧ r.finishedAt = none ∧ r.log = none ∧ r.exitCode = none
  finished : ∀ t ∈ visited h q, ∀ r ∈ t.table.rows,
    r.status.isTerminal = true → r ∈ q.table.rows
  recorded : ∀ x ∈ h, ∀ r' ∈ x.post.table.rows, (r'.log.isSome ∨ r'.exitCode.isSome) →
    r' ∈ x.pre.table.rows ∨ ∃ r ∈ x.pre.table.rows, r.id = r'.id ∧ r.status = .running ∧
      Commits x .finish r'
  wins : ∀ later between earlier x y id, h = later ++ x :: (between ++ y :: earlier) →
    Wins x id → Wins y id → ∃ z ∈ between, PutsBack z id

/-- Every run of the queue keeps the life cycle of its jobs. -/
theorem lifeCycle_of_run {max : Nat} {h : List (Taken Queue Label)} {q : Queue}
    (run : (queueLts max).Run h q) : LifeCycle h q := by
  obtain ⟨inv, all⟩ := run.invariant (inductive_coherent max)
  refine ⟨?_, fun r hr => (all r hr).running, ?_, finished_row_stays run, ?_, ?_⟩
  · intro r hr
    rw [(all r hr).finishedAt]
  · intro r hr hs
    have c := all r hr
    have live : r.status.isTerminal = false := by simp [hs, JobStatus.isTerminal]
    have : r.finishedAt = none := by
      have := c.finishedAt
      rw [live] at this
      simpa using this
    exact ⟨c.queued hs, this, c.log live, c.exitCode live⟩
  · intro x hx r' hr' set
    obtain ⟨h', run', hstep, -⟩ := run.of_mem hx
    obtain ⟨inv', all'⟩ := run'.invariant (inductive_coherent max)
    exact recorded_by_finish inv' all' hstep hr' set
  · rintro later between earlier x y id rfl hx hy
    exact putsBack_between_wins run hx hy

/-- A worker claims a job, loses it to `requeue_stale`, claims it again and finishes it. -/
def twoClaims : List Label :=
  let new : NewJob := ⟨1, none, "/data/runs/job_1", none, some "", .suprem⟩
  [.stmt 1 (.insert new), .stmt 1 .commit,
    .stmt 2 .count, .stmt 2 .select, .stmt 2 (.claim 0), .stmt 2 .commit,
    .tick 1, .stmt 3 (.requeue 0 1), .stmt 3 .commit,
    .stmt 2 .count, .stmt 2 .select, .stmt 2 (.claim 1), .stmt 2 .commit,
    .stmt 2 (.finish 1 .succeeded "log" (some 0) 1), .stmt 2 .commit]

theorem lifeCycle_of_twoClaims : ∃ h q, (queueLts 4).Run h q ∧
    (q.table.get? 1).map Job.status = some .succeeded ∧ LifeCycle h q := by
  have ends : ((queueLts 4).exec (init 0) twoClaims).map
      (fun r => (r.2.table.get? 1).map Job.status) = some (some .succeeded) := by
    decide
  obtain ⟨⟨h, q⟩, he, status⟩ := Option.map_eq_some_iff.mp ends
  exact ⟨h, q, Run.of_exec ⟨0, rfl⟩ he, status, lifeCycle_of_run (Run.of_exec ⟨0, rfl⟩ he)⟩

end Queue

end TcadWebapp.Jobs
