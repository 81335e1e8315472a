import TcadWebapp.Jobs.Proofs.BackendInvariant

/-!
# What a cancel request stops

`JobQueue.cancel` reports the status it read before its UPDATE, and the worker does not look
at the status again between its containers. What a cancel that took effect does guarantee:
the row stays CANCELLED, nobody claims the job any more, and the only containers still
started for it are those left to the execution that was under way. If the row was read as
RUNNING, the kill comes before the answer.
-/

namespace TcadWebapp.Jobs.Backend

open Lts

/-- `w` starts a container of the job `id`. -/
def starts (w : CallId) (id : JobId) (x : Taken Backend Label) : Bool :=
  x.label = .start w &&
    match x.pre.loop w with
    | .executing job _ => job.id = id
    | .idle => false

variable {worker : Worker} {max : Nat} {later earlier : List (Taken Backend Label)}
  {x : Taken Backend Label} {s : Backend} {e : CallId} {before r : Job}

/-- The row of a cancelled job stays as the cancel wrote it. -/
theorem cancelled_stays (run : (backendLts worker max).Run (later ++ x :: earlier) s)
    (hx : Commits x e (.cancel before) r) :
    r.status = .cancelled ∧ s.queue.table.get? r.id = some r := by
  obtain ⟨run₀, hstep⟩ := run.before
  obtain ⟨inv, coherent⟩ := run₀.invariant (inductive_queue worker max)
  obtain ⟨⟨old, -, writes⟩, after⟩ := hx.row inv hstep
  have status : r.status = .cancelled := by
    obtain ⟨-, -, t, rfl⟩ := writes
    rfl
  refine ⟨status, ?_⟩
  have main := run.persists (P := fun t => (t.queue.Inv ∧ ∀ r ∈ t.queue.table.rows, r.Coherent) ∧
      t.queue.table.get? r.id = some r)
    ⟨(inductive_queue worker max).step _ _ _ ⟨inv, coherent⟩ hstep, after⟩ ?_
  · exact main.2
  · rintro y _ hy ⟨inv, hr⟩
    exact ⟨(inductive_queue worker max).step _ _ _ inv hy,
      finished_row_step inv.1 hy hr (by simp [status, JobStatus.isTerminal])⟩

/-- No claim wins a cancelled job. -/
theorem not_claimed_after_cancel (run : (backendLts worker max).Run (later ++ x :: earlier) s)
    (hx : Commits x e (.cancel before) r) {y : Taken Backend Label} (hy : y ∈ later)
    {w : CallId} {c : Job} (hc : Commits y w .claim c) : c.id ≠ r.id := by
  intro hid
  obtain ⟨l₂, l₁, rfl⟩ := List.append_of_mem hy
  rw [List.append_assoc] at run
  obtain ⟨run', hstep⟩ := run.before
  obtain ⟨inv, -⟩ := run'.invariant (inductive_queue worker max)
  obtain ⟨status, hr⟩ := cancelled_stays run' hx
  obtain ⟨⟨old, hold, writes⟩, -⟩ := hc.row inv hstep
  rw [hid, hr, Option.some.injEq] at hold
  have queued := writes.1
  rw [← hold, status] at queued
  cases queued

/-- The container starts that the execution of `id` by `w` has left. -/
def startsLeft (w : CallId) (id : JobId) (s : Backend) : Nat :=
  match s.loop w with
  | .executing job p => if job.id = id then p.budget job.kind else 0
  | .idle => 0

/-- A step that does not claim the job pays for a container start out of those left. -/
theorem startsLeft_step {id : JobId} {w : CallId} {y : Taken Backend Label}
    (h : step worker max y.pre y.label = some y.post)
    (other : ∀ c, Commits y w .claim c → c.id ≠ id) :
    (if starts w id y then 1 else 0) + startsLeft w id y.post ≤ startsLeft w id y.pre := by
  cases loopStep h w with
  | same start loop => simp [starts, start, startsLeft, loop]
  | claimed job rest label was loop =>
    have := other job ⟨label, _, was, List.mem_cons_self⟩
    simp [starts, label, startsLeft, loop, this]
  | moved job p p' was start budget loop =>
    by_cases hid : job.id = id
    · by_cases ha : y.label = .start w <;> simp_all [starts, startsLeft]
    · simp [starts, was, startsLeft, loop, hid]
  | freed stmt label loop => simp [starts, label, startsLeft, loop]

theorem startsLeft_le (w : CallId) (id : JobId) (s : Backend) : startsLeft w id s ≤ 4 := by
  unfold startsLeft
  split
  · split
    · exact Phase.budget_le _ _
    · omega
  · omega

/-- Who starts a container of a cancelled job was executing it when the cancel took
effect. -/
theorem executing_at_cancel (run : (backendLts worker max).Run (later ++ x :: earlier) s)
    (hx : Commits x e (.cancel before) r) {y : Taken Backend Label} (hy : y ∈ later)
    {w : CallId} (hs : starts w r.id y = true) : Executes x.pre w r.id := by
  obtain ⟨l₂, l₁, rfl⟩ := List.append_of_mem hy
  rw [List.append_assoc] at run
  obtain ⟨run', -⟩ := run.before
  have now : Executes y.pre w r.id := by
    unfold starts at hs
    cases hl : y.pre.loop w with
    | idle => simp [hl] at hs
    | executing job p =>
      rw [hl] at hs
      exact ⟨job, p, hl, by simpa using (Bool.and_eq_true_iff.mp hs).2⟩
  by_contra none
  -- who does not execute it does not come to, since nobody claims it
  refine run'.persists (P := fun t => ¬ Executes t w r.id) ?_ ?_ now
  · rintro ⟨job, p, loop, hid⟩
    rcases executing_origin run'.before.2 loop with ⟨p', loop'⟩ | ⟨label', images', was', -⟩
    · exact none ⟨job, p', loop', hid⟩
    · obtain ⟨label, images, was, -⟩ := hx
      obtain rfl : e = w := by simpa [label] using label'
      simp [was] at was'
  · rintro z hz hstep hpre ⟨job, p, loop, hid⟩
    rcases executing_origin hstep loop with ⟨p', loop'⟩ | claim
    · exact hpre ⟨job, p', loop', hid⟩
    · exact not_claimed_after_cancel run' hx hz claim hid

/-- A request that has to kill waits in that state until it kills, or dies. -/
theorem answered_step {t : Backend} {a : Label} {b : Job} {killed : Bool}
    (h : step worker max s a = some t)
    (hr : s.request e = .answered b killed ∧ s.queue.call e = .idle)
    (kill : a ≠ .kill e) (respond : a ≠ .respond e) (rollback : a ≠ .stmt e .rollback) :
    t.request e = .answered b killed ∧ t.queue.call e = .idle := by
  cases a with
  | stmt v stmt =>
    simp only [step] at h
    split at h
    · rename_i ok
      split at h
      · cases h
      · rename_i queue hq
        obtain rfl := Option.some.inj h
        by_cases hv : e = v
        · subst hv
          -- all that `e` may send is a commit, and it has nothing to commit
          cases stmt with
          | commit => simp [Queue.statement, hr.2] at hq
          | rollback => exact absurd rfl rollback
          | _ => cases hl : s.loop e <;> simp [permits, hr.1, hl] at ok
        · have call := (Queue.effect_of_statement hq).call_of_ne hv
          exact ⟨(Function.update_of_ne hv _ _).trans hr.1, call.trans hr.2⟩
    · cases h
  | tick d =>
    cases h
    exact hr
  | load w =>
    simp only [step] at h
    split at h <;> cases h
    exact hr
  | start w =>
    simp only [step] at h
    split at h <;> cases h
    exact hr
  | ends w outcome =>
    simp only [step] at h
    split at h
    · split at h <;> cases h <;> exact hr
    · cases h
  | leave w =>
    simp only [step] at h
    split at h <;> cases h <;> exact hr
  | kill v =>
    have hv : e ≠ v := fun hv => kill (hv ▸ rfl)
    simp only [step] at h
    split at h
    · split at h <;> cases h
      exact ⟨(Function.update_of_ne hv _ _).trans hr.1, hr.2⟩
    · cases h
  | respond v =>
    have hv : e ≠ v := fun hv => respond (hv ▸ rfl)
    simp only [step] at h
    split at h
    · split at h <;> cases h
      exact ⟨(Function.update_of_ne hv _ _).trans hr.1, hr.2⟩
    · cases h

/-- The commit of a cancel that took effect leaves the request with the row it read. -/
theorem answered_of_cancel (h : step worker max x.pre x.label = some x.post)
    (hx : Commits x e (.cancel before) r) :
    x.post.request e = .answered before false ∧ x.post.queue.call e = .idle := by
  obtain ⟨label, images, was, hr⟩ := hx
  obtain ⟨i, rest, rfl⟩ := List.exists_cons_of_ne_nil (List.ne_nil_of_mem hr)
  have ok : permits worker x.pre e .commit = true := by simp [permits]
  simp only [label, step, ok, if_true, Queue.statement, was, Option.some.injEq] at h
  rw [← h]
  constructor
  · simp [setRequest, requestAfter, was]
  · simp [setRequest, setLoop, Queue.enter]

/-- A cancel that read RUNNING and took effect kills before it answers. -/
theorem kill_before_respond {y : Taken Backend Label} {l₁ l₂ : List (Taken Backend Label)}
    (run : (backendLts worker max).Run (l₂ ++ y :: (l₁ ++ x :: earlier)) s)
    (hx : Commits x e (.cancel before) r) (running : before.status = .running)
    (hy : y.label = .respond e) (alive : ∀ z ∈ l₁, z.label ≠ .stmt e .rollback) :
    ∃ z ∈ l₁, z.label = .kill e := by
  obtain ⟨run', answer⟩ := run.before
  by_contra none
  let Waits (t : Backend) := t.request e = .answered before false ∧ t.queue.call e = .idle
  have refused {t u : Backend} (hw : Waits t) (h : step worker max t (.respond e) = some u) :
      False := by
    simp [step, hw.1, running] at h
  have main : Waits y.pre := by
    refine run'.persists (P := Waits) (answered_of_cancel run'.before.2 hx) ?_
    rintro z hz hstep hw
    refine answered_step hstep hw (fun k => none ⟨z, hz, k⟩) ?_ (alive z hz)
    intro hl
    have hstep : step worker max z.pre z.label = some z.post := hstep
    rw [hl] at hstep
    exact refused hw hstep
  have answer : step worker max y.pre y.label = some y.post := answer
  rw [hy] at answer
  exact refused main answer

/-- What a cancel that took effect (the step `x`, of the row it wrote as `r`) guarantees of
the steps after it. -/
structure Stops (later : List (Taken Backend Label)) (x : Taken Backend Label) (e : CallId)
    (before r : Job) (s : Backend) : Prop where
  status : r.status = .cancelled
  row : s.queue.table.get? r.id = some r
  claim : ∀ y ∈ later, ∀ w c, Commits y w .claim c → c.id ≠ r.id
  underway : ∀ y ∈ later, ∀ w, starts w r.id y = true → Executes x.pre w r.id
  starts : ∀ w, later.countP (starts w r.id) ≤ 4
  kill : before.status = .running → ∀ l₂ y l₁, later = l₂ ++ y :: l₁ → y.label = .respond e →
    (∀ z ∈ l₁, z.label ≠ .stmt e .rollback) → ∃ z ∈ l₁, z.label = .kill e

/-- A cancelled job is not claimed again, its containers are those left to the execution
under way, at most four, and a request that read RUNNING kills before it answers. -/
theorem cancel_stops (run : (backendLts worker max).Run (later ++ x :: earlier) s)
    (hx : Commits x e (.cancel before) r) : Stops later x e before r s where
  status := (cancelled_stays run hx).1
  row := (cancelled_stays run hx).2
  claim _ hy _ _ hc := not_claimed_after_cancel run hx hy hc
  underway _ hy _ hs := executing_at_cancel run hx hy hs
  starts w := by
    have := run.countP_le (f := startsLeft w r.id) (p := Backend.starts w r.id)
      fun y hy hstep => startsLeft_step hstep fun c hc => not_claimed_after_cancel run hx hy hc
    have := startsLeft_le w r.id x.post
    omega
  kill running l₂ y l₁ split hy alive := by
    subst split
    rw [List.append_assoc] at run
    exact kill_before_respond run hx running hy alive

/-! ## What it does not stop -/

/-- A submitted job, and a cancel request up to its UPDATE; between the read of the request
and the UPDATE a worker claims the job, or it has claimed it before. -/
def cancelRun (readFirst : Bool) : List Label :=
  let new : NewJob := ⟨1, none, "/data/runs/job_1", none, some "", .suprem⟩
  let claim : List Label :=
    [.stmt 2 .count, .stmt 2 .select, .stmt 2 (.claim 0), .stmt 2 .commit]
  let read : Label := .stmt 9 (.read 1)
  [.stmt 1 (.insert new), .stmt 1 .commit] ++
    (if readFirst then read :: claim else claim ++ [read]) ++ [.stmt 9 (.cancel 0)]

/-- The run of `cancelRun`, up to the commit of the cancel. -/
private def atCancel (readFirst : Bool) : List (Taken Backend Label) × Backend :=
  ((backendLts (buildWorker 600) 4).exec (init 0) (cancelRun readFirst)).get
    (by cases readFirst <;> decide)

private theorem run_atCancel (readFirst : Bool) :
    (backendLts (buildWorker 600) 4).Run (atCancel readFirst).1 (atCancel readFirst).2 :=
  Run.of_exec ⟨0, rfl⟩ (Option.some_get _).symm

/-- The two halves of "cancelling stops the computation" fail: a cancel that took effect on
a RUNNING row does not always kill, and also where it has killed, a container is started
after the answer. -/
theorem cancel_does_not_stop :
    (¬ ∀ worker max l₂ y l₁ x earlier s e before r, (backendLts worker max).Run
        (l₂ ++ y :: (l₁ ++ x :: earlier)) s → Commits x e (.cancel before) r →
      (∃ old, x.pre.queue.table.get? r.id = some old ∧ old.status = .running) →
      y.label = .respond e → ∃ z ∈ l₁, z.label = .kill e) ∧
    (¬ ∀ worker max l₂ y l₁ x earlier s e before r, (backendLts worker max).Run
        (l₂ ++ y :: (l₁ ++ x :: earlier)) s → Commits x e (.cancel before) r →
      (∃ old, x.pre.queue.table.get? r.id = some old ∧ old.status = .running) →
      y.label = .respond e → ∀ z ∈ l₂, ∀ w, starts w r.id z = false) := by
  constructor
  · intro kills
    have run := ((run_atCancel true).next_get (a := .stmt 9 .commit) (by decide)).next_get
      (a := .respond 9) (by decide)
    obtain ⟨z, hz, -⟩ := kills _ _ [] _ [] _ _ _ 9 _ _ run ⟨rfl, _, rfl, List.mem_cons_self⟩
      ⟨_, rfl, rfl⟩ rfl
    cases hz
  · intro stops
    have run := ((((((run_atCancel false).next_get (a := .stmt 9 .commit) (by decide)).next_get
      (a := .kill 9) (by decide)).next_get (a := .respond 9) (by decide)).next_get
      (a := .load 2) (by decide)).next_get (a := .start 2) (by decide))
    have := stops _ _ [_, _] _ [_] _ _ _ 9 _ _ run ⟨rfl, _, rfl, List.mem_cons_self⟩
      ⟨_, rfl, rfl⟩ rfl _ List.mem_cons_self 2
    cases this

theorem cancel_stops_raced : ∃ later x earlier before r s,
    (backendLts (buildWorker 600) 4).Run (later ++ x :: earlier) s ∧
      Commits x 9 (.cancel before) r ∧ Stops later x 9 before r s := by
  have run : (backendLts _ _).Run ([_] ++ _ :: _) _ :=
    ((run_atCancel true).next_get (a := .stmt 9 .commit) (by decide)).next_get
      (a := .respond 9) (by decide)
  exact ⟨_, _, _, _, _, _, run, ⟨rfl, _, rfl, List.mem_cons_self⟩,
    cancel_stops run ⟨rfl, _, rfl, List.mem_cons_self⟩⟩

end TcadWebapp.Jobs.Backend
