import TcadWebapp.Jobs.Queue

/-!
# What a statement of the queue can do

One inversion lemma for all statements (`effect_of_statement`), and from it the invariant of
the sessions: an image that a call holds still replaces a row the UPDATE hit. Later modules
argue from `step_rows`, which says how the committed rows change, and do not look at the
statements again.
-/

namespace TcadWebapp.Jobs

/-- What a move writes in place of a row: the WHERE clause held of the old row, and the SET
clause made the new one. -/
def Move.Writes (move : Move) (old new : Job) : Prop :=
  match move with
  | .claim => old.status = .queued ∧
      ∃ t, new = { old with status := .running, startedAt := some t }
  | .finish => old.status = .running ∧
      ∃ status log exitCode t, status.isTerminal = true ∧ new = { old with
        status := status, log := some log, exitCode := exitCode, finishedAt := some t }
  | .cancel before => old.id = before.id ∧ old.status.isTerminal = false ∧
      ∃ t, new = { old with status := .cancelled, finishedAt := some t }
  | .requeue cutoff => old.status = .running ∧ (∃ t, old.startedAt = some t ∧ t < cutoff) ∧
      new = { old with status := .queued, startedAt := none }

theorem Move.Writes.id_eq {move : Move} {old new : Job} (h : move.Writes old new) :
    new.id = old.id := by
  cases move with
  | claim => obtain ⟨-, t, rfl⟩ := h; rfl
  | finish => obtain ⟨-, status, log, exitCode, t, -, rfl⟩ := h; rfl
  | cancel before => obtain ⟨-, -, t, rfl⟩ := h; rfl
  | requeue cutoff => obtain ⟨-, -, rfl⟩ := h; rfl

/-- A row as `enqueue` adds it: waiting, with nothing recorded. -/
structure Job.Fresh (r : Job) : Prop where
  status : r.status = .queued
  startedAt : r.startedAt = none
  finishedAt : r.finishedAt = none
  log : r.log = none
  exitCode : r.exitCode = none

theorem fresh_toJob (new : NewJob) (id : JobId) (t : Time) : (new.toJob id t).Fresh :=
  ⟨rfl, rfl, rfl, rfl, rfl⟩

/-- A call that holds no images; if it has inserted a row, the row is fresh. -/
def Call.Quiet : Call → Prop
  | .inserted job => job.Fresh
  | .updated _ _ => False
  | _ => True

namespace Queue

theorem execute_eq_some {q q' : Queue} {w : CallId} {u : Update} {next : List Job → Call}
    (h : q.execute w u next = some q') :
    ∃ images, q.table.update w u.hits u.set = some (images, q'.table) ∧
      q'.call = Function.update q.call w (next images) ∧ q'.now = q.now := by
  unfold execute at h
  split at h
  · cases h
  · rename_i images table hu
    cases h
    exact ⟨images, hu, rfl, rfl⟩

theorem call_eq_update {q : Queue} {w : CallId} {c : Call} (h : q.call w = c) :
    q.call = Function.update q.call w c := by
  rw [← h, Function.update_eq_self]

/-- The UPDATE of a move: what it sets in the rows it hits is what the move writes. -/
structure Update.Of (u : Update) (move : Move) : Prop where
  id : ∀ r, (u.set r).id = r.id
  writes : ∀ r, u.hits r = true → move.Writes r (u.set r)

theorem claimUpdate_of (candidate : JobId) (t : Time) : (claimUpdate candidate t).Of .claim where
  id _ := rfl
  writes r h := by
    have h : r.id = candidate ∧ r.status = .queued := by simpa [claimUpdate] using h
    exact ⟨h.2, t, rfl⟩

theorem finishUpdate_of {id : JobId} {status : JobStatus} {log : String} {exitCode : Option Int}
    {t : Time} (hs : status.isTerminal = true) :
    (finishUpdate id status log exitCode t).Of .finish where
  id _ := rfl
  writes r h := by
    have h : r.id = id ∧ r.status = .running := by simpa [finishUpdate] using h
    exact ⟨h.2, status, log, exitCode, t, hs, rfl⟩

theorem cancelUpdate_of (before : Job) (t : Time) :
    (cancelUpdate before.id t).Of (.cancel before) where
  id _ := rfl
  writes r h := by
    have h : r.id = before.id ∧ (r.status = .queued ∨ r.status = .running) := by
      simpa [cancelUpdate] using h
    refine ⟨h.1, ?_, t, rfl⟩
    rcases h.2 with hs | hs <;> simp [hs, JobStatus.isTerminal]

theorem requeueUpdate_of (cutoff : Time) : (requeueUpdate cutoff).Of (.requeue cutoff) where
  id _ := rfl
  writes r h := by
    have h : r.status = .running ∧ ∃ t, r.startedAt = some t ∧ t < cutoff := by
      simpa [requeueUpdate, Option.any_eq_true] using h
    exact ⟨h.1, h.2, rfl⟩

/-- Everything a statement of `w` can do to the table and to its call. -/
inductive Effect (q q' : Queue) (w : CallId) (s : Stmt) : Prop
  | quiet (c : Call) (hc : c.Quiet) (table : q'.table = q.table)
      (call : q'.call = Function.update q.call w c)
  | executed (u : Update) (move : Move) (images : List Job) (hu : u.Of move)
      (table : q.table.update w u.hits u.set = some (images, q'.table))
      (single : move = .claim → ∃ i, images = [i])
      (call : q'.call = Function.update q.call w (.updated move images))
  | inserted (job : Job) (stmt : s = .commit) (was : q.call w = .inserted job)
      (table : q.table.insert job = some q'.table)
      (call : q'.call = Function.update q.call w .idle)
  | committed (move : Move) (images : List Job) (stmt : s = .commit)
      (was : q.call w = .updated move images)
      (table : q'.table = q.table.commit w images)
      (call : q'.call = Function.update q.call w .idle)
  | rolledBack (table : q'.table = q.table.release w)
      (call : q'.call = Function.update q.call w .idle)

private theorem Effect.of_enter {q q' : Queue} {w : CallId} {s : Stmt} {c : Call}
    (h : some (q.enter w c) = some q') (hc : c.Quiet) : Effect q q' w s := by
  obtain rfl : q.enter w c = q' := Option.some.inj h
  exact .quiet c hc rfl rfl

private theorem Effect.of_refl {q q' : Queue} {w : CallId} {s : Stmt} (h : some q = some q')
    (hc : (q.call w).Quiet) : Effect q q' w s := by
  obtain rfl : q = q' := Option.some.inj h
  exact .quiet _ hc rfl (call_eq_update rfl)

private theorem Effect.of_execute {q q' : Queue} {w : CallId} {s : Stmt} {u : Update}
    {move : Move} (hu : u.Of move) (hne : move ≠ .claim) (h : q.execute w u (.updated move) = some q') :
    Effect q q' w s := by
  obtain ⟨images, table, call, -⟩ := execute_eq_some h
  exact .executed u move images hu table (fun e => absurd e hne) call

/-- The claim hits one row or none; with none, the call ends. -/
private theorem Effect.of_claim {q q' : Queue} {w : CallId} {s : Stmt} {candidate : JobId}
    {t : Time}
    (h : q.execute w (claimUpdate candidate t) (fun images =>
      if images = [] then .idle else .updated .claim images) = some q') : Effect q q' w s := by
  obtain ⟨images, table, call, -⟩ := execute_eq_some h
  obtain ⟨rfl, rows, -, -⟩ := Table.update_eq_some table
  have one := q.table.hits_of_key (p := (claimUpdate candidate t).hits) (k := candidate)
    fun r hr => by
      have : r.id = candidate ∧ r.status = .queued := by simpa [claimUpdate] using hr
      exact this.1
  rcases one with none | ⟨r, one⟩
  · refine .quiet .idle trivial ?_ (by simpa [none] using call)
    unfold Table.update at table
    simp [none] at table
    rw [← table]
  · rw [one] at call table
    exact .executed _ .claim _ (claimUpdate_of candidate t) table
      (fun _ => ⟨_, rfl⟩) (by simpa using call)

theorem effect_of_statement {max : Nat} {q q' : Queue} {w : CallId} {s : Stmt}
    (h : q.statement max w s = some q') : Effect q q' w s := by
  unfold statement at h
  split at h
  · rename_i new was
    obtain rfl := Option.some.inj h
    exact .quiet (.inserted (new.toJob q.nextId q.now)) (fresh_toJob _ _ _) rfl rfl
  · rename_i job was
    cases hi : q.table.insert job with
    | none => simp [hi] at h
    | some table =>
      simp only [hi, Option.some.injEq] at h
      subst h
      exact .inserted job rfl was hi rfl
  · rename_i was
    split at h
    · exact Effect.of_refl h (by simp [was, Call.Quiet])
    · exact Effect.of_enter h trivial
  · split at h
    · exact Effect.of_enter h trivial
    · exact Effect.of_enter h trivial
  · split at h
    · exact Effect.of_claim h
    · cases h
  · split at h
    · rename_i hok
      exact Effect.of_execute (finishUpdate_of hok.1) (by simp) h
    · cases h
  · rename_i was
    split at h
    · exact Effect.of_refl h (by simp [was, Call.Quiet])
    · split at h
      · exact Effect.of_refl h (by simp [was, Call.Quiet])
      · exact Effect.of_enter h trivial
  · split at h
    · exact Effect.of_execute (cancelUpdate_of _ _) (by simp) h
    · cases h
  · split at h
    · exact Effect.of_execute (requeueUpdate_of _) (by simp) h
    · cases h
  · rename_i move images was
    obtain rfl := Option.some.inj h
    exact .committed move images rfl was rfl rfl
  · obtain rfl := Option.some.inj h
    exact .rolledBack rfl rfl
  · cases h

/-- A statement moves the call it belongs to and no other. -/
theorem Effect.call_of_ne {q q' : Queue} {w v : CallId} {s : Stmt} (h : Effect q q' w s)
    (hne : v ≠ w) : q'.call v = q.call v := by
  cases h <;> simp_all [Function.update_of_ne]

/-- The COMMIT of an UPDATE writes its images. -/
theorem step_commit {max : Nat} {q q' : Queue} {w : CallId} {move : Move} {images : List Job}
    (was : q.call w = .updated move images) (h : step max q (.stmt w .commit) = some q') :
    q'.table = q.table.commit w images := by
  simp only [step, statement, was, Option.some.injEq] at h
  subst h
  rfl

theorem now_of_statement {max : Nat} {q q' : Queue} {w : CallId} {s : Stmt}
    (h : q.statement max w s = some q') : q'.now = q.now := by
  have update {u : Update} {next : List Job → Call} (h : q.execute w u next = some q') :
      q'.now = q.now := by
    obtain ⟨-, -, -, now⟩ := execute_eq_some h
    exact now
  unfold statement at h
  split at h
  · rw [← Option.some.inj h]
    rfl
  · split at h <;> cases h
    rfl
  · split at h <;> cases h <;> rfl
  · split at h <;> cases h <;> rfl
  · split at h
    · exact update h
    · cases h
  · split at h
    · exact update h
    · cases h
  · split at h
    · cases h
      rfl
    · split at h <;> cases h <;> rfl
  · split at h
    · exact update h
    · cases h
  · split at h
    · exact update h
    · cases h
  · cases h
    rfl
  · cases h
    rfl
  · cases h

/-- What a statement tells about the UPDATE it executes: a record is of the job it names, and
a requeue has its cutoff from the clock. -/
def Stmt.Tells (s : Stmt) (now : Time) (images : List Job) : Move → Prop
  | .finish => ∃ id status log exitCode clock, s = .finish id status log exitCode clock ∧
      ∀ i ∈ images, i.id = id
  | .requeue cutoff => ∃ maxRuntime clock, s = .requeue maxRuntime clock ∧
      cutoff = clock - maxRuntime ∧ clock ≤ now
  | _ => True

theorem tells_of_statement {max : Nat} {q q' : Queue} {w : CallId} {s : Stmt} {move : Move}
    {images : List Job} (h : q.statement max w s = some q')
    (call : q'.call w = .updated move images) : s.Tells q.now images move := by
  cases s with
  | insert new =>
    cases was : q.call w <;> simp only [statement, was, reduceCtorEq, Option.some.injEq] at h
    simp [← h, enter] at call
  | count =>
    cases was : q.call w <;> simp only [statement, was, reduceCtorEq] at h
    split at h <;> simp [← Option.some.inj h, was, enter] at call
  | select =>
    cases was : q.call w <;> simp only [statement, was, reduceCtorEq] at h
    split at h <;> simp [← Option.some.inj h, enter] at call
  | claim clock =>
    cases was : q.call w <;> simp only [statement, was, reduceCtorEq] at h
    split at h
    · obtain ⟨images', -, call', -⟩ := execute_eq_some h
      rw [call', Function.update_self] at call
      split at call
      · cases call
      · obtain ⟨rfl, -⟩ := Call.updated.inj call
        trivial
    · cases h
  | finish id status log exitCode clock =>
    cases was : q.call w <;> simp only [statement, was, reduceCtorEq] at h
    split at h
    · obtain ⟨images', table, call', -⟩ := execute_eq_some h
      rw [call', Function.update_self] at call
      obtain ⟨rfl, rfl⟩ := Call.updated.inj call
      refine ⟨id, status, log, exitCode, clock, rfl, ?_⟩
      obtain ⟨rfl, -⟩ := Table.update_eq_some table
      intro i hi
      obtain ⟨r, hr, rfl⟩ := List.mem_map.mp hi
      have : r.id = id ∧ r.status = .running := by
        simpa [finishUpdate] using (Table.mem_hits.mp hr).2
      exact this.1
    · cases h
  | read id =>
    cases was : q.call w <;> simp only [statement, was, reduceCtorEq] at h
    split at h
    · simp [← Option.some.inj h, was] at call
    · split at h <;> simp [← Option.some.inj h, was, enter] at call
  | cancel clock =>
    cases was : q.call w <;> simp only [statement, was, reduceCtorEq] at h
    split at h
    · obtain ⟨images', -, call', -⟩ := execute_eq_some h
      rw [call', Function.update_self] at call
      obtain ⟨rfl, -⟩ := Call.updated.inj call
      trivial
    · cases h
  | requeue maxRuntime clock =>
    cases was : q.call w <;> simp only [statement, was, reduceCtorEq] at h
    split at h
    · rename_i hclock
      obtain ⟨images', -, call', -⟩ := execute_eq_some h
      rw [call', Function.update_self] at call
      obtain ⟨rfl, -⟩ := Call.updated.inj call
      exact ⟨maxRuntime, clock, rfl, rfl, hclock⟩
    · cases h
  | commit =>
    cases was : q.call w <;> simp only [statement, was, reduceCtorEq] at h
    · split at h
      · cases h
      · simp [← Option.some.inj h, enter] at call
    · simp [← Option.some.inj h, enter] at call
  | rollback =>
    simp only [statement, Option.some.injEq] at h
    simp [← h, enter] at call

/-- The COMMIT of an INSERT adds its row. -/
theorem step_commit_inserted {max : Nat} {q q' : Queue} {w : CallId} {job : Job}
    (was : q.call w = .inserted job) (h : step max q (.stmt w .commit) = some q') :
    q.table.insert job = some q'.table := by
  simp only [step, statement, was] at h
  split at h
  · cases h
  · rename_i table hi
    simpa [← Option.some.inj h, enter] using hi

/-! ## The invariant of the sessions -/

/-- A call holds images of rows that its UPDATE hit and nobody has changed since, the claim
one of them, and a row that is about to be added is fresh. -/
structure Inv (q : Queue) : Prop where
  pending : ∀ w move images, q.call w = .updated move images →
    q.table.Pending move.Writes w images
  nodup : ∀ w move images, q.call w = .updated move images → (images.map Job.id).Nodup
  single : ∀ w images, q.call w = .updated .claim images → ∃ i, images = [i]
  fresh : ∀ w job, q.call w = .inserted job → job.Fresh

theorem inv_init (now : Time) : (init now).Inv where
  pending _ _ _ h := by cases h
  nodup _ _ _ h := by cases h
  single _ _ h := by cases h
  fresh _ _ h := by cases h

/-- Keeping the invariant: the other sessions keep their images, and the call that was sent
the statement has those of its UPDATE. -/
private theorem Inv.update {q q' : Queue} {w : CallId} {c : Call} (inv : q.Inv)
    (call : q'.call = Function.update q.call w c)
    (others : ∀ you move images, you ≠ w → q.table.Pending (Move.Writes move) you images →
      q'.table.Pending move.Writes you images)
    (mine : ∀ move images, c = .updated move images →
      q'.table.Pending (Move.Writes move) w images ∧ (images.map Job.id).Nodup)
    (single : ∀ images, c = .updated .claim images → ∃ i, images = [i])
    (fresh : ∀ job, c = .inserted job → job.Fresh) : q'.Inv where
  pending you move images h := by
    by_cases e : you = w
    · subst e
      rw [call, Function.update_self] at h
      exact (mine move images h).1
    · rw [call, Function.update_of_ne e] at h
      exact others you move images e (inv.pending you move images h)
  nodup you move images h := by
    by_cases e : you = w
    · subst e
      rw [call, Function.update_self] at h
      exact (mine move images h).2
    · rw [call, Function.update_of_ne e] at h
      exact inv.nodup you move images h
  single you images h := by
    by_cases e : you = w
    · subst e
      rw [call, Function.update_self] at h
      exact single images h
    · rw [call, Function.update_of_ne e] at h
      exact inv.single you images h
  fresh you job h := by
    by_cases e : you = w
    · subst e
      rw [call, Function.update_self] at h
      exact fresh job h
    · rw [call, Function.update_of_ne e] at h
      exact inv.fresh you job h

theorem Inv.effect {q q' : Queue} {w : CallId} {s : Stmt} (inv : q.Inv) (h : Effect q q' w s) : q'.Inv := by
  cases h with
  | quiet c hc table call =>
    refine inv.update call ?_ ?_ ?_ ?_
    · intro you move images _ hp
      rwa [table]
    · rintro move images rfl
      exact hc.elim
    · rintro images rfl
      exact hc.elim
    · rintro job rfl
      exact hc
  | executed u move images hu table single call =>
    refine inv.update call ?_ ?_ ?_ (by simp)
    · intro you move' images' _ hp
      exact hp.update table
    · rintro move' images' ⟨⟩
      refine ⟨?_, Table.nodup_of_update hu.id table⟩
      exact (Table.pending_of_update hu.id table).mono fun r i ⟨hr, hi⟩ =>
        hi ▸ hu.writes r hr
    · rintro images' ⟨⟩
      exact single rfl
  | inserted job stmt was table call =>
    refine inv.update call ?_ (by simp) (by simp) (by simp)
    intro you move images _ hp
    exact hp.insert table
  | committed move images _ was table call =>
    refine inv.update call ?_ (by simp) (by simp) (by simp)
    intro you move' images' hne hp
    rw [table]
    exact hp.commit hne (inv.pending w move images was)
  | rolledBack table call =>
    refine inv.update call ?_ (by simp) (by simp) (by simp)
    intro you move images hne hp
    rw [table]
    exact hp.release hne

theorem Inv.tick {q : Queue} (inv : q.Inv) (t : Time) : ({ q with now := t } : Queue).Inv :=
  ⟨inv.pending, inv.nodup, inv.single, inv.fresh⟩

theorem inductive_inv (max : Nat) : (queueLts max).Inductive Inv where
  start := by
    rintro _ ⟨now, rfl⟩
    exact inv_init now
  step q a q' inv h := by
    cases a with
    | stmt w s => exact inv.effect (effect_of_statement h)
    | tick d =>
      obtain rfl := Option.some.inj h
      exact inv.tick _

/-! ## How the committed rows change -/

/-- The step is the COMMIT of an UPDATE of this move, and `r` is one of the rows it
writes. -/
def Commits (x : Taken Queue Label) (move : Move) (r : Job) : Prop :=
  ∃ w images, x.label = .stmt w .commit ∧ x.pre.call w = .updated move images ∧ r ∈ images

/-- How the committed rows change in a step: not at all, by a fresh row, or by the images of
an UPDATE that is committed. -/
inductive RowStep (q q' : Queue) (a : Label) : Prop
  | same (table : q'.table.rows = q.table.rows)
  | added (w : CallId) (job : Job) (label : a = .stmt w .commit) (was : q.call w = .inserted job)
      (fresh : job.Fresh) (table : q.table.insert job = some q'.table)
  | written (w : CallId) (move : Move) (images : List Job) (label : a = .stmt w .commit)
      (was : q.call w = .updated move images)
      (pending : q.table.Pending move.Writes w images)
      (table : q'.table = q.table.commit w images)

theorem rowStep {max : Nat} {q q' : Queue} {a : Label} (inv : q.Inv)
    (h : step max q a = some q') : RowStep q q' a := by
  cases a with
  | tick d =>
    obtain rfl := Option.some.inj h
    exact .same rfl
  | stmt w s =>
    cases effect_of_statement h with
    | quiet c hc table call => exact .same (by rw [table])
    | executed u move images hu table single call => exact .same (Table.update_eq_some table).2.1
    | inserted job stmt was table call => exact .added w job (by rw [stmt]) was (inv.fresh w job was) table
    | committed move images stmt was table call =>
      exact .written w move images (by rw [stmt]) was (inv.pending w move images was) table
    | rolledBack table call => exact .same (by rw [table, Table.release_rows])

/-- Where a committed row comes from. -/
theorem row_origin {max : Nat} {q q' : Queue} {a : Label} (inv : q.Inv)
    (h : step max q a = some q') {r' : Job} (hr' : r' ∈ q'.table.rows) :
    r' ∈ q.table.rows ∨ (r'.Fresh ∧ r'.id ∉ q.table.rows.map Job.id) ∨
      ∃ r ∈ q.table.rows, ∃ move, move.Writes r r' ∧ Commits ⟨q, a, q'⟩ move r' := by
  cases rowStep inv h with
  | same table => exact .inl (table ▸ hr')
  | added w job label was fresh table =>
    obtain ⟨new, rows, -⟩ := Table.insert_eq_some table
    rw [rows, List.mem_append, List.mem_singleton] at hr'
    rcases hr' with hr' | rfl
    · exact .inl hr'
    · exact .inr (.inl ⟨fresh, new⟩)
  | written w move images label was pending table =>
    rw [table] at hr'
    obtain ⟨r, hr, rfl⟩ := List.mem_map.mp hr'
    rcases pending.row hr with ⟨same, -⟩ | ⟨hi, writes⟩
    · exact .inl (same.symm ▸ hr)
    · exact .inr (.inr ⟨r, hr, move, writes, w, images, label, was, hi⟩)

/-- A committed move had the old row before it, and its image is the row after it. -/
theorem committed_row {max : Nat} {q q' : Queue} {w : CallId} {move : Move} {images : List Job}
    {r : Job} (inv : q.Inv) (h : step max q (.stmt w .commit) = some q')
    (was : q.call w = .updated move images) (hr : r ∈ images) :
    (∃ old, q.table.get? r.id = some old ∧ move.Writes old r) ∧
      q'.table.get? r.id = some r := by
  obtain ⟨-, old, hold, writes⟩ := inv.pending w move images was r hr
  refine ⟨⟨old, hold, writes⟩, ?_⟩
  rw [step_commit was h, Table.commit_get?, hold, Option.map_some]
  exact congrArg some (Table.image_of_mem (inv.nodup w move images was) hr writes.id_eq.symm)

/-- What becomes of a committed row. -/
theorem row_fate {max : Nat} {q q' : Queue} {a : Label} (inv : q.Inv)
    (h : step max q a = some q') {r : Job} (hr : r ∈ q.table.rows) :
    r ∈ q'.table.rows ∨
      ∃ r' ∈ q'.table.rows, ∃ move, move.Writes r r' ∧ Commits ⟨q, a, q'⟩ move r' := by
  cases rowStep inv h with
  | same table => exact .inl (table.symm ▸ hr)
  | added w job label was fresh table =>
    obtain ⟨-, rows, -⟩ := Table.insert_eq_some table
    exact .inl (rows.symm ▸ List.mem_append_left _ hr)
  | written w move images label was pending table =>
    have mem : Table.image Job.id images r ∈ q'.table.rows := by
      rw [table]
      exact List.mem_map.mpr ⟨r, hr, rfl⟩
    rcases pending.row hr with ⟨same, -⟩ | ⟨hi, writes⟩
    · exact .inl (same ▸ mem)
    · exact .inr ⟨_, mem, move, writes, w, images, label, was, hi⟩

end Queue

end TcadWebapp.Jobs
