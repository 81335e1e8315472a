import TcadWebapp.Jobs.Proofs.QueueInvariant

/-!
# The life cycle of one job

What the queue is for, seen from a single job: it is submitted, claimed, perhaps put back
and claimed again, and it ends once. The queue refines this automaton for every job id, so
what holds of the order of events in the automaton holds in every run of the queue.
-/

namespace TcadWebapp.Jobs

/-- Where a job stands. -/
inductive Stage where
  | absent
  | queued
  | running
  | ended
  deriving DecidableEq, Repr

/-- What can happen to a job. -/
inductive Event where
  | submit
  | claim
  | finish
  | cancel
  | requeue
  deriving DecidableEq, Repr

/-- The life cycle: which event is possible where, and where it leads. -/
def Stage.next : Stage → Event → Option Stage
  | .absent, .submit => some .queued
  | .queued, .claim => some .running
  | .queued, .cancel => some .ended
  | .running, .finish => some .ended
  | .running, .cancel => some .ended
  | .running, .requeue => some .queued
  | _, _ => none

def lifeLts : Lts Stage Event where
  start s := s = .absent
  step := Stage.next

/-- Between two claims of a job lies a requeue of it. -/
theorem requeue_between_claims {later between earlier : List (Taken Stage Event)}
    {x y : Taken Stage Event} {s : Stage}
    (run : lifeLts.Run (later ++ x :: (between ++ y :: earlier)) s)
    (hx : x.label = .claim) (hy : y.label = .claim) : ∃ z ∈ between, z.label = .requeue := by
  obtain ⟨s', run⟩ := run.of_suffix (List.suffix_append _ _)
  obtain ⟨run, hstep, -⟩ := run.of_cons
  rw [hx] at hstep
  by_contra none
  -- from the claim `y` on the job is running or ended, where `x` is not possible
  have main : x.pre = .running ∨ x.pre = .ended := by
    refine run.persists (P := fun s => s = .running ∨ s = .ended) ?_ ?_
    · obtain ⟨-, hstep, -⟩ := (run.of_suffix (List.suffix_append _ _)).choose_spec.of_cons
      rw [hy] at hstep
      cases hpre : y.pre <;> simp_all [lifeLts, Stage.next]
    · rintro z hz hstep' (hpre | hpre)
      · have hne : z.label ≠ .requeue := fun e => none ⟨z, hz, e⟩
        rw [hpre] at hstep'
        cases hl : z.label <;> simp_all [lifeLts, Stage.next]
      · rw [hpre] at hstep'
        simp [lifeLts, Stage.next] at hstep'
  rcases main with hpre | hpre <;> simp [hpre, lifeLts, Stage.next] at hstep

/-! ## The queue refines it -/

def JobStatus.stage : JobStatus → Stage
  | .queued => .queued
  | .running => .running
  | .succeeded | .failed | .timedOut | .cancelled => .ended

def Move.event : Move → Event
  | .claim => .claim
  | .finish => .finish
  | .cancel _ => .cancel
  | .requeue _ => .requeue

namespace Queue

open Lts

/-- Where the job `id` stands, by the committed rows. -/
def stage (id : JobId) (q : Queue) : Stage :=
  match q.table.get? id with
  | none => .absent
  | some r => r.status.stage

/-- What a step of the queue is for the job `id`: something happens to it only at a
commit. -/
def event (id : JobId) (x : Taken Queue Label) : Option Event :=
  match x.label with
  | .stmt w .commit =>
    match x.pre.call w with
    | .inserted job => if job.id = id then some .submit else none
    | .updated move images => if id ∈ images.map Job.id then some move.event else none
    | _ => none
  | _ => none

end Queue

/-- A move takes a job along the life cycle. -/
theorem Move.Writes.next {move : Move} {old new : Job} (h : move.Writes old new) :
    old.status.stage.next move.event = some new.status.stage := by
  cases move with
  | claim =>
    obtain ⟨hs, t, rfl⟩ := h
    simp [hs, JobStatus.stage, Move.event, Stage.next]
  | finish =>
    obtain ⟨hs, status, log, exitCode, t, ht, rfl⟩ := h
    cases status <;> simp_all [JobStatus.stage, Move.event, Stage.next, JobStatus.isTerminal]
  | cancel before =>
    obtain ⟨-, hs, t, rfl⟩ := h
    cases hold : old.status <;>
      simp_all [JobStatus.stage, Move.event, Stage.next, JobStatus.isTerminal]
  | requeue cutoff =>
    obtain ⟨hs, -, rfl⟩ := h
    simp [hs, JobStatus.stage, Move.event, Stage.next]

namespace Queue

open Lts

theorem stage_of_event_none {max : Nat} {id : JobId} {q q' : Queue} {a : Label} (inv : q.Inv)
    (h : step max q a = some q') (he : event id ⟨q, a, q'⟩ = none) :
    q'.stage id = q.stage id := by
  cases rowStep inv h with
  | same table => simp only [stage, Table.get?, table]
  | added w job label was fresh table =>
    have hne : id ≠ job.id := by
      rintro rfl
      simp [event, label, was] at he
    simp only [stage, Table.get?_insert table, hne, if_false]
  | written w move images label was pending table =>
    have hid : id ∉ images.map Job.id := by
      intro hid
      simp only [event, label, was, hid, if_true, reduceCtorEq] at he
    have same : (q.table.get? id).map (Table.image Job.id images) = q.table.get? id := by
      cases hr : q.table.get? id with
      | none => rfl
      | some r =>
        have hk := (Table.get?_eq_some.mp hr).2
        rw [Option.map_some, Table.image_of_notMem (hk ▸ hid)]
    simp only [stage, table, Table.commit_get?, same]

/-- An event of a job is the commit of its row, or of a move that has its image. -/
theorem event_eq_some {id : JobId} {x : Taken Queue Label} {e : Event}
    (he : event id x = some e) : ∃ w, x.label = .stmt w .commit ∧
      ((∃ job, x.pre.call w = .inserted job ∧ job.id = id ∧ e = .submit) ∨
        ∃ move images, x.pre.call w = .updated move images ∧ id ∈ images.map Job.id ∧
          e = move.event) := by
  unfold event at he
  split at he
  · rename_i w label
    refine ⟨w, label, ?_⟩
    split at he
    · rename_i job was
      obtain ⟨hid, rfl⟩ : job.id = id ∧ Event.submit = e := by simpa using he
      exact .inl ⟨job, was, hid, rfl⟩
    · rename_i move images was
      by_cases hid : id ∈ images.map Job.id
      · rw [if_pos hid] at he
        exact .inr ⟨move, images, was, hid, (Option.some.inj he).symm⟩
      · rw [if_neg hid] at he
        cases he
    · cases he
  · cases he

theorem stage_of_event_some {max : Nat} {id : JobId} {q q' : Queue} {a : Label} {e : Event}
    (inv : q.Inv) (h : step max q a = some q') (he : event id ⟨q, a, q'⟩ = some e) :
    (q.stage id).next e = some (q'.stage id) := by
  obtain ⟨w, rfl, ⟨job, was, hid, rfl⟩ | ⟨move, images, was, hid, rfl⟩⟩ := event_eq_some he
  · have table := step_commit_inserted was h
    have new : q.table.get? id = none :=
      Table.get?_eq_none.mpr (hid ▸ (Table.insert_eq_some table).1)
    have fresh := inv.fresh w job was
    simp only [stage, new, Table.get?_insert table, hid, if_true, fresh.status]
    rfl
  · obtain ⟨i, hi, rfl⟩ := List.mem_map.mp hid
    obtain ⟨-, r, hr, -⟩ := inv.pending w move images was i hi
    obtain ⟨hmem, hk⟩ := Table.get?_eq_some.mp hr
    have written : move.Writes r (Table.image Job.id images r) := by
      rcases (inv.pending w move images was).row hmem with ⟨-, out⟩ | ⟨-, writes⟩
      · exact absurd (hk ▸ hid) out
      · exact writes
    have after : q'.table.get? i.id = some (Table.image Job.id images r) := by
      rw [step_commit was h, Table.commit_get?, hr, Option.map_some]
    simp only [stage, hr, after]
    exact written.next

/-- Seen from one job, the queue is the life cycle. -/
def refinesLife (max : Nat) (id : JobId) : Refinement (queueLts max) lifeLts Inv where
  map := stage id
  label := event id
  start := by
    rintro _ ⟨now, rfl⟩
    rfl
  stutter _ _ _ inv h he := stage_of_event_none inv h he
  step _ _ _ _ inv h he := stage_of_event_some inv h he

end Queue

end TcadWebapp.Jobs
