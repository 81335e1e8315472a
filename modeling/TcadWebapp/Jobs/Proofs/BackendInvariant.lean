import TcadWebapp.Jobs.Proofs.LifeCycle
import TcadWebapp.Jobs.Worker

/-!
# What a step of the backend can do

The backend refines the queue, so the invariants of the queue hold of it. `loopStep` says
what a step does to a worker loop, with the container starts an execution has left as the
measure; `queueStep` says what it does to the queue.
-/

namespace TcadWebapp.Jobs

/-- The container starts an execution has left when `c` is next, `c` included. -/
def Container.budget : JobKind → Container → Nat
  | .devsim, .remesh false => 4
  | .devsim, .remesh true => 3
  | .devsim, .solve false => 2
  | .suprem, .solve false => 4
  | .suprem, .solve true => 3
  | .suprem, .resumeRemesh => 2
  | _, _ => 1

theorem budget_next {kind : JobKind} {c c' : Container} {o : Outcome}
    (h : kind.next c o = some c') : c'.budget kind + 1 ≤ c.budget kind := by
  cases kind <;> rcases c with (_ | _) | (_ | _) | _ | _ <;>
    rcases o with _ | _ | _ | (_ | _) <;> simp [JobKind.next] at h <;> subst h <;> decide

theorem Container.budget_pos (kind : JobKind) (c : Container) : 1 ≤ c.budget kind := by
  unfold Container.budget
  split <;> omega

/-- The container starts an execution has left. -/
def Phase.budget (kind : JobKind) : Phase → Nat
  | .loading => 4
  | .ready c => c.budget kind
  | .inside c => c.budget kind - 1
  | .executed => 0

theorem Phase.budget_le (kind : JobKind) (p : Phase) : p.budget kind ≤ 4 := by
  have (c : Container) : c.budget kind ≤ 4 := by
    unfold Container.budget
    split <;> omega
  cases p with
  | loading => exact le_refl 4
  | ready c => exact this c
  | inside c => exact (Nat.sub_le _ _).trans (this c)
  | executed => exact Nat.zero_le 4

namespace Backend

open Lts

/-- What a step does to the queue. -/
inductive QueueStep (max : Nat) (s t : Backend) (a : Label) : Prop
  | stmt (w : CallId) (stmt : Queue.Stmt) (label : a = .stmt w stmt)
      (queue : s.queue.statement max w stmt = some t.queue)
  | tick (d : Nat) (label : a = .tick d)
      (queue : t.queue = { s.queue with now := s.queue.now + d })
  | other (stmt : ∀ w st, a ≠ .stmt w st) (tick : ∀ d, a ≠ .tick d) (queue : t.queue = s.queue)

/-- What a step does to the loop of `w`. -/
inductive LoopStep (s t : Backend) (a : Label) (w : CallId) : Prop
  | same (start : a ≠ .start w) (loop : t.loop w = s.loop w)
  | claimed (job : Job) (rest : List Job) (label : a = .stmt w .commit)
      (was : s.queue.call w = .updated .claim (job :: rest))
      (loop : t.loop w = .executing job .loading)
  | moved (job : Job) (p p' : Phase) (was : s.loop w = .executing job p)
      (start : a = .start w → ∃ c, p = .ready c)
      (budget : (if a = .start w then 1 else 0) + p'.budget job.kind ≤ p.budget job.kind)
      (loop : t.loop w = .executing job p')
  | freed (stmt : Queue.Stmt) (label : a = .stmt w stmt) (loop : t.loop w = .idle)

/-- The step is the COMMIT by `w` of an UPDATE of this move, and `r` is one of the rows it
writes. -/
def Commits (x : Taken Backend Label) (w : CallId) (move : Move) (r : Job) : Prop :=
  x.label = .stmt w .commit ∧ ∃ images, x.pre.queue.call w = .updated move images ∧ r ∈ images

theorem queueStep {worker : Worker} {max : Nat} {s t : Backend} {a : Label}
    (h : step worker max s a = some t) : QueueStep max s t a := by
  cases a with
  | stmt w stmt =>
    simp only [step] at h
    split at h
    · split at h
      · cases h
      · rename_i queue hq
        cases h
        exact .stmt w stmt rfl hq
    · cases h
  | tick d =>
    cases h
    exact .tick d rfl rfl
  | load w =>
    simp only [step] at h
    split at h <;> cases h
    exact .other (by simp) (by simp) rfl
  | start w =>
    simp only [step] at h
    split at h <;> cases h
    exact .other (by simp) (by simp) rfl
  | ends w outcome =>
    simp only [step] at h
    split at h
    · split at h <;> cases h <;> exact .other (by simp) (by simp) rfl
    · cases h
  | leave w =>
    simp only [step] at h
    split at h <;> cases h <;> exact .other (by simp) (by simp) rfl
  | kill e =>
    simp only [step] at h
    split at h
    · split at h <;> cases h
      exact .other (by simp) (by simp) rfl
    · cases h
  | respond e =>
    simp only [step] at h
    split at h
    · split at h <;> cases h
      exact .other (by simp) (by simp) rfl
    · cases h

/-- A committed move had the old row before it, and its image is the row after it. -/
theorem Commits.row {worker : Worker} {max : Nat} {x : Taken Backend Label} {w : CallId}
    {move : Move} {r : Job} (hc : Commits x w move r) (inv : x.pre.queue.Inv)
    (h : step worker max x.pre x.label = some x.post) :
    (∃ old, x.pre.queue.table.get? r.id = some old ∧ move.Writes old r) ∧
      x.post.queue.table.get? r.id = some r := by
  obtain ⟨label, images, was, hr⟩ := hc
  rw [label] at h
  cases queueStep h with
  | stmt v stmt e queue =>
    obtain ⟨rfl, rfl⟩ : w = v ∧ Queue.Stmt.commit = stmt := by simpa using e
    exact Queue.committed_row inv queue was hr
  | tick d e => cases e
  | other stmt => exact absurd rfl (stmt w .commit)

private theorem loop_setLoop_of_ne {s : Backend} {v w : CallId} (l : Loop) (hne : w ≠ v) :
    (s.setLoop v l).loop w = s.loop w := Function.update_of_ne hne _ _

private theorem loop_setLoop_self (s : Backend) (w : CallId) (l : Loop) :
    (s.setLoop w l).loop w = l := Function.update_self _ _ _

private theorem loopAfter_cases (s : Backend) (w : CallId) (stmt : Queue.Stmt) :
    (stmt = .commit ∧ ∃ job rest, s.queue.call w = .updated .claim (job :: rest) ∧
      s.loopAfter w stmt = .executing job .loading) ∨
    s.loopAfter w stmt = .idle ∨ s.loopAfter w stmt = s.loop w := by
  unfold loopAfter
  split
  · rename_i job rest was
    exact .inl ⟨rfl, job, rest, was, rfl⟩
  · exact .inr (.inl rfl)
  · exact .inr (.inl rfl)
  · exact .inr (.inr rfl)

theorem loopStep {worker : Worker} {max : Nat} {s t : Backend} {a : Label}
    (h : step worker max s a = some t) (w : CallId) : LoopStep s t a w := by
  cases a with
  | stmt v stmt =>
    simp only [step] at h
    split at h
    · split at h
      · cases h
      · rename_i queue hq
        obtain rfl := Option.some.inj h
        by_cases e : w = v
        · subst e
          have loop : (({ s with queue := queue }.setLoop w (s.loopAfter w stmt)).setRequest w
              (s.requestAfter w stmt)).loop w = s.loopAfter w stmt := loop_setLoop_self _ _ _
          rcases loopAfter_cases s w stmt with ⟨rfl, job, rest, was, after⟩ | after | after
          · exact .claimed job rest rfl was (loop.trans after)
          · exact .freed stmt rfl (loop.trans after)
          · exact .same (by simp) (loop.trans after)
        · exact .same (by simp) (loop_setLoop_of_ne _ e)
    · cases h
  | tick d =>
    cases h
    exact .same (by simp) rfl
  | load v =>
    simp only [step] at h
    split at h
    · rename_i job was
      obtain rfl := Option.some.inj h
      by_cases e : w = v
      · subst e
        refine .moved job _ _ was (by simp) ?_ (loop_setLoop_self _ _ _)
        cases hk : job.kind <;> simp [Phase.budget, JobKind.first, Container.budget]
      · exact .same (by simp) (loop_setLoop_of_ne _ e)
    · cases h
  | start v =>
    simp only [step] at h
    split at h
    · rename_i job c was
      obtain rfl := Option.some.inj h
      by_cases e : w = v
      · subst e
        refine .moved job _ _ was (fun _ => ⟨c, rfl⟩) ?_ (loop_setLoop_self _ _ _)
        have := Container.budget_pos job.kind c
        simp only [Phase.budget, if_true]
        omega
      · exact .same (by simpa using Ne.symm e) (loop_setLoop_of_ne _ e)
    · cases h
  | ends v outcome =>
    simp only [step] at h
    split at h
    · rename_i job c was
      by_cases e : w = v
      · subst e
        split at h
        · rename_i c' next
          obtain rfl := Option.some.inj h
          refine .moved job _ _ was (by simp) ?_ (loop_setLoop_self _ _ _)
          have := budget_next next
          simp only [Phase.budget, reduceCtorEq, if_false]
          omega
        · obtain rfl := Option.some.inj h
          exact .moved job _ _ was (by simp) (by simp [Phase.budget]) (loop_setLoop_self _ _ _)
      · split at h <;> obtain rfl := Option.some.inj h <;>
          exact .same (by simp) (loop_setLoop_of_ne _ e)
    · cases h
  | leave v =>
    simp only [step] at h
    split at h
    · rename_i job was
      obtain rfl := Option.some.inj h
      by_cases e : w = v
      · subst e
        exact .moved job _ _ was (by simp) (by simp [Phase.budget]) (loop_setLoop_self _ _ _)
      · exact .same (by simp) (loop_setLoop_of_ne _ e)
    · rename_i job c was
      obtain rfl := Option.some.inj h
      by_cases e : w = v
      · subst e
        exact .moved job _ _ was (by simp) (by simp [Phase.budget]) (loop_setLoop_self _ _ _)
      · exact .same (by simp) (loop_setLoop_of_ne _ e)
    · cases h
  | kill e =>
    simp only [step] at h
    split at h
    · split at h <;> cases h
      exact .same (by simp) rfl
    · cases h
  | respond e =>
    simp only [step] at h
    split at h
    · split at h <;> cases h
      exact .same (by simp) rfl
    · cases h

/-- The queue within the backend. -/
def refinesQueue (worker : Worker) (max : Nat) :
    Refinement (backendLts worker max) (queueLts max) fun _ => True where
  map := Backend.queue
  label x :=
    match x.label with
    | .stmt w stmt => some (.stmt w stmt)
    | .tick d => some (.tick d)
    | _ => none
  start := by
    rintro _ ⟨now, rfl⟩
    exact ⟨now, rfl⟩
  stutter s a t _ h hl := by
    cases queueStep h with
    | stmt w stmt label => simp [label] at hl
    | tick d label => simp [label] at hl
    | other _ _ queue => exact queue
  step s a t b _ h hl := by
    cases queueStep h with
    | stmt w stmt label queue =>
      simp only [label, Option.some.injEq] at hl
      exact hl ▸ queue
    | tick d label queue =>
      simp only [label, Option.some.injEq] at hl
      rw [← hl, queue]
      rfl
    | other stmt tick _ =>
      cases a with
      | stmt w st => exact absurd rfl (stmt w st)
      | tick d => exact absurd rfl (tick d)
      | _ => simp at hl

/-- The invariants of the queue hold in the backend. -/
theorem inductive_queue (worker : Worker) (max : Nat) :
    (backendLts worker max).Inductive fun s =>
      s.queue.Inv ∧ ∀ r ∈ s.queue.table.rows, r.Coherent := by
  have both := (refinesQueue worker max).invariant ⟨by simp, by simp⟩
    (Queue.inductive_coherent max)
  exact ⟨fun s h => (both.start s h).2, fun s a t hs h => (both.step s a t ⟨trivial, hs⟩ h).2⟩

theorem finished_row_step {worker : Worker} {max : Nat} {s t : Backend} {a : Label}
    (inv : s.queue.Inv) (h : step worker max s a = some t) {r : Job}
    (hr : s.queue.table.get? r.id = some r) (hs : r.status.isTerminal = true) :
    t.queue.table.get? r.id = some r := by
  have mem := (Table.get?_eq_some.mp hr).1
  refine Table.get?_eq_some.mpr ⟨?_, rfl⟩
  cases queueStep h with
  | stmt w stmt label queue =>
    have queue : Queue.step max s.queue (.stmt w stmt) = some t.queue := queue
    exact Queue.finished_row_step inv queue mem hs
  | tick d label queue => rwa [queue]
  | other _ _ queue => rwa [queue]

/-- The loop of `w` executes the job `id`. -/
def Executes (s : Backend) (w : CallId) (id : JobId) : Prop :=
  ∃ job p, s.loop w = .executing job p ∧ job.id = id

/-- An execution begins with a committed claim. -/
theorem executing_origin {worker : Worker} {max : Nat} {s t : Backend} {a : Label} {w : CallId}
    {job : Job} {p : Phase} (h : step worker max s a = some t)
    (loop : t.loop w = .executing job p) :
    (∃ p', s.loop w = .executing job p') ∨ Commits ⟨s, a, t⟩ w .claim job := by
  cases loopStep h w with
  | same _ same => exact .inl ⟨p, same ▸ loop⟩
  | claimed job' rest label was loop' =>
    rw [loop', Loop.executing.injEq] at loop
    obtain ⟨rfl, -⟩ := loop
    exact .inr ⟨label, _, was, List.mem_cons_self⟩
  | moved job' p₀ p' was _ _ loop' =>
    rw [loop', Loop.executing.injEq] at loop
    obtain ⟨rfl, -⟩ := loop
    exact .inl ⟨p₀, was⟩
  | freed _ _ loop' =>
    rw [loop'] at loop
    cases loop

/-- An execution goes on until its loop sends a statement. -/
theorem Executes.step {worker : Worker} {max : Nat} {s t : Backend} {a : Label} {w : CallId}
    {id : JobId} (hs : Executes s w id) (h : step worker max s a = some t)
    (label : ∀ stmt, a ≠ .stmt w stmt) : Executes t w id := by
  obtain ⟨job, p, loop, hid⟩ := hs
  cases loopStep h w with
  | same _ same => exact ⟨job, p, same.trans loop, hid⟩
  | claimed _ _ e => exact absurd e (label _)
  | moved job' p₀ p' was _ _ loop' =>
    rw [loop, Loop.executing.injEq] at was
    obtain ⟨rfl, -⟩ := was
    exact ⟨job, p', loop', hid⟩
  | freed stmt e => exact absurd e (label stmt)

end Backend

end TcadWebapp.Jobs
