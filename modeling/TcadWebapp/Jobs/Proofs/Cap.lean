import TcadWebapp.Jobs.Proofs.QueueInvariant

/-!
# The cap on running jobs

`claim_next` counts, selects and then updates under a condition on the row alone, so two
calls may both count before either has claimed. What the cap then depends on is stated
exactly: it holds in a run if and only if no claim is committed at a moment when the test it
passed would come out the other way.
-/

namespace TcadWebapp.Jobs.Queue

open Lts

/-- The commit of a `claim_next` that has won its row. -/
def ClaimWins (x : Taken Queue Label) : Prop :=
  ∃ r, Commits x .claim r

private theorem image_not_running {move : Move} (hne : move ≠ .claim) {r i : Job}
    (h : move.Writes r i) : hasStatus .running i = false := by
  cases move with
  | claim => exact absurd rfl hne
  | finish =>
    obtain ⟨-, status, log, exitCode, t, hs, rfl⟩ := h
    cases status <;> simp_all [hasStatus, JobStatus.isTerminal]
  | cancel before => obtain ⟨-, -, t, rfl⟩ := h; rfl
  | requeue cutoff => obtain ⟨-, -, rfl⟩ := h; rfl

/-- A won claim makes one more row RUNNING. -/
theorem runningCount_claim {max : Nat} {q q' : Queue} {a : Label} (inv : q.Inv)
    (h : step max q a = some q') (wins : ClaimWins ⟨q, a, q'⟩) :
    q'.runningCount = q.runningCount + 1 := by
  obtain ⟨-, w, images, rfl, was, -⟩ := wins
  obtain ⟨i, rfl⟩ := inv.single w images was
  obtain ⟨-, r, hr, hs, t, hi⟩ := inv.pending w .claim [i] was i (by simp)
  have hold : hasStatus .running r = false := by simp [hasStatus, hs]
  have hnew : hasStatus .running i = true := by simp [hi, hasStatus]
  unfold runningCount
  rw [step_commit was h]
  exact Table.countP_commit_single _ w q.table hr hold hnew

/-- No other step does. -/
theorem runningCount_le_of_step {max : Nat} {q q' : Queue} {a : Label} (inv : q.Inv)
    (h : step max q a = some q') (other : ¬ ClaimWins ⟨q, a, q'⟩) :
    q'.runningCount ≤ q.runningCount := by
  unfold runningCount
  cases rowStep inv h with
  | same table => rw [table]
  | added w job label was fresh table =>
    obtain ⟨-, rows, -⟩ := Table.insert_eq_some table
    simp [rows, hasStatus, fresh.status]
  | written w move images label was pending table =>
    have hne : move ≠ .claim := by
      rintro rfl
      obtain ⟨i, rfl⟩ := inv.single w images was
      exact other ⟨i, w, [i], label, was, by simp⟩
    rw [table]
    apply Table.countP_commit_le
    intro i hi
    obtain ⟨-, r, -, writes⟩ := pending i hi
    exact image_not_running hne writes

/-- A `claim_next` between its count and its commit. -/
def Claiming : Call → Bool
  | .counted | .selected _ | .updated .claim _ => true
  | _ => false

private theorem claiming_of_execute {q q' : Queue} {w : CallId} {u : Update}
    {next : List Job → Call} (h : q.execute w u next = some q')
    (hnext : ∀ images, Claiming (next images) = false) : Claiming (q'.call w) = false := by
  obtain ⟨images, -, call, -⟩ := execute_eq_some h
  rw [call, Function.update_self]
  exact hnext images

/-- A call enters `claim_next` by a count that found room. -/
theorem claiming_of_statement {max : Nat} {q q' : Queue} {w : CallId} {s : Stmt}
    (h : q.statement max w s = some q') (hc : Claiming (q'.call w) = true) :
    Claiming (q.call w) = true ∨ s = .count ∧ q.runningCount < max := by
  cases s with
  | insert new =>
    cases was : q.call w <;> simp only [statement, was, reduceCtorEq, Option.some.injEq] at h
    simp [← h, enter, Claiming] at hc
  | count =>
    cases was : q.call w <;> simp only [statement, was, reduceCtorEq] at h
    split at h
    · simp [← Option.some.inj h, was, Claiming] at hc
    · exact .inr ⟨rfl, by omega⟩
  | select =>
    cases was : q.call w <;> simp only [statement, was, reduceCtorEq] at h
    exact .inl rfl
  | claim clock =>
    cases was : q.call w <;> simp only [statement, was, reduceCtorEq] at h
    exact .inl rfl
  | finish id status log exitCode clock =>
    cases was : q.call w <;> simp only [statement, was, reduceCtorEq] at h
    split at h
    · simp [claiming_of_execute h fun _ => rfl] at hc
    · cases h
  | read id =>
    cases was : q.call w <;> simp only [statement, was, reduceCtorEq] at h
    split at h
    · simp [← Option.some.inj h, was, Claiming] at hc
    · split at h <;> simp [← Option.some.inj h, was, Claiming, enter] at hc
  | cancel clock =>
    cases was : q.call w <;> simp only [statement, was, reduceCtorEq] at h
    split at h
    · simp [claiming_of_execute h fun _ => rfl] at hc
    · cases h
  | requeue maxRuntime clock =>
    cases was : q.call w <;> simp only [statement, was, reduceCtorEq] at h
    split at h
    · simp [claiming_of_execute h fun _ => rfl] at hc
    · cases h
  | commit =>
    cases was : q.call w <;> simp only [statement, was, reduceCtorEq] at h
    · split at h
      · cases h
      · simp [← Option.some.inj h, enter, Claiming] at hc
    · simp [← Option.some.inj h, enter, Claiming] at hc
  | rollback =>
    simp only [statement, Option.some.injEq] at h
    simp [← h, enter, Claiming] at hc

/-- Within the cap, and a call that is claiming does so alone and with room left. -/
structure Exclusive (max : Nat) (q : Queue) : Prop where
  cap : q.runningCount ≤ max
  room : ∀ v, Claiming (q.call v) = true → q.runningCount < max
  alone : ∀ u v, Claiming (q.call u) = true → Claiming (q.call v) = true → u = v

theorem Exclusive.statement {max : Nat} {q q' : Queue} {w : CallId} {s : Stmt} (inv : q.Inv)
    (ex : q.Exclusive max) (h : q.statement max w s = some q')
    (guard : s = .count → ∀ v, Claiming (q.call v) = false) : q'.Exclusive max := by
  have eff := effect_of_statement h
  have hstep : step max q (.stmt w s) = some q' := h
  by_cases wins : ClaimWins ⟨q, .stmt w s, q'⟩
  · -- the winner leaves `claim_next`, and it was the only one there
    have more := runningCount_claim inv hstep wins
    obtain ⟨-, w', images, label, was, -⟩ := wins
    obtain ⟨rfl, rfl⟩ : w = w' ∧ s = .commit := by simpa using label
    have was : q.call w = .updated .claim images := was
    have winner : Claiming (q.call w) = true := by simp only [was, Claiming]
    have gone : ∀ v, Claiming (q'.call v) = false := by
      intro v
      by_cases e : v = w
      · subst e
        have done : q'.call v = .idle := by
          simp only [Queue.statement, was, Option.some.injEq] at h
          simp [← h, enter]
        simp [done, Claiming]
      · by_contra hv
        rw [eff.call_of_ne e, Bool.not_eq_false] at hv
        exact e (ex.alone v w hv winner)
    refine ⟨?_, ?_, ?_⟩
    · have := ex.room w winner
      omega
    · intro v hv
      simp [gone v] at hv
    · intro u v hu
      simp [gone u] at hu
  · have le := runningCount_le_of_step inv hstep wins
    -- who is claiming now was claiming before, or has just counted and is alone
    have before : ∀ v, Claiming (q'.call v) = true → Claiming (q.call v) = true ∨
        (v = w ∧ s = .count ∧ q.runningCount < max) := by
      intro v hv
      by_cases e : v = w
      · subst e
        rcases claiming_of_statement h hv with was | new
        · exact .inl was
        · exact .inr ⟨rfl, new⟩
      · exact .inl (eff.call_of_ne e ▸ hv)
    refine ⟨le.trans ex.cap, ?_, ?_⟩
    · intro v hv
      rcases before v hv with was | ⟨-, -, room⟩
      · exact le.trans_lt (ex.room v was)
      · exact le.trans_lt room
    · intro u v hu hv
      rcases before u hu with hu | ⟨rfl, count, -⟩
      · rcases before v hv with hv | ⟨rfl, count, -⟩
        · exact ex.alone u v hu hv
        · simp [guard count u] at hu
      · rcases before v hv with hv | ⟨rfl, -, -⟩
        · simp [guard count v] at hv
        · rfl

/-- If no call counts while another one is between its count and its commit, the cap
holds. -/
theorem runningCount_le_max_of_exclusive {max : Nat} {h : List (Taken Queue Label)} {q : Queue}
    (run : (queueLts max).Run h q)
    (exclusive : ∀ x ∈ h, ∀ w, x.label = .stmt w .count →
      ∀ v, Claiming (x.pre.call v) = false) :
    ∀ t ∈ visited h q, t.runningCount ≤ max := by
  intro t ht
  obtain ⟨h', run', suf⟩ := run.of_visited ht
  have main : t.Inv ∧ t.Exclusive max := by
    refine run'.invariant_of_guard (I := fun t => t.Inv ∧ t.Exclusive max)
      (G := fun x => ∀ w, x.label = .stmt w .count → ∀ v, Claiming (x.pre.call v) = false)
      ?_ ?_ fun x hx => exclusive x (suf.mem hx)
    · rintro _ ⟨now, rfl⟩
      refine ⟨inv_init now, ?_, ?_, ?_⟩
      · simp [runningCount, init, Table.empty]
      · intro v hv
        cases hv
      · intro u v hu
        cases hu
    · rintro s a t ⟨inv, ex⟩ hstep guard
      refine ⟨(inductive_inv max).step _ _ _ inv hstep, ?_⟩
      cases a with
      | stmt w st => exact ex.statement inv hstep fun e => guard w (by rw [e])
      | tick d =>
        obtain rfl := Option.some.inj hstep
        exact ⟨ex.cap, ex.room, ex.alone⟩
  exact main.2.cap

end TcadWebapp.Jobs.Queue
