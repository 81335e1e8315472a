import TcadWebapp.Devsim.Proofs.Visits

/-!
# Every bias point is recorded once

What the parts of a run write: lines that are only appended, and of which `rows` and
`failures` are the two kinds that stand for a bias point. Each curve writes one of them for
each sweep value, in the order of the walk or, where it could not be entered, of the plan.
-/

namespace TcadWebapp.Devsim

/-- The bias point of a line: the steps and the sweep value. -/
def Line.point? : Line → Option (Dict String Volt × Volt)
  | .moving _ => none
  | .row r => some (r.steps, r.sweep)
  | .failure f => some (f.steps, f.sweep)

def Line.row? : Line → Option Row
  | .row r => some r
  | _ => none

def Line.failure? : Line → Option Failure
  | .failure f => some f
  | _ => none

/-- A line of a bias point is a row or a failure. -/
theorem length_points (lines : List Line) : (lines.filterMap Line.point?).length =
    (lines.filterMap Line.row?).length + (lines.filterMap Line.failure?).length := by
  induction lines with
  | nil => rfl
  | cons line lines ih =>
    cases line with
    | moving steps => exact ih
    | row r =>
      simp only [List.filterMap_cons, Line.point?, Line.row?, Line.failure?, List.length_cons, ih]
      omega
    | failure f =>
      simp only [List.filterMap_cons, Line.point?, Line.row?, Line.failure?, List.length_cons, ih]
      omega

/-- From `st` to `st'` the run wrote `lines`. -/
structure Wrote (st : State) (lines : List Line) (st' : State) : Prop where
  stream : st'.stream = st.stream ++ lines
  rows : st'.rows = st.rows ++ lines.filterMap Line.row?
  failures : st'.failures = st.failures ++ lines.filterMap Line.failure?

theorem Wrote.refl (st : State) : Wrote st [] st := ⟨by simp, by simp, by simp⟩

theorem Wrote.trans {st st' st'' : State} {lines lines' : List Line} (h : Wrote st lines st')
    (h' : Wrote st' lines' st'') : Wrote st (lines ++ lines') st'' := by
  refine ⟨?_, ?_, ?_⟩
  · rw [h'.stream, h.stream, List.append_assoc]
  · rw [h'.rows, h.rows, List.filterMap_append, List.append_assoc]
  · rw [h'.failures, h.failures, List.filterMap_append, List.append_assoc]

variable {ds : Simulator} {py : Python} {payload : Payload} {combination : Dict String Volt}

/-- The points of a curve at some of its values. -/
def pointsAt (combination : Dict String Volt) (values : List Volt) :
    List (Dict String Volt × Volt) := values.map fun value => (combination, value)

theorem wrote_giveUp (py : Python) (st : State) (combination : Dict String Volt) (value : Volt)
    (text className : String) (newton : Nat) : ∃ line, Wrote st [line]
      (st.giveUp py combination value text className newton) ∧
      line.point? = some (combination, value) :=
  ⟨.failure _, ⟨rfl, by simp [State.giveUp, State.record, Line.row?], rfl⟩, rfl⟩

/-- A visit that ends without an exception writes the one line of its point. -/
theorem wrote_visit (ds : Simulator) (py : Python) (payload : Payload)
    (combination : Dict String Volt) (start : Provenance × Dict String Volt) (st : State)
    (index : Nat) (value : Volt) :
    let out := st.visit ds py payload combination start index value
    ((∃ line, Wrote st [line] out.1 ∧ line.point? = some (combination, value)) ∧ out.2 = none) ∨
      (Wrote st [] out.1 ∧ out.2 ≠ none) := by
  have still : ∀ s : Solver, Wrote st [] { st with solver := s } := fun s =>
    ⟨by simp, by simp, by simp⟩
  dsimp only
  unfold State.visit
  cases State.turned payload.plan start st.solver index with
  | mk s error =>
  cases error with
  | some error => exact Or.inr ⟨still s, by simp⟩
  | none =>
  dsimp only
  cases s.reached ds payload.plan.sweepBias value with
  | none => exact Or.inr ⟨still s, by simp⟩
  | some arrived =>
  obtain ⟨landed, s'⟩ := arrived
  dsimp only
  split
  · obtain ⟨line, wrote, point⟩ := wrote_giveUp py
      { st with solver := s', visits := st.visits ++ [⟨combination, value, s, s', none⟩] }
      combination value (blockedText py landed) "RuntimeError" (s'.newton - s.newton)
    exact Or.inl ⟨⟨line, ⟨wrote.stream, wrote.rows, wrote.failures⟩, point⟩, rfl⟩
  · split
    · refine Or.inl ⟨⟨.row _, ⟨rfl, rfl, ?_⟩, rfl⟩, rfl⟩
      simp [State.record, Line.failure?]
    · exact Or.inr ⟨still s', by simp⟩

theorem wrote_visitAll (ds : Simulator) (py : Python) (payload : Payload)
    (combination : Dict String Volt) (start : Provenance × Dict String Volt) (st : State)
    (index : Nat) (values : List Volt) :
    let out := st.visitAll ds py payload combination start index values
    ∃ lines done, Wrote st lines out.1 ∧
      lines.filterMap Line.point? = pointsAt combination done ∧ done <+: values ∧
      (out.2 = none → done = values) := by
  induction values generalizing st index with
  | nil => exact ⟨[], [], .refl st, rfl, List.prefix_refl _, fun _ => rfl⟩
  | cons value values ih =>
    have one := wrote_visit ds py payload combination start st index value
    dsimp only at one ⊢
    unfold State.visitAll
    cases hv : st.visit ds py payload combination start index value with
    | mk st₁ abort =>
      rw [hv] at one
      rcases one with ⟨⟨line, wrote, point⟩, ended⟩ | ⟨wrote, ended⟩
      · obtain rfl : abort = none := ended
        obtain ⟨lines, done, wrote', points, pre, all⟩ := ih st₁ (index + 1)
        refine ⟨line :: lines, value :: done, wrote.trans wrote', ?_, ?_, ?_⟩
        · rw [List.filterMap_cons_some point, points]
          rfl
        · exact (List.prefix_cons_inj value).mpr pre
        · intro none
          rw [all none]
      · obtain ⟨abort, rfl⟩ := Option.ne_none_iff_exists'.mp ended
        exact ⟨[], [], wrote, rfl, List.nil_prefix, by simp⟩

theorem wrote_giveUpAll (py : Python) (combination : Dict String Volt) (text className : String)
    (values : List Volt) (st : State) :
    ∃ lines, Wrote st lines (values.foldl (fun (st : State) value =>
        st.giveUp py combination value text className 0) st) ∧
      lines.filterMap Line.point? = pointsAt combination values := by
  induction values generalizing st with
  | nil => exact ⟨[], .refl st, rfl⟩
  | cons value values ih =>
    obtain ⟨line, wrote, point⟩ := wrote_giveUp py st combination value text className 0
    obtain ⟨lines, wrote', points⟩ := ih (st.giveUp py combination value text className 0)
    refine ⟨line :: lines, wrote.trans wrote', ?_⟩
    rw [List.filterMap_cons_some point, points]
    rfl

/-- A curve writes the points of its values, each at most once, and all of them if it ends
without an exception. -/
theorem wrote_curve (ds : Simulator) (py : Python) (payload : Payload)
    (baseline : Provenance × Dict String Volt) (st : State) (combination : Dict String Volt) :
    let out := st.curve ds py payload baseline combination
    ∃ lines done, Wrote st lines out.1 ∧
      lines.filterMap Line.point? = pointsAt combination done ∧
      done.length ≤ payload.plan.sweepValues.length ∧
      (out.2 = none → done.Perm payload.plan.sweepValues) := by
  obtain ⟨mark, st₀, h₀, wrote₀, none₀⟩ : ∃ mark st₀,
      (if combination.entries ≠ [] ∨ st.curveStart ≠ none then
        st.record (.moving combination) else st) = st₀ ∧ Wrote st mark st₀ ∧
      mark.filterMap Line.point? = [] := by
    split
    · exact ⟨[.moving combination], _, rfl,
        ⟨rfl, by simp [State.record, Line.row?], by simp [State.record, Line.failure?]⟩, rfl⟩
    · exact ⟨[], _, rfl, .refl st, rfl⟩
  dsimp only
  unfold State.curve
  simp only [h₀]
  cases st₀.enterCurve ds payload.plan combination with
  | mk s error =>
  cases error with
  | some error =>
    dsimp only
    unfold State.giveUpCurve
    cases Solver.resetTo (s.restore baseline.1) baseline.2 with
    | mk s' error' =>
    cases error' with
    | some error' =>
      exact ⟨mark, [], ⟨wrote₀.stream, wrote₀.rows, wrote₀.failures⟩, none₀, by simp, by simp⟩
    | none =>
      obtain ⟨lines, wrote, points⟩ := wrote_giveUpAll py combination (error.str py)
        error.className payload.plan.sweepValues { st₀ with solver := s', curveStart := none }
      have wrote' : Wrote st₀ lines _ := ⟨wrote.stream, wrote.rows, wrote.failures⟩
      refine ⟨mark ++ lines, payload.plan.sweepValues, wrote₀.trans wrote', ?_, le_rfl,
        fun _ => .refl _⟩
      rw [List.filterMap_append, none₀, points, List.nil_append]
  | none =>
    obtain ⟨lines, done, wrote, points, pre, all⟩ := wrote_visitAll ds py payload combination
      (s.snapshot, s.applied)
      { st₀ with solver := s, curveStart := some (s.snapshot, s.applied) } 0
      payload.plan.walk.values
    have wrote' : Wrote st₀ lines _ := ⟨wrote.stream, wrote.rows, wrote.failures⟩
    have perm := walk_values_perm payload.plan
    refine ⟨mark ++ lines, done, wrote₀.trans wrote', ?_, ?_, ?_⟩
    · rw [List.filterMap_append, none₀, points, List.nil_append]
    · rw [← perm.length_eq]
      exact pre.length_le
    · intro none
      rw [all none]
      exact perm

/-- The points of the curves, one block a step combination. -/
def blocksAt (steps : List (Dict String Volt)) (blocks : List (List Volt)) :
    List (Dict String Volt × Volt) :=
  (steps.zip blocks).flatMap fun block => pointsAt block.1 block.2

theorem wrote_curves (ds : Simulator) (py : Python) (payload : Payload)
    (baseline : Provenance × Dict String Volt) (st : State) (steps : List (Dict String Volt)) :
    let out := st.curves ds py payload baseline steps
    ∃ lines blocks, Wrote st lines out.1 ∧
      lines.filterMap Line.point? = blocksAt steps blocks ∧
      (lines.filterMap Line.point?).length ≤ steps.length * payload.plan.sweepValues.length ∧
      (out.2 = none → blocks.length = steps.length ∧
        ∀ block ∈ blocks, block.Perm payload.plan.sweepValues) := by
  induction steps generalizing st with
  | nil => exact ⟨[], [], .refl st, rfl, by simp, fun _ => ⟨rfl, by simp⟩⟩
  | cons combination steps ih =>
    obtain ⟨lines, done, wrote, points, short, all⟩ :=
      wrote_curve ds py payload baseline st combination
    dsimp only at wrote all ⊢
    unfold State.curves
    cases hv : st.curve ds py payload baseline combination with
    | mk st₁ abort =>
    rw [hv] at wrote all
    have count : (lines.filterMap Line.point?).length ≤ payload.plan.sweepValues.length := by
      rw [points, pointsAt, List.length_map]
      exact short
    cases abort with
    | some abort =>
      refine ⟨lines, [done], wrote, ?_, ?_, by simp⟩
      · rw [points]
        simp [blocksAt]
      · rw [List.length_cons, Nat.succ_mul]
        omega
    | none =>
      obtain ⟨lines', blocks, wrote', points', short', all'⟩ := ih st₁
      refine ⟨lines ++ lines', done :: blocks, wrote.trans wrote', ?_, ?_, ?_⟩
      · rw [List.filterMap_append, points, points']
        rfl
      · rw [List.filterMap_append, List.length_append, List.length_cons, Nat.succ_mul]
        omega
      · intro none
        obtain ⟨length, perms⟩ := all' none
        refine ⟨by rw [List.length_cons, List.length_cons, length], ?_⟩
        intro block hb
        rcases List.mem_cons.mp hb with rfl | hb
        · exact all rfl
        · exact perms block hb

/-- The records of a run that was not cut short. -/
structure EveryPointOnce (payload : Payload) (st : State) : Prop where
  walk : payload.plan.walk.values.Perm payload.plan.sweepValues
  /-- One block a step combination, in order, with each occurrence of a sweep value once. -/
  points : ∃ blocks, blocks.length = payload.plan.steps.length ∧
    (∀ block ∈ blocks, block.Perm payload.plan.sweepValues) ∧
    st.stream.filterMap Line.point? = blocksAt payload.plan.steps blocks
  rows : st.rows = st.stream.filterMap Line.row?
  failures : st.failures = st.stream.filterMap Line.failure?
  count : st.rows.length + st.failures.length =
    payload.plan.steps.length * payload.plan.sweepValues.length
  total : st.rows.length + st.failures.length = payload.plan.total

theorem length_blocksAt {steps : List (Dict String Volt)} {blocks : List (List Volt)}
    {values : List Volt} (length : blocks.length = steps.length)
    (perms : ∀ block ∈ blocks, block.Perm values) :
    (blocksAt steps blocks).length = steps.length * values.length := by
  induction steps generalizing blocks with
  | nil => simp [blocksAt]
  | cons combination steps ih =>
    cases blocks with
    | nil => simp at length
    | cons block blocks =>
      have rest := ih (by simpa using length) fun b hb => perms b (List.mem_cons_of_mem _ hb)
      have one := (perms block (by simp)).length_eq
      simp only [blocksAt, pointsAt, List.zip_cons_cons, List.flatMap_cons, List.length_append,
        List.length_map, List.length_cons, Nat.succ_mul] at rest ⊢
      omega

/-- Whatever happens, a run writes no more points than the plan's total. -/
theorem wrote_run (ds : Simulator) (py : Python) (payload : Payload) :
    let out := run ds py payload
    ∃ blocks, out.1.rows = out.1.stream.filterMap Line.row? ∧
      out.1.failures = out.1.stream.filterMap Line.failure? ∧
      out.1.stream.filterMap Line.point? = blocksAt payload.plan.steps blocks ∧
      (out.1.stream.filterMap Line.point?).length ≤ payload.plan.total ∧
      (out.2 = none → blocks.length = payload.plan.steps.length ∧
        ∀ block ∈ blocks, block.Perm payload.plan.sweepValues) := by
  dsimp only
  unfold run
  cases prepare ds payload with
  | mk s abort =>
  cases abort with
  | some abort => exact ⟨[], rfl, rfl, by simp [blocksAt], by simp, by simp⟩
  | none =>
    obtain ⟨lines, blocks, wrote, points, short, all⟩ := wrote_curves ds py payload
      (s.snapshot, s.applied) ⟨s, [], [], [], none, []⟩ payload.plan.steps
    have stream := wrote.stream
    rw [List.nil_append] at stream
    refine ⟨blocks, ?_, ?_, ?_, ?_, all⟩
    · rw [stream]
      exact wrote.rows
    · rw [stream]
      exact wrote.failures
    · rw [stream, points]
    · rw [stream, payload.plan.total_eq]
      exact short

/-- No bias point is lost or recorded twice: past the preparation, and with no reading that
raises, the run comes to its end and its records are those of the plan; and no part of any
run writes more points than the plan has. -/
theorem points_of_run (ds : Simulator) (py : Python) (payload : Payload) :
    ((prepare ds payload).2 = none → (run ds py payload).2 ≠ some .reading →
      (run ds py payload).2 = none ∧ EveryPointOnce payload (run ds py payload).1) ∧
    ∀ lines, lines <+: (run ds py payload).1.stream →
      (lines.filterMap Line.point?).length ≤ payload.plan.total := by
  obtain ⟨blocks, rows, failures, points, short, all⟩ := wrote_run ds py payload
  refine ⟨?_, ?_⟩
  · intro ready read
    have ended : (run ds py payload).2 = none := (run_spec ds py payload ready).2.resolve_right read
    obtain ⟨length, perms⟩ := all ended
    have count : (run ds py payload).1.rows.length + (run ds py payload).1.failures.length =
        payload.plan.steps.length * payload.plan.sweepValues.length := by
      rw [rows, failures, ← length_points, points]
      exact length_blocksAt length perms
    exact ⟨ended, walk_values_perm payload.plan, ⟨blocks, length, perms, points⟩, rows, failures,
      count, count.trans payload.plan.total_eq.symm⟩
  · intro lines pre
    exact ((pre.filterMap Line.point?).length_le).trans short

/-- A failed point and one read off at the same voltage twice: three records for three values. -/
theorem points_of_run_drainSwept : EveryPointOnce (drainSwept [0, 1 / 4, 0])
    (run (convergingUpTo 3) plain (drainSwept [0, 1 / 4, 0])).1 :=
  ((points_of_run (convergingUpTo 3) plain (drainSwept [0, 1 / 4, 0])).1 (by decide +kernel)
    (by decide +kernel)).2

end TcadWebapp.Devsim
