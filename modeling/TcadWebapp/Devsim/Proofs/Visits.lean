import TcadWebapp.Devsim.Run
import TcadWebapp.Devsim.Proofs.Bookkeeping

/-!
# The visits of a run

What holds whenever a run visits a sweep value: the books of the solver are in order, and
the voltages that the walk does not move stand where the plan wants them (`Base`). A curve is
entered and left, and gone back to, with dictionaries of `applied` kept aside (`Aside`).
-/

namespace TcadWebapp.Devsim

/-- The constants that no step and no sweep moves elsewhere. -/
def Plan.Keeps (plan : Plan) (entry : String × Volt) : Prop :=
  entry ∈ plan.constants.entries ∧ entry.1 ≠ plan.sweepBias ∧
    ∀ combination ∈ plan.steps, ∀ step ∈ combination.entries, step.1 = entry.1 → step.2 = entry.2

/-- What stands still on the walk over a curve. -/
def Plan.Fixes (plan : Plan) (combination : Dict String Volt) (entry : String × Volt) : Prop :=
  plan.Keeps entry ∨ entry ∈ combination.entries ∧ entry.1 ≠ plan.sweepBias

/-- The solver between two moves of a run, with the voltages that stand. -/
structure Base (payload : Payload) (fixed : String × Volt → Prop) (s : Solver) : Prop where
  sound : s.Sound
  groups : s.groups = contactBiasNames payload
  fixed : ∀ entry, fixed entry → Stands s.applied entry.1 entry.2

/-- A dictionary of `applied` to go back to. -/
structure Aside (payload : Payload) (fixed : String × Volt → Prop) (applied : Dict String Volt) :
    Prop where
  keyed : ∀ bias, bias ∈ applied.keys ↔ bias ∈ (contactBiasNames payload).keys
  fixed : ∀ entry, fixed entry → Stands applied entry.1 entry.2

variable {ds : Simulator} {py : Python} {payload : Payload} {fixed fixed' : String × Volt → Prop}

theorem Base.weaken {s : Solver} (h : Base payload fixed s) (le : ∀ e, fixed' e → fixed e) :
    Base payload fixed' s :=
  ⟨h.sound, h.groups, fun e he => h.fixed e (le e he)⟩

theorem Aside.weaken {applied : Dict String Volt} (h : Aside payload fixed applied)
    (le : ∀ e, fixed' e → fixed e) : Aside payload fixed' applied :=
  ⟨h.keyed, fun e he => h.fixed e (le e he)⟩

theorem Base.aside {s : Solver} (h : Base payload fixed s) : Aside payload fixed s.applied :=
  ⟨fun bias => h.groups ▸ h.sound.keyed bias, h.fixed⟩

/-- Going back takes whatever was kept aside, without an error. -/
theorem goBack {s : Solver} (sound : s.Sound) (groups : s.groups = contactBiasNames payload)
    {applied : Dict String Volt} (aside : Aside payload fixed applied) (state : Provenance) :
    ∃ s', (s.restore state).resetTo applied = (s', none) ∧ Base payload fixed s' ∧
      s'.applied = applied ∧ s'.device.regions = state := by
  have keyed : ∀ bias, bias ∈ applied.keys ↔ bias ∈ (s.restore state).groups.keys := by
    intro bias
    show _ ↔ bias ∈ s.groups.keys
    rw [groups]
    exact aside.keyed bias
  obtain ⟨s', hs', sound', groups', happ, regions⟩ :=
    Solver.resetTo_spec (sound.restore state) keyed
  refine ⟨s', hs', ⟨sound', groups'.trans groups, ?_⟩, happ, regions⟩
  rw [happ]
  exact aside.fixed

/-! ## Before the curves -/

theorem equilibrium_same (ds : Simulator) (s : Solver) :
    Solver.SameSetting s (equilibrium ds s).2 := by
  obtain ⟨same, -⟩ := Solver.dsSolve_spec ds s
  unfold equilibrium
  split
  · rename_i h
    rw [h] at same
    exact ⟨same.groups, same.applied, same.parameter, same.moments⟩
  · rename_i h
    rw [h] at same
    exact same

theorem warmUp_spec (ds : Simulator) (plan : Plan) {s : Solver} (sound : s.Sound) :
    (warmUp ds plan s).1.Sound ∧ (warmUp ds plan s).1.groups = s.groups ∧
      ((warmUp ds plan s).2 = none →
        (warmUp ds plan s).1 = s ∨ (warmUp ds plan s).1.Solved) := by
  unfold warmUp
  split
  · exact ⟨sound, rfl, fun _ => Or.inl rfl⟩
  · rename_i warm _
    split
    · exact ⟨sound, rfl, fun _ => Or.inl rfl⟩
    · have ramped := Solver.rampTo_spec ds sound plan.sweepBias warm
      exact ⟨ramped.sound, ramped.groups, ramped.solved⟩

/-- How the preparation leaves the solver: the books in order however far it came, and at its
end every constant standing and the device on a converged solution. -/
structure Prepared (payload : Payload) (s : Solver) (abort : Option Abort) : Prop where
  sound : s.Sound
  groups : s.groups = contactBiasNames payload
  stands : abort = none → ∀ entry ∈ payload.plan.constants.entries,
    Stands s.applied entry.1 entry.2
  solved : abort = none → s.Solved

theorem Prepared.of_abort {s : Solver} (sound : s.Sound)
    (groups : s.groups = contactBiasNames payload) (abort : Abort) :
    Prepared payload s (some abort) := ⟨sound, groups, by simp, by simp⟩

theorem prepare_spec (ds : Simulator) (payload : Payload) :
    Prepared payload (prepare ds payload).1 (prepare ds payload).2 := by
  unfold prepare
  have same₁ := equilibrium_same ds (Solver.init payload).mark
  have sound₁ := (Solver.sound_init payload).mark.same same₁
  have groups₁ := same₁.groups
  cases h₁ : equilibrium ds (Solver.init payload).mark with
  | mk ok₁ s₁ =>
  rw [h₁] at sound₁ groups₁
  cases ok₁ with
  | false => exact .of_abort sound₁ groups₁ _
  | true =>
  have same₂ := equilibrium_same ds s₁
  have sound₂ := sound₁.same same₂
  have groups₂ := same₂.groups.trans groups₁
  dsimp only
  cases h₂ : equilibrium ds s₁ with
  | mk ok₂ s₂ =>
  rw [h₂] at sound₂ groups₂
  cases ok₂ with
  | false => exact .of_abort sound₂ groups₂ _
  | true =>
  obtain ⟨same₃, solved₃, -⟩ := Solver.solve_spec ds s₂
  have sound₃ := sound₂.same same₃
  have groups₃ := same₃.groups.trans groups₂
  dsimp only
  cases h₃ : s₂.solve ds with
  | mk ok₃ s₃ =>
  rw [h₃] at sound₃ groups₃ solved₃
  cases ok₃ with
  | false => exact .of_abort sound₃ groups₃ _
  | true =>
  obtain ⟨sound₄, groups₄, solved₄⟩ := warmUp_spec ds payload.plan sound₃
  dsimp only
  cases h₄ : warmUp ds payload.plan s₃ with
  | mk s₄ error₄ =>
  rw [h₄] at sound₄ groups₄ solved₄
  cases error₄ with
  | some error => exact .of_abort sound₄ (groups₄.trans groups₃) _
  | none =>
  have warm : s₄.Solved := by
    rcases solved₄ rfl with rfl | solved
    · exact solved₃ rfl
    · exact solved
  have ramped := Solver.rampAll_spec ds sound₄ payload.plan.constants.nodup
  dsimp only
  cases h₅ : s₄.rampAll ds payload.plan.constants.entries with
  | mk s₅ error₅ =>
  rw [h₅] at ramped
  have groups₅ := ramped.groups.trans (groups₄.trans groups₃)
  cases error₅ with
  | some error => exact .of_abort ramped.sound groups₅ _
  | none =>
  refine ⟨ramped.sound, groups₅, fun _ => ramped.stands rfl, fun _ => ?_⟩
  rcases ramped.solved rfl with same | solved
  · exact same ▸ warm
  · exact solved

/-! ## Entering a curve -/

theorem walk_values_perm (plan : Plan) : plan.walk.values.Perm plan.sweepValues := by
  unfold Plan.walk
  split
  · exact .refl _
  · rename_i warm _
    have upper := List.perm_insertionSort (· ≤ ·) (plan.sweepValues.filter fun v => v ≥ warm)
    have lower := List.perm_insertionSort (· ≥ ·) (plan.sweepValues.filter fun v => v < warm)
    refine (upper.append lower).trans ?_
    have e : (plan.sweepValues.filter fun v => v < warm) =
        plan.sweepValues.filter fun v => !decide (v ≥ warm) := by
      apply List.filter_congr
      intro v _
      rw [← decide_not, decide_eq_decide]
      exact not_le.symm
    rw [e]
    exact List.filter_append_perm _ _

theorem backToStart_spec {st : State} (base : Base payload payload.plan.Keeps st.solver)
    (aside : ∀ start, st.curveStart = some start → Aside payload payload.plan.Keeps start.2) :
    ∃ s, st.backToStart = (s, none) ∧ Base payload payload.plan.Keeps s ∧
      (st.curveStart = none → s = st.solver) ∧
      ∀ start, st.curveStart = some start → s.applied = start.2 ∧ s.device.regions = start.1 := by
  unfold State.backToStart
  cases hs : st.curveStart with
  | none => exact ⟨st.solver, rfl, base, fun _ => rfl, by simp⟩
  | some start =>
    obtain ⟨s, back, base', applied, regions⟩ :=
      goBack base.sound base.groups (aside start hs) start.1
    refine ⟨s, back, base', by simp, ?_⟩
    intro start' e
    obtain rfl := Option.some.inj e
    exact ⟨applied, regions⟩

/-- On the way into a curve the books stay in order; past it the steps stand, and so do the
constants that no step moves. -/
theorem enterCurve_spec (ds : Simulator) {st : State} {combination : Dict String Volt}
    (mem : combination ∈ payload.plan.steps)
    (base : Base payload payload.plan.Keeps st.solver)
    (aside : ∀ start, st.curveStart = some start → Aside payload payload.plan.Keeps start.2) :
    (st.enterCurve ds payload.plan combination).1.Sound ∧
      (st.enterCurve ds payload.plan combination).1.groups = contactBiasNames payload ∧
      ((st.enterCurve ds payload.plan combination).2 = none →
        Base payload (payload.plan.Fixes combination)
            (st.enterCurve ds payload.plan combination).1 ∧
          payload.plan.sweepBias ∈ (contactBiasNames payload).keys) := by
  unfold State.enterCurve
  obtain ⟨s₁, hs₁, base₁, -⟩ := backToStart_spec base aside
  simp only [hs₁]
  have steps := Solver.rampAll_spec ds base₁.sound combination.nodup
  cases h₂ : s₁.rampAll ds combination.entries with
  | mk s₂ error₂ =>
  rw [h₂] at steps
  have groups₂ := steps.groups.trans base₁.groups
  cases error₂ with
  | some error => exact ⟨steps.sound, groups₂, by simp⟩
  | none =>
  dsimp only
  cases payload.plan.walk.values.head? with
  | none => exact ⟨steps.sound, groups₂, by simp⟩
  | some value =>
  have sweep := Solver.rampTo_spec ds steps.sound payload.plan.sweepBias value
  have groups₃ := sweep.groups.trans groups₂
  refine ⟨sweep.sound, groups₃, fun none => ⟨⟨sweep.sound, groups₃, ?_⟩, ?_⟩⟩
  · rintro entry (kept | ⟨step, apart⟩)
    · refine Stands.congr ?_ (sweep.get?_of_ne entry.1 kept.2.1)
      by_cases moved : entry.1 ∈ combination.entries.map Prod.fst
      · obtain ⟨step, hs, e⟩ := List.mem_map.mp moved
        have := steps.stands rfl step hs
        rwa [e, kept.2.2 combination mem step hs e] at this
      · exact (base₁.fixed entry kept).congr (steps.get?_of_notMem entry.1 moved)
    · exact (steps.stands rfl entry step).congr (sweep.get?_of_ne entry.1 apart)
  · obtain ⟨current, hc, -⟩ := sweep.stands none
    rw [← groups₃]
    exact (sweep.sound.keyed _).mp (Dict.mem_keys.mpr ⟨current, hc⟩)

/-! ## The walk -/

/-- What a visit finds and leaves. -/
structure Visited (ds : Simulator) (payload : Payload) (v : Visit) : Prop where
  mem : v.combination ∈ payload.plan.steps
  value : v.value ∈ payload.plan.sweepValues
  base : Base payload (payload.plan.Fixes v.combination) v.before
  arrived : ∃ current landed last, v.before.applied.get? payload.plan.sweepBias = some current ∧
    Solver.Arrived ds v.before payload.plan.sweepBias v.value landed last v.after ∧
    (last = none ↔ |v.value - current| ≤ tolerance) ∧
    (v.row ≠ none ↔ |landed - v.value| ≤ tolerance)
  row : ∀ row, v.row = some row → row.sweep = v.value ∧ row.steps = v.combination

/-- The state of a run between two visits or two curves. -/
structure Walked (ds : Simulator) (payload : Payload) (fixed : String × Volt → Prop) (st : State) :
    Prop where
  base : Base payload fixed st.solver
  aside : ∀ start, st.curveStart = some start → Aside payload payload.plan.Keeps start.2
  visits : ∀ v ∈ st.visits, Visited ds payload v
  rows : st.rows = st.visits.filterMap Visit.row

/-- Moving the sweep bias leaves the rest of the voltages standing. -/
theorem Base.arrived {s s' : Solver} {bias : String} {target landed : Volt} {last : Option Bool}
    (h : Base payload fixed s) (apart : ∀ e, fixed e → e.1 ≠ bias)
    (arrived : Solver.Arrived ds s bias target landed last s') : Base payload fixed s' := by
  refine ⟨h.sound.tries arrived.tries, arrived.tries.groups.trans h.groups, ?_⟩
  intro e he
  exact (h.fixed e he).congr (arrived.tries.get?_of_ne (apart e he))

theorem Plan.Fixes.ne {plan : Plan} {combination : Dict String Volt} {e : String × Volt}
    (h : plan.Fixes combination e) : e.1 ≠ plan.sweepBias := by
  rcases h with kept | ⟨-, apart⟩
  · exact kept.2.1
  · exact apart

/-- The walk's own start, on which every visit of the curve depends. -/
structure OnWalk (payload : Payload) (combination : Dict String Volt)
    (start : Provenance × Dict String Volt) : Prop where
  mem : combination ∈ payload.plan.steps
  start : Aside payload (payload.plan.Fixes combination) start.2
  sweep : payload.plan.sweepBias ∈ (contactBiasNames payload).keys

theorem turned_spec {combination : Dict String Volt} {start : Provenance × Dict String Volt}
    (on : OnWalk payload combination start) {s : Solver}
    (base : Base payload (payload.plan.Fixes combination) s) (index : Nat) :
    ∃ s', State.turned payload.plan start s index = (s', none) ∧
      Base payload (payload.plan.Fixes combination) s' := by
  unfold State.turned
  split
  · obtain ⟨s', back, base', -⟩ := goBack base.sound base.groups on.start start.1
    exact ⟨s', back, base'⟩
  · exact ⟨s, rfl, base⟩

/-- A visit: it ends with no exception but a reading's. -/
theorem visit_spec (ds : Simulator) (py : Python) {combination : Dict String Volt}
    {start : Provenance × Dict String Volt} (on : OnWalk payload combination start) {st : State}
    (walked : Walked ds payload (payload.plan.Fixes combination) st) (index : Nat) {value : Volt}
    (mem : value ∈ payload.plan.sweepValues) :
    let out := st.visit ds py payload combination start index value
    Walked ds payload (payload.plan.Fixes combination) out.1 ∧
      (out.2 = none ∨ out.2 = some .reading) := by
  obtain ⟨s, hs, base⟩ := turned_spec on walked.base index
  have keys : payload.plan.sweepBias ∈ s.applied.keys :=
    (base.sound.keyed _).mpr (base.groups ▸ on.sweep)
  obtain ⟨current, hc⟩ := Dict.mem_keys.mp keys
  obtain ⟨landed, last, s', hr, arrived, near⟩ := Solver.reached_spec ds base.sound.keyed hc value
  have base' := base.arrived (fun _ fixed => fixed.ne) arrived
  have visited : ∀ row, (∀ r, row = some r → r.sweep = value ∧ r.steps = combination) →
      (row ≠ none ↔ |landed - value| ≤ tolerance) →
      Visited ds payload ⟨combination, value, s, s', row⟩ := fun row hrow he =>
    ⟨on.mem, mem, base, ⟨current, landed, last, hc, arrived, near, he⟩, hrow⟩
  have snoc : ∀ row, Visited ds payload ⟨combination, value, s, s', row⟩ →
      ∀ v ∈ st.visits ++ [⟨combination, value, s, s', row⟩], Visited ds payload v := by
    intro row new v hv
    rcases List.mem_append.mp hv with old | hv
    · exact walked.visits v old
    · obtain rfl := List.mem_singleton.mp hv
      exact new
  dsimp only
  unfold State.visit
  simp only [hs, hr]
  by_cases far : |landed - value| > tolerance
  · rw [if_pos far]
    refine ⟨⟨base', walked.aside, snoc none (visited none (by simp) (by simpa using far)), ?_⟩,
      Or.inl rfl⟩
    show st.rows = (st.visits ++ [_]).filterMap Visit.row
    rw [List.filterMap_append, ← walked.rows]
    simp
  · rw [if_neg far]
    split
    · rename_i solved currents _ _
      refine ⟨⟨base', walked.aside, snoc _ (visited _ ?_ (by simpa using far)), ?_⟩, Or.inl rfl⟩
      · intro r hr
        obtain rfl := Option.some.inj hr
        exact ⟨rfl, rfl⟩
      · show st.rows ++ [_] = (st.visits ++ [_]).filterMap Visit.row
        rw [List.filterMap_append, ← walked.rows]
        rfl
    · exact ⟨⟨base', walked.aside, walked.visits, walked.rows⟩, Or.inr rfl⟩

theorem visitAll_spec (ds : Simulator) (py : Python) {combination : Dict String Volt}
    {start : Provenance × Dict String Volt} (on : OnWalk payload combination start) {st : State}
    (walked : Walked ds payload (payload.plan.Fixes combination) st) (index : Nat)
    {values : List Volt} (mem : ∀ value ∈ values, value ∈ payload.plan.sweepValues) :
    let out := st.visitAll ds py payload combination start index values
    Walked ds payload (payload.plan.Fixes combination) out.1 ∧
      (out.2 = none ∨ out.2 = some .reading) := by
  induction values generalizing st index with
  | nil => exact ⟨walked, Or.inl rfl⟩
  | cons value values ih =>
    have one := visit_spec ds py on walked index (mem value (by simp))
    dsimp only at one ⊢
    unfold State.visitAll
    cases hv : st.visit ds py payload combination start index value with
    | mk st₁ abort =>
      rw [hv] at one
      cases abort with
      | some abort => exact one
      | none => exact ih one.1 (index + 1) fun value hv => mem value (List.mem_cons_of_mem _ hv)

/-! ## The curves -/

theorem giveUp_all (py : Python) (combination : Dict String Volt) (text className : String)
    (values : List Volt) (st : State) :
    let out := values.foldl (fun (st : State) value =>
      st.giveUp py combination value text className 0) st
    out.solver = st.solver ∧ out.curveStart = st.curveStart ∧ out.visits = st.visits ∧
      out.rows = st.rows := by
  induction values generalizing st with
  | nil => exact ⟨rfl, rfl, rfl, rfl⟩
  | cons value values ih => exact ih (st.giveUp py combination value text className 0)

/-- A curve leaves the run where the next one can start. -/
theorem curve_spec (ds : Simulator) (py : Python) {baseline : Provenance × Dict String Volt}
    (aside : Aside payload payload.plan.Keeps baseline.2) {st : State}
    (walked : Walked ds payload payload.plan.Keeps st) {combination : Dict String Volt}
    (mem : combination ∈ payload.plan.steps) :
    let out := st.curve ds py payload baseline combination
    Walked ds payload payload.plan.Keeps out.1 ∧ (out.2 = none ∨ out.2 = some .reading) := by
  have recorded : ∀ line, Walked ds payload payload.plan.Keeps (st.record line) := fun _ =>
    ⟨walked.base, walked.aside, walked.visits, walked.rows⟩
  obtain ⟨st₀, h₀, walked₀⟩ : ∃ st₀, (if combination.entries ≠ [] ∨ st.curveStart ≠ none then
      st.record (.moving combination) else st) = st₀ ∧ Walked ds payload payload.plan.Keeps st₀ := by
    refine ⟨_, rfl, ?_⟩
    split
    · exact recorded _
    · exact walked
  have entered := enterCurve_spec ds mem walked₀.base walked₀.aside
  dsimp only
  unfold State.curve
  simp only [h₀]
  cases he : st₀.enterCurve ds payload.plan combination with
  | mk s error =>
  rw [he] at entered
  obtain ⟨sound, groups, ok⟩ := entered
  cases error with
  | some error =>
    obtain ⟨s', hs', base', -⟩ := goBack sound groups aside baseline.1
    dsimp only
    unfold State.giveUpCurve
    simp only [hs']
    obtain ⟨hsolver, hstart, hvisits, hrows⟩ := giveUp_all py combination (error.str py)
      error.className payload.plan.sweepValues { st₀ with solver := s', curveStart := none }
    refine ⟨⟨?_, ?_, ?_, ?_⟩, Or.inl trivial⟩
    · rw [hsolver]
      exact base'
    · rw [hstart]
      simp
    · rw [hvisits]
      exact walked₀.visits
    · rw [hrows, hvisits]
      exact walked₀.rows
  | none =>
    obtain ⟨base, sweep⟩ := ok rfl
    have keep : ∀ e, payload.plan.Keeps e → payload.plan.Fixes combination e := fun _ => Or.inl
    have start : Walked ds payload (payload.plan.Fixes combination)
        { st₀ with solver := s, curveStart := some (s.snapshot, s.applied) } := by
      refine ⟨base, ?_, walked₀.visits, walked₀.rows⟩
      intro start hs
      obtain rfl := Option.some.inj hs
      exact base.aside.weaken keep
    obtain ⟨walked', ended⟩ := visitAll_spec ds py
      (⟨mem, base.aside, sweep⟩ : OnWalk payload combination (s.snapshot, s.applied)) start 0
      fun value => ((walk_values_perm payload.plan).mem_iff).mp
    exact ⟨⟨walked'.base.weaken keep, walked'.aside, walked'.visits, walked'.rows⟩, ended⟩

theorem curves_spec (ds : Simulator) (py : Python) {baseline : Provenance × Dict String Volt}
    (aside : Aside payload payload.plan.Keeps baseline.2) {st : State}
    (walked : Walked ds payload payload.plan.Keeps st) {steps : List (Dict String Volt)}
    (mem : ∀ combination ∈ steps, combination ∈ payload.plan.steps) :
    let out := st.curves ds py payload baseline steps
    Walked ds payload payload.plan.Keeps out.1 ∧ (out.2 = none ∨ out.2 = some .reading) := by
  induction steps generalizing st with
  | nil => exact ⟨walked, Or.inl rfl⟩
  | cons combination steps ih =>
    have one := curve_spec ds py aside walked (mem combination (by simp))
    dsimp only at one ⊢
    unfold State.curves
    cases hv : st.curve ds py payload baseline combination with
    | mk st₁ abort =>
      rw [hv] at one
      cases abort with
      | some abort => exact one
      | none => exact ih one.1 fun c hc => mem c (List.mem_cons_of_mem _ hc)

/-- A run that gets past the preparation ends with no exception but a reading's. -/
theorem run_spec (ds : Simulator) (py : Python) (payload : Payload)
    (ready : (prepare ds payload).2 = none) :
    Walked ds payload payload.plan.Keeps (run ds py payload).1 ∧
      ((run ds py payload).2 = none ∨ (run ds py payload).2 = some .reading) := by
  have prepared := prepare_spec ds payload
  unfold run
  cases hp : prepare ds payload with
  | mk s abort =>
  rw [hp] at ready prepared
  obtain rfl : abort = none := ready
  have base : Base payload payload.plan.Keeps s :=
    ⟨prepared.sound, prepared.groups, fun entry kept => prepared.stands rfl entry kept.1⟩
  exact curves_spec ds py base.aside ⟨base, by simp, by simp, rfl⟩ fun _ h => h

/-- The books are in order in every run, whether it gets past the preparation or not. -/
theorem run_sound (ds : Simulator) (py : Python) (payload : Payload) :
    (run ds py payload).1.solver.Sound ∧
      (run ds py payload).1.solver.groups = contactBiasNames payload := by
  cases hp : (prepare ds payload).2 with
  | none =>
    have walked := (run_spec ds py payload hp).1
    exact ⟨walked.base.sound, walked.base.groups⟩
  | some abort =>
    have prepared := prepare_spec ds payload
    unfold run
    cases hq : prepare ds payload with
    | mk s abort' =>
    rw [hq] at hp prepared
    obtain rfl : abort' = some abort := hp
    exact ⟨prepared.sound, prepared.groups⟩

end TcadWebapp.Devsim
