import TcadWebapp.Devsim.Proofs.Readings

/-!
# Plans in which nothing floats

Without circuit nodes a restore is a restore of the whole solution, and the walk has no turn.
Then every curve starts on a converged solution, and a solution that is not converged is met
only by the visit right after one that was given up.
-/

namespace TcadWebapp.Devsim

variable {ds : Simulator} {py : Python} {payload : Payload}

/-- A solution and a dictionary of `applied` that belong together. -/
def Fresh (payload : Payload) (start : Provenance × Dict String Volt) : Prop :=
  ∃ call parameter, start.1 = .solved call parameter ∧
    Agrees (contactBiasNames payload) start.2 parameter

theorem Converged.fresh {s : Solver} (h : Converged payload s) :
    Fresh payload (s.snapshot, s.applied) := by
  obtain ⟨call, parameter, regions, -, agrees⟩ := h
  exact ⟨call, parameter, regions, agrees⟩

theorem Fresh.converged {start : Provenance × Dict String Volt} (h : Fresh payload start)
    (grounded : payload.plan.floating = []) {s : Solver} (applied : s.applied = start.2)
    (regions : s.device.regions = start.1) : Converged payload s := by
  obtain ⟨call, parameter, solved, agrees⟩ := h
  exact ⟨call, parameter, regions.trans solved, fun floats => absurd grounded floats,
    applied ▸ agrees⟩

/-- Ramps that succeed keep the solver on a converged solution. -/
theorem converged_of_ramped {s s' : Solver} (apart : ContactsApart payload)
    (h : Converged payload s) (sound : s'.Sound) (groups : s'.groups = contactBiasNames payload)
    (solved : s' = s ∨ s'.Solved) : Converged payload s' := by
  rcases solved with rfl | solved
  · exact h
  · exact converged_of_solved apart sound groups solved

/-- Into a curve, from a converged solution or from one kept aside. -/
theorem enterCurve_converged (ds : Simulator) (combination : Dict String Volt)
    (apart : ContactsApart payload) (grounded : payload.plan.floating = []) {st : State}
    (base : Base payload payload.plan.Keeps st.solver)
    (aside : ∀ start, st.curveStart = some start → Aside payload payload.plan.Keeps start.2)
    (here : st.curveStart = none → Converged payload st.solver)
    (kept : ∀ start, st.curveStart = some start → Fresh payload start)
    (ok : (st.enterCurve ds payload.plan combination).2 = none) :
    Converged payload (st.enterCurve ds payload.plan combination).1 := by
  obtain ⟨s₁, hs₁, base₁, stay, back⟩ := backToStart_spec base aside
  have converged₁ : Converged payload s₁ := by
    cases hs : st.curveStart with
    | none => exact stay hs ▸ here hs
    | some start =>
      obtain ⟨applied, regions⟩ := back start hs
      exact (kept start hs).converged grounded applied regions
  unfold State.enterCurve at ok ⊢
  simp only [hs₁] at ok ⊢
  have steps := Solver.rampAll_spec ds base₁.sound combination.nodup
  cases h₂ : s₁.rampAll ds combination.entries with
  | mk s₂ error₂ =>
  rw [h₂] at steps
  simp only [h₂] at ok
  cases error₂ with
  | some error => simp at ok
  | none =>
  have groups₂ := steps.groups.trans base₁.groups
  have converged₂ : Converged payload s₂ := converged_of_ramped apart converged₁
    steps.sound groups₂ (steps.solved rfl)
  dsimp only at ok ⊢
  cases hv : payload.plan.walk.values.head? with
  | none => simp [hv] at ok
  | some value =>
  simp only [hv] at ok
  have sweep := Solver.rampTo_spec ds steps.sound payload.plan.sweepBias value
  exact converged_of_ramped apart converged₂ sweep.sound (sweep.groups.trans groups₂)
    (sweep.solved ok)

/-- A visit that was given up is followed, from where it stopped, by a visit of that voltage. -/
def Stalled (payload : Payload) (visits : List Visit) : Prop :=
  ∃ v w, [v, w] <:+: visits ∧ w.before = v.after ∧ v.row = none ∧
    Stands w.before.applied payload.plan.sweepBias w.value

/-- No visit finds its value applied over a solution that is not converged there. -/
def Clean (payload : Payload) (visits : List Visit) : Prop :=
  ∀ w ∈ visits, Stands w.before.applied payload.plan.sweepBias w.value →
    Converged payload w.before

/-- Between two visits, up to the first stall: the solver is on a converged solution or where
the last visit gave up. -/
def OnTrack (payload : Payload) (st : State) : Prop :=
  Stalled payload st.visits ∨ Clean payload st.visits ∧ (Converged payload st.solver ∨
    ∃ visits v, st.visits = visits ++ [v] ∧ v.after = st.solver ∧ v.row = none)

theorem Stalled.append {visits : List Visit} (h : Stalled payload visits) (later : List Visit) :
    Stalled payload (visits ++ later) := by
  obtain ⟨v, w, infix_, rest⟩ := h
  exact ⟨v, w, infix_.trans (List.prefix_append visits later).isInfix, rest⟩

/-- A visit adds itself, from the solver at hand to the one it leaves. -/
theorem visit_visits (ds : Simulator) (py : Python) (payload : Payload)
    (grounded : payload.plan.floating = []) (combination : Dict String Volt)
    (start : Provenance × Dict String Volt) (st : State) (index : Nat) (value : Volt) :
    let out := st.visit ds py payload combination start index value
    (out.2 = none ∧ ∃ v, out.1.visits = st.visits ++ [v] ∧ v.before = st.solver ∧
      v.after = out.1.solver) ∨ (out.2 ≠ none ∧ out.1.visits = st.visits) := by
  have turn : State.turned payload.plan start st.solver index = (st.solver, none) := by
    simp [State.turned, Plan.walk, Plan.warm, grounded]
  dsimp only
  unfold State.visit
  simp only [turn]
  cases st.solver.reached ds payload.plan.sweepBias value with
  | none => exact Or.inr ⟨by simp, rfl⟩
  | some arrived =>
  dsimp only
  split
  · exact Or.inl ⟨rfl, _, rfl, rfl, rfl⟩
  · split
    · exact Or.inl ⟨rfl, _, rfl, rfl, rfl⟩
    · exact Or.inr ⟨by simp, rfl⟩

theorem visit_onTrack (ds : Simulator) (py : Python) (apart : ContactsApart payload)
    (grounded : payload.plan.floating = []) {combination : Dict String Volt}
    {start : Provenance × Dict String Volt} (on : OnWalk payload combination start) {st : State}
    (walked : Walked ds payload (payload.plan.Fixes combination) st) (track : OnTrack payload st)
    (index : Nat) {value : Volt} (mem : value ∈ payload.plan.sweepValues) :
    let out := st.visit ds py payload combination start index value
    (out.2 = none → OnTrack payload out.1) ∧
      (Stalled payload out.1.visits ∨ Clean payload out.1.visits) := by
  have walked' := (visit_spec ds py on walked index mem).1
  have added := visit_visits ds py payload grounded combination start st index value
  dsimp only at walked' added ⊢
  cases hv : st.visit ds py payload combination start index value with
  | mk st' abort =>
  rw [hv] at walked' added
  rcases added with ⟨ended, w, visits, before, after⟩ | ⟨raised, visits⟩
  · suffices OnTrack payload st' from ⟨fun _ => this, this.imp_right And.left⟩
    have visited := walked'.visits w (by rw [visits]; simp)
    rcases track with stalled | ⟨clean, here⟩
    · exact Or.inl (visits ▸ stalled.append [w])
    by_cases there : Stands w.before.applied payload.plan.sweepBias w.value
    · rcases here with converged | ⟨old, v, last, stopped, gaveUp⟩
      · refine Or.inr ⟨?_, Or.inl ?_⟩
        · intro x hx _
          rw [visits, List.mem_append, List.mem_singleton] at hx
          rcases hx with hx | rfl
          · exact clean x hx ‹_›
          · exact before ▸ converged
        · rw [← after, (visited.after_eq there).1, before]
          exact converged
      · refine Or.inl ⟨v, w, ⟨old, [], ?_⟩, before.trans stopped.symm, gaveUp, there⟩
        rw [visits, last]
        simp
    · refine Or.inr ⟨?_, ?_⟩
      · intro x hx found
        rw [visits, List.mem_append, List.mem_singleton] at hx
        rcases hx with hx | rfl
        · exact clean x hx found
        · exact absurd found there
      · cases hr : w.row with
        | none => exact Or.inr ⟨st.visits, w, visits, after, hr⟩
        | some row =>
          exact Or.inl (after ▸ visited.converged_of_moved apart (by simp [hr]) there)
  · refine ⟨fun ended => absurd ended raised, ?_⟩
    dsimp only at visits ⊢
    rw [visits]
    exact track.imp_right And.left

theorem visitAll_onTrack (ds : Simulator) (py : Python) (apart : ContactsApart payload)
    (grounded : payload.plan.floating = []) {combination : Dict String Volt}
    {start : Provenance × Dict String Volt} (on : OnWalk payload combination start) {st : State}
    (walked : Walked ds payload (payload.plan.Fixes combination) st) (track : OnTrack payload st)
    (index : Nat) {values : List Volt} (mem : ∀ value ∈ values, value ∈ payload.plan.sweepValues) :
    let out := st.visitAll ds py payload combination start index values
    Stalled payload out.1.visits ∨ Clean payload out.1.visits := by
  induction values generalizing st index with
  | nil => exact track.imp_right And.left
  | cons value values ih =>
    have walked' := visit_spec ds py on walked index (mem value (by simp))
    have track' := visit_onTrack ds py apart grounded on walked track index (mem value (by simp))
    dsimp only at walked' track' ⊢
    unfold State.visitAll
    cases hv : st.visit ds py payload combination start index value with
    | mk st₁ abort =>
      rw [hv] at walked' track'
      cases abort with
      | some abort => exact track'.2
      | none =>
        exact ih walked'.1 (track'.1 rfl) (index + 1) fun v hv => mem v (List.mem_cons_of_mem _ hv)

/-! ## Over the curves -/

theorem visit_curveStart (ds : Simulator) (py : Python) (payload : Payload)
    (combination : Dict String Volt) (start : Provenance × Dict String Volt) (st : State)
    (index : Nat) (value : Volt) :
    (st.visit ds py payload combination start index value).1.curveStart = st.curveStart := by
  unfold State.visit
  cases State.turned payload.plan start st.solver index with
  | mk s error =>
  cases error with
  | some error => rfl
  | none =>
  dsimp only
  cases s.reached ds payload.plan.sweepBias value with
  | none => rfl
  | some arrived =>
  dsimp only
  split
  · rfl
  · split <;> rfl

theorem visitAll_curveStart (ds : Simulator) (py : Python) (payload : Payload)
    (combination : Dict String Volt) (start : Provenance × Dict String Volt) (st : State)
    (index : Nat) (values : List Volt) :
    (st.visitAll ds py payload combination start index values).1.curveStart = st.curveStart := by
  induction values generalizing st index with
  | nil => rfl
  | cons value values ih =>
    have one := visit_curveStart ds py payload combination start st index value
    unfold State.visitAll
    cases hv : st.visit ds py payload combination start index value with
    | mk st₁ abort =>
      rw [hv] at one
      cases abort with
      | some abort => exact one
      | none => exact (ih st₁ (index + 1)).trans one

/-- Between two curves: what the next one starts from is a converged solution. -/
structure Enters (payload : Payload) (st : State) : Prop where
  here : st.curveStart = none → Converged payload st.solver
  kept : ∀ start, st.curveStart = some start → Fresh payload start
  visits : Stalled payload st.visits ∨ Clean payload st.visits

theorem curve_enters (ds : Simulator) (py : Python) (apart : ContactsApart payload)
    (grounded : payload.plan.floating = []) {baseline : Provenance × Dict String Volt}
    (aside : Aside payload payload.plan.Keeps baseline.2) (fresh : Fresh payload baseline)
    {st : State} (walked : Walked ds payload payload.plan.Keeps st) (enters : Enters payload st)
    {combination : Dict String Volt} (mem : combination ∈ payload.plan.steps) :
    Enters payload (st.curve ds py payload baseline combination).1 := by
  obtain ⟨st₀, h₀, walked₀, enters₀⟩ : ∃ st₀,
      (if combination.entries ≠ [] ∨ st.curveStart ≠ none then
        st.record (.moving combination) else st) = st₀ ∧
      Walked ds payload payload.plan.Keeps st₀ ∧ Enters payload st₀ := by
    refine ⟨_, rfl, ?_⟩
    split
    · exact ⟨⟨walked.base, walked.aside, walked.visits, walked.rows⟩,
        ⟨enters.here, enters.kept, enters.visits⟩⟩
    · exact ⟨walked, enters⟩
  have entered := enterCurve_spec ds mem walked₀.base walked₀.aside
  have converged := enterCurve_converged ds combination apart grounded walked₀.base walked₀.aside
    enters₀.here enters₀.kept
  unfold State.curve
  simp only [h₀]
  cases he : st₀.enterCurve ds payload.plan combination with
  | mk s error =>
  rw [he] at entered converged
  obtain ⟨sound, groups, ok⟩ := entered
  cases error with
  | some error =>
    obtain ⟨s', hs', base', applied, regions⟩ := goBack sound groups aside baseline.1
    dsimp only
    unfold State.giveUpCurve
    simp only [hs']
    obtain ⟨hsolver, hstart, hvisits, -⟩ := giveUp_all py combination (error.str py)
      error.className payload.plan.sweepValues { st₀ with solver := s', curveStart := none }
    refine ⟨?_, ?_, ?_⟩
    · rw [hsolver]
      exact fun _ => fresh.converged grounded applied regions
    · rw [hstart]
      simp
    · rw [hvisits]
      exact enters₀.visits
  | none =>
    obtain ⟨base, sweep⟩ := ok rfl
    have converged := converged rfl
    have keep : ∀ e, payload.plan.Keeps e → payload.plan.Fixes combination e := fun _ => Or.inl
    have start : Walked ds payload (payload.plan.Fixes combination)
        { st₀ with solver := s, curveStart := some (s.snapshot, s.applied) } := by
      refine ⟨base, ?_, walked₀.visits, walked₀.rows⟩
      intro start hs
      obtain rfl := Option.some.inj hs
      exact base.aside.weaken keep
    have unturned := visitAll_curveStart ds py payload combination (s.snapshot, s.applied)
      { st₀ with solver := s, curveStart := some (s.snapshot, s.applied) } 0
      payload.plan.walk.values
    refine ⟨?_, ?_, ?_⟩
    · intro none
      rw [unturned] at none
      cases none
    · intro start' hs
      rw [unturned] at hs
      obtain rfl := Option.some.inj hs
      exact converged.fresh
    · exact visitAll_onTrack ds py apart grounded
        (⟨mem, base.aside, sweep⟩ : OnWalk payload combination (s.snapshot, s.applied)) start
        (enters₀.visits.imp_right fun clean => ⟨clean, Or.inl converged⟩) 0
        fun value => ((walk_values_perm payload.plan).mem_iff).mp

theorem curves_enters (ds : Simulator) (py : Python) (apart : ContactsApart payload)
    (grounded : payload.plan.floating = []) {baseline : Provenance × Dict String Volt}
    (aside : Aside payload payload.plan.Keeps baseline.2) (fresh : Fresh payload baseline)
    {st : State} (walked : Walked ds payload payload.plan.Keeps st) (enters : Enters payload st)
    {steps : List (Dict String Volt)}
    (mem : ∀ combination ∈ steps, combination ∈ payload.plan.steps) :
    Enters payload (st.curves ds py payload baseline steps).1 := by
  induction steps generalizing st with
  | nil => exact enters
  | cons combination steps ih =>
    have walked' := (curve_spec ds py aside walked (mem combination (by simp))).1
    have enters' := curve_enters ds py apart grounded aside fresh walked enters
      (mem combination (by simp))
    unfold State.curves
    cases hv : st.curve ds py payload baseline combination with
    | mk st₁ abort =>
      rw [hv] at walked' enters'
      cases abort with
      | some abort => exact enters'
      | none => exact ih walked' enters' fun c hc => mem c (List.mem_cons_of_mem _ hc)

theorem run_stalled_or_clean (ds : Simulator) (py : Python) (apart : ContactsApart payload)
    (grounded : payload.plan.floating = []) :
    Stalled payload (run ds py payload).1.visits ∨ Clean payload (run ds py payload).1.visits := by
  have prepared := prepare_spec ds payload
  unfold run
  cases hp : prepare ds payload with
  | mk s abort =>
  rw [hp] at prepared
  have none : Clean payload [] := by simp [Clean]
  cases abort with
  | some abort => exact Or.inr none
  | none =>
    have base : Base payload payload.plan.Keeps s :=
      ⟨prepared.sound, prepared.groups, fun entry kept => prepared.stands rfl entry kept.1⟩
    have converged := converged_of_solved apart base.sound base.groups (prepared.solved rfl)
    exact (curves_enters ds py apart grounded base.aside converged.fresh
      ⟨base, by simp, by simp, rfl⟩ ⟨fun _ => converged, by simp, Or.inr none⟩ fun _ h => h).visits

/-- Where nothing floats, the rows of a run are read off converged solutions exactly when no
visit that was given up is followed, from where it stopped, by a visit of that voltage. -/
theorem rows_converged_iff_grounded (ds : Simulator) (py : Python)
    (apart : ContactsApart payload) (grounded : payload.plan.floating = []) :
    RowsConverged payload (run ds py payload).1 ↔ ¬ Stalled payload (run ds py payload).1.visits := by
  constructor
  · rintro h ⟨v, w, infix_, before, gaveUp, there⟩
    have hv : v ∈ (run ds py payload).1.visits := infix_.subset (by simp)
    have hw : w ∈ (run ds py payload).1.visits := infix_.subset (by simp)
    obtain ⟨after, hr⟩ := (visited_of_run hw).after_eq there
    obtain ⟨row, hr⟩ := Option.ne_none_iff_exists'.mp hr
    obtain ⟨call, parameter, solved, -⟩ := h.converged w hw row hr
    obtain ⟨call', stray⟩ := (visited_of_run hv).astray_of_gaveUp gaveUp
    rw [after, before, stray] at solved
    cases solved
  · intro h
    exact rows_converged_of_clean ds py apart
      ((run_stalled_or_clean ds py apart grounded).resolve_left h)

end TcadWebapp.Devsim
