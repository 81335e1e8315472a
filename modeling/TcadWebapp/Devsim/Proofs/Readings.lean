import TcadWebapp.Devsim.Proofs.Visits

/-!
# What a row is read off

The two promises of a row: that the biases stand where the plan says (`BooksInOrder`), and
that the device holds a converged solution at those voltages (`RowsConverged`). The first
fails for a plan that gives one bias name two voltages. The second fails when a visit finds
its value already applied over a solution that a failed solve left behind.
-/

namespace TcadWebapp.Devsim

/-- Contacts that do not float and have one name have one bias. -/
def ContactsApart (payload : Payload) : Prop :=
  ∀ contact ∈ payload.contacts, ∀ contact' ∈ payload.contacts,
    contact.bias ∉ payload.plan.floating → contact'.bias ∉ payload.plan.floating →
      contact.name = contact'.name → contact.bias = contact'.bias

/-- No name is given two voltages at one bias point. -/
def Plan.Unambiguous (plan : Plan) : Prop :=
  ∀ combination ∈ plan.steps, ∀ value ∈ plan.sweepValues,
    ∀ entry ∈ plan.constants.entries ++ combination.entries ++ [(plan.sweepBias, value)],
      ∀ entry' ∈ plan.constants.entries ++ combination.entries ++ [(plan.sweepBias, value)],
        entry.1 = entry'.1 → entry.2 = entry'.2

variable {ds : Simulator} {py : Python} {payload : Payload}

theorem ContactsApart.apart (h : ContactsApart payload) : Apart (contactBiasNames payload) := by
  intro bias bias' names names' hg hg' name hn hn'
  rw [Solver.get?_contactBiasNames] at hg hg'
  dsimp only at hg hg'
  split at hg
  · cases hg
  · split at hg'
    · cases hg'
    · obtain rfl := Option.some.inj hg
      obtain rfl := Option.some.inj hg'
      obtain ⟨contact, hc, rfl⟩ := List.mem_map.mp hn
      obtain ⟨contact', hc', e⟩ := List.mem_map.mp hn'
      obtain ⟨mem, driven⟩ := List.mem_filter.mp hc
      obtain ⟨mem', driven'⟩ := List.mem_filter.mp hc'
      simp only [decide_eq_true_eq] at driven driven'
      rw [← driven.1, ← driven'.1]
      exact h contact mem contact' mem' driven.2 driven'.2 e.symm

/-- The row of a visit is one of the run's rows, and there are no others. -/
theorem rows_eq (ds : Simulator) (py : Python) (payload : Payload) :
    (run ds py payload).1.rows = (run ds py payload).1.visits.filterMap Visit.row := by
  cases hp : (prepare ds payload).2 with
  | none => exact (run_spec ds py payload hp).1.rows
  | some abort =>
    unfold run
    cases hq : prepare ds payload with
    | mk s abort' =>
    rw [hq] at hp
    obtain rfl : abort' = some abort := hp
    rfl

theorem visited_of_run {v : Visit} (hv : v ∈ (run ds py payload).1.visits) :
    Visited ds payload v := by
  cases hp : (prepare ds payload).2 with
  | none => exact (run_spec ds py payload hp).1.visits v hv
  | some abort =>
    unfold run at hv
    cases hq : prepare ds payload with
    | mk s abort' =>
    rw [hq] at hp hv
    obtain rfl : abort' = some abort := hp
    simp at hv

/-! ## The biases of a row -/

/-- `applied` is what is set on the contacts, now and at every moment before; and at each row
the sweep bias, the steps and the constants stand at their voltages. -/
structure BooksInOrder (payload : Payload) (st : State) : Prop where
  agrees : ∀ moment ∈ (st.solver.applied, st.solver.device.parameter) :: st.solver.moments,
    Agrees (contactBiasNames payload) moment.1 moment.2
  rows : st.rows = st.visits.filterMap Visit.row
  stands : ∀ v ∈ st.visits, ∀ row, v.row = some row →
    Stands v.after.applied payload.plan.sweepBias row.sweep ∧
    (∀ step ∈ row.steps.entries, Stands v.after.applied step.1 step.2) ∧
    ∀ constant ∈ payload.plan.constants.entries, Stands v.after.applied constant.1 constant.2

/-- A row's own voltages stand when it is read: the sweep's value, and every step's that is
not of the sweep's name. -/
theorem Visited.row_stands {v : Visit} (h : Visited ds payload v) {row : Row}
    (hr : v.row = some row) : Stands v.after.applied payload.plan.sweepBias row.sweep ∧
      ∀ entry, payload.plan.Fixes row.steps entry → Stands v.after.applied entry.1 entry.2 := by
  obtain ⟨current, landed, last, hc, arrived, -, ok⟩ := h.arrived
  obtain ⟨hsweep, hsteps⟩ := h.row row hr
  refine ⟨⟨landed, arrived.stands, ?_⟩, ?_⟩
  · rw [hsweep]
    exact ok.mp (by simp [hr])
  · rw [hsteps]
    exact (h.base.arrived (fun _ fixed => fixed.ne) arrived).fixed

/-- In every run over an unambiguous plan the books are in order. -/
theorem books_of_run (ds : Simulator) (py : Python) {payload : Payload}
    (apart : ContactsApart payload) (unambiguous : payload.plan.Unambiguous) :
    BooksInOrder payload (run ds py payload).1 := by
  obtain ⟨sound, groups⟩ := run_sound ds py payload
  have apart' : Apart (run ds py payload).1.solver.groups := groups ▸ apart.apart
  refine ⟨?_, rows_eq ds py payload, ?_⟩
  · intro moment hm
    rw [← groups]
    rcases List.mem_cons.mp hm with rfl | hm
    · exact sound.agrees apart'
    · exact sound.moments apart' moment hm
  · intro v hv row hr
    have visited := visited_of_run hv
    obtain ⟨hsweep, hsteps⟩ := visited.row row hr
    obtain ⟨sweep, fixed⟩ := visited.row_stands hr
    have one := unambiguous v.combination visited.mem v.value visited.value
    -- an entry of the sweep's name has the sweep's voltage
    have moved : ∀ entry ∈ payload.plan.constants.entries ++ v.combination.entries,
        entry.1 = payload.plan.sweepBias → Stands v.after.applied entry.1 entry.2 := by
      intro entry he e
      have := one entry (List.mem_append_left _ he) (payload.plan.sweepBias, v.value) (by simp) e
      rw [e, this, ← hsweep]
      exact sweep
    refine ⟨sweep, ?_, ?_⟩
    · intro step hs
      rw [hsteps] at hs
      by_cases e : step.1 = payload.plan.sweepBias
      · exact moved step (List.mem_append_right _ hs) e
      · exact fixed step (Or.inr ⟨hsteps ▸ hs, e⟩)
    · intro constant hc
      by_cases e : constant.1 = payload.plan.sweepBias
      · exact moved constant (List.mem_append_left _ hc) e
      · refine fixed constant (Or.inl ⟨hc, e, ?_⟩)
        intro combination hcomb step hs same
        exact unambiguous combination hcomb v.value visited.value step (by simp [hs]) constant
          (by simp [hc]) same

/-! ### One name for a constant and a step -/

instance (applied : Dict String Volt) (bias : String) (value : Volt) :
    Decidable (Stands applied bias value) :=
  match h : applied.get? bias with
  | none => isFalse (by simp [Stands, h])
  | some current => decidable_of_iff (|current - value| ≤ tolerance) (by simp [Stands, h])

instance (payload : Payload) : Decidable (ContactsApart payload) :=
  inferInstanceAs (Decidable (∀ contact ∈ payload.contacts, ∀ contact' ∈ payload.contacts,
    contact.bias ∉ payload.plan.floating → contact'.bias ∉ payload.plan.floating →
      contact.name = contact'.name → contact.bias = contact'.bias))

instance (plan : Plan) : Decidable plan.Unambiguous :=
  inferInstanceAs (Decidable (∀ combination ∈ plan.steps, ∀ value ∈ plan.sweepValues,
    ∀ entry ∈ plan.constants.entries ++ combination.entries ++ [(plan.sweepBias, value)],
      ∀ entry' ∈ plan.constants.entries ++ combination.entries ++ [(plan.sweepBias, value)],
        entry.1 = entry'.1 → entry.2 = entry'.2))

/-- Every bias of the plan drives some contact. -/
def NamesKnown (payload : Payload) : Prop :=
  ∀ name ∈ payload.plan.sweepBias :: payload.plan.constants.keys ++
    payload.plan.steps.flatMap Dict.keys, name ∈ (contactBiasNames payload).keys

instance (payload : Payload) : Decidable (NamesKnown payload) :=
  inferInstanceAs (Decidable (∀ name ∈ payload.plan.sweepBias :: payload.plan.constants.keys ++
    payload.plan.steps.flatMap Dict.keys, name ∈ (contactBiasNames payload).keys))

theorem books_of_run_steppedGate :
    BooksInOrder (steppedGate "Vs" "Vg") (run converging plain (steppedGate "Vs" "Vg")).1 :=
  books_of_run converging plain (by decide) (by decide)

/-- With one name for both, the constant does not stand at the only row. -/
theorem books_shared_name : ¬ ∀ (ds : Simulator) (py : Python) (payload : Payload),
    NamesKnown payload → BooksInOrder payload (run ds py payload).1 := by
  intro h
  have books := h converging plain (steppedGate "V" "V") (by decide)
  have moved : ∃ v ∈ (run converging plain (steppedGate "V" "V")).1.visits,
      v.row ≠ none ∧ ¬ Stands v.after.applied "V" 1 := by
    decide +kernel
  obtain ⟨v, hv, hr, away⟩ := moved
  obtain ⟨row, hr⟩ := Option.ne_none_iff_exists'.mp hr
  exact away ((books.stands v hv row hr).2.2 ("V", 1) (by decide))

/-! ## The solution of a row -/

/-- The device holds a converged solution, in all its parts, at exactly the voltages in
`applied`. -/
def Converged (payload : Payload) (s : Solver) : Prop :=
  ∃ call parameter, s.device.regions = .solved call parameter ∧
    (payload.plan.floating ≠ [] → s.device.circuit = .solved call parameter) ∧
    Agrees (contactBiasNames payload) s.applied parameter

theorem converged_of_solved {s : Solver} (apart : ContactsApart payload) (sound : s.Sound)
    (groups : s.groups = contactBiasNames payload) (solved : s.Solved) :
    Converged payload s := by
  obtain ⟨call, regions, circuit⟩ := solved
  refine ⟨call, s.device.parameter, regions, fun _ => circuit, ?_⟩
  rw [← groups]
  exact sound.agrees (groups ▸ apart.apart)

/-- The voltages a row is for. -/
def Row.own (plan : Plan) (row : Row) : Dict String Volt := row.steps.set plan.sweepBias row.sweep

/-- Every row was read off a converged solution at the row's own voltages. -/
structure RowsConverged (payload : Payload) (st : State) : Prop where
  rows : st.rows = st.visits.filterMap Visit.row
  converged : ∀ v ∈ st.visits, ∀ row, v.row = some row → Converged payload v.after
  stands : ∀ v ∈ st.visits, ∀ row, v.row = some row → ∀ entry ∈ (row.own payload.plan).entries,
    Stands v.after.applied entry.1 entry.2

theorem Visited.own_stands {v : Visit} (h : Visited ds payload v) {row : Row}
    (hr : v.row = some row) {entry : String × Volt} (he : entry ∈ (row.own payload.plan).entries) :
    Stands v.after.applied entry.1 entry.2 := by
  obtain ⟨sweep, fixed⟩ := h.row_stands hr
  have hv := Dict.get?_eq_some.mpr he
  rw [Row.own, Dict.get?_set] at hv
  split at hv
  · rename_i e
    rw [e, ← Option.some.inj hv]
    exact sweep
  · rename_i ne
    exact fixed entry (Or.inr ⟨Dict.get?_eq_some.mp hv, ne⟩)

/-- A visit that makes a try and has its row ends on the solution of a converged solve. -/
theorem Visited.converged_of_moved {v : Visit} (h : Visited ds payload v)
    (apart : ContactsApart payload) (hr : v.row ≠ none)
    (moved : ¬ Stands v.before.applied payload.plan.sweepBias v.value) :
    Converged payload v.after := by
  obtain ⟨current, landed, last, hc, arrived, near, ok⟩ := h.arrived
  have hlast : last = some true := by
    cases last with
    | none => exact absurd ⟨current, hc, abs_sub_comm current v.value ▸ near.mp rfl⟩ moved
    | some converged =>
      cases converged with
      | true => rfl
      | false =>
        have far := arrived.stuck.mp rfl
        rw [abs_sub_comm] at far
        exact absurd (ok.mp hr) (not_le.mpr far)
  subst hlast
  have base := h.base.arrived (fun _ fixed => fixed.ne) arrived
  exact converged_of_solved apart base.sound base.groups arrived.tries.solved

/-- A visit that finds its value applied leaves the solver as it is. -/
theorem Visited.after_eq {v : Visit} (h : Visited ds payload v)
    (there : Stands v.before.applied payload.plan.sweepBias v.value) :
    v.after = v.before ∧ v.row ≠ none := by
  obtain ⟨current, landed, last, hc, arrived, near, ok⟩ := h.arrived
  obtain ⟨current', hc', here⟩ := there
  obtain rfl : current' = current := Option.some.inj (hc'.symm.trans hc)
  obtain rfl : last = none := near.mpr (abs_sub_comm current' v.value ▸ here)
  have after := arrived.tries.eq_of_none
  refine ⟨after, ok.mpr ?_⟩
  have := arrived.stands
  rw [after, hc'] at this
  exact Option.some.inj this ▸ here

/-- A visit that is given up leaves what a failed solve left. -/
theorem Visited.astray_of_gaveUp {v : Visit} (h : Visited ds payload v) (hr : v.row = none) :
    v.after.Astray := by
  obtain ⟨current, landed, last, hc, arrived, near, ok⟩ := h.arrived
  have far := ok.not.mp (by simp [hr])
  rw [not_le, abs_sub_comm] at far
  obtain rfl := arrived.stuck.mpr far
  exact arrived.tries.astray

/-- Where every visit that finds its value applied finds it over a converged solution, every
row is read off one. -/
theorem rows_converged_of_clean (ds : Simulator) (py : Python) {payload : Payload}
    (apart : ContactsApart payload) (clean : ∀ v ∈ (run ds py payload).1.visits,
      Stands v.before.applied payload.plan.sweepBias v.value → Converged payload v.before) :
    RowsConverged payload (run ds py payload).1 := by
  refine ⟨rows_eq ds py payload, ?_, ?_⟩
  · intro v hv row hr
    have visited := visited_of_run hv
    by_cases there : Stands v.before.applied payload.plan.sweepBias v.value
    · rw [(visited.after_eq there).1]
      exact clean v hv there
    · exact visited.converged_of_moved apart (by simp [hr]) there
  · intro v hv row hr entry he
    exact (visited_of_run hv).own_stands hr he

/-- The rows of a run are read off converged solutions exactly when no visit finds its value
already applied over a solution that is not converged there. -/
theorem rows_converged_iff (ds : Simulator) (py : Python) {payload : Payload}
    (apart : ContactsApart payload) : RowsConverged payload (run ds py payload).1 ↔
      ∀ v ∈ (run ds py payload).1.visits,
        Stands v.before.applied payload.plan.sweepBias v.value → Converged payload v.before := by
  constructor
  · intro h v hv there
    obtain ⟨after, hr⟩ := (visited_of_run hv).after_eq there
    obtain ⟨row, hr⟩ := Option.ne_none_iff_exists'.mp hr
    exact after ▸ h.converged v hv row hr
  · exact rows_converged_of_clean ds py apart

theorem rows_converged_iff_drainSwept :
    RowsConverged (drainSwept [0, 1 / 4]) (run converging plain (drainSwept [0, 1 / 4])).1 ↔
      ∀ v ∈ (run converging plain (drainSwept [0, 1 / 4])).1.visits,
        Stands v.before.applied "Vd" v.value → Converged (drainSwept [0, 1 / 4]) v.before :=
  rows_converged_iff converging plain (by decide)

/-- The way from 0 V to 0.25 V fails, and the second 0 V is read off what the failure left. -/
theorem rows_converged_stray : ¬ ∀ (ds : Simulator) (py : Python) (payload : Payload),
    RowsConverged payload (run ds py payload).1 := by
  intro h
  have good := h (convergingUpTo 3) plain (drainSwept [0, 1 / 4, 0])
  have bad : ∃ v ∈ (run (convergingUpTo 3) plain (drainSwept [0, 1 / 4, 0])).1.visits,
      v.row ≠ none ∧ v.after.device.regions = .stray 10 := by
    decide +kernel
  obtain ⟨v, hv, hr, stray⟩ := bad
  obtain ⟨row, hr⟩ := Option.ne_none_iff_exists'.mp hr
  obtain ⟨call, parameter, solved, -⟩ := good.converged v hv row hr
  rw [stray] at solved
  cases solved

end TcadWebapp.Devsim
