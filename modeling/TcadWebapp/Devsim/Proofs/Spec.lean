import TcadWebapp.Devsim.Spec

/-!
# What validation promises

The inversion of `DeviceSpec._consistent`, and what the rest of the development needs of it:
one sweep, and one bias for each electrode.
-/

namespace TcadWebapp.Devsim

variable {py : Python} {spec : DeviceSpec}

/-- An attachment that goes through leaves one bias for each of the electrodes. -/
theorem attachAll_spec {known : List String} {biases : List Bias} {attached attached' : Dict String String}
    (h : attachAll py known biases attached = .ok attached') :
    (biases.map Bias.electrode).Nodup ∧ (∀ bias ∈ biases, bias.electrode ∉ attached.keys) ∧
      (∀ bias ∈ biases, bias.electrode ∈ known) ∧
      ∀ label, label ∈ attached'.keys ↔ label ∈ attached.keys ∨ label ∈ biases.map Bias.electrode := by
  induction biases generalizing attached with
  | nil =>
    cases h
    simp
  | cons bias biases ih =>
    unfold attachAll at h
    split at h
    · cases h
    · rename_i mem
      split at h
      · cases h
      · rename_i free
        obtain ⟨nodup, fresh, known', keys⟩ := ih h
        have free' := Dict.get?_eq_none.mp free
        refine ⟨?_, ?_, ?_, ?_⟩
        · rw [List.map_cons, List.nodup_cons]
          refine ⟨?_, nodup⟩
          intro again
          obtain ⟨other, ho, e⟩ := List.mem_map.mp again
          exact fresh other ho (Dict.mem_keys_set.mpr (Or.inl e))
        · intro other ho
          rcases List.mem_cons.mp ho with rfl | ho
          · exact free'
          · exact fun hk => fresh other ho (Dict.mem_keys_set.mpr (Or.inr hk))
        · intro other ho
          rcases List.mem_cons.mp ho with rfl | ho
          · exact of_not_not mem
          · exact known' other ho
        · intro label
          rw [keys, Dict.mem_keys_set, List.map_cons, List.mem_cons]
          tauto

theorem keys_of_attachAll {known : List String} {biases : List Bias} {attached : Dict String String}
    (h : attachAll py known biases ∅ = .ok attached) (label : String) :
    label ∈ attached.keys ↔ label ∈ biases.map Bias.electrode := by
  rw [(attachAll_spec h).2.2.2, or_iff_right (Dict.notMem_keys_empty label)]

/-- It goes through when there is one at most for each. -/
theorem attachAll_ok {known : List String} {biases : List Bias} {attached : Dict String String}
    (nodup : (biases.map Bias.electrode).Nodup)
    (fresh : ∀ bias ∈ biases, bias.electrode ∉ attached.keys)
    (mem : ∀ bias ∈ biases, bias.electrode ∈ known) :
    ∃ attached', attachAll py known biases attached = .ok attached' := by
  induction biases generalizing attached with
  | nil => exact ⟨attached, rfl⟩
  | cons bias biases ih =>
    rw [List.map_cons, List.nodup_cons] at nodup
    unfold attachAll
    rw [if_neg (not_not.mpr (mem bias List.mem_cons_self)),
      Dict.get?_eq_none.mpr (fresh bias List.mem_cons_self)]
    apply ih nodup.2
    · intro other ho again
      rcases Dict.mem_keys_set.mp again with e | again
      · exact nodup.1 (e ▸ List.mem_map_of_mem ho)
      · exact fresh other (List.mem_cons_of_mem _ ho) again
    · exact fun other ho => mem other (List.mem_cons_of_mem _ ho)

/-- What is known of the interfaces of an electrode that have gone through. -/
theorem ownInterfaces_spec {label : String} {keys : List String} {owner owner' : Dict String String}
    (h : ownInterfaces py label keys owner = .ok owner') :
    keys.Nodup ∧ (∀ key ∈ keys, key ∉ owner.keys) ∧
      ∀ key, key ∈ owner'.keys ↔ key ∈ owner.keys ∨ key ∈ keys := by
  induction keys generalizing owner with
  | nil =>
    cases h
    simp
  | cons key keys ih =>
    unfold ownInterfaces at h
    split at h
    · cases h
    · rename_i free
      obtain ⟨nodup, fresh, same⟩ := ih h
      refine ⟨?_, ?_, ?_⟩
      · rw [List.nodup_cons]
        exact ⟨fun again => fresh key again (Dict.mem_keys_set.mpr (Or.inl rfl)), nodup⟩
      · intro other ho
        rcases List.mem_cons.mp ho with rfl | ho
        · exact Dict.get?_eq_none.mp free
        · exact fun again => fresh other ho (Dict.mem_keys_set.mpr (Or.inr again))
      · intro other
        rw [same, Dict.mem_keys_set, List.mem_cons]
        tauto

theorem ownInterfaces_ok {label : String} {keys : List String} {owner : Dict String String}
    (nodup : keys.Nodup) (fresh : ∀ key ∈ keys, key ∉ owner.keys) :
    ∃ owner', ownInterfaces py label keys owner = .ok owner' := by
  induction keys generalizing owner with
  | nil => exact ⟨owner, rfl⟩
  | cons key keys ih =>
    rw [List.nodup_cons] at nodup
    unfold ownInterfaces
    rw [Dict.get?_eq_none.mpr (fresh key List.mem_cons_self)]
    apply ih nodup.2
    intro other ho again
    rcases Dict.mem_keys_set.mp again with rfl | again
    · exact nodup.1 ho
    · exact fresh other (List.mem_cons_of_mem _ ho) again

/-- The interfaces of all electrodes, in order. -/
def allInterfaces (electrodes : List ElectrodeChoice) : List String :=
  electrodes.flatMap ElectrodeChoice.interfaces

theorem ownAll_ok_iff {electrodes : List ElectrodeChoice} {owner : Dict String String} :
    (∃ owner', ownAll py electrodes owner = .ok owner') ↔
      (allInterfaces electrodes).Nodup ∧ ∀ key ∈ allInterfaces electrodes, key ∉ owner.keys := by
  induction electrodes generalizing owner with
  | nil => simp [ownAll, allInterfaces]
  | cons electrode electrodes ih =>
    have split : allInterfaces (electrode :: electrodes) =
        electrode.interfaces ++ allInterfaces electrodes := List.flatMap_cons
    rw [split, List.nodup_append]
    constructor
    · intro ok
      obtain ⟨owner', h⟩ := ok
      obtain ⟨one, hone, h⟩ := bind_eq_ok.mp h
      obtain ⟨nodup, fresh, same⟩ := ownInterfaces_spec hone
      obtain ⟨nodup', fresh'⟩ := ih.mp ⟨owner', h⟩
      refine ⟨⟨nodup, nodup', ?_⟩, ?_⟩
      · intro key hk key' hk' e
        exact fresh' key' hk' ((same key').mpr (Or.inr (e ▸ hk)))
      · intro key hk
        rcases List.mem_append.mp hk with hk | hk
        · exact fresh key hk
        · exact fun again => fresh' key hk ((same key).mpr (Or.inl again))
    · intro h
      obtain ⟨⟨nodup, nodup', apart⟩, fresh⟩ := h
      obtain ⟨one, hone⟩ : ∃ one, ownInterfaces py electrode.label electrode.interfaces owner = .ok one :=
        ownInterfaces_ok nodup fun key hk => fresh key (List.mem_append_left _ hk)
      have rest : ∃ owner', ownAll py electrodes one = .ok owner' := by
        apply ih.mpr
        refine ⟨nodup', ?_⟩
        intro key hk again
        rcases ((ownInterfaces_spec hone).2.2 key).mp again with again | again
        · exact fresh key (List.mem_append_right _ hk) again
        · exact apart key again key hk rfl
      obtain ⟨owner', h⟩ := rest
      exact ⟨owner', bind_eq_ok.mpr ⟨one, hone, h⟩⟩

/-- What `_matches_its_role` checks. -/
structure Bias.Fits (bias : Bias) : Prop where
  const : bias.role = .const → bias.value ≠ none
  step : bias.role = .step → bias.values.getD [] ≠ [] ∧ (bias.values.getD []).length ≤ maxStepValues
  sweep : bias.role = .sweep → (bias.sweep = none ↔ bias.values.getD [] ≠ [])
  float : bias.role = .float → bias.value = none ∧ bias.values.getD [] = [] ∧ bias.sweep = none
  values : ∀ v ∈ bias.values.getD [], |v| ≤ maxAbsVolts

theorem check_bind_eq_ok {α : Type} {wrong : Bool} {text : String} {next : Unit → Except String α} {a : α} :
    (check wrong text >>= next) = .ok a ↔ wrong = false ∧ next () = .ok a := by
  rw [bind_eq_ok]
  constructor
  · intro h
    obtain ⟨⟨⟩, right, h⟩ := h
    exact ⟨check_eq_ok.mp right, h⟩
  · exact fun h => ⟨(), check_eq_ok.mpr h.1, h.2⟩

theorem Bias.matchesItsRole_eq_ok {bias : Bias} : bias.matchesItsRole = .ok () ↔ bias.Fits := by
  unfold Bias.matchesItsRole
  simp only [check_bind_eq_ok, check_eq_ok, decide_eq_false_iff_not, List.any_eq_false, decide_eq_true_eq,
    not_and, not_or, not_not, not_lt, gt_iff_lt, ne_eq]
  constructor
  · intro h
    obtain ⟨const, step, sweep, sweep', steps, float, values⟩ := h
    refine ⟨const, fun role => ⟨step role, steps role⟩, ?_, float, values⟩
    intro role
    refine ⟨fun unswept => sweep role unswept, ?_⟩
    intro given
    by_contra swept
    exact given (sweep' role swept)
  · intro h
    refine ⟨h.const, fun role => (h.step role).1, fun role unswept => (h.sweep role).mp unswept, ?_,
      fun role => (h.step role).2, h.float, h.values⟩
    intro role swept
    by_contra given
    exact swept ((h.sweep role).mpr given)

/-- What `_consistent` has checked when it raises nothing. -/
structure DeviceSpec.Consistent (spec : DeviceSpec) : Prop where
  labels : (spec.electrodes.map ElectrodeChoice.label).Nodup
  sweeps : ∃ sweep, spec.biases.filter (·.role = .sweep) = [sweep]
  electrodes : (spec.biases.map Bias.electrode).Nodup
  known : ∀ bias ∈ spec.biases, bias.electrode ∈ spec.electrodes.map ElectrodeChoice.label
  attached : ∀ choice ∈ spec.electrodes, ∃ bias ∈ spec.biases, bias.electrode = choice.label

/-- The points of the sweep, as the validator counts them. -/
def DeviceSpec.sweptPoints (spec : DeviceSpec) : List Volt :=
  ((spec.biases.filter (·.role = .sweep)).head?.map Bias.points).getD []

theorem loose_eq_nil_iff {labels : List String} {biases : List Bias} {attached : Dict String String}
    (keys : ∀ label, label ∈ attached.keys ↔ label ∈ biases.map Bias.electrode) :
    (labels.filter fun label => label ∉ attached.keys) = [] ↔
      ∀ label ∈ labels, ∃ bias ∈ biases, bias.electrode = label := by
  rw [List.filter_eq_nil_iff]
  apply forall₂_congr
  intro label _
  rw [decide_eq_true_eq, not_not, keys, List.mem_map]

/-- `_consistent` raises nothing just if all it checks is so. -/
theorem consistent_eq_ok : spec.consistent py = .ok () ↔ spec.Consistent ∧
    (allInterfaces spec.electrodes).Nodup ∧ spec.sweptPoints.length ≤ maxSweepPoints ∧
      spec.totalPoints ≤ maxTotalPoints := by
  unfold DeviceSpec.consistent
  constructor
  · intro h
    obtain ⟨labels, h⟩ := check_bind_eq_ok.mp h
    obtain ⟨owner, howner, h⟩ := bind_eq_ok.mp h
    obtain ⟨sweeps, h⟩ := check_bind_eq_ok.mp h
    obtain ⟨attached, hattached, h⟩ := bind_eq_ok.mp h
    obtain ⟨loose, h⟩ := check_bind_eq_ok.mp h
    obtain ⟨points, total⟩ := check_bind_eq_ok.mp h
    rw [decide_eq_false_iff_not, not_not] at labels sweeps loose
    rw [decide_eq_false_iff_not, not_lt] at points
    rw [check_eq_ok, decide_eq_false_iff_not, not_lt] at total
    obtain ⟨nodup, -, known, keys⟩ := attachAll_spec hattached
    have attach := (loose_eq_nil_iff (keys_of_attachAll hattached)).mp loose
    refine ⟨⟨labels, List.length_eq_one_iff.mp sweeps, nodup, known, ?_⟩, ?_, points, total⟩
    · exact fun choice mem => attach choice.label (List.mem_map_of_mem mem)
    · exact (ownAll_ok_iff.mp ⟨owner, howner⟩).1
  · intro h
    obtain ⟨consistent, once, points, total⟩ := h
    obtain ⟨owner, howner⟩ := ownAll_ok_iff.mpr ⟨once, fun _ _ => Dict.notMem_keys_empty _⟩
    obtain ⟨attached, hattached⟩ := attachAll_ok consistent.electrodes
      (fun _ _ => Dict.notMem_keys_empty _) consistent.known
    refine check_bind_eq_ok.mpr ⟨?_, bind_eq_ok.mpr ⟨owner, howner, check_bind_eq_ok.mpr ⟨?_,
      bind_eq_ok.mpr ⟨attached, hattached, check_bind_eq_ok.mpr ⟨?_, check_bind_eq_ok.mpr ⟨?_, ?_⟩⟩⟩⟩⟩⟩
    · rw [decide_eq_false_iff_not, not_not]
      exact consistent.labels
    · rw [decide_eq_false_iff_not, not_not]
      exact List.length_eq_one_iff.mpr consistent.sweeps
    · rw [decide_eq_false_iff_not, not_not]
      apply (loose_eq_nil_iff (keys_of_attachAll hattached)).mpr
      intro label mem
      obtain ⟨choice, hc, rfl⟩ := List.mem_map.mp mem
      exact consistent.attached choice hc
    · rw [decide_eq_false_iff_not, not_lt]
      exact points
    · rw [check_eq_ok, decide_eq_false_iff_not, not_lt]
      exact total

theorem consistent_of_ok (h : spec.consistent py = .ok ()) : spec.Consistent :=
  (consistent_eq_ok.mp h).1

theorem DeviceSpec.Accepted.isConsistent (h : spec.Accepted py) : spec.Consistent :=
  consistent_of_ok h.consistent

namespace DeviceSpec.Consistent

/-- The one sweep. -/
theorem sweepBias_eq (h : spec.Consistent) : ∃ sweep ∈ spec.biases, sweep.role = .sweep ∧
    spec.sweepBias = some sweep ∧ ∀ bias ∈ spec.biases, bias.role = .sweep → bias = sweep := by
  obtain ⟨sweep, e⟩ := h.sweeps
  have mem : sweep ∈ spec.biases.filter (·.role = .sweep) := by simp [e]
  rw [List.mem_filter, decide_eq_true_eq] at mem
  refine ⟨sweep, mem.1, mem.2, ?_, ?_⟩
  · rw [DeviceSpec.sweepBias, ← List.head?_filter, e]
    rfl
  · intro bias hb role
    have : bias ∈ spec.biases.filter (·.role = .sweep) := by simp [hb, role]
    simpa [e] using this

theorem bias_inj (h : spec.Consistent) {bias bias' : Bias} (hb : bias ∈ spec.biases)
    (hb' : bias' ∈ spec.biases) (e : bias.electrode = bias'.electrode) : bias = bias' :=
  List.inj_on_of_nodup_map h.electrodes hb hb' e

end DeviceSpec.Consistent

end TcadWebapp.Devsim
