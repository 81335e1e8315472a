import TcadWebapp.Devsim.Build
import TcadWebapp.Devsim.Proofs.Readings
import TcadWebapp.Devsim.Proofs.Spec
import TcadWebapp.Misc.Decimal

/-!
# From a bias to the contacts it drives

Four dictionaries lie between the voltage of a bias and a contact: electrode to bias name, the
constants and the steps by bias name, and the groups of contacts by bias name. What a contact
is driven at is what the bias with the last word on its bias name prescribes (`drive_eq`).
That is its electrode's own bias exactly if names shared by biases, and names shared by
contacts, do not matter (`Unmixed`): validation checks neither.
-/

namespace TcadWebapp.Devsim

open StrParser

variable {py : Python} {s : Structure Rat} {spec : DeviceSpec} {electrodes : List Electrode}
  {regions : List RegionSpec} {mesh : DeviceMesh} {payload : Payload}

/-! ## What a bias prescribes -/

/-- The value of an electrode's step bias in a choice of one value each. -/
def DeviceSpec.chosen (spec : DeviceSpec) (choice : List Volt) (electrode : String) : Option Volt :=
  ((spec.stepBiases.zip choice).find? fun step => step.1.electrode = electrode).map Prod.snd

/-- The voltage of a bias at a bias point; one that floats has none. -/
def Bias.prescribes (bias : Bias) (spec : DeviceSpec) (choice : List Volt) (value : Volt) :
    Option Volt :=
  match bias.role with
  | .sweep => some value
  | .step => spec.chosen choice bias.electrode
  | .const => some (bias.value.getD 0)
  | .float => none

/-- The values of the sweep. -/
def DeviceSpec.sweepPoints (spec : DeviceSpec) : List Volt :=
  (spec.sweepBias.map Bias.points).getD []

/-- Two biases prescribe the same at every bias point. -/
def DeviceSpec.Agree (spec : DeviceSpec) (bias bias' : Bias) : Prop :=
  ∀ choice ∈ spec.stepChoices, ∀ value ∈ spec.sweepPoints,
    bias.prescribes spec choice value = bias'.prescribes spec choice value

/-- Among the biases of one name: those that float, then the sweep, then the steps and the
constants, of these the last. -/
def DeviceSpec.lastWord (spec : DeviceSpec) (name : String) : Option Bias :=
  (spec.floatingBiases ++ spec.sweepBias.toList ++ spec.stepBiases.reverse ++
    spec.constBiases.reverse).find? (·.name = name)

/-! ## What drives a contact -/

/-- Where the run sends a bias name at a bias point. -/
def Plan.target (plan : Plan) (combination : Dict String Volt) (value : Volt) (name : String) :
    Option Volt :=
  if name = plan.sweepBias then some value
  else (combination.get? name).or (plan.constants.get? name)

/-- The solver sets the contact when it sets the bias name. -/
def Payload.Drives (payload : Payload) (name contact : String) : Prop :=
  ∃ contacts, (Solver.init payload).groups.get? name = some contacts ∧ contact ∈ contacts

/-- The contact hangs on a circuit node. -/
def Payload.Floats (payload : Payload) (contact : String) : Prop :=
  ∃ entry ∈ payload.contacts, entry.name = contact ∧ entry.bias ∈ payload.plan.floating

/-- At a bias point the contact is at this voltage and no other, or it floats. -/
def Payload.DrivenBy (payload : Payload) (combination : Dict String Volt) (value : Volt)
    (contact : String) : Option Volt → Prop
  | some volts => ¬ payload.Floats contact ∧ (∃ name, payload.Drives name contact) ∧
      ∀ name, payload.Drives name contact → payload.plan.target combination value name = some volts
  | none => payload.Floats contact ∧ ∀ name, ¬ payload.Drives name contact

/-- At every bias point the contacts of every electrode are driven as its own bias
prescribes. -/
def Faithful (spec : DeviceSpec) (payload : Payload) : Prop :=
  ∀ choice ∈ spec.stepChoices, ∀ value ∈ spec.sweepPoints, ∀ bias ∈ spec.biases,
    ∀ contact ∈ payload.contacts, contact.electrode = bias.electrode →
      payload.DrivenBy (spec.combine choice) value contact.name (bias.prescribes spec choice value)

theorem drives_iff {name contact : String} : payload.Drives name contact ↔
    ∃ entry ∈ payload.contacts, entry.name = contact ∧ entry.bias = name ∧
      entry.bias ∉ payload.plan.floating := by
  unfold Payload.Drives
  rw [show (Solver.init payload).groups = contactBiasNames payload from rfl,
    Solver.get?_contactBiasNames]
  dsimp only
  constructor
  · intro h
    obtain ⟨contacts, hc, mem⟩ := h
    split at hc
    · cases hc
    · obtain rfl := Option.some.inj hc
      obtain ⟨entry, he, rfl⟩ := List.mem_map.mp mem
      obtain ⟨he, e⟩ := List.mem_filter.mp he
      rw [decide_eq_true_eq] at e
      exact ⟨entry, he, rfl, e⟩
  · intro h
    obtain ⟨entry, he, rfl, e⟩ := h
    have mem : entry ∈ payload.contacts.filter
        (fun contact => contact.bias = name ∧ contact.bias ∉ payload.plan.floating) :=
      List.mem_filter.mpr ⟨he, by simpa using e⟩
    rw [if_neg (List.ne_nil_of_mem mem)]
    exact ⟨_, rfl, List.mem_map_of_mem mem⟩

/-- What drives an entry of the contacts at a bias point. -/
def Payload.drive (payload : Payload) (combination : Dict String Volt) (value : Volt)
    (entry : Contact) : Option Volt :=
  if entry.bias ∈ payload.plan.floating then none
  else payload.plan.target combination value entry.bias

/-- A contact is driven one way if all entries of its name are. -/
theorem drivenBy_iff {combination : Dict String Volt} {value : Volt} {entry : Contact}
    (mem : entry ∈ payload.contacts)
    (known : ∀ entry ∈ payload.contacts, entry.bias ∉ payload.plan.floating →
      payload.plan.target combination value entry.bias ≠ none) (volts : Option Volt) :
    payload.DrivenBy combination value entry.name volts ↔ ∀ other ∈ payload.contacts,
      other.name = entry.name → payload.drive combination value other = volts := by
  unfold Payload.drive
  cases volts with
  | none =>
    constructor
    · intro h other ho same
      obtain ⟨-, free⟩ := h
      split
      · rfl
      · rename_i driven
        exact absurd (drives_iff.mpr ⟨other, ho, same, rfl, driven⟩) (free other.bias)
    · intro h
      have floats : ∀ other ∈ payload.contacts, other.name = entry.name →
          other.bias ∈ payload.plan.floating := by
        intro other ho same
        by_contra driven
        have := h other ho same
        rw [if_neg driven] at this
        exact known other ho driven this
      refine ⟨⟨entry, mem, rfl, floats entry mem rfl⟩, ?_⟩
      intro name h
      obtain ⟨other, ho, same, -, driven⟩ := drives_iff.mp h
      exact driven (floats other ho same)
  | some volts =>
    constructor
    · intro h other ho same
      obtain ⟨fixed, -, one⟩ := h
      have driven : other.bias ∉ payload.plan.floating := fun h => fixed ⟨other, ho, same, h⟩
      rw [if_neg driven]
      exact one _ (drives_iff.mpr ⟨other, ho, same, rfl, driven⟩)
    · intro h
      have driven : ∀ other ∈ payload.contacts, other.name = entry.name →
          other.bias ∉ payload.plan.floating := by
        intro other ho same floats
        have := h other ho same
        rw [if_pos floats] at this
        cases this
      refine ⟨?_, ⟨entry.bias, drives_iff.mpr ⟨entry, mem, rfl, rfl, driven entry mem rfl⟩⟩, ?_⟩
      · intro floats
        obtain ⟨other, ho, same, h⟩ := floats
        exact driven other ho same h
      · intro name hd
        obtain ⟨other, ho, same, rfl, fixed⟩ := drives_iff.mp hd
        have := h other ho same
        rwa [if_neg fixed] at this

/-! ## What the plan says of a bias name -/

/-- What the last word on a bias name prescribes. -/
def DeviceSpec.heard (spec : DeviceSpec) (choice : List Volt) (value : Volt) (name : String) :
    Option Volt :=
  (spec.lastWord name).bind fun bias => bias.prescribes spec choice value

theorem length_of_mem_product {lists : List (List Volt)} {choice : List Volt}
    (h : choice ∈ product lists) : choice.length = lists.length := by
  induction lists generalizing choice with
  | nil => simp_all [product]
  | cons values lists ih =>
    obtain ⟨value, -, h⟩ := List.mem_flatMap.mp h
    obtain ⟨rest, hrest, rfl⟩ := List.mem_map.mp h
    simp [ih hrest]

theorem length_of_mem_stepChoices {choice : List Volt} (h : choice ∈ spec.stepChoices) :
    spec.stepBiases.length = choice.length := by
  rw [length_of_mem_product h, List.length_map]

/-- A step bias has its own value in a choice. -/
theorem chosen_eq (consistent : spec.Consistent) {choice : List Volt}
    (lengths : spec.stepBiases.length = choice.length) {step : Bias × Volt}
    (h : step ∈ spec.stepBiases.zip choice) :
    spec.chosen choice step.1.electrode = some step.2 := by
  have nodup : ((spec.stepBiases.zip choice).map fun step => step.1.electrode).Nodup := by
    have sub : ((spec.stepBiases.zip choice).map Prod.fst).Sublist spec.biases := by
      rw [List.map_fst_zip lengths.le]
      exact List.filter_sublist
    have := consistent.electrodes.sublist (sub.map Bias.electrode)
    rwa [List.map_map] at this
  obtain ⟨step', h'⟩ : ∃ step', (spec.stepBiases.zip choice).find?
      (fun other => other.1.electrode = step.1.electrode) = some step' := by
    rw [← Option.isSome_iff_exists, List.find?_isSome]
    exact ⟨step, h, by simp⟩
  have same : step'.1.electrode = step.1.electrode := by simpa using List.find?_some h'
  rw [DeviceSpec.chosen, h', List.inj_on_of_nodup_map nodup (List.mem_of_find?_eq_some h') h same]
  rfl

theorem get?_combine (consistent : spec.Consistent) {choice : List Volt}
    (h : spec.stepBiases.length = choice.length) (name : String) :
    (spec.combine choice).get? name = (spec.stepBiases.reverse.find? (·.name = name)).bind
      fun bias => spec.chosen choice bias.electrode := by
  have biases : spec.stepBiases = (spec.stepBiases.zip choice).map Prod.fst :=
    (List.map_fst_zip h.le).symm
  have entries : (spec.stepBiases.map Bias.name).zip choice =
      (spec.stepBiases.zip choice).map fun step => (step.1.name, step.2) := by
    rw [List.zip_map_left]
    rfl
  rw [DeviceSpec.combine, Dict.get?_ofList, entries]
  conv_rhs => rw [biases]
  rw [← List.map_reverse, ← List.map_reverse, List.find?_map, List.find?_map]
  cases found : (spec.stepBiases.zip choice).reverse.find? (fun step => step.1.name = name) with
  | none => simp [Function.comp_def, found]
  | some step =>
    have mem := List.mem_reverse.mp (List.mem_of_find?_eq_some found)
    simp [Function.comp_def, found, chosen_eq consistent h mem]

/-- The plan of a specification. -/
structure Plans (spec : DeviceSpec) (plan : Plan) : Prop where
  sweep : ∃ sweep ∈ spec.biases, spec.sweepBias = some sweep ∧ plan.sweepBias = sweep.name ∧
    sweep.role = .sweep
  values : plan.sweepValues = spec.sweepPoints
  steps : plan.steps = spec.stepCombinations
  constants : plan.constants =
    Dict.ofList (spec.constBiases.map fun bias => (bias.name, bias.value.getD 0))
  floating : plan.floating = spec.floatingBiases.map Bias.name

theorem constantOf_eq {bias : Bias} (h : bias ∈ spec.constBiases) :
    constantOf bias = .ok (bias.name, bias.value.getD 0) := by
  have role : bias.role = .const := by simpa using (List.mem_filter.mp h).2
  simp [constantOf, firstPoint, Bias.points, role, index, bind, Except.bind]

theorem plans_of_ok {plan : Plan} (h : planOf spec = .ok plan) : Plans spec plan := by
  unfold planOf at h
  split at h
  · cases h
  · rename_i sweep found
    obtain ⟨constants, hc, h⟩ := bind_eq_ok.mp h
    obtain rfl := Except.ok.inj h
    refine ⟨⟨sweep, List.mem_of_find?_eq_some found, found, rfl, ?_⟩, ?_, rfl, ?_, rfl⟩
    · simpa using List.find?_some found
    · simp [DeviceSpec.sweepPoints, found]
    · rw [mapM_ok_iff fun bias mem => constantOf_eq mem] at hc
      rw [hc]

/-- The plan sends a bias name where its last word says. -/
theorem drive_eq (consistent : spec.Consistent) (plans : Plans spec payload.plan)
    {choice : List Volt} (h : choice ∈ spec.stepChoices) (value : Volt) (entry : Contact) :
    payload.drive (spec.combine choice) value entry = spec.heard choice value entry.bias := by
  obtain ⟨sweep, -, found, hsweep, role⟩ := plans.sweep
  unfold Payload.drive DeviceSpec.heard DeviceSpec.lastWord
  rw [List.find?_append, List.find?_append, List.find?_append, plans.floating]
  cases floating : spec.floatingBiases.find? (·.name = entry.bias) with
  | some bias =>
    have floats : bias.role = .float := by
      simpa using (List.mem_filter.mp (List.mem_of_find?_eq_some floating)).2
    have name : bias.name = entry.bias := by simpa using List.find?_some floating
    rw [if_pos (List.mem_map.mpr ⟨bias, List.mem_of_find?_eq_some floating, name⟩)]
    simp [Bias.prescribes, floats]
  | none =>
    have fixed : entry.bias ∉ spec.floatingBiases.map Bias.name := by
      intro mem
      obtain ⟨bias, hb, e⟩ := List.mem_map.mp mem
      simpa [e] using List.find?_eq_none.mp floating bias hb
    rw [if_neg fixed, Plan.target, hsweep, found]
    by_cases e : entry.bias = sweep.name
    · simp [e, Bias.prescribes, role]
    · rw [if_neg e, get?_combine consistent (length_of_mem_stepChoices h), plans.constants,
        Dict.get?_ofList, ← List.map_reverse, List.find?_map]
      have e' : ¬ sweep.name = entry.bias := fun h => e h.symm
      simp only [Option.toList_some, List.find?_singleton, e', decide_false, Bool.false_eq_true,
        if_false, Option.none_or]
      cases step : spec.stepBiases.reverse.find? (·.name = entry.bias) with
      | some bias =>
        have role : bias.role = .step := by
          have mem := List.mem_reverse.mp (List.mem_of_find?_eq_some step)
          simpa using (List.mem_filter.mp mem).2
        obtain ⟨value', hv⟩ : ∃ value', (bias, value') ∈ spec.stepBiases.zip choice := by
          have mem := List.mem_reverse.mp (List.mem_of_find?_eq_some step)
          rw [← List.map_fst_zip (length_of_mem_stepChoices h).le] at mem
          obtain ⟨⟨_, value'⟩, hv, rfl⟩ := List.mem_map.mp mem
          exact ⟨value', hv⟩
        have chosen := chosen_eq consistent (length_of_mem_stepChoices h) hv
        simp [Bias.prescribes, role, chosen]
      | none =>
        cases const : spec.constBiases.reverse.find? (·.name = entry.bias) with
        | none => simp [Function.comp_def, const]
        | some bias =>
          have role : bias.role = .const := by
            have mem := List.mem_reverse.mp (List.mem_of_find?_eq_some const)
            simpa using (List.mem_filter.mp mem).2
          simp [Function.comp_def, const, Bias.prescribes, role]

/-- The plan has a voltage for every bias that does not float. -/
theorem target_ne_none (consistent : spec.Consistent) {plan : Plan} (plans : Plans spec plan)
    {choice : List Volt} (h : choice ∈ spec.stepChoices) (value : Volt) {bias : Bias}
    (mem : bias ∈ spec.biases) (driven : bias.name ∉ plan.floating) :
    plan.target (spec.combine choice) value bias.name ≠ none := by
  obtain ⟨sweep, hs, -, hsweep, hrole⟩ := plans.sweep
  unfold Plan.target
  split
  · simp
  · rename_i other
    rw [ne_eq, Option.or_eq_none_iff, not_and_or]
    cases role : bias.role with
    | sweep =>
      obtain ⟨_, -, -, -, one⟩ := consistent.sweepBias_eq
      rw [hsweep, one sweep hs hrole, ← one bias mem role] at other
      exact absurd rfl other
    | float =>
      refine absurd ?_ driven
      rw [plans.floating]
      exact List.mem_map_of_mem (List.mem_filter.mpr ⟨mem, by simp [role]⟩)
    | step =>
      left
      have key : bias.name ∈ ((spec.stepBiases.map Bias.name).zip choice).map Prod.fst := by
        rw [List.map_fst_zip (by simp [length_of_mem_stepChoices h])]
        exact List.mem_map_of_mem (List.mem_filter.mpr ⟨mem, by simp [role]⟩)
      obtain ⟨volts, -, found⟩ := Dict.get?_update_of_mem ∅ key
      rw [DeviceSpec.combine, Dict.ofList, found]
      simp
    | const =>
      right
      have key : bias.name ∈
          (spec.constBiases.map fun bias => (bias.name, bias.value.getD 0)).map Prod.fst := by
        rw [List.map_map]
        exact List.mem_map.mpr ⟨bias, List.mem_filter.mpr ⟨mem, by simp [role]⟩, rfl⟩
      obtain ⟨volts, -, found⟩ := Dict.get?_update_of_mem ∅ key
      rw [plans.constants, Dict.ofList, found]
      simp

/-! ## The contacts of an electrode -/

theorem mem_contactsOf {known : Dict Int RegionSpec} {electrode : Electrode}
    {contact : ContactSpec} : contact ∈ contactsOf known electrode ↔
      ∃ id ∈ electrode.reachable known, ∃ region, known.get? id = some region ∧
        ⟨electrode.contactName known id, electrode.name, region.name, electrode.kind⟩ = contact := by
  unfold contactsOf
  simp only [List.mem_filterMap, List.mem_insertionSort, Option.map_eq_some_iff]

theorem mesh_spec {gateModel : GateModel} (h : buildDeviceMesh s electrodes gateModel = .ok mesh) :
    selectRegions s electrodes gateModel = .ok mesh.regions ∧ mesh.regions ≠ [] ∧
      mesh.contacts = contactSpecs electrodes (byRegion mesh.regions) := by
  unfold buildDeviceMesh at h
  obtain ⟨regions, kept, h⟩ := bind_eq_ok.mp h
  split at h
  · cases h
  · rename_i some
    obtain ⟨coordinates, -, h⟩ := bind_eq_ok.mp h
    obtain ⟨buffer, -, h⟩ := bind_eq_ok.mp h
    obtain ⟨segments, -, h⟩ := bind_eq_ok.mp h
    obtain ⟨⟨buffer, interfaces⟩, -, h⟩ := bind_eq_ok.mp h
    obtain ⟨buffer, -, h⟩ := bind_eq_ok.mp h
    obtain rfl := Except.ok.inj h
    exact ⟨kept, some, rfl⟩

/-- The payload of a specification on some electrodes over some regions. -/
structure Built (spec : DeviceSpec) (electrodes : List Electrode) (known : Dict Int RegionSpec)
    (payload : Payload) : Prop where
  plans : Plans spec payload.plan
  contacts : ∀ contact ∈ payload.contacts, ∃ electrode ∈ electrodes,
    ∃ id ∈ electrode.reachable known, contact.name = electrode.contactName known id ∧
      contact.electrode = electrode.name ∧
      ∃ bias ∈ spec.biases, bias.electrode = electrode.name ∧ contact.bias = bias.name
  covered : ∀ electrode ∈ electrodes, ∀ id ∈ electrode.reachable known,
    ∃ contact ∈ payload.contacts, contact.name = electrode.contactName known id ∧
      contact.electrode = electrode.name

theorem contactOf_spec {contact : ContactSpec} {entry : Contact}
    (h : contactOf (biasOfElectrode spec) contact = .ok entry) : entry.name = contact.name ∧
      entry.electrode = contact.electrode ∧ entry.region = contact.region ∧
      ∃ bias ∈ spec.biases, bias.electrode = contact.electrode ∧ entry.bias = bias.name := by
  obtain ⟨name, found, h⟩ := bind_eq_ok.mp h
  obtain rfl := Except.ok.inj h
  refine ⟨rfl, rfl, rfl, ?_⟩
  unfold lookup at found
  split at found
  · rename_i _ hv
    obtain rfl := Except.ok.inj found
    rw [biasOfElectrode, Dict.get?_ofList, Option.map_eq_some_iff] at hv
    obtain ⟨pair, hp, e⟩ := hv
    obtain ⟨bias, hb, rfl⟩ :=
      List.mem_map.mp (List.mem_reverse.mp (List.mem_of_find?_eq_some hp))
    exact ⟨bias, hb, by simpa using List.find?_some hp, e.symm⟩
  · cases found

theorem regions_of_built (resolved : resolveElectrodes py s spec = .ok electrodes)
    (built : buildPayload py s spec [] = .ok payload) :
    ∃ regions, selectRegions s electrodes spec.gateModel = .ok regions := by
  unfold buildPayload at built
  rw [if_pos rfl, resolved] at built
  obtain ⟨_, resolved', built⟩ := bind_eq_ok.mp built
  obtain rfl := Except.ok.inj resolved'
  obtain ⟨mesh, hmesh, -⟩ := bind_eq_ok.mp built
  exact ⟨mesh.regions, (mesh_spec hmesh).1⟩

theorem built_of_ok (resolved : resolveElectrodes py s spec = .ok electrodes)
    (kept : selectRegions s electrodes spec.gateModel = .ok regions)
    (built : buildPayload py s spec [] = .ok payload) :
    Built spec electrodes (byRegion regions) payload := by
  unfold buildPayload at built
  rw [if_pos rfl] at built
  obtain ⟨electrodes', resolved', built⟩ := bind_eq_ok.mp built
  obtain rfl := Except.ok.inj (resolved.symm.trans resolved')
  obtain ⟨mesh, hmesh, built⟩ := bind_eq_ok.mp built
  obtain ⟨plan, hplan, built⟩ := bind_eq_ok.mp built
  obtain ⟨contacts, hcontacts, built⟩ := bind_eq_ok.mp built
  obtain rfl := Except.ok.inj built
  obtain ⟨kept', -, specs⟩ := mesh_spec hmesh
  obtain rfl := Except.ok.inj (kept.symm.trans kept')
  rw [specs] at hcontacts
  refine ⟨plans_of_ok hplan, ?_, ?_⟩
  · intro entry he
    obtain ⟨contact, hc, h⟩ := exists_of_mem_mapM hcontacts he
    obtain ⟨electrode, mem, hc⟩ := List.mem_flatMap.mp hc
    obtain ⟨id, hid, region, -, rfl⟩ := mem_contactsOf.mp hc
    obtain ⟨name, label, -, bias⟩ := contactOf_spec h
    exact ⟨electrode, mem, id, hid, name, label, bias⟩
  · intro electrode mem id hid
    obtain ⟨region, hr⟩ := Dict.mem_keys.mp (of_decide_eq_true (List.mem_filter.mp hid).2)
    have hc : (⟨electrode.contactName (byRegion mesh.regions) id, electrode.name, region.name,
        electrode.kind⟩ : ContactSpec) ∈ contactSpecs electrodes (byRegion mesh.regions) :=
      List.mem_flatMap.mpr ⟨electrode, mem, mem_contactsOf.mpr ⟨id, hid, region, hr, rfl⟩⟩
    obtain ⟨entry, he, h⟩ := exists_mem_of_mapM hcontacts hc
    obtain ⟨name, label, -, -⟩ := contactOf_spec h
    exact ⟨entry, he, name, label⟩

/-! ## When the plan is faithful -/

/-- Sharing a bias name or a contact name makes no difference. -/
structure Unmixed (spec : DeviceSpec) (electrodes : List Electrode)
    (known : Dict Int RegionSpec) : Prop where
  /-- The last word on the name of a bias that has contacts agrees with the bias. -/
  heard : ∀ electrode ∈ electrodes, electrode.reachable known ≠ [] →
    ∀ bias ∈ spec.biases, bias.electrode = electrode.name →
      ∀ other, spec.lastWord bias.name = some other → spec.Agree bias other
  /-- So do the biases of an electrode on several regions and of one whose label is the name
  of its contact on one of them. -/
  apart : ∀ electrode ∈ electrodes, ∀ id ∈ electrode.reachable known,
    (electrode.reachable known).length ≠ 1 → ∀ other ∈ electrodes,
      (other.reachable known).length = 1 → other.name = electrode.name ++ "_r" ++ toString id →
        ∀ bias ∈ spec.biases, bias.electrode = electrode.name →
          ∀ bias' ∈ spec.biases, bias'.electrode = other.name → spec.Agree bias bias'

theorem lastWord_of_mem (consistent : spec.Consistent) {bias : Bias} (mem : bias ∈ spec.biases) :
    ∃ other, spec.lastWord bias.name = some other := by
  rw [← Option.isSome_iff_exists, DeviceSpec.lastWord, List.find?_isSome]
  refine ⟨bias, ?_, by simp⟩
  obtain ⟨sweep, -, -, found, one⟩ := consistent.sweepBias_eq
  simp only [List.mem_append, List.mem_reverse, DeviceSpec.floatingBiases, DeviceSpec.stepBiases,
    DeviceSpec.constBiases, List.mem_filter, mem, true_and, decide_eq_true_eq, found,
    Option.toList_some, List.mem_singleton]
  cases role : bias.role with
  | sweep => simp [one bias mem role]
  | step => simp
  | const => simp
  | float => simp

/-- A plan is faithful if on every contact the bias name heard says what the bias says. -/
theorem faithful_iff_heard {known : Dict Int RegionSpec} (consistent : spec.Consistent)
    (built : Built spec electrodes known payload) : Faithful spec payload ↔
      ∀ choice ∈ spec.stepChoices, ∀ value ∈ spec.sweepPoints, ∀ bias ∈ spec.biases,
        ∀ contact ∈ payload.contacts, contact.electrode = bias.electrode →
          ∀ contact' ∈ payload.contacts, contact'.name = contact.name →
            spec.heard choice value contact'.bias = bias.prescribes spec choice value := by
  refine forall₂_congr fun choice hchoice => forall₂_congr fun value _ =>
    forall₂_congr fun bias _ => forall₃_congr fun contact mem _ => ?_
  rw [drivenBy_iff mem]
  · refine forall₃_congr fun contact' _ _ => ?_
    rw [drive_eq consistent built.plans hchoice]
  · intro entry he driven
    obtain ⟨_, _, _, _, -, -, bias', hb', -, name⟩ := built.contacts entry he
    rw [name] at driven ⊢
    exact target_ne_none consistent built.plans hchoice value hb' driven

/-- What crosses over is faithful to the specification exactly where names that are shared do
not matter. -/
theorem faithful_iff (accepted : spec.Accepted py)
    (resolved : resolveElectrodes py s spec = .ok electrodes)
    (kept : selectRegions s electrodes spec.gateModel = .ok regions)
    (build : buildPayload py s spec [] = .ok payload) :
    Faithful spec payload ↔ Unmixed spec electrodes (byRegion regions) := by
  have consistent := accepted.isConsistent
  have built := built_of_ok resolved kept build
  rw [faithful_iff_heard consistent built]
  -- the bias name on a contact is that of its electrode's bias
  have own : ∀ contact ∈ payload.contacts, ∀ bias ∈ spec.biases,
      contact.electrode = bias.electrode → contact.bias = bias.name := by
    intro contact hc bias hb e
    obtain ⟨electrode, -, _, -, -, label, bias', hb', e', name⟩ := built.contacts contact hc
    rw [name, consistent.bias_inj hb' hb (e'.trans (label.symm.trans e))]
  constructor
  · intro h
    constructor
    · intro electrode mem touches bias hb e other word choice hchoice value hvalue
      obtain ⟨id, hid⟩ := List.exists_mem_of_ne_nil _ touches
      obtain ⟨contact, hc, -, label⟩ := built.covered electrode mem id hid
      have := h choice hchoice value hvalue bias hb contact hc (label.trans e.symm) contact hc rfl
      rw [own contact hc bias hb (label.trans e.symm), DeviceSpec.heard, word] at this
      exact this.symm
    · intro electrode mem id hid several other mem' single e bias hb hbe bias' hb' hbe' choice
        hchoice value hvalue
      obtain ⟨id', hid'⟩ := List.exists_mem_of_length_pos (single ▸ Nat.one_pos)
      obtain ⟨contact, hc, name, label⟩ := built.covered electrode mem id hid
      obtain ⟨contact', hc', name', label'⟩ := built.covered other mem' id' hid'
      have same : contact'.name = contact.name := by
        rw [name, name', Electrode.contactName, Electrode.contactName, if_pos single,
          if_neg several, e]
      rw [← h choice hchoice value hvalue bias hb contact hc (label.trans hbe.symm) contact' hc'
        same]
      exact h choice hchoice value hvalue bias' hb' contact' hc' (label'.trans hbe'.symm) contact'
        hc' rfl
  · intro unmixed choice hchoice value hvalue bias hb contact hc e contact' hc' same
    obtain ⟨electrode, mem, id, hid, name, label, -⟩ := built.contacts contact hc
    obtain ⟨electrode', mem', id', hid', name', label', bias', hb', e', bname⟩ :=
      built.contacts contact' hc'
    have own' : spec.heard choice value contact'.bias = bias'.prescribes spec choice value := by
      obtain ⟨other, word⟩ := lastWord_of_mem consistent hb'
      rw [bname, DeviceSpec.heard, word]
      exact (unmixed.heard electrode' mem' (List.ne_nil_of_mem hid') bias' hb' e' other word choice
        hchoice value hvalue).symm
    have e := e.symm.trans label
    rw [own']
    have same_electrode : electrode'.name = electrode.name →
        bias'.prescribes spec choice value = bias.prescribes spec choice value := by
      intro same
      rw [consistent.bias_inj hb' hb (e'.trans (same.trans e.symm))]
    rw [name, name', Electrode.contactName, Electrode.contactName] at same
    by_cases single : (electrode.reachable (byRegion regions)).length = 1 <;>
      by_cases single' : (electrode'.reachable (byRegion regions)).length = 1
    · rw [if_pos single, if_pos single'] at same
      exact same_electrode same
    · rw [if_pos single, if_neg single'] at same
      exact unmixed.apart electrode' mem' id' hid' single' electrode mem single same.symm bias' hb'
        e' bias hb e choice hchoice value hvalue
    · rw [if_neg single, if_pos single'] at same
      exact (unmixed.apart electrode mem id hid single electrode' mem' single' same bias hb e bias'
        hb' e' choice hchoice value hvalue).symm
    · rw [if_neg single, if_neg single'] at same
      exact same_electrode (suffixed_inj.mp same).1

theorem faithful_iff_steppedBody : ∃ electrodes regions payload,
    buildPayload plain chip (steppedBody "Vs" "Vb") [] = .ok payload ∧
      (Faithful (steppedBody "Vs" "Vb") payload ↔
        Unmixed (steppedBody "Vs" "Vb") electrodes (byRegion regions)) := by
  obtain ⟨electrodes, resolved⟩ : ∃ electrodes,
      resolveElectrodes plain chip (steppedBody "Vs" "Vb") = .ok electrodes :=
    exists_ok (by decide +kernel)
  obtain ⟨payload, build⟩ : ∃ payload,
      buildPayload plain chip (steppedBody "Vs" "Vb") [] = .ok payload :=
    exists_ok (by decide +kernel)
  obtain ⟨regions, kept⟩ := regions_of_built resolved build
  exact ⟨electrodes, regions, payload, build,
    faithful_iff (by decide) resolved kept build⟩

/-- With one bias name for the source and the body, the source is driven as the body is. -/
theorem faithful_shared_name : ¬ ∀ (py : Python) (s : Structure Rat) (spec : DeviceSpec)
    (electrodes : List Electrode) (payload : Payload), spec.Accepted py →
      resolveElectrodes py s spec = .ok electrodes → buildPayload py s spec [] = .ok payload →
        Faithful spec payload := by
  intro h
  obtain ⟨electrodes, resolved⟩ : ∃ electrodes,
      resolveElectrodes plain chip (steppedBody "V" "V") = .ok electrodes :=
    exists_ok (by decide +kernel)
  obtain ⟨payload, build⟩ : ∃ payload,
      buildPayload plain chip (steppedBody "V" "V") [] = .ok payload :=
    exists_ok (by decide +kernel)
  obtain ⟨regions, kept⟩ := regions_of_built resolved build
  have accepted : (steppedBody "V" "V").Accepted plain := by decide
  have faithful := h plain chip _ electrodes payload accepted resolved build
  rw [faithful_iff_heard accepted.isConsistent (built_of_ok resolved kept build)] at faithful
  have contact : ⟨"source", "source", "r1_silicon", "V"⟩ ∈ payload.contacts := by
    have contacts : (buildPayload plain chip (steppedBody "V" "V") []).map Payload.contacts =
        .ok [⟨"source", "source", "r1_silicon", "V"⟩, ⟨"drain", "drain", "r1_silicon", "Vd"⟩,
          ⟨"body", "body", "r1_silicon", "V"⟩] := by
      decide +kernel
    rw [build] at contacts
    rw [Except.ok.inj contacts]
    exact List.mem_cons_self
  have := faithful [2] (by decide) 0 (by decide)
    ⟨"V", "source", .const, some 1, none, none⟩ (by decide) _ contact rfl _ contact rfl
  exact absurd this (by decide)

/-! ### Names of their own -/

/-- Biases of different names on contacts of different names are not mixed up. -/
theorem unmixed_of_distinct {known : Dict Int RegionSpec} (consistent : spec.Consistent)
    (biases : (spec.biases.map Bias.name).Nodup)
    (labels : ∀ electrode ∈ electrodes, ∀ other ∈ electrodes, ∀ id : Int,
      other.name ≠ electrode.name ++ "_r" ++ toString id) : Unmixed spec electrodes known := by
  constructor
  · intro electrode _ _ bias mem _ other word choice _ value _
    have name : other.name = bias.name := by simpa using List.find?_some word
    have mem' : other ∈ spec.biases := by
      have := List.mem_of_find?_eq_some word
      obtain ⟨sweep, hs, -, found, -⟩ := consistent.sweepBias_eq
      simp only [List.mem_append, List.mem_reverse, DeviceSpec.floatingBiases,
        DeviceSpec.stepBiases, DeviceSpec.constBiases, List.mem_filter, found, Option.toList_some,
        List.mem_singleton] at this
      rcases this with ((⟨h, -⟩ | rfl) | ⟨h, -⟩) | ⟨h, -⟩ <;> assumption
    rw [List.inj_on_of_nodup_map biases mem' mem name]
  · intro electrode mem id _ _ other mem' _ e
    exact absurd e (labels electrode mem other mem' id)

/-! ### In a run -/

theorem mem_keys_combine {choice : List Volt} (h : choice ∈ spec.stepChoices) {name : String} :
    name ∈ (spec.combine choice).keys ↔ name ∈ spec.stepBiases.map Bias.name := by
  rw [DeviceSpec.combine, Dict.mem_keys, Dict.get?_ofList]
  have keys : ((spec.stepBiases.map Bias.name).zip choice).map Prod.fst =
      spec.stepBiases.map Bias.name :=
    List.map_fst_zip (by simp [length_of_mem_stepChoices h])
  conv_rhs => rw [← keys]
  constructor
  · intro found
    obtain ⟨volts, found⟩ := found
    obtain ⟨entry, he, -⟩ := Option.map_eq_some_iff.mp found
    have mem := List.mem_reverse.mp (List.mem_of_find?_eq_some he)
    have e : entry.1 = name := by simpa using List.find?_some he
    exact e ▸ List.mem_map_of_mem mem
  · intro mem
    obtain ⟨entry, he, rfl⟩ := List.mem_map.mp mem
    rw [← Option.isSome_iff_exists, Option.isSome_map, List.find?_isSome]
    exact ⟨entry, List.mem_reverse.mpr he, by simp⟩

theorem mem_stepCombinations {combination : Dict String Volt} :
    combination ∈ spec.stepCombinations ↔
      ∃ choice ∈ spec.stepChoices, spec.combine choice = combination := by
  unfold DeviceSpec.stepCombinations
  split
  · rename_i none
    simp only [DeviceSpec.stepChoices, none, List.map_nil, product, List.mem_singleton,
      exists_eq_left, DeviceSpec.combine, List.zip_nil_left]
    exact eq_comm
  · exact List.mem_map

/-- When a row is read, every bias name stands where the plan sends it. -/
theorem Visited.stands_target {ds : Simulator} {v : Visit} (visited : Visited ds payload v)
    (plans : Plans spec payload.plan) {row : Row} (hr : v.row = some row) {name : String}
    {volts : Volt} (h : payload.plan.target row.steps row.sweep name = some volts) :
    Stands v.after.applied name volts := by
  obtain ⟨sweep, fixed⟩ := visited.row_stands hr
  unfold Plan.target at h
  split at h
  · rename_i e
    rw [e, ← Option.some.inj h]
    exact sweep
  · rename_i other
    rcases Option.or_eq_some_iff.mp h with step | ⟨none, const⟩
    · exact fixed (name, volts) (Or.inr ⟨Dict.get?_eq_some.mp step, other⟩)
    · refine fixed (name, volts) (Or.inl ⟨Dict.get?_eq_some.mp const, other, ?_⟩)
      -- all combinations have the same keys, and this is none of them
      intro combination mem step hs e
      have key : step.1 ∈ combination.keys := List.mem_map_of_mem hs
      have here := visited.mem
      rw [← (visited.row row hr).2] at here
      rw [plans.steps] at mem here
      obtain ⟨choice, hc, rfl⟩ := mem_stepCombinations.mp mem
      obtain ⟨choice', hc', e'⟩ := mem_stepCombinations.mp here
      rw [mem_keys_combine hc, ← mem_keys_combine hc', e', Dict.mem_keys] at key
      obtain ⟨volts', found⟩ := key
      rw [e, none] at found
      cases found

/-- In every run over a faithful plan, at every row each contact's bias stands at the voltage
that the bias of its electrode prescribes there. -/
theorem rows_follow_spec (ds : Simulator) (py' : Python)
    (resolved : resolveElectrodes py s spec = .ok electrodes)
    (build : buildPayload py s spec [] = .ok payload) (faithful : Faithful spec payload) :
    ∀ v ∈ (run ds py' payload).1.visits, ∀ row, v.row = some row →
      ∃ choice ∈ spec.stepChoices, row.steps = spec.combine choice ∧
        ∀ bias ∈ spec.biases, ∀ contact ∈ payload.contacts, contact.electrode = bias.electrode →
          ∀ volts, bias.prescribes spec choice row.sweep = some volts →
            Stands v.after.applied contact.bias volts := by
  intro v hv row hr
  obtain ⟨regions, kept⟩ := regions_of_built resolved build
  have built := built_of_ok resolved kept build
  have visited := visited_of_run hv
  obtain ⟨hsweep, hsteps⟩ := visited.row row hr
  have mem := visited.mem
  have value := visited.value
  rw [built.plans.steps] at mem
  rw [built.plans.values] at value
  obtain ⟨choice, hc, e⟩ := mem_stepCombinations.mp mem
  refine ⟨choice, hc, hsteps.trans e.symm, ?_⟩
  intro bias hb contact mem label volts prescribed
  have driven := faithful choice hc v.value value bias hb contact mem label
  rw [hsweep] at prescribed
  rw [prescribed] at driven
  obtain ⟨fixed, -, one⟩ := driven
  refine visited.stands_target built.plans hr ?_
  rw [hsteps, hsweep, ← e]
  refine one contact.bias (drives_iff.mpr ⟨contact, mem, rfl, rfl, ?_⟩)
  exact fun floats => fixed ⟨contact, mem, rfl, floats⟩

end TcadWebapp.Devsim
