import TcadWebapp.Devsim.ClientSpec
import TcadWebapp.Devsim.Proofs.Spec

/-!
# Two validators of one specification

What an empty `problemsOf` says, and what of it the server checks too.
-/

namespace TcadWebapp.Devsim

variable {py : Python}

/-! ## The loops over the maps -/

/-- No name in the map is empty, so that none passes for no entry. -/
def Named (map : Dict String String) : Prop := ∀ key name, map.get? key = some name → name ≠ ""

theorem Named.owner_ne_iff {map : Dict String String} (named : Named map) {key : String} :
    (map.get? key).getD "" ≠ "" ↔ key ∈ map.keys := by
  rw [Dict.mem_keys]
  cases found : map.get? key with
  | none => simp
  | some name => simpa using named key name found

theorem Named.set {map : Dict String String} (named : Named map) (key : String) {name : String} (h : name ≠ "") :
    Named (map.set key name) := by
  intro other name' found
  rw [Dict.get?_set] at found
  split at found
  · exact Option.some.inj found ▸ h
  · exact named other name' found

theorem named_empty : Named ∅ := by
  intro key name found
  cases found

theorem claimInterfaces_spec {label : String} (hl : label ≠ "") (keys : List String)
    {claimed : Dict String String} (named : Named claimed) :
    ((claimInterfaces label keys claimed).1 = [] ↔ keys.Nodup ∧ ∀ key ∈ keys, key ∉ claimed.keys) ∧
      Named (claimInterfaces label keys claimed).2 ∧
      ∀ key, key ∈ (claimInterfaces label keys claimed).2.keys ↔ key ∈ claimed.keys ∨ key ∈ keys := by
  induction keys generalizing claimed with
  | nil => simp [claimInterfaces, named]
  | cons key keys ih =>
    obtain ⟨clear, named', same⟩ := ih (named.set key hl)
    refine ⟨?_, named', ?_⟩
    · rw [claimInterfaces, List.append_eq_nil_iff, pushIf_eq_nil, decide_eq_false_iff_not,
        named.owner_ne_iff, clear, List.nodup_cons, List.forall_mem_cons]
      constructor
      · intro h
        obtain ⟨free, nodup, fresh⟩ := h
        refine ⟨⟨?_, nodup⟩, free, ?_⟩
        · exact fun again => fresh key again (Dict.mem_keys_set.mpr (Or.inl rfl))
        · exact fun other ho again => fresh other ho (Dict.mem_keys_set.mpr (Or.inr again))
      · intro h
        obtain ⟨⟨once, nodup⟩, free, fresh⟩ := h
        refine ⟨free, nodup, ?_⟩
        intro other ho again
        rcases Dict.mem_keys_set.mp again with rfl | again
        · exact once ho
        · exact fresh other ho again
    · intro other
      rw [claimInterfaces, same, Dict.mem_keys_set, List.mem_cons]
      tauto

/-- No complaint about the interfaces just if none is there twice. -/
theorem claimAll_eq_nil_iff {electrodes : List ElectrodeChoice} (hl : ∀ choice ∈ electrodes, choice.label ≠ "")
    {claimed : Dict String String} (named : Named claimed) :
    (claimAll electrodes claimed).1 = [] ↔
      (allInterfaces electrodes).Nodup ∧ ∀ key ∈ allInterfaces electrodes, key ∉ claimed.keys := by
  induction electrodes generalizing claimed with
  | nil => simp [claimAll, allInterfaces]
  | cons choice electrodes ih =>
    have all : allInterfaces (choice :: electrodes) = choice.interfaces ++ allInterfaces electrodes :=
      List.flatMap_cons
    obtain ⟨clear, named', same⟩ := claimInterfaces_spec (hl choice List.mem_cons_self)
      choice.interfaces named
    rw [claimAll, List.append_eq_nil_iff, clear, all,
      ih (fun other ho => hl other (List.mem_cons_of_mem _ ho)) named', List.nodup_append]
    simp only [same, List.mem_append, not_or]
    constructor
    · intro h
      obtain ⟨⟨nodup, fresh⟩, nodup', apart⟩ := h
      refine ⟨⟨nodup, nodup', fun key hk key' hk' e => (apart key' hk').2 (e ▸ hk)⟩, ?_⟩
      intro key hk
      rcases hk with hk | hk
      · exact fresh key hk
      · exact (apart key hk).1
    · intro h
      obtain ⟨⟨nodup, nodup', apart⟩, fresh⟩ := h
      refine ⟨⟨nodup, fun key hk => fresh key (Or.inl hk)⟩, nodup', ?_⟩
      exact fun key hk => ⟨fresh key (Or.inr hk), fun hk' => apart key hk' key hk rfl⟩

theorem mem_keys_driveAll {biases : List ClientBias} {driven : Dict String String} {label : String} :
    label ∈ (driveAll biases driven).2.keys ↔
      label ∈ driven.keys ∨ label ∈ biases.map ClientBias.electrode := by
  induction biases generalizing driven with
  | nil => simp [driveAll]
  | cons bias biases ih =>
    rw [driveAll, ih, Dict.mem_keys_set, List.map_cons, List.mem_cons]
    tauto

theorem problems_of_driveAll {biases : List ClientBias} {driven : Dict String String}
    (h : (driveAll biases driven).1 = []) : ∀ bias ∈ biases, bias.problems = [] := by
  induction biases generalizing driven with
  | nil => simp
  | cons bias biases ih =>
    rw [driveAll, List.append_eq_nil_iff, List.append_eq_nil_iff] at h
    exact List.forall_mem_cons.mpr ⟨h.1.2, ih h.2⟩

/-- No complaint about the biases just if each is in order and no electrode has two. -/
theorem driveAll_eq_nil_iff {biases : List ClientBias} (hn : ∀ bias ∈ biases, bias.name ≠ "")
    {driven : Dict String String} (named : Named driven) :
    (driveAll biases driven).1 = [] ↔ (biases.map ClientBias.electrode).Nodup ∧
      (∀ bias ∈ biases, bias.electrode ∉ driven.keys) ∧ ∀ bias ∈ biases, bias.problems = [] := by
  induction biases generalizing driven with
  | nil => simp [driveAll]
  | cons bias biases ih =>
    have rest := ih (fun other ho => hn other (List.mem_cons_of_mem _ ho))
      (named.set bias.electrode (hn bias List.mem_cons_self))
    rw [driveAll, List.append_eq_nil_iff, List.append_eq_nil_iff, pushIf_eq_nil, decide_eq_false_iff_not,
      named.owner_ne_iff, rest, List.map_cons, List.nodup_cons, List.forall_mem_cons, List.forall_mem_cons]
    simp only [Dict.mem_keys_set, not_or, List.mem_map, not_exists, not_and]
    constructor
    · intro h
      obtain ⟨⟨free, fits⟩, nodup, fresh, others⟩ := h
      exact ⟨⟨fun other ho => (fresh other ho).1, nodup⟩, ⟨free, fun other ho => (fresh other ho).2⟩, fits, others⟩
    · intro h
      obtain ⟨⟨once, nodup⟩, ⟨free, fresh⟩, fits, others⟩ := h
      exact ⟨⟨free, fits⟩, nodup, fun other ho => ⟨once other ho, fresh other ho⟩, others⟩

/-! ## An empty list of problems -/

/-- What `problemsOf` asks of the voltages of a bias. -/
structure ClientBias.Fits (bias : ClientBias) : Prop where
  step : bias.role = .step → bias.given ≠ []
  sweep : bias.role = .sweep → (bias.sweep.toOption = none ↔ bias.given ≠ [])
  float : bias.role = .float → bias.value = .undefined ∧ bias.given = [] ∧ bias.sweep.toOption = none

theorem ClientBias.problems_eq_nil_iff {bias : ClientBias} : bias.problems = [] ↔ bias.Fits := by
  unfold ClientBias.problems
  simp only [List.append_eq_nil_iff, pushIf_eq_nil, decide_eq_false_iff_not, not_and, not_or, not_not, ne_eq,
    and_assoc]
  constructor
  · intro h
    obtain ⟨step, both, neither, float⟩ := h
    refine ⟨step, ?_, float⟩
    intro role
    refine ⟨neither role, ?_⟩
    intro given
    by_contra swept
    exact given (both role swept)
  · intro h
    refine ⟨h.step, ?_, fun role unswept => (h.sweep role).mp unswept, h.float⟩
    intro role swept
    by_contra given
    exact swept ((h.sweep role).mpr given)

/-- What is there when `problemsOf` finds nothing. -/
structure ClientSpec.Clear (spec : ClientSpec) : Prop where
  sweeps : ∃ sweep, spec.biases.filter (·.role = .sweep) = [sweep]
  labels : (spec.electrodes.map ElectrodeChoice.label).Nodup
  covered : ∀ choice ∈ spec.electrodes, choice.interfaces ≠ []
  claims : (claimAll spec.electrodes ∅).1 = []
  drives : (driveAll spec.biases ∅).1 = []
  driven : ∀ choice ∈ spec.electrodes, ∃ bias ∈ spec.biases, bias.electrode = choice.label
  total : spec.pointCount ≤ maxTotalPoints

theorem undriven_eq_nil_iff {labels : List String} {biases : List ClientBias} :
    (labels.filter fun label => label ∉ (driveAll biases ∅).2.keys) = [] ↔
      ∀ label ∈ labels, ∃ bias ∈ biases, bias.electrode = label := by
  rw [List.filter_eq_nil_iff]
  apply forall₂_congr
  intro label _
  rw [decide_eq_true_eq, not_not, mem_keys_driveAll, or_iff_right (Dict.notMem_keys_empty label), List.mem_map]

theorem ClientSpec.problemsOf_eq_nil_iff {spec : ClientSpec} : spec.problemsOf = [] ↔ spec.Clear := by
  unfold ClientSpec.problemsOf
  simp only [List.append_eq_nil_iff, pushIf_eq_nil, decide_eq_false_iff_not, not_not, ne_eq, not_lt, gt_iff_lt,
    List.map_eq_nil_iff, undriven_eq_nil_iff, List.length_eq_one_iff, and_assoc]
  constructor
  · intro h
    obtain ⟨sweeps, labels, bare, claims, drives, driven, total⟩ := h
    refine ⟨sweeps, labels, ?_, claims, drives, ?_, total⟩
    · intro choice mem uncovered
      exact List.filter_eq_nil_iff.mp bare choice mem (decide_eq_true uncovered)
    · exact fun choice mem => driven choice.label (List.mem_map_of_mem mem)
  · intro h
    refine ⟨h.sweeps, h.labels, ?_, h.claims, h.drives, ?_, h.total⟩
    · rw [List.filter_eq_nil_iff]
      exact fun choice mem uncovered => h.covered choice mem (of_decide_eq_true uncovered)
    · intro label mem
      obtain ⟨choice, hc, rfl⟩ := List.mem_map.mp mem
      exact h.driven choice hc

theorem ClientSpec.Clear.fits {spec : ClientSpec} (h : spec.Clear) : ∀ bias ∈ spec.biases, bias.Fits :=
  fun bias mem => ClientBias.problems_eq_nil_iff.mp (problems_of_driveAll h.drives bias mem)

/-! ## The fields as they arrive -/

theorem intOf_eq_some_iff {points : Rat} {n : Nat} : intOf points = some n ↔ points = n := by
  unfold intOf
  constructor
  · intro h
    split at h
    · rename_i whole
      obtain rfl := Option.some.inj h
      calc points = (points.num : Rat) := (Rat.den_eq_one_iff points).mp whole.1 |>.symm
        _ = ((points.num.toNat : Int) : Rat) := by rw [Int.toNat_of_nonneg whole.2]
        _ = (points.num.toNat : Rat) := Int.cast_natCast _
    · cases h
  · rintro rfl
    rw [if_pos ⟨Rat.den_natCast n, by simp⟩]
    simp

theorem sendBack_iff {sweep : ClientSweep} {range : SweepRange} :
    sweep.receive = some range ↔ sweep = range.sendBack := by
  obtain ⟨start, stop, points⟩ := sweep
  obtain ⟨start', stop', points'⟩ := range
  simp only [ClientSweep.receive, SweepRange.sendBack, Option.map_eq_some_iff, intOf_eq_some_iff,
    SweepRange.mk.injEq, ClientSweep.mk.injEq]
  constructor
  · rintro ⟨n, whole, rfl, rfl, rfl⟩
    exact ⟨rfl, rfl, whole⟩
  · rintro ⟨rfl, rfl, whole⟩
    exact ⟨points', whole, rfl, rfl, rfl⟩

/-- `bias` is what the server reads of the client's. -/
structure ClientBias.Sends (sent : ClientBias) (bias : Bias) : Prop where
  name : sent.name = bias.name
  electrode : sent.electrode = bias.electrode
  role : sent.role = bias.role
  value : sent.value.toOption = bias.value
  values : sent.values.toOption = bias.values
  sweep : sent.sweep.toOption = bias.sweep.map SweepRange.sendBack

theorem ClientBias.receive_eq_some_iff {sent : ClientBias} {bias : Bias} :
    sent.receive = some bias ↔ sent.Sends bias := by
  obtain ⟨name, electrode, role, value, values, sweep⟩ := bias
  unfold ClientBias.receive
  constructor
  · intro h
    split at h
    · rename_i unswept
      cases h
      exact ⟨rfl, rfl, rfl, rfl, rfl, unswept⟩
    · rename_i swept
      obtain ⟨range, received, same⟩ := Option.map_eq_some_iff.mp h
      cases same
      refine ⟨rfl, rfl, rfl, rfl, rfl, ?_⟩
      rw [swept, sendBack_iff.mp received]
      rfl
  · intro h
    obtain ⟨rfl, rfl, rfl, rfl, rfl, same⟩ := h
    cases sweep with
    | none =>
      rw [show sent.sweep.toOption = none from same]
    | some range =>
      rw [show sent.sweep.toOption = some range.sendBack from same]
      exact Option.map_eq_some_iff.mpr ⟨range, sendBack_iff.mpr rfl, rfl⟩

theorem Bias.sends_sendBack (bias : Bias) : bias.sendBack.Sends bias := by
  refine ⟨rfl, rfl, rfl, ?_, ?_, ?_⟩
  all_goals exact Js.toOption_ofOption _

/-! ## Counting the points -/

theorem Client.sweepValues_natCast (start stop : Volt) (n : Nat) :
    Client.sweepValues start stop n = Devsim.sweepValues start stop n := by
  unfold Client.sweepValues Devsim.sweepValues
  rw [Int.floor_natCast, Int.toNat_natCast]
  simp only [Nat.cast_nonpos, Nat.cast_eq_one]

namespace ClientBias.Sends

variable {sent : ClientBias} {bias : Bias}

theorem given_eq (h : sent.Sends bias) : sent.given = bias.values.getD [] := by
  rw [ClientBias.given, h.values]

theorem swept_iff (h : sent.Sends bias) : sent.sweep.toOption = none ↔ bias.sweep = none := by
  rw [h.sweep, Option.map_eq_none_iff]

/-- Both sides count the same points, but that the page counts some for a floating bias. -/
theorem pointsOf_eq (h : sent.Sends bias) (role : bias.role ≠ .float) : sent.pointsOf = bias.points := by
  unfold ClientBias.pointsOf Bias.points
  rw [h.role, h.given_eq, h.value, h.sweep]
  cases e : bias.role with
  | float => exact absurd e role
  | const => rfl
  | step => rfl
  | sweep =>
    cases bias.sweep with
    | none => rfl
    | some range => simp only [Option.map_some, SweepRange.sendBack, Client.sweepValues_natCast]

end ClientBias.Sends

theorem length_product (lists : List (List Volt)) : (product lists).length = (lists.map List.length).prod := by
  induction lists with
  | nil => rfl
  | cons values lists ih => simp [product, ih]

theorem DeviceSpec.length_stepCombinations (spec : DeviceSpec) :
    spec.stepCombinations.length = (spec.stepBiases.map fun bias => bias.points.length).prod := by
  unfold DeviceSpec.stepCombinations
  split
  · rename_i none
    rw [none]
    rfl
  · rw [List.length_map, DeviceSpec.stepChoices, length_product, List.map_map]
    rfl

theorem foldl_mul_max {α : Type} (length : α → Nat) (l : List α) (full : ∀ a ∈ l, 1 ≤ length a) (start : Nat) :
    l.foldl (fun total a => total * max 1 (length a)) start = start * (l.map length).prod := by
  induction l generalizing start with
  | nil => simp
  | cons a l ih =>
    rw [List.foldl_cons, ih (fun b hb => full b (List.mem_cons_of_mem _ hb)), List.map_cons, List.prod_cons,
      max_eq_right (full a List.mem_cons_self), mul_assoc]

section Sent

variable {sent : List ClientBias} {biases : List Bias}

theorem filter_of_sends (h : List.Forall₂ ClientBias.Sends sent biases) (role : BiasRole) :
    List.Forall₂ ClientBias.Sends (sent.filter (·.role = role)) (biases.filter (·.role = role)) :=
  List.rel_filter (fun _ _ one => by simp [one.role]) h

theorem map_of_sends {α : Type} {f : ClientBias → α} {g : Bias → α} (h : List.Forall₂ ClientBias.Sends sent biases)
    (same : ∀ one, ∀ bias ∈ biases, one.Sends bias → f one = g bias) : sent.map f = biases.map g := by
  rw [← List.forall₂_eq_eq_eq, List.forall₂_map_left_iff, List.forall₂_map_right_iff]
  exact forall₂_imp_of_mem h same

end Sent

/-- The page and the server count the same points. -/
theorem pointCount_eq {sent : ClientSpec} {spec : DeviceSpec}
    (h : List.Forall₂ ClientBias.Sends sent.biases spec.biases)
    (full : ∀ bias ∈ sent.biases, bias.role = .step → bias.given ≠ []) :
    sent.pointCount = spec.totalPoints := by
  have steps := filter_of_sends h .step
  have points : (sent.biases.filter (·.role = .step)).map (fun bias => bias.pointsOf.length) =
      spec.stepBiases.map fun bias => bias.points.length := by
    apply map_of_sends steps
    intro one bias mem sends
    have role : bias.role = .step := of_decide_eq_true (List.mem_filter.mp mem).2
    rw [sends.pointsOf_eq (by simp [role])]
  unfold ClientSpec.pointCount DeviceSpec.totalPoints DeviceSpec.sweepBias
  rw [DeviceSpec.length_stepCombinations, ← points, ← List.head?_filter, ← List.head?_filter]
  have sweeps := filter_of_sends h .sweep
  cases sweeps' : spec.biases.filter (·.role = .sweep) with
  | nil =>
    rw [sweeps', List.forall₂_nil_right_iff] at sweeps
    rw [sweeps]
    simp
  | cons sweep rest =>
    rw [sweeps', List.forall₂_cons_right_iff] at sweeps
    obtain ⟨one, others, sends, -, e⟩ := sweeps
    have role : sweep.role = .sweep := by
      have mem : sweep ∈ spec.biases.filter (·.role = .sweep) := by simp [sweeps']
      exact of_decide_eq_true (List.mem_filter.mp mem).2
    rw [e, List.head?_cons, List.head?_cons, Option.map_some, Option.getD_some]
    simp only
    rw [sends.pointsOf_eq (by simp [role]), foldl_mul_max, one_mul]
    intro bias mem
    obtain ⟨mem, role⟩ := List.mem_filter.mp mem
    have role := of_decide_eq_true role
    have given := full bias mem role
    rw [ClientBias.pointsOf, role]
    exact List.length_pos_iff.mpr given

/-! ## What only the server checks -/

/-- The rules for a bias that `problemsOf` leaves to the server. -/
structure ClientBias.ServerRules (bias : ClientBias) : Prop where
  name : 1 ≤ bias.name.length ∧ bias.name.length ≤ 32
  electrode : 1 ≤ bias.electrode.length ∧ bias.electrode.length ≤ 32
  value : ∀ v, bias.value.toOption = some v → v.inRange
  values : bias.given.length ≤ maxSweepPoints ∧ ∀ v ∈ bias.given, |v| ≤ maxAbsVolts
  sweep : ∀ sweep, bias.sweep.toOption = some sweep → sweep.start.inRange ∧ sweep.stop.inRange ∧
    ∃ points : Nat, 0 < points ∧ sweep.points = points
  const : bias.role = .const → bias.value.toOption ≠ none
  step : bias.role = .step → bias.given.length ≤ maxStepValues

/-- The rules that `problemsOf` leaves to the server. -/
structure ClientSpec.ServerRules (py : Python) (spec : ClientSpec) : Prop where
  electrodes : 1 ≤ spec.electrodes.length ∧ spec.electrodes.length ≤ 16
  biases : 1 ≤ spec.biases.length ∧ spec.biases.length ≤ 8
  electrodeFields : ∀ choice ∈ spec.electrodes, choice.FieldsInRange
  biasFields : ∀ bias ∈ spec.biases, bias.ServerRules
  known : ∀ bias ∈ spec.biases, bias.electrode ∈ spec.electrodes.map ElectrodeChoice.label
  sweptPoints : ∀ bias ∈ spec.biases, bias.role = .sweep → bias.pointsOf.length ≤ maxSweepPoints
  gateModel : spec.gateModel ≠ .null
  temperatureK : ∃ kelvin, spec.temperatureK.orDefault 300 = some kelvin ∧ 0 < kelvin ∧ kelvin ≤ 1000
  label : 1 ≤ spec.label.length ∧ spec.label.length ≤ 120
  structureName : ∃ name, spec.structureName.orDefault "" = some name ∧ name.length ≤ 255
  interfaceNames : ∃ names, spec.interfaceNames.orDefault ∅ = some names ∧ saneInterfaceNames py names = .ok ()

theorem Js.orDefault_ne_none_iff {α : Type} {default : α} {field : Js α} :
    (∃ a, field.orDefault default = some a) ↔ field ≠ .null := by
  cases field <;> simp [Js.orDefault]

/-- `stored` is what the server reads of the client's. -/
structure ClientSpec.Sends (sent : ClientSpec) (stored : StoredSpec) : Prop where
  electrodes : sent.electrodes = stored.electrodes
  biases : List.Forall₂ ClientBias.Sends sent.biases stored.biases
  gateModel : sent.gateModel.orDefault .semiconductor = some stored.gateModel
  temperatureK : sent.temperatureK.orDefault 300 = some stored.temperatureK
  label : sent.label = stored.label
  structureName : sent.structureName.orDefault "" = some stored.structureName
  interfaceNames : sent.interfaceNames.orDefault ∅ = some stored.interfaceNames

theorem ClientSpec.receive_eq_some_iff {sent : ClientSpec} {stored : StoredSpec} :
    sent.receive = some stored ↔ sent.Sends stored := by
  have fields : List.Forall₂ (fun one bias => one.receive = some bias) sent.biases stored.biases ↔
      List.Forall₂ ClientBias.Sends sent.biases stored.biases := by
    simp only [ClientBias.receive_eq_some_iff]
  unfold ClientSpec.receive
  constructor
  · intro h
    obtain ⟨biases, hb, h⟩ := Option.bind_eq_some_iff.mp h
    obtain ⟨gateModel, hg, h⟩ := Option.bind_eq_some_iff.mp h
    obtain ⟨temperatureK, ht, h⟩ := Option.bind_eq_some_iff.mp h
    obtain ⟨structureName, hs, h⟩ := Option.bind_eq_some_iff.mp h
    obtain ⟨interfaceNames, hi, h⟩ := Option.bind_eq_some_iff.mp h
    cases h
    exact ⟨rfl, fields.mp (mapM_eq_some_iff.mp hb), hg, ht, rfl, hs, hi⟩
  · intro h
    refine Option.bind_eq_some_iff.mpr ⟨_, mapM_eq_some_iff.mpr (fields.mpr h.biases),
      Option.bind_eq_some_iff.mpr ⟨_, h.gateModel, Option.bind_eq_some_iff.mpr ⟨_, h.temperatureK,
        Option.bind_eq_some_iff.mpr ⟨_, h.structureName, Option.bind_eq_some_iff.mpr ⟨_, h.interfaceNames, ?_⟩⟩⟩⟩⟩
    rw [h.electrodes, h.label]

theorem StoredSpec.sends_sendBack (stored : StoredSpec) : stored.sendBack.Sends stored := by
  refine ⟨rfl, ?_, rfl, rfl, rfl, rfl, rfl⟩
  rw [StoredSpec.sendBack, List.forall₂_map_left_iff, List.forall₂_same]
  exact fun bias _ => bias.sends_sendBack

namespace ClientBias.Sends

variable {sent : ClientBias} {bias : Bias}

/-- With nothing to complain about, the server's rules are what is left. -/
theorem accepted_iff (h : sent.Sends bias) (fits : sent.Fits) :
    (bias.FieldsInRange ∧ bias.Fits) ↔ sent.ServerRules := by
  have range : (∀ sweep, bias.sweep = some sweep → sweep.start.inRange ∧ sweep.stop.inRange ∧ 0 < sweep.points) ↔
      ∀ sweep, sent.sweep.toOption = some sweep → sweep.start.inRange ∧ sweep.stop.inRange ∧
        ∃ points : Nat, 0 < points ∧ sweep.points = points := by
    rw [h.sweep]
    cases bias.sweep with
    | none => simp
    | some range => simp [SweepRange.sendBack]
  constructor
  · intro both
    obtain ⟨fields, role⟩ := both
    refine ⟨h.name ▸ fields.name, h.electrode ▸ fields.electrode, h.value ▸ fields.value,
      h.given_eq ▸ ⟨fields.values, role.values⟩, range.mp fields.sweep, ?_, ?_⟩
    · exact fun const => h.value ▸ role.const (h.role ▸ const)
    · exact fun step => h.given_eq ▸ (role.step (h.role ▸ step)).2
  · intro rules
    refine ⟨⟨h.name ▸ rules.name, h.electrode ▸ rules.electrode, h.value ▸ rules.value,
      h.given_eq ▸ rules.values.1, range.mpr rules.sweep⟩, ?_, ?_, ?_, ?_, h.given_eq ▸ rules.values.2⟩
    · exact fun const => h.value ▸ rules.const (h.role.trans const)
    · intro step
      have step := h.role.trans step
      exact h.given_eq ▸ ⟨fits.step step, rules.step step⟩
    · intro sweep
      rw [← h.swept_iff, ← h.given_eq]
      exact fits.sweep (h.role.trans sweep)
    · intro float
      obtain ⟨value, values, sweep⟩ := fits.float (h.role.trans float)
      refine ⟨?_, h.given_eq ▸ values, h.swept_iff.mp sweep⟩
      rw [← h.value, value]
      rfl

end ClientBias.Sends

theorem allInterfaces_nodup {electrodes : List ElectrodeChoice} (h : (allInterfaces electrodes).Nodup) :
    ∀ choice ∈ electrodes, choice.noRepeats = .ok () := by
  intro choice mem
  rw [ElectrodeChoice.noRepeats, check_eq_ok, decide_eq_false_iff_not, not_not]
  exact (List.nodup_flatMap.mp h).1 choice mem

namespace ClientSpec.Sends

variable {sent : ClientSpec} {stored : StoredSpec}

theorem labels_ne (h : ∀ choice ∈ sent.electrodes, choice.FieldsInRange) :
    ∀ choice ∈ sent.electrodes, choice.label ≠ "" := by
  intro choice mem empty
  have := (h choice mem).label.1
  simp [empty] at this

theorem names_ne (h : ∀ bias ∈ sent.biases, bias.ServerRules) : ∀ bias ∈ sent.biases, bias.name ≠ "" := by
  intro bias mem empty
  have := (h bias mem).name.1
  simp [empty] at this

theorem electrodes_eq (h : sent.Sends stored) :
    sent.biases.map ClientBias.electrode = stored.biases.map Bias.electrode :=
  map_of_sends h.biases fun _ _ _ one => one.electrode

theorem sweptPoints_eq (h : sent.Sends stored) {sweep : ClientBias}
    (one : sent.biases.filter (·.role = .sweep) = [sweep]) :
    stored.sweptPoints = sweep.pointsOf ∧ ∃ sweep', stored.biases.filter (·.role = .sweep) = [sweep'] := by
  have sweeps := filter_of_sends h.biases .sweep
  rw [one, List.forall₂_cons_left_iff] at sweeps
  obtain ⟨sweep', rest, sends, none, e⟩ := sweeps
  rw [List.forall₂_nil_left_iff] at none
  rw [none] at e
  have role : sweep'.role = .sweep := by
    have mem : sweep' ∈ stored.biases.filter (·.role = .sweep) := by simp [e]
    exact of_decide_eq_true (List.mem_filter.mp mem).2
  refine ⟨?_, sweep', e⟩
  rw [DeviceSpec.sweptPoints, e, sends.pointsOf_eq (by simp [role])]
  rfl

theorem rules_of_accepted (h : sent.Sends stored) (clear : sent.Clear) (accepted : stored.Accepted py) :
    sent.ServerRules py := by
  obtain ⟨device, kelvin, label, structureName, names⟩ := accepted
  obtain ⟨sweep, one⟩ := clear.sweeps
  have lengths := h.biases.length_eq
  refine ⟨h.electrodes ▸ device.electrodes, lengths ▸ device.biases, ?_, ?_, ?_, ?_,
    Js.orDefault_ne_none_iff.mp ⟨_, h.gateModel⟩, ⟨_, h.temperatureK, kelvin⟩, h.label ▸ label,
    ⟨_, h.structureName, structureName⟩, ⟨_, h.interfaceNames, names⟩⟩
  · intro choice mem
    exact (device.electrodeFields choice (h.electrodes ▸ mem)).1
  · intro bias mem
    obtain ⟨bias', mem', sends⟩ := exists_of_mem_left h.biases mem
    obtain ⟨fields, role⟩ := device.biasFields bias' mem'
    exact (sends.accepted_iff (clear.fits bias mem)).mp ⟨fields, Bias.matchesItsRole_eq_ok.mp role⟩
  · intro bias mem
    obtain ⟨bias', mem', sends⟩ := exists_of_mem_left h.biases mem
    rw [h.electrodes, sends.electrode]
    exact device.isConsistent.known bias' mem'
  · intro bias mem role
    have mem : bias ∈ sent.biases.filter (·.role = .sweep) := List.mem_filter.mpr ⟨mem, decide_eq_true role⟩
    rw [one, List.mem_singleton] at mem
    rw [mem, ← (h.sweptPoints_eq one).1]
    exact (consistent_eq_ok.mp device.consistent).2.2.1

theorem accepted_of_rules (h : sent.Sends stored) (clear : sent.Clear) (rules : sent.ServerRules py) :
    stored.Accepted py := by
  have claims := (claimAll_eq_nil_iff (labels_ne rules.electrodeFields) named_empty).mp clear.claims
  have drives := (driveAll_eq_nil_iff (names_ne rules.biasFields) named_empty).mp clear.drives
  obtain ⟨sweep, one⟩ := clear.sweeps
  obtain ⟨points, sweeps⟩ := h.sweptPoints_eq one
  obtain ⟨kelvin, hkelvin, warm⟩ := rules.temperatureK
  obtain ⟨name, hname, short⟩ := rules.structureName
  obtain ⟨names, hnames, sane⟩ := rules.interfaceNames
  obtain rfl := Option.some.inj (h.temperatureK.symm.trans hkelvin)
  obtain rfl := Option.some.inj (h.structureName.symm.trans hname)
  obtain rfl := Option.some.inj (h.interfaceNames.symm.trans hnames)
  have once := h.electrodes ▸ claims.1
  refine ⟨⟨h.electrodes ▸ rules.electrodes, h.biases.length_eq ▸ rules.biases, ?_, ?_, ?_⟩, warm,
    h.label ▸ rules.label, short, sane⟩
  · intro choice mem
    exact ⟨rules.electrodeFields choice (h.electrodes ▸ mem), allInterfaces_nodup once choice mem⟩
  · intro bias mem
    obtain ⟨bias', mem', sends⟩ := exists_of_mem_right h.biases mem
    obtain ⟨fields, role⟩ := (sends.accepted_iff (clear.fits bias' mem')).mpr (rules.biasFields bias' mem')
    exact ⟨fields, Bias.matchesItsRole_eq_ok.mpr role⟩
  · refine consistent_eq_ok.mpr ⟨⟨h.electrodes ▸ clear.labels, sweeps, h.electrodes_eq ▸ drives.1, ?_, ?_⟩,
      once, ?_, ?_⟩
    · intro bias mem
      obtain ⟨bias', mem', sends⟩ := exists_of_mem_right h.biases mem
      rw [← h.electrodes, ← sends.electrode]
      exact rules.known bias' mem'
    · intro choice mem
      obtain ⟨bias, mem', e⟩ := clear.driven choice (h.electrodes ▸ mem)
      obtain ⟨bias', mem', sends⟩ := exists_of_mem_left h.biases mem'
      exact ⟨bias', mem', sends.electrode.symm.trans e⟩
    · have mem : sweep ∈ sent.biases.filter (·.role = .sweep) := by simp [one]
      obtain ⟨mem, role⟩ := List.mem_filter.mp mem
      rw [points]
      exact rules.sweptPoints sweep mem (of_decide_eq_true role)
    · rw [← pointCount_eq h.biases fun bias mem => (clear.fits bias mem).step]
      exact clear.total

/-- What follows the rules can be read. -/
theorem exists_of_rules (rules : sent.ServerRules py) : ∃ stored, sent.Sends stored := by
  have biases : ∀ bias ∈ sent.biases, ∃ bias', ClientBias.Sends bias bias' := by
    intro bias mem
    have range := (rules.biasFields bias mem).sweep
    cases swept : bias.sweep.toOption with
    | none => exact ⟨⟨_, _, _, _, _, none⟩, rfl, rfl, rfl, rfl, rfl, swept⟩
    | some sweep =>
      obtain ⟨-, -, points, -, whole⟩ := range sweep swept
      refine ⟨⟨_, _, _, _, _, some ⟨sweep.start, sweep.stop, points⟩⟩, rfl, rfl, rfl, rfl, rfl, ?_⟩
      rw [swept, Option.map_some, SweepRange.sendBack, ← whole]
  obtain ⟨gateModel, hg⟩ := Js.orDefault_ne_none_iff.mpr rules.gateModel
  obtain ⟨kelvin, hk, -⟩ := rules.temperatureK
  obtain ⟨name, hn, -⟩ := rules.structureName
  obtain ⟨names, hi, -⟩ := rules.interfaceNames
  obtain ⟨list, hl⟩ := exists_forall₂ biases
  exact ⟨⟨⟨sent.electrodes, list, gateModel⟩, kelvin, sent.label, name, names⟩, rfl, hl, hg, hk, rfl, hn, hi⟩

/-- What the server accepts is free of problems when it comes back, unless a bias floats. -/
theorem clear_of_accepted (h : sent.Sends stored) (accepted : stored.Accepted py)
    (covered : ∀ choice ∈ stored.electrodes, choice.interfaces ≠ [])
    (grounded : ∀ bias ∈ stored.biases, bias.role ≠ .float) : sent.Clear := by
  obtain ⟨consistent, once, points, total⟩ := consistent_eq_ok.mp accepted.device.consistent
  have electrodes : ∀ choice ∈ sent.electrodes, choice.FieldsInRange :=
    fun choice mem => (accepted.device.electrodeFields choice (h.electrodes ▸ mem)).1
  have names : ∀ bias ∈ sent.biases, bias.name ≠ "" := by
    intro bias mem empty
    obtain ⟨bias', mem', sends⟩ := exists_of_mem_left h.biases mem
    have := (accepted.device.biasFields bias' mem').1.name.1
    simp [← sends.name, empty] at this
  have fits : ∀ bias ∈ sent.biases, bias.Fits := by
    intro bias mem
    obtain ⟨bias', mem', sends⟩ := exists_of_mem_left h.biases mem
    have role := Bias.matchesItsRole_eq_ok.mp (accepted.device.biasFields bias' mem').2
    refine ⟨?_, ?_, ?_⟩
    · exact fun step => sends.given_eq ▸ (role.step (sends.role ▸ step)).1
    · intro sweep
      rw [sends.swept_iff, sends.given_eq]
      exact role.sweep (sends.role ▸ sweep)
    · exact fun float => absurd (sends.role ▸ float) (grounded bias' mem')
  refine ⟨?_, h.electrodes ▸ consistent.labels, h.electrodes ▸ covered, ?_, ?_, ?_, ?_⟩
  · obtain ⟨sweep, one⟩ := consistent.sweeps
    have sweeps := filter_of_sends h.biases .sweep
    rw [one, List.forall₂_cons_right_iff] at sweeps
    obtain ⟨sweep', rest, -, none, e⟩ := sweeps
    rw [List.forall₂_nil_right_iff] at none
    exact ⟨sweep', none ▸ e⟩
  · exact (claimAll_eq_nil_iff (labels_ne electrodes) named_empty).mpr
      ⟨h.electrodes ▸ once, fun key _ => Dict.notMem_keys_empty key⟩
  · exact (driveAll_eq_nil_iff names named_empty).mpr ⟨h.electrodes_eq ▸ consistent.electrodes,
      fun bias _ => Dict.notMem_keys_empty bias.electrode,
      fun bias mem => ClientBias.problems_eq_nil_iff.mpr (fits bias mem)⟩
  · intro choice mem
    obtain ⟨bias, mem', e⟩ := consistent.attached choice (h.electrodes ▸ mem)
    obtain ⟨bias', mem', sends⟩ := exists_of_mem_right h.biases mem'
    exact ⟨bias', mem', sends.electrode.trans e⟩
  · rw [pointCount_eq h.biases fun bias mem => (fits bias mem).step]
    exact total

end ClientSpec.Sends

/-- What passes on the page is accepted by the server just if it also follows the rules that the
    page leaves to it; and what the server accepts, without an electrode that is still empty and
    without a floating bias, passes on the page when it comes back. -/
theorem validations_agree (py : Python) (spec : ClientSpec) (stored : StoredSpec) :
    (spec.problemsOf = [] →
      ((∃ received, spec.receive = some received ∧ received.Accepted py) ↔ spec.ServerRules py) ∧
      ∀ received, spec.receive = some received → spec.pointCount = received.totalPoints) ∧
    (stored.Accepted py → (∀ choice ∈ stored.electrodes, choice.interfaces ≠ []) →
      stored.floatingBiases = [] → stored.sendBack.problemsOf = []) := by
  refine ⟨?_, ?_⟩
  · intro none
    have clear := ClientSpec.problemsOf_eq_nil_iff.mp none
    refine ⟨⟨?_, ?_⟩, ?_⟩
    · intro accepted
      obtain ⟨received, sends, accepted⟩ := accepted
      exact (ClientSpec.receive_eq_some_iff.mp sends).rules_of_accepted clear accepted
    · intro rules
      obtain ⟨received, sends⟩ := ClientSpec.Sends.exists_of_rules rules
      exact ⟨received, ClientSpec.receive_eq_some_iff.mpr sends, sends.accepted_of_rules clear rules⟩
    · intro received sends
      exact pointCount_eq (ClientSpec.receive_eq_some_iff.mp sends).biases
        fun bias mem => (clear.fits bias mem).step
  · intro accepted covered grounded
    apply ClientSpec.problemsOf_eq_nil_iff.mpr
    apply stored.sends_sendBack.clear_of_accepted accepted covered
    intro bias mem float
    exact List.filter_eq_nil_iff.mp grounded bias mem (decide_eq_true float)

/-- The drain swept from 0 to 1 V in two points, against the source at a voltage. -/
def sourceAt (v : Volt) : ClientSpec where
  label := "Id-Vd"
  electrodes := [⟨"source", ["source"]⟩, ⟨"drain", ["drain"]⟩]
  biases := [⟨"Vs", "source", .const, .value v, .undefined, .undefined⟩,
    ⟨"Vd", "drain", .sweep, .undefined, .undefined, .value ⟨0, 1, 2⟩⟩]
  gateModel := .value .semiconductor
  temperatureK := .undefined
  interfaceNames := .undefined
  structureName := .undefined

/-- What the server makes of it with the source at 0 V. -/
def groundedSource : StoredSpec where
  electrodes := [⟨"source", ["source"]⟩, ⟨"drain", ["drain"]⟩]
  biases := [⟨"Vs", "source", .const, some 0, none, none⟩, ⟨"Vd", "drain", .sweep, none, none, some ⟨0, 1, 2⟩⟩]
  gateModel := .semiconductor
  temperatureK := 300
  label := "Id-Vd"
  structureName := ""
  interfaceNames := ∅

theorem validations_agree_groundedSource : (sourceAt 0).ServerRules plain ∧
    (sourceAt 0).pointCount = groundedSource.totalPoints ∧ groundedSource.sendBack.problemsOf = [] := by
  obtain ⟨there, back⟩ := validations_agree plain (sourceAt 0) groundedSource
  have accepted : groundedSource.Accepted plain := by decide
  have received : (sourceAt 0).receive = some groundedSource :=
    ClientSpec.receive_eq_some_iff.mpr ⟨rfl, List.Forall₂.cons ⟨rfl, rfl, rfl, rfl, rfl, rfl⟩
      (List.Forall₂.cons ⟨rfl, rfl, rfl, rfl, rfl, rfl⟩ List.Forall₂.nil), rfl, rfl, rfl, rfl, rfl⟩
  obtain ⟨rules, counted⟩ := there (by decide)
  exact ⟨rules.mp ⟨groundedSource, received, accepted⟩, counted groundedSource received,
    back accepted (by decide) (by decide)⟩

/-- With the source at 200 V the page has nothing to say, and the server refuses. -/
theorem not_validationsAgree : ¬ ∀ (py : Python) (keys : List String),
    (∀ spec : ClientSpec, (∀ choice ∈ spec.electrodes, ∀ key ∈ choice.interfaces, key ∈ keys) →
      spec.problemsOf = [] → ∃ received, spec.receive = some received ∧ received.Accepted py ∧
        spec.pointCount = received.totalPoints) ∧
    (∀ stored : StoredSpec, stored.Accepted py → (∀ choice ∈ stored.electrodes, choice.interfaces ≠ []) →
      stored.sendBack.problemsOf = []) := by
  intro agree
  obtain ⟨received, sends, accepted, -⟩ :=
    (agree plain ["source", "drain"]).1 (sourceAt 200) (by decide) (by decide)
  obtain ⟨bias, mem, one⟩ := exists_of_mem_left (ClientSpec.receive_eq_some_iff.mp sends).biases
    List.mem_cons_self
  have low := ((accepted.device.biasFields bias mem).1.value 200 one.value.symm).2
  exact absurd low (by decide)

end TcadWebapp.Devsim
