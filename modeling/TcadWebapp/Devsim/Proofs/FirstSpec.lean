import TcadWebapp.Devsim.Proofs.Page

/-!
# The first specification

The specification that the page makes for the interfaces of a structure can be run unless there
are too many of them, too many gates among them, or nothing else.
-/

namespace TcadWebapp.Devsim

open StrParser

variable {py : Python} {s : Structure Rat} {gateModel : GateModel} {found : List Electrode}

/-- One sweep, each interface in one electrode, nothing to complain about for the page and for the
server. -/
structure CanRun (py : Python) (interfaces : List Electrode) (spec : ClientSpec) : Prop where
  sweep : (spec.biases.filter (·.role = .sweep)).length = 1
  once : ∀ one ∈ interfaces, (spec.electrodes.filter (one.name ∈ ·.interfaces)).length = 1
  clear : spec.problemsOf = []
  accepted : ∃ received, spec.receive = some received ∧ received.Accepted py

/-! ## Names are short -/

theorem length_nameFrom (gates plain : Nat) (candidates : List Candidate) (g p : Nat) :
    (nameFrom gates plain candidates g p).length = candidates.length := by
  induction candidates generalizing g p with
  | nil => rfl
  | cons c rest ih =>
    rw [nameFrom]
    split
    · rw [List.length_cons, ih, List.length_cons]
    · rw [List.length_cons, ih, List.length_cons]

theorem length_toString : ∀ k ≤ 8, (toString k).length = 1 := by decide

theorem length_gateName (gates : Nat) {k : Nat} (h : k ≤ 8) :
    1 ≤ (gateName gates k).length ∧ (gateName gates k).length ≤ 8 := by
  unfold gateName
  split
  · decide
  · rw [String.length_append, length_toString k h]
    decide

theorem length_plainName (plain : Nat) {k : Nat} (h : k ≤ 8) :
    1 ≤ (plainName plain k).length ∧ (plainName plain k).length ≤ 8 := by
  unfold plainName
  split
  · split <;> decide
  · rw [String.length_append, length_toString k h]
    decide

theorem length_name_of_nameElectrodes {candidates : List Candidate}
    (few : (nameElectrodes candidates).length ≤ 8) {one : Electrode} (mem : one ∈ nameElectrodes candidates) :
    1 ≤ one.name.length ∧ one.name.length ≤ 8 := by
  have name := List.mem_map_of_mem (f := Electrode.name) mem
  rw [nameElectrodes, length_nameFrom] at few
  rcases name_mem_nameFrom name with ⟨k, -, high, e⟩ | ⟨k, -, high, e⟩
  · rw [Nat.zero_add] at high
    rw [e]
    exact length_gateName _ ((high.trans List.countP_le_length).trans few)
  · rw [Nat.zero_add] at high
    rw [e]
    exact length_plainName _ ((high.trans List.countP_le_length).trans few)

/-- The names of few interfaces are short. -/
theorem length_name (detected : detectInterfaces s gateModel = .ok found) (few : found.length ≤ 8)
    {one : Electrode} (mem : one ∈ found) : 1 ≤ one.name.length ∧ one.name.length ≤ 8 := by
  obtain ⟨metal, hmetal, h⟩ := bind_eq_ok.mp detected
  obtain ⟨body, hbody, h⟩ := bind_eq_ok.mp h
  obtain rfl := Except.ok.inj h
  rcases List.mem_append.mp mem with mem | mem
  · obtain ⟨clusters, -, h⟩ := bind_eq_ok.mp hmetal
    obtain ⟨candidates, -, h⟩ := bind_eq_ok.mp h
    obtain rfl := Except.ok.inj h
    rw [List.length_append] at few
    exact length_name_of_nameElectrodes (Nat.le_trans (Nat.le_add_right _ _) few) mem
  · rw [(backsideCandidate_edges hbody).2 one (Option.mem_toList.mp mem)]
    decide

/-! ## The biases by their roles -/

theorem mem_of_mem_sweptOf {interfaces : List Electrode} {one : Electrode} (h : one ∈ sweptOf interfaces) :
    one ∈ interfaces ∧ isGate one = false := by
  have mem : one ∈ interfaces.filter fun one => !isGate one := by
    unfold sweptOf at h
    rcases Option.or_eq_some_iff.mp h with last | ⟨-, last⟩
    · exact (List.mem_insertionSort _).mp (List.mem_of_mem_filter (List.mem_of_getLast? last))
    · exact (List.mem_insertionSort _).mp (List.mem_of_getLast? last)
  simpa using mem

theorem sweptOf_eq_none_iff {interfaces : List Electrode} :
    sweptOf interfaces = none ↔ ∀ one ∈ interfaces, isGate one = true := by
  constructor
  · intro h one mem
    unfold sweptOf at h
    have last := (Option.or_eq_none_iff.mp h).2
    rw [List.getLast?_eq_none_iff] at last
    by_contra other
    have there : one ∈ (interfaces.filter fun one => !isGate one).insertionSort fun a b =>
        a.extent.xMin + a.extent.xMax ≤ b.extent.xMin + b.extent.xMax :=
      (List.mem_insertionSort _).mpr (List.mem_filter.mpr ⟨mem, by simpa using other⟩)
    rw [last] at there
    cases there
  · intro gates
    rw [Option.eq_none_iff_forall_not_mem]
    intro one h
    obtain ⟨mem, other⟩ := mem_of_mem_sweptOf h
    rw [gates one mem] at other
    cases other

theorem role_defaultBias (swept : Option Electrode) (one : Electrode) :
    (defaultBias swept one).role = if isGate one then .step else if some one = swept then .sweep else .const := by
  unfold defaultBias
  split
  · rfl
  · split <;> rfl

theorem name_defaultBias (swept : Option Electrode) (one : Electrode) :
    (defaultBias swept one).name = "V" ++ one.name ∧ (defaultBias swept one).electrode = one.name := by
  unfold defaultBias
  split
  · exact ⟨rfl, rfl⟩
  · split <;> exact ⟨rfl, rfl⟩

theorem biases_defaultSpec (role : BiasRole) : (defaultSpec found).biases.filter (·.role = role) =
    (found.filter fun one => (defaultBias (sweptOf found) one).role = role).map
      (defaultBias (sweptOf found)) := by
  show (found.map (defaultBias (sweptOf found))).filter (·.role = role) = _
  rw [List.filter_map]
  rfl

/-- One interface is swept, if any is no gate. -/
theorem sweeps_defaultSpec (apart : (found.map Electrode.name).Nodup) :
    (defaultSpec found).biases.filter (·.role = .sweep) =
      ((sweptOf found).map (defaultBias (sweptOf found))).toList := by
  have swept (one : Electrode) : (defaultBias (sweptOf found) one).role = .sweep ↔ some one = sweptOf found := by
    rw [role_defaultBias]
    constructor
    · intro h
      split at h
      · cases h
      · split at h
        · assumption
        · cases h
    · intro h
      rw [if_neg (by simp [(mem_of_mem_sweptOf h.symm).2]), if_pos h]
  rw [biases_defaultSpec]
  simp only [swept]
  cases chosen : sweptOf found with
  | none => simp
  | some x =>
    have mem := (mem_of_mem_sweptOf chosen).1
    simp only [Option.some.injEq]
    rw [List.filter_eq, List.count_eq_one_of_mem apart.of_map mem]
    rfl

theorem steps_defaultSpec : (defaultSpec found).biases.filter (·.role = .step) =
    (found.filter isGate).map (defaultBias (sweptOf found)) := by
  rw [biases_defaultSpec]
  congr 2
  funext one
  rw [role_defaultBias]
  cases isGate one with
  | true => rfl
  | false =>
    by_cases swept : some one = sweptOf found <;> simp [swept]

/-! ## The number of points -/

theorem length_pointsOf_defaultBias {swept : Option Electrode} {one : Electrode}
    (role : (defaultBias swept one).role = .sweep) : (defaultBias swept one).pointsOf.length = 6 := by
  have six : (Client.sweepValues defaultSweep.start defaultSweep.stop defaultSweep.points).length = 6 := by
    decide +kernel
  unfold defaultBias at role ⊢
  split at role
  · cases role
  · rename_i other
    rw [if_neg other]
    split at role
    · rename_i chosen
      rw [if_pos chosen]
      exact six
    · cases role

/-- Six points a sweep, and three times as many for each gate. -/
theorem pointCount_defaultSpec (apart : (found.map Electrode.name).Nodup) {x : Electrode}
    (swept : sweptOf found = some x) :
    (defaultSpec found).pointCount = 6 * 3 ^ found.countP isGate := by
  have first : (defaultSpec found).biases.find? (·.role = .sweep) = some (defaultBias (sweptOf found) x) := by
    rw [← List.head?_filter, sweeps_defaultSpec apart, swept]
    rfl
  have points : (defaultBias (sweptOf found) x).pointsOf.length = 6 := by
    apply length_pointsOf_defaultBias
    rw [role_defaultBias, if_neg (by simp [(mem_of_mem_sweptOf swept).2]), if_pos swept.symm]
  have three : ∀ bias ∈ (found.filter isGate).map (defaultBias (sweptOf found)), bias.pointsOf.length = 3 := by
    intro bias mem
    obtain ⟨one, gate, rfl⟩ := List.mem_map.mp mem
    rw [defaultBias, if_pos (List.mem_filter.mp gate).2]
    rfl
  unfold ClientSpec.pointCount
  rw [first]
  show (defaultBias (sweptOf found) x).pointsOf.length * _ = _
  rw [points, steps_defaultSpec, foldl_mul_max _ _ (fun bias mem => by rw [three bias mem]; decide), one_mul,
    List.map_congr_left three, List.map_const', List.prod_replicate, List.length_map,
    List.countP_eq_length_filter]

theorem points_le_iff {gates : Nat} : 6 * 3 ^ gates ≤ maxTotalPoints ↔ gates ≤ 3 := by
  unfold maxTotalPoints
  constructor
  · intro h
    by_contra many
    have := Nat.pow_le_pow_right (show 0 < 3 by decide) (not_le.mp many)
    omega
  · intro few
    have := Nat.pow_le_pow_right (show 0 < 3 by decide) few
    omega

/-! ## Both validators -/

theorem fits_defaultBias (swept : Option Electrode) (one : Electrode) : (defaultBias swept one).Fits := by
  unfold defaultBias
  split
  · exact ⟨by simp [ClientBias.given, Js.toOption, defaultSteps], by simp, by simp⟩
  · split
    · exact ⟨by simp, by simp [ClientBias.given, Js.toOption], by simp⟩
    · exact ⟨by simp, by simp, by simp⟩

theorem clear_defaultSpec (apart : (found.map Electrode.name).Nodup)
    (named : ∀ one ∈ found, 1 ≤ one.name.length) {x : Electrode} (swept : sweptOf found = some x)
    (few : found.countP isGate ≤ 3) : (defaultSpec found).Clear := by
  have electrodes : (defaultSpec found).biases.map ClientBias.electrode = found.map Electrode.name := by
    show (found.map _).map ClientBias.electrode = _
    rw [List.map_map]
    exact List.map_congr_left fun one _ => (name_defaultBias _ one).2
  refine ⟨⟨_, (sweeps_defaultSpec apart).trans (by rw [swept]; rfl)⟩, ?_, ?_, ?_, ?_, ?_, ?_⟩
  · show ((found.map _).map ElectrodeChoice.label).Nodup
    rwa [List.map_map]
  · intro choice mem
    obtain ⟨one, -, rfl⟩ := List.mem_map.mp mem
    exact List.cons_ne_nil _ _
  · refine (claimAll_eq_nil_iff ?_ named_empty).mpr ⟨?_, fun key _ => Dict.notMem_keys_empty key⟩
    · intro choice mem empty
      obtain ⟨one, hone, rfl⟩ := List.mem_map.mp mem
      have := named one hone
      rw [show one.name = "" from empty] at this
      exact absurd this (by decide)
    · exact (keys_defaultSpec found).symm.subst apart
  · refine (driveAll_eq_nil_iff ?_ named_empty).mpr
      ⟨electrodes ▸ apart, fun bias _ => Dict.notMem_keys_empty _, ?_⟩
    · intro bias mem
      obtain ⟨one, -, rfl⟩ := List.mem_map.mp mem
      rw [(name_defaultBias _ one).1]
      simp
    · intro bias mem
      obtain ⟨one, -, rfl⟩ := List.mem_map.mp mem
      exact ClientBias.problems_eq_nil_iff.mpr (fits_defaultBias _ one)
  · intro choice mem
    obtain ⟨one, hone, rfl⟩ := List.mem_map.mp mem
    exact ⟨_, List.mem_map_of_mem hone, (name_defaultBias _ one).2⟩
  · rw [pointCount_defaultSpec apart swept]
    exact points_le_iff.mpr few

theorem serverRules_defaultBias (swept : Option Electrode) {one : Electrode}
    (short : 1 ≤ one.name.length ∧ one.name.length ≤ 8) : (defaultBias swept one).ServerRules := by
  have name : 1 ≤ ("V" ++ one.name).length ∧ ("V" ++ one.name).length ≤ 32 := by
    rw [String.length_append, show "V".length = 1 from rfl]
    omega
  have electrode : 1 ≤ one.name.length ∧ one.name.length ≤ 32 := ⟨short.1, short.2.trans (by decide)⟩
  unfold defaultBias
  split
  · refine ⟨name, electrode, nofun, ?_, nofun, nofun, ?_⟩
    · show defaultSteps.length ≤ maxSweepPoints ∧ ∀ v ∈ defaultSteps, |v| ≤ maxAbsVolts
      decide
    · intro _
      show defaultSteps.length ≤ maxStepValues
      decide
  · split
    · refine ⟨name, electrode, nofun, ⟨Nat.zero_le _, nofun⟩, ?_, nofun, nofun⟩
      intro sweep same
      obtain rfl := Option.some.inj same
      unfold defaultSweep Volt.inRange maxAbsVolts
      exact ⟨⟨by decide, by decide⟩, ⟨by decide +kernel, by decide +kernel⟩, 6, by decide, rfl⟩
    · refine ⟨name, electrode, ?_, ⟨Nat.zero_le _, nofun⟩, nofun, fun _ => nofun, nofun⟩
      intro v same
      obtain rfl := Option.some.inj same
      exact ⟨by decide, by decide⟩

theorem serverRules_defaultSpec (some : found ≠ []) (few : found.length ≤ 8)
    (short : ∀ one ∈ found, 1 ≤ one.name.length ∧ one.name.length ≤ 8) :
    (defaultSpec found).ServerRules py := by
  have length : 1 ≤ found.length := List.length_pos_iff.mpr some
  refine ⟨?_, ?_, ?_, ?_, ?_, ?_, nofun, ⟨300, rfl, by decide, by decide⟩, ?_,
    ⟨"", rfl, by decide⟩, ⟨∅, rfl, rfl⟩⟩
  · show 1 ≤ (found.map _).length ∧ (found.map _).length ≤ 16
    rw [List.length_map]
    omega
  · show 1 ≤ (found.map _).length ∧ (found.map _).length ≤ 8
    rw [List.length_map]
    exact ⟨length, few⟩
  · intro choice mem
    obtain ⟨one, hone, rfl⟩ := List.mem_map.mp mem
    exact ⟨⟨(short one hone).1, (short one hone).2.trans (by decide)⟩, (show 1 ≤ 16 by decide)⟩
  · intro bias mem
    obtain ⟨one, hone, rfl⟩ := List.mem_map.mp mem
    exact serverRules_defaultBias _ (short one hone)
  · intro bias mem
    obtain ⟨one, hone, rfl⟩ := List.mem_map.mp mem
    rw [(name_defaultBias _ one).2]
    exact List.mem_map.mpr ⟨_, List.mem_map_of_mem hone, rfl⟩
  · intro bias mem role
    obtain ⟨one, -, rfl⟩ := List.mem_map.mp mem
    rw [length_pointsOf_defaultBias role]
    decide
  · show 1 ≤ "기본 조건".length ∧ "기본 조건".length ≤ 120
    decide

/-- The first specification can be run exactly if there are at most eight interfaces, one of them is no
gate, and at most three are. -/
theorem canRun_defaultSpec_iff (py : Python) (detected : detectInterfaces s gateModel = .ok found)
    (some : found ≠ []) : CanRun py found (defaultSpec found) ↔
      found.length ≤ 8 ∧ (∃ one ∈ found, isGate one = false) ∧ found.countP isGate ≤ 3 := by
  have apart := nodup_detectInterfaces detected
  constructor
  · intro h
    obtain ⟨sweep, -, clear, received, sends, accepted⟩ := h
    rw [sweeps_defaultSpec apart] at sweep
    cases swept : sweptOf found with
    | none =>
      rw [swept] at sweep
      cases sweep
    | some x =>
      obtain ⟨mem, other⟩ := mem_of_mem_sweptOf swept
      have total := (ClientSpec.problemsOf_eq_nil_iff.mp clear).total
      rw [pointCount_defaultSpec apart swept] at total
      refine ⟨?_, ⟨x, mem, other⟩, points_le_iff.mp total⟩
      have few := accepted.device.biases.2
      rw [← (ClientSpec.receive_eq_some_iff.mp sends).biases.length_eq] at few
      show found.length ≤ 8
      rwa [show (defaultSpec found).biases.length = found.length from List.length_map _] at few
  · rintro ⟨few, ⟨one, mem, other⟩, gates⟩
    have short := fun one mem => @length_name _ _ _ detected few one mem
    obtain ⟨x, swept⟩ : ∃ x, sweptOf found = Option.some x := by
      rw [← Option.ne_none_iff_exists']
      intro none
      rw [sweptOf_eq_none_iff.mp none one mem] at other
      cases other
    have clear := clear_defaultSpec apart (fun one mem => (short one mem).1) swept gates
    have rules : (defaultSpec found).ServerRules py := serverRules_defaultSpec some few short
    obtain ⟨received, sends⟩ := ClientSpec.Sends.exists_of_rules rules
    refine ⟨?_, ?_, ClientSpec.problemsOf_eq_nil_iff.mpr clear, received,
      ClientSpec.receive_eq_some_iff.mpr sends, sends.accepted_of_rules clear rules⟩
    · rw [sweeps_defaultSpec apart, swept]
      rfl
    · intro one mem
      have once := List.count_eq_one_of_mem apart (List.mem_map_of_mem mem)
      show ((found.map _).filter _).length = 1
      rw [List.filter_map, List.length_map, ← once, List.count, List.countP_map, List.countP_eq_length_filter]
      congr 2
      funext other
      simp [eq_comm (a := one.name), Bool.beq_eq_decide_eq]

theorem canRun_defaultSpec_iff_chip : ∃ found, detectInterfaces chip .semiconductor = .ok found ∧
    CanRun plain found (defaultSpec found) := by
  obtain ⟨found, detected, some, few⟩ : ∃ found, detectInterfaces chip .semiconductor = .ok found ∧
      found ≠ [] ∧ found.length ≤ 8 ∧ (∃ one ∈ found, isGate one = false) ∧ found.countP isGate ≤ 3 :=
    exists_ok_and (by decide +kernel)
  exact ⟨found, detected, (canRun_defaultSpec_iff plain detected some).mpr few⟩

/-- A gate and nothing else: aluminum on oxide. -/
def gateOnOxide : Structure Rat :=
  { chip with
    regions := [⟨1, 1, "oxide"⟩, ⟨2, 6, "aluminum"⟩]
    elements := [⟨1, 1, [0, 1, 2], [1, -1022, -1022], [0, 0]⟩, ⟨2, 2, [2, 1, 3], [-1022, -1022, 0], [0, 0]⟩] }

theorem not_canRun_defaultSpec : ¬ ∀ (py : Python) (s : Structure Rat) (gateModel : GateModel)
    (found : List Electrode), detectInterfaces s gateModel = .ok found → found ≠ [] →
      CanRun py found (defaultSpec found) := by
  intro all
  obtain ⟨found, detected, some, unswept⟩ : ∃ found, detectInterfaces gateOnOxide .semiconductor = .ok found ∧
      found ≠ [] ∧ ((defaultSpec found).biases.filter (·.role = .sweep)).length ≠ 1 :=
    exists_ok_and (by decide)
  exact unswept (all plain _ _ found detected some).sweep

end TcadWebapp.Devsim
