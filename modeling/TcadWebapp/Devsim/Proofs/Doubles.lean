import Mathlib.Algebra.Order.Field.Rat
import TcadWebapp.Devsim.Doubles
import TcadWebapp.Devsim.Proofs.ClientSpec

/-!
# Numbers that are accepted

A specification that the server accepts holds doubles within their limits, and can be read back
from its dump, unless a list of voltages holds a NaN (`Usable`). Of a range it is the last point
that may be rounded past the limit.
-/

namespace TcadWebapp.Devsim

variable {fl : Rat → Rat} {py : Python}

/-- What is relied on of rounding to the nearest double. -/
structure Rounds (fl : Rat → Rat) : Prop where
  mono : Monotone fl
  idem : ∀ x, fl (fl x) = fl x
  zero : fl 0 = 0

/-! ## The points of a range -/

/-- The last point of a range, rounded: in exact arithmetic it is `stop`. -/
def lastPoint (fl : Rat → Rat) (range : SweepRange) : Rat :=
  fl (range.start + fl (fl (fl (range.stop - range.start) * (range.points - 1)) / (range.points - 1)))

/-- Where the expansion of a range is at an index. -/
def pointAt (fl : Rat → Rat) (start span steps index : Rat) : Rat := fl (start + fl (fl (span * index) / steps))

theorem pointAt_le (mono : Monotone fl) (start : Rat) {span steps i j : Rat} (hs : 0 ≤ steps)
    (h : span * i ≤ span * j) : pointAt fl start span steps i ≤ pointAt fl start span steps j := by
  apply mono
  have := mono (div_le_div_of_nonneg_right (mono h) hs)
  linarith

theorem pointAt_zero (rounds : Rounds fl) {start : Rat} (exact_start : fl start = start) (span steps : Rat) :
    pointAt fl start span steps 0 = start := by
  rw [pointAt, mul_zero, rounds.zero, zero_div, rounds.zero, add_zero, exact_start]

/-- The points lie between the first and the last. -/
theorem pointAt_between (rounds : Rounds fl) (span : Rat) {start steps i : Rat} (exact_start : fl start = start)
    (low : 0 ≤ i) (high : i ≤ steps) :
    min start (pointAt fl start span steps steps) ≤ pointAt fl start span steps i ∧
      pointAt fl start span steps i ≤ max start (pointAt fl start span steps steps) := by
  have hs : 0 ≤ steps := low.trans high
  have first := pointAt_zero rounds exact_start span steps
  rcases le_total 0 span with up | down
  · have above := pointAt_le rounds.mono start hs (mul_le_mul_of_nonneg_left low up)
    have below := pointAt_le rounds.mono start hs (mul_le_mul_of_nonneg_left high up)
    rw [first] at above
    exact ⟨min_le_of_left_le above, le_max_of_le_right below⟩
  · have below := pointAt_le rounds.mono start hs (mul_le_mul_of_nonpos_left low down)
    have above := pointAt_le rounds.mono start hs (mul_le_mul_of_nonpos_left high down)
    rw [first] at below
    exact ⟨min_le_of_right_le above, le_max_of_le_left below⟩

/-- A range stays within a limit just if its last point does. -/
theorem roundedSweep_within_iff (rounds : Rounds fl) {range : SweepRange} {limit : Rat}
    (exact_start : fl range.start = range.start) (start : |range.start| ≤ limit) :
    (∀ v ∈ roundedSweep fl range.start range.stop range.points, |v| ≤ limit) ↔
      (2 ≤ range.points → range.start ≠ range.stop → |lastPoint fl range| ≤ limit) := by
  have points (index : Nat) : fl (range.start +
      fl (fl (fl (range.stop - range.start) * index) / (range.points - 1 : Rat))) =
        pointAt fl range.start (fl (range.stop - range.start)) (range.points - 1) index := rfl
  have last : lastPoint fl range =
      pointAt fl range.start (fl (range.stop - range.start)) (range.points - 1) (range.points - 1) := rfl
  unfold roundedSweep
  split
  · rename_i none
    exact ⟨fun _ two => absurd none (by omega), fun _ => nofun⟩
  · split
    · rename_i one
      refine ⟨fun _ two differ => ?_, fun _ => by simpa using start⟩
      rcases one with one | same
      · omega
      · exact absurd same differ
    · rename_i some several
      rw [not_or] at several
      have two : 2 ≤ range.points := by omega
      have count : ((range.points - 1 : Nat) : Rat) = range.points - 1 := by
        rw [Nat.cast_sub (by omega), Nat.cast_one]
      constructor
      · intro all _ _
        rw [last]
        refine all _ (List.mem_map.mpr ⟨range.points - 1, List.mem_range.mpr (by omega), ?_⟩)
        rw [points, count]
      · intro within v hv
        obtain ⟨index, hindex, rfl⟩ := List.mem_map.mp hv
        have within := within two several.2
        rw [last, abs_le] at within
        have high : (index : Rat) ≤ range.points - 1 := by
          rw [← count, Nat.cast_le]
          have := List.mem_range.mp hindex
          omega
        obtain ⟨above, below⟩ := pointAt_between rounds (fl (range.stop - range.start)) exact_start
          (Nat.cast_nonneg index) high
        rw [points, abs_le]
        exact ⟨(le_min (abs_le.mp start).1 within.1).trans above, below.trans (max_le (abs_le.mp start).2 within.2)⟩

/-! ## Reading and dumping -/

/-- A double that a voltage can be. -/
structure IsVolt (fl : Rat → Rat) (x : Rat) : Prop where
  double : fl x = x
  within : |x| ≤ maxAbsVolts

theorem lt_overflow {x : Rat} (h : |x| ≤ maxAbsVolts) : |x| < Double.overflow :=
  h.trans_lt (by decide +kernel)

theorem isVolt_of_readVolt (rounds : Rounds fl) {number : Option Double} {x : Rat}
    (h : readVolt fl number = some x) : IsVolt fl x := by
  obtain ⟨d, -, h⟩ := Option.bind_eq_some_iff.mp h
  cases d with
  | nan => cases h
  | inf negative => cases h
  | finite y =>
    rw [Double.read] at h
    split at h
    · cases h
    · rw [Double.between] at h
      split at h
      · rename_i range
        obtain rfl := Option.some.inj h
        exact ⟨rounds.idem y, abs_le.mpr range⟩
      · cases h

theorem readVolt_finite {x : Rat} (h : IsVolt fl x) : readVolt fl (some (.finite x)) = some x := by
  show (Double.read fl (.finite x)).between (-maxAbsVolts) maxAbsVolts = some x
  rw [Double.read, if_neg (not_le.mpr (lt_overflow h.within)), h.double, Double.between,
    if_pos (abs_le.mp h.within)]

/-- Reading a double leaves a double. -/
theorem double_of_read (rounds : Rounds fl) {d : Double} {x : Rat} (h : d.read fl = .finite x) : fl x = x := by
  cases d with
  | nan => cases h
  | inf negative => cases h
  | finite y =>
    rw [Double.read] at h
    split at h
    · cases h
    · obtain rfl := Double.finite.inj h
      exact rounds.idem y

theorem exists_of_readOptional {α β : Type} {read : α → Option β} {a : Option α} {b : Option β}
    (h : readOptional read a = some b) {y : β} (hy : y ∈ b) : ∃ x ∈ a, read x = some y := by
  cases a with
  | none =>
    obtain rfl := Option.some.inj h
    cases hy
  | some x =>
    obtain ⟨y', found, rfl⟩ := Option.map_eq_some_iff.mp h
    obtain rfl := Option.some.inj hy
    exact ⟨x, rfl, found⟩

theorem readOptional_map {α β : Type} {read : α → Option β} {f : β → α} {b : Option β}
    (h : ∀ y ∈ b, read (f y) = some y) : readOptional read (b.map f) = some b := by
  cases b with
  | none => rfl
  | some y =>
    show (read (f y)).map some = _
    rw [h y rfl]
    rfl

/-- The numbers of a bias, as they are after reading. -/
structure DoubleBias.IsRead (fl : Rat → Rat) (bias : DoubleBias) : Prop where
  value : ∀ v ∈ bias.value, IsVolt fl v
  values : ∀ values ∈ bias.values, ∀ x, .finite x ∈ values → fl x = x
  sweep : ∀ range ∈ bias.sweep, IsVolt fl range.start ∧ IsVolt fl range.stop ∧ 0 < range.points

theorem isRead_of_read (rounds : Rounds fl) {sent : BodyBias} {bias : DoubleBias}
    (h : sent.read fl = some bias) : bias.IsRead fl := by
  obtain ⟨value, hvalue, h⟩ := Option.bind_eq_some_iff.mp h
  obtain ⟨values, hvalues, h⟩ := Option.bind_eq_some_iff.mp h
  obtain ⟨sweep, hsweep, h⟩ := Option.bind_eq_some_iff.mp h
  obtain rfl := Option.some.inj h
  refine ⟨?_, ?_, ?_⟩
  · intro v hv
    obtain ⟨number, -, read⟩ := exists_of_readOptional hvalue hv
    exact isVolt_of_readVolt rounds read
  · intro list hl x hx
    obtain ⟨numbers, -, read⟩ := exists_of_readOptional hvalues hl
    obtain ⟨number, -, read⟩ := exists_of_mem_right (mapM_eq_some_iff.mp read) hx
    obtain ⟨d, -, read⟩ := Option.map_eq_some_iff.mp read
    exact double_of_read rounds read
  · intro range hr
    obtain ⟨sent, -, read⟩ := exists_of_readOptional hsweep hr
    obtain ⟨start, hstart, read⟩ := Option.bind_eq_some_iff.mp read
    obtain ⟨stop, hstop, read⟩ := Option.bind_eq_some_iff.mp read
    obtain ⟨points, -, read⟩ := Option.bind_eq_some_iff.mp read
    cases points with
    | nan => cases read
    | inf negative => cases read
    | finite x =>
      obtain ⟨count, -, read⟩ := Option.bind_eq_some_iff.mp read
      split at read
      · rename_i pos
        obtain rfl := Option.some.inj read
        exact ⟨isVolt_of_readVolt rounds hstart, isVolt_of_readVolt rounds hstop, pos⟩
      · cases read

theorem SweepRange.read_dump {range : SweepRange} (start : IsVolt fl range.start) (stop : IsVolt fl range.stop)
    (pos : 0 < range.points) : range.dump.read fl = some range := by
  have points : intOf (range.points : Rat) = some range.points := intOf_eq_some_iff.mpr rfl
  unfold BodySweep.read SweepRange.dump
  simp [readVolt_finite start, readVolt_finite stop, points, pos]

/-- A bias whose voltages are in range is read back from its dump. -/
theorem DoubleBias.read_dump {bias : DoubleBias} (read : bias.IsRead fl)
    (volts : ∀ values ∈ bias.values, ∀ d ∈ values, ∃ x, d = .finite x ∧ |x| ≤ maxAbsVolts) :
    bias.dump.read fl = some bias := by
  have value : readOptional (fun number => readVolt fl (some number)) (bias.value.map .finite) =
      some bias.value := readOptional_map fun v hv => readVolt_finite (read.value v hv)
  have values : readOptional (List.mapM fun number : Option Double => number.map (Double.read fl))
      (bias.values.map fun values => values.map Double.dump) = some bias.values := by
    refine readOptional_map fun list hl => ?_
    rw [mapM_eq_some_iff, List.forall₂_map_left_iff, List.forall₂_same]
    intro d hd
    obtain ⟨x, rfl, within⟩ := volts list hl d hd
    show some (Double.read fl (.finite x)) = _
    rw [Double.read, if_neg (not_le.mpr (lt_overflow within)), read.values list hl x hd]
  have sweep : readOptional (BodySweep.read fl) (bias.sweep.map SweepRange.dump) = some bias.sweep :=
    readOptional_map fun range hr => SweepRange.read_dump (read.sweep range hr).1 (read.sweep range hr).2.1
      (read.sweep range hr).2.2
  unfold BodyBias.read DoubleBias.dump
  simp only [value, values, sweep]
  rfl

/-- A NaN is written as `null`, which is no number. -/
theorem DoubleBias.nan_notMem_of_read_dump {bias bias' : DoubleBias} (h : bias.dump.read fl = some bias')
    {values : List Double} (hv : bias.values = some values) : Double.nan ∉ values := by
  intro mem
  obtain ⟨value, -, h⟩ := Option.bind_eq_some_iff.mp h
  obtain ⟨list, read, -⟩ := Option.bind_eq_some_iff.mp h
  unfold DoubleBias.dump at read
  rw [hv] at read
  obtain ⟨doubles, read, -⟩ := Option.map_eq_some_iff.mp read
  obtain ⟨d, -, read⟩ := exists_of_mem_left (mapM_eq_some_iff.mp read) (List.mem_map_of_mem mem)
  cases read

/-! ## What the validators leave -/

/-- What `_matches_its_role` says of the numbers of a bias. -/
structure DoubleBias.Limited (bias : DoubleBias) : Prop where
  ranged : bias.role = .sweep → bias.sweep ≠ none → bias.values.getD [] = []
  values : ∀ d ∈ bias.values.getD [], d.exceeds maxAbsVolts = false

theorem DoubleBias.limited_of_ok {bias : DoubleBias} (h : bias.matchesItsRole = .ok ()) : bias.Limited := by
  obtain ⟨-, h⟩ := check_bind_eq_ok.mp h
  obtain ⟨-, h⟩ := check_bind_eq_ok.mp h
  obtain ⟨-, h⟩ := check_bind_eq_ok.mp h
  obtain ⟨both, h⟩ := check_bind_eq_ok.mp h
  obtain ⟨-, h⟩ := check_bind_eq_ok.mp h
  obtain ⟨-, h⟩ := check_bind_eq_ok.mp h
  rw [decide_eq_false_iff_not] at both
  rw [check_eq_ok, List.any_eq_false] at h
  refine ⟨?_, fun d hd => Bool.not_eq_true _ ▸ h d hd⟩
  intro role swept
  by_contra given
  exact both ⟨role, swept, given⟩

/-- A double that is a voltage within the limit. -/
def Double.Within (d : Double) : Prop := ∃ x, d = .finite x ∧ |x| ≤ maxAbsVolts

theorem Double.within_of_not_exceeds {d : Double} (number : d ≠ .nan) (h : d.exceeds maxAbsVolts = false) :
    d.Within := by
  cases d with
  | nan => exact absurd rfl number
  | inf negative => cases h
  | finite x => exact ⟨x, rfl, not_lt.mp (of_decide_eq_false h)⟩

/-- No list of voltages holds a NaN, and the last point of the range that is swept is within the limit. -/
structure DoubleSpec.Faultless (fl : Rat → Rat) (spec : DoubleSpec) : Prop where
  numbers : ∀ bias ∈ spec.biases, ∀ values ∈ bias.values, Double.nan ∉ values
  ranges : ∀ sweep ∈ spec.sweepBias, ∀ range ∈ sweep.sweep, 2 ≤ range.points → range.start ≠ range.stop →
    |lastPoint fl range| ≤ maxAbsVolts

theorem values_within {bias : DoubleBias} (limited : bias.Limited)
    (numbers : ∀ values ∈ bias.values, Double.nan ∉ values) : ∀ d ∈ bias.values.getD [], d.Within := by
  intro d hd
  refine Double.within_of_not_exceeds ?_ (limited.values d hd)
  rintro rfl
  cases e : bias.values with
  | none => simp [e] at hd
  | some values =>
    rw [e] at hd
    exact numbers values e hd

/-- The points of a bias that is not swept over a range. -/
theorem points_within {bias : DoubleBias} (read : bias.IsRead fl) (limited : bias.Limited)
    (numbers : ∀ values ∈ bias.values, Double.nan ∉ values) (role : bias.role ≠ .sweep) :
    ∀ d ∈ bias.points fl, d.Within := by
  unfold DoubleBias.points
  cases e : bias.role with
  | sweep => exact absurd e role
  | float => simp
  | step => exact values_within limited numbers
  | const =>
    intro d hd
    obtain rfl := List.mem_singleton.mp hd
    refine ⟨_, rfl, ?_⟩
    cases given : bias.value with
    | none => decide
    | some v => exact (read.value v given).within

/-- The points of the sweep are within the limit just if they hold no NaN and the last of a range is. -/
theorem sweep_within_iff (rounds : Rounds fl) {bias : DoubleBias} (read : bias.IsRead fl) (limited : bias.Limited)
    (role : bias.role = .sweep) (numbers : ∀ values ∈ bias.values, Double.nan ∉ values) :
    (∀ d ∈ bias.points fl, d.Within) ↔ ∀ range ∈ bias.sweep, 2 ≤ range.points → range.start ≠ range.stop →
      |lastPoint fl range| ≤ maxAbsVolts := by
  unfold DoubleBias.points
  rw [role]
  dsimp only
  cases swept : bias.sweep with
  | none =>
    refine ⟨fun _ => nofun, fun _ => ?_⟩
    split
    · exact values_within limited numbers
    · simp
  | some range =>
    have given := limited.ranged role (by simp [swept])
    rw [given, if_neg (by simp)]
    have start := (read.sweep range swept).1
    have points := roundedSweep_within_iff rounds start.double start.within
    simp only [Option.mem_some_iff, forall_eq', ← points, List.forall_mem_map, Double.Within, Double.finite.injEq,
      exists_eq_left']

/-! ## Plans -/

theorem mem_of_mem_combinations {α : Type} {lists : List (List α)} {choice : List α}
    (h : choice ∈ combinations lists) {a : α} (ha : a ∈ choice) : ∃ list ∈ lists, a ∈ list := by
  induction lists generalizing choice with
  | nil =>
    rw [List.mem_singleton.mp h] at ha
    cases ha
  | cons list lists ih =>
    obtain ⟨value, hv, h⟩ := List.mem_flatMap.mp h
    obtain ⟨rest, hr, rfl⟩ := List.mem_map.mp h
    rcases List.mem_cons.mp ha with rfl | ha
    · exact ⟨list, List.mem_cons_self, hv⟩
    · obtain ⟨list', hl, ha⟩ := ih hr ha
      exact ⟨list', List.mem_cons_of_mem _ hl, ha⟩

namespace DoubleSpec

variable {spec : DoubleSpec}

theorem mem_of_mem_stepCombinations {combination : Dict String Double}
    (h : combination ∈ spec.stepCombinations fl) {entry : String × Double} (he : entry ∈ combination.entries) :
    ∃ bias ∈ spec.biases, bias.role = .step ∧ entry.2 ∈ bias.points fl := by
  unfold stepCombinations at h
  split at h
  · rw [List.mem_singleton.mp h] at he
    cases he
  · obtain ⟨choice, hc, rfl⟩ := List.mem_map.mp h
    have paired := Dict.mem_of_get?_ofList (Dict.get?_eq_some.mpr he)
    obtain ⟨list, hl, mem⟩ := mem_of_mem_combinations hc (List.of_mem_zip paired).2
    obtain ⟨bias, hb, rfl⟩ := List.mem_map.mp hl
    obtain ⟨hb, role⟩ := List.mem_filter.mp hb
    exact ⟨bias, hb, of_decide_eq_true role, mem⟩

theorem exists_sweep (accepted : spec.Accepted fl py) : ∃ sweep, spec.sweepBias = some sweep := by
  obtain ⟨-, h⟩ := check_bind_eq_ok.mp accepted.consistent
  obtain ⟨-, -, h⟩ := bind_eq_ok.mp h
  obtain ⟨sweeps, -⟩ := check_bind_eq_ok.mp h
  rw [decide_eq_false_iff_not, not_not] at sweeps
  obtain ⟨sweep, one⟩ := List.length_eq_one_iff.mp sweeps
  refine ⟨sweep, ?_⟩
  rw [sweepBias, ← List.head?_filter, one]
  rfl

theorem mem_of_sweepBias {sweep : DoubleBias} (h : spec.sweepBias = some sweep) :
    sweep ∈ spec.biases ∧ sweep.role = .sweep :=
  ⟨List.mem_of_find?_eq_some h, by simpa using List.find?_some h⟩

/-- The plan of a specification with a sweep. -/
theorem plan_spec (fl : Rat → Rat) {sweep : DoubleBias} (h : spec.sweepBias = some sweep) :
    ∃ plan, spec.plan fl = .ok plan ∧ plan.sweepValues = sweep.points fl ∧ plan.steps = spec.stepCombinations fl ∧
      ∀ entry ∈ plan.constants.entries, ∃ bias ∈ spec.biases, bias.role = .const ∧ entry.2 ∈ bias.points fl := by
  have constant : ∀ bias ∈ spec.constBiases,
      (do let value ← index (bias.points fl) 0; .ok (bias.name, value) : Except Exn (String × Double)) =
        .ok (bias.name, .finite (bias.value.getD 0)) := by
    intro bias mem
    rw [DoubleBias.points, of_decide_eq_true (List.mem_filter.mp mem).2]
    rfl
  have collected : (spec.constBiases.mapM fun bias => do
      let value ← index (bias.points fl) 0
      .ok (bias.name, value) : Except Exn (List (String × Double))) =
        .ok (spec.constBiases.map fun bias => (bias.name, .finite (bias.value.getD 0))) := by
    rw [mapM_eq_ok, List.forall₂_map_right_iff, List.forall₂_same]
    exact constant
  refine ⟨⟨_, _, Dict.ofList (spec.constBiases.map fun bias => (bias.name, .finite (bias.value.getD 0)))⟩, ?_,
    rfl, rfl, ?_⟩
  · unfold plan
    rw [h]
    dsimp only
    rw [collected]
    rfl
  · intro entry he
    have mem := Dict.mem_of_get?_ofList (Dict.get?_eq_some.mpr he)
    obtain ⟨bias, hb, e⟩ := List.mem_map.mp mem
    obtain ⟨hb, role⟩ := List.mem_filter.mp hb
    have role : bias.role = .const := of_decide_eq_true role
    refine ⟨bias, hb, role, ?_⟩
    rw [DoubleBias.points, role, ← (Prod.mk.inj e).2]
    exact List.mem_singleton_self _

end DoubleSpec

/-- The voltages of the plan are within the limit, so is the temperature, and the dump is read back. -/
structure Usable (fl : Rat → Rat) (py : Python) (spec : DoubleSpec) : Prop where
  plan : ∃ plan, spec.plan fl = .ok plan ∧ (∀ d ∈ plan.sweepValues, d.Within) ∧
    (∀ combination ∈ plan.steps, ∀ entry ∈ combination.entries, entry.2.Within) ∧
      ∀ entry ∈ plan.constants.entries, entry.2.Within
  temperature : 0 < spec.temperatureK ∧ spec.temperatureK ≤ 1000
  again : spec.dump.validate fl py = some spec

theorem readTemperature_eq_some (rounds : Rounds fl) {number : Double} {kelvin : Rat}
    (h : readTemperature fl number = some kelvin) :
    (0 < kelvin ∧ kelvin ≤ 1000) ∧ readTemperature fl (.finite kelvin) = some kelvin := by
  obtain ⟨x, bounded, h⟩ := Option.bind_eq_some_iff.mp h
  split at h
  · cases h
  · rename_i warm
    obtain rfl := Option.some.inj h
    cases read : number.read fl with
    | nan => simp [read, Double.between] at bounded
    | inf negative => simp [read, Double.between] at bounded
    | finite y =>
      rw [read, Double.between] at bounded
      split at bounded
      · rename_i range
        obtain rfl := Option.some.inj bounded
        have pos : 0 < y := lt_of_le_of_ne range.1 (Ne.symm warm)
        have small : |y| < Double.overflow := by
          rw [abs_of_pos pos]
          exact range.2.trans_lt (by decide +kernel)
        refine ⟨⟨pos, range.2⟩, ?_⟩
        rw [readTemperature, Double.read, if_neg (not_le.mpr small), double_of_read rounds read, Double.between,
          if_pos range]
        exact if_neg warm
      · cases bounded

/-- What is read of a body. -/
structure DoubleSpec.IsRead (fl : Rat → Rat) (spec : DoubleSpec) : Prop where
  biases : ∀ bias ∈ spec.biases, bias.IsRead fl
  temperature : (0 < spec.temperatureK ∧ spec.temperatureK ≤ 1000) ∧
    readTemperature fl (.finite spec.temperatureK) = some spec.temperatureK

theorem isRead_of_body (rounds : Rounds fl) {body : Body} {spec : DoubleSpec} (h : body.read fl = some spec) :
    spec.IsRead fl := by
  obtain ⟨biases, hb, h⟩ := Option.bind_eq_some_iff.mp h
  obtain ⟨gateModel, -, h⟩ := Option.bind_eq_some_iff.mp h
  obtain ⟨kelvin, ht, h⟩ := Option.bind_eq_some_iff.mp h
  obtain ⟨label, -, h⟩ := Option.bind_eq_some_iff.mp h
  obtain ⟨structureName, -, h⟩ := Option.bind_eq_some_iff.mp h
  obtain ⟨interfaceNames, -, h⟩ := Option.bind_eq_some_iff.mp h
  obtain rfl := Option.some.inj h
  obtain ⟨number, -, ht⟩ := Option.bind_eq_some_iff.mp ht
  refine ⟨fun bias mem => ?_, readTemperature_eq_some rounds ht⟩
  obtain ⟨sent, -, read⟩ := exists_of_mem_right (mapM_eq_some_iff.mp hb) mem
  exact isRead_of_read rounds read

/-- The dump of a specification is read back just if that of each of its biases is. -/
theorem read_dump_iff {spec : DoubleSpec} (read : spec.IsRead fl) :
    spec.dump.read fl = some spec ↔ ∀ bias ∈ spec.biases, bias.dump.read fl = some bias := by
  have biases : (spec.biases.map DoubleBias.dump).mapM (BodyBias.read fl) = some spec.biases ↔
      ∀ bias ∈ spec.biases, bias.dump.read fl = some bias := by
    rw [mapM_eq_some_iff, List.forall₂_map_left_iff, List.forall₂_same]
  rw [← biases]
  unfold Body.read DoubleSpec.dump
  dsimp only
  constructor
  · intro h
    obtain ⟨biases, hb, h⟩ := Option.bind_eq_some_iff.mp h
    simp only [Js.orDefault, Option.bind_some, read.temperature.2, Option.bind_eq_bind] at h
    rw [hb, ← Option.some.inj h]
  · intro h
    rw [h]
    simp [Js.orDefault, read.temperature.2]

/-- What is accepted is usable just if no list of voltages holds a NaN and no range is rounded past the
limit at its end. -/
theorem usable_iff (rounds : Rounds fl) {body : Body} {spec : DoubleSpec} (h : body.validate fl py = some spec) :
    Usable fl py spec ↔ spec.Faultless fl := by
  obtain ⟨hread, accepted⟩ := Option.filter_eq_some_iff.mp h
  have accepted : spec.Accepted fl py := of_decide_eq_true accepted
  have read := isRead_of_body rounds hread
  have limited : ∀ bias ∈ spec.biases, bias.Limited := fun bias mem =>
    DoubleBias.limited_of_ok (accepted.biasFields bias mem).role
  obtain ⟨sweep, swept⟩ := DoubleSpec.exists_sweep accepted
  obtain ⟨mem, role⟩ := DoubleSpec.mem_of_sweepBias swept
  obtain ⟨plan, planned, values, steps, constants⟩ := DoubleSpec.plan_spec fl swept
  constructor
  · intro usable
    obtain ⟨again, -⟩ := Option.filter_eq_some_iff.mp usable.again
    have numbers : ∀ bias ∈ spec.biases, ∀ values ∈ bias.values, Double.nan ∉ values :=
      fun bias mem _ hv => DoubleBias.nan_notMem_of_read_dump ((read_dump_iff read).mp again bias mem) hv
    refine ⟨numbers, ?_⟩
    intro sweep' swept'
    obtain rfl := Option.some.inj (swept.symm.trans swept')
    refine (sweep_within_iff rounds (read.biases sweep mem) (limited sweep mem) role (numbers sweep mem)).mp ?_
    obtain ⟨plan', planned', within, -⟩ := usable.plan
    obtain rfl := Except.ok.inj (planned.symm.trans planned')
    exact values ▸ within
  · intro faultless
    have others : ∀ bias ∈ spec.biases, bias.role ≠ .sweep → ∀ d ∈ bias.points fl, d.Within :=
      fun bias mem role => points_within (read.biases bias mem) (limited bias mem) (faultless.numbers bias mem) role
    refine ⟨⟨plan, planned, ?_, ?_, ?_⟩, read.temperature.1, ?_⟩
    · rw [values]
      exact (sweep_within_iff rounds (read.biases sweep mem) (limited sweep mem) role
        (faultless.numbers sweep mem)).mpr (faultless.ranges sweep swept)
    · intro combination hc entry he
      rw [steps] at hc
      obtain ⟨bias, hb, step, there⟩ := DoubleSpec.mem_of_mem_stepCombinations hc he
      exact others bias hb (by simp [step]) _ there
    · intro entry he
      obtain ⟨bias, hb, const, there⟩ := constants entry he
      exact others bias hb (by simp [const]) _ there
    · refine Option.filter_eq_some_iff.mpr ⟨(read_dump_iff read).mpr fun bias hb => ?_, decide_eq_true accepted⟩
      refine DoubleBias.read_dump (read.biases bias hb) fun list hl d hd => ?_
      have within := values_within (limited bias hb) (faultless.numbers bias hb) d
      rw [show bias.values = some list from hl] at within
      exact within hd

/-- A range from 0 V to 1 V, and one step. -/
def steppedTo (step : Double) : Body where
  electrodes := [⟨"drain", ["drain"]⟩, ⟨"gate", ["gate"]⟩]
  biases := [⟨"Vd", "drain", .sweep, none, none, some ⟨some (.finite 0), some (.finite 1), some (.finite 2)⟩⟩,
    ⟨"Vg", "gate", .step, none, some [some step], none⟩]
  gateModel := .undefined
  temperatureK := .undefined
  label := .undefined
  structureName := .undefined
  interfaceNames := .undefined

theorem rounds_id : Rounds id := ⟨monotone_id, fun _ => rfl, rfl⟩

theorem usable_iff_steppedTo : ∃ spec, (steppedTo (.finite 5)).validate id plain = some spec ∧
    Usable id plain spec := by
  obtain ⟨spec, accepted, numbers, ranges⟩ : ∃ spec ∈ (steppedTo (.finite 5)).validate id plain,
      (∀ bias ∈ spec.biases, ∀ values ∈ bias.values, Double.nan ∉ values) ∧
        ∀ sweep ∈ spec.sweepBias, ∀ range ∈ sweep.sweep, |lastPoint id range| ≤ maxAbsVolts := by
    decide +kernel
  refine ⟨spec, accepted, (usable_iff rounds_id accepted).mpr ⟨numbers, ?_⟩⟩
  exact fun sweep hs range hr _ _ => ranges sweep hs range hr

/-- A step to NaN is accepted, and not read back. -/
theorem not_usable : ¬ ∀ (fl : Rat → Rat) (py : Python) (body : Body) (spec : DoubleSpec), Rounds fl →
    body.validate fl py = some spec → Usable fl py spec := by
  intro all
  obtain ⟨spec, accepted, lost⟩ : ∃ spec ∈ (steppedTo .nan).validate id plain,
      (spec.dump.validate id plain).isNone := by
    decide +kernel
  rw [(all id plain _ spec rounds_id accepted).again] at lost
  cases lost

end TcadWebapp.Devsim
