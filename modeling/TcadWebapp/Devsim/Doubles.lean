import TcadWebapp.Devsim.ClientSpec

/-!
# The specification with its doubles

`devsim/spec.py` once more, with the numbers that JSON bodies hold: NaN and the infinities can be
read, and what a range is expanded to is rounded. `fl` rounds to the nearest double, a number as
large as no double aside.

The bounds that pydantic checks (`ge`, `le`, `gt`) leave a finite number, which has the type of
one here; a list of numbers has no such bounds. Where a body may hold text for a number, it is the
number that counts.
-/

namespace TcadWebapp.Devsim

/-- A number of a body or a double; those of a body are rational, whatever their digits. -/
inductive Double where
  | nan
  | inf (negative : Bool)
  | finite (x : Rat)
  deriving DecidableEq

namespace Double

/-- From here on the nearest double is an infinity. -/
def overflow : Rat := 2 ^ 1024 - 2 ^ 970

/-- The double that is read for a number. -/
def read (fl : Rat → Rat) : Double → Double
  | .finite x => if overflow ≤ |x| then .inf (x < 0) else .finite (fl x)
  | number => number

/-- `ge=low, le=high`. -/
def between (low high : Rat) : Double → Option Rat
  | .finite x => if low ≤ x ∧ x ≤ high then some x else none
  | _ => none

/-- `abs(v) > limit`, which a NaN is not. -/
def exceeds (limit : Rat) : Double → Bool
  | .finite x => |x| > limit
  | .inf _ => true
  | .nan => false

/-- How `model_dump_json` writes a double: `null` for what JSON has no number for. -/
def dump : Double → Option Double
  | .finite x => some (.finite x)
  | _ => none

end Double

/-! ## Bodies -/

/-- A range of a body; a number that is `null` or not there is `none`. -/
structure BodySweep where
  start : Option Double
  stop : Option Double
  points : Option Double
  deriving DecidableEq

structure BodyBias where
  name : String
  electrode : String
  role : BiasRole
  value : Option Double
  values : Option (List (Option Double))
  sweep : Option BodySweep
  deriving DecidableEq

structure Body where
  electrodes : List ElectrodeChoice
  biases : List BodyBias
  gateModel : Js GateModel
  temperatureK : Js Double
  label : Js String
  structureName : Js String
  interfaceNames : Js (Dict String String)

/-! ## What is read of a body -/

structure DoubleBias where
  name : String
  electrode : String
  role : BiasRole
  value : Option Rat
  values : Option (List Double)
  sweep : Option SweepRange
  deriving DecidableEq

structure DoubleSpec where
  electrodes : List ElectrodeChoice
  biases : List DoubleBias
  gateModel : GateModel
  temperatureK : Rat
  label : String
  structureName : String
  interfaceNames : Dict String String

/-- A voltage with the bounds of its field. -/
def readVolt (fl : Rat → Rat) (number : Option Double) : Option Rat :=
  number.bind fun number => (number.read fl).between (-maxAbsVolts) maxAbsVolts

/-- `SweepRange`. -/
def BodySweep.read (fl : Rat → Rat) (sweep : BodySweep) : Option SweepRange := do
  let start ← readVolt fl sweep.start
  let stop ← readVolt fl sweep.stop
  let points ← sweep.points
  match points with
  | .finite x => do
    let points ← intOf x
    if 0 < points then some ⟨start, stop, points⟩ else none
  | _ => none

/-- A field that may be left out or `null`, and is read otherwise. -/
def readOptional {α β : Type} (read : α → Option β) : Option α → Option (Option β)
  | none => some none
  | some a => (read a).map some

/-- The fields of a `Bias`. -/
def BodyBias.read (fl : Rat → Rat) (bias : BodyBias) : Option DoubleBias := do
  let value ← readOptional (fun number => readVolt fl (some number)) bias.value
  let values ← readOptional (List.mapM fun number : Option Double => number.map (Double.read fl)) bias.values
  let sweep ← readOptional (BodySweep.read fl) bias.sweep
  some ⟨bias.name, bias.electrode, bias.role, value, values, sweep⟩

/-- `temperature_k`, with `gt=0.0, le=1000.0`. -/
def readTemperature (fl : Rat → Rat) (number : Double) : Option Rat := do
  let kelvin ← (number.read fl).between 0 1000
  if kelvin = 0 then none else some kelvin

/-- The fields of a `DeviceSpec`. -/
def Body.read (fl : Rat → Rat) (body : Body) : Option DoubleSpec := do
  let biases ← body.biases.mapM (BodyBias.read fl)
  let gateModel ← body.gateModel.orDefault .semiconductor
  let temperatureK ← (body.temperatureK.orDefault (.finite 300)).bind (readTemperature fl)
  let label ← body.label.orDefault "해석"
  let structureName ← body.structureName.orDefault ""
  let interfaceNames ← body.interfaceNames.orDefault ∅
  some ⟨body.electrodes, biases, gateModel, temperatureK, label, structureName, interfaceNames⟩

/-! ## The bias points -/

/-- `sweep_values`, each operation rounded. -/
def roundedSweep (fl : Rat → Rat) (start stop : Rat) (points : Nat) : List Rat :=
  if points = 0 then []
  else if points = 1 ∨ start = stop then [start]
  else (List.range points).map fun (index : Nat) =>
    fl (start + fl (fl (fl (stop - start) * index) / (points - 1 : Rat)))

/-- `Bias.points`. -/
def DoubleBias.points (fl : Rat → Rat) (bias : DoubleBias) : List Double :=
  match bias.role with
  | .float => []
  | .const => [.finite (bias.value.getD 0)]
  | .step => bias.values.getD []
  | .sweep =>
    if bias.values.getD [] ≠ [] then bias.values.getD []
    else match bias.sweep with
      | some sweep => (roundedSweep fl sweep.start sweep.stop sweep.points).map .finite
      -- the assertion, which `_matches_its_role` keeps
      | none => []

/-- `itertools.product`. -/
def combinations {α : Type} : List (List α) → List (List α)
  | [] => [[]]
  | values :: rest => values.flatMap fun value => (combinations rest).map (value :: ·)

namespace DoubleSpec

def sweepBias (spec : DoubleSpec) : Option DoubleBias := spec.biases.find? (·.role = .sweep)

def stepBiases (spec : DoubleSpec) : List DoubleBias := spec.biases.filter (·.role = .step)

def constBiases (spec : DoubleSpec) : List DoubleBias := spec.biases.filter (·.role = .const)

/-- `step_combinations`. -/
def stepCombinations (fl : Rat → Rat) (spec : DoubleSpec) : List (Dict String Double) :=
  if spec.stepBiases = [] then [∅]
  else (combinations (spec.stepBiases.map (DoubleBias.points fl))).map fun choice =>
    Dict.ofList ((spec.stepBiases.map DoubleBias.name).zip choice)

/-- `total_points`. -/
def totalPoints (fl : Rat → Rat) (spec : DoubleSpec) : Nat :=
  ((spec.sweepBias.map (DoubleBias.points fl)).getD []).length * (spec.stepCombinations fl).length

end DoubleSpec

/-! ## Validation -/

/-- `Bias._matches_its_role`. -/
def DoubleBias.matchesItsRole (bias : DoubleBias) : Except String Unit := do
  let given := bias.values.getD []
  check (bias.role = .const ∧ bias.value = none)
    (bias.name ++ ": 고정 전압원에는 전압이 필요합니다")
  check (bias.role = .step ∧ given = []) (bias.name ++ ": 단계 전압원에는 전압 목록이 필요합니다")
  check (bias.role = .sweep ∧ bias.sweep = none ∧ given = [])
    (bias.name ++ ": 스윕 전압원에는 범위나 전압 목록이 필요합니다")
  check (bias.role = .sweep ∧ bias.sweep ≠ none ∧ given ≠ [])
    (bias.name ++ ": 스윕 범위와 전압 목록은 둘 중 하나만 씁니다")
  check (bias.role = .step ∧ given.length > maxStepValues)
    (bias.name ++ ": 단계 전압은 " ++ toString maxStepValues ++ "개까지입니다")
  check (bias.role = .float ∧ (bias.value ≠ none ∨ given ≠ [] ∨ bias.sweep ≠ none))
    (bias.name ++ ": 부유 전압원에는 전압을 주지 않습니다 (풀어서 얻는 값입니다)")
  check (given.any (Double.exceeds maxAbsVolts)) (bias.name ++ ": 전압이 너무 큽니다")

/-- A bias without its voltages, of which the bookkeeping of names needs none. -/
def DoubleBias.outline (bias : DoubleBias) : Bias := ⟨bias.name, bias.electrode, bias.role, none, none, none⟩

/-- `DeviceSpec._consistent`. -/
def DoubleSpec.consistent (fl : Rat → Rat) (py : Python) (spec : DoubleSpec) : Except String Unit := do
  let labels := spec.electrodes.map ElectrodeChoice.label
  check (¬ labels.Nodup) "전극 이름이 겹칩니다"
  let _ ← ownAll py spec.electrodes ∅
  let sweeps := spec.biases.filter (·.role = .sweep)
  check (sweeps.length ≠ 1) "스윕 전압원은 정확히 하나여야 합니다"
  let attached ← attachAll py labels (spec.biases.map DoubleBias.outline) ∅
  let loose := labels.filter fun label => label ∉ attached.keys
  check (loose ≠ []) ("전압원이 없는 전극이 있습니다: " ++
    ", ".intercalate (loose.insertionSort (· ≤ ·)))
  check (((sweeps.head?.map (DoubleBias.points fl)).getD []).length > maxSweepPoints)
    ("스윕 점이 너무 많습니다(최대 " ++ toString maxSweepPoints ++ ")")
  check (spec.totalPoints fl > maxTotalPoints)
    ("바이어스 점이 너무 많습니다(최대 " ++ toString maxTotalPoints ++ ")")

/-- The lengths of the fields, and the validator of a bias. -/
structure DoubleBias.Accepted (bias : DoubleBias) : Prop where
  name : 1 ≤ bias.name.length ∧ bias.name.length ≤ 32
  electrode : 1 ≤ bias.electrode.length ∧ bias.electrode.length ≤ 32
  values : (bias.values.getD []).length ≤ maxSweepPoints
  role : bias.matchesItsRole = .ok ()

instance (bias : DoubleBias) : Decidable bias.Accepted :=
  decidable_of_iff ((1 ≤ bias.name.length ∧ bias.name.length ≤ 32) ∧
      (1 ≤ bias.electrode.length ∧ bias.electrode.length ≤ 32) ∧
      (bias.values.getD []).length ≤ maxSweepPoints ∧ bias.matchesItsRole = .ok ())
    ⟨fun h => ⟨h.1, h.2.1, h.2.2.1, h.2.2.2⟩, fun h => ⟨h.name, h.electrode, h.values, h.role⟩⟩

/-- What is checked of a specification besides the bounds of its numbers. -/
structure DoubleSpec.Accepted (fl : Rat → Rat) (py : Python) (spec : DoubleSpec) : Prop where
  electrodes : 1 ≤ spec.electrodes.length ∧ spec.electrodes.length ≤ 16
  biases : 1 ≤ spec.biases.length ∧ spec.biases.length ≤ 8
  electrodeFields : ∀ choice ∈ spec.electrodes, choice.FieldsInRange ∧ choice.noRepeats = .ok ()
  biasFields : ∀ bias ∈ spec.biases, bias.Accepted
  label : 1 ≤ spec.label.length ∧ spec.label.length ≤ 120
  structureName : spec.structureName.length ≤ 255
  interfaceNames : saneInterfaceNames py spec.interfaceNames = .ok ()
  consistent : spec.consistent fl py = .ok ()

instance (fl : Rat → Rat) (py : Python) (spec : DoubleSpec) : Decidable (spec.Accepted fl py) :=
  decidable_of_iff ((1 ≤ spec.electrodes.length ∧ spec.electrodes.length ≤ 16) ∧
      (1 ≤ spec.biases.length ∧ spec.biases.length ≤ 8) ∧
      (∀ choice ∈ spec.electrodes, choice.FieldsInRange ∧ choice.noRepeats = .ok ()) ∧
      (∀ bias ∈ spec.biases, bias.Accepted) ∧ (1 ≤ spec.label.length ∧ spec.label.length ≤ 120) ∧
      spec.structureName.length ≤ 255 ∧ saneInterfaceNames py spec.interfaceNames = .ok () ∧
      spec.consistent fl py = .ok ())
    ⟨fun h => ⟨h.1, h.2.1, h.2.2.1, h.2.2.2.1, h.2.2.2.2.1, h.2.2.2.2.2.1, h.2.2.2.2.2.2.1, h.2.2.2.2.2.2.2⟩,
      fun h => ⟨h.electrodes, h.biases, h.electrodeFields, h.biasFields, h.label, h.structureName,
        h.interfaceNames, h.consistent⟩⟩

/-- `DeviceSpec.model_validate_json`. -/
def Body.validate (fl : Rat → Rat) (py : Python) (body : Body) : Option DoubleSpec :=
  (body.read fl).filter fun spec => decide (spec.Accepted fl py)

/-! ## Plans and dumps -/

/-- The voltages of `plan` (`payload.py:79-91`). -/
structure DoublePlan where
  sweepValues : List Double
  steps : List (Dict String Double)
  constants : Dict String Double

/-- `bias.points()[0]` of each constant bias. -/
def DoubleSpec.plan (fl : Rat → Rat) (spec : DoubleSpec) : Except Exn DoublePlan :=
  match spec.sweepBias with
  | none => .error .stopIteration
  | some sweep => do
    let constants ← spec.constBiases.mapM fun bias => do
      let value ← index (bias.points fl) 0
      .ok (bias.name, value)
    .ok ⟨sweep.points fl, spec.stepCombinations fl, Dict.ofList constants⟩

def SweepRange.dump (range : SweepRange) : BodySweep :=
  ⟨some (.finite range.start), some (.finite range.stop), some (.finite range.points)⟩

def DoubleBias.dump (bias : DoubleBias) : BodyBias :=
  ⟨bias.name, bias.electrode, bias.role, bias.value.map .finite, bias.values.map fun values => values.map Double.dump,
    bias.sweep.map SweepRange.dump⟩

/-- `DeviceSpec.model_dump_json`: every field is there. -/
def DoubleSpec.dump (spec : DoubleSpec) : Body where
  electrodes := spec.electrodes
  biases := spec.biases.map DoubleBias.dump
  gateModel := .value spec.gateModel
  temperatureK := .value (.finite spec.temperatureK)
  label := .value spec.label
  structureName := .value spec.structureName
  interfaceNames := .value spec.interfaceNames

end TcadWebapp.Devsim
