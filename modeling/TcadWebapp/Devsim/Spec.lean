import Mathlib.Data.List.Sort
import Mathlib.Data.String.Basic
import Mathlib.Algebra.Order.Ring.Unbundled.Rat
import TcadWebapp.Devsim.Electrodes
import TcadWebapp.Devsim.Run

/-!
# The specification of a device simulation

`devsim/spec.py`: the electrodes and biases that the browser sends, the validators, and the
bias points they stand for. The fields that no other function here reads (temperature, label,
the names shown for interfaces) are left out, as are the texts of pydantic's own field checks.
-/

namespace TcadWebapp.Devsim

/-- `MAX_TOTAL_POINTS` (`spec.py:34`). -/
def maxTotalPoints : Nat := 300

/-- `MAX_SWEEP_POINTS` (`spec.py:37`). -/
def maxSweepPoints : Nat := 200

/-- `MAX_STEP_VALUES` (`spec.py:40`). -/
def maxStepValues : Nat := 16

/-- `MAX_ABS_VOLTS` (`spec.py:43`). -/
def maxAbsVolts : Volt := 100

inductive BiasRole where
  | sweep
  | step
  | const
  | float
  deriving DecidableEq, Repr

structure ElectrodeChoice where
  label : String
  interfaces : List String
  deriving DecidableEq

structure SweepRange where
  start : Volt
  stop : Volt
  points : Nat
  deriving DecidableEq

structure Bias where
  name : String
  electrode : String
  role : BiasRole
  value : Option Volt
  values : Option (List Volt)
  sweep : Option SweepRange
  deriving DecidableEq

structure DeviceSpec where
  electrodes : List ElectrodeChoice
  biases : List Bias
  gateModel : GateModel

/-! ## The bias points -/

/-- `sweep_values` (`spec.py:274-287`). -/
def sweepValues (start stop : Volt) (points : Nat) : List Volt :=
  if points = 0 then []
  else if points = 1 ∨ start = stop then [start]
  else (List.range points).map fun (index : Nat) => start + (stop - start) * index / (points - 1 : Volt)

/-- `Bias.points` (`spec.py:157-170`). -/
def Bias.points (bias : Bias) : List Volt :=
  match bias.role with
  | .float => []
  | .const => [bias.value.getD 0]
  | .step => bias.values.getD []
  | .sweep =>
    if bias.values.getD [] ≠ [] then bias.values.getD []
    else match bias.sweep with
      | some sweep => sweepValues sweep.start sweep.stop sweep.points
      -- the assertion, which `_matches_its_role` keeps
      | none => []

/-- `itertools.product`. -/
def product : List (List Volt) → List (List Volt)
  | [] => [[]]
  | values :: rest => values.flatMap fun value => (product rest).map (value :: ·)

namespace DeviceSpec

def sweepBias (spec : DeviceSpec) : Option Bias := spec.biases.find? (·.role = .sweep)

def stepBiases (spec : DeviceSpec) : List Bias := spec.biases.filter (·.role = .step)

def floatingBiases (spec : DeviceSpec) : List Bias := spec.biases.filter (·.role = .float)

def constBiases (spec : DeviceSpec) : List Bias := spec.biases.filter (·.role = .const)

/-- The choices of one value for each step bias. -/
def stepChoices (spec : DeviceSpec) : List (List Volt) := product (spec.stepBiases.map Bias.points)

/-- `dict(zip((b.name for b in steps), combination))`. -/
def combine (spec : DeviceSpec) (choice : List Volt) : Dict String Volt :=
  Dict.ofList ((spec.stepBiases.map Bias.name).zip choice)

/-- `DeviceSpec.step_combinations` (`spec.py:212-220`). -/
def stepCombinations (spec : DeviceSpec) : List (Dict String Volt) :=
  if spec.stepBiases = [] then [∅] else spec.stepChoices.map spec.combine

/-- `total_points` (`spec.py:290-292`). -/
def totalPoints (spec : DeviceSpec) : Nat :=
  ((spec.sweepBias.map Bias.points).getD []).length * spec.stepCombinations.length

end DeviceSpec

/-! ## Validation -/

/-- `raise ValueError(text)` if something is wrong. -/
def check (wrong : Bool) (text : String) : Except String Unit :=
  if wrong then .error text else .ok ()

@[simp] theorem check_eq_ok {wrong : Bool} {text : String} : check wrong text = .ok () ↔ wrong = false := by
  cases wrong <;> simp [check]

/-- `ElectrodeChoice._no_repeats`. -/
def ElectrodeChoice.noRepeats (choice : ElectrodeChoice) : Except String Unit :=
  check (¬ choice.interfaces.Nodup) (choice.label ++ ": 같은 계면이 여러 번 들어 있습니다")

/-- `Bias._matches_its_role` (`spec.py:127-155`). -/
def Bias.matchesItsRole (bias : Bias) : Except String Unit := do
  let given := bias.values.getD []
  check (bias.role = .const ∧ bias.value = none)
    (bias.name ++ ": 고정 전압원에는 전압이 필요합니다")
  check (bias.role = .step ∧ given = []) (bias.name ++ ": 단계 전압원에는 전압 목록이 필요합니다")
  check (bias.role = .sweep ∧ bias.sweep = none ∧ given = [])
    (bias.name ++ ": 스윕 전압원에는 범위나 전압 목록이 필요합니다")
  check (bias.role = .sweep ∧ bias.sweep ≠ none ∧ given ≠ [])
    (bias.name ++ ": 스윕 범위와 전압 목록은 둘 중 하나만 씁니다")
  check (bias.role = .step ∧ given.length > maxStepValues)
    (bias.name ++ ": 단계 전압은 " ++ toString maxStepValues ++ "개까지입니다")
  check (bias.role = .float ∧ (bias.value ≠ none ∨ given ≠ [] ∨ bias.sweep ≠ none))
    (bias.name ++ ": 부유 전압원에는 전압을 주지 않습니다 (풀어서 얻는 값입니다)")
  check (given.any fun v => |v| > maxAbsVolts) (bias.name ++ ": 전압이 너무 큽니다")

/-- The loop over the interfaces of one electrode, with `owner`. -/
def ownInterfaces (py : Python) (label : String) :
    List String → Dict String String → Except String (Dict String String)
  | [], owner => .ok owner
  | key :: keys, owner => match owner.get? key with
    | some other => .error ("계면 " ++ py.repr key ++ " 가 두 전극(" ++ other ++ ", " ++ label ++
        ")에 걸려 있습니다")
    | none => ownInterfaces py label keys (owner.set key label)

def ownAll (py : Python) :
    List ElectrodeChoice → Dict String String → Except String (Dict String String)
  | [], owner => .ok owner
  | electrode :: rest, owner => do
    let owner ← ownInterfaces py electrode.label electrode.interfaces owner
    ownAll py rest owner

/-- The loop over the biases, with `attached`. -/
def attachAll (py : Python) (known : List String) :
    List Bias → Dict String String → Except String (Dict String String)
  | [], attached => .ok attached
  | bias :: rest, attached =>
    if bias.electrode ∉ known then .error (py.repr bias.electrode ++ " 라는 전극이 없습니다")
    else match attached.get? bias.electrode with
      | some other => .error ("전극 " ++ py.repr bias.electrode ++ " 에 전압원이 둘(" ++ other ++ ", " ++
          bias.name ++ ") 붙어 있습니다")
      | none => attachAll py known rest (attached.set bias.electrode bias.name)

/-- `DeviceSpec._consistent` (`spec.py:225-271`). -/
def DeviceSpec.consistent (py : Python) (spec : DeviceSpec) : Except String Unit := do
  let labels := spec.electrodes.map ElectrodeChoice.label
  check (¬ labels.Nodup) "전극 이름이 겹칩니다"
  let _ ← ownAll py spec.electrodes ∅
  let sweeps := spec.biases.filter (·.role = .sweep)
  check (sweeps.length ≠ 1) "스윕 전압원은 정확히 하나여야 합니다"
  let attached ← attachAll py labels spec.biases ∅
  let loose := labels.filter fun label => label ∉ attached.keys
  check (loose ≠ []) ("전압원이 없는 전극이 있습니다: " ++
    ", ".intercalate (loose.insertionSort (· ≤ ·)))
  check (((sweeps.head?.map Bias.points).getD []).length > maxSweepPoints)
    ("스윕 점이 너무 많습니다(최대 " ++ toString maxSweepPoints ++ ")")
  check (spec.totalPoints > maxTotalPoints)
    ("바이어스 점이 너무 많습니다(최대 " ++ toString maxTotalPoints ++ ")")

/-- The constraints of the fields. -/
def Volt.inRange (v : Volt) : Prop := -maxAbsVolts ≤ v ∧ v ≤ maxAbsVolts

structure Bias.FieldsInRange (bias : Bias) : Prop where
  name : 1 ≤ bias.name.length ∧ bias.name.length ≤ 32
  electrode : 1 ≤ bias.electrode.length ∧ bias.electrode.length ≤ 32
  value : ∀ v, bias.value = some v → v.inRange
  values : (bias.values.getD []).length ≤ maxSweepPoints
  sweep : ∀ range, bias.sweep = some range →
    range.start.inRange ∧ range.stop.inRange ∧ 0 < range.points

structure ElectrodeChoice.FieldsInRange (choice : ElectrodeChoice) : Prop where
  label : 1 ≤ choice.label.length ∧ choice.label.length ≤ 32
  interfaces : choice.interfaces.length ≤ 16

instance (bias : Bias) : Decidable bias.FieldsInRange :=
  decidable_of_iff ((1 ≤ bias.name.length ∧ bias.name.length ≤ 32) ∧
      (1 ≤ bias.electrode.length ∧ bias.electrode.length ≤ 32) ∧
      (∀ v ∈ bias.value, -maxAbsVolts ≤ v ∧ v ≤ maxAbsVolts) ∧
      (bias.values.getD []).length ≤ maxSweepPoints ∧
      ∀ range ∈ bias.sweep, (-maxAbsVolts ≤ range.start ∧ range.start ≤ maxAbsVolts) ∧
        (-maxAbsVolts ≤ range.stop ∧ range.stop ≤ maxAbsVolts) ∧ 0 < range.points)
    ⟨fun h => ⟨h.1, h.2.1, h.2.2.1, h.2.2.2.1, h.2.2.2.2⟩,
      fun h => ⟨h.name, h.electrode, h.value, h.values, h.sweep⟩⟩

instance (choice : ElectrodeChoice) : Decidable choice.FieldsInRange :=
  decidable_of_iff ((1 ≤ choice.label.length ∧ choice.label.length ≤ 32) ∧
      choice.interfaces.length ≤ 16)
    ⟨fun h => ⟨h.1, h.2⟩, fun h => ⟨h.label, h.interfaces⟩⟩

/-- What pydantic accepts as a `DeviceSpec`. -/
structure DeviceSpec.Accepted (py : Python) (spec : DeviceSpec) : Prop where
  electrodes : 1 ≤ spec.electrodes.length ∧ spec.electrodes.length ≤ 16
  biases : 1 ≤ spec.biases.length ∧ spec.biases.length ≤ 8
  electrodeFields : ∀ choice ∈ spec.electrodes, choice.FieldsInRange ∧ choice.noRepeats = .ok ()
  biasFields : ∀ bias ∈ spec.biases, bias.FieldsInRange ∧ bias.matchesItsRole = .ok ()
  consistent : spec.consistent py = .ok ()

instance (py : Python) (spec : DeviceSpec) : Decidable (spec.Accepted py) :=
  decidable_of_iff ((1 ≤ spec.electrodes.length ∧ spec.electrodes.length ≤ 16) ∧
      (1 ≤ spec.biases.length ∧ spec.biases.length ≤ 8) ∧
      (∀ choice ∈ spec.electrodes, choice.FieldsInRange ∧ choice.noRepeats = .ok ()) ∧
      (∀ bias ∈ spec.biases, bias.FieldsInRange ∧ bias.matchesItsRole = .ok ()) ∧
      spec.consistent py = .ok ())
    ⟨fun h => ⟨h.1, h.2.1, h.2.2.1, h.2.2.2.1, h.2.2.2.2⟩,
      fun h => ⟨h.electrodes, h.biases, h.electrodeFields, h.biasFields, h.consistent⟩⟩

end TcadWebapp.Devsim
