import Mathlib.Data.Rat.Floor
import TcadWebapp.Devsim.Spec

/-!
# The specification in the browser

`features/devsim/deviceSpec.ts`: the specification as the page holds it, the number of its bias
points and the problems that keep it from being sent. Then the two ways it travels: what the
server reads of the request, and the JSON that `StateResponse` sends back.
Numbers are finite, as the number fields of the page let no other through.
-/

namespace TcadWebapp.Devsim

/-- An optional field of a TypeScript object. -/
inductive Js (α : Type) where
  | undefined
  | null
  | value (a : α)
  deriving DecidableEq, Repr

namespace Js

variable {α β : Type}

/-- `x ?? none`. -/
def toOption : Js α → Option α
  | .value a => some a
  | _ => none

/-- How an optional field is sent back: `None` is present as `null`. -/
def ofOption : Option α → Js α
  | some a => .value a
  | none => .null

/-- A field with a default, which may be left out but not be `null`. -/
def orDefault (default : α) : Js α → Option α
  | .undefined => some default
  | .null => none
  | .value a => some a

@[simp] theorem toOption_ofOption (o : Option α) : (ofOption o).toOption = o := by cases o <;> rfl

@[simp] theorem ofOption_ne_undefined (o : Option α) : ofOption o ≠ .undefined := by
  cases o <;> simp [ofOption]

end Js

structure ClientSweep where
  start : Volt
  stop : Volt
  points : Rat
  deriving DecidableEq

structure ClientBias where
  name : String
  electrode : String
  role : BiasRole
  value : Js Volt
  values : Js (List Volt)
  sweep : Js ClientSweep
  deriving DecidableEq

/-- `interface DeviceSpec` (`api/types.ts:304-315`). `structure` is not in the type, but is there
    in what the server sends back. -/
structure ClientSpec where
  label : String
  electrodes : List ElectrodeChoice
  biases : List ClientBias
  gateModel : Js GateModel
  temperatureK : Js Rat
  interfaceNames : Js (Dict String String)
  structureName : Js String

namespace Client

/-- `sweepValues` (`deviceSpec.ts:26-38`). `Array.from` drops the fraction of a length. -/
def sweepValues (start stop : Volt) (points : Rat) : List Volt :=
  if points ≤ 0 then []
  else if points = 1 ∨ start = stop then [start]
  else (List.range ⌊points⌋.toNat).map fun (index : Nat) => start + (stop - start) * index / (points - 1)

end Client

namespace ClientBias

/-- `bias.values ?? []`. -/
def given (bias : ClientBias) : List Volt := bias.values.toOption.getD []

/-- `pointsOf` (`deviceSpec.ts:45-53`). -/
def pointsOf (bias : ClientBias) : List Volt :=
  match bias.role with
  | .const => [bias.value.toOption.getD 0]
  | .step => bias.given
  | _ =>
    if bias.given ≠ [] then bias.given
    else match bias.sweep.toOption with
      | none => []
      | some sweep => Client.sweepValues sweep.start sweep.stop sweep.points

end ClientBias

/-- `pointCount` (`deviceSpec.ts:56-65`). -/
def ClientSpec.pointCount (spec : ClientSpec) : Nat :=
  match spec.biases.find? (·.role = .sweep) with
  | none => 0
  | some sweep =>
    let steps := spec.biases.filter (·.role = .step)
    sweep.pointsOf.length * steps.foldl (fun total bias => total * max 1 bias.pointsOf.length) 1

/-! ## Problems -/

/-- `if (wrong) problems.push(text)`. -/
def pushIf (wrong : Bool) (text : String) : List String := if wrong then [text] else []

@[simp] theorem pushIf_eq_nil {wrong : Bool} {text : String} : pushIf wrong text = [] ↔ wrong = false := by
  cases wrong <;> simp [pushIf]

/-- The loop over the interfaces of one electrode, with `claimed`. An owner that is not there is
    as falsy as an empty name. -/
def claimInterfaces (label : String) :
    List String → Dict String String → List String × Dict String String
  | [], claimed => ([], claimed)
  | key :: keys, claimed =>
    let owner := (claimed.get? key).getD ""
    let rest := claimInterfaces label keys (claimed.set key label)
    (pushIf (owner ≠ "") ("계면 " ++ key ++ " 이(가) 두 전극(" ++ owner ++ ", " ++ label ++
      ")에 걸려 있습니다.") ++ rest.1, rest.2)

def claimAll : List ElectrodeChoice → Dict String String → List String × Dict String String
  | [], claimed => ([], claimed)
  | electrode :: electrodes, claimed =>
    let one := claimInterfaces electrode.label electrode.interfaces claimed
    let rest := claimAll electrodes one.2
    (one.1 ++ rest.1, rest.2)

/-- What is wrong with the voltages of one bias. -/
def ClientBias.problems (bias : ClientBias) : List String :=
  pushIf (bias.role = .step ∧ bias.given = []) (bias.name ++ ": 단계 전압을 하나 이상 넣어 주세요.") ++
  pushIf (bias.role = .sweep ∧ bias.sweep.toOption ≠ none ∧ bias.given ≠ [])
    (bias.name ++ ": 스윕 범위와 전압 목록은 둘 중 하나만 씁니다.") ++
  pushIf (bias.role = .sweep ∧ bias.sweep.toOption = none ∧ bias.given = [])
    (bias.name ++ ": 스윕 범위나 전압 목록을 넣어 주세요.") ++
  -- `!==`: a value that is `null` is a value here
  pushIf (bias.role = .float ∧ (bias.value ≠ .undefined ∨ bias.given ≠ [] ∨ bias.sweep.toOption ≠ none))
    (bias.name ++ ": 부유 전압원에는 전압을 주지 않습니다 (풀어서 얻는 값입니다).")

/-- The loop over the biases, with `driven`. -/
def driveAll : List ClientBias → Dict String String → List String × Dict String String
  | [], driven => ([], driven)
  | bias :: biases, driven =>
    let owner := (driven.get? bias.electrode).getD ""
    let rest := driveAll biases (driven.set bias.electrode bias.name)
    (pushIf (owner ≠ "") ("전극 " ++ bias.electrode ++ " 에 전압원이 둘(" ++ owner ++ ", " ++ bias.name ++
      ") 붙어 있습니다.") ++ bias.problems ++ rest.1, rest.2)

/-- `problemsOf` (`deviceSpec.ts:264-344`). -/
def ClientSpec.problemsOf (spec : ClientSpec) : List String :=
  let labels := spec.electrodes.map ElectrodeChoice.label
  let bare := (spec.electrodes.filter (·.interfaces = [])).map ElectrodeChoice.label
  let driven := driveAll spec.biases ∅
  let undriven := labels.filter fun label => label ∉ driven.2.keys
  pushIf ((spec.biases.filter (·.role = .sweep)).length ≠ 1) "스윕 전압원은 정확히 하나여야 합니다." ++
  pushIf (¬ labels.Nodup) "전극 이름이 겹칩니다." ++
  pushIf (bare ≠ []) ("계면이 안 붙은 전극이 있습니다: " ++ ", ".intercalate bare ++
    ". 단면에서 계면을 눌러 붙여 주세요.") ++
  (claimAll spec.electrodes ∅).1 ++ driven.1 ++
  pushIf (undriven ≠ []) ("전압원이 없는 전극이 있습니다: " ++ ", ".intercalate undriven) ++
  pushIf (spec.pointCount > maxTotalPoints) ("바이어스 점이 " ++ toString spec.pointCount ++ "개입니다. " ++
    toString maxTotalPoints ++ "개까지만 풀 수 있습니다.")

/-! ## Between browser and server -/

/-- A `DeviceSpec` with its other fields. -/
structure StoredSpec extends DeviceSpec where
  temperatureK : Rat
  label : String
  structureName : String
  interfaceNames : Dict String String

/-- `_sane_interface_names` (`spec.py:191-200`). -/
def saneInterfaceNames (py : Python) (names : Dict String String) : Except String Unit := do
  check (names.entries.length > 32) "계면 이름이 너무 많습니다"
  names.entries.forM fun (key, name) => do
    check (key = "" ∨ key.length > 32) ("계면 열쇠가 이상합니다: " ++ py.repr key)
    check (py.strip name = "" ∨ name.length > 32) (key ++ ": 계면 이름은 1~32 자여야 합니다")

/-- What pydantic accepts, all fields counted. -/
structure StoredSpec.Accepted (py : Python) (spec : StoredSpec) : Prop where
  device : spec.toDeviceSpec.Accepted py
  temperatureK : 0 < spec.temperatureK ∧ spec.temperatureK ≤ 1000
  label : 1 ≤ spec.label.length ∧ spec.label.length ≤ 120
  structureName : spec.structureName.length ≤ 255
  interfaceNames : saneInterfaceNames py spec.interfaceNames = .ok ()

instance (py : Python) (spec : StoredSpec) : Decidable (spec.Accepted py) :=
  decidable_of_iff (spec.toDeviceSpec.Accepted py ∧
      (0 < spec.temperatureK ∧ spec.temperatureK ≤ 1000) ∧
      (1 ≤ spec.label.length ∧ spec.label.length ≤ 120) ∧ spec.structureName.length ≤ 255 ∧
      saneInterfaceNames py spec.interfaceNames = .ok ())
    ⟨fun h => ⟨h.1, h.2.1, h.2.2.1, h.2.2.2.1, h.2.2.2.2⟩,
      fun h => ⟨h.device, h.temperatureK, h.label, h.structureName, h.interfaceNames⟩⟩

/-- `points : int`, read of a JSON number; a negative one is refused by `gt=0`. -/
def intOf (points : Rat) : Option Nat :=
  if points.den = 1 ∧ 0 ≤ points.num then some points.num.toNat else none

namespace ClientSweep

def receive (sweep : ClientSweep) : Option SweepRange :=
  (intOf sweep.points).map fun points => ⟨sweep.start, sweep.stop, points⟩

end ClientSweep

/-- The fields of a bias, before any is checked. -/
def ClientBias.receive (bias : ClientBias) : Option Bias :=
  match bias.sweep.toOption with
  | none => some ⟨bias.name, bias.electrode, bias.role, bias.value.toOption, bias.values.toOption, none⟩
  | some sweep => sweep.receive.map fun range =>
    ⟨bias.name, bias.electrode, bias.role, bias.value.toOption, bias.values.toOption, some range⟩

/-- What the server reads of a request: a field left out has its default. -/
def ClientSpec.receive (spec : ClientSpec) : Option StoredSpec := do
  let biases ← spec.biases.mapM ClientBias.receive
  let gateModel ← spec.gateModel.orDefault .semiconductor
  let temperatureK ← spec.temperatureK.orDefault 300
  let structureName ← spec.structureName.orDefault ""
  let interfaceNames ← spec.interfaceNames.orDefault ∅
  some { electrodes := spec.electrodes, biases := biases, gateModel := gateModel,
         temperatureK := temperatureK, label := spec.label, structureName := structureName,
         interfaceNames := interfaceNames }

def SweepRange.sendBack (range : SweepRange) : ClientSweep := ⟨range.start, range.stop, range.points⟩

def Bias.sendBack (bias : Bias) : ClientBias :=
  { name := bias.name, electrode := bias.electrode, role := bias.role,
    value := Js.ofOption bias.value, values := Js.ofOption bias.values,
    sweep := Js.ofOption (bias.sweep.map SweepRange.sendBack) }

/-- `StateResponse`: every field is there. -/
def StoredSpec.sendBack (spec : StoredSpec) : ClientSpec :=
  { label := spec.label, electrodes := spec.electrodes, biases := spec.biases.map Bias.sendBack,
    gateModel := .value spec.gateModel, temperatureK := .value spec.temperatureK,
    interfaceNames := .value spec.interfaceNames, structureName := .value spec.structureName }

end TcadWebapp.Devsim
