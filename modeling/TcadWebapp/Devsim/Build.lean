import TcadWebapp.Devsim.Resolve

/-!
# From the specification to what crosses over

`devsim/payload.py`: `build_payload`, as far as the runner's solver reads its result. The
doping is left out, and with it what can be wrong with the values of the structure's points.
-/

namespace TcadWebapp.Devsim

open StrParser

/-- `_bias_of_electrode`. -/
def biasOfElectrode (spec : DeviceSpec) : Dict String String :=
  Dict.ofList (spec.biases.map fun bias => (bias.electrode, bias.name))

/-- `bias.points()[0]`. -/
def firstPoint (bias : Bias) : Except Exn Volt := index bias.points 0

/-- An item of `constants`. -/
def constantOf (bias : Bias) : Except Exn (String × Volt) := do
  let value ← firstPoint bias
  .ok (bias.name, value)

/-- `plan` (`payload.py:79-91`). -/
def planOf (spec : DeviceSpec) : Except Exn Plan := do
  match found : spec.sweepBias with
  | none => .error .stopIteration
  | some sweep =>
    let constants ← spec.constBiases.mapM constantOf
    .ok {
      sweepBias := sweep.name
      sweepValues := sweep.points
      steps := spec.stepCombinations
      constants := Dict.ofList constants
      floating := spec.floatingBiases.map Bias.name
      total := spec.totalPoints
      total_eq := by simp [DeviceSpec.totalPoints, found, Nat.mul_comm] }

/-- An entry of `contacts`. -/
def contactOf (biases : Dict String String) (contact : ContactSpec) : Except Exn Contact := do
  let bias ← lookup biases contact.electrode
  .ok ⟨contact.name, contact.electrode, contact.region, bias⟩

/-- `build_payload` (`payload.py:69-129`); no electrodes given means that they are looked
up. -/
def buildPayload (py : Python) (s : Structure Rat) (spec : DeviceSpec)
    (electrodes : List Electrode) : Except Exn Payload := do
  let resolved ← if electrodes = [] then resolveElectrodes py s spec else .ok electrodes
  let mesh ← buildDeviceMesh s resolved spec.gateModel
  let plan ← planOf spec
  let contacts ← mesh.contacts.mapM (contactOf (biasOfElectrode spec))
  .ok ⟨mesh.regions.map fun region => ⟨region.name, region.isSemiconductor⟩, contacts, plan⟩

/-! ## A small device -/

/-- A silicon triangle over the back side, with aluminum on its two other edges. -/
def chip : Structure Rat where
  version := ""
  dimension := 2
  verticesPerElement := 3
  neighborsPerElement := 3
  coordinates := [⟨1, 0, 1⟩, ⟨2, 2, 1⟩, ⟨3, 1, 0⟩, ⟨4, 2, 0⟩, ⟨5, 0, 0⟩]
  regions := [⟨1, 3, "silicon"⟩, ⟨2, 6, "aluminum"⟩]
  elements := [⟨1, 1, [0, 1, 2], [1, 2, -1023], [0, 0]⟩,
    ⟨2, 2, [2, 1, 3], [-1022, -1022, 0], [0, 0]⟩, ⟨3, 2, [0, 2, 4], [-1022, -1022, 0], [0, 0]⟩]
  solutions := []
  species := []
  temperature := Option.none
  warnings := []

/-- The source at 1 V, the body stepped to 2 V, the drain swept over 0 V. -/
def steppedBody (source body : String) : DeviceSpec where
  electrodes := [⟨"source", ["source"]⟩, ⟨"drain", ["drain"]⟩, ⟨"body", ["body"]⟩]
  biases := [⟨source, "source", .const, some 1, none, none⟩,
    ⟨body, "body", .step, none, some [2], none⟩, ⟨"Vd", "drain", .sweep, none, some [0], none⟩]
  gateModel := .semiconductor

end TcadWebapp.Devsim
