import TcadWebapp.Devsim.ClientSpec
import TcadWebapp.Devsim.Resolve
import TcadWebapp.Misc.Lts

/-!
# The page of the device simulation

`features/devsim/DevSimPage.tsx` with what `deviceSpec.ts` makes and edits: the structure and the
gate model that are chosen, the interfaces that are drawn, and the specification under edit.
The interfaces are kept as the server found them; the answer describes each by its name and by
the segments of its edges.
-/

namespace TcadWebapp.Devsim

open StrParser

/-! ## The first specification -/

/-- `DEFAULT_STEPS`. -/
def defaultSteps : List Volt := [1, 2, 4]

/-- `DEFAULT_SWEEP`. -/
def defaultSweep : ClientSweep := ⟨0, 5 / 2, 6⟩

/-- `gates`. -/
def isGate (one : Electrode) : Bool := one.name = "gate" ∨ one.kind = .insulator

/-- `swept`: the rightmost of those that are no gate, before the back side. -/
def sweptOf (interfaces : List Electrode) : Option Electrode :=
  let others := interfaces.filter fun one => !isGate one
  let ordered := others.insertionSort fun a b =>
    a.extent.xMin + a.extent.xMax ≤ b.extent.xMin + b.extent.xMax
  let sweepable := ordered.filter fun one => one.origin ≠ "backside"
  sweepable.getLast?.or ordered.getLast?

def defaultBias (swept : Option Electrode) (one : Electrode) : ClientBias :=
  if isGate one then ⟨"V" ++ one.name, one.name, .step, .undefined, .value defaultSteps, .undefined⟩
  -- `===` of objects; no two interfaces have one name (`nodup_detectInterfaces`)
  else if some one = swept then
    ⟨"V" ++ one.name, one.name, .sweep, .undefined, .undefined, .value defaultSweep⟩
  else ⟨"V" ++ one.name, one.name, .const, .value 0, .undefined, .undefined⟩

/-- `defaultSpec` (`deviceSpec.ts:74-123`). Whatever the interfaces were found under, the gate
    model is that of a semiconductor. -/
def defaultSpec (interfaces : List Electrode) : ClientSpec where
  label := "기본 조건"
  electrodes := interfaces.map fun one => ⟨one.name, [one.name]⟩
  biases := interfaces.map (defaultBias (sweptOf interfaces))
  gateModel := .value .semiconductor
  temperatureK := .undefined
  interfaceNames := .undefined
  structureName := .undefined

/-! ## Editing -/

namespace ClientSpec

/-- The interfaces that the electrodes are made of. -/
def keys (spec : ClientSpec) : List String := spec.electrodes.flatMap ElectrodeChoice.interfaces

def ownerOf (spec : ClientSpec) (key : String) : Option String :=
  (spec.electrodes.find? fun electrode => key ∈ electrode.interfaces).map ElectrodeChoice.label

def assignInterface (spec : ClientSpec) (key label : String) : ClientSpec :=
  if ¬ spec.electrodes.any (·.label = label) then spec
  else if spec.ownerOf key = some label then spec
  else
    { spec with
      electrodes := spec.electrodes.map fun electrode =>
        if electrode.label = label then { electrode with interfaces := electrode.interfaces ++ [key] }
        else { electrode with interfaces := electrode.interfaces.filter (· ≠ key) } }

def unassignInterface (spec : ClientSpec) (key : String) : ClientSpec :=
  { spec with
    electrodes := spec.electrodes.map fun electrode =>
      { electrode with interfaces := electrode.interfaces.filter (· ≠ key) } }

/-- `전극${counter}`, counted up to the first that is free; so many labels cannot take one more
    name than they are. -/
def newLabel (labels : List String) : String :=
  let names := (List.range (labels.length + 1)).map fun k => "전극" ++ toString (labels.length + 1 + k)
  (names.find? (· ∉ labels)).getD ""

def addElectrode (spec : ClientSpec) : ClientSpec :=
  let name := newLabel (spec.electrodes.map ElectrodeChoice.label)
  { spec with
    electrodes := spec.electrodes ++ [⟨name, []⟩]
    biases := spec.biases ++ [⟨"V" ++ name, name, .const, .value 0, .undefined, .undefined⟩] }

def removeElectrode (spec : ClientSpec) (label : String) : ClientSpec :=
  { spec with
    electrodes := spec.electrodes.filter (·.label ≠ label)
    biases := spec.biases.filter (·.electrode ≠ label) }

def renameElectrode (spec : ClientSpec) (src dst : String) : ClientSpec :=
  if dst = "" ∨ spec.electrodes.any (·.label = dst) then spec
  else
    { spec with
      electrodes := spec.electrodes.map fun electrode =>
        if electrode.label = src then { electrode with label := dst } else electrode
      biases := spec.biases.map fun bias =>
        if bias.electrode = src then { bias with electrode := dst } else bias }

/-- `createFor` (`DevSimPage.tsx`). -/
def createFor (spec : ClientSpec) (key : String) : ClientSpec :=
  let grown := spec.addElectrode
  match grown.electrodes.getLast? with
  | some added => grown.assignInterface key added.label
  | none => grown

end ClientSpec

/-! ### Editing with any arguments -/

/-- The label of a new electrode: the one that is asked for, or `전극${counter}`, counted up to the first
    that is free. -/
def freeLabel (labels : List String) (label : Option String) : String :=
  let names := (List.range (labels.length + 1)).map fun k => "전극" ++ toString (labels.length + 2 + k)
  ((label.getD ("전극" ++ toString (labels.length + 1)) :: names).find? (· ∉ labels)).getD ""

/-- `addElectrode(spec, label)`; the page leaves the label out (`addElectrode`). -/
def ClientSpec.addElectrodeAs (spec : ClientSpec) (label : Option String) : ClientSpec :=
  let name := freeLabel (spec.electrodes.map ElectrodeChoice.label) label
  { spec with
    electrodes := spec.electrodes ++ [⟨name, []⟩]
    biases := spec.biases ++ [⟨"V" ++ name, name, .const, .value 0, .undefined, .undefined⟩] }

/-- The exported operations on electrodes. -/
inductive Operation where
  | assignInterface (key label : String)
  | unassignInterface (key : String)
  | addElectrode (label : Option String)
  | removeElectrode (label : String)
  | renameElectrode (src dst : String)
  deriving DecidableEq

def Operation.apply (spec : ClientSpec) : Operation → ClientSpec
  | .assignInterface key label => spec.assignInterface key label
  | .unassignInterface key => spec.unassignInterface key
  | .addElectrode label => spec.addElectrodeAs label
  | .removeElectrode label => spec.removeElectrode label
  | .renameElectrode src dst => spec.renameElectrode src dst

/-- Operations one after the other on the first specification for interfaces with different keys. -/
def editing : Lts ClientSpec Operation where
  start spec := ∃ interfaces : List Electrode,
    (interfaces.map Electrode.name).Nodup ∧ spec = defaultSpec interfaces
  step spec operation := some (operation.apply spec)

/-- What the controls of the page do to a specification. -/
inductive Edit where
  | assign (key label : String)
  | unassign (key : String)
  | create (key : String)
  | add
  | remove (label : String)
  | rename (src dst : String)
  /-- `renameInterface`, whatever it makes of the names that are shown. -/
  | name (names : Js (Dict String String))
  /-- `replaceBias`. -/
  | bias (place : Nat) (one : ClientBias)

namespace Edit

def apply (spec : ClientSpec) : Edit → ClientSpec
  | .assign key label => spec.assignInterface key label
  | .unassign key => spec.unassignInterface key
  | .create key => spec.createFor key
  | .add => spec.addElectrode
  | .remove label => spec.removeElectrode label
  | .rename src dst => spec.renameElectrode src dst
  | .name names => { spec with interfaceNames := names }
  | .bias place one => { spec with biases := spec.biases.set place one }

/-- An interface is picked where it is drawn. -/
def picks (interfaces : List Electrode) : Edit → Bool
  | .assign key _ => interfaces.any (·.name = key)
  | .create key => interfaces.any (·.name = key)
  | _ => true

end Edit

/-! ## The page -/

structure Page where
  selected : Structure Rat
  gateModel : GateModel
  /-- The gate model in the query of the answers that are awaited. -/
  awaited : Option GateModel
  interfaces : List Electrode
  spec : Option ClientSpec

inductive PageAction where
  | select (s : Structure Rat)
  | choose (gateModel : GateModel)
  /-- The answers are there; the specification is the one kept by the server, if it has one. -/
  | arrive (stored : Option StoredSpec)
  | fail
  | edit (edit : Edit)

namespace Page

/-- The effect on a change of the structure or the gate model: earlier answers are ignored. -/
def load (page : Page) : Page :=
  { page with awaited := some page.gateModel, interfaces := [], spec := none }

/-- `read_state` answers with what it can still read and restore. -/
def Restores (py : Python) (s : Structure Rat) (stored : StoredSpec) : Prop :=
  stored.Accepted py ∧ restorable py s stored.toDeviceSpec = .ok ()

instance (py : Python) (s : Structure Rat) (stored : StoredSpec) : Decidable (Restores py s stored) :=
  inferInstanceAs (Decidable (_ ∧ _))

def step (py : Python) (page : Page) : PageAction → Option Page
  | .select s => some { page with selected := s }.load
  | .choose gateModel =>
    if gateModel = page.gateModel then none else some { page with gateModel := gateModel }.load
  | .arrive stored => match page.awaited with
    | none => none
    | some queried =>
      if ∀ spec ∈ stored, Restores py page.selected spec then
        match detectInterfaces page.selected queried with
        | .error _ => some { page with awaited := none }
        | .ok found => some
          { page with
            awaited := none
            interfaces := found
            spec := some ((stored.map StoredSpec.sendBack).getD (defaultSpec found)) }
      else none
  | .fail => page.awaited.map fun _ => { page with awaited := none }
  | .edit edit => match page.spec with
    | none => none
    | some spec =>
      if edit.picks page.interfaces then some { page with spec := some (edit.apply spec) } else none

/-- The page as it is opened. -/
def lts (py : Python) : Lts Page PageAction where
  start page := page.gateModel = .semiconductor ∧ page.awaited = some .semiconductor ∧
    page.interfaces = [] ∧ page.spec = none
  step := step py

end Page

end TcadWebapp.Devsim
