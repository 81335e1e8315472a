import Mathlib.Data.List.Sort
import TcadWebapp.Devsim.Electrodes
import TcadWebapp.Remesh.Geometry

/-!
# The device mesh

`devsim/mesh.py`: the regions that are solved, the contacts of the electrodes on them, and the
flat arrays that DevSim reads. Coordinates are exact.
-/

namespace TcadWebapp.Devsim

open StrParser Remesh

/-- `UM_TO_CM`. -/
def umToCm : Rat := 1 / 10000

/-- `EDGE` and `TRIANGLE`, the type codes of `elements`. -/
def edgeCode : Int := 1

def triangleCode : Int := 2

/-- `DEVSIM_MATERIAL`. -/
def devsimMaterials : List (String × String) :=
  [("silicon", "Silicon"), ("poly", "Silicon"), ("gaas", "GaAs"), ("oxide", "Oxide"),
    ("nitride", "Nitride"), ("oxynitride", "Oxide")]

structure RegionSpec where
  name : String
  regionId : Int
  material : String
  devsimMaterial : String
  deriving DecidableEq, Repr

def RegionSpec.isSemiconductor (region : RegionSpec) : Bool := region.material ∈ semiconductors

structure InterfaceSpec where
  name : String
  region0 : String
  region1 : String
  deriving DecidableEq, Repr

structure ContactSpec where
  name : String
  electrode : String
  region : String
  kind : ContactKind
  deriving DecidableEq, Repr

structure DeviceMesh where
  coordinates : List Rat
  elements : List Int
  physicalNames : List String
  regions : List RegionSpec
  interfaces : List InterfaceSpec
  contacts : List ContactSpec
  pointMap : Dict Int Nat

/-- An element as `iter_elements` yields it. -/
structure Record where
  kind : Int
  physical : Int
  nodes : List Int
  deriving DecidableEq, Repr

/-- The loop of `iter_elements`. There is fuel for one step an entry of the array, and each
takes two entries at least. -/
def iterFrom : Nat → List Int → Except Exn (List Record)
  | fuel + 1, kind :: physical :: rest => do
    let count := if kind = edgeCode then 2 else 3
    let records ← iterFrom fuel (rest.drop count)
    .ok (⟨kind, physical, rest.take count⟩ :: records)
  | _ + 1, [_] => .error .indexError
  | _, _ => .ok []

/-- `iter_elements` (`mesh.py:94-108`). -/
def iterElements (elements : List Int) : Except Exn (List Record) :=
  iterFrom elements.length elements

/-! ## Regions and contacts -/

/-- `_region_name`. -/
def regionName (id : Int) (material : String) : String := "r" ++ toString id ++ "_" ++ material

/-- The regions of some materials that do not count as conductors. -/
def regionsOf (s : Structure Rat) (gateModel : GateModel) (materials : List String) : List Int :=
  (s.materialOfRegion.entries.filter fun region =>
    region.2 ∈ materials ∧ region.2 ∉ gateModel.conductors).map Prod.fst

/-- The insulators that a segment shows to border a semiconductor. -/
def touchingOf (insulators semiconductors : List Int) (segment : Segment) : List Int :=
  match segment.rightRegion with
  | none => []
  | some right =>
    ([(segment.leftRegion, right), (right, segment.leftRegion)].filter fun pair =>
      pair.1 ∈ insulators ∧ pair.2 ∈ semiconductors).map Prod.fst

/-- `_select_regions` (`mesh.py:115-162`). The regions kept all have a material, so they are
taken from the dictionary of the materials. -/
def selectRegions (s : Structure Rat) (electrodes : List Electrode) (gateModel : GateModel) :
    Except Exn (List RegionSpec) := do
  let semis := regionsOf s gateModel semiconductors
  let insuls := regionsOf s gateModel insulators
  let segments ← constrainedSegments s
  let touching := segments.flatMap (touchingOf insuls semis)
  let required := electrodes.flatMap fun electrode => electrode.edges.map ContactEdge.regionId
  let kept := s.materialOfRegion.entries.filter fun region =>
    region.1 ∈ semis ∨ region.1 ∈ touching ∨ region.1 ∈ required ∧ region.1 ∈ insuls
  .ok ((kept.insertionSort fun a b => a.1 ≤ b.1).map fun region =>
    ⟨regionName region.1 region.2, region.1, region.2,
      (devsimMaterials.lookup region.2).getD "Oxide"⟩)

/-- `by_region`. -/
def byRegion (regions : List RegionSpec) : Dict Int RegionSpec :=
  Dict.ofList (regions.map fun region => (region.regionId, region))

/-- `Electrode.edges_by_region` (`electrodes.py:116-121`). -/
def Electrode.edgesByRegion (electrode : Electrode) : Dict Int (List ContactEdge) :=
  electrode.edges.foldl (fun grouped edge =>
    grouped.alter edge.regionId fun edges => edges.getD [] ++ [edge]) ∅

/-- The regions kept that an electrode touches. -/
def Electrode.reachable (electrode : Electrode) (regions : Dict Int RegionSpec) : List Int :=
  electrode.edgesByRegion.keys.filter (· ∈ regions.keys)

/-- The name of an electrode's contact on a region. -/
def Electrode.contactName (electrode : Electrode) (regions : Dict Int RegionSpec) (id : Int) :
    String :=
  if (electrode.reachable regions).length = 1 then electrode.name
  else electrode.name ++ "_r" ++ toString id

/-- The contacts of one electrode. -/
def contactsOf (regions : Dict Int RegionSpec) (electrode : Electrode) : List ContactSpec :=
  ((electrode.reachable regions).insertionSort (· ≤ ·)).filterMap fun id =>
    (regions.get? id).map fun region =>
      ⟨electrode.contactName regions id, electrode.name, region.name, electrode.kind⟩

/-- `_contact_specs` (`mesh.py:165-189`). -/
def contactSpecs (electrodes : List Electrode) (regions : Dict Int RegionSpec) :
    List ContactSpec :=
  electrodes.flatMap (contactsOf regions)

/-! ## The flat arrays -/

/-- `elements` and `names` while they grow. -/
structure Buffer where
  elements : List Int
  names : List String

/-- `elements += [kind, physical(name), *nodes]`. -/
def Buffer.emit (buffer : Buffer) (kind : Int) (name : String) (nodes : List Nat) : Buffer :=
  ⟨buffer.elements ++ kind :: (buffer.names.idxOf name : Int) :: nodes.map Int.ofNat,
    if name ∈ buffer.names then buffer.names else buffer.names ++ [name]⟩

/-- `d[key]`. -/
def lookup {κ ν : Type} [DecidableEq κ] (d : Dict κ ν) (key : κ) : Except Exn ν :=
  match d.get? key with
  | some value => .ok value
  | none => .error .keyError

/-- `point_map`. -/
def pointMapOf (elements : List Element) : Dict Int Nat :=
  (elements.flatMap Element.vertices).foldl (fun points vertex =>
    if vertex ∈ points.keys then points else points.set vertex points.entries.length) ∅

/-- The coordinates in cm with y upwards; the points are numbered in the order of
insertion. -/
def coordinatesOf (s : Structure Rat) (points : Dict Int Nat) : Except Exn (List Rat) := do
  let found ← points.keys.mapM (index s.coordinates)
  .ok (found.flatMap fun point => [point.x * umToCm, -point.y * umToCm, 0])

/-- `_area` (`mesh.py:301-305`). -/
def area (coordinates : List Rat) (a b c : Nat) : Rat :=
  let at' (i : Nat) : Rat := coordinates.getD i 0
  1 / 2 * ((at' (b * 3) - at' (a * 3)) * (at' (c * 3 + 1) - at' (a * 3 + 1)) -
    (at' (c * 3) - at' (a * 3)) * (at' (b * 3 + 1) - at' (a * 3 + 1)))

/-- The triangle of an element, turned so that its area is not negative. -/
def emitTriangle (regions : Dict Int RegionSpec) (points : Dict Int Nat) (coordinates : List Rat)
    (buffer : Buffer) (element : Element) : Except Exn Buffer := do
  let nodes ← element.vertices.mapM (lookup points)
  let region ← lookup regions element.regionId
  match nodes with
  | [a, b, c] =>
    let turned := if area coordinates a b c < 0 then [a, c, b] else [a, b, c]
    .ok (buffer.emit triangleCode region.name turned)
  | _ :: _ :: _ :: _ => .error (.valueError "too many values to unpack (expected 3)")
  | _ => .error (.valueError ("not enough values to unpack (expected 3, got " ++
      toString nodes.length ++ ")"))

/-- The interface of a segment and its edge, if both sides are kept (`mesh.py:245-267`). -/
def emitInterface (regions : Dict Int RegionSpec) (points : Dict Int Nat)
    (state : Buffer × Dict (Int × Int) InterfaceSpec) (segment : Segment) :
    Except Exn (Buffer × Dict (Int × Int) InterfaceSpec) :=
  match segment.rightRegion with
  | none => .ok state
  | some right =>
    let key := (min segment.leftRegion right, max segment.leftRegion right)
    match regions.get? key.1, regions.get? key.2 with
    | some region0, some region1 => do
      let spec := (state.2.get? key).getD
        ⟨"i_r" ++ toString key.1 ++ "_r" ++ toString key.2, region0.name, region1.name⟩
      let a ← lookup points segment.a
      let b ← lookup points segment.b
      .ok (state.1.emit edgeCode spec.name [a, b], state.2.alter key fun _ => spec)
    | _, _ => .ok state

/-- `contact_of_edge`. -/
def contactOfEdge (contacts : List ContactSpec) : Dict (String × String) String :=
  Dict.ofList (contacts.map fun spec => ((spec.electrode, spec.region), spec.name))

/-- An edge of an electrode, if its region is kept (`mesh.py:272-282`). -/
def emitContact (regions : Dict Int RegionSpec) (points : Dict Int Nat)
    (contacts : Dict (String × String) String) (electrode : Electrode) (buffer : Buffer)
    (edge : ContactEdge) : Except Exn Buffer :=
  match regions.get? edge.regionId with
  | none => .ok buffer
  | some region => do
    let name ← lookup contacts (electrode.name, region.name)
    let a ← lookup points edge.vertices.1
    let b ← lookup points edge.vertices.2
    .ok (buffer.emit edgeCode name [a, b])

/-- `build_device_mesh` (`mesh.py:192-299`). -/
def buildDeviceMesh (s : Structure Rat) (electrodes : List Electrode) (gateModel : GateModel) :
    Except Exn DeviceMesh := do
  let regions ← selectRegions s electrodes gateModel
  if regions = [] then
    .error (.valueError "해석할 영역이 없습니다. 반도체가 들어 있는 구조여야 합니다.")
  else
    let known := byRegion regions
    let contacts := contactSpecs electrodes known
    let kept := s.elements.filter fun element => element.regionId ∈ known.keys
    let points := pointMapOf kept
    let coordinates ← coordinatesOf s points
    let buffer ← kept.foldlM (emitTriangle known points coordinates) ⟨[], []⟩
    let segments ← constrainedSegments s
    let (buffer, interfaces) ← segments.foldlM (emitInterface known points) (buffer, ∅)
    let named := contactOfEdge contacts
    let buffer ← electrodes.foldlM (fun buffer electrode =>
      electrode.edges.foldlM (emitContact known points named electrode) buffer) buffer
    .ok ⟨coordinates, buffer.elements, buffer.names, regions, interfaces.entries.map Prod.snd,
      contacts, points⟩

end TcadWebapp.Devsim
