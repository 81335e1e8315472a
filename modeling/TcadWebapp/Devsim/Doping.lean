import Mathlib.Data.Rat.Floor
import TcadWebapp.Devsim.Mesh
import TcadWebapp.StrParser.Species

/-!
# Doping on its way to the device simulator

`devsim/doping.py`, `_doping_points` of `devsim/payload.py` and `apply_doping` of
`docker/devsim/run.py`: the net doping of the points of a region, and how the container finds it
again by the coordinates of a node. Coordinates and concentrations are exact, so `device.json`
hands them over as they are.
-/

namespace TcadWebapp.Devsim

open StrParser

/-! ## Columns -/

inductive DopingSource where
  | active
  | chemical
  deriving DecidableEq, Repr

/-- `SpeciesTable.donor_positions` and `acceptor_positions` (`species.py:172-184`). -/
def positionsOf (table : List Species) (role : DopantRole) : List Nat :=
  (List.range table.length).filter fun i => table[i]?.any fun column => column.dopantRole = some role

/-- `SpeciesTable._index`: a later column of a name takes the place of an earlier. -/
def speciesIndex (table : List Species) : Dict String Nat :=
  Dict.ofList ((table.map Species.name).zipIdx)

/-- `doping_source`. -/
def dopingSource (table : List Species) : DopingSource :=
  if positionsOf table .donor ≠ [] ∨ positionsOf table .acceptor ≠ [] then .active else .chemical

/-- `_CHEMICAL_DONORS`. -/
def chemicalDonors : List String := ["chem_arsenic", "chem_phosphorus", "chem_antimony"]

/-- `_CHEMICAL_ACCEPTORS`. -/
def chemicalAcceptors : List String := ["chem_boron"]

/-- `_chemical_positions`, of the donors or of the acceptors. -/
def chemicalPositions (table : List Species) (names : List String) : List Nat :=
  names.filterMap (speciesIndex table).get?

/-- The columns that are added and those that are taken away (`doping.py:56-62`). -/
def dopingColumns (table : List Species) : List Nat × List Nat :=
  match dopingSource table with
  | .active => (positionsOf table .donor, positionsOf table .acceptor)
  | .chemical => (chemicalPositions table chemicalDonors, chemicalPositions table chemicalAcceptors)

/-! ## Net doping of the points -/

/-- `sum(solution.values[i] for i in positions)`. -/
def columnSum (values : List Rat) (positions : List Nat) : Except Exn Rat := do
  let found ← positions.mapM fun (i : Nat) => index values (i : Int)
  .ok found.sum

/-- An item of `values`. -/
def netDoping (table : List Species) (solution : NodeSolution Rat) : Except Exn (Int × Rat) := do
  let donors ← columnSum solution.values (dopingColumns table).1
  let acceptors ← columnSum solution.values (dopingColumns table).2
  .ok (solution.coordinateIndex, donors - acceptors)

/-- `net_doping_by_point`. -/
def netDopingByPoint (s : Structure Rat) (materialId : Int) : Except Exn (Dict Int Rat) := do
  let rows := s.solutions.filter fun solution => solution.materialId = materialId
  let values ← rows.mapM (netDoping (speciesTable s.species))
  .ok (Dict.ofList values)

/-! ## What is sent -/

/-- The integer nearest, the even one of two. -/
def nearest (x : Rat) : Int :=
  if x - x.floor < 1 / 2 then x.floor
  else if 1 / 2 < x - x.floor then x.floor + 1
  else if x.floor % 2 = 0 then x.floor else x.floor + 1

/-- `round(x, digits)`. -/
def roundTo (digits : Nat) (x : Rat) : Rat := nearest (x * 10 ^ digits) / 10 ^ digits

/-- `COORDINATE_DIGITS`. -/
def coordinateDigits : Nat := 12

/-- A point of the doping of a region: where, and how much. -/
abbrev DopingPoint := (Rat × Rat) × Rat

/-- `material_of_region` (`payload.py:44`). -/
def materialIdOfRegion (s : Structure Rat) : Dict Int Int :=
  Dict.ofList (s.regions.map fun region => (region.id, region.materialId))

/-- `sorted(used.get(region_id, ()))`: the vertices of the elements of a region. -/
def used (s : Structure Rat) (regionId : Int) : List Int :=
  (((s.elements.filter fun element => element.regionId = regionId).flatMap
    Element.vertices).dedup).insertionSort (· ≤ ·)

/-- The coordinates in cm with y upwards, rounded. -/
def roundedCm (point : Coordinate Rat) : Rat × Rat :=
  (roundTo coordinateDigits (point.x * umToCm), roundTo coordinateDigits (-point.y * umToCm))

def dopingPoint (s : Structure Rat) (values : Dict Int Rat) (vertex : Int) :
    Except Exn DopingPoint := do
  let point ← index s.coordinates vertex
  .ok (roundedCm point, (values.get? vertex).getD 0)

/-- The points of a region. The values of a material are computed once for all its regions; they
are the same each time. -/
def dopingOfRegion (s : Structure Rat) (region : RegionSpec) :
    Except Exn (String × List DopingPoint) := do
  let materialId ← lookup (materialIdOfRegion s) region.regionId
  let values ← netDopingByPoint s materialId
  let points ← (used s region.regionId).mapM (dopingPoint s values)
  .ok (region.name, points)

/-- `_doping_points` (`payload.py:31-66`). -/
def dopingPoints (s : Structure Rat) (mesh : DeviceMesh) :
    Except Exn (Dict String (List DopingPoint)) := do
  let points ← (mesh.regions.filter RegionSpec.isSemiconductor).mapM (dopingOfRegion s)
  .ok (Dict.ofList points)

/-! ## In the container -/

/-- The coordinates by which a node is looked up. -/
def nodeKey (digits : Nat) (node : Rat × Rat) : Rat × Rat :=
  (roundTo digits node.1, roundTo digits node.2)

/-- `lookup`. -/
def dopingLookup (digits : Nat) (points : List DopingPoint) : Dict (Rat × Rat) Rat :=
  Dict.ofList (points.map fun point => (nodeKey digits point.1, point.2))

/-- The loop over a region of `apply_doping` (`run.py:145-160`): what is set at the nodes, and how
many of them are missing. -/
def applyDoping (digits : Nat) (points : List DopingPoint) (nodes : List (Rat × Rat)) :
    List Rat × Nat :=
  (nodes.map fun node => ((dopingLookup digits points).get? (nodeKey digits node)).getD 0,
    nodes.countP fun node => nodeKey digits node ∉ (dopingLookup digits points).keys)

end TcadWebapp.Devsim
