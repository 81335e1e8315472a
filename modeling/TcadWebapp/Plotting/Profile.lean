import Mathlib.Data.Prod.Lex
import Mathlib.Data.String.Basic
import TcadWebapp.Devsim.Doping
import TcadWebapp.Remesh.Assemble

/-!
# Depth profiles

`vertical_cut` of `backend/app/plotting/profile.py` with `value_of` of `plotting/quantities.py`.
Coordinates and values are exact.
-/

namespace TcadWebapp.Plotting

open StrParser Devsim Remesh

/-- `_DEPTH_EPSILON`. -/
def depthEpsilon : Rat := 1 / 10 ^ 9

structure ProfilePoint where
  depth : Rat
  value : Rat
  material : String
  deriving DecidableEq, Repr

structure Profile where
  quantity : String
  points : List ProfilePoint
  deriving DecidableEq, Repr

/-- `value_of`: `net_doping` is computed, the others are columns. -/
def valueOf (table : List Species) (solution : NodeSolution Rat) (quantity : String) :
    Except Exn Rat :=
  if quantity = "net_doping" then do
    let donors ← columnSum solution.values (positionsOf table .donor)
    let acceptors ← columnSum solution.values (positionsOf table .acceptor)
    .ok (donors - acceptors)
  else
    match (speciesIndex table).get? quantity with
    | none => .error .keyError
    | some position => index solution.values position

/-! ## The order of the points -/

/-- The points of one depth each, in the order of the input. -/
def byDepth (points : List ProfilePoint) : Dict Rat (List ProfilePoint) :=
  points.foldl (fun d point => d.alter point.depth fun group => group.getD [] ++ [point]) ∅

/-- `lambda p: (p.material != previous, p.material)`. -/
def stackKey (previous : Option String) (point : ProfilePoint) : Bool ×ₗ String :=
  toLex (decide (some point.material ≠ previous), point.material)

/-- The step of the loop for one depth. -/
def stackGroup (ordered group : List ProfilePoint) : List ProfilePoint :=
  if group.length = 1 then ordered ++ group
  else
    let previous := ordered.getLast?.map ProfilePoint.material
    ordered ++ group.insertionSort fun p q => stackKey previous p ≤ stackKey previous q

/-- `_ordered_by_stack`. -/
def orderedByStack (points : List ProfilePoint) : List ProfilePoint :=
  ((byDepth points).keys.insertionSort (· ≤ ·)).foldl
    (fun ordered depth => stackGroup ordered (((byDepth points).get? depth).getD [])) []

/-! ## The cut -/

/-- A corner of an element with the value there. -/
abbrev Corner := Coordinate Rat × Rat

/-- `_edge_crossings`. -/
def edgeCrossings (start stop : Corner) (x : Rat) (material : String) : List ProfilePoint :=
  let left := start.1.x - x
  let right := stop.1.x - x
  if left = 0 ∨ right = 0 then
    (if left = 0 then [⟨start.1.y, start.2, material⟩] else []) ++
      if right = 0 then [⟨stop.1.y, stop.2, material⟩] else []
  else if (0 < left) = (0 < right) then []
  else
    let t := left / (left - right)
    [⟨start.1.y + t * (stop.1.y - start.1.y), start.2 + t * (stop.2 - start.2), material⟩]

/-- The edges of an element, from each corner to the next. -/
def edges (corners : List Corner) : List (Corner × Corner) := corners.zip (corners.rotate 1)

/-- `material_of_region`. -/
def regionOf (s : Structure Rat) : Dict Int StrParser.Region :=
  Dict.ofList (s.regions.map fun region => (region.id, region))

/-- The value at a vertex on the side of a material. -/
def valueAt (s : Structure Rat) (quantity : String) (materialId vertex : Int) : Except Exn Rat :=
  match solutionAt s vertex materialId with
  | none => .error .keyError
  | some solution => valueOf (speciesTable s.species) solution quantity

/-- The points at which the edges of an element cross the line. -/
def elementPoints (s : Structure Rat) (x : Rat) (quantity : String) (element : Element) :
    Except Exn (List ProfilePoint) := do
  let region ← lookup (regionOf s) element.regionId
  match element.vertices.mapM (valueAt s quantity region.materialId) with
  -- without a row at each corner the element is skipped
  | .error .keyError => .ok []
  | .error e => .error e
  | .ok values =>
    let corners ← element.vertices.mapM (index s.coordinates)
    .ok ((edges (corners.zip values)).flatMap fun edge =>
      edgeCrossings edge.1 edge.2 x region.material)

/-- `key`: the same place of the same material. -/
def pointKey (point : ProfilePoint) : Int × String :=
  (nearest (point.depth / depthEpsilon), point.material)

/-- `collected.setdefault(key, point)`, for one point after the other. -/
def collected (points : List ProfilePoint) : Dict (Int × String) ProfilePoint :=
  points.foldl (fun d point => d.alter (pointKey point) fun there => there.getD point) ∅

def verticalCut (s : Structure Rat) (x : Rat) (quantity : String) : Except Exn Profile :=
  if s.dimension ≠ 2 then .error (.valueError ("2D 구조에서만 쓸 수 있습니다 (현재 " ++
    toString s.dimension ++ "D)"))
  else do
    let points ← s.elements.mapM (elementPoints s x quantity)
    .ok ⟨quantity, orderedByStack ((collected points.flatten).entries.map Prod.snd)⟩

end TcadWebapp.Plotting
