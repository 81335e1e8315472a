import Mathlib.Data.List.Sort
import Mathlib.Data.Rat.Floor
import TcadWebapp.Misc.Numerals
import TcadWebapp.Remesh.Geometry
import TcadWebapp.Remesh.Transfer

/-!
# Assembling the new structure

`remesh/assemble.py`: the triangles of the new mesh get their neighbours, the outer edges the codes
of the old boundary, and every point a row for each material that it touches.
-/

namespace TcadWebapp.Remesh

open StrParser

/-! ## The old boundary -/

/-- An old outer edge with its code. -/
structure OuterSegment (F : Type) where
  a : Point F
  b : Point F
  bc : Int
  deriving DecidableEq

/-- `_BoundaryIndex`. -/
structure BoundaryIndex (F : Type) where
  reach : F
  segments : List (OuterSegment F)
  cell : F
  buckets : Dict (Int × Int) (List Nat)

namespace BoundaryIndex

variable {F : Type} [Field F] [LinearOrder F] [FloorRing F]

attribute [local instance] atLeastTwo_ten

/-- `_g`. -/
def g (cell v : F) : Int := ⌊v / cell⌋

/-- The cells that a segment may matter to. -/
def cellsOf (cell reach : F) (segment : OuterSegment F) : List (Int × Int) :=
  (rangeTo (g cell (min segment.a.1 segment.b.1 - reach)) (g cell (max segment.a.1 segment.b.1 + reach))).flatMap
    fun gx =>
      (rangeTo (g cell (min segment.a.2 segment.b.2 - reach)) (g cell (max segment.a.2 segment.b.2 + reach))).map
        fun gy => (gx, gy)

/-- The width of a cell: the middle one of the lengths, but not too small. -/
def cellWidth (ops : FloatOps F) (segments : List (OuterSegment F)) (reach : F) : F :=
  let lengths := (segments.map fun segment =>
    ops.hypot (segment.b.1 - segment.a.1) (segment.b.2 - segment.a.2)).insertionSort (· ≤ ·)
  max (max (lengths[lengths.length / 2]?.getD 0) reach) (1 / 10 ^ 12)

/-- `_BoundaryIndex.__init__` (`assemble.py:115-136`). -/
def init (ops : FloatOps F) (segments : List (OuterSegment F)) (reach : F) : BoundaryIndex F :=
  if segments = [] then ⟨reach, [], 1, ∅⟩
  else
    let cell := cellWidth ops segments reach
    let entries := segments.zipIdx.flatMap fun (segment, i) => (cellsOf cell reach segment).map fun c => (c, i)
    ⟨reach, segments, cell, entries.foldl (fun d e => d.alter e.1 fun group => group.getD [] ++ [e.2]) ∅⟩

/-- The segments that `code_at` looks at, in its order. -/
def candidates (boundary : BoundaryIndex F) (mid : Point F) : List (OuterSegment F) :=
  ([-1, 0, 1] : List Int).flatMap fun dx => ([-1, 0, 1] : List Int).flatMap fun dy =>
    ((boundary.buckets.get? (g boundary.cell mid.1 + dx, g boundary.cell mid.2 + dy)).getD []).filterMap
      (boundary.segments[·]?)

/-- `code_at` (`assemble.py:141-156`). -/
def codeAt (ops : FloatOps F) (boundary : BoundaryIndex F) (mid : Point F) : Except Exn Int :=
  let distance := fun segment : OuterSegment F => pointToSegment ops.hypot mid segment.a segment.b
  match (scan (fun d e => d ≤ e) distance boundary.reach (boundary.candidates mid)).1 with
  | none => .error (.valueError ("바깥 변 (" ++ ops.repr mid.1 ++ ", " ++ ops.repr mid.2 ++
      ") 이 어느 옛 경계에도 놓여 있지 않습니다"))
  | some segment => .ok segment.bc

end BoundaryIndex

/-! ## The new mesh -/

/-- A triangle by the 0-based indices of its points, and its region. -/
structure MeshTriangle where
  vertices : Int × Int × Int
  regionId : Int
  deriving DecidableEq

namespace MeshTriangle

def vertex (triangle : MeshTriangle) : Fin 3 → Int
  | 0 => triangle.vertices.1
  | 1 => triangle.vertices.2.1
  | 2 => triangle.vertices.2.2

def vertexList (triangle : MeshTriangle) : List Int := [triangle.vertex 0, triangle.vertex 1, triangle.vertex 2]

/-- The ends of the edge opposite a vertex. -/
def edge (triangle : MeshTriangle) (i : Fin 3) : Int × Int := (triangle.vertex (i + 1), triangle.vertex (i + 2))

/-- The edge, either way round. -/
def edgeKey (triangle : MeshTriangle) (i : Fin 3) : Int × Int :=
  (min (triangle.edge i).1 (triangle.edge i).2, max (triangle.edge i).1 (triangle.edge i).2)

end MeshTriangle

structure Mesh where
  points : List (Point Rat)
  triangles : List MeshTriangle

def slots : List (Fin 3) := [0, 1, 2]

namespace Mesh

/-- The edges of the triangles, each with its triangle and slot. -/
def edgeEntries (mesh : Mesh) : List ((Int × Int) × Nat × Fin 3) :=
  mesh.triangles.zipIdx.flatMap fun (triangle, t) => slots.map fun i => (triangle.edgeKey i, t, i)

/-- `owner`. -/
def owner (mesh : Mesh) : Dict (Int × Int) (List (Nat × Fin 3)) :=
  mesh.edgeEntries.foldl (fun d e => d.alter e.1 fun group => group.getD [] ++ [e.2]) ∅

/-- The middle of an edge. -/
def mid (mesh : Mesh) (edge : Int × Int) : Except Exn (Point Rat) := do
  let a ← index mesh.points edge.1
  let b ← index mesh.points edge.2
  .ok ((a.1 + b.1) / 2, (a.2 + b.2) / 2)

/-- One entry of `neighbors`. -/
def neighbor (ops : FloatOps Rat) (boundary : BoundaryIndex Rat) (mesh : Mesh) (t : Nat)
    (triangle : MeshTriangle) (i : Fin 3) : Except Exn Int :=
  match mesh.owner.get? (triangle.edgeKey i) with
  | none => .error .keyError
  | some sharers => match (sharers.filter fun sharer => sharer.1 ≠ t).head? with
    | some other => .ok other.1
    | none => do
      let mid ← mesh.mid (triangle.edge i)
      boundary.codeAt ops mid

/-- One triangle as an element. -/
def element (ops : FloatOps Rat) (boundary : BoundaryIndex Rat) (mesh : Mesh) (triangle : MeshTriangle)
    (t : Nat) : Except Exn Element := do
  let neighbors ← slots.mapM (mesh.neighbor ops boundary t triangle)
  .ok { id := t + 1, regionId := triangle.regionId, vertices := triangle.vertexList,
        neighbors := neighbors, extra := [-1, -1] }

end Mesh

/-- The outer edges of the old structure, with their ends. -/
def outerSegments (old : Structure Rat) : Except Exn (List (OuterSegment Rat)) := do
  let segments ← constrainedSegments old
  (segments.filter fun segment => segment.rightRegion.isNone).mapM fun segment => do
    let a ← index old.coordinates segment.a
    let b ← index old.coordinates segment.b
    .ok ⟨(a.x, a.y), (b.x, b.y), segment.bc⟩

/-- `_elements` (`assemble.py:68-109`). -/
def elementsOf (ops : FloatOps Rat) (old : Structure Rat) (mesh : Mesh) (reach : Rat) :
    Except Exn (List Element) := do
  let outer ← outerSegments old
  let boundary := BoundaryIndex.init ops outer reach
  mesh.triangles.zipIdx.mapM fun (triangle, t) => mesh.element ops boundary triangle t

/-! ## The rows -/

/-- `AMBIENT_MATERIAL_ID`. -/
def ambientMaterialId : Int := 0

/-- `_AMBIENT_BOUNDARIES`: exposed and back side. -/
def ambientBoundaries : List Int := [-1022, -1023]

/-- The materials at each point. -/
abbrev Touching := Dict Int (List Int)

/-- `touching.setdefault(point, set()).add(material)`. -/
def Touching.add (touching : Touching) (point material : Int) : Touching :=
  touching.alter point fun set =>
    if material ∈ set.getD [] then set.getD [] else set.getD [] ++ [material]

/-- The points of the triangles with the materials of their regions. -/
def touchesOf (old : Structure Rat) (mesh : Mesh) : Except Exn (List (Int × Int)) := do
  let touches ← mesh.triangles.mapM fun triangle =>
    match (materialIds old).get? triangle.regionId with
    | some material => .ok (triangle.vertexList.map fun point => (point, material))
    | none => .error .keyError
  .ok touches.flatten

/-- `v[(i + 1) % 3]` and `v[(i + 2) % 3]` of the edges that border on the outside. -/
def openPoints (element : Element) : Except Exn (List Int) := do
  let ends ← element.neighbors.zipIdx.mapM fun (code, i) =>
    if code ∈ ambientBoundaries then do
      let a ← index element.vertices ((i + 1) % 3 : Nat)
      let b ← index element.vertices ((i + 2) % 3 : Nat)
      .ok [a, b]
    else .ok []
  .ok ends.flatten

/-- `_ambient_values`. -/
def ambientValues (old : Structure Rat) : Option (List Rat) :=
  (old.solutions.find? fun row => row.materialId = ambientMaterialId).map NodeSolution.values

/-- `_material_name`. -/
def materialName (old : Structure Rat) (materialId : Int) : String :=
  ((old.regions.find? fun region => region.materialId = materialId).map Region.material).getD "unknown"

/-- `touching`, all loops done. -/
def touchingOf (old : Structure Rat) (mesh : Mesh) (elements : List Element) : Except Exn Touching := do
  let touches ← touchesOf old mesh
  let touching := touches.foldl (fun d e => Touching.add d e.1 e.2) (∅ : Touching)
  match ambientValues old with
  | none => .ok touching
  | some _ =>
    let open' ← elements.mapM openPoints
    .ok (open'.flatten.foldl (fun d point => Touching.add d point ambientMaterialId) touching)

/-- The row of one point for one material. -/
def rowOf (ops : FloatOps Rat) (old : Structure Rat) (mesh : Mesh) (sampler : Sampler Rat) (reach : Rat)
    (point material : Int) : Except Exn (NodeSolution Rat) := do
  let p ← index mesh.points point
  if material = ambientMaterialId then
    -- without an ambient row in the old structure these are `None`
    .ok ⟨point, ambientMaterialId, "ambient", (ambientValues old).getD []⟩
  else match ← sampler.valueAt ops p material reach with
    | none => .error (.valueError ("점 " ++ toString point ++ " (" ++ ops.formatG p.1 ++ ", " ++
        ops.formatG p.2 ++ ") 의 물질 " ++ toString material ++ " 값을 옛 메시에서 찾지 못했습니다"))
    | some values => .ok ⟨point, material, materialName old material, values⟩

/-- The points in order, each with its materials in order. -/
def Touching.ordered (touching : Touching) : List (Int × Int) :=
  (touching.keys.insertionSort (· ≤ ·)).flatMap fun point =>
    (((touching.get? point).getD []).insertionSort (· ≤ ·)).map fun material => (point, material)

/-- `_solutions` (`assemble.py:174-226`). -/
def solutionsOf (ops : FloatOps Rat) (old : Structure Rat) (mesh : Mesh) (elements : List Element)
    (reach : Rat) : Except Exn (List (NodeSolution Rat)) := do
  let touching ← touchingOf old mesh elements
  let sampler ← Sampler.init old
  touching.ordered.mapM fun (point, material) => rowOf ops old mesh sampler reach point material

/-- `_ON_SEGMENT`. -/
def onSegment : Rat := 1 / 10 ^ 9

/-- `_SIMPLIFY_MARGIN`. -/
def simplifyMargin : Rat := 4

/-- `reach`. -/
def reachOf (boundaryTolerance : Rat) : Rat := max onSegment (boundaryTolerance * simplifyMargin)

/-- `assemble` (`assemble.py:35-65`). -/
def assemble (ops : FloatOps Rat) (old : Structure Rat) (mesh : Mesh) (boundaryTolerance : Rat) :
    Except Exn (Structure Rat) := do
  let reach := reachOf boundaryTolerance
  let elements ← elementsOf ops old mesh reach
  let solutions ← solutionsOf ops old mesh elements reach
  .ok { old with
    coordinates := mesh.points.zipIdx.map fun (p, i) => ⟨i + 1, p.1, p.2⟩
    elements := elements
    solutions := solutions }

/-- `Structure.solution_at`; a `KeyError` is `none`. -/
def solutionAt {F : Type} (s : Structure F) (coordinateIndex materialId : Int) : Option (NodeSolution F) :=
  (Dict.ofList (s.solutions.map fun row => ((row.coordinateIndex, row.materialId), row))).get?
    (coordinateIndex, materialId)

end TcadWebapp.Remesh
