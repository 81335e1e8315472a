import Mathlib.Algebra.Order.Field.Basic
import Mathlib.Algebra.Order.Floor.Ring
import TcadWebapp.Misc.Nearest
import TcadWebapp.Misc.Numerals
import TcadWebapp.Misc.Python
import TcadWebapp.StrParser.Models

/-!
# Taking values over to a new mesh

`remesh/transfer.py`: for a point and a material, an old triangle of the material that holds the
point, and the mixture of the values at its corners. Triangles are found through a grid.
-/

namespace TcadWebapp.Remesh

open StrParser

variable {F : Type} [Field F] [LinearOrder F]

/-- What Python makes of its floats, besides arithmetic. A length is never rounded below the
    lengths of its parts. -/
structure FloatOps (F : Type) [Field F] [LinearOrder F] where
  /-- `math.hypot`. -/
  hypot : F → F → F
  /-- `(x ** 2 + y ** 2) ** 0.5`. -/
  root : F → F → F
  repr : F → String
  formatG : F → String
  abs_le_hypot : ∀ x y, |x| ≤ hypot x y ∧ |y| ≤ hypot x y

/-- A point by its two coordinates. -/
abbrev Point (F : Type) := F × F

/-- The nearest point of a segment is a mixture of its ends. -/
def along (p a b : Point F) : F :=
  let dx := b.1 - a.1
  let dy := b.2 - a.2
  max 0 (min 1 (((p.1 - a.1) * dx + (p.2 - a.2) * dy) / (dx * dx + dy * dy)))

/-- `_point_to_segment`, of which there are two copies that take the length differently. -/
def pointToSegment (length : F → F → F) (p a b : Point F) : F :=
  let dx := b.1 - a.1
  let dy := b.2 - a.2
  if dx * dx + dy * dy = 0 then length (p.1 - a.1) (p.2 - a.2)
  else
    let t := along p a b
    length (p.1 - (a.1 + t * dx)) (p.2 - (a.2 + t * dy))

attribute [local instance] atLeastTwo_ten

/-- `_INSIDE_TOL`. -/
def insideTol : F := 1 / 10 ^ 9

/-- `_barycentric` (`transfer.py:146-164`). -/
def barycentric (p a b c : Point F) (clamp : Bool) : Option (F × F × F) :=
  let den := (b.2 - c.2) * (a.1 - c.1) + (c.1 - b.1) * (a.2 - c.2)
  if den = 0 then none
  else
    let wa := ((b.2 - c.2) * (p.1 - c.1) + (c.1 - b.1) * (p.2 - c.2)) / den
    let wb := ((c.2 - a.2) * (p.1 - c.1) + (a.1 - c.1) * (p.2 - c.2)) / den
    let wc := 1 - wa - wb
    if clamp then
      let wa := max wa 0
      let wb := max wb 0
      let wc := max wc 0
      let total := wa + wb + wc
      if 0 < total then some (wa / total, wb / total, wc / total) else none
    else if wa < -insideTol ∨ wb < -insideTol ∨ wc < -insideTol then none
    else some (wa, wb, wc)

/-- `min` and `max` of a list; of an empty one they raise. -/
def leastOf : List F → Except Exn F
  | [] => .error (.valueError "min() iterable argument is empty")
  | x :: xs => .ok (xs.foldl min x)

def greatestOf : List F → Except Exn F
  | [] => .error (.valueError "max() iterable argument is empty")
  | x :: xs => .ok (xs.foldl max x)

/-- `range(low, high + 1)`. -/
def rangeTo (low high : Int) : List Int := (List.range (high + 1 - low).toNat).map fun (k : Nat) => low + k

/-- `{r.id: r.material_id for r in structure.regions}`. -/
def materialIds (s : Structure F) : Dict Int Int :=
  Dict.ofList (s.regions.map fun region => (region.id, region.materialId))

structure Sampler (F : Type) where
  source : Structure F
  materialOf : Dict Int Int
  values : Dict (Int × Int) (List F)
  x0 : F
  y0 : F
  side : Nat
  dx : F
  dy : F
  /-- The elements by material and cell. -/
  buckets : Dict (Int × Int × Int) (List Nat)

namespace Sampler

variable [FloorRing F]

/-- `_cell_x` and `_cell_y`. -/
def cell (side : Nat) (low width v : F) : Int := min ((side : Int) - 1) (max 0 ⌊(v - low) / width⌋)

def cellX (sampler : Sampler F) (x : F) : Int := cell sampler.side sampler.x0 sampler.dx x

def cellY (sampler : Sampler F) (y : F) : Int := cell sampler.side sampler.y0 sampler.dy y

/-- The cells that the box of one element touches, under its material. -/
def cellsOf (sampler : Sampler F) (element : Element) : Except Exn (List (Int × Int × Int)) :=
  match sampler.materialOf.get? element.regionId with
  | none => .ok []
  | some material => do
    let corners ← element.vertices.mapM (index sampler.source.coordinates)
    let xLow ← leastOf (corners.map Coordinate.x)
    let xHigh ← greatestOf (corners.map Coordinate.x)
    let yLow ← leastOf (corners.map Coordinate.y)
    let yHigh ← greatestOf (corners.map Coordinate.y)
    .ok ((rangeTo (sampler.cellX xLow) (sampler.cellX xHigh)).flatMap fun gx =>
      (rangeTo (sampler.cellY yLow) (sampler.cellY yHigh)).map fun gy => (material, gx, gy))

/-- `Sampler.__init__` (`transfer.py:35-70`). The root of half the number of elements is cut to
    a whole number. -/
def init (s : Structure F) : Except Exn (Sampler F) := do
  let x0 ← leastOf (s.coordinates.map Coordinate.x)
  let x1 ← greatestOf (s.coordinates.map Coordinate.x)
  let y0 ← leastOf (s.coordinates.map Coordinate.y)
  let y1 ← greatestOf (s.coordinates.map Coordinate.y)
  let side := max 1 (Nat.sqrt (s.elements.length / 2))
  let empty : Sampler F :=
    { source := s
      materialOf := materialIds s
      values := Dict.ofList (s.solutions.map fun row => ((row.coordinateIndex, row.materialId), row.values))
      x0 := x0
      y0 := y0
      side := side
      dx := max ((x1 - x0) / side) (1 / 10 ^ 30)
      dy := max ((y1 - y0) / side) (1 / 10 ^ 30)
      buckets := ∅ }
  let cells ← s.elements.mapM empty.cellsOf
  let entries := cells.zipIdx.flatMap fun (cells, i) => cells.map fun cell => (cell, i)
  .ok { empty with
    buckets := entries.foldl (fun d e => d.alter e.1 fun group => group.getD [] ++ [e.2]) ∅ }

/-- A corner as a point. -/
def corner (sampler : Sampler F) (vertex : Int) : Except Exn (Point F) := do
  let coordinate ← index sampler.source.coordinates vertex
  .ok (coordinate.x, coordinate.y)

/-- `i, j, k = v`. -/
def corners (sampler : Sampler F) : List Int → Except Exn (Point F × Point F × Point F)
  | [i, j, k] => do
    let a ← sampler.corner i
    let b ← sampler.corner j
    let c ← sampler.corner k
    .ok (a, b, c)
  | _ => .error (.valueError "not enough values to unpack")

/-- `_blend` (`transfer.py:114-134`); nothing where a corner has no row of the material. -/
def blend (sampler : Sampler F) (vertices : List Int) (material : Int) (weights : F × F × F) :
    Except Exn (Option (List F)) := do
  let i ← index vertices 0
  let j ← index vertices 1
  let k ← index vertices 2
  match sampler.values.get? (i, material), sampler.values.get? (j, material),
      sampler.values.get? (k, material) with
  | some va, some vb, some vc =>
    let (wa, wb, wc) := weights
    .ok (some ((va.zip (vb.zip vc)).map fun (a, b, c) => wa * a + wb * b + wc * c))
  | _, _, _ => .ok none

/-- The loop of `at` over the triangles of one cell. -/
def inside (sampler : Sampler F) (p : Point F) (material : Int) :
    List Nat → Except Exn (Option (List F))
  | [] => .ok none
  | i :: rest => do
    let element ← index sampler.source.elements (i : Nat)
    let (a, b, c) ← sampler.corners element.vertices
    match barycentric p a b c false with
    | none => inside sampler p material rest
    | some weights => match ← sampler.blend element.vertices material weights with
      | none => inside sampler p material rest
      | some values => .ok (some values)

/-- The sides of one triangle, with its vertices. -/
def sidesOf (sampler : Sampler F) (i : Nat) : Except Exn (List (Point F × Point F × List Int)) := do
  let element ← index sampler.source.elements (i : Nat)
  [0, 1, 2].mapM fun (k : Nat) => do
    let a ← index element.vertices (k : Nat)
    let b ← index element.vertices ((k + 1) % 3 : Nat)
    let pa ← sampler.corner a
    let pb ← sampler.corner b
    .ok (pa, pb, element.vertices)

/-- `_nearest` (`transfer.py:91-112`). Ties go to the earlier side. -/
def nearest (ops : FloatOps F) (sampler : Sampler F) (p : Point F) (material : Int) (reach : F) :
    Except Exn (Option (List F)) := do
  let cx := sampler.cellX p.1
  let cy := sampler.cellY p.2
  let candidates := (rangeTo (cx - 1) (cx + 1)).flatMap fun gx =>
    (rangeTo (cy - 1) (cy + 1)).flatMap fun gy => (sampler.buckets.get? (material, gx, gy)).getD []
  let sides ← candidates.mapM sampler.sidesOf
  match (scan (fun d e => d < e) (fun side => pointToSegment ops.root p side.1 side.2.1) reach sides.flatten).1 with
  | none => .ok none
  | some (_, _, vertices) =>
    let (a, b, c) ← sampler.corners vertices
    match barycentric p a b c true with
    | none => .ok none
    | some weights => sampler.blend vertices material weights

/-- `Sampler.at` (`transfer.py:72-89`). -/
def valueAt (ops : FloatOps F) (sampler : Sampler F) (p : Point F) (material : Int) (reach : F) :
    Except Exn (Option (List F)) := do
  let candidates := (sampler.buckets.get? (material, sampler.cellX p.1, sampler.cellY p.2)).getD []
  match ← sampler.inside p material candidates with
  | some values => .ok (some values)
  | none => if reach ≤ 0 then .ok none else sampler.nearest ops p material reach

end Sampler

end TcadWebapp.Remesh
