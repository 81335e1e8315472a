import TcadWebapp.Misc.Cycles
import TcadWebapp.Remesh.Simplify

/-!
# The input for gmsh

`build_geo` of `remesh/geo.py:127-166` with what it calls: points, lines and surfaces. The sizes of points and
the background field, which nothing else depends on, are left out.
-/

namespace TcadWebapp.Remesh

open StrParser

structure Surface where
  regionId : Int
  /-- The outer loop first, then the holes. A line that is walked backwards is negative. -/
  loops : List (List Int)
  deriving DecidableEq, Repr

structure GeoModel where
  points : List (Rat × Rat)
  /-- The numbers of two points, from 1 on. -/
  lines : List (Nat × Nat)
  surfaces : List Surface
  /-- The coordinate that a point was. -/
  origin : List Int
  deriving DecidableEq, Repr

/-! ## Lines -/

/-- `s.left_region, s.right_region, s.bc` of the segment that a new one takes after. -/
def templateOf (at_ : Dict Int (List Segment)) (a b : Int) : Except Exn Segment :=
  let shared := ((at_.get? a).getD []).filter fun s =>
    ((at_.get? b).getD []).any fun t => s.signature = t.signature
  match shared, at_.get? a with
  | s :: _, _ => .ok s
  | [], some found => index found 0
  | [], none => .error .keyError

/-- The segment that stood at the place of a step, or the one that stands for it. -/
def keptFor (original : Dict (Int × Int) Segment) (at_ : Dict Int (List Segment)) (a b : Int) :
    Except Exn Segment :=
  match original.get? (min a b, max a b) with
  | some kept => .ok kept
  | none => templateOf at_ a b

/-- A step of a loop in `_relink`. -/
def relinkStep (original : Dict (Int × Int) Segment) (at_ : Dict Int (List Segment))
    (out : Dict (Int × Int) Segment) (step : Int × Int) : Except Exn (Dict (Int × Int) Segment) :=
  let key := (min step.1 step.2, max step.1 step.2)
  if (out.get? key).isSome then .ok out
  else do
    let kept ← keptFor original at_ step.1 step.2
    .ok (out.set key ⟨step.1, step.2, kept.leftRegion, kept.rightRegion, kept.bc⟩)

/-- `at`. -/
def segmentsAt (segments : List Segment) : Dict Int (List Segment) :=
  segments.foldl (fun at_ s => (at_.alter s.a fun old => old.getD [] ++ [s]).alter s.b fun old =>
    old.getD [] ++ [s]) ∅

/-- `_relink`. -/
def relink (loops : List (Int × List (List Int))) (s : Structure Rat) : Except Exn (List Segment) := do
  let segments ← constrainedSegments s
  let original := Dict.ofList (segments.map fun s => ((min s.a s.b, max s.a s.b), s))
  let out ← ((loops.flatMap Prod.snd).flatMap steps).foldlM
    (relinkStep original (segmentsAt (original.entries.map Prod.snd))) ∅
  .ok (out.entries.map Prod.snd)

/-- `line_of`. -/
def linesOf (segments : List Segment) : Dict (Int × Int) Nat :=
  Dict.ofList (segments.zipIdx.map fun entry => ((entry.1.a, entry.1.b), entry.2 + 1))

/-- `_refs`. -/
def refs (lineOf : Dict (Int × Int) Nat) (loop : List Int) : Except Exn (List Int) :=
  (steps loop).mapM fun step =>
    match lineOf.get? step with
    | some n => .ok n
    | none => match lineOf.get? step.swap with
      | some n => .ok (-n)
      | none => .error .keyError

/-! ## Surfaces -/

/-- `_inside`: an edge from each point to the one after it, beginning with the last. -/
def inside (point : Rat × Rat) (polygon : List (Rat × Rat)) : Bool :=
  ((polygon.getLast?.toList ++ polygon).zip polygon).foldl (fun inside edge =>
    let (ax, ay) := edge.1
    let (bx, by_) := edge.2
    if decide (point.2 < ay) ≠ decide (point.2 < by_) ∧
        point.1 < ax + (point.2 - ay) * (bx - ax) / (by_ - ay) then !inside
    else inside) false

/-- `_inside(polygon[0], other)` for the polygons at two places. -/
def insideTest (polygons : List (List (Rat × Rat))) (i j : Nat) : Except Exn (Nat × Bool) := do
  let polygon ← index polygons i
  let first ← index polygon 0
  let other ← index polygons j
  .ok (j, inside first other)

/-- The polygons around the first point of a polygon. -/
def containers (polygons : List (List (Rat × Rat))) (i : Nat) : Except Exn (List Nat) := do
  let tests ← ((List.range polygons.length).filter fun j => j ≠ i).mapM (insideTest polygons i)
  .ok ((tests.filter fun test => test.2).map Prod.fst)

/-- `max` with a key, the first of the largest. -/
def deepest (depth : Nat → Nat) : List Nat → Option Nat
  | [] => none
  | j :: rest => some (rest.foldl (fun best k => if depth best < depth k then k else best) j)

/-- `nest_loops`. -/
def nestLoops (polygons : List (List (Rat × Rat))) : Except Exn (List (List Nat)) := do
  let around ← (List.range polygons.length).mapM (containers polygons)
  let depth := fun i => (around.getD i []).length
  let places := List.range polygons.length
  let groups := (places.filter fun i => depth i % 2 = 0).foldl (fun groups i => groups.set i [i])
    (∅ : Dict Nat (List Nat))
  let groups := (places.filter fun i => depth i % 2 = 1).foldl (fun groups i =>
    match deepest depth (around.getD i []) with
    | none => groups
    | some parent => match groups.get? parent with
      | none => groups
      | some group => groups.set parent (group ++ [i])) groups
  .ok (groups.entries.map Prod.snd)

/-- `_oriented_loops`. -/
def orientedLoops (loops : List (List Int)) (lineOf : Dict (Int × Int) Nat) (coords : List (Coordinate Rat)) :
    Except Exn (List (List (List Int))) := do
  let polygons ← loops.mapM fun loop => loop.dropLast.mapM fun i => do
    let point ← index coords i
    .ok (point.x, point.y)
  let groups ← nestLoops polygons
  groups.mapM fun group => group.mapM fun (i : Nat) => do
    let loop ← index loops (i : Int)
    refs lineOf loop

/-- `build_geo`. The segments between kept points are replaced by those of `_relink` before they are used. -/
def buildGeo (s : Structure Rat) (simplifyTolerance : Rat) : Except Exn GeoModel := do
  let segments ← constrainedSegments s
  let loops ← regionLoops s
  let keep ← simplifyBoundary s simplifyTolerance
  let loops := loops.map fun entry => (entry.1, entry.2.map (thin keep))
  let segments ← if 0 < simplifyTolerance then relink loops s else .ok segments
  let used := (segments.flatMap fun s => [s.a, s.b]).dedup.insertionSort (· ≤ ·)
  let points ← used.mapM fun i => do
    let point ← index s.coordinates i
    .ok (point.x, point.y)
  let lines := segments.map fun s => (used.idxOf s.a + 1, used.idxOf s.b + 1)
  let surfaces ← (loops.insertionSort fun a b => a.1 ≤ b.1).mapM fun entry => do
    let groups ← orientedLoops entry.2 (linesOf segments) s.coordinates
    .ok (groups.map fun group => Surface.mk entry.1 group)
  .ok ⟨points, lines, surfaces.flatten, used⟩

end TcadWebapp.Remesh
