import TcadWebapp.Misc.Multigraph
import TcadWebapp.Remesh.Geometry

/-!
# The boundaries of regions

`region_loops` of `remesh/geometry.py:97-153`: the kept edges of a region are walked along until the walk
is back where it started, and again while any are left.
-/

namespace TcadWebapp.Remesh

open StrParser

/-- What raises where a boundary does not close. -/
def brokenAt (region current : Int) : Exn :=
  .valueError ("영역 " ++ toString region ++ " 의 경계가 점 " ++ toString current ++ " 에서 끊겼습니다")

/-- One turn of the inner loop: the last neighbour that is noted is the next point, and the edge to it is
taken out at both ends. -/
def takeEdge (remaining : Dict Int (List Int)) (current : Int) : Option (Int × Dict Int (List Int)) :=
  match (near remaining current).getLast? with
  | none => none
  | some next =>
    let remaining := put remaining current (near remaining current).dropLast
    if current ∈ near remaining next then
      some (next, put remaining next ((near remaining next).erase current))
    else some (next, remaining)

/-- The inner loop. There is fuel for a turn an edge (`walk_spec`). -/
def walk (region start : Int) :
    Nat → Int → Dict Int (List Int) → List Int → Except Exn (List Int × Dict Int (List Int))
  | 0, current, _, _ => .error (brokenAt region current)
  | fuel + 1, current, remaining, loop =>
    match takeEdge remaining current with
    | none => .error (brokenAt region current)
    | some (next, remaining) =>
      if next = start then .ok (loop ++ [next], remaining)
      else walk region start fuel next remaining (loop ++ [next])

/-- The outer loop, with fuel for a loop an edge. -/
def loopsFrom (region : Int) (edges : Nat) :
    Nat → Dict Int (List Int) → List (List Int) → Except Exn (List (List Int))
  | fuel, remaining, loops =>
    match remaining.entries, fuel with
    | [], _ => .ok loops
    | (start, _) :: _, 0 => .error (brokenAt region start)
    | (start, _) :: _, fuel + 1 => do
      let (loop, remaining) ← walk region start edges start remaining [start]
      loopsFrom region edges fuel remaining (loops ++ [loop])

theorem loopsFrom_of_empty {region : Int} {edges fuel : Nat} {remaining : Dict Int (List Int)}
    {loops : List (List Int)} (h : remaining.entries = []) :
    loopsFrom region edges fuel remaining loops = .ok loops := by
  rw [loopsFrom.eq_def]
  dsimp only
  rw [h]

theorem loopsFrom_succ {region start : Int} {edges fuel : Nat} {remaining : Dict Int (List Int)}
    {noted : List Int} {rest : List (Int × List Int)} {loops : List (List Int)}
    (h : remaining.entries = (start, noted) :: rest) :
    loopsFrom region edges (fuel + 1) remaining loops =
      walk region start edges start remaining [start] >>= fun walked =>
        loopsFrom region edges fuel walked.2 (loops ++ [walked.1]) := by
  rw [loopsFrom.eq_def]
  dsimp only
  rw [h]

/-- `_loops`, of a region with so many edges. -/
def loopsOf (region : Int) (edges : Nat) (side : Dict Int (List Int)) :
    Except Exn (List (List Int)) :=
  loopsFrom region edges edges side []

/-- The regions on both sides of a segment. -/
def Segment.regions (segment : Segment) : List Int := segment.leftRegion :: segment.rightRegion.toList

/-- `incident`. -/
def incidence (segments : List Segment) : Dict Int (Dict Int (List Int)) :=
  segments.foldl (fun incident segment => segment.regions.foldl (fun incident region =>
    incident.alter region fun side => note (note (side.getD ∅) segment.a segment.b) segment.b segment.a)
    incident) ∅

/-- `region_loops`. -/
def regionLoops (s : Structure Rat) : Except Exn (List (Int × List (List Int))) := do
  let segments ← constrainedSegments s
  (incidence segments).entries.mapM fun entry => do
    let loops ← loopsOf entry.1 segments.length entry.2
    .ok (entry.1, loops)

end TcadWebapp.Remesh
