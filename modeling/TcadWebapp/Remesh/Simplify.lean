import Mathlib.Algebra.Order.Ring.Rat
import Mathlib.Data.List.Sort
import TcadWebapp.Misc.Thinning
import TcadWebapp.Remesh.Loops

/-!
# Thinning of the boundary

`simplify_boundary` of `remesh/simplify.py`, and `_thin` of `remesh/geo.py:346-349`. Lengths are compared by
their squares, sets are lists. Where the fuel of a loop ends there is an error, which is not reached
(`simplifyBoundary_spec`).
-/

namespace TcadWebapp.Remesh

open StrParser

/-- A loop that does not end. -/
def outOfFuel : Exn := .stopIteration

/-! ## The lines between fixed points -/

/-- `(s.left_region, s.right_region, s.bc)`. -/
def Segment.signature (segment : Segment) : Int × Option Int × Int :=
  (segment.leftRegion, segment.rightRegion, segment.bc)

/-- `neighbours`. -/
def neighboursOf (segments : List Segment) : Dict Int (List Int) :=
  segments.foldl (fun neighbours s => note (note neighbours s.a s.b) s.b s.a) ∅

/-- `kinds.setdefault(i, set()).add(signature)`. -/
def addKind (kinds : Dict Int (List (Int × Option Int × Int))) (i : Int)
    (signature : Int × Option Int × Int) : Dict Int (List (Int × Option Int × Int)) :=
  kinds.alter i fun old => (old.getD []).insert signature

/-- `kinds`. -/
def kindsOf (segments : List Segment) : Dict Int (List (Int × Option Int × Int)) :=
  segments.foldl (fun kinds s => addKind (addKind kinds s.a s.signature) s.b s.signature) ∅

/-- The points that must not go. -/
def fixedPoints (segments : List Segment) : List Int :=
  (neighboursOf segments).keys.filter fun i => (near (neighboursOf segments) i).length ≠ 2 ∨
    1 < (((kindsOf segments).get? i).getD []).length

/-- The inner loop of `_chains`. There is fuel for a turn a point. -/
def follow (neighbours : Dict Int (List Int)) (fixed : List Int) :
    Nat → Int → Int → List (Int × Int) → List Int → Except Exn (List Int × List (Int × Int))
  | 0, _, _, _, _ => .error outOfFuel
  | fuel + 1, previous, current, seen, chain =>
    let seen := (current, previous) :: (previous, current) :: seen
    let chain := chain ++ [current]
    if current ∈ fixed then .ok (chain, seen)
    else match (near neighbours current).filter fun n => n ≠ previous with
      | [next] => follow neighbours fixed fuel current next seen chain
      | _ => .ok (chain, seen)

/-- One turn of the loops of `_chains`. -/
def followNew (neighbours : Dict Int (List Int)) (fixed : List Int)
    (state : List (List Int) × List (Int × Int)) (step : Int × Int) :
    Except Exn (List (List Int) × List (Int × Int)) :=
  if step ∈ state.2 then .ok state
  else do
    let (chain, seen) ← follow neighbours fixed (neighbours.entries.length + 1) step.1 step.2 state.2
      [step.1]
    .ok (if 2 < chain.length then state.1 ++ [chain] else state.1, seen)

/-- The points at which the lines are cut: the fixed points or, without any, one point. -/
def startsOf (fixed every : List Int) : List Int :=
  if fixed = [] then (every.insertionSort (· ≤ ·)).take 1 else fixed.insertionSort (· ≤ ·)

/-- `_chains`; `fixed` is replaced by the starts there only if it is empty. -/
def chainsOf (neighbours : Dict Int (List Int)) (fixed every : List Int) :
    Except Exn (List (List Int)) := do
  let starts := startsOf fixed every
  let steps := starts.flatMap fun start => (near neighbours start).map fun first => (start, first)
  let (chains, _) ← steps.foldlM (followNew neighbours starts) ([], [])
  .ok chains

/-! ## Douglas and Peucker -/

/-- `_offset`, squared. -/
def offsetSq (point a b : Coordinate Rat) : Rat :=
  let dx := b.x - a.x
  let dy := b.y - a.y
  let length := dx * dx + dy * dy
  if length = 0 then (point.x - a.x) ^ 2 + (point.y - a.y) ^ 2
  else
    let t := max 0 (min 1 (((point.x - a.x) * dx + (point.y - a.y) * dy) / length))
    (point.x - (a.x + t * dx)) ^ 2 + (point.y - (a.y + t * dy)) ^ 2

/-- `_offset` of the point at a place of a chain from the chord between two others. -/
def offsetAt (points : List (Coordinate Rat)) (lo hi k : Nat) : Rat :=
  let point := fun i => points.getD i ⟨0, 0, 0⟩
  offsetSq (point k) (point lo) (point hi)

/-- The loop over the stack. There is fuel for a turn a stretch. -/
def splitFrom (chain : List Int) (offset : Nat → Nat → Nat → Rat) (tolerance : Rat) :
    Nat → List (Nat × Nat) → List Int → Except Exn (List Int)
  | _, [], keep => .ok keep
  | 0, _ :: _, _ => .error outOfFuel
  | fuel + 1, (lo, hi) :: stack, keep =>
    if hi - lo < 2 then splitFrom chain offset tolerance fuel stack keep
    else
      let worst := farthest (offset lo hi) (-1) (between lo hi)
      if tolerance ^ 2 < worst.1 then
        splitFrom chain offset tolerance fuel ((worst.2, hi) :: (lo, worst.2) :: stack)
          (keep ++ [chain.getD worst.2 0])
      else splitFrom chain offset tolerance fuel stack keep

/-- `_douglas_peucker`; the points are looked up first, since a chain has all of them looked at. -/
def douglasPeucker (coords : List (Coordinate Rat)) (tolerance : Rat) (chain : List Int) :
    Except Exn (List Int) := do
  let points ← chain.mapM (index coords)
  splitFrom chain (offsetAt points) tolerance (2 * chain.length) [(0, chain.length - 1)]
    [chain.getD 0 0, chain.getD (chain.length - 1) 0]

/-- `simplify_boundary`. -/
def simplifyBoundary (s : Structure Rat) (tolerance : Rat) : Except Exn (List Int) := do
  let segments ← constrainedSegments s
  let neighbours := neighboursOf segments
  if tolerance ≤ 0 then .ok neighbours.keys
  else
    let fixed := fixedPoints segments
    let chains ← chainsOf neighbours fixed neighbours.keys
    let keep ← chains.mapM (douglasPeucker s.coordinates tolerance)
    .ok (fixed ++ keep.flatten)

/-- `_thin`. -/
def thin (keep loop : List Int) : List Int :=
  match loop.dropLast.filter (· ∈ keep) with
  | [] => loop
  | first :: rest => first :: rest ++ [first]

end TcadWebapp.Remesh
