import TcadWebapp.Misc.Python
import TcadWebapp.StrParser.Models

/-!
# The edges that are kept

`constrained_segments` of `remesh/geometry.py:50-88`: outer boundaries and interfaces between
regions, each edge once.
-/

namespace TcadWebapp.Remesh

open StrParser

structure Segment where
  a : Int
  b : Int
  leftRegion : Int
  rightRegion : Option Int
  bc : Int
  deriving DecidableEq, Repr

/-- `_element_at`; `by_index` is a dictionary, in which the last element of an id stands. -/
def elementAt (s : Structure Rat) (code : Int) : Option Element :=
  let byId := (s.elements.filter fun e => e.id = code + 1).getLast?
  if 0 ≤ code then
    match s.elements[code.toNat]? with
    | some candidate => if candidate.id = code + 1 then some candidate else byId
    | none => byId
  else byId

/-- The slots of one element, with `seen` in the order of insertion. -/
def segmentsOf (s : Structure Rat) (element : Element) :
    List Nat → Dict (Int × Int) Segment → Except Exn (Dict (Int × Int) Segment)
  | [], seen => .ok seen
  | i :: rest, seen => do
    let a ← index element.vertices ((i + 1) % 3 : Nat)
    let b ← index element.vertices ((i + 2) % 3 : Nat)
    let key := (min a b, max a b)
    if (seen.get? key).isSome then segmentsOf s element rest seen
    else
      let code ← index element.neighbors (i : Nat)
      if code < 0 then
        segmentsOf s element rest (seen.set key ⟨a, b, element.regionId, none, code⟩)
      else match elementAt s code with
        | none => segmentsOf s element rest seen
        | some other =>
          if other.regionId = element.regionId then segmentsOf s element rest seen
          else
            segmentsOf s element rest
              (seen.set key ⟨a, b, element.regionId, some other.regionId, 0⟩)

/-- `constrained_segments`. -/
def constrainedSegments (s : Structure Rat) : Except Exn (List Segment) := do
  if s.dimension ≠ 2 ∨ s.verticesPerElement ≠ 3 then
    .error (.valueError ("메시 재구성은 2 차원 구조만 다룹니다 (차원 " ++ toString s.dimension ++
      ", 요소당 정점 " ++ toString s.verticesPerElement ++ ")"))
  else
    let seen ← s.elements.foldlM (fun seen element => segmentsOf s element [0, 1, 2] seen) ∅
    .ok (seen.entries.map Prod.snd)

end TcadWebapp.Remesh
