import Mathlib.Algebra.Order.Ring.Unbundled.Rat
import Mathlib.Data.List.Sort
import TcadWebapp.Misc.Python
import TcadWebapp.StrParser.Models

/-!
# Finding the electrodes of a structure

`devsim/electrodes.py`: metal is collected into clusters of touching elements, the edges by
which a cluster touches the solved regions become an electrode, and the electrodes are named.
Structure files are not checked for their indices, so that every access here can raise.
-/

namespace TcadWebapp.Devsim

open StrParser

/-- `METAL`. -/
def metal : String := "aluminum"

/-- `SEMICONDUCTORS`. -/
def semiconductors : List String := ["silicon", "poly", "gaas"]

/-- `INSULATORS`. -/
def insulators : List String := ["oxide", "nitride", "oxynitride"]

inductive GateModel where
  | semiconductor
  | conductor
  deriving DecidableEq, Repr

/-- `GateModel.conductors`. -/
def GateModel.conductors : GateModel → List String
  | .conductor => [metal, "poly"]
  | .semiconductor => [metal]

inductive ContactKind where
  | semiconductor
  | insulator
  deriving DecidableEq, Repr

structure Extent where
  xMin : Rat
  xMax : Rat
  yMin : Rat
  yMax : Rat
  deriving DecidableEq, Repr

structure ContactEdge where
  elementId : Int
  regionId : Int
  vertices : Int × Int
  deriving DecidableEq, Repr

structure Electrode where
  name : String
  kind : ContactKind
  materials : List String
  edges : List ContactEdge
  extent : Extent
  origin : String
  deriving DecidableEq, Repr

/-- `edge_vertices` (`electrodes.py:133-136`). -/
def edgeVertices (element : Element) (slot : Nat) : Except Exn (Int × Int) := do
  let a ← index element.vertices ((slot + 1) % 3 : Nat)
  let b ← index element.vertices ((slot + 2) % 3 : Nat)
  .ok (a, b)

/-! ## Clusters -/

/-- `is_conductor`. -/
def isConductor (s : Structure Rat) (conductors : List String) : List Bool :=
  s.elements.map fun element =>
    (s.materialOfRegion.get? element.regionId).any (· ∈ conductors)

/-- The loop over the neighbours of an element: what of them is newly seen joins the queue. -/
def spread (conducts : List Bool) :
    List Int → List Bool → List Nat → Except Exn (List Bool × List Nat)
  | [], seen, queue => .ok (seen, queue)
  | neighbor :: rest, seen, queue =>
    if neighbor < 0 then spread conducts rest seen queue
    else match seen[neighbor.toNat]? with
      | none => .error .indexError
      | some true => spread conducts rest seen queue
      | some false =>
        if conducts[neighbor.toNat]? = some true then
          spread conducts rest (seen.set neighbor.toNat true) (queue ++ [neighbor.toNat])
        else spread conducts rest seen queue

/-- The breadth-first loop. There is fuel for one step an element, and no element is queued
twice (`flood_spec`). -/
def flood (elements : List Element) (conducts : List Bool) :
    Nat → List Bool → List Nat → List Nat → Except Exn (List Bool × List Nat)
  | fuel + 1, seen, i :: queue, group => do
    let element ← index elements (i : Nat)
    let (seen, queue) ← spread conducts element.neighbors seen queue
    flood elements conducts fuel seen queue (group ++ [i])
  | _, seen, _, group => .ok (seen, group)

/-- The loop over the elements from which a cluster can start. -/
def clustersFrom (elements : List Element) (conducts : List Bool) :
    List Nat → List Bool → List (List Nat) → Except Exn (List (List Nat))
  | [], _, clusters => .ok clusters
  | start :: rest, seen, clusters =>
    if seen[start]? = some true ∨ conducts[start]? ≠ some true then
      clustersFrom elements conducts rest seen clusters
    else do
      let (seen, group) ← flood elements conducts elements.length (seen.set start true) [start] []
      clustersFrom elements conducts rest seen (clusters ++ [group.insertionSort (· ≤ ·)])

/-- `conductor_clusters` (`electrodes.py:139-171`). -/
def conductorClusters (s : Structure Rat) (conductors : List String) :
    Except Exn (List (List Nat)) :=
  clustersFrom s.elements (isConductor s conductors)
    (List.range s.elements.length) (List.replicate s.elements.length false) []

/-! ## The edges of a cluster -/

/-- An edge by which a cluster touches something that is solved. -/
structure Touch where
  /-- The cluster's side was a semiconductor before it counted as a conductor. -/
  fromGate : Bool
  semiconductor : Bool
  edge : ContactEdge
  deriving DecidableEq, Repr

/-- The loop over the neighbours of one element of a cluster. -/
def touchesOf (s : Structure Rat) (conductors : List String) (cluster : List Nat)
    (element : Element) : List (Nat × Int) → Except Exn (List Touch)
  | [] => .ok []
  | (slot, neighbor) :: rest =>
    if neighbor < 0 ∨ neighbor.toNat ∈ cluster then
      touchesOf s conductors cluster element rest
    else do
      let other ← index s.elements neighbor
      let material := s.materialOfRegion.get? other.regionId
      if material.any (· ∈ conductors) then touchesOf s conductors cluster element rest
      else
        let (a, b) ← edgeVertices element slot
        let touches ← touchesOf s conductors cluster element rest
        let fromGate := (s.materialOfRegion.get? element.regionId).any (· ∈ semiconductors)
        let edge : ContactEdge := ⟨other.id, other.regionId, (b, a)⟩
        if material.any (· ∈ semiconductors) then .ok (⟨fromGate, true, edge⟩ :: touches)
        else if material.any (· ∈ insulators) then .ok (⟨fromGate, false, edge⟩ :: touches)
        else .ok touches

/-- `_contact_edges_of_cluster` (`electrodes.py:185-237`). -/
def contactEdgesOfCluster (s : Structure Rat) (cluster : List Nat)
    (conductors : List String) : Except Exn (List ContactEdge) := do
  let touches ← cluster.mapM fun i => do
    let element ← index s.elements (i : Nat)
    touchesOf s conductors cluster element
      ((List.range element.neighbors.length).zip element.neighbors)
  let (semiconductor, insulator) := touches.flatten.partition Touch.semiconductor
  let chosen := if semiconductor = [] then insulator else semiconductor
  let fromGate := chosen.filter Touch.fromGate
  .ok ((if fromGate = [] then chosen else fromGate).map Touch.edge)

/-- `min` and `max` of a list; of an empty one they raise. -/
def minOf : List Rat → Except Exn Rat
  | [] => .error (.valueError "min() iterable argument is empty")
  | x :: xs => .ok (xs.foldl min x)

def maxOf : List Rat → Except Exn Rat
  | [] => .error (.valueError "max() iterable argument is empty")
  | x :: xs => .ok (xs.foldl max x)

/-- `extent_of` (`electrodes.py:174-182`). -/
def extentOf (s : Structure Rat) (edges : List ContactEdge) : Except Exn Extent := do
  let points ← (edges.flatMap fun edge => [edge.vertices.1, edge.vertices.2]).mapM
    (index s.coordinates)
  let xMin ← minOf (points.map Coordinate.x)
  let xMax ← maxOf (points.map Coordinate.x)
  let yMin ← minOf (points.map Coordinate.y)
  let yMax ← maxOf (points.map Coordinate.y)
  .ok ⟨xMin, xMax, yMin, yMax⟩

/-! ## Electrodes -/

/-- The materials under some edges, each once and sorted. -/
def touchedMaterials (s : Structure Rat) (edges : List ContactEdge) : Except Exn (List String) := do
  let materials ← edges.mapM fun edge => match s.materialOfRegion.get? edge.regionId with
    | some material => .ok material
    | none => .error .keyError
  .ok (materials.dedup.insertionSort (· ≤ ·))

/-- An entry of `candidates`. -/
structure Candidate where
  extent : Extent
  kind : ContactKind
  materials : List String
  edges : List ContactEdge

def Candidate.center (c : Candidate) : Rat := (c.extent.xMin + c.extent.xMax) / 2

/-- `looks_like_gate`. -/
def Candidate.looksLikeGate (c : Candidate) : Bool := c.kind = .insulator ∨ "poly" ∈ c.materials

/-- The `k`-th name among so many gates or so many other contacts. -/
def gateName (gates k : Nat) : String := if gates = 1 then "gate" else "gate" ++ toString k

def plainName (plain k : Nat) : String :=
  if plain = 2 then if k = 1 then "source" else "drain" else "contact" ++ toString k

/-- The names in the order of the candidates, with `g` gates and `p` others named before. -/
def nameFrom (gates plain : Nat) : List Candidate → Nat → Nat → List Electrode
  | [], _, _ => []
  | c :: rest, g, p =>
    if c.looksLikeGate then
      ⟨gateName gates (g + 1), c.kind, c.materials, c.edges, c.extent, "metal"⟩ ::
        nameFrom gates plain rest (g + 1) p
    else
      ⟨plainName plain (p + 1), c.kind, c.materials, c.edges, c.extent, "metal"⟩ ::
        nameFrom gates plain rest g (p + 1)

/-- `_name_electrodes` (`electrodes.py:241-284`). -/
def nameElectrodes (candidates : List Candidate) : List Electrode :=
  let ordered := candidates.insertionSort fun a b => a.center ≤ b.center
  nameFrom (ordered.countP Candidate.looksLikeGate)
    (ordered.countP fun c => !c.looksLikeGate) ordered 0 0

def kindOf (materials : List String) : ContactKind :=
  if materials.any (· ∈ semiconductors) then .semiconductor else .insulator

/-- The candidate of a cluster, if it touches anything. -/
def candidateOf (s : Structure Rat) (conductors : List String) (cluster : List Nat) :
    Except Exn (Option Candidate) := do
  let edges ← contactEdgesOfCluster s cluster conductors
  if edges = [] then .ok none
  else
    let touched ← touchedMaterials s edges
    let extent ← extentOf s edges
    .ok (some ⟨extent, kindOf touched, touched, edges⟩)

/-- `detect_electrodes` (`electrodes.py:287-316`). -/
def detectElectrodes (s : Structure Rat) (gateModel : GateModel) : Except Exn (List Electrode) := do
  let clusters ← conductorClusters s gateModel.conductors
  let candidates ← clusters.mapM (candidateOf s gateModel.conductors)
  .ok (nameElectrodes (candidates.filterMap id))

/-- `BoundaryCondition.BACKSIDE`. -/
def backside : Int := -1023

/-- `backside_candidate` (`electrodes.py:319-356`). -/
def backsideCandidate (s : Structure Rat) : Except Exn (Option Electrode) := do
  let edges ← s.elements.mapM fun element =>
    if (s.materialOfRegion.get? element.regionId).any (· ∈ semiconductors) then
      (((List.range element.neighbors.length).zip element.neighbors).filter
        fun slot => slot.2 = backside).mapM fun slot => do
          let vertices ← edgeVertices element slot.1
          .ok (⟨element.id, element.regionId, vertices⟩ : ContactEdge)
    else .ok []
  if edges.flatten = [] then .ok none
  else
    let touched ← touchedMaterials s edges.flatten
    let extent ← extentOf s edges.flatten
    .ok (some ⟨"body", .semiconductor, touched, edges.flatten, extent, "backside"⟩)

/-- `detect_interfaces` (`electrodes.py:359-374`). -/
def detectInterfaces (s : Structure Rat) (gateModel : GateModel) : Except Exn (List Electrode) := do
  let found ← detectElectrodes s gateModel
  let body ← backsideCandidate s
  .ok (found ++ body.toList)

end TcadWebapp.Devsim
