import TcadWebapp.Remesh.Geometry
import TcadWebapp.StrParser.Sides

/-!
# The kept segments, side by side

On a mesh of triangles `constrained_segments` goes over the sides and keeps for each edge the segment of the
first side that gives one.
-/

namespace TcadWebapp.Remesh

open StrParser

variable {s : Structure Rat}

/-- The segment of a side, if it is to be kept. -/
def sideSegment (s : Structure Rat) (side : Side) : Option Segment :=
  if side.code < 0 then some ⟨side.a, side.b, side.regionId, none, side.code⟩
  else match elementAt s side.code with
    | none => none
    | some other =>
      if other.regionId = side.regionId then none
      else some ⟨side.a, side.b, side.regionId, some other.regionId, 0⟩

/-- What the loop does with a side. -/
def keepSide (s : Structure Rat) (seen : Dict (Int × Int) Segment) (side : Side) :
    Dict (Int × Int) Segment :=
  if (seen.get? side.pair).isSome then seen
  else match sideSegment s side with
    | none => seen
    | some segment => seen.set side.pair segment

def Segment.pair (segment : Segment) : Int × Int := edgePair segment.a segment.b

theorem pair_of_sideSegment {side : Side} {segment : Segment} (h : sideSegment s side = some segment) :
    segment.a = side.a ∧ segment.b = side.b ∧ segment.leftRegion = side.regionId := by
  unfold sideSegment at h
  split at h
  · exact Option.some.inj h ▸ ⟨rfl, rfl, rfl⟩
  · split at h
    · cases h
    · split at h
      · cases h
      · exact Option.some.inj h ▸ ⟨rfl, rfl, rfl⟩

/-! ## The loop -/

theorem segmentsOf_cons {element : Element} {t slot : Nat} {rest : List Nat} {side : Side}
    (made : element.side t slot = some side) (seen : Dict (Int × Int) Segment) :
    segmentsOf s element (slot :: rest) seen = segmentsOf s element rest (keepSide s seen side) := by
  obtain ⟨-, -, first, second, region, entry⟩ := Element.side_eq_some.mp made
  have ha : index element.vertices ((slot + 1) % 3 : Nat) = .ok side.a := by
    rw [index_natCast, first]
  have hb : index element.vertices ((slot + 2) % 3 : Nat) = .ok side.b := by
    rw [index_natCast, second]
  have hc : index element.neighbors (slot : Nat) = .ok side.code := by
    rw [index_natCast, entry]
  rw [segmentsOf, ha, hb, hc]
  dsimp only [bind, Except.bind]
  unfold keepSide sideSegment Side.pair edgePair
  split
  · rfl
  · rw [region]
    split
    · rfl
    · cases elementAt s side.code with
      | none => rfl
      | some other =>
        dsimp only
        split
        · rfl
        · rfl

theorem segmentsOf_eq {element : Element} (triangle : element.vertices.length = 3 ∧
    element.neighbors.length = 3) (t : Nat) (seen : Dict (Int × Int) Segment) :
    segmentsOf s element [0, 1, 2] seen = .ok ((element.sides t).foldl (keepSide s) seen) := by
  obtain ⟨x, y, z, sides, first, second, third⟩ := element.exists_sides triangle t
  rw [segmentsOf_cons first, segmentsOf_cons second, segmentsOf_cons third, segmentsOf, sides]
  rfl

/-- The structures that `constrained_segments` takes, with triangles as their elements. -/
structure Flat (s : Structure Rat) : Prop where
  dimension : s.dimension = 2
  vertices : s.verticesPerElement = 3
  triangles : ∀ element ∈ s.elements, element.vertices.length = 3 ∧ element.neighbors.length = 3

theorem foldlM_segmentsOf (elements : List Element) (triangles : ∀ element ∈ elements,
    element.vertices.length = 3 ∧ element.neighbors.length = 3) (n : Nat)
    (seen : Dict (Int × Int) Segment) :
    elements.foldlM (fun seen element => segmentsOf s element [0, 1, 2] seen) seen =
      .ok (((elements.zipIdx n).flatMap fun entry => entry.1.sides entry.2).foldl (keepSide s) seen) := by
  induction elements generalizing n seen with
  | nil => rfl
  | cons element elements ih =>
    rw [List.foldlM_cons, segmentsOf_eq (triangles element List.mem_cons_self) n, List.zipIdx_cons,
      List.flatMap_cons, List.foldl_append]
    exact ih (fun other mem => triangles other (List.mem_cons_of_mem _ mem)) (n + 1) _

/-- What the loops over all sides keep. -/
def kept (s : Structure Rat) : Dict (Int × Int) Segment :=
  (meshSides s.elements).foldl (keepSide s) ∅

theorem constrainedSegments_eq (flat : Flat s) :
    constrainedSegments s = .ok ((kept s).entries.map Prod.snd) := by
  rw [constrainedSegments, if_neg (by simp [flat.dimension, flat.vertices]),
    foldlM_segmentsOf s.elements flat.triangles 0]
  rfl

theorem get?_keepSide (seen : Dict (Int × Int) Segment) (side : Side) (pair : Int × Int) :
    (keepSide s seen side).get? pair =
      (seen.get? pair).or (if side.pair = pair then sideSegment s side else none) := by
  unfold keepSide
  split
  · rename_i there
    obtain ⟨segment, found⟩ := Option.isSome_iff_exists.mp there
    by_cases same : side.pair = pair
    · rw [← same, found]
      rfl
    · rw [if_neg same, Option.or_none]
  · rename_i away
    have none_ : seen.get? side.pair = none := Option.not_isSome_iff_eq_none.mp away
    cases made : sideSegment s side with
    | none => rw [ite_self, Option.or_none]
    | some segment =>
      dsimp only
      rw [Dict.get?_set]
      by_cases same : side.pair = pair
      · rw [if_pos same.symm, if_pos same, ← same, none_]
        rfl
      · rw [if_neg (Ne.symm same), if_neg same, Option.or_none]

/-- For each edge the segment of the first side that gives one. -/
theorem get?_foldl_keepSide (sides : List Side) (seen : Dict (Int × Int) Segment) (pair : Int × Int) :
    (sides.foldl (keepSide s) seen).get? pair = (seen.get? pair).or
      (sides.findSome? fun side => if side.pair = pair then sideSegment s side else none) := by
  induction sides generalizing seen with
  | nil => rw [List.foldl_nil, List.findSome?_nil, Option.or_none]
  | cons side sides ih =>
    rw [List.foldl_cons, ih, get?_keepSide, Option.or_assoc, List.findSome?_cons]
    generalize (if side.pair = pair then sideSegment s side else none) = given
    cases given <;> rfl

/-- The segments that are kept are those of sides, one for each edge that has any. -/
structure AreSegments (s : Structure Rat) (segments : List Segment) : Prop where
  ofSide : ∀ segment ∈ segments, ∃ side ∈ meshSides s.elements, sideSegment s side = some segment
  exists_pair : ∀ side ∈ meshSides s.elements, (sideSegment s side).isSome →
    ∃ segment ∈ segments, segment.pair = side.pair
  nodup : (segments.map Segment.pair).Nodup

theorem Segment.pair_eq {side : Side} {segment : Segment} (h : sideSegment s side = some segment) :
    segment.pair = side.pair := by
  obtain ⟨first, second, -⟩ := pair_of_sideSegment h
  rw [Segment.pair, first, second]
  rfl

theorem constrainedSegments_spec (flat : Flat s) :
    ∃ segments, constrainedSegments s = .ok segments ∧ AreSegments s segments := by
  have found : ∀ pair, (kept s).get? pair = (meshSides s.elements).findSome? fun side =>
      if side.pair = pair then sideSegment s side else none := by
    intro pair
    rw [kept, get?_foldl_keepSide, Dict.get?_empty, Option.none_or]
  have made : ∀ {pair segment}, (kept s).get? pair = some segment → segment.pair = pair ∧
      ∃ side ∈ meshSides s.elements, sideSegment s side = some segment := by
    intro pair segment there
    rw [found] at there
    obtain ⟨side, mem, hit⟩ := List.exists_of_findSome?_eq_some there
    split at hit
    · rename_i same
      exact ⟨(Segment.pair_eq hit).trans same, side, mem, hit⟩
    · cases hit
  refine ⟨_, constrainedSegments_eq flat, ?_, ?_, ?_⟩
  · intro segment mem
    obtain ⟨⟨pair, _⟩, entry, rfl⟩ := List.mem_map.mp mem
    exact (made (Dict.get?_eq_some.mpr entry)).2
  · intro side mem gives
    obtain ⟨segment, hit⟩ : ∃ segment, (kept s).get? side.pair = some segment := by
      rw [← Option.isSome_iff_exists, found, List.findSome?_isSome_iff]
      exact ⟨side, mem, by rwa [if_pos rfl]⟩
    exact ⟨segment, List.mem_map.mpr ⟨(side.pair, segment), Dict.get?_eq_some.mp hit, rfl⟩, (made hit).1⟩
  · have keys : ((kept s).entries.map Prod.snd).map Segment.pair = (kept s).entries.map Prod.fst := by
      rw [List.map_map]
      exact List.map_congr_left fun entry mem => (made (Dict.get?_eq_some.mpr mem)).1
    rw [keys]
    exact (kept s).nodup

/-! ## Meshes that conform -/

/-- An entry as `_element_at` reads it: it leads to the element at the position. -/
def Names (s : Structure Rat) (code : Int) (t : Nat) : Prop :=
  0 ≤ code ∧ elementAt s code = s.elements[t]?

instance (s : Structure Rat) (code : Int) (t : Nat) : Decidable (Names s code t) :=
  inferInstanceAs (Decidable (_ ∧ _))

section Conforming

variable (conforming : ConformingMesh s.elements (Names s))

include conforming

/-- The segment of a side with another at its edge. -/
theorem sideSegment_of_pair {x y : Side} (hx : x ∈ meshSides s.elements) (hy : y ∈ meshSides s.elements)
    (ne : x ≠ y) (pair : x.pair = y.pair) : sideSegment s x =
      if y.regionId = x.regionId then none else some ⟨x.a, x.b, x.regionId, some y.regionId, 0⟩ := by
  obtain ⟨pos, leads⟩ := conforming.paired x hx y hy ne pair
  obtain ⟨element, found, -, made⟩ := mem_meshSides.mp hy
  have region := (Element.side_eq_some.mp made).2.2.2.2.1
  rw [sideSegment, if_neg (by omega), leads, found, region]

/-- A side without a segment has another of its region at its edge, which has none either. -/
theorem exists_other_of_none (enclosed : Enclosed s.elements) {x : Side} (hx : x ∈ meshSides s.elements)
    (nothing : sideSegment s x = none) : ∃ y ∈ meshSides s.elements, y ≠ x ∧ y.pair = x.pair ∧
      y.regionId = x.regionId ∧ sideSegment s y = none := by
  have pos : ¬ x.code < 0 := by
    intro neg
    rw [sideSegment, if_pos neg] at nothing
    cases nothing
  have others : ¬ ∀ y ∈ meshSides s.elements, y.pair = x.pair → y = x := fun alone =>
    pos (enclosed x hx alone)
  push Not at others
  obtain ⟨y, hy, pair, ne⟩ := others
  have value := sideSegment_of_pair conforming hx hy ne.symm pair.symm
  rw [nothing] at value
  have same : y.regionId = x.regionId := by
    by_contra other
    rw [if_neg other] at value
    cases value
  refine ⟨y, hy, ne, pair, same, ?_⟩
  rw [sideSegment_of_pair conforming hy hx ne pair, if_pos same.symm]

/-- A segment with a region on its other side is that of an edge which a side of that region has, too. -/
theorem exists_other_of_right (enclosed : Enclosed s.elements) {x : Side} (hx : x ∈ meshSides s.elements)
    {segment : Segment} (made : sideSegment s x = some segment) {region : Int}
    (right : segment.rightRegion = some region) : region ≠ x.regionId ∧ ∃ y ∈ meshSides s.elements,
      y.pair = x.pair ∧ y.regionId = region ∧ (sideSegment s y).isSome := by
  have pos : ¬ x.code < 0 := by
    intro neg
    rw [sideSegment, if_pos neg] at made
    obtain rfl := Option.some.inj made
    cases right
  have others : ¬ ∀ y ∈ meshSides s.elements, y.pair = x.pair → y = x := fun alone =>
    pos (enclosed x hx alone)
  push Not at others
  obtain ⟨y, hy, pair, ne⟩ := others
  have value := sideSegment_of_pair conforming hx hy ne.symm pair.symm
  rw [made] at value
  split at value
  · cases value
  · rename_i apart
    obtain rfl := Option.some.inj value
    obtain rfl := Option.some.inj right
    refine ⟨apart, y, hy, pair, rfl, ?_⟩
    rw [sideSegment_of_pair conforming hy hx ne pair, if_neg (Ne.symm apart)]
    rfl

end Conforming

end TcadWebapp.Remesh
