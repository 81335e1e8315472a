import Mathlib.Algebra.BigOperators.Ring.Finset
import Mathlib.Data.ZMod.Basic
import TcadWebapp.Remesh.Proofs.Segments
import TcadWebapp.Remesh.Proofs.Walks

/-!
# Region boundaries close

At every point an even number of the kept edges of a region ends: the sides of the region's elements do so
element by element, and those that are not kept come in pairs.
-/

namespace TcadWebapp.Remesh

open StrParser

variable {s : Structure Rat} {segments : List Segment}

/-! ## Even degrees -/

/-- How many ends of an edge are at a point. -/
def endsAt (v : Int) (edge : Int × Int) : Nat :=
  (if edge.1 = v then 1 else 0) + if edge.2 = v then 1 else 0

theorem degree_eq_sum (edges : List (Int × Int)) (v : Int) :
    degree edges v = (edges.map (endsAt v)).sum := by
  induction edges with
  | nil => rfl
  | cons e edges ih =>
    rw [degree_cons, ih, List.map_cons, List.sum_cons, Nat.add_comm]
    rfl

theorem endsAt_edgePair (v a b : Int) : endsAt v (edgePair a b) = endsAt v (a, b) := by
  unfold endsAt edgePair
  rcases le_total a b with le | le
  · rw [min_eq_left le, max_eq_right le]
  · rw [min_eq_right le, max_eq_left le]
    exact Nat.add_comm _ _

theorem even_sum_flatMap {α : Type*} {f : α → List Nat} {l : List α} (h : ∀ a ∈ l, Even (f a).sum) :
    Even (l.flatMap f).sum := by
  induction l with
  | nil => exact ⟨0, rfl⟩
  | cons a l ih =>
    rw [List.flatMap_cons, List.sum_append]
    exact (h a List.mem_cons_self).add (ih fun b hb => h b (List.mem_cons_of_mem _ hb))

/-- The sides of an element have an even number of ends at a point. -/
theorem even_sides {element : Element} (triangle : element.vertices.length = 3 ∧
    element.neighbors.length = 3) (t : Nat) (v : Int) :
    Even ((element.sides t).map fun side => endsAt v side.pair).sum := by
  obtain ⟨a, b, c, l, m, n, -, -, sides⟩ := element.sides_of_triangle triangle t
  rw [sides]
  simp only [List.map_cons, List.map_nil, List.sum_cons, List.sum_nil, Side.pair, endsAt_edgePair]
  simp only [endsAt]
  refine ⟨(if a = v then 1 else 0) + (if b = v then 1 else 0) + if c = v then 1 else 0, ?_⟩
  omega

theorem even_region_sides (triangles : ∀ element ∈ s.elements,
    element.vertices.length = 3 ∧ element.neighbors.length = 3) (region v : Int) :
    Even (((meshSides s.elements).filter fun side => side.regionId = region).map
      fun side => endsAt v side.pair).sum := by
  rw [meshSides, List.filter_flatMap, List.map_flatMap]
  refine even_sum_flatMap fun entry mem => ?_
  obtain ⟨element, t⟩ := entry
  have found := List.mem_zipIdx_iff_getElem?.mp mem
  -- All sides of an element are of its region.
  have region_ : ∀ side ∈ element.sides t, side.regionId = element.regionId := by
    intro side hside
    obtain ⟨slot, -, made⟩ := List.mem_filterMap.mp hside
    exact (Element.side_eq_some.mp made).2.2.2.2.1
  by_cases same : element.regionId = region
  · rw [List.filter_eq_self.mpr fun side hside => decide_eq_true ((region_ side hside).trans same)]
    exact even_sides (triangles element (List.mem_of_getElem? found)) t v
  · rw [List.filter_eq_nil_iff.mpr fun side hside => by rw [region_ side hside]; simpa using same]
    exact ⟨0, rfl⟩

section Conforming

variable (conforming : ConformingMesh s.elements (Names s)) (enclosed : Enclosed s.elements)

include conforming enclosed

/-- Inside a region the sides come in pairs. -/
theorem even_inner_sides (region v : Int) :
    Even (((meshSides s.elements).filter fun side => side.regionId = region ∧
      sideSegment s side = none).map fun side => endsAt v side.pair).sum := by
  have mem_inner : ∀ {side}, side ∈ (meshSides s.elements).filter (fun side =>
      side.regionId = region ∧ sideSegment s side = none) ↔
      side ∈ meshSides s.elements ∧ side.regionId = region ∧ sideSegment s side = none := by
    intro side
    rw [List.mem_filter, decide_eq_true_eq]
  have nodup := (nodup_meshSides s.elements).filter fun side =>
    side.regionId = region ∧ sideSegment s side = none
  have other : ∀ x ∈ ((meshSides s.elements).filter fun side => side.regionId = region ∧
      sideSegment s side = none).toFinset, ∃ y ∈ ((meshSides s.elements).filter fun side =>
        side.regionId = region ∧ sideSegment s side = none).toFinset, y ≠ x ∧ y.pair = x.pair := by
    intro x hx
    obtain ⟨hx, region_, nothing⟩ := mem_inner.mp (List.mem_toFinset.mp hx)
    obtain ⟨y, hy, ne, pair, same, nothing'⟩ := exists_other_of_none conforming enclosed hx nothing
    exact ⟨y, List.mem_toFinset.mpr (mem_inner.mpr ⟨hy, same.trans region_, nothing'⟩), ne, pair⟩
  choose partner inside ne pair using other
  rw [← List.sum_toFinset _ nodup, ← ZMod.natCast_eq_zero_iff_even, Nat.cast_sum]
  refine Finset.sum_involution partner ?_ (fun x hx _ => ne x hx) inside ?_
  · intro x hx
    rw [pair x hx, ← two_mul]
    exact mul_eq_zero_of_left (by decide) _
  · -- Three sides at one edge are not different ones.
    intro x hx
    have hx' := (mem_inner.mp (List.mem_toFinset.mp hx)).1
    have hy' := (mem_inner.mp (List.mem_toFinset.mp (inside x hx))).1
    have hz' := (mem_inner.mp (List.mem_toFinset.mp (inside _ (inside x hx)))).1
    rcases conforming.atMostTwo x hx' _ hy' _ hz' (pair x hx).symm (pair _ (inside x hx)).symm
      with e | e | e
    · exact absurd e.symm (ne x hx)
    · exact absurd e.symm (ne _ (inside x hx))
    · exact e.symm

/-- The sides of a region that have a segment. -/
def borderSides (s : Structure Rat) (region : Int) : List Side :=
  (meshSides s.elements).filter fun side => side.regionId = region ∧ (sideSegment s side).isSome

omit conforming enclosed in
theorem mem_borderSides {region : Int} {side : Side} : side ∈ borderSides s region ↔
    side ∈ meshSides s.elements ∧ side.regionId = region ∧ (sideSegment s side).isSome := by
  rw [borderSides, List.mem_filter, decide_eq_true_eq]

theorem even_borderSides (region v : Int) :
    Even ((borderSides s region).map fun side => endsAt v side.pair).sum := by
  have split : ((borderSides s region).map fun side => endsAt v side.pair).sum +
      (((meshSides s.elements).filter fun side => side.regionId = region ∧
        sideSegment s side = none).map fun side => endsAt v side.pair).sum =
      (((meshSides s.elements).filter fun side => side.regionId = region).map
        fun side => endsAt v side.pair).sum := by
    have parts := ((List.filter_append_perm (fun side => (sideSegment s side).isSome)
      ((meshSides s.elements).filter fun side => side.regionId = region)).map
        fun side => endsAt v side.pair).sum_eq
    rw [List.map_append, List.sum_append, List.filter_filter, List.filter_filter] at parts
    rw [← parts, borderSides]
    congr 4
    · funext side
      exact Bool.eq_iff_iff.mpr (by simp [and_comm])
    · funext side
      exact Bool.eq_iff_iff.mpr (by simp [and_comm])
  have all := even_region_sides conforming.triangles region v
  rw [← split] at all
  exact (Nat.even_add.mp all).mpr (even_inner_sides conforming enclosed region v)

/-- The kept segments of a region are those of its sides. -/
theorem perm_borderSides (are : AreSegments s segments) (region : Int) :
    ((segments.filter fun segment => region ∈ segment.regions).map Segment.pair).Perm
      ((borderSides s region).map Side.pair) := by
  refine (List.perm_ext_iff_of_nodup ?_ ?_).mpr fun pair => ?_
  · exact are.nodup.sublist (List.filter_sublist.map _)
  · refine ((nodup_meshSides s.elements).filter _).map_on fun x hx y hy same => ?_
    by_contra ne
    obtain ⟨hx, rx, gives⟩ := mem_borderSides.mp hx
    obtain ⟨hy, ry, -⟩ := mem_borderSides.mp hy
    rw [sideSegment_of_pair conforming hx hy ne same, if_pos (ry.trans rx.symm)] at gives
    cases gives
  constructor
  · intro mem
    obtain ⟨segment, hsegment, rfl⟩ := List.mem_map.mp mem
    obtain ⟨hsegment, borders⟩ := List.mem_filter.mp hsegment
    obtain ⟨x, hx, made⟩ := are.ofSide segment hsegment
    rw [Segment.pair_eq made]
    rcases List.mem_cons.mp (of_decide_eq_true borders) with left | right
    · refine List.mem_map_of_mem (mem_borderSides.mpr ⟨hx, ?_, by rw [made]; rfl⟩)
      exact (pair_of_sideSegment made).2.2.symm.trans left.symm
    · obtain ⟨-, y, hy, same, region_, gives⟩ :=
        exists_other_of_right conforming enclosed hx made (Option.mem_toList.mp right)
      rw [← same]
      exact List.mem_map_of_mem (mem_borderSides.mpr ⟨hy, region_, gives⟩)
  · intro mem
    obtain ⟨x, hx, rfl⟩ := List.mem_map.mp mem
    obtain ⟨hx, rx, gives⟩ := mem_borderSides.mp hx
    obtain ⟨segment, hsegment, same⟩ := are.exists_pair x hx gives
    refine List.mem_map.mpr ⟨segment, List.mem_filter.mpr ⟨hsegment, decide_eq_true ?_⟩, same⟩
    obtain ⟨y, hy, made⟩ := are.ofSide segment hsegment
    have same' := (Segment.pair_eq made).symm.trans same
    by_cases e : y = x
    · rw [← e] at rx
      exact List.mem_cons.mpr (Or.inl (rx.symm.trans (pair_of_sideSegment made).2.2.symm))
    · have value := sideSegment_of_pair conforming hy hx e same'
      rw [made] at value
      split at value
      · cases value
      · obtain rfl := Option.some.inj value
        exact List.mem_cons_of_mem _ (List.mem_singleton.mpr rx.symm)

/-- At every point an even number of the segments of a region ends. -/
theorem even_degree (are : AreSegments s segments) (region v : Int) : Even (degree
    ((segments.filter fun segment => region ∈ segment.regions).map fun segment =>
      (segment.a, segment.b)) v) := by
  have pairs := ((perm_borderSides conforming enclosed are region).map (endsAt v)).sum_eq
  rw [List.map_map, List.map_map] at pairs
  rw [degree_eq_sum, List.map_map]
  have ends : (endsAt v ∘ fun segment : Segment => (segment.a, segment.b)) = endsAt v ∘ Segment.pair := by
    funext segment
    exact (endsAt_edgePair v segment.a segment.b).symm
  rw [ends, pairs]
  exact even_borderSides conforming enclosed region v

end Conforming

/-! ## The edges at each point -/

theorem get?_foldl_alter {κ ν : Type*} [DecidableEq κ] {keys : List κ} (nodup : keys.Nodup)
    (d : Dict κ ν) (f : Option ν → ν) (k : κ) :
    (keys.foldl (fun d key => d.alter key f) d).get? k = if k ∈ keys then some (f (d.get? k))
      else d.get? k := by
  induction keys generalizing d with
  | nil => rfl
  | cons key keys ih =>
    obtain ⟨new, nodup⟩ := List.nodup_cons.mp nodup
    rw [List.foldl_cons, ih nodup, Dict.get?_alter]
    by_cases same : k = key
    · rw [if_neg (same ▸ new), if_pos same, if_pos (same ▸ List.mem_cons_self), same]
    · rw [if_neg same]
      exact if_congr (by simp [same]) rfl rfl

/-- A segment is noted in the lists of the regions on both its sides. -/
theorem holds_foldl {segments : List Segment} (apart : ∀ segment ∈ segments, segment.regions.Nodup)
    (region : Int) {incident : Dict Int (Dict Int (List Int))} {edges : List (Int × Int)}
    (holds : Holds ((incident.get? region).getD ∅) edges) :
    Holds (((segments.foldl (fun incident segment => segment.regions.foldl (fun incident region =>
        incident.alter region fun side =>
          note (note (side.getD ∅) segment.a segment.b) segment.b segment.a) incident)
        incident).get? region).getD ∅)
      (((segments.filter fun segment => region ∈ segment.regions).map fun segment =>
        (segment.a, segment.b)) ++ edges) := by
  induction segments generalizing incident edges with
  | nil => exact holds
  | cons segment segments ih =>
    rw [List.foldl_cons]
    have apart' : ∀ other ∈ segments, other.regions.Nodup :=
      fun other mem => apart other (List.mem_cons_of_mem _ mem)
    have here := get?_foldl_alter (apart segment List.mem_cons_self) incident (fun side =>
      note (note (side.getD ∅) segment.a segment.b) segment.b segment.a) region
    by_cases borders : region ∈ segment.regions
    · rw [if_pos borders] at here
      rw [List.filter_cons_of_pos (by simpa using borders), List.map_cons]
      have holds' := holds.note segment.a segment.b
      refine Holds.congr (ih apart' ?_) List.perm_middle
      rw [here]
      exact holds'
    · rw [if_neg borders] at here
      rw [List.filter_cons_of_neg (by simpa using borders)]
      refine ih apart' ?_
      rw [here]
      exact holds

theorem holds_incidence {segments : List Segment} (apart : ∀ segment ∈ segments, segment.regions.Nodup)
    (region : Int) : Holds (((incidence segments).get? region).getD ∅)
      ((segments.filter fun segment => region ∈ segment.regions).map fun segment =>
        (segment.a, segment.b)) := by
  have all := @holds_foldl segments apart region ∅ [] Holds.empty
  rwa [List.append_nil] at all

theorem mem_keys_incidence {segments : List Segment} {segment : Segment} (mem : segment ∈ segments)
    (apart : ∀ segment ∈ segments, segment.regions.Nodup) {region : Int}
    (borders : region ∈ segment.regions) : region ∈ (incidence segments).keys := by
  have edge := (holds_incidence apart region).mem_near_iff.mpr (Or.inl (List.mem_map.mpr
    ⟨segment, List.mem_filter.mpr ⟨mem, decide_eq_true borders⟩, rfl⟩))
  rw [Dict.mem_keys]
  cases found : (incidence segments).get? region with
  | none =>
    rw [found] at edge
    cases edge
  | some side => exact ⟨side, rfl⟩

/-! ## The loops of the regions -/

/-- The loops of a region: closed walks that together go along every kept segment of the region, each once,
and along nothing else. -/
structure RegionClosed (segments : List Segment) (region : Int) (loops : List (List Int)) : Prop where
  closed : ∀ loop ∈ loops, Closed loop
  once : (loops.flatMap stepPairs).Nodup
  along : ∀ pair, pair ∈ loops.flatMap stepPairs ↔
    ∃ segment ∈ segments, region ∈ segment.regions ∧ segment.pair = pair

/-- Every region with a kept segment has loops, and the loops of every region are closed. -/
structure AllClosed (segments : List Segment) (found : List (Int × List (List Int))) : Prop where
  regions : (found.map Prod.fst).Nodup
  each : ∀ segment ∈ segments, ∀ region ∈ segment.regions, region ∈ found.map Prod.fst
  closed : ∀ entry ∈ found, RegionClosed segments entry.1 entry.2

theorem exists_allClosed (conforming : ConformingMesh s.elements (Names s)) (enclosed : Enclosed s.elements)
    (kept : constrainedSegments s = .ok segments) (are : AreSegments s segments) :
    ∃ found, regionLoops s = .ok found ∧ AllClosed segments found := by
  have apart : ∀ segment ∈ segments, segment.regions.Nodup := by
    intro segment mem
    obtain ⟨x, hx, made⟩ := are.ofSide segment mem
    refine List.nodup_cons.mpr ⟨fun again => ?_, ?_⟩
    · have right := Option.mem_toList.mp again
      exact (exists_other_of_right conforming enclosed hx made right).1 (pair_of_sideSegment made).2.2
    · cases segment.rightRegion <;> simp
  -- The loops of one region.
  have loops : ∀ entry ∈ (incidence segments).entries, ∃ loops : Int × List (List Int),
      (loopsOf entry.1 segments.length entry.2 = .ok loops.2 ∧ loops.1 = entry.1) ∧
        RegionClosed segments entry.1 loops.2 := by
    intro entry mem
    have holds := holds_incidence apart entry.1
    rw [Dict.get?_eq_some.mpr mem] at holds
    obtain ⟨loops, found, closed, all⟩ := @loopsOf_spec entry.1 segments.length _ _ holds
      (even_degree conforming enclosed are entry.1) (by
        rw [List.length_map]
        exact List.length_filter_le _ _)
    have pairs : (loops.flatMap stepPairs).Perm
        ((segments.filter fun segment => entry.1 ∈ segment.regions).map Segment.pair) := by
      rwa [List.map_map] at all
    refine ⟨(entry.1, loops), ⟨found, rfl⟩, closed, ?_, fun pair => ?_⟩
    · exact pairs.nodup_iff.mpr (are.nodup.sublist (List.filter_sublist.map _))
    · rw [pairs.mem_iff, List.mem_map]
      simp only [List.mem_filter, decide_eq_true_eq, and_assoc]
  obtain ⟨found, each⟩ := exists_forall₂ loops
  have keys : found.map Prod.fst = (incidence segments).keys := by
    refine (List.forall₂_eq_eq_eq ▸ List.forall₂_map_left_iff.mpr (List.forall₂_map_right_iff.mpr ?_) :
      found.map Prod.fst = (incidence segments).entries.map Prod.fst)
    exact each.flip.imp fun _ _ h => h.1.2
  refine ⟨found, ?_, ?_, ?_, ?_⟩
  · rw [regionLoops, kept]
    refine mapM_eq_ok.mpr (each.imp fun entry loops h => ?_)
    rw [h.1.1, ← h.1.2]
    rfl
  · rw [keys]
    exact (incidence segments).nodup
  · intro segment mem region borders
    rw [keys]
    exact mem_keys_incidence mem apart borders
  · intro entry mem
    obtain ⟨side, -, ⟨-, same⟩, closed⟩ := exists_of_mem_right each mem
    rw [same]
    exact closed

/-- On a mesh that conforms, as `_element_at` reads its entries, no boundary is broken. -/
theorem regionLoops_closed (flat : Flat s) (conforming : ConformingMesh s.elements (Names s))
    (enclosed : Enclosed s.elements) : ∃ segments found, constrainedSegments s = .ok segments ∧
      regionLoops s = .ok found ∧ AllClosed segments found := by
  obtain ⟨segments, kept, are⟩ := constrainedSegments_spec flat
  obtain ⟨found, loops, closed⟩ := exists_allClosed conforming enclosed kept are
  exact ⟨segments, found, kept, loops, closed⟩

/-- A region that touches itself in a point. -/
def pinched : Structure Rat where
  version := ""
  dimension := 2
  verticesPerElement := 3
  neighborsPerElement := 3
  coordinates := [⟨1, 0, 0⟩, ⟨2, 1, 0⟩, ⟨3, 1, 1⟩, ⟨4, -1, 0⟩, ⟨5, -1, -1⟩]
  regions := [⟨1, 3, "silicon"⟩]
  elements := [⟨1, 1, [0, 1, 2], [-1022, -1022, -1022], [-1, -1]⟩,
    ⟨2, 1, [0, 3, 4], [-1022, -1023, -1022], [-1, -1]⟩]
  solutions := []
  species := []
  temperature := none
  warnings := []

theorem regionLoops_closed_pinched : ∃ segments found, constrainedSegments pinched = .ok segments ∧
    regionLoops pinched = .ok found ∧ AllClosed segments found :=
  regionLoops_closed ⟨rfl, rfl, by decide⟩ ⟨by decide, by decide, by decide⟩ (by unfold Enclosed; decide)

example : regionLoops pinched = .ok [(1, [[1, 0, 3, 4, 0, 2, 1]])] := by decide

end TcadWebapp.Remesh
