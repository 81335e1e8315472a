import TcadWebapp.Remesh.Proofs.Chains
import TcadWebapp.Remesh.Proofs.DouglasPeucker
import TcadWebapp.Remesh.Proofs.Loops

/-!
# Thinning keeps within its tolerance

What is dropped from a loop was dropped from a chain. The loop and the chain go the same way around it, and so
the chord of the chain is a step of the loop that is left.
-/

namespace TcadWebapp.Remesh

open StrParser

variable {s : Structure Rat} {segments : List Segment}

/-! ## Neighbours and kinds -/

/-- The end points of a segment. -/
def Segment.ends (segment : Segment) : Int × Int := (segment.a, segment.b)

theorem map_pairOf_ends (segments : List Segment) :
    (segments.map Segment.ends).map pairOf = segments.map Segment.pair := by
  rw [List.map_map]
  rfl

theorem holds_neighboursOf (segments : List Segment) :
    Holds (neighboursOf segments) (segments.map Segment.ends) := by
  have all : ∀ {adjacency edges}, Holds adjacency edges → Holds (segments.foldl (fun neighbours s =>
      note (note neighbours s.a s.b) s.b s.a) adjacency) (segments.map Segment.ends ++ edges) := by
    induction segments with
    | nil => exact id
    | cons segment segments ih =>
      intro adjacency edges holds
      exact (ih (holds.note segment.a segment.b)).congr List.perm_middle
  have start := all Holds.empty
  rwa [List.append_nil] at start

theorem length_near_neighboursOf (segments : List Segment) (v : Int) :
    (near (neighboursOf segments) v).length = degree (segments.map Segment.ends) v := by
  have all : ∀ adjacency : Dict Int (List Int), (near (segments.foldl (fun neighbours s =>
      note (note neighbours s.a s.b) s.b s.a) adjacency) v).length =
        (near adjacency v).length + degree (segments.map Segment.ends) v := by
    induction segments with
    | nil => exact fun _ => rfl
    | cons segment segments ih =>
      intro adjacency
      rw [List.foldl_cons, ih, length_near_note, length_near_note, List.map_cons, degree_cons]
      show _ = _ + (_ + ((if segment.a = v then 1 else 0) + if segment.b = v then 1 else 0))
      omega
  exact (all ∅).trans (Nat.zero_add _)

/-- A point that is an end of a segment. -/
def Segment.At (segment : Segment) (v : Int) : Prop := segment.a = v ∨ segment.b = v

theorem mem_addKind {kinds : Dict Int (List (Int × Option Int × Int))} {i v : Int}
    {signature other : Int × Option Int × Int} :
    other ∈ ((addKind kinds i signature).get? v).getD [] ↔
      (v = i ∧ other = signature) ∨ other ∈ (kinds.get? v).getD [] := by
  rw [addKind, Dict.get?_alter]
  by_cases same : v = i
  · rw [if_pos same, same]
    simp
  · rw [if_neg same]
    simp [same]

/-- The kinds noted at a point are those of the segments that end there. -/
theorem mem_kindsOf {segments : List Segment} {v : Int} {signature : Int × Option Int × Int} :
    signature ∈ ((kindsOf segments).get? v).getD [] ↔
      ∃ segment ∈ segments, segment.At v ∧ segment.signature = signature := by
  have all : ∀ kinds : Dict Int (List (Int × Option Int × Int)), signature ∈ ((segments.foldl (fun kinds s =>
      addKind (addKind kinds s.a s.signature) s.b s.signature) kinds).get? v).getD [] ↔
        (∃ segment ∈ segments, segment.At v ∧ segment.signature = signature) ∨
          signature ∈ (kinds.get? v).getD [] := by
    induction segments with
    | nil => simp
    | cons segment segments ih =>
      intro kinds
      rw [List.foldl_cons, ih, mem_addKind, mem_addKind, List.exists_mem_cons_iff, Segment.At]
      constructor
      · rintro (h | ⟨h, h'⟩ | ⟨h, h'⟩ | h)
        · exact Or.inl (Or.inr h)
        · exact Or.inl (Or.inl ⟨Or.inr h.symm, h'.symm⟩)
        · exact Or.inl (Or.inl ⟨Or.inl h.symm, h'.symm⟩)
        · exact Or.inr h
      · rintro ((⟨h | h, h'⟩ | h) | h)
        · exact Or.inr (Or.inr (Or.inl ⟨h.symm, h'.symm⟩))
        · exact Or.inr (Or.inl ⟨h.symm, h'.symm⟩)
        · exact Or.inl h
        · exact Or.inr (Or.inr (Or.inr h))
  rw [kindsOf, all ∅]
  simp

theorem mem_keys_of_near {adjacency : Dict Int (List Int)} {v : Int} (some_ : near adjacency v ≠ []) :
    v ∈ adjacency.keys := by
  rw [Dict.mem_keys]
  cases there : adjacency.get? v with
  | none =>
    rw [near, there] at some_
    exact absurd rfl some_
  | some noted => exact ⟨noted, rfl⟩

theorem mem_fixedPoints {v : Int} : v ∈ fixedPoints segments ↔ v ∈ (neighboursOf segments).keys ∧
    ((near (neighboursOf segments) v).length ≠ 2 ∨ 1 < (((kindsOf segments).get? v).getD []).length) := by
  rw [fixedPoints, List.mem_filter, decide_eq_true_eq]

/-- Where other than two segments end. -/
theorem mem_fixedPoints_of_degree {v : Int} (pos : 0 < degree (segments.map Segment.ends) v)
    (other : degree (segments.map Segment.ends) v ≠ 2) : v ∈ fixedPoints segments := by
  rw [← length_near_neighboursOf] at pos other
  exact mem_fixedPoints.mpr ⟨mem_keys_of_near (List.ne_nil_of_length_pos pos), Or.inl other⟩

/-- Where two segments of different kinds meet. -/
theorem mem_fixedPoints_of_kinds {v : Int} {x y : Segment} (hx : x ∈ segments) (hy : y ∈ segments)
    (vx : x.At v) (vy : y.At v) (ne : x.signature ≠ y.signature) : v ∈ fixedPoints segments := by
  have edge : 0 < degree (segments.map Segment.ends) v := by
    rw [degree_pos]
    rcases vx with rfl | rfl
    · exact ⟨x.b, Or.inl (List.mem_map_of_mem hx)⟩
    · exact ⟨x.a, Or.inr (List.mem_map_of_mem hx)⟩
  rw [← length_near_neighboursOf] at edge
  refine mem_fixedPoints.mpr ⟨mem_keys_of_near (List.ne_nil_of_length_pos edge), Or.inr ?_⟩
  have one := mem_kindsOf.mpr ⟨x, hx, vx, rfl⟩
  have two := mem_kindsOf.mpr ⟨y, hy, vy, rfl⟩
  by_contra few
  match kinds : ((kindsOf segments).get? v).getD [] with
  | [] =>
    rw [kinds] at one
    cases one
  | [kind] =>
    rw [kinds] at one two
    exact ne ((List.mem_singleton.mp one).trans (List.mem_singleton.mp two).symm)
  | _ :: _ :: _ =>
    rw [kinds] at few
    simp at few

/-! ## Where the chains are cut -/

theorem mem_startsOf {fixed every : List Int} (some_ : fixed ≠ []) {v : Int} :
    v ∈ startsOf fixed every ↔ v ∈ fixed := by
  rw [startsOf, if_neg some_]
  exact (List.perm_insertionSort _ fixed).mem_iff

theorem mem_startsOf_of_mem {fixed every : List Int} {v : Int} (mem : v ∈ fixed) : v ∈ startsOf fixed every :=
  (mem_startsOf (List.ne_nil_of_mem mem)).mpr mem

/-- Without fixed points there is one start. -/
theorem eq_of_mem_startsOf_nil {every : List Int} {u v : Int} (hu : u ∈ startsOf [] every)
    (hv : v ∈ startsOf [] every) : u = v := by
  rw [startsOf, if_pos rfl] at hu hv
  match sorted : every.insertionSort (· ≤ ·) with
  | [] =>
    rw [sorted] at hu
    cases hu
  | point :: _ =>
    rw [sorted] at hu hv
    exact (List.mem_singleton.mp hu).trans (List.mem_singleton.mp hv).symm

/-- Elsewhere two segments end. -/
theorem two_of_notMem {v : Int} (loose : v ∉ startsOf (fixedPoints segments) (neighboursOf segments).keys)
    (some_ : near (neighboursOf segments) v ≠ []) : (near (neighboursOf segments) v).length = 2 := by
  by_contra other
  exact loose (mem_startsOf_of_mem (mem_fixedPoints.mpr ⟨mem_keys_of_near some_, Or.inl other⟩))

/-! ## What is kept -/

/-- The vertices of triangles are among the points. -/
def PointsGiven (s : Structure Rat) : Prop :=
  ∀ element ∈ s.elements, ∀ v ∈ element.vertices, 0 ≤ v ∧ v < s.coordinates.length

/-- The points of segments are among the points. -/
theorem inRange_of_near (are : AreSegments s segments) (given : PointsGiven s) {u v : Int}
    (edge : v ∈ near (neighboursOf segments) u) : InRange s.coordinates v := by
  obtain ⟨segment, mem, at_⟩ : ∃ segment ∈ segments, segment.At v := by
    rcases (holds_neighboursOf segments).mem_near_iff.mp edge with edge | edge
    · obtain ⟨segment, mem, same⟩ := List.mem_map.mp edge
      exact ⟨segment, mem, Or.inr (Prod.mk.inj same).2⟩
    · obtain ⟨segment, mem, same⟩ := List.mem_map.mp edge
      exact ⟨segment, mem, Or.inl (Prod.mk.inj same).1⟩
  obtain ⟨side, hside, made⟩ := are.ofSide segment mem
  obtain ⟨a, b, -⟩ := pair_of_sideSegment made
  obtain ⟨element, found, -, hslot⟩ := mem_meshSides.mp hside
  obtain ⟨-, -, first, second, -⟩ := Element.side_eq_some.mp hslot
  have inside := given element (List.mem_of_getElem? found)
  rcases at_ with rfl | rfl
  · have := inside _ (a ▸ List.mem_of_getElem? first)
    exact ⟨by omega, this.2⟩
  · have := inside _ (b ▸ List.mem_of_getElem? second)
    exact ⟨by omega, this.2⟩

/-- A point of a chain was taken from it. -/
def TakenFrom (s : Structure Rat) (tolerance : Rat) (chain : List Int) (v : Int) : Prop :=
  ∃ points, chain.mapM (index s.coordinates) = .ok points ∧
    ∃ k ∈ taken points tolerance (chain.length - 1), chain[k]? = some v

theorem exists_mapM_chain (are : AreSegments s segments) (given : PointsGiven s) {fixed chain : List Int}
    (complete : Chain (neighboursOf segments) fixed chain) (long : 2 < chain.length) :
    ∃ points, chain.mapM (index s.coordinates) = .ok points := by
  have each : ∀ v ∈ chain, ∃ point, index s.coordinates v = .ok point := by
    intro v mem
    obtain ⟨k, found⟩ := List.mem_iff_getElem?.mp mem
    have lt := (List.getElem?_eq_some_iff.mp found).1
    have inRange : InRange s.coordinates v := by
      cases k with
      | zero =>
        have next := List.getElem?_eq_getElem (l := chain) (show 1 < chain.length by omega)
        exact inRange_of_near are given ((near_comm (holds_neighboursOf segments)).mp
          (complete.along 0 v _ found next))
      | succ k =>
        have before := List.getElem?_eq_getElem (l := chain) (show k < chain.length by omega)
        exact inRange_of_near are given (complete.along k _ v before found)
    obtain ⟨point, -, there⟩ := index_of_inRange inRange
    exact ⟨point, there⟩
  obtain ⟨points, all⟩ := exists_forall₂ each
  exact ⟨points, mapM_eq_ok.mpr all⟩

theorem douglasPeucker_taken (are : AreSegments s segments) (given : PointsGiven s) (tolerance : Rat)
    {fixed chain : List Int} (complete : Chain (neighboursOf segments) fixed chain)
    (long : 2 < chain.length) : ∃ kept, douglasPeucker s.coordinates tolerance chain = .ok kept ∧
      ∀ v, v ∈ kept ↔ TakenFrom s tolerance chain v := by
  obtain ⟨points, found⟩ := exists_mapM_chain are given complete long
  refine ⟨_, douglasPeucker_spec tolerance found (by omega), fun v => ?_⟩
  have at_ : ∀ k ∈ taken points tolerance (chain.length - 1), chain[k]? = some (chain.getD k 0) := by
    intro k mem
    have := le_of_mem_taken mem
    rw [List.getD_eq_getElem?_getD, List.getElem?_eq_getElem (by omega)]
    rfl
  constructor
  · intro mem
    obtain ⟨k, hk, rfl⟩ := List.mem_map.mp mem
    exact ⟨points, found, k, hk, at_ k hk⟩
  · rintro ⟨points', found', k, hk, there⟩
    obtain rfl := Except.ok.inj (found.symm.trans found')
    exact List.mem_map.mpr ⟨k, hk, Option.some.inj ((at_ k hk).symm.trans there)⟩

/-- The fixed points are kept, and what is taken from the chains between them. -/
theorem simplifyBoundary_spec (found : constrainedSegments s = .ok segments)
    (are : AreSegments s segments) (given : PointsGiven s) {tolerance : Rat} (pos : 0 < tolerance) :
    ∃ chains keep, chainsOf (neighboursOf segments) (fixedPoints segments) (neighboursOf segments).keys = .ok chains ∧
      simplifyBoundary s tolerance = .ok keep ∧
      AreChains (neighboursOf segments) (startsOf (fixedPoints segments) (neighboursOf segments).keys) chains ∧
      ∀ v, v ∈ keep ↔ v ∈ fixedPoints segments ∨ ∃ chain ∈ chains, TakenFrom s tolerance chain v := by
  have nodup : ((segments.map Segment.ends).map pairOf).Nodup := by
    rw [map_pairOf_ends]
    exact are.nodup
  obtain ⟨chains, hchains, areChains⟩ := chainsOf_spec (holds_neighboursOf segments) nodup
    (fun v loose some_ => two_of_notMem loose some_)
  obtain ⟨keep, all⟩ := exists_forall₂ fun chain mem => douglasPeucker_taken are given tolerance
    (areChains.each chain mem).1 (areChains.each chain mem).2
  refine ⟨chains, fixedPoints segments ++ keep.flatten, hchains, ?_, areChains, fun v => ?_⟩
  · rw [simplifyBoundary, found]
    dsimp only [bind, Except.bind]
    rw [if_neg (not_le.mpr pos), hchains]
    dsimp only
    rw [mapM_eq_ok.mpr (all.imp fun _ _ h => h.1)]
  · rw [List.mem_append, List.mem_flatten]
    refine or_congr Iff.rfl ⟨?_, ?_⟩
    · rintro ⟨kept, mem, hv⟩
      obtain ⟨chain, hchain, -, iff⟩ := exists_of_mem_right all mem
      exact ⟨chain, hchain, (iff v).mp hv⟩
    · rintro ⟨chain, hchain, hv⟩
      obtain ⟨kept, mem, -, iff⟩ := exists_of_mem_left all hchain
      exact ⟨kept, mem, (iff v).mpr hv⟩

end TcadWebapp.Remesh
