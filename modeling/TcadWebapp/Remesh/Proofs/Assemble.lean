import TcadWebapp.Remesh.Proofs.Boundary

/-!
# The structure that is assembled

The neighbours of every triangle, the rows of every point and where the ambient ones are.
-/

namespace TcadWebapp.Remesh

open StrParser

variable {ops : FloatOps Rat} {old new : Structure Rat} {mesh : Mesh} {reach tolerance : Rat}

/-! ## Codes of the old boundary -/

theorem segmentsOf_outer {s : Structure Rat} {element : Element} {places : List Nat}
    {seen seen' : Dict (Int × Int) Segment}
    (outer : ∀ key segment, seen.get? key = some segment → segment.rightRegion = none → segment.bc < 0)
    (h : segmentsOf s element places seen = .ok seen') :
    ∀ key segment, seen'.get? key = some segment → segment.rightRegion = none → segment.bc < 0 := by
  induction places generalizing seen with
  | nil =>
    obtain rfl := Except.ok.inj h
    exact outer
  | cons i places ih =>
    have added : ∀ key segment, (segment.rightRegion = none → segment.bc < 0) →
        ∀ key' segment', (seen.set key segment).get? key' = some segment' →
          segment'.rightRegion = none → segment'.bc < 0 := by
      intro key segment neg key' segment' found
      rw [Dict.get?_set] at found
      split at found
      · exact Option.some.inj found ▸ neg
      · exact outer key' segment' found
    obtain ⟨a, -, h⟩ := bind_eq_ok.mp h
    obtain ⟨b, -, h⟩ := bind_eq_ok.mp h
    dsimp only at h
    split at h
    · exact ih outer h
    · obtain ⟨code, -, h⟩ := bind_eq_ok.mp h
      split at h
      · rename_i neg
        exact ih (added _ _ fun _ => neg) h
      · split at h
        · exact ih outer h
        · split at h
          · exact ih outer h
          · exact ih (added _ _ fun none => by cases none) h

/-- The codes of outer edges are negative. -/
theorem outerSegments_neg {outer : List (OuterSegment Rat)} (h : outerSegments old = .ok outer) :
    ∀ segment ∈ outer, segment.bc < 0 := by
  obtain ⟨segments, hsegments, h⟩ := bind_eq_ok.mp h
  have neg : ∀ segment ∈ segments, segment.rightRegion = none → segment.bc < 0 := by
    unfold constrainedSegments at hsegments
    split at hsegments
    · cases hsegments
    · obtain ⟨seen, collected, e⟩ := bind_eq_ok.mp hsegments
      obtain rfl := Except.ok.inj e
      have keeps := foldlM_keeps (P := fun seen : Dict (Int × Int) Segment =>
          ∀ key segment, seen.get? key = some segment → segment.rightRegion = none → segment.bc < 0)
        (fun _ _ _ outer h => segmentsOf_outer outer h) (by simp) collected
      intro segment mem
      obtain ⟨⟨key, segment⟩, filed, rfl⟩ := List.mem_map.mp mem
      exact keeps key segment (Dict.get?_eq_some.mpr filed)
  intro segment mem
  obtain ⟨kept, hk, made⟩ := exists_of_mem_mapM h mem
  obtain ⟨a, -, made⟩ := bind_eq_ok.mp made
  obtain ⟨b, -, made⟩ := bind_eq_ok.mp made
  obtain rfl := Except.ok.inj made
  obtain ⟨hk, isOuter⟩ := List.mem_filter.mp hk
  exact neg kept hk (Option.isNone_iff_eq_none.mp isOuter)

/-! ## Neighbours -/

/-- The triangle at a place of the mesh has an edge. -/
def Mesh.Has (mesh : Mesh) (t : Nat) (key : Int × Int) : Prop :=
  ∃ triangle i, mesh.triangles[t]? = some triangle ∧ triangle.edgeKey i = key

/-- No edge belongs to more than two triangles. -/
def Mesh.Conforming (mesh : Mesh) : Prop :=
  ∀ key t u v, mesh.Has t key → mesh.Has u key → mesh.Has v key → t = u ∨ t = v ∨ u = v

theorem mem_slots (i : Fin 3) : i ∈ slots := by
  revert i
  decide

theorem Mesh.mem_edgeEntries {key : Int × Int} {t : Nat} {i : Fin 3} : (key, t, i) ∈ mesh.edgeEntries ↔
    ∃ triangle, mesh.triangles[t]? = some triangle ∧ triangle.edgeKey i = key := by
  unfold Mesh.edgeEntries
  constructor
  · intro mem
    obtain ⟨⟨triangle, t⟩, placed, mem⟩ := List.mem_flatMap.mp mem
    obtain ⟨i, -, e⟩ := List.mem_map.mp mem
    cases e
    exact ⟨triangle, List.mk_mem_zipIdx_iff_getElem?.mp placed, rfl⟩
  · rintro ⟨triangle, placed, rfl⟩
    exact List.mem_flatMap.mpr ⟨(triangle, t), List.mk_mem_zipIdx_iff_getElem?.mpr placed,
      List.mem_map.mpr ⟨i, mem_slots i, rfl⟩⟩

theorem Mesh.mem_owner {key : Int × Int} {t : Nat} {i : Fin 3} :
    (t, i) ∈ (mesh.owner.get? key).getD [] ↔
      ∃ triangle, mesh.triangles[t]? = some triangle ∧ triangle.edgeKey i = key := by
  unfold Mesh.owner
  rw [Dict.mem_group]
  constructor
  · rintro ⟨⟨key, t, i⟩, mem, rfl, e⟩
    cases e
    exact Mesh.mem_edgeEntries.mp mem
  · intro h
    exact ⟨(key, t, i), Mesh.mem_edgeEntries.mpr h, rfl, rfl⟩

/-- What an entry of `neighbors` is: another triangle with the edge, or else what the old boundary
    has for it. -/
theorem neighbor_spec {boundary : BoundaryIndex Rat} {t : Nat} {triangle : MeshTriangle} {i : Fin 3} {code : Int}
    (h : mesh.neighbor ops boundary t triangle i = .ok code) :
    (∃ u, u ≠ t ∧ mesh.Has u (triangle.edgeKey i) ∧ code = u) ∨
      (∀ u, mesh.Has u (triangle.edgeKey i) → u = t) ∧
        ∃ mid, mesh.mid (triangle.edge i) = .ok mid ∧ boundary.codeAt ops mid = .ok code := by
  unfold Mesh.neighbor at h
  cases owned : mesh.owner.get? (triangle.edgeKey i) with
  | none =>
    rw [owned] at h
    cases h
  | some sharers =>
    have mem : ∀ u j, (u, j) ∈ sharers ↔
        ∃ other, mesh.triangles[u]? = some other ∧ other.edgeKey j = triangle.edgeKey i := by
      intro u j
      rw [← Mesh.mem_owner, owned, Option.getD_some]
    rw [owned] at h
    dsimp only at h
    split at h
    · rename_i other first
      obtain ⟨u, j⟩ := other
      obtain ⟨shares, apart⟩ := List.mem_filter.mp (List.mem_of_mem_head? (Option.mem_def.mpr first))
      obtain ⟨triangle', placed, same⟩ := (mem u j).mp shares
      exact Or.inl ⟨u, of_decide_eq_true apart, ⟨triangle', j, placed, same⟩, (Except.ok.inj h).symm⟩
    · rename_i none
      obtain ⟨mid, hmid, found⟩ := bind_eq_ok.mp h
      refine Or.inr ⟨?_, mid, hmid, found⟩
      rintro u ⟨other, j, placed, same⟩
      by_contra apart
      have there : (u, j) ∈ sharers.filter fun sharer => sharer.1 ≠ t :=
        List.mem_filter.mpr ⟨(mem u j).mpr ⟨other, placed, same⟩, decide_eq_true apart⟩
      rw [List.head?_eq_none_iff.mp none] at there
      cases there

/-- What the entry in a slot of a triangle should be: the other triangle with the edge or, where
    there is none, the code of one of the nearest old outer edges, which is within reach. -/
def Mesh.Entry (ops : FloatOps Rat) (old : Structure Rat) (mesh : Mesh) (reach : Rat) (t : Nat)
    (triangle : MeshTriangle) (i : Fin 3) (code : Int) : Prop :=
  (∃ u, u ≠ t ∧ mesh.Has u (triangle.edgeKey i) ∧ code = u) ∨
    (∀ u, mesh.Has u (triangle.edgeKey i) → u = t) ∧
      ∃ outer mid, outerSegments old = .ok outer ∧ mesh.mid (triangle.edge i) = .ok mid ∧
        ∃ segment ∈ outer, segment.bc = code ∧ code < 0 ∧ BoundaryIndex.distance ops mid segment ≤ reach ∧
          ∀ other ∈ outer, BoundaryIndex.distance ops mid segment ≤ BoundaryIndex.distance ops mid other

/-- The element that a triangle becomes. -/
structure Mesh.Becomes (ops : FloatOps Rat) (old : Structure Rat) (mesh : Mesh) (reach : Rat) (t : Nat)
    (triangle : MeshTriangle) (element : Element) : Prop where
  region : element.regionId = triangle.regionId
  vertices : element.vertices = triangle.vertexList
  slots : element.neighbors.length = 3
  neighbors : ∀ i : Fin 3, ∃ code, element.neighbors[i.val]? = some code ∧ mesh.Entry ops old reach t triangle i code

theorem elementsOf_spec {elements : List Element} (h : elementsOf ops old mesh reach = .ok elements) :
    List.Forall₂ (fun placed element => mesh.Becomes ops old reach placed.2 placed.1 element)
      mesh.triangles.zipIdx elements := by
  obtain ⟨outer, houter, h⟩ := bind_eq_ok.mp h
  refine (mapM_eq_ok.mp h).imp ?_
  rintro ⟨triangle, t⟩ element made
  obtain ⟨codes, linked, made⟩ := bind_eq_ok.mp made
  obtain rfl := Except.ok.inj made
  have each := mapM_eq_ok.mp linked
  have entry : ∀ i code, mesh.neighbor ops (BoundaryIndex.init ops outer reach) t triangle i = .ok code →
      mesh.Entry ops old reach t triangle i code := by
    intro i code found
    rcases neighbor_spec found with other | ⟨alone, mid, hmid, found⟩
    · exact Or.inl other
    · obtain ⟨segment, mem, same, near, least⟩ := BoundaryIndex.codeAt_eq_ok found
      exact Or.inr ⟨alone, outer, mid, houter, hmid, segment, mem, same,
        same ▸ outerSegments_neg houter segment mem, near, least⟩
  rw [slots, List.forall₂_cons_left_iff] at each
  obtain ⟨c0, rest, h0, each, rfl⟩ := each
  rw [List.forall₂_cons_left_iff] at each
  obtain ⟨c1, rest, h1, each, rfl⟩ := each
  rw [List.forall₂_cons_left_iff] at each
  obtain ⟨c2, rest, h2, each, rfl⟩ := each
  rw [List.forall₂_nil_left_iff] at each
  subst each
  refine ⟨rfl, rfl, rfl, ?_⟩
  intro i
  match i with
  | 0 => exact ⟨c0, rfl, entry 0 c0 h0⟩
  | 1 => exact ⟨c1, rfl, entry 1 c1 h1⟩
  | 2 => exact ⟨c2, rfl, entry 2 c2 h2⟩

/-! ## Rows -/

namespace Touching

/-- A material is at a point. -/
def Has (touching : Touching) (point material : Int) : Prop := material ∈ (touching.get? point).getD []

theorem has_add {touching : Touching} {point material point' material' : Int} :
    (touching.add point material).Has point' material' ↔
      touching.Has point' material' ∨ point' = point ∧ material' = material := by
  unfold Has add
  rw [Dict.get?_alter]
  split
  · rename_i same
    subst same
    rw [Option.getD_some]
    split
    · rename_i there
      constructor
      · exact Or.inl
      · rintro (h | ⟨-, rfl⟩)
        · exact h
        · exact there
    · simp
  · rename_i apart
    simp [apart]

theorem has_foldl {touching : Touching} {l : List (Int × Int)} {point material : Int} :
    (l.foldl (fun d e => add d e.1 e.2) touching).Has point material ↔
      touching.Has point material ∨ (point, material) ∈ l := by
  induction l generalizing touching with
  | nil => simp
  | cons e l ih =>
    rw [List.foldl_cons, ih, has_add, List.mem_cons, Prod.ext_iff, or_assoc]

/-- Each material is there once at most. -/
def Distinct (touching : Touching) : Prop := ∀ point, ((touching.get? point).getD []).Nodup

theorem Distinct.add {touching : Touching} (h : touching.Distinct) (point material : Int) :
    (touching.add point material).Distinct := by
  intro other
  unfold Touching.add
  rw [Dict.get?_alter]
  split
  · rw [Option.getD_some]
    split
    · exact h point
    · rename_i fresh
      rw [List.nodup_append]
      refine ⟨h point, List.nodup_singleton _, ?_⟩
      intro a ha b hb same
      rw [List.mem_singleton] at hb
      exact fresh (hb ▸ same ▸ ha)
  · exact h other

theorem Distinct.foldl {touching : Touching} (h : touching.Distinct) (l : List (Int × Int)) :
    (l.foldl (fun d e => Touching.add d e.1 e.2) touching).Distinct := by
  induction l generalizing touching with
  | nil => exact h
  | cons e l ih => exact ih (h.add e.1 e.2)

theorem mem_ordered {touching : Touching} {point material : Int} :
    (point, material) ∈ touching.ordered ↔ touching.Has point material := by
  unfold ordered Has
  constructor
  · intro mem
    obtain ⟨point, -, mem⟩ := List.mem_flatMap.mp mem
    obtain ⟨material, mem, e⟩ := List.mem_map.mp mem
    cases e
    exact List.mem_insertionSort _ |>.mp mem
  · intro mem
    refine List.mem_flatMap.mpr ⟨point, ?_, List.mem_map.mpr ⟨material, (List.mem_insertionSort _).mpr mem, rfl⟩⟩
    rw [List.mem_insertionSort, Dict.mem_keys]
    cases found : touching.get? point with
    | none =>
      rw [found] at mem
      cases mem
    | some set => exact ⟨set, rfl⟩

theorem Distinct.nodup_ordered {touching : Touching} (h : touching.Distinct) : touching.ordered.Nodup := by
  unfold ordered
  rw [List.nodup_flatMap]
  constructor
  · intro point _
    refine List.Nodup.map (fun _ _ e => (Prod.ext_iff.mp e).2) ?_
    exact ((List.perm_insertionSort _ _).nodup_iff).mpr (h point)
  · have nodup : (touching.keys.insertionSort (· ≤ ·)).Nodup :=
      ((List.perm_insertionSort _ _).nodup_iff).mpr touching.nodup
    refine List.Pairwise.imp ?_ nodup
    intro point point' apart e mem mem'
    obtain ⟨_, -, rfl⟩ := List.mem_map.mp mem
    obtain ⟨_, -, e⟩ := List.mem_map.mp mem'
    exact apart (Prod.ext_iff.mp e).1.symm

end Touching

/-- An end of an edge of an element whose code is that of an open boundary. -/
def OpenEnd (element : Element) (point : Int) : Prop :=
  ∃ (i : Nat) (code : Int), element.neighbors[i]? = some code ∧ code ∈ ambientBoundaries ∧
    (element.vertices[(i + 1) % 3]? = some point ∨ element.vertices[(i + 2) % 3]? = some point)

theorem mem_openPoints {element : Element} {points : List Int} (h : openPoints element = .ok points) {point : Int} :
    point ∈ points ↔ OpenEnd element point := by
  obtain ⟨ends, collected, e⟩ := bind_eq_ok.mp h
  obtain rfl := Except.ok.inj e
  have one : ∀ (code : Int) (i : Nat) (pair : List Int), (if code ∈ ambientBoundaries then do
      let a ← index element.vertices ((i + 1) % 3 : Nat)
      let b ← index element.vertices ((i + 2) % 3 : Nat)
      .ok [a, b] else .ok [] : Except Exn (List Int)) = .ok pair → (point ∈ pair ↔ code ∈ ambientBoundaries ∧
        (element.vertices[(i + 1) % 3]? = some point ∨ element.vertices[(i + 2) % 3]? = some point)) := by
    intro code i pair made
    split at made
    · rename_i isOpen
      obtain ⟨a, ha, made⟩ := bind_eq_ok.mp made
      obtain ⟨b, hb, made⟩ := bind_eq_ok.mp made
      obtain rfl := Except.ok.inj made
      rw [index_natCast_eq_ok] at ha hb
      rw [ha, hb, Option.some_inj, Option.some_inj, List.mem_cons, List.mem_singleton, eq_comm, eq_comm (a := point)]
      simp [isOpen]
    · rename_i closed
      obtain rfl := Except.ok.inj made
      simp [closed]
  rw [List.mem_flatten]
  constructor
  · rintro ⟨pair, hp, mem⟩
    obtain ⟨⟨code, i⟩, placed, made⟩ := exists_of_mem_mapM collected hp
    obtain ⟨isOpen, atEnd⟩ := (one code i pair made).mp mem
    exact ⟨i, code, List.mk_mem_zipIdx_iff_getElem?.mp placed, isOpen, atEnd⟩
  · rintro ⟨i, code, placed, isOpen, atEnd⟩
    obtain ⟨pair, hp, made⟩ := exists_mem_of_mapM collected (List.mk_mem_zipIdx_iff_getElem?.mpr placed)
    exact ⟨pair, hp, (one code i pair made).mpr ⟨isOpen, atEnd⟩⟩

theorem mem_touchesOf {touches : List (Int × Int)} (h : touchesOf old mesh = .ok touches) {point material : Int} :
    (point, material) ∈ touches ↔ ∃ triangle ∈ mesh.triangles,
      (materialIds old).get? triangle.regionId = some material ∧ point ∈ triangle.vertexList := by
  obtain ⟨each, collected, e⟩ := bind_eq_ok.mp h
  obtain rfl := Except.ok.inj e
  rw [List.mem_flatten]
  constructor
  · rintro ⟨pairs, hp, mem⟩
    obtain ⟨triangle, ht, made⟩ := exists_of_mem_mapM collected hp
    refine ⟨triangle, ht, ?_⟩
    split at made
    · rename_i known found
      obtain rfl := Except.ok.inj made
      obtain ⟨point', there, e⟩ := List.mem_map.mp mem
      cases e
      exact ⟨found, there⟩
    · cases made
  · rintro ⟨triangle, ht, found, mem⟩
    obtain ⟨pairs, hp, made⟩ := exists_mem_of_mapM collected ht
    rw [found] at made
    obtain rfl := Except.ok.inj made
    exact ⟨_, hp, List.mem_map.mpr ⟨point, mem, rfl⟩⟩

/-- Which materials are at which points. -/
theorem touchingOf_spec {elements : List Element} {touching : Touching}
    (h : touchingOf old mesh elements = .ok touching) : touching.Distinct ∧
      ∀ point material, touching.Has point material ↔
        (∃ triangle ∈ mesh.triangles, (materialIds old).get? triangle.regionId = some material ∧
          point ∈ triangle.vertexList) ∨
        ambientValues old ≠ none ∧ material = ambientMaterialId ∧ ∃ element ∈ elements, OpenEnd element point := by
  obtain ⟨touches, htouches, h⟩ := bind_eq_ok.mp h
  have start : Touching.Distinct ∅ := fun point => by simp
  have has : ∀ point material, (touches.foldl (fun d e => Touching.add d e.1 e.2) (∅ : Touching)).Has point material ↔
      ∃ triangle ∈ mesh.triangles, (materialIds old).get? triangle.regionId = some material ∧
        point ∈ triangle.vertexList := by
    intro point material
    rw [Touching.has_foldl, mem_touchesOf htouches]
    simp [Touching.Has]
  dsimp only at h
  split at h
  · rename_i none
    obtain rfl := Except.ok.inj h
    refine ⟨start.foldl touches, ?_⟩
    intro point material
    rw [has, none]
    simp
  · rename_i values some
    obtain ⟨opened, collected, h⟩ := bind_eq_ok.mp h
    obtain rfl := Except.ok.inj h
    rw [← List.foldl_map (f := fun point => (point, ambientMaterialId))
      (g := fun (d : Touching) (e : Int × Int) => Touching.add d e.1 e.2)]
    refine ⟨(start.foldl touches).foldl _, ?_⟩
    intro point material
    rw [Touching.has_foldl, has]
    apply or_congr_right
    rw [some, List.mem_map]
    constructor
    · rintro ⟨point, mem, e⟩
      cases e
      obtain ⟨points, hp, mem⟩ := List.mem_flatten.mp mem
      obtain ⟨element, he, made⟩ := exists_of_mem_mapM collected hp
      exact ⟨by simp, rfl, element, he, (mem_openPoints made).mp mem⟩
    · rintro ⟨-, rfl, element, he, atEnd⟩
      obtain ⟨points, hp, made⟩ := exists_mem_of_mapM collected he
      exact ⟨point, List.mem_flatten.mpr ⟨points, hp, (mem_openPoints made).mpr atEnd⟩, rfl⟩

theorem rowOf_spec {sampler : Sampler Rat} {point material : Int} {row : NodeSolution Rat}
    (h : rowOf ops old mesh sampler reach point material = .ok row) :
    row.coordinateIndex = point ∧ row.materialId = material := by
  obtain ⟨p, -, h⟩ := bind_eq_ok.mp h
  split at h
  · rename_i ambient
    obtain rfl := Except.ok.inj h
    exact ⟨rfl, ambient.symm⟩
  · obtain ⟨values, -, h⟩ := bind_eq_ok.mp h
    split at h
    · cases h
    · obtain rfl := Except.ok.inj h
      exact ⟨rfl, rfl⟩

/-- The rows are those of the points and materials that touch, in order. -/
theorem solutionsOf_spec {elements : List Element} {rows : List (NodeSolution Rat)}
    (h : solutionsOf ops old mesh elements reach = .ok rows) : ∃ touching,
      touchingOf old mesh elements = .ok touching ∧
        rows.map (fun row => (row.coordinateIndex, row.materialId)) = touching.ordered := by
  obtain ⟨touching, htouching, h⟩ := bind_eq_ok.mp h
  obtain ⟨sampler, -, h⟩ := bind_eq_ok.mp h
  refine ⟨touching, htouching, ?_⟩
  rw [← List.forall₂_eq_eq_eq, List.forall₂_map_left_iff]
  refine ((mapM_eq_ok.mp h).imp ?_).flip
  rintro ⟨point, material⟩ row made
  exact Prod.ext (rowOf_spec made).1 (rowOf_spec made).2

theorem solutionAt_of_mem {s : Structure Rat} {row : NodeSolution Rat}
    (unique : (s.solutions.map fun row => (row.coordinateIndex, row.materialId)).Nodup) (mem : row ∈ s.solutions) :
    solutionAt s row.coordinateIndex row.materialId = some row :=
  Dict.get?_ofList_map (fun _ ha _ hb same => List.inj_on_of_nodup_map unique ha hb same) mem

/-! ## The new structure -/

/-- What a remeshed structure is. -/
structure WellFormed (ops : FloatOps Rat) (old : Structure Rat) (mesh : Mesh) (tolerance : Rat)
    (new : Structure Rat) : Prop where
  /-- Each triangle becomes an element; its entries are other triangles or old codes. -/
  elements : List.Forall₂ (fun placed element => mesh.Becomes ops old (reachOf tolerance) placed.2 placed.1 element)
    mesh.triangles.zipIdx new.elements
  /-- Two triangles with a common edge have each other as neighbours there. -/
  linked : ∀ (t u : Nat) (triangle other : MeshTriangle) (i j : Fin 3) (element : Element), mesh.triangles[t]? = some triangle →
    mesh.triangles[u]? = some other → t ≠ u → triangle.edgeKey i = other.edgeKey j →
      new.elements[t]? = some element → element.neighbors[i.val]? = some (u : Int)
  symmetric : ∀ (t u : Nat) (element other : Element), new.elements[t]? = some element → new.elements[u]? = some other →
    (u : Int) ∈ element.neighbors → (t : Int) ∈ other.neighbors
  unique : (new.solutions.map fun row => (row.coordinateIndex, row.materialId)).Nodup
  rows : ∀ element ∈ new.elements, ∀ point ∈ element.vertices, ∃ material row,
    (materialIds new).get? element.regionId = some material ∧ solutionAt new point material = some row ∧
      row.coordinateIndex = point ∧ row.materialId = material

/-- The ambient rows are at the ends of the open edges, and there only. -/
def AmbientAtOpenEnds (new : Structure Rat) : Prop :=
  ∀ point, (∃ row ∈ new.solutions, row.coordinateIndex = point ∧ row.materialId = ambientMaterialId) ↔
    ∃ element ∈ new.elements, OpenEnd element point

theorem linked_of_conforming {elements : List Element} (conforming : mesh.Conforming)
    (spec : List.Forall₂ (fun placed element => mesh.Becomes ops old reach placed.2 placed.1 element)
      mesh.triangles.zipIdx elements) {t u : Nat} {triangle other : MeshTriangle} {i j : Fin 3} {element : Element}
    (ht : mesh.triangles[t]? = some triangle) (hu : mesh.triangles[u]? = some other) (apart : t ≠ u)
    (same : triangle.edgeKey i = other.edgeKey j) (he : elements[t]? = some element) :
    element.neighbors[i.val]? = some (u : Int) := by
  have placed : mesh.triangles.zipIdx[t]? = some (triangle, t) := by simp [ht]
  have becomes := getElem?_of_forall₂ spec placed he
  obtain ⟨code, found, entry⟩ := becomes.neighbors i
  have hasT : mesh.Has t (triangle.edgeKey i) := ⟨triangle, i, ht, rfl⟩
  have hasU : mesh.Has u (triangle.edgeKey i) := ⟨other, j, hu, same.symm⟩
  rcases entry with ⟨v, differs, hasV, rfl⟩ | ⟨alone, -⟩
  · rcases conforming _ t u v hasT hasU hasV with e | e | e
    · exact absurd e apart
    · exact absurd e.symm differs
    · rw [found, e]
  · exact absurd (alone u hasU).symm apart

/-- Remeshing gives a well-formed structure, and with ambient rows in the old one these are where
    they should be, if no triangle is itself of ambient. -/
theorem assemble_wellFormed (conforming : mesh.Conforming) (h : assemble ops old mesh tolerance = .ok new) :
    WellFormed ops old mesh tolerance new ∧
      (ambientValues old ≠ none →
        (∀ triangle ∈ mesh.triangles, (materialIds old).get? triangle.regionId ≠ some ambientMaterialId) →
          AmbientAtOpenEnds new) := by
  obtain ⟨elements, helements, h⟩ := bind_eq_ok.mp h
  obtain ⟨rows, hrows, h⟩ := bind_eq_ok.mp h
  obtain rfl := Except.ok.inj h
  have spec := elementsOf_spec helements
  obtain ⟨touching, htouching, keys⟩ := solutionsOf_spec hrows
  obtain ⟨distinct, has⟩ := touchingOf_spec htouching
  have unique : (rows.map fun row => (row.coordinateIndex, row.materialId)).Nodup :=
    keys ▸ distinct.nodup_ordered
  have row_iff : ∀ point material, (∃ row ∈ rows, row.coordinateIndex = point ∧ row.materialId = material) ↔
      touching.Has point material := by
    intro point material
    rw [← Touching.mem_ordered, ← keys, List.mem_map]
    simp only [Prod.mk.injEq]
  refine ⟨⟨spec, ?_, ?_, unique, ?_⟩, ?_⟩
  · intro t u triangle other i j element ht hu apart same he
    exact linked_of_conforming conforming spec ht hu apart same he
  · intro t u element other he ho mem
    obtain ⟨i, found⟩ := List.getElem?_of_mem mem
    obtain ⟨triangle, ht⟩ : ∃ triangle, mesh.triangles[t]? = some triangle := by
      have lt : t < mesh.triangles.length := by
        have := (List.getElem?_eq_some_iff.mp he).1
        rwa [← spec.length_eq, List.length_zipIdx] at this
      exact ⟨_, List.getElem?_eq_getElem lt⟩
    have placed : mesh.triangles.zipIdx[t]? = some (triangle, t) := by simp [ht]
    have becomes := getElem?_of_forall₂ spec placed he
    have bound : i < 3 := becomes.slots ▸ (List.getElem?_eq_some_iff.mp found).1
    obtain ⟨code, found', entry⟩ := becomes.neighbors ⟨i, bound⟩
    obtain rfl : code = (u : Int) := Option.some.inj (found'.symm.trans found)
    rcases entry with ⟨v, differs, ⟨triangle', j, hv, same⟩, e⟩ | ⟨-, -, -, -, -, -, -, -, neg, -⟩
    · obtain rfl : u = v := by omega
      exact List.mem_of_getElem? (linked_of_conforming conforming spec hv ht differs same ho)
    · omega
  · intro element mem point hpoint
    obtain ⟨⟨triangle, t⟩, placed, becomes⟩ := exists_of_mem_right spec mem
    have ht : triangle ∈ mesh.triangles := List.mem_of_getElem? (List.mk_mem_zipIdx_iff_getElem?.mp placed)
    obtain ⟨touches, htouches, -⟩ := bind_eq_ok.mp htouching
    obtain ⟨all, collected, -⟩ := bind_eq_ok.mp htouches
    obtain ⟨pairs, -, made⟩ := exists_mem_of_mapM collected ht
    split at made
    · rename_i material known
      have touches : touching.Has point material :=
        (has point material).mpr (Or.inl ⟨triangle, ht, known, becomes.vertices ▸ hpoint⟩)
      obtain ⟨row, hr, rfl, rfl⟩ := (row_iff point material).mpr touches
      refine ⟨row.materialId, row, ?_, solutionAt_of_mem unique hr, rfl, rfl⟩
      rw [becomes.region]
      exact known
    · cases made
  · intro ambient inside point
    rw [row_iff, has]
    constructor
    · rintro (⟨triangle, ht, known, -⟩ | ⟨-, -, atEnd⟩)
      · exact absurd known (inside triangle ht)
      · exact atEnd
    · exact fun atEnd => Or.inr ⟨ambient, rfl, atEnd⟩

/-! ## One triangle -/

/-- The root of a number of 10⁻¹⁸ths, rounded up to 10⁻⁹ths. -/
def rootUp (n : Nat) : Rat := (if n.sqrt * n.sqrt = n then n.sqrt else n.sqrt + 1 : Nat) / 10 ^ 9

theorem le_rootUp (n : Nat) : (n : Rat) ≤ (rootUp n * 10 ^ 9) ^ 2 := by
  unfold rootUp
  rw [div_mul_cancel₀ _ (by norm_num)]
  split
  · rename_i square
    rw [sq, ← Nat.cast_mul, square]
  · have := Nat.lt_succ_sqrt n
    rw [sq, ← Nat.cast_mul, Nat.cast_le]
    exact this.le

/-- Lengths rounded up to 10⁻⁹, of numbers that are written plainly. -/
def roundedUp : FloatOps Rat where
  hypot x y := rootUp ⌈(x ^ 2 + y ^ 2) * 10 ^ 18⌉.toNat
  root x y := rootUp ⌈(x ^ 2 + y ^ 2) * 10 ^ 18⌉.toNat
  repr v := toString v
  formatG v := toString v
  abs_le_hypot x y := by
    have up : (x ^ 2 + y ^ 2) * 10 ^ 18 ≤ (rootUp ⌈(x ^ 2 + y ^ 2) * 10 ^ 18⌉.toNat * 10 ^ 9) ^ 2 := by
      refine le_trans ?_ (le_rootUp _)
      exact (Int.le_ceil _).trans (by exact_mod_cast Int.self_le_toNat _)
    have pos : 0 ≤ rootUp ⌈(x ^ 2 + y ^ 2) * 10 ^ 18⌉.toNat := by
      unfold rootUp
      positivity
    constructor
    · apply abs_le_of_sq_le_sq _ pos
      nlinarith [sq_nonneg y]
    · apply abs_le_of_sq_le_sq _ pos
      nlinarith [sq_nonneg x]

/-- A triangle of one material, exposed on one side. -/
def oneTriangle (material : Int) (solutions : List (NodeSolution Rat)) : Structure Rat where
  version := ""
  dimension := 2
  verticesPerElement := 3
  neighborsPerElement := 3
  coordinates := [⟨1, 0, 0⟩, ⟨2, 1, 0⟩, ⟨3, 0, 1⟩]
  regions := [⟨1, material, resolveMaterial material⟩]
  elements := [⟨1, 1, [0, 1, 2], [-1022, -1024, -1024], [-1, -1]⟩]
  solutions := solutions
  species := []
  temperature := none
  warnings := []

/-- The same triangle as a mesh. -/
def sameTriangle : Mesh where
  points := [(0, 0), (1, 0), (0, 1)]
  triangles := [⟨(0, 1, 2), 1⟩]

theorem sameTriangle_conforming : sameTriangle.Conforming := by
  have first : ∀ key t, sameTriangle.Has t key → t = 0 := by
    rintro key t ⟨triangle, i, placed, -⟩
    have := (List.getElem?_eq_some_iff.mp placed).1
    exact Nat.lt_one_iff.mp this
  intro key t u v ht hu _
  exact Or.inl ((first key t ht).trans (first key u hu).symm)

/-- Silicon, with ambient rows at the ends of the exposed side. -/
def silicon : Structure Rat := oneTriangle 3
  [⟨0, 3, "silicon", [1]⟩, ⟨1, 3, "silicon", [2]⟩, ⟨2, 3, "silicon", [3]⟩, ⟨1, 0, "ambient", [0]⟩,
    ⟨2, 0, "ambient", [0]⟩]

theorem assemble_wellFormed_silicon : ∃ new, assemble roundedUp silicon sameTriangle 0 = .ok new ∧
    WellFormed roundedUp silicon sameTriangle 0 new ∧ AmbientAtOpenEnds new := by
  obtain ⟨new, assembled⟩ : ∃ new, assemble roundedUp silicon sameTriangle 0 = .ok new :=
    exists_ok (by decide +kernel)
  obtain ⟨wellFormed, ambient⟩ := assemble_wellFormed sameTriangle_conforming assembled
  exact ⟨new, assembled, wellFormed, ambient (by decide) (by decide)⟩

/-- A triangle of ambient has an ambient row at each corner, also where no side is open. -/
theorem not_assemble_wellFormed : ¬ ∀ (ops : FloatOps Rat) (old : Structure Rat) (mesh : Mesh) (tolerance : Rat)
    (new : Structure Rat), mesh.Conforming →
      (∀ triangle ∈ mesh.triangles, ∃ region ∈ old.regions, region.id = triangle.regionId) →
        assemble ops old mesh tolerance = .ok new →
          WellFormed ops old mesh tolerance new ∧ (ambientValues old ≠ none → AmbientAtOpenEnds new) := by
  intro all
  let old := oneTriangle 0 [⟨0, 0, "ambient", [0]⟩]
  obtain ⟨new, assembled, row, closed⟩ : ∃ new, assemble roundedUp old sameTriangle 0 = .ok new ∧
      (∃ row ∈ new.solutions, row.coordinateIndex = 0 ∧ row.materialId = ambientMaterialId) ∧
        new.elements = [⟨1, 1, [0, 1, 2], [-1022, -1024, -1024], [-1, -1]⟩] :=
    exists_ok_and (by decide +kernel)
  have ambient := (all roundedUp old sameTriangle 0 new sameTriangle_conforming (by decide) assembled).2
    (by decide)
  obtain ⟨element, mem, i, code, placed, isOpen, atEnd⟩ := (ambient 0).mp row
  rw [closed, List.mem_singleton] at mem
  subst mem
  match i with
  | 0 => simp at atEnd
  | 1 =>
    obtain rfl : -1024 = code := by simpa using placed
    exact absurd isOpen (by decide)
  | 2 =>
    obtain rfl : -1024 = code := by simpa using placed
    exact absurd isOpen (by decide)
  | n + 3 => simp at placed

end TcadWebapp.Remesh
