import TcadWebapp.Devsim.Proofs.Contacts
import TcadWebapp.StrParser.Sides

/-!
# The edges of a cluster, side by side

On a mesh of triangles the loops of `_contact_edges_of_cluster` go over the sides of the cluster's
elements: what they collect is what each side gives by itself (`Side.touch`), and a choice among that
(`select`).
-/

namespace TcadWebapp.Devsim

open StrParser

variable {s : Structure Rat} {conductors : List String} {cluster : List Nat}

/-- The material of a region is one of these. -/
def ofMaterial (s : Structure Rat) (materials : List String) (regionId : Int) : Bool :=
  (s.materialOfRegion.get? regionId).any (· ∈ materials)

/-- What a side of an element of a cluster gives. -/
def touch (s : Structure Rat) (conductors : List String) (cluster : List Nat) (side : Side) :
    Option Touch :=
  if side.code < 0 ∨ side.code.toNat ∈ cluster then none
  else match s.elements[side.code.toNat]? with
    | none => none
    | some other =>
      if ofMaterial s conductors other.regionId then none
      else
        let fromGate := ofMaterial s semiconductors side.regionId
        let edge : ContactEdge := ⟨other.id, other.regionId, (side.b, side.a)⟩
        if ofMaterial s semiconductors other.regionId then some ⟨fromGate, true, edge⟩
        else if ofMaterial s insulators other.regionId then some ⟨fromGate, false, edge⟩
        else none

/-- What is kept of what a cluster touches. -/
def select (touches : List Touch) : List Touch :=
  let semiconductor := touches.filter Touch.semiconductor
  let chosen := if semiconductor = [] then touches.filter (fun t => !t.semiconductor) else semiconductor
  let fromGate := chosen.filter Touch.fromGate
  if fromGate = [] then chosen else fromGate

/-- What the sides of a cluster give. -/
def touchesAt (s : Structure Rat) (conductors : List String) (cluster : List Nat) : List Touch :=
  cluster.flatMap fun t => (sidesAt s.elements t).filterMap (touch s conductors cluster)

theorem select_sublist (touches : List Touch) : (select touches).Sublist touches := by
  unfold select
  dsimp only
  have chosen : ∀ l : List Touch, l.Sublist touches →
      (if l.filter Touch.fromGate = [] then l else l.filter Touch.fromGate).Sublist touches := by
    intro l h
    split
    · exact h
    · exact List.filter_sublist.trans h
  split
  · exact chosen _ List.filter_sublist
  · exact chosen _ List.filter_sublist

theorem index_of_nonneg {α : Type*} {l : List α} {i : Int} (pos : 0 ≤ i) {a : α} :
    index l i = .ok a ↔ l[i.toNat]? = some a := by
  rw [index, if_pos pos]
  cases l[i.toNat]? <;> simp

/-- One slot of the loop. -/
theorem touchesOf_cons {element : Element} {slot : Nat} {rest : List (Nat × Int)}
    {touches : List Touch} {side : Side} {t : Nat} (made : element.side t slot = some side)
    (vertices : edgeVertices element slot = .ok (side.a, side.b))
    (h : touchesOf s conductors cluster element ((slot, side.code) :: rest) = .ok touches) :
    ∃ later, touchesOf s conductors cluster element rest = .ok later ∧
      touches = (touch s conductors cluster side).toList ++ later := by
  obtain ⟨-, -, -, -, region, -⟩ := Element.side_eq_some.mp made
  rw [touchesOf] at h
  unfold touch ofMaterial
  split at h
  · rename_i outside
    rw [if_pos outside]
    exact ⟨touches, h, rfl⟩
  · rename_i outside
    have pos : 0 ≤ side.code := not_lt.mp fun neg => outside (Or.inl neg)
    obtain ⟨other, found, h⟩ := bind_eq_ok.mp h
    rw [if_neg outside, (index_of_nonneg pos).mp found]
    dsimp only at h ⊢
    split at h
    · rename_i conducts
      rw [if_pos conducts]
      exact ⟨touches, h, rfl⟩
    · rename_i conducts
      rw [if_neg conducts]
      obtain ⟨ends, edge, h⟩ := bind_eq_ok.mp h
      obtain rfl := Except.ok.inj (edge.symm.trans vertices)
      obtain ⟨later, rec, h⟩ := bind_eq_ok.mp h
      refine ⟨later, rec, ?_⟩
      dsimp only at h
      rw [region]
      split at h
      · rename_i semi
        rw [if_pos semi]
        exact (Except.ok.inj h).symm
      · rename_i semi
        rw [if_neg semi]
        split at h
        · rename_i insulates
          rw [if_pos insulates]
          exact (Except.ok.inj h).symm
        · rename_i insulates
          rw [if_neg insulates]
          exact (Except.ok.inj h).symm

/-- The loop over the slots of one element. -/
theorem touchesOf_eq {element : Element} (triangle : element.vertices.length = 3 ∧
    element.neighbors.length = 3) (t : Nat) {touches : List Touch}
    (h : touchesOf s conductors cluster element (slotsOf element) = .ok touches) :
    touches = (element.sides t).filterMap (touch s conductors cluster) := by
  obtain ⟨a, b, c, l, m, n, vertices, neighbors, sides⟩ := element.sides_of_triangle triangle t
  have slots : slotsOf element = [(0, l), (1, m), (2, n)] := by
    simp [slotsOf, neighbors, List.range_succ]
  have made : ∀ slot side, element.side t slot = some side → slot < 3 →
      edgeVertices element slot = .ok (side.a, side.b) := by
    intro slot side made lt
    obtain ⟨-, -, first, second, -⟩ := Element.side_eq_some.mp made
    simp only [edgeVertices, index_natCast, first, second]
    rfl
  have side0 : element.side t 0 = some ⟨t, 0, b, c, element.regionId, l⟩ := by
    simp [Element.side, vertices, neighbors]
  have side1 : element.side t 1 = some ⟨t, 1, c, a, element.regionId, m⟩ := by
    simp [Element.side, vertices, neighbors]
  have side2 : element.side t 2 = some ⟨t, 2, a, b, element.regionId, n⟩ := by
    simp [Element.side, vertices, neighbors]
  rw [slots] at h
  obtain ⟨second, h₁, rfl⟩ := touchesOf_cons side0 (made 0 _ side0 (by omega)) h
  obtain ⟨third, h₂, rfl⟩ := touchesOf_cons side1 (made 1 _ side1 (by omega)) h₁
  obtain ⟨none_, h₃, rfl⟩ := touchesOf_cons side2 (made 2 _ side2 (by omega)) h₂
  rw [touchesOf] at h₃
  obtain rfl := Except.ok.inj h₃
  rw [sides]
  simp only [List.filterMap_cons, List.filterMap_nil, List.append_nil]
  cases touch s conductors cluster ⟨t, 0, b, c, element.regionId, l⟩ <;>
    cases touch s conductors cluster ⟨t, 1, c, a, element.regionId, m⟩ <;>
      cases touch s conductors cluster ⟨t, 2, a, b, element.regionId, n⟩ <;> rfl

/-- The edges of a cluster are what its sides give, less what is not kept. -/
theorem contactEdgesOfCluster_eq (triangles : ∀ element ∈ s.elements,
    element.vertices.length = 3 ∧ element.neighbors.length = 3) {edges : List ContactEdge}
    (h : contactEdgesOfCluster s cluster conductors = .ok edges) :
    edges = (select (touchesAt s conductors cluster)).map Touch.edge := by
  obtain ⟨touches, collected, h⟩ := bind_eq_ok.mp h
  have each : touches = cluster.map fun t =>
      (sidesAt s.elements t).filterMap (touch s conductors cluster) := by
    refine List.forall₂_eq_eq_eq ▸ List.forall₂_map_right_iff.mpr ?_
    refine (mapM_eq_ok.mp collected).flip.imp fun part t made => ?_
    obtain ⟨element, found, made⟩ := bind_eq_ok.mp made
    rw [index_natCast] at found
    split at found
    · rename_i there
      obtain rfl := Except.ok.inj found
      rw [sidesAt, there]
      exact touchesOf_eq (triangles _ (List.mem_of_getElem? there)) t made
    · cases found
  rw [List.partition_eq_filter_filter] at h
  obtain rfl := Except.ok.inj h
  subst each
  rfl

/-- What a side gives is its edge, with a neighbour beyond the cluster that is solved. -/
theorem touch_eq_some {side : Side} {t : Touch} (h : touch s conductors cluster side = some t) :
    ∃ other, 0 ≤ side.code ∧ side.code.toNat ∉ cluster ∧
      s.elements[side.code.toNat]? = some other ∧ ofMaterial s conductors other.regionId = false ∧
      t.edge = ⟨other.id, other.regionId, (side.b, side.a)⟩ := by
  unfold touch at h
  split at h
  · cases h
  · rename_i outside
    rw [not_or, not_lt] at outside
    split at h
    · cases h
    · rename_i other found
      split at h
      · cases h
      · rename_i solved
        refine ⟨other, outside.1, outside.2, found, by simpa using solved, ?_⟩
        dsimp only at h
        split at h
        · exact Option.some.inj h ▸ rfl
        · split at h
          · exact Option.some.inj h ▸ rfl
          · cases h

/-! ## The back side -/

/-- What a side gives as an edge of the back side. -/
def backTouch (s : Structure Rat) (side : Side) : Option ContactEdge :=
  if ofMaterial s semiconductors side.regionId ∧ side.code = backside then
    (s.elements[side.element]?).map fun element => ⟨element.id, side.regionId, (side.a, side.b)⟩
  else none

theorem backTouch_eq_some {side : Side} {edge : ContactEdge} (h : backTouch s side = some edge) :
    side.code = backside ∧ edge.vertices = (side.a, side.b) ∧ edge.regionId = side.regionId := by
  unfold backTouch at h
  split at h
  · rename_i back
    obtain ⟨element, -, rfl⟩ := Option.map_eq_some_iff.mp h
    exact ⟨back.2, rfl, rfl⟩
  · cases h

/-- The slots of one element that are on the back side. -/
theorem backTouches_eq {element : Element} (triangle : element.vertices.length = 3 ∧
    element.neighbors.length = 3) {t : Nat} (found : s.elements[t]? = some element)
    {part : List ContactEdge}
    (h : (if (s.materialOfRegion.get? element.regionId).any (· ∈ semiconductors) then
      (((List.range element.neighbors.length).zip element.neighbors).filter
        fun slot => slot.2 = backside).mapM fun slot => do
          let vertices ← edgeVertices element slot.1
          .ok (⟨element.id, element.regionId, vertices⟩ : ContactEdge)
    else .ok []) = (.ok part : Except Exn _)) :
    part = (element.sides t).filterMap (backTouch s) := by
  obtain ⟨a, b, c, l, m, n, vertices, neighbors, sides⟩ := element.sides_of_triangle triangle t
  rw [sides]
  split at h
  · rename_i semi
    have slots : (List.range element.neighbors.length).zip element.neighbors =
        [(0, l), (1, m), (2, n)] := by
      simp [neighbors, List.range_succ]
    have first : edgeVertices element 0 = .ok (b, c) := by simp [edgeVertices, vertices, index]; rfl
    have second : edgeVertices element 1 = .ok (c, a) := by simp [edgeVertices, vertices, index]; rfl
    have third : edgeVertices element 2 = .ok (a, b) := by simp [edgeVertices, vertices, index]; rfl
    have semi' : ofMaterial s semiconductors element.regionId = true := semi
    have each : ∀ slot ∈ [(0, l), (1, m), (2, n)].filter fun slot : Nat × Int => slot.2 = backside,
        (do
          let vertices ← edgeVertices element slot.1
          .ok (⟨element.id, element.regionId, vertices⟩ : ContactEdge) : Except Exn ContactEdge) =
        .ok ⟨element.id, element.regionId,
          if slot.1 = 0 then (b, c) else if slot.1 = 1 then (c, a) else (a, b)⟩ := by
      intro slot mem
      have mem := List.mem_of_mem_filter mem
      simp only [List.mem_cons, List.not_mem_nil, or_false] at mem
      rcases mem with rfl | rfl | rfl
      · rw [first]
        rfl
      · rw [second]
        rfl
      · rw [third]
        rfl
    rw [slots] at h
    obtain rfl := (mapM_ok_iff each).mp h
    simp only [backTouch, semi', found, List.filterMap_cons, List.filterMap_nil, true_and,
      List.filter_cons, List.filter_nil, decide_eq_true_eq, Option.map_some]
    by_cases hl : l = backside <;> by_cases hm : m = backside <;> by_cases hn : n = backside <;>
      simp [hl, hm, hn]
  · rename_i semi
    obtain rfl := Except.ok.inj h
    have semi' : ofMaterial s semiconductors element.regionId = false := by simpa [ofMaterial] using semi
    simp [backTouch, semi']

/-- The candidate of the back side has the edges that the sides give, if there are any. -/
theorem backsideCandidate_eq (triangles : ∀ element ∈ s.elements,
    element.vertices.length = 3 ∧ element.neighbors.length = 3) {body : Option Electrode}
    (h : backsideCandidate s = .ok body) :
    (body.map Electrode.edges).getD [] = (meshSides s.elements).filterMap (backTouch s) ∧
      ∀ one, body = some one → one.edges ≠ [] ∧ one.origin = "backside" := by
  obtain ⟨edges, collected, h⟩ := bind_eq_ok.mp h
  have all : edges.flatten = (meshSides s.elements).filterMap (backTouch s) := by
    have each : edges = s.elements.zipIdx.map fun entry =>
        (entry.1.sides entry.2).filterMap (backTouch s) := by
      rw [← List.zipIdx_map_fst 0 s.elements] at collected
      have parts := List.forall₂_map_left_iff.mp (mapM_eq_ok.mp collected)
      refine List.forall₂_eq_eq_eq ▸ List.forall₂_map_right_iff.mpr ?_
      refine forall₂_imp_of_mem parts.flip fun part entry mem made => ?_
      have found := List.mem_zipIdx_iff_getElem?.mp mem
      exact backTouches_eq (triangles _ (List.mem_of_getElem? found)) found made
    rw [each, meshSides, List.filterMap_flatMap, List.flatMap_def]
  split at h
  · rename_i nothing
    obtain rfl := Except.ok.inj h
    exact ⟨by simp [← all, nothing], by simp⟩
  · rename_i some_
    obtain ⟨touched, -, h⟩ := bind_eq_ok.mp h
    obtain ⟨extent, -, h⟩ := bind_eq_ok.mp h
    obtain rfl := Except.ok.inj h
    refine ⟨all, fun one e => ?_⟩
    obtain rfl := Option.some.inj e
    exact ⟨some_, rfl⟩

end TcadWebapp.Devsim
