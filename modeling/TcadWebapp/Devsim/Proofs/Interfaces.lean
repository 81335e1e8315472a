import Mathlib.Data.List.Flatten
import TcadWebapp.Devsim.Proofs.Clusters
import TcadWebapp.Devsim.Proofs.Page
import TcadWebapp.Devsim.Proofs.Touches

/-!
# Interfaces share no edge

On a mesh of triangles that conforms (`ConformingMesh`), the edges of the interfaces are pairs of
different sides, and of the two sides of an edge at most one gives an edge: a side between a cluster and
what is solved has the conducting element on one side only, and a side on the back of the device has no
element behind it.
-/

namespace TcadWebapp.Devsim

open StrParser

variable {s : Structure Rat} {gateModel : GateModel} {conductors : List String}

/-- The edge of the mesh, whichever way it is walked. -/
def ContactEdge.pair (edge : ContactEdge) : Int × Int := edgePair edge.vertices.1 edge.vertices.2

/-! ## What the clusters give -/

theorem map_filterMap_eq {α β γ : Type*} {f : α → Option β} {g : β → γ} {h : α → γ} (l : List α)
    (same : ∀ a b, f a = some b → g b = h a) :
    (l.filterMap f).map g = (l.filter fun a => (f a).isSome).map h := by
  induction l with
  | nil => rfl
  | cons a l ih =>
    cases made : f a with
    | none => simpa [List.filterMap_cons, made] using ih
    | some b => simp [made, ih, same a b made]

/-- The sides of a cluster that give an edge. -/
def touching (s : Structure Rat) (conductors : List String) (cluster : List Nat) : List Side :=
  (cluster.flatMap (sidesAt s.elements)).filter fun side => (touch s conductors cluster side).isSome

theorem pair_of_touch {cluster : List Nat} {side : Side} {t : Touch}
    (h : touch s conductors cluster side = some t) : t.edge.pair = side.pair := by
  obtain ⟨other, -, -, -, -, edge⟩ := touch_eq_some h
  rw [edge]
  exact edgePair_comm _ _

theorem pairs_touchesAt (cluster : List Nat) :
    (touchesAt s conductors cluster).map (fun t => t.edge.pair) =
      (touching s conductors cluster).map Side.pair := by
  rw [touchesAt, ← List.filterMap_flatMap, touching]
  exact map_filterMap_eq _ fun _ _ => pair_of_touch

theorem mem_touching {cluster : List Nat} {side : Side} (h : side ∈ touching s conductors cluster) :
    side ∈ meshSides s.elements ∧ side.element ∈ cluster ∧
      ∃ t, touch s conductors cluster side = some t := by
  obtain ⟨mem, given⟩ := List.mem_filter.mp h
  obtain ⟨t, ht, at_t⟩ := List.mem_flatMap.mp mem
  obtain ⟨inMesh, rfl⟩ := mem_sidesAt.mp at_t
  exact ⟨inMesh, ht, Option.isSome_iff_exists.mp given⟩

theorem nodup_flatMap_sidesAt {elements : List Element} {positions : List Nat} (nodup : positions.Nodup) :
    (positions.flatMap (sidesAt elements)).Nodup := by
  rw [List.nodup_flatMap]
  refine ⟨fun t _ => nodup_sidesAt elements t, nodup.imp fun {t t'} ne side h h' => ?_⟩
  exact ne ((mem_sidesAt.mp h).2.symm.trans (mem_sidesAt.mp h').2)

/-- No side gives edges twice. -/
theorem nodup_touching {clusters : List (List Nat)} (nodup : clusters.flatten.Nodup) :
    (clusters.flatMap (touching s conductors)).Nodup := by
  have sides : (clusters.flatMap fun cluster => cluster.flatMap (sidesAt s.elements)).Nodup := by
    have := @nodup_flatMap_sidesAt s.elements _ nodup
    rwa [← List.flatMap_id', List.flatMap_assoc] at this
  exact sides.sublist (List.Sublist.flatMap_right _ fun _ _ => List.filter_sublist)

/-- Of two sides with one edge, of which the first gives an edge, the second is of the element behind
the first, which does not conduct. -/
theorem code_of_pair (conforming : ConformingMesh s.elements ByPosition) {cluster : List Nat} {x y : Side}
    (given : x ∈ touching s conductors cluster) (mem : y ∈ meshSides s.elements) (ne : x ≠ y)
    (pair : x.pair = y.pair) : ¬ Conducts s conductors y.element := by
  obtain ⟨inMesh, -, t, made⟩ := mem_touching given
  obtain ⟨other, -, -, found, solved, -⟩ := touch_eq_some made
  have code : x.code = y.element := conforming.paired x inMesh y mem ne pair
  rw [code, Int.toNat_natCast] at found
  rintro ⟨element, there, conducts⟩
  obtain rfl := Option.some.inj (found.symm.trans there)
  exact absurd conducts (by simpa [ofMaterial] using solved)

/-- The edges that the clusters give are different ones. -/
theorem nodup_pairs_touching (conforming : ConformingMesh s.elements ByPosition)
    {clusters : List (List Nat)} (are : AreClusters s.elements (isConductor s conductors) clusters) :
    ((clusters.flatMap (touching s conductors)).map Side.pair).Nodup := by
  refine (nodup_touching are.nodup).map_on fun x hx y hy pair => ?_
  by_contra ne
  obtain ⟨cluster, -, hx⟩ := List.mem_flatMap.mp hx
  obtain ⟨cluster', hc', hy⟩ := List.mem_flatMap.mp hy
  obtain ⟨inMesh, inside, -⟩ := mem_touching hy
  refine code_of_pair conforming hx inMesh ne pair ?_
  exact isConductor_iff.mp ((are.each cluster' hc').conducting _ inside)

/-! ## The back side -/

/-- The sides on the back of the device. -/
def backSides (s : Structure Rat) : List Side :=
  (meshSides s.elements).filter fun side => (backTouch s side).isSome

theorem pairs_backTouches : ((meshSides s.elements).filterMap (backTouch s)).map ContactEdge.pair =
    (backSides s).map Side.pair := by
  refine map_filterMap_eq _ fun side edge made => ?_
  rw [ContactEdge.pair, (backTouch_eq_some made).2.1]
  rfl

theorem mem_backSides {side : Side} (h : side ∈ backSides s) :
    side ∈ meshSides s.elements ∧ side.code = backside := by
  obtain ⟨mem, given⟩ := List.mem_filter.mp h
  obtain ⟨edge, made⟩ := Option.isSome_iff_exists.mp given
  exact ⟨mem, (backTouch_eq_some made).1⟩

/-- An edge on the back belongs to no other side. -/
theorem eq_of_backSide (conforming : ConformingMesh s.elements ByPosition) {x y : Side}
    (hx : x ∈ backSides s) (mem : y ∈ meshSides s.elements) (pair : x.pair = y.pair) : x = y := by
  by_contra ne
  obtain ⟨inMesh, back⟩ := mem_backSides hx
  have code : x.code = y.element := conforming.paired x inMesh y mem ne pair
  rw [back, backside] at code
  omega

/-- The edges of all interfaces are different ones. -/
theorem nodup_pairs (conforming : ConformingMesh s.elements ByPosition) {clusters : List (List Nat)}
    (are : AreClusters s.elements (isConductor s conductors) clusters) :
    ((clusters.flatMap (touching s conductors) ++ backSides s).map Side.pair).Nodup := by
  rw [List.map_append, List.nodup_append]
  refine ⟨nodup_pairs_touching conforming are, ?_, ?_⟩
  · refine ((nodup_meshSides s.elements).filter _).map_on fun x hx y hy pair => ?_
    exact eq_of_backSide conforming hx (mem_backSides hy).1 pair
  · intro p given p' back same
    obtain ⟨x, hx, rfl⟩ := List.mem_map.mp given
    obtain ⟨y, hy, rfl⟩ := List.mem_map.mp back
    obtain ⟨cluster, -, hx⟩ := List.mem_flatMap.mp hx
    obtain ⟨inMesh, -, t, made⟩ := mem_touching hx
    obtain ⟨other, pos, -⟩ := touch_eq_some made
    obtain rfl := eq_of_backSide conforming hy inMesh same.symm
    rw [(mem_backSides hy).2, backside] at pos
    omega

/-! ## The interfaces -/

/-- What a candidate is of a cluster, if the cluster gives any edges. -/
theorem candidateOf_eq (triangles : ∀ element ∈ s.elements,
    element.vertices.length = 3 ∧ element.neighbors.length = 3) {cluster : List Nat}
    {candidate : Option Candidate} (h : candidateOf s conductors cluster = .ok candidate) :
    (candidate.map Candidate.edges).getD [] = (select (touchesAt s conductors cluster)).map Touch.edge ∧
      ∀ c, candidate = some c → c.edges ≠ [] := by
  obtain ⟨edges, touching, h⟩ := bind_eq_ok.mp h
  rw [← contactEdgesOfCluster_eq triangles touching]
  split at h
  · rename_i nothing
    obtain rfl := Except.ok.inj h
    exact ⟨nothing.symm, by simp⟩
  · rename_i something
    obtain ⟨touched, -, h⟩ := bind_eq_ok.mp h
    obtain ⟨extent, -, h⟩ := bind_eq_ok.mp h
    obtain rfl := Except.ok.inj h
    refine ⟨rfl, fun c e => ?_⟩
    obtain rfl := Option.some.inj e
    exact something

theorem edges_nameFrom {gates plain : Nat} (candidates : List Candidate) (g p : Nat) :
    (nameFrom gates plain candidates g p).map Electrode.edges = candidates.map Candidate.edges := by
  induction candidates generalizing g p with
  | nil => rfl
  | cons c rest ih =>
    unfold nameFrom
    split
    · simp [ih]
    · simp [ih]

theorem edges_nameElectrodes (candidates : List Candidate) :
    List.Perm ((nameElectrodes candidates).map Electrode.edges) (candidates.map Candidate.edges) := by
  rw [nameElectrodes, edges_nameFrom]
  exact (List.perm_insertionSort _ candidates).map _

/-- What the clusters give, cluster by cluster. -/
theorem edges_candidates (triangles : ∀ element ∈ s.elements,
    element.vertices.length = 3 ∧ element.neighbors.length = 3) {clusters : List (List Nat)}
    {candidates : List (Option Candidate)}
    (h : List.Forall₂ (fun cluster c => candidateOf s conductors cluster = .ok c) clusters candidates) :
    (candidates.filterMap id).flatMap Candidate.edges =
      clusters.flatMap fun cluster => (select (touchesAt s conductors cluster)).map Touch.edge := by
  induction h with
  | nil => rfl
  | @cons cluster candidate clusters candidates made _ ih =>
    rw [List.flatMap_cons, ← (candidateOf_eq triangles made).1, ← ih]
    cases candidate <;> rfl

/-- The edges of the electrodes of metal are among what the sides of the clusters give. -/
theorem pairs_metal (triangles : ∀ element ∈ s.elements,
    element.vertices.length = 3 ∧ element.neighbors.length = 3) {clusters : List (List Nat)}
    {candidates : List (Option Candidate)}
    (h : List.Forall₂ (fun cluster c => candidateOf s conductors cluster = .ok c) clusters candidates) :
    List.Subperm ((nameElectrodes (candidates.filterMap id)).flatMap fun one =>
        one.edges.map ContactEdge.pair)
      ((clusters.flatMap (touching s conductors)).map Side.pair) := by
  have metal : List.Perm ((nameElectrodes (candidates.filterMap id)).flatMap fun one =>
      one.edges.map ContactEdge.pair)
      (((candidates.filterMap id).flatMap Candidate.edges).map ContactEdge.pair) := by
    have flat := ((edges_nameElectrodes (candidates.filterMap id)).flatten).map ContactEdge.pair
    rwa [← List.flatMap_def, ← List.flatMap_def, List.map_flatMap] at flat
  refine metal.subperm.trans (List.Sublist.subperm ?_)
  rw [edges_candidates triangles h, List.map_flatMap, List.map_flatMap]
  refine List.Sublist.flatMap_right _ fun cluster _ => ?_
  rw [← pairs_touchesAt, List.map_map]
  exact (select_sublist _).map _

/-- The interfaces of a structure: their names differ, each has an edge, no edge of the mesh belongs to
two of them or twice to one, and an interface of metal borders one connected cluster. -/
structure InterfacesApart (s : Structure Rat) (gateModel : GateModel) (found : List Electrode) :
    Prop where
  names : (found.map Electrode.name).Nodup
  nonempty : ∀ one ∈ found, one.edges ≠ []
  pairs : (found.flatMap fun one => one.edges.map ContactEdge.pair).Nodup
  oneCluster : ∀ one ∈ found, one.origin ≠ "backside" → ∃ clusters cluster,
    conductorClusters s gateModel.conductors = .ok clusters ∧ cluster ∈ clusters ∧
      (∃ start, ∀ i ∈ cluster, Joined s gateModel.conductors start i) ∧
      ∀ edge ∈ one.edges, ∃ side ∈ meshSides s.elements,
        side.element ∈ cluster ∧ side.pair = edge.pair

theorem joined_of_isCluster {cluster : List Nat}
    (h : IsCluster s.elements (isConductor s conductors) cluster) :
    ∃ start, ∀ i ∈ cluster, Joined s conductors start i := by
  obtain ⟨start, hs, reached⟩ := h.joined
  refine ⟨start, fun i hi => ⟨isConductor_iff.mp (h.conducting start hs), ?_⟩⟩
  exact Relation.ReflTransGen.mono (fun _ _ => borders_iff.mp) _ _ (reached i hi)

/-- An electrode of metal has the edges that one cluster gives. -/
theorem side_of_metal (triangles : ∀ element ∈ s.elements,
    element.vertices.length = 3 ∧ element.neighbors.length = 3) {clusters : List (List Nat)}
    {candidates : List (Option Candidate)}
    (h : List.Forall₂ (fun cluster c => candidateOf s conductors cluster = .ok c) clusters candidates)
    {one : Electrode} (mem : one ∈ nameElectrodes (candidates.filterMap id)) :
    one.edges ≠ [] ∧ ∃ cluster ∈ clusters, ∀ edge ∈ one.edges, ∃ side ∈ meshSides s.elements,
      side.element ∈ cluster ∧ side.pair = edge.pair := by
  have edges := (edges_nameElectrodes (candidates.filterMap id)).mem_iff.mp (List.mem_map_of_mem mem)
  obtain ⟨c, hc, same⟩ := List.mem_map.mp edges
  obtain ⟨candidate, hcandidate, is⟩ := List.mem_filterMap.mp hc
  obtain rfl : candidate = some c := is
  obtain ⟨cluster, hcluster, made⟩ := exists_of_mem_right h hcandidate
  obtain ⟨given, nonempty⟩ := candidateOf_eq triangles made
  rw [← same]
  refine ⟨nonempty c rfl, cluster, hcluster, fun edge he => ?_⟩
  obtain ⟨t, ht, rfl⟩ := List.mem_map.mp (given ▸ he :
    edge ∈ (select (touchesAt s conductors cluster)).map Touch.edge)
  obtain ⟨side, hside, pair⟩ := List.mem_map.mp (@pairs_touchesAt s conductors cluster ▸
    List.mem_map_of_mem ((select_sublist _).subset ht))
  obtain ⟨inMesh, inside, -⟩ := mem_touching hside
  exact ⟨side, inMesh, inside, pair⟩

/-! ## Meshes on which nothing raises -/

/-- The vertices of elements are among the points. -/
def VerticesIn (s : Structure Rat) : Prop :=
  ∀ element ∈ s.elements, ∀ v ∈ element.vertices, 0 ≤ v ∧ v < s.coordinates.length

theorem paired_of_conforming {elements : List Element} (conforming : ConformingMesh elements ByPosition)
    (enclosed : Enclosed elements) : Paired elements := by
  -- An entry that is no code is that of a side with a counterpart, which is at that element.
  have counterpart : ∀ (i : Nat) (element : Element) (code : Int), elements[i]? = some element →
      code ∈ element.neighbors → 0 ≤ code →
      ∃ y ∈ meshSides elements, code = y.element ∧ y.code = i := by
    intro i element code found mem pos
    obtain ⟨slot, lt, entry⟩ := List.getElem_of_mem mem
    obtain ⟨a, b, c, l, m, n, vertices, neighbors, sides⟩ := element.sides_of_triangle
      (conforming.triangles element (List.mem_of_getElem? found)) i
    obtain ⟨x, hx, hcode⟩ : ∃ x ∈ element.sides i, x.code = code := by
      rw [neighbors] at mem
      simp only [List.mem_cons, List.not_mem_nil, or_false] at mem
      rw [sides]
      rcases mem with rfl | rfl | rfl <;> simp
    have inMesh : x ∈ meshSides elements := by
      refine (mem_sidesAt.mp (?_ : x ∈ sidesAt elements i)).1
      rw [sidesAt, found]
      exact hx
    by_contra none_
    refine absurd (enclosed x inMesh fun y hy pair => ?_) (by omega)
    by_contra ne
    refine none_ ⟨y, hy, ?_, ?_⟩
    · rw [← hcode]
      exact conforming.paired x inMesh y hy (Ne.symm ne) pair.symm
    · rw [← Element.mem_sides hx]
      exact conforming.paired y hy x inMesh ne pair
  refine ⟨?_, ?_⟩
  · intro element mem code hcode
    by_contra beyond
    obtain ⟨i, found⟩ := List.mem_iff_getElem?.mp mem
    obtain ⟨y, hy, rfl, -⟩ := counterpart i element code found hcode (by omega)
    obtain ⟨other, there, -⟩ := mem_meshSides.mp hy
    have := (List.getElem?_eq_some_iff.mp there).1
    omega
  · rintro i j ⟨element, found, mem⟩
    obtain ⟨y, hy, at_, code⟩ := counterpart i element j found mem (by omega)
    obtain ⟨other, there, -, made⟩ := mem_meshSides.mp hy
    obtain rfl : j = y.element := by omega
    refine ⟨other, there, ?_⟩
    rw [← code]
    exact List.mem_of_getElem? (Element.side_eq_some.mp made).2.2.2.2.2

/-- A mesh of triangles whose entries are in range and symmetric. -/
structure WellPlaced (s : Structure Rat) : Prop where
  triangles : ∀ element ∈ s.elements, element.vertices.length = 3 ∧ element.neighbors.length = 3
  paired : Paired s.elements
  inside : VerticesIn s

theorem WellPlaced.of_conforming (conforming : ConformingMesh s.elements ByPosition)
    (enclosed : Enclosed s.elements) (inside : VerticesIn s) : WellPlaced s :=
  ⟨conforming.triangles, paired_of_conforming conforming enclosed, inside⟩

theorem edgeVertices_mem {element : Element} {slot : Nat} {a b : Int}
    (h : edgeVertices element slot = .ok (a, b)) : a ∈ element.vertices ∧ b ∈ element.vertices := by
  obtain ⟨first, hfirst, h⟩ := bind_eq_ok.mp h
  obtain ⟨second, hsecond, h⟩ := bind_eq_ok.mp h
  obtain ⟨rfl, rfl⟩ := Prod.mk.inj (Except.ok.inj h)
  exact ⟨List.mem_of_getElem? ((index_of_nonneg (by omega)).mp hfirst),
    List.mem_of_getElem? ((index_of_nonneg (by omega)).mp hsecond)⟩

theorem hasEdge_of_triangle {element : Element} (three : element.vertices.length = 3) (slot : Nat) :
    HasEdge element slot := by
  have first := Nat.mod_lt (slot + 1) (by omega : 3 > 0)
  have second := Nat.mod_lt (slot + 2) (by omega : 3 > 0)
  unfold HasEdge InRange
  omega

theorem hasPoints_of_verticesIn (inside : VerticesIn s) {element : Element} (mem : element ∈ s.elements)
    {slot : Nat} {a b : Int} (vertices : edgeVertices element slot = .ok (a, b)) :
    InRange s.coordinates a ∧ InRange s.coordinates b := by
  obtain ⟨ha, hb⟩ := edgeVertices_mem vertices
  have first := inside element mem a ha
  have second := inside element mem b hb
  unfold InRange
  omega

/-- The indices that the search for contacts follows are in range. -/
theorem WellPlaced.indicesInRange (well : WellPlaced s) (conductors : List String) :
    IndicesInRange s conductors := by
  refine ⟨?_, ?_, ?_⟩
  · intro i _ element found neighbor mem
    exact well.paired.inRange element (List.mem_of_getElem? found) neighbor mem
  · intro i _ element found entry _ _ _
    exact hasEdge_of_triangle (well.triangles element (List.mem_of_getElem? found)).1 entry.1
  · intro clusters _ cluster _ edges given edge he
    obtain ⟨element, mem, touch⟩ := contactEdgesOfCluster_edge given he
    obtain ⟨slot, neighbor, other, a, b, -, -, -, vertices, rfl⟩ := touch.touches
    exact (hasPoints_of_verticesIn well.inside mem vertices).symm

theorem backsideCandidate_ok (triangles : ∀ element ∈ s.elements,
    element.vertices.length = 3 ∧ element.neighbors.length = 3) (inside : VerticesIn s) :
    ∃ body, backsideCandidate s = .ok body := by
  -- The edges of an element, whichever of its slots are on the back.
  have each : ∀ element ∈ s.elements, ∃ part : List ContactEdge,
      (if (s.materialOfRegion.get? element.regionId).any (· ∈ semiconductors) then
        (((List.range element.neighbors.length).zip element.neighbors).filter
          fun slot => slot.2 = backside).mapM fun slot => do
            let vertices ← edgeVertices element slot.1
            .ok (⟨element.id, element.regionId, vertices⟩ : ContactEdge)
      else .ok []) = (.ok part : Except Exn _) ∧ ∀ edge ∈ part, HasPoints s edge ∧
        ∃ material, s.materialOfRegion.get? edge.regionId = some material := by
    intro element mem
    split
    · rename_i semi
      obtain ⟨part, made⟩ := exists_forall₂ (R := fun (slot : Nat × Int) (edge : ContactEdge) =>
        edgeVertices element slot.1 = .ok edge.vertices ∧
          edge = ⟨element.id, element.regionId, edge.vertices⟩)
        (l := ((List.range element.neighbors.length).zip element.neighbors).filter
          fun slot => slot.2 = backside) fun slot _ => by
          obtain ⟨vertices, hv⟩ := (edgeVertices_raisesUnless element slot.1).ok_iff.mpr
            (hasEdge_of_triangle (triangles element mem).1 slot.1)
          exact ⟨⟨element.id, element.regionId, vertices⟩, hv, rfl⟩
      refine ⟨part, mapM_eq_ok.mpr (made.imp fun slot edge h => ?_), ?_⟩
      · rw [h.1, h.2]
        rfl
      · intro edge he
        obtain ⟨slot, -, vertices, is⟩ := exists_of_mem_right made he
        refine ⟨hasPoints_of_verticesIn inside mem vertices, ?_⟩
        obtain ⟨material, found, -⟩ := exists_of_any semi
        exact ⟨material, is ▸ found⟩
    · exact ⟨[], rfl, by simp⟩
  obtain ⟨edges, made⟩ := exists_forall₂ each
  have collected := mapM_eq_ok.mpr (made.imp fun _ _ h => h.1)
  have all : ∀ edge ∈ edges.flatten, HasPoints s edge ∧
      ∃ material, s.materialOfRegion.get? edge.regionId = some material := by
    intro edge he
    obtain ⟨part, hpart, he⟩ := List.mem_flatten.mp he
    obtain ⟨element, -, -, h⟩ := exists_of_mem_right made hpart
    exact h edge he
  unfold backsideCandidate
  rw [collected]
  dsimp only [bind, Except.bind]
  split
  · exact ⟨none, rfl⟩
  · rename_i something
    obtain ⟨materials, touched⟩ := touchedMaterials_ok fun edge he => (all edge he).2
    obtain ⟨extent, measured⟩ := (extentOf_raisesUnless something).ok_iff.mpr fun edge he =>
      (all edge he).1
    rw [touched, measured]
    exact ⟨_, rfl⟩

theorem detectInterfaces_ok (well : WellPlaced s) (gateModel : GateModel) :
    ∃ found, detectInterfaces s gateModel = .ok found := by
  obtain ⟨metal, detected⟩ := (detectElectrodes_raisesUnless s gateModel).ok_iff.mpr
    (well.indicesInRange gateModel.conductors)
  obtain ⟨body, back⟩ := backsideCandidate_ok well.triangles well.inside
  exact ⟨metal ++ body.toList, by rw [detectInterfaces, detected, back]; rfl⟩

/-- Of what the search finds, that interfaces are apart. -/
theorem apart_of_detectInterfaces {found : List Electrode} (conforming : ConformingMesh s.elements ByPosition)
    (h : detectInterfaces s gateModel = .ok found) : InterfacesApart s gateModel found := by
  have names := nodup_detectInterfaces h
  obtain ⟨metal, detected, h⟩ := bind_eq_ok.mp h
  obtain ⟨body, back, h⟩ := bind_eq_ok.mp h
  obtain rfl := Except.ok.inj h
  obtain ⟨clusters, clustered, detected⟩ := bind_eq_ok.mp detected
  obtain ⟨candidates, collected, detected⟩ := bind_eq_ok.mp detected
  obtain rfl := Except.ok.inj detected
  have made := mapM_eq_ok.mp collected
  have are : AreClusters s.elements (isConductor s gateModel.conductors) clusters := by
    rcases conductorClusters_spec s gateModel.conductors with ⟨-, clusters', e, are⟩ | ⟨-, raised⟩
    · obtain rfl := Except.ok.inj (clustered.symm.trans e)
      exact are
    · cases clustered.symm.trans raised
  obtain ⟨behind, body_eq⟩ := backsideCandidate_eq conforming.triangles back
  refine ⟨names, ?_, ?_, ?_⟩
  · intro one mem
    rcases List.mem_append.mp mem with mem | mem
    · exact (side_of_metal conforming.triangles made mem).1
    · exact (body_eq one (Option.mem_toList.mp mem)).1
  · rw [List.flatMap_append]
    have behind' : body.toList.flatMap (fun one => one.edges.map ContactEdge.pair) =
        (backSides s).map Side.pair := by
      rw [← pairs_backTouches, ← behind]
      cases body <;> simp
    rw [behind']
    have all := nodup_pairs conforming are
    rw [List.map_append] at all
    obtain ⟨sub, perm, sublist⟩ :=
      (List.subperm_append_right _).mpr (pairs_metal conforming.triangles made)
    exact perm.nodup_iff.mp (all.sublist sublist)
  · intro one mem origin
    rcases List.mem_append.mp mem with mem | mem
    · obtain ⟨-, cluster, hcluster, edges⟩ := side_of_metal conforming.triangles made mem
      exact ⟨clusters, cluster, clustered, hcluster, joined_of_isCluster (are.each cluster hcluster),
        edges⟩
    · exact absurd (body_eq one (Option.mem_toList.mp mem)).2 origin

/-- On a mesh that conforms, interfaces are apart, and they are found where no index leads beyond its
list. -/
theorem detectInterfaces_apart (conforming : ConformingMesh s.elements ByPosition) (gateModel : GateModel) :
    (∀ found, detectInterfaces s gateModel = .ok found → InterfacesApart s gateModel found) ∧
      (Enclosed s.elements → VerticesIn s → ∃ found, detectInterfaces s gateModel = .ok found) :=
  ⟨fun _ => apart_of_detectInterfaces conforming, fun enclosed inside =>
    detectInterfaces_ok (.of_conforming conforming enclosed inside) gateModel⟩

/-- A pad of metal on silicon, which has its back at another side. -/
def padOnSilicon : Structure Rat where
  version := ""
  dimension := 2
  verticesPerElement := 3
  neighborsPerElement := 3
  coordinates := [⟨1, 0, 0⟩, ⟨2, 1, 0⟩, ⟨3, 0, 1⟩, ⟨4, 1, 1⟩]
  regions := [⟨1, 6, "aluminum"⟩, ⟨2, 3, "silicon"⟩]
  elements := [⟨1, 1, [0, 1, 2], [1, -1022, -1022], [-1, -1]⟩,
    ⟨2, 2, [1, 3, 2], [-1023, 0, -1022], [-1, -1]⟩]
  solutions := []
  species := []
  temperature := none
  warnings := []

theorem detectInterfaces_apart_padOnSilicon : ∃ found,
    detectInterfaces padOnSilicon .semiconductor = .ok found ∧
      InterfacesApart padOnSilicon .semiconductor found := by
  obtain ⟨apart, returns⟩ := detectInterfaces_apart (s := padOnSilicon)
    ⟨by decide, by decide, by decide⟩ .semiconductor
  obtain ⟨found, h⟩ := returns (by unfold Enclosed; decide) (by unfold VerticesIn; decide)
  exact ⟨found, h, apart found h⟩

end TcadWebapp.Devsim
