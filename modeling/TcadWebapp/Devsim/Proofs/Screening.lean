import TcadWebapp.Devsim.Proofs.Clusters
import TcadWebapp.Devsim.Screening
import TcadWebapp.StrParser.Numbers

/-!
# When screening raises

Screening lets an IndexError through. It raises one exactly where the search for contacts runs
into an index that a file may have but its lists do not (`IndicesInRange`).
-/

namespace TcadWebapp.Devsim

open StrParser

variable {s : Structure Rat} {conductors : List String} {cluster : List Nat}

/-! ## The edges of a cluster -/

/-- The element has the two vertices of the edge opposite to a slot. -/
def HasEdge (element : Element) (slot : Nat) : Prop :=
  InRange element.vertices ((slot + 1) % 3 : Nat) ∧ InRange element.vertices ((slot + 2) % 3 : Nat)

theorem edgeVertices_raisesUnless (element : Element) (slot : Nat) :
    RaisesUnless .indexError (HasEdge element slot) (edgeVertices element slot) := by
  refine ((index_raisesUnless _ _).bind fun a ha => (index_raisesUnless _ _).bind fun b _ =>
    RaisesUnless.of_ok trivial).congr ?_
  constructor
  · intro h
    obtain ⟨first, second⟩ := h
    obtain ⟨a, -, found⟩ := index_of_inRange first
    exact ⟨first, (second a found).1⟩
  · exact fun h => ⟨h.1, fun _ _ => ⟨h.2, fun _ _ => trivial⟩⟩

/-- An element does not count as a conductor. -/
def Solved (s : Structure Rat) (conductors : List String) (element : Element) : Prop :=
  (s.materialOfRegion.get? element.regionId).any (· ∈ conductors) = false

/-- The element has the edges by which it borders others that are solved. -/
def HasEdges (s : Structure Rat) (conductors : List String) (cluster : List Nat)
    (element : Element) (slots : List (Nat × Int)) : Prop :=
  ∀ entry ∈ slots, 0 ≤ entry.2 → entry.2.toNat ∉ cluster →
    ∀ other, s.elements[entry.2.toNat]? = some other → Solved s conductors other →
      HasEdge element entry.1

theorem touchesOf_raisesUnless {element : Element} {slots : List (Nat × Int)}
    (inside : ∀ entry ∈ slots, entry.2 < s.elements.length) :
    RaisesUnless .indexError (HasEdges s conductors cluster element slots)
      (touchesOf s conductors cluster element slots) := by
  induction slots with
  | nil => exact RaisesUnless.of_ok (by simp [HasEdges])
  | cons entry rest ih =>
    obtain ⟨slot, neighbor⟩ := entry
    have ih := ih fun entry he => inside entry (List.mem_cons_of_mem _ he)
    have lt := inside (slot, neighbor) List.mem_cons_self
    have cons : HasEdges s conductors cluster element ((slot, neighbor) :: rest) ↔
        (0 ≤ neighbor → neighbor.toNat ∉ cluster → ∀ other, s.elements[neighbor.toNat]? = some other →
          Solved s conductors other → HasEdge element slot) ∧
        HasEdges s conductors cluster element rest := by
      unfold HasEdges
      rw [List.forall_mem_cons]
    rw [touchesOf]
    split
    · rename_i outside
      refine ih.congr ?_
      rw [cons]
      refine ⟨fun h => ⟨fun pos free => ?_, h⟩, And.right⟩
      rcases outside with neg | mem
      · exact absurd pos (not_le.mpr neg)
      · exact absurd mem free
    · rename_i outside
      rw [not_or, not_lt] at outside
      obtain ⟨pos, free⟩ := outside
      have found : s.elements[neighbor.toNat]? = some s.elements[neighbor.toNat] :=
        List.getElem?_eq_getElem (by omega)
      generalize s.elements[neighbor.toNat] = other at found
      have indexed : index s.elements neighbor = .ok other := by
        unfold index
        rw [if_pos pos, found]
      rw [indexed]
      show RaisesUnless _ _ (if _ then _ else _)
      split
      · rename_i conducts
        refine ih.congr ?_
        rw [cons]
        refine ⟨fun h => ⟨fun _ _ other' found' solved => ?_, h⟩, And.right⟩
        obtain rfl := Option.some.inj (found.symm.trans found')
        rw [Solved, conducts] at solved
        cases solved
      · rename_i solved
        rw [Bool.not_eq_true] at solved
        refine ((edgeVertices_raisesUnless element slot).bind (R := fun _ =>
          HasEdges s conductors cluster element rest) fun vertices _ => ?_).congr ?_
        · refine (ih.bind (R := fun _ => True) fun touches _ => ?_).congr (by simp)
          dsimp only
          split
          · exact RaisesUnless.of_ok trivial
          · split <;> exact RaisesUnless.of_ok trivial
        · rw [cons]
          constructor
          · intro h
            obtain ⟨vertices, hv⟩ := (edgeVertices_raisesUnless element slot).ok_iff.mpr h.1
            exact ⟨fun _ _ _ _ _ => h.1, h.2 vertices hv⟩
          · intro h
            exact ⟨h.1 pos free other found solved, fun _ _ => h.2⟩

/-- The neighbours of an element with their slots. -/
def slotsOf (element : Element) : List (Nat × Int) :=
  (List.range element.neighbors.length).zip element.neighbors

theorem mem_neighbors_of_slot {element : Element} {entry : Nat × Int} (h : entry ∈ slotsOf element) :
    entry.2 ∈ element.neighbors := (List.of_mem_zip h).2

/-- An edge of an element `other`, that is solved, towards a neighbour `element`. -/
structure TouchEdge (s : Structure Rat) (conductors : List String) (element : Element)
    (edge : ContactEdge) : Prop where
  touches : ∃ slot neighbor other a b, (slot, neighbor) ∈ slotsOf element ∧ 0 ≤ neighbor ∧
    s.elements[neighbor.toNat]? = some other ∧ edgeVertices element slot = .ok (a, b) ∧
    edge = ⟨other.id, other.regionId, (b, a)⟩
  material : ∃ material, s.materialOfRegion.get? edge.regionId = some material ∧
    material ∉ conductors ∧ (material ∈ semiconductors ∨ material ∈ insulators)

theorem exists_of_any {materials : List String} {found : Option String}
    (h : found.any (· ∈ materials) = true) :
    ∃ material, found = some material ∧ material ∈ materials := by
  obtain ⟨material, found, mem⟩ := (Option.any_eq_true _ _).mp h
  exact ⟨material, found, of_decide_eq_true mem⟩

theorem touchesOf_edge {element : Element} {slots : List (Nat × Int)} {touches : List Touch}
    (inside : ∀ entry ∈ slots, entry ∈ slotsOf element)
    (h : touchesOf s conductors cluster element slots = .ok touches) {touch : Touch}
    (ht : touch ∈ touches) : TouchEdge s conductors element touch.edge := by
  induction slots generalizing touches with
  | nil =>
    rw [touchesOf] at h
    obtain rfl := Except.ok.inj h
    simp at ht
  | cons entry rest ih =>
    obtain ⟨slot, neighbor⟩ := entry
    have inside' : ∀ entry ∈ rest, entry ∈ slotsOf element :=
      fun entry he => inside entry (List.mem_cons_of_mem _ he)
    rw [touchesOf] at h
    split at h
    · exact ih inside' h ht
    · rename_i outside
      have pos : 0 ≤ neighbor := not_lt.mp fun neg => outside (Or.inl neg)
      obtain ⟨other, found, h⟩ := bind_eq_ok.mp h
      have found : s.elements[neighbor.toNat]? = some other := by
        rw [← Int.toNat_of_nonneg pos, index_natCast] at found
        split at found
        · rename_i there
          rw [there, Except.ok.inj found]
        · cases found
      dsimp only at h
      split at h
      · exact ih inside' h ht
      · rename_i solved
        obtain ⟨⟨a, b⟩, vertices, h⟩ := bind_eq_ok.mp h
        obtain ⟨touches', rec, h⟩ := bind_eq_ok.mp h
        dsimp only at h
        have free : ∀ material, s.materialOfRegion.get? other.regionId = some material →
            material ∉ conductors := by
          intro material found conducting
          rw [found] at solved
          exact solved (by simpa using conducting)
        have touches : ∃ slot neighbor other' a' b', (slot, neighbor) ∈ slotsOf element ∧
            0 ≤ neighbor ∧ s.elements[neighbor.toNat]? = some other' ∧
            edgeVertices element slot = .ok (a', b') ∧
            (⟨other.id, other.regionId, (b, a)⟩ : ContactEdge) =
              ⟨other'.id, other'.regionId, (b', a')⟩ :=
          ⟨slot, neighbor, other, a, b, inside _ List.mem_cons_self, pos, found, vertices, rfl⟩
        split at h
        · rename_i semiconductor
          obtain rfl := Except.ok.inj h
          rcases List.mem_cons.mp ht with rfl | ht
          · obtain ⟨material, found, mem⟩ := exists_of_any semiconductor
            exact ⟨touches, material, found, free material found, Or.inl mem⟩
          · exact ih inside' rec ht
        · split at h
          · rename_i insulator
            obtain rfl := Except.ok.inj h
            rcases List.mem_cons.mp ht with rfl | ht
            · obtain ⟨material, found, mem⟩ := exists_of_any insulator
              exact ⟨touches, material, found, free material found, Or.inr mem⟩
            · exact ih inside' rec ht
          · obtain rfl := Except.ok.inj h
            exact ih inside' rec ht

/-- The elements of a cluster have the edges by which they border solved elements. -/
theorem contactEdgesOfCluster_raisesUnless (members : ∀ i ∈ cluster, i < s.elements.length)
    (indexed : ∀ i ∈ cluster, Indexed s.elements i) :
    RaisesUnless .indexError (∀ i ∈ cluster, ∀ element, s.elements[i]? = some element →
      HasEdges s conductors cluster element (slotsOf element))
      (contactEdgesOfCluster s cluster conductors) := by
  unfold contactEdgesOfCluster
  refine ((RaisesUnless.mapM (R := fun i => ∀ element, s.elements[i]? = some element →
    HasEdges s conductors cluster element (slotsOf element)) fun i hi => ?_).bind
      (R := fun _ => True) fun touches _ => RaisesUnless.of_ok trivial).congr (by simp)
  obtain ⟨element, found⟩ : ∃ element, s.elements[i]? = some element :=
    ⟨_, List.getElem?_eq_getElem (members i hi)⟩
  have indexOf : index s.elements (i : Nat) = .ok element := by rw [index_natCast, found]
  rw [indexOf]
  refine (touchesOf_raisesUnless fun entry he =>
    indexed i hi element found _ (mem_neighbors_of_slot he)).congr ?_
  constructor
  · intro h element' found'
    obtain rfl := Option.some.inj (found.symm.trans found')
    exact h
  · exact fun h => h element found

theorem contactEdgesOfCluster_edge {edges : List ContactEdge}
    (h : contactEdgesOfCluster s cluster conductors = .ok edges) {edge : ContactEdge}
    (he : edge ∈ edges) : ∃ element ∈ s.elements, TouchEdge s conductors element edge := by
  obtain ⟨touches, collected, h⟩ := bind_eq_ok.mp h
  have part : ∀ touch ∈ touches.flatten,
      ∃ element ∈ s.elements, TouchEdge s conductors element touch.edge := by
    intro touch ht
    obtain ⟨some, hs, ht⟩ := List.mem_flatten.mp ht
    obtain ⟨i, -, hi⟩ := exists_of_mem_mapM collected hs
    obtain ⟨element, found, hi⟩ := bind_eq_ok.mp hi
    rw [index_natCast] at found
    split at found
    · rename_i there
      obtain rfl := Except.ok.inj found
      exact ⟨_, List.mem_of_getElem? there, touchesOf_edge (fun _ => id) hi ht⟩
    · cases found
  rw [List.partition_eq_filter_filter] at h
  obtain rfl := Except.ok.inj h
  obtain ⟨touch, ht, rfl⟩ := List.mem_map.mp he
  refine part touch ?_
  have narrowed : ∀ chosen : List Touch, touch ∈ (if chosen.filter Touch.fromGate = [] then chosen
      else chosen.filter Touch.fromGate) → touch ∈ chosen := by
    intro chosen h
    split at h
    · exact h
    · exact List.mem_of_mem_filter h
  have ht := narrowed _ ht
  split at ht <;> exact List.mem_of_mem_filter ht

/-! ## The extent of the edges -/

/-- The ends of an edge are points of the structure. -/
def HasPoints (s : Structure Rat) (edge : ContactEdge) : Prop :=
  InRange s.coordinates edge.vertices.1 ∧ InRange s.coordinates edge.vertices.2

theorem touchedMaterials_ok {edges : List ContactEdge} (h : ∀ edge ∈ edges,
    ∃ material, s.materialOfRegion.get? edge.regionId = some material) :
    ∃ materials, touchedMaterials s edges = .ok materials := by
  have never : RaisesUnless .keyError True (touchedMaterials s edges) := by
    unfold touchedMaterials
    refine ((RaisesUnless.mapM (R := fun _ => True) fun edge he => ?_).bind (R := fun _ => True)
      fun materials _ => RaisesUnless.of_ok trivial).congr (by simp)
    obtain ⟨material, found⟩ := h edge he
    rw [found]
    exact RaisesUnless.of_ok trivial
  exact never.ok_iff.mpr trivial

theorem minOf_ok (xs : List Rat) (ne : xs ≠ []) : ∃ x, minOf xs = .ok x := by
  cases xs with
  | nil => exact absurd rfl ne
  | cons x xs => exact ⟨_, rfl⟩

theorem maxOf_ok (xs : List Rat) (ne : xs ≠ []) : ∃ x, maxOf xs = .ok x := by
  cases xs with
  | nil => exact absurd rfl ne
  | cons x xs => exact ⟨_, rfl⟩

theorem extentOf_raisesUnless {edges : List ContactEdge} (ne : edges ≠ []) :
    RaisesUnless .indexError (∀ edge ∈ edges, HasPoints s edge) (extentOf s edges) := by
  have points := RaisesUnless.mapM fun i (_ : i ∈ edges.flatMap fun edge =>
    [edge.vertices.1, edge.vertices.2]) => index_raisesUnless s.coordinates i
  unfold extentOf
  refine (points.bind (R := fun _ => True) fun found collected => ?_).congr ?_
  · have some : found ≠ [] := by
      rintro rfl
      have none := List.forall₂_nil_right_iff.mp (mapM_eq_ok.mp collected)
      cases edges with
      | nil => exact ne rfl
      | cons edge rest => simp at none
    obtain ⟨xMin, h⟩ := minOf_ok (found.map Coordinate.x) (by simpa using some)
    rw [h]
    obtain ⟨xMax, h⟩ := maxOf_ok (found.map Coordinate.x) (by simpa using some)
    rw [h]
    obtain ⟨yMin, h⟩ := minOf_ok (found.map Coordinate.y) (by simpa using some)
    rw [h]
    obtain ⟨yMax, h⟩ := maxOf_ok (found.map Coordinate.y) (by simpa using some)
    rw [h]
    exact RaisesUnless.of_ok trivial
  · simp only [List.forall_mem_flatMap, List.forall_mem_cons, List.not_mem_nil, false_implies,
      implies_true, and_true, HasPoints]

/-! ## The search for contacts -/

/-- No index of a structure that the search for contacts follows leads beyond its list. -/
structure IndicesInRange (s : Structure Rat) (conductors : List String) : Prop where
  /-- The neighbours of a conductor are elements. -/
  neighbors : ∀ i : Nat, (isConductor s conductors)[i]? = some true → Indexed s.elements i
  /-- A conductor has the vertices of an edge to an element that is none. -/
  vertices : ∀ i : Nat, (isConductor s conductors)[i]? = some true → ∀ element,
    s.elements[i]? = some element → ∀ entry ∈ slotsOf element, 0 ≤ entry.2 →
      (isConductor s conductors)[entry.2.toNat]? = some false → HasEdge element entry.1
  /-- The ends of the edges of a cluster are points. -/
  points : ∀ clusters, conductorClusters s conductors = .ok clusters → ∀ cluster ∈ clusters,
    ∀ edges, contactEdgesOfCluster s cluster conductors = .ok edges → ∀ edge ∈ edges, HasPoints s edge

theorem isConductor_eq_false {j : Nat} : (isConductor s conductors)[j]? = some false ↔
    ∃ other, s.elements[j]? = some other ∧ Solved s conductors other := by
  simp [isConductor, Solved, List.getElem?_map]

theorem candidateOf_raisesUnless {P : Prop}
    (h : RaisesUnless .indexError P (contactEdgesOfCluster s cluster conductors)) :
    RaisesUnless .indexError (P ∧ ∀ edges, contactEdgesOfCluster s cluster conductors = .ok edges →
      ∀ edge ∈ edges, HasPoints s edge) (candidateOf s conductors cluster) := by
  unfold candidateOf
  refine h.bind fun edges found => ?_
  split
  · rename_i none
    exact RaisesUnless.of_ok (by simp [none])
  · rename_i ne
    have given : ∀ edge ∈ edges,
        ∃ material, s.materialOfRegion.get? edge.regionId = some material := by
      intro edge he
      obtain ⟨element, -, touch⟩ := contactEdgesOfCluster_edge found he
      obtain ⟨material, given, -⟩ := touch.material
      exact ⟨material, given⟩
    obtain ⟨materials, touched⟩ := touchedMaterials_ok given
    rw [touched]
    exact ((extentOf_raisesUnless ne).bind (R := fun _ => True) fun extent _ =>
      RaisesUnless.of_ok trivial).congr (by simp)

/-- Of the clusters, that all have the edges of their elements says no more than
`IndicesInRange.vertices`. -/
theorem AreClusters.hasEdges_iff {clusters : List (List Nat)}
    (h : AreClusters s.elements (isConductor s conductors) clusters) :
    (∀ cluster ∈ clusters, ∀ i ∈ cluster, ∀ element, s.elements[i]? = some element →
      HasEdges s conductors cluster element (slotsOf element)) ↔
    ∀ i : Nat, (isConductor s conductors)[i]? = some true → ∀ element,
      s.elements[i]? = some element → ∀ entry ∈ slotsOf element, 0 ≤ entry.2 →
        (isConductor s conductors)[entry.2.toNat]? = some false → HasEdge element entry.1 := by
  constructor
  · intro all i conducting element found entry he pos solved
    obtain ⟨cluster, hc, hi⟩ := h.covered i conducting
    obtain ⟨other, found', solved'⟩ := isConductor_eq_false.mp solved
    refine all cluster hc i hi element found entry he pos ?_ other found' solved'
    intro mem
    rw [(h.each cluster hc).conducting _ mem] at solved
    cases solved
  · intro all cluster hc i hi element found entry he pos _ other found' solved
    exact all i ((h.each cluster hc).conducting i hi) element found entry he pos
      (isConductor_eq_false.mpr ⟨other, found', solved⟩)

theorem detectElectrodes_raisesUnless (s : Structure Rat) (gateModel : GateModel) :
    RaisesUnless .indexError (IndicesInRange s gateModel.conductors)
      (detectElectrodes s gateModel) := by
  unfold detectElectrodes
  generalize gateModel.conductors = conductors
  rcases conductorClusters_spec s conductors with ⟨indexed, clusters, found, are⟩ | ⟨outside, raised⟩
  · rw [found]
    have each : ∀ cluster ∈ clusters, RaisesUnless .indexError
        ((∀ i ∈ cluster, ∀ element, s.elements[i]? = some element →
          HasEdges s conductors cluster element (slotsOf element)) ∧
        ∀ edges, contactEdgesOfCluster s cluster conductors = .ok edges →
          ∀ edge ∈ edges, HasPoints s edge) (candidateOf s conductors cluster) := by
      intro cluster hc
      refine candidateOf_raisesUnless (contactEdgesOfCluster_raisesUnless ?_ ?_)
      · intro i hi
        have conducting := (are.each cluster hc).conducting i hi
        have := (List.getElem?_eq_some_iff.mp conducting).1
        simpa [isConductor] using this
      · exact (are.each cluster hc).indexed
    refine ((RaisesUnless.mapM each).bind (R := fun _ => True) fun candidates _ =>
      RaisesUnless.of_ok trivial).congr ?_
    constructor
    · intro all
      refine ⟨indexed, are.hasEdges_iff.mp fun cluster hc => (all.1 cluster hc).1, ?_⟩
      intro clusters' found' cluster hc
      obtain rfl := Except.ok.inj (found.symm.trans found')
      exact (all.1 cluster hc).2
    · intro inside
      exact ⟨fun cluster hc => ⟨are.hasEdges_iff.mpr inside.vertices cluster hc,
        inside.points clusters found cluster hc⟩, fun _ _ => trivial⟩
  · rw [raised]
    refine Or.inr ⟨fun inside => ?_, rfl⟩
    obtain ⟨i, conducting, out⟩ := outside
    exact out (inside.neighbors i conducting)

/-! ## Screening -/

/-- A file that screening can look through: unless it cannot be read, mentions no metal or is no
structure, its indices are in range. -/
def Screenable (reader : Reader Rat) (file : StructureFile) : Prop :=
  ∀ raw text s, file.bytes = some raw → mentionsMetal raw = true → file.text = some text →
    parseStructure reader text = .ok s → IndicesInRange s GateModel.semiconductor.conductors

theorem analysable_raisesUnless (reader : Reader Rat) (file : StructureFile) :
    RaisesUnless .indexError (Screenable reader file) (analysable reader file) := by
  unfold analysable Screenable
  cases file.bytes with
  | none => exact RaisesUnless.of_ok (by simp)
  | some raw =>
    dsimp only
    by_cases mentions : mentionsMetal raw = true
    · rw [mentions]
      unfold loadStructure
      cases file.text with
      | none => exact RaisesUnless.of_ok (by simp)
      | some text =>
        dsimp only
        cases parsed : parseStructure reader text with
        | error e =>
          refine RaisesUnless.of_ok ?_
          intro raw' text' s' _ _ same parsed'
          obtain rfl := Option.some.inj same
          rw [parsed] at parsed'
          cases parsed'
        | ok s =>
          have search := detectElectrodes_raisesUnless s .semiconductor
          have same : (∀ raw' text' s', some raw = some raw' → mentionsMetal raw' = true →
              some text = some text' → parseStructure reader text' = .ok s' →
              IndicesInRange s' GateModel.semiconductor.conductors) ↔
              IndicesInRange s GateModel.semiconductor.conductors := by
            constructor
            · exact fun h => h raw text s rfl mentions rfl parsed
            · intro h raw' text' s' _ _ same parsed'
              obtain rfl := Option.some.inj same
              obtain rfl := Except.ok.inj (parsed.symm.trans parsed')
              exact h
          rw [same]
          show RaisesUnless _ _ (screened (hasDriveableContact s))
          unfold hasDriveableContact
          rcases search with ⟨inside, electrodes, found⟩ | ⟨outside, raised⟩
          · rw [found]
            exact RaisesUnless.of_ok inside
          · rw [raised]
            exact Or.inr ⟨outside, rfl⟩
    · rw [Bool.not_eq_true] at mentions
      rw [mentions]
      refine RaisesUnless.of_ok ?_
      intro raw' _ _ same mentions'
      obtain rfl := Option.some.inj same
      rw [mentions] at mentions'
      cases mentions'

/-- Of a file that can be read, screening answers yes or no exactly if it is no structure that
mentions metal, or one whose indices are in range. -/
theorem analysable_answers_iff (reader : Reader Rat) (raw : Bytes) :
    (∃ answer, analysable reader (fileOf raw) = .ok answer) ↔
      ∀ s, mentionsMetal raw = true → parseStructure reader (Utf8.readText raw) = .ok s →
        IndicesInRange s GateModel.semiconductor.conductors := by
  rw [(analysable_raisesUnless reader (fileOf raw)).ok_iff]
  constructor
  · intro screenable s mentions parsed
    exact screenable raw _ s rfl mentions rfl parsed
  · intro inside raw' text s same mentions same' parsed
    obtain rfl := Option.some.inj same
    obtain rfl := Option.some.inj same'
    exact inside s mentions parsed

/-- A triangle of aluminum whose first neighbour is the ninth of one element. -/
def looseText : Text :=
  "v SUPREM-IV\nD 2 3 3\nr 1 6\nt 1 1 1 2 3 9 -1024 -1024 0 0\ns 0\n".toList

theorem not_analysable_answers : ¬ ∀ raw : Bytes, ∃ answer,
    analysable plainReader (fileOf raw) = .ok answer := by
  intro all
  obtain ⟨answer, h⟩ := all (Utf8.ascii looseText)
  have raised : analysable plainReader (fileOf (Utf8.ascii looseText)) = .error .indexError := by
    unfold fileOf
    rw [Utf8.readText_ascii (Utf8.ascii_of_all (by decide))]
    decide
  rw [raised] at h
  cases h

end TcadWebapp.Devsim
