import TcadWebapp.Devsim.Proofs.Build
import TcadWebapp.Devsim.Proofs.Mesh
import TcadWebapp.Devsim.Proofs.Screening

/-!
# Where the edges of electrodes come from

An edge of an electrode is one by which a cluster of metal touches a semiconductor or an insulator
(`TouchEdge`), or one of the back side of a semiconductor (`BackEdge`). Of these the mesh keeps
all but the ones of the back side on poly that counts as a conductor (`connected_iff`).
-/

namespace TcadWebapp.Devsim

open StrParser Remesh

variable {py : Python} {s : Structure Rat} {spec : DeviceSpec} {electrodes : List Electrode}
  {gateModel : GateModel} {mesh : DeviceMesh}

/-! ## Metal -/

theorem gateName_ne_body (gates k : Nat) : gateName gates k ≠ "body" := by
  unfold gateName
  split
  · decide
  · intro h
    simpa using congrArg (fun text => text.toList.head?) h

theorem plainName_ne_body (plain k : Nat) : plainName plain k ≠ "body" := by
  unfold plainName
  split
  · split <;> decide
  · intro h
    simpa using congrArg (fun text => text.toList.head?) h

theorem mem_nameFrom {gates plain g p : Nat} {candidates : List Candidate} {electrode : Electrode}
    (h : electrode ∈ nameFrom gates plain candidates g p) :
    electrode.name ≠ "body" ∧ ∃ c ∈ candidates, electrode.edges = c.edges := by
  induction candidates generalizing g p with
  | nil => simp [nameFrom] at h
  | cons c rest ih =>
    have later : ∀ {g p : Nat}, electrode ∈ nameFrom gates plain rest g p →
        electrode.name ≠ "body" ∧ ∃ c' ∈ c :: rest, electrode.edges = c'.edges := by
      intro g p h
      obtain ⟨name, c', hc, same⟩ := ih h
      exact ⟨name, c', List.mem_cons_of_mem _ hc, same⟩
    rw [nameFrom] at h
    split at h
    · rcases List.mem_cons.mp h with rfl | h
      · exact ⟨gateName_ne_body _ _, c, List.mem_cons_self, rfl⟩
      · exact later h
    · rcases List.mem_cons.mp h with rfl | h
      · exact ⟨plainName_ne_body _ _, c, List.mem_cons_self, rfl⟩
      · exact later h

theorem detectElectrodes_edges {found : List Electrode}
    (h : detectElectrodes s gateModel = .ok found) {electrode : Electrode}
    (mem : electrode ∈ found) : electrode.name ≠ "body" ∧ ∀ edge ∈ electrode.edges,
      ∃ element ∈ s.elements, TouchEdge s gateModel.conductors element edge := by
  obtain ⟨clusters, -, h⟩ := bind_eq_ok.mp h
  obtain ⟨candidates, collected, h⟩ := bind_eq_ok.mp h
  obtain rfl := Except.ok.inj h
  obtain ⟨name, c, hc, same⟩ := mem_nameFrom mem
  rw [List.mem_insertionSort, List.mem_filterMap] at hc
  obtain ⟨candidate, hc, e⟩ := hc
  obtain ⟨cluster, -, made⟩ := exists_of_mem_mapM collected hc
  obtain rfl : candidate = some c := e
  obtain ⟨edges, touching, made⟩ := bind_eq_ok.mp made
  split at made
  · cases made
  · obtain ⟨touched, -, made⟩ := bind_eq_ok.mp made
    obtain ⟨extent, -, made⟩ := bind_eq_ok.mp made
    obtain rfl := Option.some.inj (Except.ok.inj made)
    refine ⟨name, fun edge he => ?_⟩
    rw [same] at he
    exact contactEdgesOfCluster_edge touching he

/-! ## The back side -/

/-- An edge of a semiconductor that is on the back side. -/
def BackEdge (s : Structure Rat) (edge : ContactEdge) : Prop :=
  ∃ element ∈ s.elements, ∃ slot vertices, (slot, backside) ∈ slotsOf element ∧
    edgeVertices element slot = .ok vertices ∧ edge = ⟨element.id, element.regionId, vertices⟩ ∧
    ∃ material, s.materialOfRegion.get? element.regionId = some material ∧ material ∈ semiconductors

theorem backsideCandidate_edges {result : Option Electrode}
    (h : backsideCandidate s = .ok result) :
    (∀ edge, (∃ body, result = some body ∧ edge ∈ body.edges) ↔ BackEdge s edge) ∧
      ∀ body, result = some body → body.name = "body" := by
  obtain ⟨edges, collected, h⟩ := bind_eq_ok.mp h
  have mem_edges : ∀ edge, edge ∈ edges.flatten ↔ BackEdge s edge := by
    intro edge
    rw [List.mem_flatten]
    constructor
    · intro mem
      obtain ⟨some, hs, he⟩ := mem
      obtain ⟨element, hel, made⟩ := exists_of_mem_mapM collected hs
      split at made
      · rename_i semiconductor
        obtain ⟨entry, hentry, made⟩ := exists_of_mem_mapM made he
        obtain ⟨vertices, hv, made⟩ := bind_eq_ok.mp made
        obtain rfl := Except.ok.inj made
        rw [List.mem_filter, decide_eq_true_eq] at hentry
        obtain ⟨hentry, code⟩ := hentry
        refine ⟨element, hel, entry.1, vertices, ?_, hv, rfl, exists_of_any semiconductor⟩
        rw [← code]
        exact hentry
      · obtain rfl := Except.ok.inj made
        simp at he
    · intro back
      obtain ⟨element, hel, slot, vertices, hslot, hv, rfl, material, found, semi⟩ := back
      obtain ⟨some, hs, made⟩ := exists_mem_of_mapM collected hel
      have semiconductor : (s.materialOfRegion.get? element.regionId).any (· ∈ semiconductors) = true := by
        rw [found]
        exact decide_eq_true semi
      rw [if_pos semiconductor] at made
      obtain ⟨edge, he, made⟩ := exists_mem_of_mapM made
        (List.mem_filter.mpr ⟨hslot, decide_eq_true rfl⟩)
      rw [hv] at made
      obtain rfl := Except.ok.inj made
      exact ⟨some, hs, he⟩
  split at h
  · rename_i none
    obtain rfl := Except.ok.inj h
    refine ⟨fun edge => ?_, by simp⟩
    rw [← mem_edges, none]
    simp
  · obtain ⟨touched, -, h⟩ := bind_eq_ok.mp h
    obtain ⟨extent, -, h⟩ := bind_eq_ok.mp h
    obtain rfl := Except.ok.inj h
    refine ⟨fun edge => ?_, ?_⟩
    · rw [← mem_edges]
      simp
    · intro body e
      obtain rfl := Option.some.inj e
      rfl

/-- On a structure whose back side could be looked through, a semiconductor with the code of the
back side has an edge there. -/
theorem exists_backEdge {result : Option Electrode} (h : backsideCandidate s = .ok result)
    {element : Element} (mem : element ∈ s.elements) {material : String}
    (found : s.materialOfRegion.get? element.regionId = some material)
    (semi : material ∈ semiconductors) (back : backside ∈ element.neighbors) :
    ∃ edge, BackEdge s edge ∧ edge.regionId = element.regionId := by
  obtain ⟨slot, lt, e⟩ := List.getElem_of_mem back
  have hslot : (slot, backside) ∈ slotsOf element := by
    refine List.mem_iff_getElem.mpr ⟨slot, by simpa [slotsOf] using lt, ?_⟩
    simp [slotsOf, e]
  obtain ⟨edges, collected, -⟩ := bind_eq_ok.mp h
  obtain ⟨some, -, made⟩ := exists_mem_of_mapM collected mem
  have semiconductor : (s.materialOfRegion.get? element.regionId).any (· ∈ semiconductors) = true := by
    rw [found]
    exact decide_eq_true semi
  rw [if_pos semiconductor] at made
  obtain ⟨edge, -, made⟩ := exists_mem_of_mapM made
    (List.mem_filter.mpr ⟨hslot, decide_eq_true rfl⟩)
  obtain ⟨vertices, hv, -⟩ := bind_eq_ok.mp made
  exact ⟨_, ⟨element, mem, slot, vertices, hslot, hv, rfl, material, found, semi⟩, rfl⟩

/-! ## The electrodes of a specification -/

theorem get?_availableOf {detected : List Electrode} {key : String} {electrode : Electrode}
    (h : (availableOf detected).get? key = some electrode) :
    electrode ∈ detected ∧ electrode.name = key := by
  rw [availableOf, Dict.get?_ofList] at h
  obtain ⟨entry, found, rfl⟩ := Option.map_eq_some_iff.mp h
  obtain ⟨electrode, mem, rfl⟩ :=
    List.mem_map.mp (List.mem_reverse.mp (List.mem_of_find?_eq_some found))
  exact ⟨mem, by simpa using List.find?_some found⟩

/-- An electrode of a specification has some edges, all of them of its interfaces. -/
structure Resolved (s : Structure Rat) (gateModel : GateModel) (choice : ElectrodeChoice)
    (electrode : Electrode) : Prop where
  name : electrode.name = choice.label
  some : electrode.edges ≠ []
  edges : ∀ edge ∈ electrode.edges,
    (∃ element ∈ s.elements, TouchEdge s gateModel.conductors element edge) ∨
      "body" ∈ choice.interfaces ∧ BackEdge s edge
  body : "body" ∈ choice.interfaces → ∀ edge, BackEdge s edge → edge ∈ electrode.edges

theorem resolveElectrodes_spec (h : resolveElectrodes py s spec = .ok electrodes) :
    (∃ body, backsideCandidate s = .ok body) ∧
      List.Forall₂ (Resolved s spec.gateModel) spec.electrodes electrodes := by
  obtain ⟨detected, hdetected, h⟩ := bind_eq_ok.mp h
  obtain ⟨found, hfound, hdetected⟩ := bind_eq_ok.mp hdetected
  obtain ⟨body, hbody, hdetected⟩ := bind_eq_ok.mp hdetected
  obtain rfl := Except.ok.inj hdetected
  obtain ⟨back, bodyName⟩ := backsideCandidate_edges hbody
  dsimp only at h
  split at h
  · cases h
  · refine ⟨⟨body, hbody⟩, (mapM_eq_ok.mp h).imp fun choice electrode made => ?_⟩
    obtain ⟨interfaces, looked, made⟩ := bind_eq_ok.mp made
    dsimp only at made
    split at made
    · cases made
    · rename_i some
      obtain ⟨extent, -, made⟩ := bind_eq_ok.mp made
      obtain rfl := Except.ok.inj made
      have available : ∀ {key : String} {interface : Electrode},
          findInterface py (availableOf (found ++ body.toList)) key = .ok interface →
          (availableOf (found ++ body.toList)).get? key = Option.some interface := by
        intro key interface h
        unfold findInterface at h
        split at h
        · rename_i there
          rw [there, Except.ok.inj h]
        · cases h
      refine ⟨rfl, some, ?_, ?_⟩
      · intro edge he
        obtain ⟨interface, hi, he⟩ := List.mem_flatMap.mp he
        obtain ⟨key, hk, taken⟩ := exists_of_mem_mapM looked hi
        obtain ⟨mem, name⟩ := get?_availableOf (available taken)
        rcases List.mem_append.mp mem with mem | mem
        · exact Or.inl ((detectElectrodes_edges hfound mem).2 edge he)
        · have e : body = Option.some interface := by simpa using mem
          rw [bodyName interface e] at name
          exact Or.inr ⟨name ▸ hk, (back edge).mp ⟨interface, e, he⟩⟩
      · intro hk edge hback
        obtain ⟨electrode, e, he⟩ := (back edge).mpr hback
        obtain ⟨interface, hi, taken⟩ := exists_mem_of_mapM looked hk
        obtain ⟨mem, name⟩ := get?_availableOf (available taken)
        refine List.mem_flatMap.mpr ⟨interface, hi, ?_⟩
        rcases List.mem_append.mp mem with mem | mem
        · exact absurd name (detectElectrodes_edges hfound mem).1
        · have e' : body = Option.some interface := by simpa using mem
          obtain rfl := Option.some.inj (e.symm.trans e')
          exact he

/-! ## Which edges are kept -/

/-- Poly that counts as a conductor has no edge on the back side if an electrode has that. -/
def DeviceSpec.BodyOffPoly (spec : DeviceSpec) (s : Structure Rat) : Prop :=
  spec.gateModel = .conductor → (∃ choice ∈ spec.electrodes, "body" ∈ choice.interfaces) →
    ∀ element ∈ s.elements, s.materialOfRegion.get? element.regionId = some "poly" →
      backside ∉ element.neighbors

instance (s : Structure Rat) : Decidable (spec.BodyOffPoly s) :=
  inferInstanceAs (Decidable (_ → _ → _))

theorem mem_conductors {material : String} (semi : material ∈ semiconductors) :
    material ∈ gateModel.conductors ↔ gateModel = .conductor ∧ material = "poly" := by
  simp only [semiconductors, List.mem_cons, List.not_mem_nil, or_false] at semi
  rcases semi with rfl | rfl | rfl <;> cases gateModel <;> decide

/-- The mesh keeps the regions of all edges of the electrodes. -/
theorem kept_iff (resolved : resolveElectrodes py s spec = .ok electrodes)
    {regions : List RegionSpec} (selected : selectRegions s electrodes spec.gateModel = .ok regions) :
    (∀ electrode ∈ electrodes, ∀ edge ∈ electrode.edges, edge.regionId ∈ (byRegion regions).keys) ↔
      spec.BodyOffPoly s := by
  obtain ⟨⟨body, hbody⟩, pairs⟩ := resolveElectrodes_spec resolved
  obtain ⟨segments, hsegments⟩ : ∃ segments, constrainedSegments s = .ok segments := by
    obtain ⟨segments, h, -⟩ := bind_eq_ok.mp selected
    exact ⟨segments, h⟩
  have kept : ∀ {id : Int} {material : String}, s.materialOfRegion.get? id = some material →
      Kept s electrodes spec.gateModel segments id → id ∈ (byRegion regions).keys := by
    intro id material found kept
    exact mem_keys_byRegion.mpr ⟨⟨regionName id material, id, material, _⟩,
      (mem_selectRegions hsegments selected).mpr ⟨material, found, kept, rfl⟩, rfl⟩
  constructor
  · intro all model bodied element mem poly back
    obtain ⟨choice, hc, bodied⟩ := bodied
    obtain ⟨edge, hedge, region⟩ := exists_backEdge hbody mem poly (by decide) back
    obtain ⟨electrode, he, resolved⟩ := exists_of_mem_left pairs hc
    have there := all electrode he edge (resolved.body bodied edge hedge)
    obtain ⟨spec', hr, id⟩ := mem_keys_byRegion.mp there
    obtain ⟨material, -, kept, -⟩ := (mem_selectRegions hsegments selected).mp hr
    obtain ⟨material, found, free⟩ := kept.material
    rw [id, region, poly] at found
    obtain rfl := Option.some.inj found
    exact free ((mem_conductors (by decide)).mpr ⟨model, rfl⟩)
  · intro off electrode he edge hedge
    obtain ⟨choice, hc, resolved⟩ := exists_of_mem_right pairs he
    rcases resolved.edges edge hedge with ⟨element, -, touch⟩ | ⟨bodied, back⟩
    · obtain ⟨material, found, free, solved⟩ := touch.material
      refine kept found ?_
      rcases solved with semi | insul
      · exact Or.inl (mem_regionsOf.mpr ⟨material, found, semi, free⟩)
      · refine Or.inr (Or.inr ⟨?_, mem_regionsOf.mpr ⟨material, found, insul, free⟩⟩)
        exact List.mem_flatMap.mpr ⟨electrode, he, List.mem_map_of_mem hedge⟩
    · obtain ⟨element, mem, slot, vertices, hslot, -, rfl, material, found, semi⟩ := back
      refine kept found (Or.inl (mem_regionsOf.mpr ⟨material, found, semi, ?_⟩))
      intro conducting
      obtain ⟨model, rfl⟩ := (mem_conductors semi).mp conducting
      exact off model ⟨choice, hc, bodied⟩ element mem found (mem_neighbors_of_slot hslot)

/-! ## What is connected -/

/-- An element is the edge of an electrode: under a contact of the electrode on the region of the
edge, between the points of its ends. -/
structure IsContactEdge (mesh : DeviceMesh) (pair : Electrode × ContactEdge) (record : Record) :
    Prop where
  kind : record.kind = edgeCode
  contact : ∃ contact ∈ mesh.contacts, contact.electrode = pair.1.name ∧
    mesh.nameOf record = some contact.name ∧
    ∃ region ∈ mesh.regions, region.regionId = pair.2.regionId ∧ region.name = contact.region
  nodes : ∃ a b, mesh.pointMap.get? pair.2.vertices.1 = some a ∧
    mesh.pointMap.get? pair.2.vertices.2 = some b ∧ record.nodes = [(a : Int), (b : Int)]

/-- The contact edges of a mesh: what comes after one triangle for each element kept and one edge
for each segment between regions kept. -/
def contactElements (s : Structure Rat) (mesh : DeviceMesh) : Except Exn (List Record) := do
  let records ← iterElements mesh.elements
  let segments ← constrainedSegments s
  .ok (records.drop ((keptElements s mesh.regions).length +
    (segments.filter (between (byRegion mesh.regions))).length))

/-- Every electrode is connected. -/
structure Connected (py : Python) (s : Structure Rat) (spec : DeviceSpec)
    (electrodes : List Electrode) (mesh : DeviceMesh) : Prop where
  /-- One contact edge for each edge of an electrode, and for each electrode a contact with an
  edge. -/
  edges : ∃ records, contactElements s mesh = .ok records ∧
    List.Forall₂ (IsContactEdge mesh) (edgePairs electrodes) records ∧
    ∀ choice ∈ spec.electrodes, ∃ contact ∈ mesh.contacts, contact.electrode = choice.label ∧
      ∃ record ∈ records, record.kind = edgeCode ∧ mesh.nameOf record = some contact.name
  /-- The solver has contacts to set for every bias that the plan sets. -/
  driven : ∀ payload, buildPayload py s spec [] = .ok payload → ∀ bias ∈ spec.biases,
    bias.role ≠ .float → ∃ contacts, (Solver.init payload).groups.get? bias.name = some contacts ∧
      contacts ≠ []

/-- No bias that is set has the name of one that floats. -/
def DeviceSpec.FloatsApart (spec : DeviceSpec) : Prop :=
  ∀ bias ∈ spec.biases, bias.role ≠ .float → bias.name ∉ spec.floatingBiases.map Bias.name

theorem contactElements_eq {segments : List Segment} {triangles interfaces contacts : List Drawn}
    (h : Drawing s electrodes mesh segments triangles interfaces contacts) :
    contactElements s mesh = .ok (contacts.map (Drawn.record mesh.physicalNames)) := by
  unfold contactElements
  rw [h.decoded, h.found]
  show Except.ok _ = Except.ok _
  rw [h.drawnTriangles.length_eq, h.drawnInterfaces.length_eq, ← List.length_append,
    ← List.map_drop, List.drop_left]

theorem planOf_ok (consistent : spec.Consistent) : ∃ plan, planOf spec = .ok plan := by
  obtain ⟨sweep, -, -, found, -⟩ := consistent.sweepBias_eq
  have constants : spec.constBiases.mapM constantOf =
      .ok (spec.constBiases.map fun bias => (bias.name, bias.value.getD 0)) :=
    (mapM_ok_iff fun bias mem => constantOf_eq mem).mpr rfl
  unfold planOf
  split
  · rename_i none
    rw [found] at none
    cases none
  · rw [constants]
    exact ⟨_, rfl⟩

theorem mem_edgePairs {electrode : Electrode} {edge : ContactEdge} :
    (electrode, edge) ∈ edgePairs electrodes ↔ electrode ∈ electrodes ∧ edge ∈ electrode.edges := by
  unfold edgePairs
  rw [List.mem_flatMap]
  constructor
  · intro h
    obtain ⟨electrode', he, h⟩ := h
    obtain ⟨edge', hedge, same⟩ := List.mem_map.mp h
    rw [Prod.mk.injEq] at same
    exact ⟨same.1 ▸ he, same.1 ▸ same.2 ▸ hedge⟩
  · exact fun h => ⟨electrode, h.1, List.mem_map.mpr ⟨edge, h.2, rfl⟩⟩

section Connected

variable (accepted : spec.Accepted py) (resolved : resolveElectrodes py s spec = .ok electrodes)
  (meshed : buildDeviceMesh s electrodes spec.gateModel = .ok mesh)

include resolved meshed

theorem payload_of_ok {payload : Payload} (h : buildPayload py s spec [] = .ok payload) :
    Plans spec payload.plan ∧
      mesh.contacts.mapM (contactOf (biasOfElectrode spec)) = .ok payload.contacts := by
  unfold buildPayload at h
  rw [if_pos rfl, resolved] at h
  obtain ⟨_, same, h⟩ := bind_eq_ok.mp h
  obtain rfl := Except.ok.inj same
  obtain ⟨mesh', meshed', h⟩ := bind_eq_ok.mp h
  obtain rfl := Except.ok.inj (meshed.symm.trans meshed')
  obtain ⟨plan, planned, h⟩ := bind_eq_ok.mp h
  obtain ⟨contacts, driven, h⟩ := bind_eq_ok.mp h
  obtain rfl := Except.ok.inj h
  exact ⟨plans_of_ok planned, driven⟩

/-- Each contact is one of an electrode of the specification. -/
theorem exists_choice {contact : ContactSpec} (mem : contact ∈ mesh.contacts) :
    ∃ choice ∈ spec.electrodes, contact.electrode = choice.label := by
  rw [(mesh_spec meshed).2.2] at mem
  obtain ⟨electrode, he, mem⟩ := List.mem_flatMap.mp mem
  obtain ⟨id, -, region, -, rfl⟩ := mem_contactsOf.mp mem
  obtain ⟨choice, hc, made⟩ := exists_of_mem_right (resolveElectrodes_spec resolved).2 he
  exact ⟨choice, hc, made.name⟩

/-- An edge on a dropped region has no contact edge. -/
theorem bodyOffPoly_of_connected (connected : Connected py s spec electrodes mesh) :
    spec.BodyOffPoly s := by
  obtain ⟨records, -, each, -⟩ := connected.edges
  refine (kept_iff resolved (mesh_spec meshed).1).mp fun electrode he edge hedge => ?_
  obtain ⟨record, -, shows⟩ := exists_of_mem_left each (mem_edgePairs.mpr ⟨he, hedge⟩)
  obtain ⟨contact, -, -, -, region, hr, id, -⟩ := shows.contact
  exact mem_keys_byRegion.mpr ⟨region, hr, id⟩

include accepted

theorem exists_payload : ∃ payload, buildPayload py s spec [] = .ok payload := by
  have consistent := accepted.isConsistent
  obtain ⟨plan, planned⟩ := planOf_ok consistent
  have each : ∀ contact ∈ mesh.contacts,
      RaisesUnless Exn.keyError True (contactOf (biasOfElectrode spec) contact) := by
    intro contact mem
    obtain ⟨choice, hc, label⟩ := exists_choice resolved meshed mem
    obtain ⟨bias, hb, e⟩ := consistent.attached choice hc
    have key : contact.electrode ∈
        (spec.biases.map fun bias => (bias.electrode, bias.name)).map Prod.fst :=
      List.mem_map.mpr ⟨_, List.mem_map_of_mem hb, e.trans label.symm⟩
    obtain ⟨name, -, found⟩ := Dict.get?_update_of_mem ∅ key
    have looked : lookup (biasOfElectrode spec) contact.electrode = .ok name :=
      lookup_eq_ok.mpr found
    unfold contactOf
    rw [looked]
    exact RaisesUnless.of_ok trivial
  obtain ⟨contacts, driven⟩ := (RaisesUnless.mapM each).ok_iff.mpr fun _ _ => trivial
  unfold buildPayload
  rw [if_pos rfl, resolved]
  refine ⟨_, bind_eq_ok.mpr ⟨electrodes, rfl, bind_eq_ok.mpr ⟨mesh, meshed,
    bind_eq_ok.mpr ⟨plan, planned, bind_eq_ok.mpr ⟨contacts, driven, rfl⟩⟩⟩⟩⟩

/-- A bias that is set has a group of contacts if its electrode has a contact and its name is not
that of a bias that floats; without the latter it has none. -/
theorem groups_iff {payload : Payload} (built : buildPayload py s spec [] = .ok payload)
    {bias : Bias} (hb : bias ∈ spec.biases)
    (owned : ∃ contact ∈ mesh.contacts, contact.electrode = bias.electrode) :
    (∃ contacts, (Solver.init payload).groups.get? bias.name = some contacts ∧ contacts ≠ []) ↔
      bias.name ∉ spec.floatingBiases.map Bias.name := by
  obtain ⟨plans, named⟩ := payload_of_ok resolved meshed built
  rw [show (Solver.init payload).groups = contactBiasNames payload from rfl,
    Solver.get?_contactBiasNames, plans.floating]
  dsimp only
  constructor
  · intro h
    obtain ⟨contacts, found, -⟩ := h
    split at found
    · cases found
    · rename_i some
      obtain ⟨entry, mem⟩ := List.exists_mem_of_ne_nil _ some
      have driven := (List.mem_filter.mp mem).2
      rw [decide_eq_true_eq] at driven
      rw [← driven.1]
      exact driven.2
  · intro apart
    obtain ⟨contact, hc, e⟩ := owned
    obtain ⟨entry, mem, made⟩ := exists_mem_of_mapM named hc
    obtain ⟨-, -, -, bias', hb', e', name⟩ := contactOf_spec made
    rw [accepted.isConsistent.bias_inj hb' hb (e'.trans e)] at name
    have there : entry ∈ payload.contacts.filter (fun contact => contact.bias = bias.name ∧
        contact.bias ∉ spec.floatingBiases.map Bias.name) := by
      rw [List.mem_filter, decide_eq_true_eq, name]
      exact ⟨mem, rfl, apart⟩
    rw [if_neg (List.ne_nil_of_mem there)]
    exact ⟨_, rfl, List.ne_nil_of_mem (List.mem_map_of_mem there)⟩

/-- Every electrode is connected exactly if none has the back side of poly that counts as a
conductor, and no bias that is set has the name of one that floats. -/
theorem connected_iff : Connected py s spec electrodes mesh ↔
    spec.BodyOffPoly s ∧ spec.FloatsApart := by
  obtain ⟨-, pairs⟩ := resolveElectrodes_spec resolved
  obtain ⟨segments, triangles, interfaces, contacts, drawing⟩ := drawing_of_ok meshed
  constructor
  · intro connected
    obtain ⟨records, -, -, owned⟩ := connected.edges
    refine ⟨bodyOffPoly_of_connected resolved meshed connected, fun bias hb role => ?_⟩
    obtain ⟨payload, built⟩ := exists_payload accepted resolved meshed
    obtain ⟨choice, hc, label⟩ := List.mem_map.mp (accepted.isConsistent.known bias hb)
    obtain ⟨contact, hcontact, e, -⟩ := owned choice hc
    exact (groups_iff accepted resolved meshed built hb ⟨contact, hcontact, e.trans label⟩).mp
      (connected.driven payload built bias hb role)
  · intro h
    obtain ⟨off, apart⟩ := h
    -- nothing is skipped in the pass over the contacts
    have all : (edgePairs electrodes).filter
        (fun pair => pair.2.regionId ∈ (byRegion mesh.regions).keys) = edgePairs electrodes := by
      refine List.filter_eq_self.mpr fun pair hp => ?_
      obtain ⟨he, hedge⟩ := mem_edgePairs.mp hp
      exact decide_eq_true ((kept_iff resolved (mesh_spec meshed).1).mpr off pair.1 he pair.2 hedge)
    have shown : List.Forall₂ (IsContactEdge mesh) (edgePairs electrodes)
        (contacts.map (Drawn.record mesh.physicalNames)) := by
      rw [List.forall₂_map_right_iff]
      have drawn := drawing.drawnContacts
      rw [all] at drawn
      refine forall₂_imp_of_mem drawn fun pair d mem shows => ?_
      obtain ⟨region, name, a, b, found, hname, ha, hb, rfl⟩ := shows
      obtain ⟨contact, hc, electrode, regionName, rfl⟩ := get?_contactOfEdge hname
      refine ⟨rfl, ⟨contact, hc, electrode, ?_, region, ?_⟩, a, b, ha, hb, rfl⟩
      · exact drawing.nameOf (List.mem_append_right _ mem)
      · obtain ⟨hr, id⟩ := (get?_byRegion (nodup_selectRegions (mesh_spec meshed).1)).mp found
        exact ⟨hr, id, regionName.symm⟩
    have owned : ∀ choice ∈ spec.electrodes, ∃ contact ∈ mesh.contacts,
        contact.electrode = choice.label ∧ ∃ record ∈ contacts.map (Drawn.record mesh.physicalNames),
          record.kind = edgeCode ∧ mesh.nameOf record = some contact.name := by
      intro choice hc
      obtain ⟨electrode, he, made⟩ := exists_of_mem_left pairs hc
      obtain ⟨edge, hedge⟩ := List.exists_mem_of_ne_nil _ made.some
      obtain ⟨record, hr, shows⟩ :=
        exists_of_mem_left shown (mem_edgePairs.mpr ⟨he, hedge⟩)
      obtain ⟨contact, hcontact, e, name, -⟩ := shows.contact
      exact ⟨contact, hcontact, e.trans made.name, record, hr, shows.kind, name⟩
    refine ⟨⟨_, contactElements_eq drawing, shown, owned⟩, fun payload built bias hb role => ?_⟩
    obtain ⟨choice, hc, label⟩ := List.mem_map.mp (accepted.isConsistent.known bias hb)
    obtain ⟨contact, hcontact, e, -⟩ := owned choice hc
    exact (groups_iff accepted resolved meshed built hb ⟨contact, hcontact, e.trans label⟩).mpr
      (apart bias hb role)

end Connected

theorem connected_iff_steppedBody : ∃ electrodes mesh,
    buildDeviceMesh chip electrodes .semiconductor = .ok mesh ∧
      (Connected plain chip (steppedBody "Vs" "Vb") electrodes mesh ↔
        (steppedBody "Vs" "Vb").BodyOffPoly chip ∧ (steppedBody "Vs" "Vb").FloatsApart) := by
  obtain ⟨mesh, h⟩ : ∃ mesh, (do
      let electrodes ← resolveElectrodes plain chip (steppedBody "Vs" "Vb")
      buildDeviceMesh chip electrodes .semiconductor) = .ok mesh := exists_ok (by decide +kernel)
  obtain ⟨electrodes, resolved, meshed⟩ := bind_eq_ok.mp h
  exact ⟨electrodes, mesh, meshed, connected_iff (by decide) resolved meshed⟩

/-- The chip on poly, that has the back side. -/
def chipOnPoly : Structure Rat :=
  { chip with
    coordinates := chip.coordinates ++ [⟨6, 1, 2⟩]
    regions := chip.regions ++ [⟨3, 4, "poly"⟩]
    elements := [⟨1, 1, [0, 1, 2], [1, 2, 3], [0, 0]⟩, ⟨2, 2, [2, 1, 3], [-1022, -1022, 0], [0, 0]⟩,
      ⟨3, 2, [0, 2, 4], [-1022, -1022, 0], [0, 0]⟩, ⟨4, 3, [1, 0, 5], [-1023, -1023, 0], [0, 0]⟩] }

/-- The poly, and with it the body, counts as a conductor. -/
def polyBody : DeviceSpec :=
  { steppedBody "Vs" "Vb" with
    electrodes := [⟨"source", ["contact1"]⟩, ⟨"drain", ["contact3"]⟩, ⟨"body", ["body"]⟩]
    gateModel := .conductor }

theorem not_connected_polyBody : ¬ ∀ (py : Python) (s : Structure Rat) (spec : DeviceSpec)
    (electrodes : List Electrode) (mesh : DeviceMesh), spec.Accepted py →
      resolveElectrodes py s spec = .ok electrodes →
      buildDeviceMesh s electrodes spec.gateModel = .ok mesh →
        Connected py s spec electrodes mesh := by
  intro all
  obtain ⟨mesh, h⟩ : ∃ mesh, (do
      let electrodes ← resolveElectrodes plain chipOnPoly polyBody
      buildDeviceMesh chipOnPoly electrodes .conductor) = .ok mesh := exists_ok (by decide +kernel)
  obtain ⟨electrodes, resolved, meshed⟩ := bind_eq_ok.mp h
  have connected := all plain chipOnPoly polyBody electrodes mesh (by decide) resolved meshed
  exact absurd (bodyOffPoly_of_connected resolved meshed connected) (by decide)

end TcadWebapp.Devsim
