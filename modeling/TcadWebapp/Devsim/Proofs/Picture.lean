import Mathlib.Data.Set.Function
import Mathlib.Tactic.Ring
import TcadWebapp.Devsim.Proofs.Contacts

/-!
# The mesh is a picture of the structure

On a conforming mesh, with names that are pairwise different: the elements that `iter_elements`
reads are the triangles of the regions kept, one edge for each segment between two of them, and
contact edges, each an edge of a triangle of its contact's region (`mesh_pictured`).
-/

namespace TcadWebapp.Devsim

open StrParser Remesh

variable {py : Python} {s : Structure Rat} {spec : DeviceSpec} {electrodes : List Electrode}
  {gateModel : GateModel} {mesh : DeviceMesh} {segments : List Segment}
  {triangles interfaces contacts : List Drawn}

/-! ## Conforming structures -/

/-- Two edges, as they were looked up, have the same ends. -/
def sameEdge : Except Exn (Int × Int) → Except Exn (Int × Int) → Bool
  | .ok (a, b), .ok (c, d) => (a = c ∧ b = d) ∨ (a = d ∧ b = c)
  | _, _ => false

/-- The elements are triangles, and a neighbour at a slot has the element as a neighbour at the
slot opposite to the same edge. -/
structure Conforming (s : Structure Rat) : Prop where
  three : ∀ element ∈ s.elements, element.vertices.length = 3 ∧ element.neighbors.length = 3
  symmetric : ∀ entry ∈ s.elements.zipIdx, ∀ slot ∈ slotsOf entry.1, 0 ≤ slot.2 →
    ∃ other ∈ s.elements[slot.2.toNat]?, ∃ slot' ∈ slotsOf other, slot'.2 = entry.2 ∧
      sameEdge (edgeVertices entry.1 slot.1) (edgeVertices other slot'.1) = true

instance (s : Structure Rat) : Decidable (Conforming s) :=
  decidable_of_iff ((∀ element ∈ s.elements,
      element.vertices.length = 3 ∧ element.neighbors.length = 3) ∧
      ∀ entry ∈ s.elements.zipIdx, ∀ slot ∈ slotsOf entry.1, 0 ≤ slot.2 →
        ∃ other ∈ s.elements[slot.2.toNat]?, ∃ slot' ∈ slotsOf other, slot'.2 = entry.2 ∧
          sameEdge (edgeVertices entry.1 slot.1) (edgeVertices other slot'.1) = true)
    ⟨fun h => ⟨h.1, h.2⟩, fun h => ⟨h.three, h.symmetric⟩⟩

/-- An edge between these two vertices, either way round, of an element of a region. -/
def IsEdgeOf (s : Structure Rat) (region : Int) (v w : Int) : Prop :=
  ∃ element ∈ s.elements, element.regionId = region ∧ ∃ slot < 3,
    sameEdge (edgeVertices element slot) (.ok (v, w)) = true

theorem slot_lt_three (conforming : Conforming s) {element : Element} (mem : element ∈ s.elements)
    {entry : Nat × Int} (h : entry ∈ slotsOf element) : entry.1 < 3 := by
  have := List.mem_range.mp (List.of_mem_zip h).1
  rwa [(conforming.three element mem).2] at this

/-- An edge of metal is an edge of the element that it touches. -/
theorem TouchEdge.isEdgeOf (conforming : Conforming s) {conductors : List String}
    {element : Element} (mem : element ∈ s.elements) {edge : ContactEdge}
    (h : TouchEdge s conductors element edge) :
    IsEdgeOf s edge.regionId edge.vertices.1 edge.vertices.2 := by
  obtain ⟨slot, neighbor, other, a, b, hslot, pos, found, vertices, rfl⟩ := h.touches
  obtain ⟨i, hi⟩ := List.mem_iff_getElem?.mp mem
  have hentry : (element, i) ∈ s.elements.zipIdx := List.mem_zipIdx_iff_getElem?.mpr hi
  obtain ⟨other', found', slot', hslot', -, same⟩ :=
    conforming.symmetric (element, i) hentry (slot, neighbor) hslot pos
  obtain rfl := Option.some.inj (found.symm.trans found')
  have there := List.mem_of_getElem? found
  refine ⟨other, there, rfl, slot'.1, slot_lt_three conforming there hslot', ?_⟩
  rw [vertices] at same
  cases other_eq : edgeVertices other slot'.1 with
  | error e => simp [other_eq, sameEdge] at same
  | ok pair =>
    simp only [other_eq, sameEdge, decide_eq_true_eq] at same ⊢
    omega

theorem BackEdge.isEdgeOf (conforming : Conforming s) {edge : ContactEdge} (h : BackEdge s edge) :
    IsEdgeOf s edge.regionId edge.vertices.1 edge.vertices.2 := by
  obtain ⟨element, mem, slot, vertices, hslot, found, rfl, -⟩ := h
  refine ⟨element, mem, rfl, slot, slot_lt_three conforming mem hslot, ?_⟩
  simp [found, sameEdge]

theorem isEdgeOf_of_resolved (conforming : Conforming s)
    (resolved : resolveElectrodes py s spec = .ok electrodes) {electrode : Electrode}
    (mem : electrode ∈ electrodes) {edge : ContactEdge} (he : edge ∈ electrode.edges) :
    IsEdgeOf s edge.regionId edge.vertices.1 edge.vertices.2 := by
  obtain ⟨choice, -, made⟩ := exists_of_mem_right (resolveElectrodes_spec resolved).2 mem
  rcases made.edges edge he with ⟨element, there, touch⟩ | ⟨-, back⟩
  · exact touch.isEdgeOf conforming there
  · exact back.isEdgeOf conforming

/-! ## Segments -/

/-- The ends of a segment, the lower first. -/
def ends (segment : Segment) : Int × Int := (min segment.a segment.b, max segment.a segment.b)

theorem segmentsOf_ends {element : Element} {slots : List Nat} {seen seen' : Dict (Int × Int) Segment}
    (inv : ∀ key segment, seen.get? key = some segment → ends segment = key)
    (h : segmentsOf s element slots seen = .ok seen') :
    ∀ key segment, seen'.get? key = some segment → ends segment = key := by
  induction slots generalizing seen with
  | nil =>
    obtain rfl := Except.ok.inj h
    exact inv
  | cons slot slots ih =>
    have set : ∀ new : Segment, ∀ key segment, (seen.set (ends new) new).get? key = some segment →
        ends segment = key := by
      intro new key segment found
      rw [Dict.get?_set] at found
      split at found
      · rename_i same
        obtain rfl := Option.some.inj found
        exact same.symm
      · exact inv key segment found
    rw [segmentsOf] at h
    obtain ⟨a, -, h⟩ := bind_eq_ok.mp h
    obtain ⟨b, -, h⟩ := bind_eq_ok.mp h
    dsimp only at h
    split at h
    · exact ih inv h
    · obtain ⟨code, -, h⟩ := bind_eq_ok.mp h
      split at h
      · exact ih (set ⟨a, b, element.regionId, none, code⟩) h
      · split at h
        · exact ih inv h
        · rename_i other _
          split at h
          · exact ih inv h
          · exact ih (set ⟨a, b, element.regionId, some other.regionId, 0⟩) h

/-- No two segments have the same ends. -/
theorem nodup_ends (h : constrainedSegments s = .ok segments) :
    (segments.map ends).Nodup := by
  unfold constrainedSegments at h
  split at h
  · cases h
  · obtain ⟨seen, looped, h⟩ := bind_eq_ok.mp h
    obtain rfl := Except.ok.inj h
    have inv : ∀ key segment, seen.get? key = some segment → ends segment = key :=
      foldlM_keeps (fun _ _ _ inv h => segmentsOf_ends inv h) (by simp) looped
    have keys : (seen.entries.map Prod.snd).map ends = seen.entries.map Prod.fst := by
      rw [List.map_map]
      refine List.map_congr_left fun entry mem => ?_
      exact inv entry.1 entry.2 (Dict.get?_eq_some.mpr mem)
    rw [keys]
    exact seen.nodup

/-! ## The picture -/

/-- The points of a mesh: three coordinates each. -/
def DeviceMesh.pointCount (mesh : DeviceMesh) : Nat := mesh.coordinates.length / 3

/-- The record is between these two points. -/
def Record.joins (record : Record) (a b : Nat) : Bool :=
  record.nodes = [(a : Int), (b : Int)] ∨ record.nodes = [(b : Int), (a : Int)]

/-- The record is the triangle of an element, under the name of its region. -/
structure IsTriangle (mesh : DeviceMesh) (element : Element) (record : Record) : Prop where
  kind : record.kind = triangleCode
  region : ∃ region ∈ mesh.regions, region.regionId = element.regionId ∧
    mesh.nameOf record = some region.name
  /-- Its nodes are those of the vertices, in their order or with two of them exchanged, and the
  area is not negative. -/
  nodes : ∃ a b c i j k : Nat,
    List.Forall₂ (fun v i => mesh.pointMap.get? v = some i) element.vertices [a, b, c] ∧
    ([i, j, k] = [a, b, c] ∨ [i, j, k] = [a, c, b]) ∧
    record.nodes = [(i : Int), (j : Int), (k : Int)] ∧ 0 ≤ area mesh.coordinates i j k

/-- The mesh with these elements is a picture of the structure with these segments. -/
structure Pictured (s : Structure Rat) (segments : List Segment) (mesh : DeviceMesh)
    (records : List Record) : Prop where
  /-- The flat array is the records one after the other, and is read as such. -/
  flat : mesh.elements = records.flatMap fun record => record.kind :: record.physical :: record.nodes
  decoded : iterElements mesh.elements = .ok records
  kinds : ∀ record ∈ records, record.kind = triangleCode ∨ record.kind = edgeCode
  nodes : ∀ record ∈ records, ∀ node ∈ record.nodes, 0 ≤ node ∧ node < mesh.pointCount
  physical : ∀ record ∈ records,
    0 ≤ record.physical ∧ record.physical < mesh.physicalNames.length
  /-- The vertices of the triangles kept are the points of the mesh, one to one. -/
  points : Set.BijOn (fun v => (mesh.pointMap.get? v).getD 0)
    {v | ∃ element ∈ keptElements s mesh.regions, v ∈ element.vertices} (Set.Iio mesh.pointCount)
  coordinates : ∀ v i, mesh.pointMap.get? v = some i → ∃ point, index s.coordinates v = .ok point ∧
    mesh.coordinates[3 * i]? = some (point.x * umToCm) ∧
    mesh.coordinates[3 * i + 1]? = some (-point.y * umToCm) ∧ mesh.coordinates[3 * i + 2]? = some 0
  /-- One triangle for each element of a region kept. -/
  triangles : List.Forall₂ (IsTriangle mesh) (keptElements s mesh.regions)
    (records.filter fun record => record.kind = triangleCode)
  /-- A segment between regions kept is one edge, under the name of the interface of the two. -/
  interfaces : ∀ segment ∈ segments, ∀ pair, sides segment = some pair →
    ∀ region0 ∈ mesh.regions, region0.regionId = pair.1 →
      ∀ region1 ∈ mesh.regions, region1.regionId = pair.2 →
        ∃ interface ∈ mesh.interfaces, interface.region0 = region0.name ∧
          interface.region1 = region1.name ∧ ∃ a b, mesh.pointMap.get? segment.a = some a ∧
            mesh.pointMap.get? segment.b = some b ∧ records.countP (fun record =>
              record.kind = edgeCode ∧ mesh.nameOf record = some interface.name ∧
                record.joins a b) = 1
  /-- A contact edge is an edge of a triangle of its contact's region. -/
  contacts : ∀ record ∈ records, record.kind = edgeCode → ∀ contact ∈ mesh.contacts,
    mesh.nameOf record = some contact.name → ∃ region ∈ mesh.regions, region.name = contact.region ∧
      ∃ v w a b, IsEdgeOf s region.regionId v w ∧ mesh.pointMap.get? v = some a ∧
        mesh.pointMap.get? w = some b ∧ record.joins a b = true

theorem area_swap (coordinates : List Rat) (a b c : Nat) :
    area coordinates a c b = -area coordinates a b c := by
  unfold area
  ring

theorem countP_of_forall₂ {α β : Type*} {R : α → β → Prop} {l : List α} {r : List β}
    (h : List.Forall₂ R l r) {p : α → Bool} {q : β → Bool}
    (same : ∀ a ∈ l, ∀ b ∈ r, R a b → p a = q b) : l.countP p = r.countP q := by
  induction h with
  | nil => rfl
  | @cons a b l r hab _ ih =>
    rw [List.countP_cons, List.countP_cons, same a List.mem_cons_self b List.mem_cons_self hab,
      ih fun a ha b hb => same a (List.mem_cons_of_mem _ ha) b (List.mem_cons_of_mem _ hb)]

section Drawing

variable (drawing : Drawing s electrodes mesh segments triangles interfaces contacts)

include drawing

theorem Drawing.numbered : Numbered mesh.pointMap := by
  rw [drawing.points]
  exact (pointMapOf_spec _).1

theorem Drawing.pointCount : mesh.pointCount = mesh.pointMap.keys.length := by
  rw [DeviceMesh.pointCount, (coordinatesOf_spec drawing.coordinates).1]
  omega

theorem Drawing.lt {v : Int} {i : Nat} (h : mesh.pointMap.get? v = some i) : i < mesh.pointCount := by
  rw [drawing.pointCount]
  exact (List.getElem?_eq_some_iff.mp (drawing.numbered.get?_iff.mp h)).1

theorem Drawing.inj {v w : Int} {i : Nat} (hv : mesh.pointMap.get? v = some i)
    (hw : mesh.pointMap.get? w = some i) : v = w := by
  rw [drawing.numbered.get?_iff] at hv hw
  exact Option.some.inj (hv.symm.trans hw)

theorem Drawing.bijOn : Set.BijOn (fun v => (mesh.pointMap.get? v).getD 0)
    {v | ∃ element ∈ keptElements s mesh.regions, v ∈ element.vertices}
    (Set.Iio mesh.pointCount) := by
  have keys : ∀ v, (∃ element ∈ keptElements s mesh.regions, v ∈ element.vertices) ↔
      ∃ i, mesh.pointMap.get? v = some i := by
    intro v
    rw [← Dict.mem_keys, drawing.points]
    exact ((pointMapOf_spec _).2 v).symm
  refine ⟨?_, ?_, ?_⟩
  · intro v hv
    obtain ⟨i, hi⟩ := (keys v).mp hv
    dsimp only
    rw [hi]
    exact drawing.lt hi
  · intro v hv w hw same
    obtain ⟨i, hi⟩ := (keys v).mp hv
    obtain ⟨j, hj⟩ := (keys w).mp hw
    dsimp only at same
    rw [hi, hj] at same
    obtain rfl : i = j := same
    exact drawing.inj hi hj
  · intro i hi
    have lt : i < mesh.pointMap.keys.length := drawing.pointCount ▸ hi
    have found := drawing.numbered.get?_iff.mpr (List.getElem?_eq_getElem lt)
    refine ⟨_, (keys _).mpr ⟨i, found⟩, ?_⟩
    dsimp only
    rw [found]
    rfl

theorem Drawing.kind_triangle {d : Drawn} (h : d ∈ triangles) : d.kind = triangleCode := by
  obtain ⟨element, -, region, a, b, c, -, -, rfl⟩ := exists_of_mem_right drawing.drawnTriangles h
  rfl

theorem Drawing.kind_interface {d : Drawn} (h : d ∈ interfaces) : d.kind = edgeCode := by
  obtain ⟨segment, -, pair, a, b, -, -, -, rfl⟩ := exists_of_mem_right drawing.drawnInterfaces h
  rfl

theorem Drawing.kind_contact {d : Drawn} (h : d ∈ contacts) : d.kind = edgeCode := by
  obtain ⟨pair, -, region, name, a, b, -, -, -, -, rfl⟩ := exists_of_mem_right drawing.drawnContacts h
  rfl

theorem Drawing.node_lt {d : Drawn} (h : d ∈ triangles ++ interfaces ++ contacts) :
    ∀ i ∈ d.nodes, i < mesh.pointCount := by
  rcases List.mem_append.mp h with h | h
  · rcases List.mem_append.mp h with h | h
    · obtain ⟨element, -, region, a, b, c, -, points, rfl⟩ :=
        exists_of_mem_right drawing.drawnTriangles h
      intro i hi
      have mem : i ∈ [a, b, c] := by
        dsimp only at hi
        split at hi <;> simp only [List.mem_cons, List.not_mem_nil, or_false] at hi ⊢ <;> tauto
      obtain ⟨v, -, hv⟩ := exists_of_mem_right points mem
      exact drawing.lt hv
    · obtain ⟨segment, -, pair, a, b, -, ha, hb, rfl⟩ :=
        exists_of_mem_right drawing.drawnInterfaces h
      simp [drawing.lt ha, drawing.lt hb]
  · obtain ⟨pair, -, region, name, a, b, -, -, ha, hb, rfl⟩ :=
      exists_of_mem_right drawing.drawnContacts h
    simp [drawing.lt ha, drawing.lt hb]

/-- The triangles among the records are those of the first pass. -/
theorem Drawing.filter_triangles :
    ((triangles ++ interfaces ++ contacts).map (Drawn.record mesh.physicalNames)).filter
      (fun record => record.kind = triangleCode) =
        triangles.map (Drawn.record mesh.physicalNames) := by
  have different : ¬ edgeCode = triangleCode := by decide
  rw [List.map_append, List.map_append, List.filter_append, List.filter_append]
  have first : (triangles.map (Drawn.record mesh.physicalNames)).filter
      (fun record => record.kind = triangleCode) = triangles.map (Drawn.record mesh.physicalNames) := by
    refine List.filter_eq_self.mpr fun record hr => ?_
    obtain ⟨d, hd, rfl⟩ := List.mem_map.mp hr
    exact decide_eq_true (drawing.kind_triangle hd)
  have second : (interfaces.map (Drawn.record mesh.physicalNames)).filter
      (fun record => record.kind = triangleCode) = [] := by
    refine List.filter_eq_nil_iff.mpr fun record hr => ?_
    obtain ⟨d, hd, rfl⟩ := List.mem_map.mp hr
    simpa [Drawn.record, drawing.kind_interface hd] using different
  have third : (contacts.map (Drawn.record mesh.physicalNames)).filter
      (fun record => record.kind = triangleCode) = [] := by
    refine List.filter_eq_nil_iff.mpr fun record hr => ?_
    obtain ⟨d, hd, rfl⟩ := List.mem_map.mp hr
    simpa [Drawn.record, drawing.kind_contact hd] using different
  rw [first, second, third, List.append_nil, List.append_nil]

variable (nodup : (mesh.regions.map RegionSpec.regionId).Nodup)

include nodup

theorem Drawing.isTriangle : List.Forall₂ (IsTriangle mesh) (keptElements s mesh.regions)
    (triangles.map (Drawn.record mesh.physicalNames)) := by
  rw [List.forall₂_map_right_iff]
  refine forall₂_imp_of_mem drawing.drawnTriangles fun element d mem drawn => ?_
  have name := drawing.nameOf (List.mem_append_left _ (List.mem_append_left _ mem))
  obtain ⟨region, a, b, c, found, points, rfl⟩ := drawn
  obtain ⟨hr, id⟩ := (get?_byRegion nodup).mp found
  refine ⟨rfl, ⟨region, hr, id, name⟩, a, b, c, ?_⟩
  by_cases turned : area mesh.coordinates a b c < 0
  · refine ⟨a, c, b, points, Or.inr rfl, ?_, ?_⟩
    · simp [Drawn.record, turned]
    · rw [area_swap]
      exact neg_nonneg.mpr turned.le
  · refine ⟨a, b, c, points, Or.inl rfl, ?_, not_lt.mp turned⟩
    simp [Drawn.record, turned]

end Drawing

/-- A segment with these points as its ends has the ends of any other one between them. -/
theorem Drawing.ends_eq (drawing : Drawing s electrodes mesh segments triangles interfaces contacts)
    {segment segment' : Segment} {a b a' b' : Nat} (ha : mesh.pointMap.get? segment.a = some a)
    (hb : mesh.pointMap.get? segment.b = some b) (ha' : mesh.pointMap.get? segment'.a = some a')
    (hb' : mesh.pointMap.get? segment'.b = some b') (kind physical : Int)
    (joins : (Record.mk kind physical [(a' : Int), (b' : Int)]).joins a b = true) :
    ends segment' = ends segment := by
  simp only [Record.joins, List.cons.injEq, Int.natCast_inj, and_true, decide_eq_true_eq] at joins
  unfold ends
  rcases joins with ⟨rfl, rfl⟩ | ⟨rfl, rfl⟩
  · rw [drawing.inj ha' ha, drawing.inj hb' hb]
  · rw [drawing.inj ha' hb, drawing.inj hb' ha, min_comm, max_comm]

/-- Of the second pass, one edge is under the name of an interface between the ends of a
segment. -/
theorem Drawing.count_interface
    (drawing : Drawing s electrodes mesh segments triangles interfaces contacts)
    {segment : Segment} (mem : segment ∈ segments)
    (kept : between (byRegion mesh.regions) segment = true) {pair : Int × Int}
    (hpair : sides segment = some pair) {a b : Nat} (ha : mesh.pointMap.get? segment.a = some a)
    (hb : mesh.pointMap.get? segment.b = some b) :
    (interfaces.map (Drawn.record mesh.physicalNames)).countP (fun record =>
      record.kind = edgeCode ∧ mesh.nameOf record = some (pairName pair) ∧ record.joins a b) = 1 := by
  have distinct := nodup_ends drawing.found
  have one : (segments.filter (between (byRegion mesh.regions))).countP (· = segment) = 1 := by
    have := List.count_eq_one_of_mem (distinct.of_map.sublist List.filter_sublist)
      (List.mem_filter.mpr ⟨mem, kept⟩)
    simpa [List.count, beq_eq_decide] using this
  rw [← one, List.countP_map]
  symm
  refine countP_of_forall₂ drawing.drawnInterfaces fun segment' mem' d hd drawn => ?_
  have name := drawing.nameOf (List.mem_append_left _ (List.mem_append_right _ hd))
  obtain ⟨pair', a', b', hpair', ha', hb', rfl⟩ := drawn
  refine decide_eq_decide.mpr ⟨fun same => ?_, fun shown => ?_⟩
  · subst same
    obtain rfl := Option.some.inj (hpair.symm.trans hpair')
    obtain rfl := Option.some.inj (ha.symm.trans ha')
    obtain rfl := Option.some.inj (hb.symm.trans hb')
    exact ⟨rfl, name, by simp [Drawn.record, Record.joins]⟩
  · have same := drawing.ends_eq ha hb ha' hb' _ _ shown.2.2
    exact List.inj_on_of_nodup_map distinct (List.mem_filter.mp mem').1 mem same

/-- No edge of the other two passes is under the name of an interface. -/
theorem Drawing.countP_interface
    (drawing : Drawing s electrodes mesh segments triangles interfaces contacts)
    (names : (mesh.regions.map RegionSpec.name ++ mesh.interfaces.map InterfaceSpec.name ++
      mesh.contacts.map ContactSpec.name).Nodup)
    {interface : InterfaceSpec} (hi : interface ∈ mesh.interfaces) (a b : Nat) :
    ((triangles ++ interfaces ++ contacts).map (Drawn.record mesh.physicalNames)).countP
        (fun record => record.kind = edgeCode ∧ mesh.nameOf record = some interface.name ∧
          record.joins a b) =
      (interfaces.map (Drawn.record mesh.physicalNames)).countP (fun record =>
        record.kind = edgeCode ∧ mesh.nameOf record = some interface.name ∧
          record.joins a b) := by
  have first : (triangles.map (Drawn.record mesh.physicalNames)).countP (fun record =>
      record.kind = edgeCode ∧ mesh.nameOf record = some interface.name ∧
        record.joins a b) = 0 := by
    refine List.countP_eq_zero.mpr fun record hr => ?_
    obtain ⟨d, hd, rfl⟩ := List.mem_map.mp hr
    have kind := drawing.kind_triangle hd
    simp [Drawn.record, kind, triangleCode, edgeCode]
  have third : (contacts.map (Drawn.record mesh.physicalNames)).countP (fun record =>
      record.kind = edgeCode ∧ mesh.nameOf record = some interface.name ∧
        record.joins a b) = 0 := by
    refine List.countP_eq_zero.mpr fun record hr shown => ?_
    obtain ⟨d, hd, rfl⟩ := List.mem_map.mp hr
    have name := drawing.nameOf (List.mem_append_right _ hd)
    obtain ⟨pair, -, region, contactName, i, j, -, found, -, -, rfl⟩ :=
      exists_of_mem_right drawing.drawnContacts hd
    obtain ⟨contact, hc, -, -, rfl⟩ := get?_contactOfEdge found
    have same := Option.some.inj (name.symm.trans (of_decide_eq_true shown).2.1)
    exact (List.nodup_append.mp names).2.2 _
      (List.mem_append_right _ (List.mem_map_of_mem hi)) _ (List.mem_map_of_mem hc) same.symm
  rw [List.map_append, List.map_append, List.countP_append, List.countP_append, first, third,
    Nat.zero_add, Nat.add_zero]

/-- A contact edge among the records is one of the third pass. -/
theorem Drawing.mem_contacts
    (drawing : Drawing s electrodes mesh segments triangles interfaces contacts)
    (names : (mesh.regions.map RegionSpec.name ++ mesh.interfaces.map InterfaceSpec.name ++
      mesh.contacts.map ContactSpec.name).Nodup)
    {d : Drawn} (hd : d ∈ triangles ++ interfaces ++ contacts) (edge : d.kind = edgeCode)
    {contact : ContactSpec} (hc : contact ∈ mesh.contacts) (name : d.name = contact.name) :
    d ∈ contacts := by
  rcases List.mem_append.mp hd with hd | hd
  · rcases List.mem_append.mp hd with hd | hd
    · rw [drawing.kind_triangle hd] at edge
      cases edge
    · obtain ⟨segment, kept, pair, a, b, hpair, -, -, rfl⟩ :=
        exists_of_mem_right drawing.drawnInterfaces hd
      obtain ⟨mem, kept⟩ := List.mem_filter.mp kept
      obtain ⟨region0, region1, -, -, there⟩ := drawing.interfaceNames segment mem kept pair hpair
      exact absurd name ((List.nodup_append.mp names).2.2 _
        (List.mem_append_right _ (List.mem_map_of_mem there)) _ (List.mem_map_of_mem hc))
  · exact hd

/-- The mesh is a picture of the structure. -/
theorem mesh_pictured (conforming : Conforming s)
    (resolved : resolveElectrodes py s spec = .ok electrodes)
    (meshed : buildDeviceMesh s electrodes gateModel = .ok mesh)
    (names : (mesh.regions.map RegionSpec.name ++ mesh.interfaces.map InterfaceSpec.name ++
      mesh.contacts.map ContactSpec.name).Nodup) :
    ∃ segments records, constrainedSegments s = .ok segments ∧
      Pictured s segments mesh records := by
  obtain ⟨segments, triangles, interfaces, contacts, drawing⟩ := drawing_of_ok meshed
  have nodup := nodup_selectRegions (mesh_spec meshed).1
  have name_eq {d : Drawn} (hd : d ∈ triangles ++ interfaces ++ contacts) {name : String}
      (shown : mesh.nameOf (d.record mesh.physicalNames) = some name) : d.name = name :=
    Option.some.inj ((drawing.nameOf hd).symm.trans shown)
  refine ⟨segments, _, drawing.found, ?flat, drawing.decoded, ?kinds, ?nodes, ?physical,
    drawing.bijOn, ?coordinates, ?triangles, ?interfaces, ?contacts⟩
  case flat =>
    rw [List.flatMap_map]
    exact drawing.holds.elements
  case kinds =>
    intro record hr
    obtain ⟨d, hd, rfl⟩ := List.mem_map.mp hr
    rcases List.mem_append.mp hd with hd | hd
    · rcases List.mem_append.mp hd with hd | hd
      · exact Or.inl (drawing.kind_triangle hd)
      · exact Or.inr (drawing.kind_interface hd)
    · exact Or.inr (drawing.kind_contact hd)
  case nodes =>
    intro record hr node hn
    obtain ⟨d, hd, rfl⟩ := List.mem_map.mp hr
    obtain ⟨i, hi, rfl⟩ := List.mem_map.mp hn
    have := drawing.node_lt hd i hi
    exact ⟨Int.natCast_nonneg i, Int.ofNat_lt.mpr this⟩
  case physical =>
    intro record hr
    obtain ⟨d, hd, rfl⟩ := List.mem_map.mp hr
    exact ⟨Int.natCast_nonneg _,
      Int.ofNat_lt.mpr (List.idxOf_lt_length_iff.mpr (drawing.holds.named d hd))⟩
  case coordinates =>
    intro v i hi
    exact (coordinatesOf_spec drawing.coordinates).2 i v (drawing.numbered.get?_iff.mp hi)
  case triangles =>
    rw [drawing.filter_triangles]
    exact drawing.isTriangle nodup
  case interfaces =>
    intro segment mem pair hpair region0 h0 id0 region1 h1 id1
    have kept : between (byRegion mesh.regions) segment = true := by
      simp only [between, hpair, Option.any_some, decide_eq_true_eq]
      exact ⟨mem_keys_byRegion.mpr ⟨region0, h0, id0⟩, mem_keys_byRegion.mpr ⟨region1, h1, id1⟩⟩
    obtain ⟨region0', region1', first, second, there⟩ :=
      drawing.interfaceNames segment mem kept pair hpair
    obtain rfl := Option.some.inj (((get?_byRegion nodup).mpr ⟨h0, id0⟩).symm.trans first)
    obtain rfl := Option.some.inj (((get?_byRegion nodup).mpr ⟨h1, id1⟩).symm.trans second)
    obtain ⟨d, -, pair', a, b, -, ha, hb, -⟩ :=
      exists_of_mem_left drawing.drawnInterfaces (List.mem_filter.mpr ⟨mem, kept⟩)
    refine ⟨_, there, rfl, rfl, a, b, ha, hb, ?_⟩
    rw [drawing.countP_interface names there]
    exact drawing.count_interface mem kept hpair ha hb
  case contacts =>
    intro record hr edge contact hc shown
    obtain ⟨d, hd, rfl⟩ := List.mem_map.mp hr
    have third := drawing.mem_contacts names hd edge hc (name_eq hd shown)
    have name := name_eq hd shown
    obtain ⟨pair, there, region, contactName, a, b, found, hname, ha, hb, rfl⟩ :=
      exists_of_mem_right drawing.drawnContacts third
    obtain ⟨contact', hc', -, on, rfl⟩ := get?_contactOfEdge hname
    obtain rfl := List.inj_on_of_nodup_map (List.nodup_append.mp names).2.1 hc' hc name
    obtain ⟨hregion, id⟩ := (get?_byRegion nodup).mp found
    obtain ⟨he, hedge⟩ := mem_edgePairs.mp (List.mem_filter.mp there).1
    refine ⟨region, hregion, on.symm, pair.2.vertices.1, pair.2.vertices.2, a, b, ?_, ha, hb, ?_⟩
    · rw [id]
      exact isEdgeOf_of_resolved conforming resolved he hedge
    · simp [Drawn.record, Record.joins]

theorem mesh_pictured_steppedBody : ∃ mesh segments records,
    (do let electrodes ← resolveElectrodes plain chip (steppedBody "Vs" "Vb")
        buildDeviceMesh chip electrodes .semiconductor) = .ok mesh ∧
      constrainedSegments chip = .ok segments ∧ Pictured chip segments mesh records := by
  obtain ⟨mesh, h, names⟩ : ∃ mesh, (do
      let electrodes ← resolveElectrodes plain chip (steppedBody "Vs" "Vb")
      buildDeviceMesh chip electrodes .semiconductor) = .ok mesh ∧
        (mesh.regions.map RegionSpec.name ++ mesh.interfaces.map InterfaceSpec.name ++
          mesh.contacts.map ContactSpec.name).Nodup := exists_ok_and (by decide +kernel)
  obtain ⟨electrodes, resolved, meshed⟩ := bind_eq_ok.mp h
  obtain ⟨segments, records, found, pictured⟩ :=
    mesh_pictured (by decide) resolved meshed names
  exact ⟨mesh, segments, records, h, found, pictured⟩

end TcadWebapp.Devsim
