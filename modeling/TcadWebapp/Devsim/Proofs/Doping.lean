import TcadWebapp.Devsim.Doping
import TcadWebapp.Devsim.Build
import TcadWebapp.Devsim.Proofs.Names

/-!
# Doping arrives at the right nodes

The value of a point goes through a table of its material, a list of its region and a lookup by
rounded coordinates. At the nodes that a region has in the mesh, in whatever order the simulator
gives them, the container sets the net doping of the row of the vertex for the region's material
(`doping_arrives`).
-/

namespace TcadWebapp.Devsim

open StrParser Remesh

variable {s : Structure Rat} {electrodes : List Electrode} {gateModel : GateModel}
  {mesh : DeviceMesh} {doping : Dict String (List DopingPoint)}

/-! ## Rounding -/

theorem nearest_intCast (n : Int) : nearest n = n := by
  rw [nearest, Rat.floor_intCast, sub_self, if_pos (by norm_num)]

theorem roundTo_roundTo (digits : Nat) (x : Rat) : roundTo digits (roundTo digits x) = roundTo digits x := by
  have scale : (10 : Rat) ^ digits ≠ 0 := pow_ne_zero _ (by norm_num)
  have back : roundTo digits x * 10 ^ digits = nearest (x * 10 ^ digits) := by
    rw [roundTo, div_mul_cancel₀ _ scale]
  rw [roundTo, back, nearest_intCast, ← roundTo]

theorem nodeKey_roundedCm (point : Coordinate Rat) :
    nodeKey coordinateDigits (roundedCm point) = roundedCm point := by
  rw [nodeKey, roundedCm, roundTo_roundTo, roundTo_roundTo]

/-! ## What should arrive -/

/-- The columns of a row in these positions, added up. -/
def columnTotal (row : NodeSolution Rat) (positions : List Nat) : Rat :=
  (positions.map fun i => row.values.getD i 0).sum

/-- The net doping of a vertex on the side of a material, where there is a row. -/
def netAt (columns : List Species → List Nat × List Nat) (s : Structure Rat)
    (materialId vertex : Int) : Rat :=
  match s.solutions.find? fun row => row.coordinateIndex = vertex ∧ row.materialId = materialId with
  | none => 0
  | some row => columnTotal row (columns (speciesTable s.species)).1 -
      columnTotal row (columns (speciesTable s.species)).2

/-- The nodes of the triangles of a name. -/
def DeviceMesh.nodesOf (mesh : DeviceMesh) (name : String) : List Nat :=
  ((((iterElements mesh.elements).toOption.getD []).filter fun record =>
    record.kind = triangleCode ∧ mesh.nameOf record = some name).flatMap fun record =>
      record.nodes.map Int.toNat).dedup

/-- The coordinates of a node, as they are sent. -/
def DeviceMesh.pointAt (mesh : DeviceMesh) (node : Nat) : Rat × Rat :=
  (mesh.coordinates.getD (3 * node) 0, mesh.coordinates.getD (3 * node + 1) 0)

/-- The vertices of a region stay distinct when their coordinates in cm are rounded. -/
def StaysApart (s : Structure Rat) (regionId : Int) : Prop :=
  ∀ v ∈ used s regionId, ∀ w ∈ used s regionId, ∀ p q, index s.coordinates v = .ok p →
    index s.coordinates w = .ok q → roundedCm p = roundedCm q → v = w

/-- Whatever the order in which the simulator gives the nodes of a semiconductor region, each gets
the net doping of its vertex, and none is missing. -/
def DopingArrives (columns : List Species → List Nat × List Nat) (s : Structure Rat)
    (mesh : DeviceMesh) (doping : Dict String (List DopingPoint)) : Prop :=
  ∀ region ∈ mesh.regions, region.isSemiconductor = true → StaysApart s region.regionId →
    ∀ nodes : List (Rat × Rat), nodes.Perm ((mesh.nodesOf region.name).map mesh.pointAt) →
      ∃ materialId points, (materialIdOfRegion s).get? region.regionId = some materialId ∧
        doping.get? region.name = some points ∧ (applyDoping coordinateDigits points nodes).2 = 0 ∧
        List.Forall₂ (fun node value => ∃ vertex ∈ used s region.regionId, ∃ i,
          mesh.pointMap.get? vertex = some i ∧ node = mesh.pointAt i ∧
            value = netAt columns s materialId vertex)
          nodes (applyDoping coordinateDigits points nodes).1

/-! ## The table of a material -/

theorem columnSum_eq_ok {row : NodeSolution Rat} {positions : List Nat} {total : Rat}
    (h : columnSum row.values positions = .ok total) : total = columnTotal row positions := by
  obtain ⟨found, collected, h⟩ := bind_eq_ok.mp h
  obtain rfl := Except.ok.inj h
  have same : found = positions.map fun i => row.values.getD i 0 := by
    rw [← List.forall₂_eq_eq_eq, List.forall₂_map_right_iff]
    refine (mapM_eq_ok.mp collected).flip.imp fun value i hi => ?_
    rw [index_natCast] at hi
    rw [List.getD_eq_getElem?_getD]
    cases at_i : row.values[i]? with
    | none =>
      rw [at_i] at hi
      cases hi
    | some value' =>
      rw [at_i] at hi
      exact (Except.ok.inj hi).symm
  rw [same, columnTotal]

theorem netDoping_eq_ok {row : NodeSolution Rat} {entry : Int × Rat}
    (h : netDoping (speciesTable s.species) row = .ok entry) :
    entry = (row.coordinateIndex,
      columnTotal row (dopingColumns (speciesTable s.species)).1 -
        columnTotal row (dopingColumns (speciesTable s.species)).2) := by
  obtain ⟨donors, hdonors, h⟩ := bind_eq_ok.mp h
  obtain ⟨acceptors, hacceptors, h⟩ := bind_eq_ok.mp h
  obtain rfl := Except.ok.inj h
  rw [columnSum_eq_ok hdonors, columnSum_eq_ok hacceptors]

/-- With one row a point and material, the table of a material has that row's net doping. -/
theorem getD_netDopingByPoint
    (unique : (s.solutions.map fun row => (row.coordinateIndex, row.materialId)).Nodup)
    {materialId : Int} {values : Dict Int Rat} (h : netDopingByPoint s materialId = .ok values)
    (vertex : Int) : (values.get? vertex).getD 0 = netAt dopingColumns s materialId vertex := by
  obtain ⟨entries, collected, h⟩ := bind_eq_ok.mp h
  obtain rfl := Except.ok.inj h
  have same : entries = (s.solutions.filter fun row => row.materialId = materialId).map fun row =>
      (row.coordinateIndex, columnTotal row (dopingColumns (speciesTable s.species)).1 -
        columnTotal row (dopingColumns (speciesTable s.species)).2) := by
    rw [← List.forall₂_eq_eq_eq, List.forall₂_map_right_iff]
    exact (mapM_eq_ok.mp collected).flip.imp fun entry row hrow => netDoping_eq_ok hrow
  have one : ∀ a ∈ s.solutions, ∀ b ∈ s.solutions, a.coordinateIndex = b.coordinateIndex →
      a.materialId = b.materialId → a = b := fun a ha b hb point material =>
    List.inj_on_of_nodup_map unique ha hb (Prod.ext point material)
  unfold netAt
  rw [same]
  cases found : s.solutions.find? fun row =>
      row.coordinateIndex = vertex ∧ row.materialId = materialId with
  | none =>
    have absent : ∀ row ∈ s.solutions.filter fun row => row.materialId = materialId,
        row.coordinateIndex ≠ vertex := by
      intro row mem point
      obtain ⟨mem, material⟩ := List.mem_filter.mp mem
      have not := List.find?_eq_none.mp found row mem
      exact not (by simpa using ⟨point, by simpa using material⟩)
    rw [Dict.get?_ofList_map_eq_none absent]
    rfl
  | some row =>
    have mem := List.mem_of_find?_eq_some found
    have place : row.coordinateIndex = vertex ∧ row.materialId = materialId := by
      simpa using List.find?_some found
    have kept : row ∈ s.solutions.filter fun row => row.materialId = materialId :=
      List.mem_filter.mpr ⟨mem, by simpa using place.2⟩
    rw [← place.1, Dict.get?_ofList_map ?_ kept]
    · rfl
    · intro a ha b hb point
      obtain ⟨ha, hma⟩ := List.mem_filter.mp ha
      obtain ⟨hb, hmb⟩ := List.mem_filter.mp hb
      rw [one a ha b hb point ((of_decide_eq_true hma).trans (of_decide_eq_true hmb).symm)]

/-! ## The list of a region -/

theorem mem_used {regionId vertex : Int} : vertex ∈ used s regionId ↔
    ∃ element ∈ s.elements, element.regionId = regionId ∧ vertex ∈ element.vertices := by
  rw [used, List.mem_insertionSort, List.mem_dedup, List.mem_flatMap]
  simp only [List.mem_filter, decide_eq_true_eq, and_assoc]

/-- The points of a region: those of its vertices that have coordinates, which are all. -/
theorem dopingOfRegion_spec
    (unique : (s.solutions.map fun row => (row.coordinateIndex, row.materialId)).Nodup)
    {region : RegionSpec} {entry : String × List DopingPoint}
    (h : dopingOfRegion s region = .ok entry) :
    entry.1 = region.name ∧ ∃ materialId,
      (materialIdOfRegion s).get? region.regionId = some materialId ∧
      List.Forall₂ (fun vertex point => ∃ coordinate, index s.coordinates vertex = .ok coordinate ∧
        point = (roundedCm coordinate, netAt dopingColumns s materialId vertex))
        (used s region.regionId) entry.2 := by
  obtain ⟨materialId, hmaterial, h⟩ := bind_eq_ok.mp h
  obtain ⟨values, hvalues, h⟩ := bind_eq_ok.mp h
  obtain ⟨points, hpoints, h⟩ := bind_eq_ok.mp h
  obtain rfl := Except.ok.inj h
  refine ⟨rfl, materialId, lookup_eq_ok.mp hmaterial, ?_⟩
  refine (mapM_eq_ok.mp hpoints).imp fun vertex point hp => ?_
  obtain ⟨coordinate, hcoordinate, hp⟩ := bind_eq_ok.mp hp
  refine ⟨coordinate, hcoordinate, ?_⟩
  rw [← Except.ok.inj hp, getD_netDopingByPoint unique hvalues]

/-- Names of regions of a mesh are different. -/
theorem eq_of_name (built : buildDeviceMesh s electrodes gateModel = .ok mesh)
    {region region' : RegionSpec} (mem : region ∈ mesh.regions) (mem' : region' ∈ mesh.regions)
    (same : region.name = region'.name) : region = region' := by
  obtain ⟨kept, -, -⟩ := mesh_spec built
  obtain ⟨segments, hsegments, -⟩ := bind_eq_ok.mp kept
  obtain ⟨material, -, -, e⟩ := (mem_selectRegions hsegments kept).mp mem
  obtain ⟨material', -, -, e'⟩ := (mem_selectRegions hsegments kept).mp mem'
  rw [e, e'] at same
  exact List.inj_on_of_nodup_map (nodup_selectRegions kept) mem mem' (regionName_inj same)

theorem get?_dopingPoints (built : buildDeviceMesh s electrodes gateModel = .ok mesh)
    (unique : (s.solutions.map fun row => (row.coordinateIndex, row.materialId)).Nodup)
    (sent : dopingPoints s mesh = .ok doping) {region : RegionSpec} (mem : region ∈ mesh.regions)
    (semi : region.isSemiconductor = true) :
    ∃ points, doping.get? region.name = some points ∧
      dopingOfRegion s region = .ok (region.name, points) := by
  obtain ⟨entries, collected, h⟩ := bind_eq_ok.mp sent
  obtain rfl := Except.ok.inj h
  obtain ⟨⟨name, points⟩, listed, found⟩ :=
    exists_mem_of_mapM collected (List.mem_filter.mpr ⟨mem, semi⟩)
  obtain rfl : name = region.name := (dopingOfRegion_spec unique found).1
  refine ⟨points, Dict.get?_update ?_ listed, found⟩
  intro name v v' hv hv'
  obtain ⟨first, hfirst, first_ok⟩ := exists_of_mem_mapM collected hv
  obtain ⟨second, hsecond, second_ok⟩ := exists_of_mem_mapM collected hv'
  have names : first.name = second.name :=
    (dopingOfRegion_spec unique first_ok).1.symm.trans (dopingOfRegion_spec unique second_ok).1
  obtain rfl := eq_of_name built (List.mem_filter.mp hfirst).1 (List.mem_filter.mp hsecond).1 names
  rw [first_ok] at second_ok
  exact congrArg Prod.snd (Except.ok.inj second_ok)

/-! ## The nodes of a region -/

/-- What is drawn for an element has the nodes of its vertices. -/
theorem mem_nodes_triangleOf {known : Dict Int RegionSpec} {points : Dict Int Nat}
    {coordinates : List Rat} {element : Element} {d : Drawn}
    (h : TriangleOf known points coordinates element d) {node : Nat} :
    node ∈ d.nodes ↔ ∃ vertex ∈ element.vertices, points.get? vertex = some node := by
  obtain ⟨region, a, b, c, -, pairs, rfl⟩ := h
  have turned : node ∈ (if area coordinates a b c < 0 then [a, c, b] else [a, b, c]) ↔
      node ∈ [a, b, c] := by
    split
    · simp only [List.mem_cons, List.not_mem_nil, or_false]
      tauto
    · rfl
  rw [turned]
  constructor
  · intro mem
    exact exists_of_mem_right pairs mem
  · rintro ⟨vertex, mem, found⟩
    obtain ⟨node', mem', found'⟩ := exists_of_mem_left pairs mem
    rw [found] at found'
    exact Option.some.inj found' ▸ mem'

theorem mem_nodesOf (built : buildDeviceMesh s electrodes gateModel = .ok mesh)
    {region : RegionSpec} (mem : region ∈ mesh.regions) {node : Nat} :
    node ∈ mesh.nodesOf region.name ↔
      ∃ vertex ∈ used s region.regionId, mesh.pointMap.get? vertex = some node := by
  obtain ⟨segments, triangles, interfaces, contacts, drawing⟩ := drawing_of_ok built
  have ids := nodup_selectRegions (mesh_spec built).1
  have nodes (d : Drawn) : (d.record mesh.physicalNames).nodes.map Int.toNat = d.nodes := by
    simp [Drawn.record, Function.comp_def]
  have drawn : node ∈ mesh.nodesOf region.name ↔
      ∃ d ∈ triangles, d.name = region.name ∧ node ∈ d.nodes := by
    rw [DeviceMesh.nodesOf, drawing.decoded, List.mem_dedup, List.mem_flatMap]
    constructor
    · rintro ⟨record, hrecord, hnode⟩
      obtain ⟨listed, kind, name⟩ := by simpa only [List.mem_filter, decide_eq_true_eq] using hrecord
      have triangle : record ∈ ((triangles ++ interfaces ++ contacts).map
          (Drawn.record mesh.physicalNames)).filter fun record => record.kind = triangleCode :=
        List.mem_filter.mpr ⟨listed, decide_eq_true kind⟩
      rw [drawing.filter_triangles] at triangle
      obtain ⟨d, hd, rfl⟩ := List.mem_map.mp triangle
      rw [drawing.nameOf (by simp [hd])] at name
      exact ⟨d, hd, Option.some.inj name, nodes d ▸ hnode⟩
    · rintro ⟨d, hd, name, hnode⟩
      refine ⟨d.record mesh.physicalNames, List.mem_filter.mpr ⟨?_, ?_⟩, (nodes d).symm ▸ hnode⟩
      · exact List.mem_map_of_mem (by simp [hd])
      · rw [decide_eq_true_eq, drawing.nameOf (by simp [hd]), name]
        exact ⟨drawing.kind_triangle hd, rfl⟩
  rw [drawn]
  constructor
  · rintro ⟨d, hd, name, hnode⟩
    obtain ⟨element, kept, triangle⟩ := exists_of_mem_right drawing.drawnTriangles hd
    obtain ⟨vertex, hvertex, found⟩ := (mem_nodes_triangleOf triangle).mp hnode
    obtain ⟨region', a, b, c, hregion, -, rfl⟩ := triangle
    obtain ⟨mem', id⟩ := (get?_byRegion ids).mp hregion
    obtain rfl := eq_of_name built mem' mem name
    exact ⟨vertex, mem_used.mpr ⟨element, (List.mem_filter.mp kept).1, id.symm, hvertex⟩, found⟩
  · rintro ⟨vertex, hvertex, found⟩
    obtain ⟨element, helement, id, inside⟩ := mem_used.mp hvertex
    have kept : element ∈ keptElements s mesh.regions := by
      refine List.mem_filter.mpr ⟨helement, ?_⟩
      rw [decide_eq_true_eq, mem_keys_byRegion]
      exact ⟨region, mem, id.symm⟩
    obtain ⟨d, hd, triangle⟩ := exists_of_mem_left drawing.drawnTriangles kept
    refine ⟨d, hd, ?_, (mem_nodes_triangleOf triangle).mpr ⟨vertex, inside, found⟩⟩
    obtain ⟨region', a, b, c, hregion, -, rfl⟩ := triangle
    obtain ⟨mem', id'⟩ := (get?_byRegion ids).mp hregion
    rw [List.inj_on_of_nodup_map ids mem' mem (id'.trans id)]

theorem pointAt_of_get? (built : buildDeviceMesh s electrodes gateModel = .ok mesh) {vertex : Int}
    {node : Nat} (h : mesh.pointMap.get? vertex = some node) :
    ∃ coordinate, index s.coordinates vertex = .ok coordinate ∧
      nodeKey coordinateDigits (mesh.pointAt node) = roundedCm coordinate := by
  obtain ⟨segments, triangles, interfaces, contacts, drawing⟩ := drawing_of_ok built
  obtain ⟨coordinate, found, x, y, -⟩ :=
    (coordinatesOf_spec drawing.coordinates).2 node vertex (drawing.numbered.get?_iff.mp h)
  refine ⟨coordinate, found, ?_⟩
  rw [DeviceMesh.pointAt, List.getD_eq_getElem?_getD, List.getD_eq_getElem?_getD, x, y]
  rfl

/-! ## At the nodes -/

/-- The lookup of a region finds the value of a vertex by its rounded coordinates. -/
theorem get?_dopingLookup {regionId materialId : Int} {points : List DopingPoint}
    (apart : StaysApart s regionId)
    (listed : List.Forall₂ (fun vertex point => ∃ coordinate,
      index s.coordinates vertex = .ok coordinate ∧
        point = (roundedCm coordinate, netAt dopingColumns s materialId vertex))
      (used s regionId) points) {vertex : Int} (mem : vertex ∈ used s regionId)
    {coordinate : Coordinate Rat} (found : index s.coordinates vertex = .ok coordinate) :
    (dopingLookup coordinateDigits points).get? (roundedCm coordinate) =
      some (netAt dopingColumns s materialId vertex) := by
  obtain ⟨point, hpoint, coordinate', found', rfl⟩ := exists_of_mem_left listed mem
  obtain rfl : coordinate = coordinate' := Except.ok.inj (found.symm.trans found')
  have key := @Dict.get?_ofList_map _ _ _ _ (fun point : DopingPoint =>
    nodeKey coordinateDigits point.1) Prod.snd points ?_ _ hpoint
  · rw [nodeKey_roundedCm] at key
    exact key
  · intro a ha b hb same
    obtain ⟨v, hv, p, hp, rfl⟩ := exists_of_mem_right listed ha
    obtain ⟨w, hw, q, hq, rfl⟩ := exists_of_mem_right listed hb
    rw [nodeKey_roundedCm, nodeKey_roundedCm] at same
    rw [apart v hv w hw p q hp hq same]

theorem doping_arrives
    (unique : (s.solutions.map fun row => (row.coordinateIndex, row.materialId)).Nodup)
    (built : buildDeviceMesh s electrodes gateModel = .ok mesh)
    (sent : dopingPoints s mesh = .ok doping) : DopingArrives dopingColumns s mesh doping := by
  intro region mem semi apart nodes perm
  obtain ⟨points, found, entry⟩ := get?_dopingPoints built unique sent mem semi
  obtain ⟨-, materialId, hmaterial, listed⟩ := dopingOfRegion_spec unique entry
  -- each node is that of a vertex, whose value is found
  have at_node : ∀ node ∈ nodes, ∃ vertex ∈ used s region.regionId, ∃ i,
      mesh.pointMap.get? vertex = some i ∧ node = mesh.pointAt i ∧
        (dopingLookup coordinateDigits points).get? (nodeKey coordinateDigits node) =
          some (netAt dopingColumns s materialId vertex) := by
    intro node hnode
    obtain ⟨i, hi, rfl⟩ := List.mem_map.mp (perm.subset hnode)
    obtain ⟨vertex, hvertex, place⟩ := (mem_nodesOf built mem).mp hi
    obtain ⟨coordinate, hcoordinate, key⟩ := pointAt_of_get? built place
    refine ⟨vertex, hvertex, i, place, rfl, ?_⟩
    rw [key, get?_dopingLookup apart listed hvertex hcoordinate]
  refine ⟨materialId, points, hmaterial, found, ?_, ?_⟩
  · refine List.countP_eq_zero.mpr fun node hnode => ?_
    obtain ⟨vertex, -, i, -, -, value⟩ := at_node node hnode
    rw [decide_eq_true_eq, not_not]
    exact Dict.mem_keys.mpr ⟨_, value⟩
  · unfold applyDoping
    rw [List.forall₂_map_right_iff, List.forall₂_same]
    intro node hnode
    obtain ⟨vertex, hvertex, i, place, same, value⟩ := at_node node hnode
    refine ⟨vertex, hvertex, i, place, same, ?_⟩
    rw [value]
    rfl

/-- The chip with two columns of boron, and a row for its first point. -/
def twoBorons : Structure Rat :=
  { chip with species := [5, 5], solutions := [⟨0, 3, "silicon", [1, 2]⟩] }

theorem doping_arrives_twoBorons : ∃ mesh doping,
    buildDeviceMesh twoBorons [] .semiconductor = .ok mesh ∧
      dopingPoints twoBorons mesh = .ok doping ∧
        DopingArrives dopingColumns twoBorons mesh doping := by
  have possible : ∃ mesh ∈ (buildDeviceMesh twoBorons [] .semiconductor).toOption,
      ∃ doping ∈ (dopingPoints twoBorons mesh).toOption, doping.keys = ["r1_silicon"] := by
    decide
  obtain ⟨mesh, built, possible⟩ := exists_ok_and possible
  obtain ⟨doping, sent, -⟩ := exists_ok_and possible
  exact ⟨mesh, doping, built, sent, doping_arrives (by decide) built sent⟩

/-! ## Columns of one name -/

/-- The columns that are added and taken away if every chemical column of a dopant counts. -/
def everyColumn (table : List Species) : List Nat × List Nat :=
  match dopingSource table with
  | .active => (positionsOf table .donor, positionsOf table .acceptor)
  | .chemical =>
    ((List.range table.length).filter fun i =>
      table[i]?.any fun column => column.name ∈ chemicalDonors,
     (List.range table.length).filter fun i =>
      table[i]?.any fun column => column.name ∈ chemicalAcceptors)

theorem staysApart_twoBorons : StaysApart twoBorons 1 := by
  have points : ∀ v ∈ used twoBorons 1, ∀ w ∈ used twoBorons 1,
      (index twoBorons.coordinates v).toOption.map roundedCm =
        (index twoBorons.coordinates w).toOption.map roundedCm → v = w := by
    decide +kernel
  intro v hv w hw p q hp hq same
  refine points v hv w hw ?_
  rw [hp, hq, Except.toOption, Except.toOption, Option.map_some, Option.map_some, same]

/-- Of two chemical columns of a dopant only the last counts. -/
theorem not_dopingArrives : ¬ ∀ (s : Structure Rat) (electrodes : List Electrode)
    (gateModel : GateModel) (mesh : DeviceMesh) (doping : Dict String (List DopingPoint)),
    (s.solutions.map fun row => (row.coordinateIndex, row.materialId)).Nodup →
      buildDeviceMesh s electrodes gateModel = .ok mesh → dopingPoints s mesh = .ok doping →
        DopingArrives everyColumn s mesh doping := by
  intro all
  have possible : ∃ mesh ∈ (buildDeviceMesh twoBorons [] .semiconductor).toOption,
      ∃ doping ∈ (dopingPoints twoBorons mesh).toOption,
        ⟨"r1_silicon", 1, "silicon", "Silicon"⟩ ∈ mesh.regions ∧
        ∃ points ∈ doping.get? "r1_silicon",
          ∃ value ∈ (applyDoping coordinateDigits points
            ((mesh.nodesOf "r1_silicon").map mesh.pointAt)).1,
          ∀ vertex ∈ used twoBorons 1, value ≠ netAt everyColumn twoBorons 3 vertex := by
    decide +kernel
  obtain ⟨mesh, built, possible⟩ := exists_ok_and possible
  obtain ⟨doping, sent, mem, points, found, value, set, differs⟩ := exists_ok_and possible
  obtain ⟨materialId, points', material, found', -, values⟩ := all twoBorons [] .semiconductor mesh
    doping (by decide) built sent _ mem rfl staysApart_twoBorons _ (List.Perm.refl _)
  obtain rfl := Option.some.inj (found.symm.trans found')
  have id : (materialIdOfRegion twoBorons).get? 1 = some 3 := by decide
  obtain rfl := Option.some.inj (id.symm.trans material)
  obtain ⟨node, -, vertex, hvertex, i, -, -, same⟩ := exists_of_mem_right values set
  exact differs vertex hvertex same

end TcadWebapp.Devsim
