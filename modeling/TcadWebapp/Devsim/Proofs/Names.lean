import TcadWebapp.Devsim.Proofs.Picture

/-!
# Physical names

The regions kept, the pairs of them with a segment between and the contacts of the electrodes
share one table of names. Regions and pairs never clash; a label of the user can be any text,
and what it clashes with is said by `Clear`.
-/

namespace TcadWebapp.Devsim

open StrParser Remesh

variable {py : Python} {s : Structure Rat} {spec : DeviceSpec} {electrodes : List Electrode}
  {gateModel : GateModel} {mesh : DeviceMesh} {segments : List Segment}

/-! ## What has a name -/

/-- What an element of the flat array can be filed under. -/
inductive Thing where
  | region (spec : RegionSpec)
  | interface (spec : InterfaceSpec)
  | contact (spec : ContactSpec)

def Thing.name : Thing → String
  | .region spec => spec.name
  | .interface spec => spec.name
  | .contact spec => spec.name

def DeviceMesh.things (mesh : DeviceMesh) : List Thing :=
  mesh.regions.map .region ++ mesh.interfaces.map .interface ++ mesh.contacts.map .contact

/-- What an element of the flat array is drawn for. -/
inductive Source where
  | triangle (element : Element)
  | segment (segment : Segment)
  | edge (electrode : Electrode) (edge : ContactEdge)

/-- What is drawn, in its order. -/
def sources (s : Structure Rat) (electrodes : List Electrode) (regions : List RegionSpec)
    (segments : List Segment) : List Source :=
  (keptElements s regions).map .triangle ++
    (segments.filter (between (byRegion regions))).map .segment ++
    ((edgePairs electrodes).filter fun pair =>
      pair.2.regionId ∈ (byRegion regions).keys).map fun pair => .edge pair.1 pair.2

/-- The region of an element, the interface of the two regions at a segment, the contact of an
electrode on the region of an edge. -/
def Owns (mesh : DeviceMesh) : Source → Thing → Prop
  | .triangle element, .region region => region.regionId = element.regionId
  | .segment segment, .interface interface => ∃ pair, sides segment = some pair ∧
      (∃ region ∈ mesh.regions, region.regionId = pair.1 ∧ region.name = interface.region0) ∧
      ∃ region ∈ mesh.regions, region.regionId = pair.2 ∧ region.name = interface.region1
  | .edge electrode edge, .contact contact => contact.electrode = electrode.name ∧
      ∃ region ∈ mesh.regions, region.regionId = edge.regionId ∧ region.name = contact.region
  | _, _ => False

/-- The element is filed under the name of its owner, which is the name of nothing else. -/
def Filed (mesh : DeviceMesh) (source : Source) (record : Record) : Prop :=
  ∃ owner ∈ mesh.things, Owns mesh source owner ∧
    ∀ thing ∈ mesh.things, mesh.nameOf record = some thing.name ↔ thing = owner

/-- All names are different, and each element is filed under that of its owner alone. -/
structure NamesApart (s : Structure Rat) (electrodes : List Electrode) (mesh : DeviceMesh) :
    Prop where
  distinct : (mesh.things.map Thing.name).Nodup
  filed : ∃ segments records, constrainedSegments s = .ok segments ∧
    iterElements mesh.elements = .ok records ∧
    List.Forall₂ (Filed mesh) (sources s electrodes mesh.regions segments) records

/-- No label is a name that is made for something else. -/
structure Clear (known : Dict Int RegionSpec) (segments : List Segment)
    (electrodes : List Electrode) : Prop where
  /-- The label of an electrode on one region is not the name of a region kept, -/
  region : ∀ electrode ∈ electrodes, (electrode.reachable known).length = 1 →
    ∀ id region, known.get? id = some region → electrode.name ≠ regionName id region.material
  /-- nor that of a pair of regions kept with a segment between, -/
  pair : ∀ electrode ∈ electrodes, (electrode.reachable known).length = 1 →
    ∀ segment ∈ segments, between known segment = true → ∀ pair, sides segment = some pair →
      electrode.name ≠ pairName pair
  /-- nor is that of an electrode on several regions the first half of it, if the electrode is on
  the second of the pair; -/
  half : ∀ electrode ∈ electrodes, (electrode.reachable known).length ≠ 1 →
    ∀ segment ∈ segments, between known segment = true → ∀ pair, sides segment = some pair →
      pair.2 ∈ electrode.reachable known → electrode.name ≠ "i_r" ++ toString pair.1
  /-- and no electrode on one region is labelled as the contact of one on several. -/
  contact : ∀ electrode ∈ electrodes, (electrode.reachable known).length ≠ 1 →
    ∀ id ∈ electrode.reachable known, ∀ other ∈ electrodes,
      (other.reachable known).length = 1 → other.name ≠ electrode.name ++ "_r" ++ toString id

/-! ## Names that are made -/

theorem regionName_inj {id id' : Int} {material material' : String}
    (same : regionName id material = regionName id' material') : id = id' := by
  have same := congrArg String.toList same
  simp only [regionName, String.toList_append] at same
  have split (id material : List Char) : "r".toList ++ id ++ "_".toList ++ material =
      'r' :: (id ++ '_' :: material) := by simp
  rw [split, split, List.cons.injEq] at same
  have ids := append_cons_inj_of_first (underscore_notMem_toString id)
    (underscore_notMem_toString id') same.2
  exact toString_int_inj.mp (String.toList_inj.mp ids.1)

theorem pairName_inj {pair pair' : Int × Int} (same : pairName pair = pairName pair') :
    pair = pair' := by
  obtain ⟨first, second⟩ := suffixed_inj.mp same
  have first := congrArg String.toList first
  simp only [String.toList_append, List.append_cancel_left_eq] at first
  exact Prod.ext (toString_int_inj.mp (String.toList_inj.mp first)) second

theorem regionName_ne_pairName (id : Int) (material : String) (pair : Int × Int) :
    regionName id material ≠ pairName pair := by
  intro same
  have same := congrArg String.toList same
  simp [regionName, pairName, String.toList_append] at same

/-- The materials of the regions kept. -/
theorem suffixed_ne_regionName {material : String} (known : material ∈ semiconductors ++ insulators)
    (label : String) (id id' : Int) : label ++ "_r" ++ toString id ≠ regionName id' material := by
  intro same
  have same := congrArg String.toList same
  simp only [regionName, String.toList_append] at same
  have split (x i : List Char) : x ++ "_r".toList ++ i = x ++ '_' :: ('r' :: i) := by simp
  have split' (id material : List Char) : "r".toList ++ id ++ "_".toList ++ material =
      ("r".toList ++ id) ++ '_' :: material := by simp
  have plain : ∀ material ∈ semiconductors ++ insulators,
      '_' ∉ material.toList ∧ material.toList.head? ≠ some 'r' := by decide
  rw [split, split', append_cons_inj_of_last] at same
  · exact (plain material known).2 (by rw [← same.2]; rfl)
  · simpa using underscore_notMem_toString id
  · exact (plain material known).1

/-! ## The names of a mesh -/

/-- The electrodes with the regions they have a contact on. -/
def contactKeys (electrodes : List Electrode) (known : Dict Int RegionSpec) :
    List (Electrode × Int) :=
  electrodes.flatMap fun electrode =>
    ((electrode.reachable known).insertionSort (· ≤ ·)).map (electrode, ·)

theorem mem_contactKeys {known : Dict Int RegionSpec} {electrode : Electrode} {id : Int} :
    (electrode, id) ∈ contactKeys electrodes known ↔
      electrode ∈ electrodes ∧ id ∈ electrode.reachable known := by
  simp [contactKeys]

theorem contactNames (electrodes : List Electrode) (known : Dict Int RegionSpec) :
    (contactSpecs electrodes known).map ContactSpec.name =
      (contactKeys electrodes known).map fun key => key.1.contactName known key.2 := by
  unfold contactSpecs contactKeys
  rw [List.map_flatMap, List.map_flatMap]
  refine List.flatMap_congr fun electrode _ => ?_
  unfold contactsOf
  rw [List.map_filterMap, List.map_map]
  have all : ∀ id ∈ (electrode.reachable known).insertionSort (· ≤ ·),
      ∃ region, known.get? id = some region := by
    intro id mem
    rw [List.mem_insertionSort] at mem
    exact Dict.mem_keys.mp (of_decide_eq_true (List.mem_filter.mp mem).2)
  revert all
  generalize (electrode.reachable known).insertionSort (· ≤ ·) = ids
  intro all
  induction ids with
  | nil => rfl
  | cons id ids ih =>
    obtain ⟨region, found⟩ := all id List.mem_cons_self
    have rest := ih fun id mem => all id (List.mem_cons_of_mem _ mem)
    simp only [List.filterMap_cons, found, Option.map_some, List.map_cons, rest]
    rfl

theorem nodup_reachable (electrode : Electrode) (known : Dict Int RegionSpec) :
    (electrode.reachable known).Nodup :=
  electrode.edgesByRegion.nodup.filter _

theorem nodup_contactKeys (labels : (electrodes.map Electrode.name).Nodup)
    (known : Dict Int RegionSpec) : (contactKeys electrodes known).Nodup := by
  unfold contactKeys
  rw [List.nodup_flatMap]
  constructor
  · intro electrode _
    refine List.Nodup.map (fun id id' same => (Prod.mk.inj same).2) ?_
    exact (List.perm_insertionSort _ _).nodup_iff.mpr (nodup_reachable electrode known)
  · refine (List.Pairwise.of_map Electrode.name (fun _ _ ne => ne) labels).imp ?_
    rintro electrode electrode' ne ⟨other, id⟩ mem mem'
    obtain ⟨_, -, same⟩ := List.mem_map.mp mem
    obtain ⟨_, -, same'⟩ := List.mem_map.mp mem'
    have first : electrode = other := (Prod.mk.inj same).1
    have second : electrode' = other := (Prod.mk.inj same').1
    exact ne (first.trans second.symm ▸ rfl)

/-- When the contacts of all electrodes have names of their own. -/
theorem nodup_contacts_iff (labels : (electrodes.map Electrode.name).Nodup)
    (known : Dict Int RegionSpec) :
    ((contactSpecs electrodes known).map ContactSpec.name).Nodup ↔
      ∀ electrode ∈ electrodes, (electrode.reachable known).length ≠ 1 →
        ∀ id ∈ electrode.reachable known, ∀ other ∈ electrodes,
          (other.reachable known).length = 1 →
            other.name ≠ electrode.name ++ "_r" ++ toString id := by
  rw [contactNames, List.nodup_map_iff_inj_on (nodup_contactKeys labels known)]
  constructor
  · intro inj electrode mem several id hid other mem' single same
    obtain ⟨id', hid'⟩ := List.exists_mem_of_length_pos (single ▸ Nat.one_pos)
    have keys := inj (electrode, id) (mem_contactKeys.mpr ⟨mem, hid⟩) (other, id')
      (mem_contactKeys.mpr ⟨mem', hid'⟩) (by
        simp only [Electrode.contactName, if_neg several, if_pos single, same])
    rw [(Prod.mk.inj keys).1] at several
    exact several single
  · rintro clear ⟨electrode, id⟩ key ⟨electrode', id'⟩ key' same
    obtain ⟨mem, hid⟩ := mem_contactKeys.mp key
    obtain ⟨mem', hid'⟩ := mem_contactKeys.mp key'
    simp only [Electrode.contactName] at same
    by_cases single : (electrode.reachable known).length = 1 <;>
      by_cases single' : (electrode'.reachable known).length = 1
    · rw [if_pos single, if_pos single'] at same
      obtain rfl := List.inj_on_of_nodup_map labels mem mem' same
      obtain ⟨only, reach⟩ := List.length_eq_one_iff.mp single
      rw [reach, List.mem_singleton] at hid hid'
      rw [hid, hid']
    · rw [if_pos single, if_neg single'] at same
      exact absurd same (clear electrode' mem' single' id' hid' electrode mem single)
    · rw [if_neg single, if_pos single'] at same
      exact absurd same.symm (clear electrode mem single id hid electrode' mem' single')
    · rw [if_neg single, if_neg single'] at same
      obtain ⟨name, rfl⟩ := suffixed_inj.mp same
      rw [List.inj_on_of_nodup_map labels mem mem' name]

theorem nodup_regionNames {regions : List RegionSpec}
    (kept : selectRegions s electrodes gateModel = .ok regions) :
    (regions.map RegionSpec.name).Nodup := by
  obtain ⟨segments, found, -⟩ := bind_eq_ok.mp kept
  have ids := nodup_selectRegions kept
  refine List.Nodup.map_on ?_ (List.Nodup.of_map _ ids)
  intro region mem region' mem' same
  obtain ⟨material, -, -, made⟩ := (mem_selectRegions found kept).mp mem
  obtain ⟨material', -, -, made'⟩ := (mem_selectRegions found kept).mp mem'
  rw [made, made'] at same
  exact List.inj_on_of_nodup_map ids mem mem' (regionName_inj same)

/-- The names of a mesh are different exactly when no label is a name made for something
else. -/
theorem nodup_names_iff {triangles interfaces contacts : List Drawn}
    (labels : (electrodes.map Electrode.name).Nodup)
    (built : buildDeviceMesh s electrodes gateModel = .ok mesh)
    (drawing : Drawing s electrodes mesh segments triangles interfaces contacts) :
    (mesh.things.map Thing.name).Nodup ↔
      Clear (byRegion mesh.regions) segments electrodes := by
  obtain ⟨kept, -, specs⟩ := mesh_spec built
  have ids := nodup_selectRegions kept
  obtain ⟨table, entries, made, pairs⟩ := drawing.interfaceTable
  have names : mesh.things.map Thing.name = mesh.regions.map RegionSpec.name ++
      table.keys.map pairName ++ mesh.contacts.map ContactSpec.name := by
    have interfaceNames : mesh.interfaces.map InterfaceSpec.name = table.keys.map pairName := by
      rw [entries, List.map_map, Dict.keys, List.map_map]
      refine List.map_congr_left fun entry mem => ?_
      obtain ⟨_, _, -, -, spec⟩ := made entry.1 entry.2 (Dict.get?_eq_some.mpr mem)
      simp [spec]
    rw [← interfaceNames]
    simp only [DeviceMesh.things, List.map_append, List.map_map]
    rfl
  have regionOf : ∀ region ∈ mesh.regions,
      (byRegion mesh.regions).get? region.regionId = some region ∧
        region.name = regionName region.regionId region.material ∧
        region.material ∈ semiconductors ++ insulators := by
    intro region mem
    obtain ⟨segments', found, -⟩ := bind_eq_ok.mp kept
    obtain ⟨material, hmaterial, isKept, spec⟩ := (mem_selectRegions found kept).mp mem
    refine ⟨(get?_byRegion ids).mpr ⟨mem, rfl⟩, by rw [spec], ?_⟩
    have fits : material ∈ semiconductors ++ insulators := by
      have one : region.regionId ∈ regionsOf s gateModel semiconductors ∨
          region.regionId ∈ regionsOf s gateModel insulators := by
        rcases isKept with h | h | h
        · exact Or.inl h
        · obtain ⟨segment, -, h⟩ := List.mem_flatMap.mp h
          exact Or.inr (mem_of_mem_touchingOf h)
        · exact Or.inr h.2
      rcases one with h | h
      · obtain ⟨material', found', fits, -⟩ := mem_regionsOf.mp h
        obtain rfl := Option.some.inj (hmaterial.symm.trans found')
        exact List.mem_append_left _ fits
      · obtain ⟨material', found', fits, -⟩ := mem_regionsOf.mp h
        obtain rfl := Option.some.inj (hmaterial.symm.trans found')
        exact List.mem_append_right _ fits
    rw [spec]
    exact fits
  have contactNamed : ∀ name, name ∈ mesh.contacts.map ContactSpec.name ↔
      ∃ electrode ∈ electrodes, ∃ id ∈ electrode.reachable (byRegion mesh.regions),
        name = electrode.contactName (byRegion mesh.regions) id := by
    intro name
    rw [specs, contactNames, List.mem_map]
    constructor
    · rintro ⟨⟨electrode, id⟩, mem, rfl⟩
      obtain ⟨mem, hid⟩ := mem_contactKeys.mp mem
      exact ⟨electrode, mem, id, hid, rfl⟩
    · rintro ⟨electrode, mem, id, hid, rfl⟩
      exact ⟨(electrode, id), mem_contactKeys.mpr ⟨mem, hid⟩, rfl⟩
  have only : ∀ electrode ∈ electrodes,
      (electrode.reachable (byRegion mesh.regions)).length = 1 →
        electrode.name ∈ mesh.contacts.map ContactSpec.name := by
    intro electrode mem single
    obtain ⟨id, hid⟩ := List.exists_mem_of_length_pos (single ▸ Nat.one_pos)
    exact (contactNamed _).mpr ⟨electrode, mem, id, hid, by rw [Electrode.contactName, if_pos single]⟩
  rw [names, List.nodup_append, List.nodup_append, specs, nodup_contacts_iff labels, ← specs]
  constructor
  · rintro ⟨-, contact, apart⟩
    refine ⟨?_, ?_, ?_, contact⟩
    · intro electrode mem single id region found same
      obtain ⟨hregion, rfl⟩ := (get?_byRegion ids).mp found
      refine apart region.name (List.mem_append_left _ (List.mem_map_of_mem hregion)) _
        (only electrode mem single) ?_
      rw [(regionOf region hregion).2.1, same]
    · intro electrode mem single segment hsegment inside pair hpair same
      refine apart (pairName pair) (List.mem_append_right _ (List.mem_map_of_mem ?_)) _
        (only electrode mem single) same.symm
      exact (pairs pair).mpr ⟨segment, hsegment, inside, hpair⟩
    · intro electrode mem several segment hsegment inside pair hpair hid same
      refine apart (pairName pair) (List.mem_append_right _ (List.mem_map_of_mem ?_)) _
        ((contactNamed _).mpr ⟨electrode, mem, pair.2, hid, rfl⟩) ?_
      · exact (pairs pair).mpr ⟨segment, hsegment, inside, hpair⟩
      · rw [Electrode.contactName, if_neg several, same]
        rfl
  · rintro ⟨region, pair, half, contact⟩
    refine ⟨⟨nodup_regionNames kept, ?_, ?_⟩, contact, ?_⟩
    · exact List.Nodup.map (fun _ _ => pairName_inj) table.nodup
    · intro name mem name' mem' same
      obtain ⟨spec, hspec, rfl⟩ := List.mem_map.mp mem
      obtain ⟨ends, -, rfl⟩ := List.mem_map.mp mem'
      rw [(regionOf spec hspec).2.1] at same
      exact regionName_ne_pairName _ _ _ same
    · intro name mem name' mem' same
      obtain ⟨electrode, hmem, id, hid, rfl⟩ := (contactNamed name').mp mem'
      subst same
      rcases List.mem_append.mp mem with mem | mem
      · obtain ⟨spec, hspec, named⟩ := List.mem_map.mp mem
        obtain ⟨found, name, fits⟩ := regionOf spec hspec
        rw [name, Electrode.contactName] at named
        split at named
        · rename_i single
          exact region electrode hmem single _ _ found named.symm
        · exact suffixed_ne_regionName fits _ _ _ named.symm
      · obtain ⟨ends, hends, named⟩ := List.mem_map.mp mem
        obtain ⟨segment, hsegment, inside, hpair⟩ := (pairs ends).mp hends
        rw [Electrode.contactName] at named
        split at named
        · rename_i single
          exact pair electrode hmem single segment hsegment inside ends hpair named.symm
        · rename_i several
          obtain ⟨label, rfl⟩ := suffixed_inj.mp named
          exact half electrode hmem several segment hsegment inside ends hpair hid label.symm

/-! ## What is filed where -/

theorem forall₂_imp_mem {α β : Type*} {R S : α → β → Prop} {l : List α} {l' : List β}
    (all : List.Forall₂ R l l') (imp : ∀ a ∈ l, ∀ b ∈ l', R a b → S a b) :
    List.Forall₂ S l l' := by
  induction all with
  | nil => exact .nil
  | cons related _ ih =>
    refine .cons (imp _ List.mem_cons_self _ List.mem_cons_self related) (ih ?_)
    exact fun a mem b mem' => imp a (List.mem_cons_of_mem _ mem) b (List.mem_cons_of_mem _ mem')

section Filing

variable {triangles interfaces contacts : List Drawn}

theorem filed_of_name (drawing : Drawing s electrodes mesh segments triangles interfaces contacts)
    (distinct : (mesh.things.map Thing.name).Nodup) {source : Source} {d : Drawn}
    (drawn : d ∈ triangles ++ interfaces ++ contacts) (owner : Thing)
    (mem : owner ∈ mesh.things) (owns : Owns mesh source owner) (name : d.name = owner.name) :
    Filed mesh source (d.record mesh.physicalNames) := by
  refine ⟨owner, mem, owns, ?_⟩
  intro thing hthing
  rw [drawing.nameOf drawn, name, Option.some.injEq]
  constructor
  · intro same
    exact (List.inj_on_of_nodup_map distinct mem hthing same).symm
  · rintro rfl
    rfl

theorem filed_of_drawing (kept : selectRegions s electrodes gateModel = .ok mesh.regions)
    (drawing : Drawing s electrodes mesh segments triangles interfaces contacts)
    (distinct : (mesh.things.map Thing.name).Nodup) :
    List.Forall₂ (Filed mesh) (sources s electrodes mesh.regions segments)
      ((triangles ++ interfaces ++ contacts).map (Drawn.record mesh.physicalNames)) := by
  have ids := nodup_selectRegions kept
  unfold sources
  rw [List.map_append, List.map_append]
  refine List.rel_append (List.rel_append ?_ ?_) ?_
  · rw [List.forall₂_map_left_iff, List.forall₂_map_right_iff]
    refine forall₂_imp_mem drawing.drawnTriangles ?_
    rintro element - d drawn ⟨spec, a, b, c, found, -, rfl⟩
    obtain ⟨mem, id⟩ := (get?_byRegion ids).mp found
    refine filed_of_name drawing distinct (by simp [drawn]) (.region spec) ?_ id rfl
    simp [DeviceMesh.things, mem]
  · rw [List.forall₂_map_left_iff, List.forall₂_map_right_iff]
    refine forall₂_imp_mem drawing.drawnInterfaces ?_
    rintro segment mem d drawn ⟨pair, a, b, hpair, -, -, rfl⟩
    obtain ⟨mem, inside⟩ := List.mem_filter.mp mem
    obtain ⟨region0, region1, first, second, there⟩ :=
      drawing.interfaceNames segment mem inside pair hpair
    obtain ⟨mem0, id0⟩ := (get?_byRegion ids).mp first
    obtain ⟨mem1, id1⟩ := (get?_byRegion ids).mp second
    refine filed_of_name drawing distinct (by simp [drawn])
      (.interface ⟨pairName pair, region0.name, region1.name⟩) ?_ ?_ rfl
    · simp [DeviceMesh.things, there]
    · exact ⟨pair, hpair, ⟨region0, mem0, id0, rfl⟩, region1, mem1, id1, rfl⟩
  · rw [List.forall₂_map_left_iff, List.forall₂_map_right_iff]
    refine forall₂_imp_mem drawing.drawnContacts ?_
    rintro ⟨electrode, edge⟩ - d drawn ⟨region, name, a, b, found, hname, -, -, rfl⟩
    obtain ⟨mem, id⟩ := (get?_byRegion ids).mp found
    obtain ⟨contact, hcontact, label, on, rfl⟩ := get?_contactOfEdge hname
    refine filed_of_name drawing distinct (by simp [drawn]) (.contact contact) ?_ ?_ rfl
    · simp [DeviceMesh.things, hcontact]
    · exact ⟨label, region, mem, id, on.symm⟩

end Filing

theorem labels_of_resolved (accepted : spec.Accepted py)
    (resolved : resolveElectrodes py s spec = .ok electrodes) :
    (electrodes.map Electrode.name).Nodup := by
  have labels : electrodes.map Electrode.name = spec.electrodes.map ElectrodeChoice.label := by
    have all := (resolveElectrodes_spec resolved).2
    clear resolved
    revert all
    generalize spec.electrodes = choices
    intro all
    induction all with
    | nil => rfl
    | cons made _ ih => rw [List.map_cons, List.map_cons, made.name, ih]
  rw [labels]
  exact accepted.isConsistent.labels

/-- The physical names of a mesh never merge exactly where no label is a name made for something
else. -/
theorem namesApart_iff (accepted : spec.Accepted py)
    (resolved : resolveElectrodes py s spec = .ok electrodes)
    (built : buildDeviceMesh s electrodes spec.gateModel = .ok mesh) :
    ∃ regions segments, selectRegions s electrodes spec.gateModel = .ok regions ∧
      constrainedSegments s = .ok segments ∧
      (NamesApart s electrodes mesh ↔ Clear (byRegion regions) segments electrodes) := by
  obtain ⟨segments, triangles, interfaces, contacts, drawing⟩ := drawing_of_ok built
  have kept := (mesh_spec built).1
  have names := nodup_names_iff (labels_of_resolved accepted resolved) built drawing
  refine ⟨mesh.regions, segments, kept, drawing.found, ?_⟩
  rw [← names]
  constructor
  · exact NamesApart.distinct
  · intro distinct
    exact ⟨distinct, segments, _, drawing.found, drawing.decoded,
      filed_of_drawing kept drawing distinct⟩

theorem namesApart_iff_steppedBody : ∃ electrodes mesh regions segments,
    buildDeviceMesh chip electrodes .semiconductor = .ok mesh ∧
      (NamesApart chip electrodes mesh ↔ Clear (byRegion regions) segments electrodes) := by
  obtain ⟨electrodes, resolved⟩ : ∃ electrodes,
      resolveElectrodes plain chip (steppedBody "Vs" "Vb") = .ok electrodes :=
    exists_ok (by decide +kernel)
  obtain ⟨mesh, built⟩ : ∃ mesh, buildDeviceMesh chip electrodes .semiconductor = .ok mesh := by
    have builds : ∃ mesh, (resolveElectrodes plain chip (steppedBody "Vs" "Vb") >>= fun electrodes =>
        buildDeviceMesh chip electrodes .semiconductor) = .ok mesh := exists_ok (by decide +kernel)
    rw [resolved] at builds
    exact builds
  have accepted : (steppedBody "Vs" "Vb").Accepted plain := by decide
  obtain ⟨regions, segments, -, -, apart⟩ := namesApart_iff accepted resolved built
  exact ⟨electrodes, mesh, regions, segments, built, apart⟩

/-- The drain is labelled as the silicon region is named. -/
def drainLikeRegion : DeviceSpec where
  electrodes := [⟨"source", ["source"]⟩, ⟨"r1_silicon", ["drain"]⟩, ⟨"body", ["body"]⟩]
  biases := [⟨"Vs", "source", .const, some 0, none, none⟩,
    ⟨"Vb", "body", .const, some 0, none, none⟩,
    ⟨"Vd", "r1_silicon", .sweep, none, some [0], none⟩]
  gateModel := .semiconductor

/-- Its contact and the region share one name. -/
theorem not_namesApart : ¬ ∀ (py : Python) (s : Structure Rat) (spec : DeviceSpec)
    (electrodes : List Electrode) (mesh : DeviceMesh), spec.Accepted py →
      resolveElectrodes py s spec = .ok electrodes →
        buildDeviceMesh s electrodes spec.gateModel = .ok mesh → NamesApart s electrodes mesh := by
  intro all
  obtain ⟨electrodes, resolved⟩ : ∃ electrodes,
      resolveElectrodes plain chip drainLikeRegion = .ok electrodes := exists_ok (by decide +kernel)
  have named : ((resolveElectrodes plain chip drainLikeRegion >>= fun electrodes =>
      buildDeviceMesh chip electrodes .semiconductor).map fun mesh =>
        mesh.things.map Thing.name) = .ok ["r1_silicon", "source", "r1_silicon", "body"] := by
    decide +kernel
  rw [resolved] at named
  obtain ⟨mesh, built, names⟩ : ∃ mesh, buildDeviceMesh chip electrodes .semiconductor = .ok mesh ∧
      mesh.things.map Thing.name = ["r1_silicon", "source", "r1_silicon", "body"] := by
    revert named
    change ((buildDeviceMesh chip electrodes .semiconductor).map _ = _ → _)
    cases buildDeviceMesh chip electrodes .semiconductor with
    | error e => intro h; cases h
    | ok mesh => exact fun h => ⟨mesh, rfl, Except.ok.inj h⟩
  have apart := all plain chip drainLikeRegion electrodes mesh (by decide) resolved built
  have distinct := apart.distinct
  rw [names] at distinct
  exact absurd distinct (by decide)

end TcadWebapp.Devsim
