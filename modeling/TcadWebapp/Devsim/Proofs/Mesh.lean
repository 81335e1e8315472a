import TcadWebapp.Devsim.Mesh

/-!
# The flat arrays of a mesh

What the three passes of `build_device_mesh` write, as a list of elements whose names are not
numbered yet (`Drawn`): each pass emits one of them for each triangle, segment or contact edge
that it keeps, and `iter_elements` reads them back.
-/

namespace TcadWebapp.Devsim

open StrParser Remesh

variable {s : Structure Rat} {electrodes : List Electrode} {gateModel : GateModel}
  {mesh : DeviceMesh}

/-! ## Elements before their names are numbered -/

/-- An element with its name. -/
structure Drawn where
  kind : Int
  name : String
  nodes : List Nat
  deriving DecidableEq, Repr

namespace Drawn

/-- Its entries in `elements`, with these names. -/
def encode (names : List String) (d : Drawn) : List Int :=
  d.kind :: (names.idxOf d.name : Int) :: d.nodes.map Int.ofNat

def record (names : List String) (d : Drawn) : Record :=
  ⟨d.kind, names.idxOf d.name, d.nodes.map Int.ofNat⟩

/-- It has as many nodes as its kind says. -/
def Shaped (d : Drawn) : Prop :=
  d.kind = edgeCode ∧ d.nodes.length = 2 ∨ d.kind = triangleCode ∧ d.nodes.length = 3

end Drawn

theorem iterFrom_encode (names : List String) {drawn : List Drawn}
    (shaped : ∀ d ∈ drawn, d.Shaped) {fuel : Nat} (enough : drawn.length ≤ fuel) :
    iterFrom fuel (drawn.flatMap (Drawn.encode names)) =
      .ok (drawn.map (Drawn.record names)) := by
  induction drawn generalizing fuel with
  | nil => cases fuel <;> rfl
  | cons d drawn ih =>
    obtain ⟨fuel, rfl⟩ : ∃ n, fuel = n + 1 := ⟨fuel - 1, by simp at enough; omega⟩
    have rest : iterFrom fuel (drawn.flatMap (Drawn.encode names)) = _ :=
      ih (fun d hd => shaped d (List.mem_cons_of_mem _ hd)) (by simpa using enough)
    have count : (if d.kind = edgeCode then 2 else 3) = (d.nodes.map Int.ofNat).length := by
      rcases shaped d List.mem_cons_self with ⟨kind, length⟩ | ⟨kind, length⟩
      · rw [if_pos kind, List.length_map, length]
      · rw [if_neg (by rw [kind]; decide), List.length_map, length]
    rw [List.flatMap_cons, Drawn.encode, List.cons_append, List.cons_append, iterFrom, count,
      List.drop_left, List.take_left, rest]
    rfl

/-- `iter_elements` reads back what was written. -/
theorem iterElements_encode (names : List String) {drawn : List Drawn}
    (shaped : ∀ d ∈ drawn, d.Shaped) : iterElements (drawn.flatMap (Drawn.encode names)) =
      .ok (drawn.map (Drawn.record names)) := by
  refine iterFrom_encode names shaped ?_
  induction drawn with
  | nil => exact Nat.zero_le _
  | cons d drawn ih =>
    have := ih fun d hd => shaped d (List.mem_cons_of_mem _ hd)
    simp only [List.flatMap_cons, List.length_append, List.length_cons, Drawn.encode]
    omega

/-- A buffer holds these elements. -/
structure Buffer.Holds (buffer : Buffer) (drawn : List Drawn) : Prop where
  elements : buffer.elements = drawn.flatMap (Drawn.encode buffer.names)
  named : ∀ d ∈ drawn, d.name ∈ buffer.names

theorem Buffer.holds_nil : Buffer.Holds ⟨[], []⟩ [] := ⟨rfl, by simp⟩

theorem Buffer.Holds.emit {buffer : Buffer} {drawn : List Drawn} (h : buffer.Holds drawn)
    (d : Drawn) : (buffer.emit d.kind d.name d.nodes).Holds (drawn ++ [d]) := by
  -- the numbers of the names that are there already stay
  have kept : ∀ name ∈ buffer.names, (buffer.emit d.kind d.name d.nodes).names.idxOf name =
      buffer.names.idxOf name := by
    intro name mem
    unfold Buffer.emit
    dsimp only
    split
    · rfl
    · exact List.idxOf_append_of_mem mem
  have number : (buffer.emit d.kind d.name d.nodes).names.idxOf d.name =
      buffer.names.idxOf d.name := by
    by_cases mem : d.name ∈ buffer.names
    · exact kept _ mem
    · simp [Buffer.emit, mem, List.idxOf_append_of_notMem, List.idxOf_of_notMem]
  constructor
  · have old : drawn.flatMap (Drawn.encode (buffer.emit d.kind d.name d.nodes).names) =
        drawn.flatMap (Drawn.encode buffer.names) := by
      refine List.flatMap_congr fun e he => ?_
      rw [Drawn.encode, Drawn.encode, kept e.name (h.named e he)]
    rw [List.flatMap_append, old, ← h.elements, List.flatMap_singleton, Drawn.encode, number]
    rfl
  · intro e he
    have grows : ∀ name, name ∈ buffer.names ∨ name = d.name →
        name ∈ (buffer.emit d.kind d.name d.nodes).names := by
      intro name h
      unfold Buffer.emit
      dsimp only
      split
      · rename_i mem
        rcases h with h | rfl
        · exact h
        · exact mem
      · simpa using h
    rcases List.mem_append.mp he with he | he
    · exact grows _ (Or.inl (h.named e he))
    · rw [List.mem_singleton.mp he]
      exact grows _ (Or.inr rfl)

theorem Buffer.Holds.record_lt {buffer : Buffer} {drawn : List Drawn} (h : buffer.Holds drawn)
    {d : Drawn} (hd : d ∈ drawn) :
    buffer.names[buffer.names.idxOf d.name]? = some d.name :=
  List.getElem?_idxOf (h.named d hd)

/-! ## Loops that emit -/

section Loops

variable {α σ : Type} {f : σ → α → Except Exn σ}

/-- A loop that emits one element for each item it keeps. `I` is an invariant of the items done
and the state. -/
theorem foldlM_emits (buffer : σ → Buffer) (I : List α → σ → Prop) (keep : α → Bool)
    (R : α → Drawn → Prop)
    (step : ∀ done state item state', I done state → f state item = .ok state' →
      I (done ++ [item]) state' ∧ ((keep item = false ∧ buffer state' = buffer state) ∨
        (keep item = true ∧ ∃ d, R item d ∧
          buffer state' = (buffer state).emit d.kind d.name d.nodes)))
    (done : List α) {items : List α} {state state' : σ} (h : items.foldlM f state = .ok state')
    (inv : I done state) {drawn : List Drawn} (holds : (buffer state).Holds drawn) :
    I (done ++ items) state' ∧ ∃ more, List.Forall₂ R (items.filter keep) more ∧
      (buffer state').Holds (drawn ++ more) := by
  induction items generalizing done state drawn with
  | nil =>
    obtain rfl := Except.ok.inj h
    exact ⟨by simpa using inv, [], List.Forall₂.nil, by simpa using holds⟩
  | cons item items ih =>
    rw [List.foldlM_cons] at h
    obtain ⟨next, hnext, h⟩ := bind_eq_ok.mp h
    obtain ⟨inv', emitted⟩ := step done state item next inv hnext
    have assoc : done ++ item :: items = done ++ [item] ++ items := by simp
    rw [assoc]
    rcases emitted with ⟨skipped, same⟩ | ⟨kept, d, hd, same⟩
    · obtain ⟨inv'', more, all, holds'⟩ := ih _ h inv' (same ▸ holds)
      refine ⟨inv'', more, ?_, holds'⟩
      rwa [List.filter_cons_of_neg (by simp [skipped])]
    · obtain ⟨inv'', more, all, holds'⟩ := ih _ h inv' (same ▸ holds.emit d)
      refine ⟨inv'', d :: more, ?_, by simpa using holds'⟩
      rw [List.filter_cons_of_pos kept]
      exact List.Forall₂.cons hd all

/-- A loop in a loop is a loop over pairs. -/
theorem foldlM_pairs {β : Type} {f : α → σ → β → Except Exn σ} (g : α → List β) (items : List α)
    (state : σ) : (items.foldlM (fun state item => (g item).foldlM (f item) state) state) =
      (items.flatMap fun item => (g item).map (item, ·)).foldlM
        (fun state pair => f pair.1 state pair.2) state := by
  induction items generalizing state with
  | nil => rfl
  | cons item items ih =>
    rw [List.foldlM_cons, List.flatMap_cons, List.foldlM_append, List.foldlM_map]
    exact bind_congr fun next => ih next

end Loops

/-! ## Points -/

/-- The values are the places of the entries. -/
def Numbered (points : Dict Int Nat) : Prop :=
  points.entries.map Prod.snd = List.range points.entries.length

theorem Numbered.get?_iff {points : Dict Int Nat} (h : Numbered points) {v : Int} {i : Nat} :
    points.get? v = some i ↔ points.keys[i]? = some v := by
  have second : ∀ (j : Nat) entry, points.entries[j]? = some entry → entry.2 = j := by
    intro j entry found
    have lt := (List.getElem?_eq_some_iff.mp found).1
    have := congrArg (fun l => l[j]?) h
    rw [List.getElem?_map, found, List.getElem?_range lt] at this
    exact Option.some.inj this
  rw [Dict.get?_eq_some]
  unfold Dict.keys
  rw [List.getElem?_map]
  constructor
  · intro mem
    obtain ⟨j, found⟩ := List.mem_iff_getElem?.mp mem
    obtain rfl : i = j := second j _ found
    rw [found]
    rfl
  · intro found
    obtain ⟨entry, here, rfl⟩ := Option.map_eq_some_iff.mp found
    obtain rfl : entry.2 = i := second i _ here
    exact List.mem_of_getElem? here

theorem Numbered.set {points : Dict Int Nat} (h : Numbered points) {v : Int}
    (new : v ∉ points.keys) : Numbered (points.set v points.entries.length) := by
  unfold Numbered
  rw [Dict.entries_set new, List.map_append, h, List.length_append, List.length_singleton,
    List.range_succ]
  rfl

theorem pointMapOf_spec (elements : List Element) : Numbered (pointMapOf elements) ∧
    ∀ v, v ∈ (pointMapOf elements).keys ↔ ∃ element ∈ elements, v ∈ element.vertices := by
  have loop : ∀ (vertices : List Int) (points : Dict Int Nat), Numbered points →
      let points' := vertices.foldl (fun points vertex => if vertex ∈ points.keys then points
        else points.set vertex points.entries.length) points
      Numbered points' ∧ ∀ v, v ∈ points'.keys ↔ v ∈ points.keys ∨ v ∈ vertices := by
    intro vertices
    induction vertices with
    | nil => exact fun points h => ⟨h, by simp⟩
    | cons vertex vertices ih =>
      intro points h
      rw [List.foldl_cons]
      by_cases old : vertex ∈ points.keys
      · rw [if_pos old]
        refine ⟨(ih points h).1, fun v => ?_⟩
        rw [(ih points h).2, List.mem_cons]
        constructor
        · exact Or.imp_right Or.inr
        · intro h
          rcases h with h | rfl | h
          · exact Or.inl h
          · exact Or.inl old
          · exact Or.inr h
      · rw [if_neg old]
        refine ⟨(ih _ (h.set old)).1, fun v => ?_⟩
        rw [(ih _ (h.set old)).2, Dict.mem_keys_set, List.mem_cons]
        tauto
  obtain ⟨numbered, keys⟩ := loop (elements.flatMap Element.vertices) ∅ rfl
  refine ⟨numbered, fun v => ?_⟩
  rw [pointMapOf, keys]
  simp [Dict.mem_keys]

/-- What is at the place `3 * i + j` of an array with three entries an item. -/
theorem getElem?_flatMap_three {α β : Type} {g : α → List β} (three : ∀ a, (g a).length = 3)
    (l : List α) (i : Nat) {j : Nat} (lt : j < 3) :
    (l.flatMap g)[3 * i + j]? = (l[i]?).bind fun a => (g a)[j]? := by
  induction l generalizing i with
  | nil => rfl
  | cons a l ih =>
    rw [List.flatMap_cons]
    cases i with
    | zero => rw [List.getElem?_append_left (by rw [three]; omega)]; simp
    | succ i =>
      rw [List.getElem?_append_right (by rw [three]; omega), three,
        show 3 * (i + 1) + j - 3 = 3 * i + j by omega, ih]
      rfl

/-- The coordinates of a mesh: those of the points in cm, with y upwards. -/
theorem coordinatesOf_spec {points : Dict Int Nat} {coordinates : List Rat}
    (h : coordinatesOf s points = .ok coordinates) :
    coordinates.length = 3 * points.keys.length ∧ ∀ (i : Nat) (v : Int),
      points.keys[i]? = some v → ∃ point, index s.coordinates v = .ok point ∧
        coordinates[3 * i]? = some (point.x * umToCm) ∧
        coordinates[3 * i + 1]? = some (-point.y * umToCm) ∧ coordinates[3 * i + 2]? = some 0 := by
  obtain ⟨found, collected, h⟩ := bind_eq_ok.mp h
  obtain rfl := Except.ok.inj h
  have pairs := mapM_eq_ok.mp collected
  constructor
  · rw [List.length_flatMap, pairs.length_eq]
    simp [Nat.mul_comm]
  · intro i v hv
    have lt := (List.getElem?_eq_some_iff.mp hv).1
    obtain ⟨point, hp⟩ : ∃ point, found[i]? = some point :=
      ⟨_, List.getElem?_eq_getElem (pairs.length_eq ▸ lt)⟩
    refine ⟨point, ?_, ?_, ?_, ?_⟩
    · have := List.forall₂_iff_get.mp pairs |>.2 i lt (pairs.length_eq ▸ lt)
      rw [List.get_eq_getElem, List.get_eq_getElem] at this
      rw [List.getElem?_eq_getElem lt] at hv
      rw [List.getElem?_eq_getElem (pairs.length_eq ▸ lt)] at hp
      rw [← Option.some.inj hv, ← Option.some.inj hp]
      exact this
    · exact (getElem?_flatMap_three (fun _ => rfl) found i (by decide : 0 < 3)).trans (by rw [hp]; rfl)
    · exact (getElem?_flatMap_three (fun _ => rfl) found i (by decide : 1 < 3)).trans (by rw [hp]; rfl)
    · exact (getElem?_flatMap_three (fun _ => rfl) found i (by decide : 2 < 3)).trans (by rw [hp]; rfl)

/-! ## Regions -/

theorem mem_regionsOf {materials : List String} {id : Int} : id ∈ regionsOf s gateModel materials ↔
    ∃ material, s.materialOfRegion.get? id = some material ∧ material ∈ materials ∧
      material ∉ gateModel.conductors := by
  unfold regionsOf
  constructor
  · intro h
    obtain ⟨⟨id, material⟩, mem, rfl⟩ := List.mem_map.mp h
    obtain ⟨mem, fits⟩ := List.mem_filter.mp mem
    exact ⟨material, Dict.get?_eq_some.mpr mem, by simpa using fits⟩
  · intro h
    obtain ⟨material, found, fits⟩ := h
    exact List.mem_map.mpr ⟨(id, material),
      List.mem_filter.mpr ⟨Dict.get?_eq_some.mp found, by simpa using fits⟩, rfl⟩

theorem mem_of_mem_touchingOf {insulators semiconductors : List Int} {segment : Segment} {id : Int}
    (h : id ∈ touchingOf insulators semiconductors segment) : id ∈ insulators := by
  unfold touchingOf at h
  split at h
  · simp at h
  · obtain ⟨pair, mem, rfl⟩ := List.mem_map.mp h
    exact (of_decide_eq_true (List.mem_filter.mp mem).2).1

/-- `_select_regions` keeps the region. -/
def Kept (s : Structure Rat) (electrodes : List Electrode) (gateModel : GateModel)
    (segments : List Segment) (id : Int) : Prop :=
  id ∈ regionsOf s gateModel semiconductors ∨
    id ∈ segments.flatMap
      (touchingOf (regionsOf s gateModel insulators) (regionsOf s gateModel semiconductors)) ∨
    id ∈ electrodes.flatMap (fun electrode => electrode.edges.map ContactEdge.regionId) ∧
      id ∈ regionsOf s gateModel insulators

theorem mem_selectRegions {segments : List Segment} {regions : List RegionSpec}
    (hs : constrainedSegments s = .ok segments)
    (h : selectRegions s electrodes gateModel = .ok regions) {region : RegionSpec} :
    region ∈ regions ↔ ∃ material, s.materialOfRegion.get? region.regionId = some material ∧
      Kept s electrodes gateModel segments region.regionId ∧
      region = ⟨regionName region.regionId material, region.regionId, material,
        (devsimMaterials.lookup material).getD "Oxide"⟩ := by
  unfold selectRegions at h
  rw [hs] at h
  obtain rfl := Except.ok.inj h
  constructor
  · intro mem
    obtain ⟨entry, mem', rfl⟩ := List.mem_map.mp mem
    rw [List.mem_insertionSort, List.mem_filter, decide_eq_true_eq] at mem'
    exact ⟨entry.2, Dict.get?_eq_some.mpr mem'.1, mem'.2, rfl⟩
  · intro h
    obtain ⟨material, found, kept, e⟩ := h
    rw [e]
    refine List.mem_map.mpr ⟨(region.regionId, material), ?_, rfl⟩
    rw [List.mem_insertionSort, List.mem_filter, decide_eq_true_eq]
    exact ⟨Dict.get?_eq_some.mp found, kept⟩

theorem nodup_selectRegions {regions : List RegionSpec}
    (h : selectRegions s electrodes gateModel = .ok regions) :
    (regions.map RegionSpec.regionId).Nodup := by
  obtain ⟨segments, -, h⟩ := bind_eq_ok.mp h
  obtain rfl := Except.ok.inj h
  rw [List.map_map]
  refine ((List.perm_insertionSort _ _).map Prod.fst).nodup_iff.mpr ?_
  exact s.materialOfRegion.nodup.sublist (List.filter_sublist.map Prod.fst)

/-- A region kept has a material that does not count as a conductor. -/
theorem Kept.material {segments : List Segment} {id : Int}
    (h : Kept s electrodes gateModel segments id) : ∃ material,
      s.materialOfRegion.get? id = some material ∧ material ∉ gateModel.conductors := by
  have one : id ∈ regionsOf s gateModel semiconductors ∨ id ∈ regionsOf s gateModel insulators := by
    rcases h with h | h | h
    · exact Or.inl h
    · obtain ⟨segment, -, h⟩ := List.mem_flatMap.mp h
      exact Or.inr (mem_of_mem_touchingOf h)
    · exact Or.inr h.2
  rcases one with h | h
  · obtain ⟨material, found, -, free⟩ := mem_regionsOf.mp h
    exact ⟨material, found, free⟩
  · obtain ⟨material, found, -, free⟩ := mem_regionsOf.mp h
    exact ⟨material, found, free⟩

theorem get?_byRegion {regions : List RegionSpec} (nodup : (regions.map RegionSpec.regionId).Nodup)
    {id : Int} {region : RegionSpec} :
    (byRegion regions).get? id = some region ↔ region ∈ regions ∧ region.regionId = id := by
  unfold byRegion
  constructor
  · intro h
    rw [Dict.get?_ofList] at h
    obtain ⟨entry, found, rfl⟩ := Option.map_eq_some_iff.mp h
    have mem := List.mem_reverse.mp (List.mem_of_find?_eq_some found)
    obtain ⟨region, hr, rfl⟩ := List.mem_map.mp mem
    exact ⟨hr, by simpa using List.find?_some found⟩
  · intro h
    obtain ⟨mem, rfl⟩ := h
    refine Dict.get?_update ?_ (List.mem_map.mpr ⟨region, mem, rfl⟩)
    intro id r r' hr hr'
    obtain ⟨r, hr, e⟩ := List.mem_map.mp hr
    obtain ⟨r', hr', e'⟩ := List.mem_map.mp hr'
    rw [Prod.mk.injEq] at e e'
    obtain rfl := List.inj_on_of_nodup_map nodup hr hr' (e.1.trans e'.1.symm)
    exact e.2.symm.trans e'.2

theorem mem_keys_byRegion {regions : List RegionSpec} {id : Int} :
    id ∈ (byRegion regions).keys ↔ ∃ region ∈ regions, region.regionId = id := by
  rw [Dict.mem_keys, byRegion]
  constructor
  · intro h
    obtain ⟨region, h⟩ := h
    rw [Dict.get?_ofList] at h
    obtain ⟨entry, found, -⟩ := Option.map_eq_some_iff.mp h
    have mem := List.mem_reverse.mp (List.mem_of_find?_eq_some found)
    obtain ⟨region, hr, rfl⟩ := List.mem_map.mp mem
    exact ⟨region, hr, by simpa using List.find?_some found⟩
  · intro h
    obtain ⟨region, mem, rfl⟩ := h
    have key : region.regionId ∈
        (regions.map fun region => (region.regionId, region)).map Prod.fst :=
      List.mem_map.mpr ⟨(_, region), List.mem_map_of_mem mem, rfl⟩
    obtain ⟨v, -, found⟩ := Dict.get?_update_of_mem ∅ key
    exact ⟨v, found⟩

/-! ## The three passes -/

theorem lookup_eq_ok {κ ν : Type} [DecidableEq κ] {d : Dict κ ν} {key : κ} {value : ν} :
    lookup d key = .ok value ↔ d.get? key = some value := by
  unfold lookup
  cases d.get? key <;> simp

section Passes

variable {known : Dict Int RegionSpec} {points : Dict Int Nat} {coordinates : List Rat}
  {named : Dict (String × String) String}

/-- What is emitted for an element. -/
def TriangleOf (known : Dict Int RegionSpec) (points : Dict Int Nat) (coordinates : List Rat)
    (element : Element) (d : Drawn) : Prop :=
  ∃ region a b c, known.get? element.regionId = some region ∧
    List.Forall₂ (fun v i => points.get? v = some i) element.vertices [a, b, c] ∧
    d = ⟨triangleCode, region.name, if area coordinates a b c < 0 then [a, c, b] else [a, b, c]⟩

theorem emitTriangle_spec {buffer buffer' : Buffer} {element : Element}
    (h : emitTriangle known points coordinates buffer element = .ok buffer') :
    ∃ d, TriangleOf known points coordinates element d ∧
      buffer' = buffer.emit d.kind d.name d.nodes := by
  obtain ⟨nodes, looked, h⟩ := bind_eq_ok.mp h
  obtain ⟨region, found, h⟩ := bind_eq_ok.mp h
  have pairs := (mapM_eq_ok.mp looked).imp fun v i hv => lookup_eq_ok.mp hv
  split at h
  · obtain rfl := Except.ok.inj h
    exact ⟨_, ⟨region, _, _, _, lookup_eq_ok.mp found, pairs, rfl⟩, rfl⟩
  · cases h
  · cases h

/-- The regions on both sides of a segment, the lower id first. -/
def sides (segment : Segment) : Option (Int × Int) :=
  segment.rightRegion.map fun right => (min segment.leftRegion right, max segment.leftRegion right)

/-- The name of the interface of two regions. -/
def pairName (pair : Int × Int) : String := "i_r" ++ toString pair.1 ++ "_r" ++ toString pair.2

/-- Both sides of the segment are kept. -/
def between (known : Dict Int RegionSpec) (segment : Segment) : Bool :=
  (sides segment).any fun pair => pair.1 ∈ known.keys ∧ pair.2 ∈ known.keys

/-- What is emitted for a segment. -/
def InterfaceOf (points : Dict Int Nat) (segment : Segment) (d : Drawn) : Prop :=
  ∃ pair a b, sides segment = some pair ∧ points.get? segment.a = some a ∧
    points.get? segment.b = some b ∧ d = ⟨edgeCode, pairName pair, [a, b]⟩

/-- The interfaces so far have the names of their pairs, and every segment done has one. -/
structure InterfacesInv (known : Dict Int RegionSpec) (done : List Segment)
    (state : Buffer × Dict (Int × Int) InterfaceSpec) : Prop where
  named : ∀ pair spec, state.2.get? pair = some spec → ∃ region0 region1,
    known.get? pair.1 = some region0 ∧ known.get? pair.2 = some region1 ∧
      spec = ⟨pairName pair, region0.name, region1.name⟩
  covered : ∀ segment ∈ done, between known segment = true → ∀ pair, sides segment = some pair →
    pair ∈ state.2.keys
  sound : ∀ pair ∈ state.2.keys, ∃ segment ∈ done, between known segment = true ∧
    sides segment = some pair

theorem emitInterface_spec {done : List Segment} {state state' : Buffer × Dict (Int × Int) InterfaceSpec}
    {segment : Segment} (inv : InterfacesInv known done state)
    (h : emitInterface known points state segment = .ok state') :
    InterfacesInv known (done ++ [segment]) state' ∧
      ((between known segment = false ∧ state'.1 = state.1) ∨
        (between known segment = true ∧ ∃ d, InterfaceOf points segment d ∧
          state'.1 = state.1.emit d.kind d.name d.nodes)) := by
  have skip : between known segment = false → InterfacesInv known (done ++ [segment]) state := by
    intro outside
    refine ⟨inv.named, fun segment' mem kept => ?_, fun pair mem => ?_⟩
    · rcases List.mem_append.mp mem with mem | mem
      · exact inv.covered segment' mem kept
      · rw [List.mem_singleton.mp mem, outside] at kept
        cases kept
    · obtain ⟨segment', mem', kept⟩ := inv.sound pair mem
      exact ⟨segment', List.mem_append_left _ mem', kept⟩
  unfold emitInterface at h
  split at h
  · rename_i none
    obtain rfl := Except.ok.inj h
    have outside : between known segment = false := by simp [between, sides, none]
    exact ⟨skip outside, Or.inl ⟨outside, rfl⟩⟩
  · rename_i right some
    have pair : sides segment =
        Option.some (min segment.leftRegion right, max segment.leftRegion right) := by
      rw [sides, some]
      rfl
    dsimp only at h
    split at h
    · rename_i region0 region1 first second
      obtain ⟨a, ha, h⟩ := bind_eq_ok.mp h
      obtain ⟨b, hb, h⟩ := bind_eq_ok.mp h
      obtain rfl := Except.ok.inj h
      have inside : between known segment = true := by
        simp only [between, pair, Option.any_some, decide_eq_true_eq]
        exact ⟨Dict.mem_keys.mpr ⟨_, first⟩, Dict.mem_keys.mpr ⟨_, second⟩⟩
      -- the interface is the one of the pair so far, or a new one that is the same
      have spec_eq : (state.2.get? (min segment.leftRegion right, max segment.leftRegion right)).getD
          ⟨"i_r" ++ toString (min segment.leftRegion right) ++ "_r" ++
            toString (max segment.leftRegion right), region0.name, region1.name⟩ =
          ⟨pairName (min segment.leftRegion right, max segment.leftRegion right), region0.name,
            region1.name⟩ := by
        cases found : state.2.get? (min segment.leftRegion right, max segment.leftRegion right) with
        | none => rfl
        | some spec =>
          obtain ⟨region0', region1', first', second', rfl⟩ := inv.named _ spec found
          obtain rfl := Option.some.inj (first.symm.trans first')
          obtain rfl := Option.some.inj (second.symm.trans second')
          rfl
      refine ⟨⟨?_, ?_, ?_⟩, Or.inr ⟨inside, _, ⟨_, a, b, pair, lookup_eq_ok.mp ha,
        lookup_eq_ok.mp hb, rfl⟩, ?_⟩⟩
      · intro pair' spec found
        rw [Dict.get?_alter] at found
        split at found
        · rename_i same
          obtain rfl := Option.some.inj found
          rw [same]
          exact ⟨region0, region1, first, second, spec_eq⟩
        · exact inv.named pair' spec found
      · intro segment' mem kept pair' hp
        rw [Dict.mem_keys, Dict.get?_alter]
        split
        · exact ⟨_, rfl⟩
        · rename_i other
          rcases List.mem_append.mp mem with mem | mem
          · exact Dict.mem_keys.mp (inv.covered segment' mem kept pair' hp)
          · rw [List.mem_singleton.mp mem, pair] at hp
            exact absurd (Option.some.inj hp).symm other
      · intro pair' mem
        obtain ⟨spec, found⟩ := Dict.mem_keys.mp mem
        rw [Dict.get?_alter] at found
        split at found
        · rename_i same
          exact ⟨segment, by simp, inside, by rw [pair, same]⟩
        · obtain ⟨segment', mem', kept⟩ := inv.sound pair' (Dict.mem_keys.mpr ⟨spec, found⟩)
          exact ⟨segment', List.mem_append_left _ mem', kept⟩
      · dsimp only
        rw [spec_eq]
    · rename_i missing
      obtain rfl := Except.ok.inj h
      have outside : between known segment = false := by
        rw [← Bool.not_eq_true]
        intro inside
        simp only [between, pair, Option.any_some, decide_eq_true_eq, Dict.mem_keys] at inside
        obtain ⟨⟨region0, first⟩, region1, second⟩ := inside
        exact missing region0 region1 first second
      exact ⟨skip outside, Or.inl ⟨outside, rfl⟩⟩

/-- What is emitted for an edge of an electrode. -/
def ContactOf (known : Dict Int RegionSpec) (points : Dict Int Nat)
    (named : Dict (String × String) String) (pair : Electrode × ContactEdge) (d : Drawn) : Prop :=
  ∃ region name a b, known.get? pair.2.regionId = some region ∧
    named.get? (pair.1.name, region.name) = some name ∧
    points.get? pair.2.vertices.1 = some a ∧ points.get? pair.2.vertices.2 = some b ∧
    d = ⟨edgeCode, name, [a, b]⟩

theorem emitContact_spec {buffer buffer' : Buffer} {electrode : Electrode} {edge : ContactEdge}
    (h : emitContact known points named electrode buffer edge = .ok buffer') :
    (decide (edge.regionId ∈ known.keys) = false ∧ buffer' = buffer) ∨
      (decide (edge.regionId ∈ known.keys) = true ∧ ∃ d,
        ContactOf known points named (electrode, edge) d ∧
          buffer' = buffer.emit d.kind d.name d.nodes) := by
  unfold emitContact at h
  split at h
  · rename_i none
    obtain rfl := Except.ok.inj h
    exact Or.inl ⟨decide_eq_false (Dict.get?_eq_none.mp none), rfl⟩
  · rename_i region found
    obtain ⟨name, hname, h⟩ := bind_eq_ok.mp h
    obtain ⟨a, ha, h⟩ := bind_eq_ok.mp h
    obtain ⟨b, hb, h⟩ := bind_eq_ok.mp h
    obtain rfl := Except.ok.inj h
    exact Or.inr ⟨decide_eq_true (Dict.mem_keys.mpr ⟨region, found⟩), _,
      ⟨region, name, a, b, found, lookup_eq_ok.mp hname, lookup_eq_ok.mp ha, lookup_eq_ok.mp hb,
        rfl⟩, rfl⟩

end Passes

/-- The elements of the regions kept. -/
def keptElements (s : Structure Rat) (regions : List RegionSpec) : List Element :=
  s.elements.filter fun element => element.regionId ∈ (byRegion regions).keys

/-- The edges of the electrodes, each with its electrode. -/
def edgePairs (electrodes : List Electrode) : List (Electrode × ContactEdge) :=
  electrodes.flatMap fun electrode => electrode.edges.map (electrode, ·)

/-- What `build_device_mesh` drew, pass by pass. -/
structure Drawing (s : Structure Rat) (electrodes : List Electrode) (mesh : DeviceMesh)
    (segments : List Segment) (triangles interfaces contacts : List Drawn) : Prop where
  found : constrainedSegments s = .ok segments
  points : mesh.pointMap = pointMapOf (keptElements s mesh.regions)
  coordinates : coordinatesOf s mesh.pointMap = .ok mesh.coordinates
  drawnTriangles : List.Forall₂ (TriangleOf (byRegion mesh.regions) mesh.pointMap mesh.coordinates)
    (keptElements s mesh.regions) triangles
  drawnInterfaces : List.Forall₂ (InterfaceOf mesh.pointMap)
    (segments.filter (between (byRegion mesh.regions))) interfaces
  interfaceNames : ∀ segment ∈ segments, between (byRegion mesh.regions) segment = true →
    ∀ pair, sides segment = some pair → ∃ region0 region1,
      (byRegion mesh.regions).get? pair.1 = some region0 ∧
      (byRegion mesh.regions).get? pair.2 = some region1 ∧
      ⟨pairName pair, region0.name, region1.name⟩ ∈ mesh.interfaces
  /-- The interfaces are those of the pairs of regions kept that a segment lies between. -/
  interfaceTable : ∃ table : Dict (Int × Int) InterfaceSpec,
    mesh.interfaces = table.entries.map Prod.snd ∧ (∀ pair spec, table.get? pair = some spec →
      ∃ region0 region1, (byRegion mesh.regions).get? pair.1 = some region0 ∧
        (byRegion mesh.regions).get? pair.2 = some region1 ∧
        spec = ⟨pairName pair, region0.name, region1.name⟩) ∧
      ∀ pair, pair ∈ table.keys ↔ ∃ segment ∈ segments,
        between (byRegion mesh.regions) segment = true ∧ sides segment = some pair
  drawnContacts : List.Forall₂
    (ContactOf (byRegion mesh.regions) mesh.pointMap (contactOfEdge mesh.contacts))
    ((edgePairs electrodes).filter fun pair => pair.2.regionId ∈ (byRegion mesh.regions).keys)
    contacts
  holds : Buffer.Holds ⟨mesh.elements, mesh.physicalNames⟩ (triangles ++ interfaces ++ contacts)

theorem drawing_of_ok (h : buildDeviceMesh s electrodes gateModel = .ok mesh) :
    ∃ segments triangles interfaces contacts,
      Drawing s electrodes mesh segments triangles interfaces contacts := by
  unfold buildDeviceMesh at h
  obtain ⟨regions, -, h⟩ := bind_eq_ok.mp h
  split at h
  · cases h
  · obtain ⟨coordinates, hcoordinates, h⟩ := bind_eq_ok.mp h
    obtain ⟨first, hfirst, h⟩ := bind_eq_ok.mp h
    obtain ⟨segments, hsegments, h⟩ := bind_eq_ok.mp h
    obtain ⟨⟨second, interfaces⟩, hsecond, h⟩ := bind_eq_ok.mp h
    obtain ⟨third, hthird, h⟩ := bind_eq_ok.mp h
    obtain rfl := Except.ok.inj h
    obtain ⟨-, triangles, allTriangles, holds⟩ := foldlM_emits id (fun _ _ => True)
      (fun _ => true) (TriangleOf (byRegion regions)
        (pointMapOf (keptElements s regions)) coordinates)
      (fun done state item state' _ h => ⟨trivial, Or.inr ⟨rfl, emitTriangle_spec h⟩⟩) []
      hfirst trivial Buffer.holds_nil
    have start : InterfacesInv (byRegion regions) [] (first, ∅) :=
      ⟨by simp, by simp, by simp [Dict.mem_keys]⟩
    obtain ⟨inv, drawn, allInterfaces, holds⟩ := foldlM_emits Prod.fst
      (InterfacesInv (byRegion regions)) (between (byRegion regions))
      (InterfaceOf (pointMapOf (keptElements s regions)))
      (fun done state item state' inv h => emitInterface_spec inv h) [] hsecond start holds
    rw [foldlM_pairs] at hthird
    obtain ⟨-, contacts, allContacts, holds⟩ := foldlM_emits id (fun _ _ => True)
      (fun pair => decide (pair.2.regionId ∈ (byRegion regions).keys))
      (ContactOf (byRegion regions) (pointMapOf (keptElements s regions))
        (contactOfEdge (contactSpecs electrodes (byRegion regions))))
      (fun done state item state' _ h => ⟨trivial, emitContact_spec h⟩) [] hthird
      trivial holds
    refine ⟨segments, triangles, drawn, contacts, hsegments, rfl, hcoordinates, ?_, allInterfaces,
      ?_, ⟨interfaces, rfl, inv.named, fun pair => ⟨inv.sound pair, ?_⟩⟩, allContacts,
      by simpa using holds⟩
    · rw [List.filter_true] at allTriangles
      exact allTriangles
    · intro segment mem kept pair hp
      obtain ⟨spec, found⟩ := Dict.mem_keys.mp (inv.covered segment mem kept pair hp)
      obtain ⟨region0, region1, first, second, rfl⟩ := inv.named pair spec found
      exact ⟨region0, region1, first, second,
        List.mem_map.mpr ⟨(pair, _), Dict.get?_eq_some.mp found, rfl⟩⟩
    · rintro ⟨segment, mem, kept, hp⟩
      exact inv.covered segment mem kept pair hp

/-! ## Names and nodes of the elements -/

/-- The name behind the physical index of an element. -/
def DeviceMesh.nameOf (mesh : DeviceMesh) (record : Record) : Option String :=
  mesh.physicalNames[record.physical.toNat]?

theorem Drawing.nameOf {segments : List Segment} {triangles interfaces contacts : List Drawn}
    (h : Drawing s electrodes mesh segments triangles interfaces contacts) {d : Drawn}
    (mem : d ∈ triangles ++ interfaces ++ contacts) :
    mesh.nameOf (d.record mesh.physicalNames) = some d.name :=
  List.getElem?_idxOf (h.holds.named d mem)

theorem Drawing.decoded {segments : List Segment} {triangles interfaces contacts : List Drawn}
    (h : Drawing s electrodes mesh segments triangles interfaces contacts) :
    iterElements mesh.elements =
      .ok ((triangles ++ interfaces ++ contacts).map (Drawn.record mesh.physicalNames)) := by
  have written : mesh.elements = (triangles ++ interfaces ++ contacts).flatMap
      (Drawn.encode mesh.physicalNames) := h.holds.elements
  rw [written]
  refine iterElements_encode _ fun d hd => ?_
  rcases List.mem_append.mp hd with hd | hd
  · rcases List.mem_append.mp hd with hd | hd
    · obtain ⟨element, -, region, a, b, c, -, -, rfl⟩ := exists_of_mem_right h.drawnTriangles hd
      refine Or.inr ⟨rfl, ?_⟩
      dsimp only
      split <;> rfl
    · obtain ⟨segment, -, pair, a, b, -, -, -, rfl⟩ := exists_of_mem_right h.drawnInterfaces hd
      exact Or.inl ⟨rfl, rfl⟩
  · obtain ⟨pair, -, region, name, a, b, -, -, -, -, rfl⟩ := exists_of_mem_right h.drawnContacts hd
    exact Or.inl ⟨rfl, rfl⟩

theorem get?_contactOfEdge {contacts : List ContactSpec} {electrode region name : String}
    (h : (contactOfEdge contacts).get? (electrode, region) = some name) :
    ∃ contact ∈ contacts, contact.electrode = electrode ∧ contact.region = region ∧
      contact.name = name := by
  rw [contactOfEdge, Dict.get?_ofList] at h
  obtain ⟨entry, found, rfl⟩ := Option.map_eq_some_iff.mp h
  obtain ⟨contact, mem, rfl⟩ :=
    List.mem_map.mp (List.mem_reverse.mp (List.mem_of_find?_eq_some found))
  have same : (contact.electrode, contact.region) = (electrode, region) := by
    simpa using List.find?_some found
  rw [Prod.mk.injEq] at same
  exact ⟨contact, mem, same.1, same.2, rfl⟩

end TcadWebapp.Devsim
