import Mathlib.Data.Sym.Sym2
import TcadWebapp.Devsim.Proofs.Interfaces
import TcadWebapp.Misc.Ranking
import TcadWebapp.StrParser.Renumbering

/-!
# What renumbering leaves of the candidates

Clusters of a renumbered structure are the clusters of the structure, renumbered, in an order of their own.
What each of them touches is the same but for the numbers (`Touch.spot`), and so are the extent, the
materials and the places of its candidate (`Alike`).
-/

namespace TcadWebapp.Devsim

open StrParser

variable {place point : Nat → Nat} {s s' : Structure Rat} {conductors : List String}

/-! ## Clusters -/

theorem conducts_place (h : Renumbers place point s s') {t : Nat} (lt : t < s.elements.length) :
    Conducts s' conductors (place t) ↔ Conducts s conductors t := by
  obtain ⟨element', found', moved⟩ := h.element t _ (List.getElem?_eq_getElem lt)
  constructor
  · rintro ⟨other, there, conducts⟩
    obtain rfl := Option.some.inj (found'.symm.trans there)
    rw [h.materialOfRegion, moved.regionId] at conducts
    exact ⟨_, List.getElem?_eq_getElem lt, conducts⟩
  · rintro ⟨other, there, conducts⟩
    obtain rfl := Option.some.inj ((List.getElem?_eq_getElem lt).symm.trans there)
    refine ⟨element', found', ?_⟩
    rwa [h.materialOfRegion, moved.regionId]

theorem lt_of_conducts {t : Nat} (h : Conducts s conductors t) : t < s.elements.length := by
  obtain ⟨element, found, -⟩ := h
  exact (List.getElem?_eq_some_iff.mp found).1

theorem lt_of_adjacent (paired : Paired s.elements) {t u : Nat} (h : Adjacent s.elements t u) :
    u < s.elements.length := by
  obtain ⟨element, found, mem⟩ := h
  have := paired.inRange element (List.mem_of_getElem? found) u mem
  omega

/-- Entries in range are told apart after renumbering. -/
theorem moveEntry_eq_natCast (h : Renumbers place point s s') {code : Int}
    (inRange : code < s.elements.length) {u : Nat} (lt : u < s.elements.length) :
    moveEntry place code = place u ↔ code = u := by
  constructor
  · intro e
    have pos : 0 ≤ code := by
      by_contra neg
      have := @moveEntry_neg place code
      omega
    rw [moveEntry_of_nonneg pos] at e
    have := h.place_inj code.toNat (by omega) u lt (by omega)
    omega
  · rintro rfl
    exact moveEntry_natCast place u

theorem adjacent_place (paired : Paired s.elements) (h : Renumbers place point s s') {t u : Nat}
    (ht : t < s.elements.length) (hu : u < s.elements.length) :
    Adjacent s'.elements (place t) (place u) ↔ Adjacent s.elements t u := by
  have there := List.getElem?_eq_getElem ht
  obtain ⟨element', found', moved⟩ := h.element t _ there
  have range := paired.inRange _ (List.mem_of_getElem? there)
  constructor
  · rintro ⟨other, found, mem⟩
    obtain rfl := Option.some.inj (found'.symm.trans found)
    rw [moved.neighbors] at mem
    obtain ⟨code, hcode, e⟩ := List.mem_map.mp mem
    rw [moveEntry_eq_natCast h (range code hcode) hu] at e
    exact ⟨_, there, e ▸ hcode⟩
  · rintro ⟨other, found, mem⟩
    obtain rfl := Option.some.inj (there.symm.trans found)
    refine ⟨element', found', ?_⟩
    rw [moved.neighbors]
    exact List.mem_map.mpr ⟨u, mem, moveEntry_natCast place u⟩

theorem joined_place (paired : Paired s.elements) (h : Renumbers place point s s') {t u : Nat}
    (joined : Joined s conductors t u) : Joined s' conductors (place t) (place u) := by
  obtain ⟨start, path⟩ := joined
  have ht := lt_of_conducts start
  refine ⟨(conducts_place h ht).mpr start, ?_⟩
  induction path with
  | refl => exact .refl
  | @tail v w path last ih =>
    have hw := lt_of_conducts last.1
    have hv : v < s.elements.length := by
      obtain ⟨element, found, -⟩ := last.2
      exact (List.getElem?_eq_some_iff.mp found).1
    exact ih.tail ⟨(conducts_place h hw).mpr last.1, (adjacent_place paired h hv hw).mpr last.2⟩

/-- Nothing else is joined after renumbering. -/
theorem exists_of_joined_place (paired : Paired s.elements) (h : Renumbers place point s s') {t w : Nat}
    (ht : t < s.elements.length) (joined : Joined s' conductors (place t) w) :
    ∃ u, w = place u ∧ Joined s conductors t u := by
  obtain ⟨start, path⟩ := joined
  have start := (conducts_place h ht).mp start
  induction path with
  | refl => exact ⟨t, rfl, start, .refl⟩
  | @tail v w path last ih =>
    obtain ⟨u, rfl, joined⟩ := ih
    obtain ⟨u', hu', rfl⟩ := exists_place h.place_lt h.place_inj (h.elements ▸ lt_of_conducts last.1)
    have hu := lt_of_conducts joined.conducts
    exact ⟨u', rfl, joined.1, joined.2.tail
      ⟨(conducts_place h hu').mp last.1, (adjacent_place paired h hu hu').mp last.2⟩⟩

theorem paired_place (paired : Paired s.elements) (h : Renumbers place point s s') :
    Paired s'.elements := by
  refine ⟨?_, ?_⟩
  · intro element' mem code hcode
    obtain ⟨u, found⟩ := List.mem_iff_getElem?.mp mem
    obtain ⟨t, element, rfl, there, moved⟩ := h.exists_element found
    rw [moved.neighbors] at hcode
    obtain ⟨entry, hentry, rfl⟩ := List.mem_map.mp hcode
    have inRange := paired.inRange element (List.mem_of_getElem? there) entry hentry
    rw [h.elements]
    unfold moveEntry
    split
    · exact inRange
    · have := h.place_lt entry.toNat (by omega)
      omega
  · rintro v w adjacent
    obtain ⟨element', found, mem⟩ := adjacent
    obtain ⟨t, element, rfl, there, moved⟩ := h.exists_element found
    have ht := (List.getElem?_eq_some_iff.mp there).1
    rw [moved.neighbors] at mem
    obtain ⟨entry, hentry, e⟩ := List.mem_map.mp mem
    have inRange := paired.inRange element (List.mem_of_getElem? there) entry hentry
    have pos : 0 ≤ entry := by
      by_contra neg
      have := @moveEntry_neg place entry
      omega
    rw [moveEntry_of_nonneg pos] at e
    obtain rfl : w = place entry.toNat := by omega
    have hu : entry.toNat < s.elements.length := by omega
    refine (adjacent_place paired h hu ht).mpr (paired.symmetric t entry.toNat ⟨element, there, ?_⟩)
    rwa [Int.toNat_of_nonneg pos]

theorem wellPlaced_place (well : WellPlaced s) (h : Renumbers place point s s') : WellPlaced s' := by
  refine ⟨?_, paired_place well.paired h, ?_⟩
  · intro element' mem
    obtain ⟨u, found⟩ := List.mem_iff_getElem?.mp mem
    obtain ⟨t, element, rfl, there, moved⟩ := h.exists_element found
    rw [moved.vertices, moved.neighbors, List.length_map, List.length_map]
    exact well.triangles element (List.mem_of_getElem? there)
  · intro element' mem v hv
    obtain ⟨u, found⟩ := List.mem_iff_getElem?.mp mem
    obtain ⟨t, element, rfl, there, moved⟩ := h.exists_element found
    rw [moved.vertices] at hv
    obtain ⟨w, hw, rfl⟩ := List.mem_map.mp hv
    have inside := well.inside element (List.mem_of_getElem? there) w hw
    have := h.point_lt w.toNat (by omega)
    rw [moveEntry_of_nonneg inside.1, h.points]
    omega

/-- `cluster'` is `cluster` after renumbering. -/
def Corresponds (place : Nat → Nat) (n : Nat) (cluster cluster' : List Nat) : Prop :=
  ∀ t < n, t ∈ cluster ↔ place t ∈ cluster'

theorem AreComponents.lt {clusters : List (List Nat)} (are : AreComponents s conductors clusters)
    {cluster : List Nat} (mem : cluster ∈ clusters) {t : Nat} (ht : t ∈ cluster) :
    t < s.elements.length :=
  lt_of_conducts ((are.covers t).mp (List.mem_flatten.mpr ⟨cluster, mem, ht⟩))

/-- Clusters with a common element are one. -/
theorem AreComponents.eq_of_mem {clusters : List (List Nat)} (are : AreComponents s conductors clusters)
    {cluster other : List Nat} (mem : cluster ∈ clusters) (mem' : other ∈ clusters) {t : Nat}
    (ht : t ∈ cluster) (ht' : t ∈ other) : cluster = other := by
  have apart := (List.nodup_flatten.mp are.disjoint).2
  have : Std.Symm (List.Disjoint : List Nat → List Nat → Prop) := ⟨fun _ _ h => h.symm⟩
  by_contra ne
  exact apart.forall mem mem' ne ht ht'

theorem AreComponents.mem_iff_joined {clusters : List (List Nat)}
    (are : AreComponents s conductors clusters) {cluster : List Nat} (mem : cluster ∈ clusters)
    {t u : Nat} (ht : t ∈ cluster) : u ∈ cluster ↔ Joined s conductors t u := by
  constructor
  · exact fun hu => (are.together t u).mp ⟨cluster, mem, ht, hu⟩
  · intro joined
    obtain ⟨other, mem', ht', hu⟩ := (are.together t u).mpr joined
    exact are.eq_of_mem mem mem' ht ht' ▸ hu

theorem AreComponents.nodup {clusters : List (List Nat)} (are : AreComponents s conductors clusters) :
    clusters.Nodup ∧ ∀ cluster ∈ clusters, cluster.Nodup := by
  obtain ⟨each, apart⟩ := List.nodup_flatten.mp are.disjoint
  refine ⟨apart.imp_of_mem fun {cluster other} mem _ disjoint e => ?_, each⟩
  obtain ⟨t, ht⟩ := List.exists_mem_of_ne_nil _ (are.nonempty cluster mem)
  exact disjoint ht (e ▸ ht)

section Components

variable (well : WellPlaced s) (h : Renumbers place point s s') {clusters clusters' : List (List Nat)}
  (are : AreComponents s conductors clusters) (are' : AreComponents s' conductors clusters')

include well h are are'

/-- Clusters that have one element in common after renumbering have all in common. -/
theorem corresponds_of_mem {cluster cluster' : List Nat} (mem : cluster ∈ clusters)
    (mem' : cluster' ∈ clusters') {t : Nat} (ht : t ∈ cluster) (ht' : place t ∈ cluster') :
    Corresponds place s.elements.length cluster cluster' := by
  intro u hu
  rw [are.mem_iff_joined mem ht, are'.mem_iff_joined mem' ht']
  constructor
  · exact joined_place well.paired h
  · intro joined
    obtain ⟨v, e, joined⟩ := exists_of_joined_place well.paired h (are.lt mem ht) joined
    rwa [h.place_inj u hu v (lt_of_conducts joined.conducts) e]

theorem exists_corresponding {cluster : List Nat} (mem : cluster ∈ clusters) :
    ∃ cluster' ∈ clusters', Corresponds place s.elements.length cluster cluster' := by
  obtain ⟨t, ht⟩ := List.exists_mem_of_ne_nil _ (are.nonempty cluster mem)
  have conducts := (are.covers t).mp (List.mem_flatten.mpr ⟨cluster, mem, ht⟩)
  have conducts' : Conducts s' conductors (place t) := (conducts_place h (are.lt mem ht)).mpr conducts
  obtain ⟨cluster', mem', ht'⟩ := List.mem_flatten.mp ((are'.covers _).mpr conducts')
  exact ⟨cluster', mem', corresponds_of_mem well h are are' mem mem' ht ht'⟩

theorem exists_corresponding' {cluster' : List Nat} (mem' : cluster' ∈ clusters') :
    ∃ cluster ∈ clusters, Corresponds place s.elements.length cluster cluster' := by
  obtain ⟨u, hu⟩ := List.exists_mem_of_ne_nil _ (are'.nonempty cluster' mem')
  obtain ⟨t, ht, rfl⟩ := exists_place h.place_lt h.place_inj (h.elements ▸ are'.lt mem' hu)
  have conducts' := (are'.covers _).mp (List.mem_flatten.mpr ⟨cluster', mem', hu⟩)
  obtain ⟨cluster, mem, ht⟩ := List.mem_flatten.mp
    ((are.covers t).mpr ((conducts_place h ht).mp conducts'))
  exact ⟨cluster, mem, corresponds_of_mem well h are are' mem mem' ht hu⟩

/-- What is the same of clusters that correspond is the same of all clusters, but for the order. -/
theorem perm_clusters {γ : Type*} {f f' : List Nat → γ}
    (same : ∀ cluster ∈ clusters, ∀ cluster' ∈ clusters',
      Corresponds place s.elements.length cluster cluster' → f cluster = f' cluster') :
    (clusters.map f).Perm (clusters'.map f') := by
  refine perm_map_of_correspond are.nodup.1 are'.nodup.1
    (fun cluster mem => exists_corresponding well h are are' mem)
    (fun cluster' mem' => exists_corresponding' well h are are' mem') ?_ ?_ same
  · intro cluster mem first mem₁ second mem₂ rel₁ rel₂
    obtain ⟨t, ht⟩ := List.exists_mem_of_ne_nil _ (are.nonempty cluster mem)
    have lt := are.lt mem ht
    exact are'.eq_of_mem mem₁ mem₂ ((rel₁ t lt).mp ht) ((rel₂ t lt).mp ht)
  · intro cluster' mem' first mem₁ second mem₂ rel₁ rel₂
    obtain ⟨u, hu⟩ := List.exists_mem_of_ne_nil _ (are'.nonempty cluster' mem')
    obtain ⟨t, lt, rfl⟩ := exists_place h.place_lt h.place_inj (h.elements ▸ are'.lt mem' hu)
    exact are.eq_of_mem mem₁ mem₂ ((rel₁ t lt).mpr hu) ((rel₂ t lt).mpr hu)

omit well in
theorem perm_of_corresponds {cluster cluster' : List Nat} (mem : cluster ∈ clusters)
    (mem' : cluster' ∈ clusters') (rel : Corresponds place s.elements.length cluster cluster') :
    (cluster.map place).Perm cluster' := by
  refine (List.perm_ext_iff_of_nodup ?_ (are'.nodup.2 cluster' mem')).mpr fun u => ?_
  · refine (are.nodup.2 cluster mem).map_on fun t ht t' ht' e => ?_
    exact h.place_inj t (are.lt mem ht) t' (are.lt mem ht') e
  · constructor
    · intro hu
      obtain ⟨t, ht, rfl⟩ := List.mem_map.mp hu
      exact (rel t (are.lt mem ht)).mp ht
    · intro hu
      obtain ⟨t, lt, rfl⟩ := exists_place h.place_lt h.place_inj (h.elements ▸ are'.lt mem' hu)
      exact List.mem_map_of_mem ((rel t lt).mpr hu)

end Components

/-! ## What a cluster touches -/

/-- Where a point is. -/
def position (s : Structure Rat) (v : Int) : Option (Rat × Rat) :=
  (s.coordinates[v.toNat]?).map fun c => (c.x, c.y)

theorem position_moveEntry (h : Renumbers place point s s') {v : Int} (pos : 0 ≤ v)
    (lt : v < s.coordinates.length) : position s' (moveEntry point v) = position s v := by
  have found := List.getElem?_eq_getElem (by omega : v.toNat < s.coordinates.length)
  obtain ⟨c', found', x, y⟩ := h.coordinate v.toNat _ found
  rw [moveEntry_of_nonneg pos, position, position, Int.toNat_natCast, found, found', Option.map_some,
    Option.map_some, x, y]

/-- The region of an edge, and where it is. -/
abbrev Spot := Int × Option (Rat × Rat) × Option (Rat × Rat)

def ContactEdge.spot (s : Structure Rat) (edge : ContactEdge) : Spot :=
  (edge.regionId, position s edge.vertices.1, position s edge.vertices.2)

def Touch.spot (s : Structure Rat) (t : Touch) : Bool × Bool × Spot :=
  (t.fromGate, t.semiconductor, t.edge.spot s)

theorem ofMaterial_place (h : Renumbers place point s s') (materials : List String) (regionId : Int) :
    ofMaterial s' materials regionId = ofMaterial s materials regionId := by
  rw [ofMaterial, h.materialOfRegion, ofMaterial]

/-- A side gives after renumbering what it gave, but for the numbers. -/
theorem touch_move (well : WellPlaced s) (h : Renumbers place point s s')
    {cluster cluster' : List Nat} (rel : Corresponds place s.elements.length cluster cluster')
    {side : Side} (mem : side ∈ meshSides s.elements) :
    (touch s' conductors cluster' (side.move place point)).map (Touch.spot s') =
      (touch s conductors cluster side).map (Touch.spot s) := by
  obtain ⟨element, found, -, made⟩ := mem_meshSides.mp mem
  obtain ⟨-, -, first, second, -, entry⟩ := Element.side_eq_some.mp made
  have inMesh := List.mem_of_getElem? found
  have inRange := well.paired.inRange element inMesh side.code (List.mem_of_getElem? entry)
  have ha := well.inside element inMesh side.a (List.mem_of_getElem? first)
  have hb := well.inside element inMesh side.b (List.mem_of_getElem? second)
  unfold touch
  by_cases neg : side.code < 0
  · have neg' : (side.move place point).code < 0 := moveEntry_neg.mpr neg
    rw [if_pos (Or.inl neg), if_pos (Or.inl neg')]
    rfl
  have code : (side.move place point).code = place side.code.toNat := moveEntry_of_nonneg (by omega)
  have lt : side.code.toNat < s.elements.length := by omega
  have inside : ((side.move place point).code < 0 ∨ (side.move place point).code.toNat ∈ cluster') ↔
      (side.code < 0 ∨ side.code.toNat ∈ cluster) := by
    rw [code, Int.toNat_natCast, ← rel side.code.toNat lt]
    simp [neg]
  rw [if_congr inside rfl rfl]
  split
  · rfl
  · have there := List.getElem?_eq_getElem lt
    obtain ⟨other', there', moved⟩ := h.element _ _ there
    rw [code, Int.toNat_natCast, there, there']
    simp only [ofMaterial_place h, moved.regionId]
    have spot : ∀ i j : Int, (⟨i, s.elements[side.code.toNat].regionId,
        ((side.move place point).b, (side.move place point).a)⟩ : ContactEdge).spot s' =
        (⟨j, s.elements[side.code.toNat].regionId, (side.b, side.a)⟩ : ContactEdge).spot s := by
      intro i j
      simp only [ContactEdge.spot, Side.move, position_moveEntry h ha.1 ha.2,
        position_moveEntry h hb.1 hb.2]
    have region : (side.move place point).regionId = side.regionId := rfl
    rw [region]
    split
    · rfl
    · split
      · exact congrArg some (congrArg (fun e => (_, _, e)) (spot _ _))
      · split
        · exact congrArg some (congrArg (fun e => (_, _, e)) (spot _ _))
        · rfl

/-- What a cluster touches, but for the numbers and the order. -/
theorem perm_touchesAt (well : WellPlaced s) (h : Renumbers place point s s')
    {cluster cluster' : List Nat} (inside : ∀ t ∈ cluster, t < s.elements.length)
    (perm : (cluster.map place).Perm cluster')
    (rel : Corresponds place s.elements.length cluster cluster') :
    ((touchesAt s' conductors cluster').map (Touch.spot s')).Perm
      ((touchesAt s conductors cluster).map (Touch.spot s)) := by
  have values : ((cluster.map place).flatMap fun u =>
      (sidesAt s'.elements u).filterMap (touch s' conductors cluster')).map (Touch.spot s') =
      (touchesAt s conductors cluster).map (Touch.spot s) := by
    rw [touchesAt, List.flatMap_map, List.map_flatMap, List.map_flatMap]
    refine List.flatMap_congr fun t ht => ?_
    rw [h.sidesAt (inside t ht), List.map_filterMap, List.map_filterMap, List.filterMap_map]
    exact List.filterMap_congr fun side hside => touch_move well h rel (mem_sidesAt.mp hside).1
  rw [← values]
  exact (perm.symm.flatMap_right _).map _

/-- Those that meet a condition, and all where none does. -/
def prefer {α : Type*} (p : α → Bool) (l : List α) : List α :=
  if l.filter p = [] then l else l.filter p

theorem map_prefer {α β : Type*} (f : α → β) (q : β → Bool) (l : List α) :
    (prefer (fun a => q (f a)) l).map f = prefer q (l.map f) := by
  have kept : (l.map f).filter q = (l.filter fun a => q (f a)).map f := List.filter_map
  unfold prefer
  simp only [kept, List.map_eq_nil_iff]
  split <;> rfl

theorem perm_prefer {α : Type*} {p : α → Bool} {l l' : List α} (perm : l.Perm l') :
    (prefer p l).Perm (prefer p l') := by
  have kept := perm.filter p
  have none_ : l.filter p = [] ↔ l'.filter p = [] :=
    ⟨fun e => (e ▸ kept).symm.eq_nil, fun e => (e ▸ kept).eq_nil⟩
  unfold prefer
  rw [if_congr none_ rfl rfl]
  split
  · exact perm
  · exact kept

theorem select_eq_prefer (touches : List Touch) :
    select touches = prefer Touch.fromGate (prefer Touch.semiconductor touches) := by
  have chosen : (if touches.filter Touch.semiconductor = [] then
      touches.filter (fun t => !t.semiconductor) else touches.filter Touch.semiconductor) =
      prefer Touch.semiconductor touches := by
    unfold prefer
    split
    · rename_i none_
      refine List.filter_eq_self.mpr fun t ht => ?_
      simpa using List.filter_eq_nil_iff.mp none_ t ht
    · rfl
  unfold select
  dsimp only
  rw [chosen]
  rfl

/-- What is kept of what a cluster touches, but for the numbers and the order. -/
theorem perm_select {touches touches' : List Touch}
    (perm : (touches'.map (Touch.spot s')).Perm (touches.map (Touch.spot s))) :
    ((select touches').map (Touch.spot s')).Perm ((select touches).map (Touch.spot s)) := by
  have spots : ∀ (s : Structure Rat) (touches : List Touch), (select touches).map (Touch.spot s) =
      prefer (fun spot => spot.1) (prefer (fun spot => spot.2.1) (touches.map (Touch.spot s))) := by
    intro s touches
    rw [select_eq_prefer, ← map_prefer, ← map_prefer]
    rfl
  rw [spots, spots]
  exact perm_prefer (perm_prefer perm)

/-! ## Candidates -/

/-- `c'` is `c` after renumbering. -/
structure Alike (s s' : Structure Rat) (c c' : Candidate) : Prop where
  extent : c'.extent = c.extent
  kind : c'.kind = c.kind
  materials : c'.materials = c.materials
  edges : (c'.edges.map (ContactEdge.spot s')).Perm (c.edges.map (ContactEdge.spot s))

theorem map_some_of_forall₂ {α β : Type*} {f : α → Option β} {l : List α} {r : List β}
    (h : List.Forall₂ (fun a b => f a = some b) l r) : r.map some = l.map f := by
  induction h with
  | nil => rfl
  | cons head _ ih => rw [List.map_cons, List.map_cons, head, ih]

theorem perm_of_map_some {α : Type*} {l l' : List α} (h : (l.map some).Perm (l'.map some)) :
    l.Perm l' :=
  (List.map_perm_map_iff (Option.some_injective α)).mp h

theorem touchedMaterials_alike (regions : s'.materialOfRegion = s.materialOfRegion)
    {edges edges' : List ContactEdge} {materials materials' : List String}
    (perm : (edges'.map (ContactEdge.spot s')).Perm (edges.map (ContactEdge.spot s)))
    (found : touchedMaterials s edges = .ok materials)
    (found' : touchedMaterials s' edges' = .ok materials') : materials' = materials := by
  have collected : ∀ {s : Structure Rat} {edges : List ContactEdge} {materials : List String},
      touchedMaterials s edges = .ok materials →
      ∃ all : List String, materials = all.dedup.insertionSort (· ≤ ·) ∧
        all.map some = (edges.map (ContactEdge.spot s)).map fun spot => s.materialOfRegion.get? spot.1 := by
    intro s edges materials found
    obtain ⟨all, each, found⟩ := bind_eq_ok.mp found
    refine ⟨all, (Except.ok.inj found).symm, ?_⟩
    rw [List.map_map]
    refine map_some_of_forall₂ ((mapM_eq_ok.mp each).imp fun edge material made => ?_)
    dsimp only [Function.comp_apply, ContactEdge.spot]
    split at made
    · rename_i there
      rw [there, Except.ok.inj made]
    · cases made
  obtain ⟨all, rfl, values⟩ := collected found
  obtain ⟨all', rfl, values'⟩ := collected found'
  rw [regions] at values'
  have same : all'.Perm all := perm_of_map_some (values ▸ values' ▸ perm.map _)
  refine List.Perm.eq_of_pairwise' (List.pairwise_insertionSort _ _) (List.pairwise_insertionSort _ _) ?_
  exact (List.perm_insertionSort _ _).trans (same.dedup.trans (List.perm_insertionSort _ _).symm)

theorem minOf_eq (xs : List Rat) : minOf xs =
    match xs.min? with
    | some m => .ok m
    | none => .error (.valueError "min() iterable argument is empty") := by
  cases xs <;> rfl

theorem maxOf_eq (xs : List Rat) : maxOf xs =
    match xs.max? with
    | some m => .ok m
    | none => .error (.valueError "max() iterable argument is empty") := by
  cases xs <;> rfl

theorem minOf_perm {xs xs' : List Rat} (perm : xs'.Perm xs) : minOf xs' = minOf xs := by
  have same : xs'.min? = xs.min? := by
    refine Option.ext fun m => ?_
    simp only [List.min?_eq_some_iff, perm.mem_iff]
  rw [minOf_eq, minOf_eq, same]

theorem maxOf_perm {xs xs' : List Rat} (perm : xs'.Perm xs) : maxOf xs' = maxOf xs := by
  have same : xs'.max? = xs.max? := by
    refine Option.ext fun m => ?_
    simp only [List.max?_eq_some_iff, perm.mem_iff]
  rw [maxOf_eq, maxOf_eq, same]

/-- The extent of edges in range, from where their ends are. -/
theorem extentOf_eq {edges : List ContactEdge} {extent : Extent} (inside : ∀ edge ∈ edges,
    0 ≤ edge.vertices.1 ∧ 0 ≤ edge.vertices.2) (found : extentOf s edges = .ok extent) :
    ∃ points : List (Rat × Rat), points.map some =
        (edges.map (ContactEdge.spot s)).flatMap (fun spot => [spot.2.1, spot.2.2]) ∧
      minOf (points.map Prod.fst) = .ok extent.xMin ∧ maxOf (points.map Prod.fst) = .ok extent.xMax ∧
      minOf (points.map Prod.snd) = .ok extent.yMin ∧
      maxOf (points.map Prod.snd) = .ok extent.yMax := by
  obtain ⟨points, each, found⟩ := bind_eq_ok.mp found
  obtain ⟨xMin, hxMin, found⟩ := bind_eq_ok.mp found
  obtain ⟨xMax, hxMax, found⟩ := bind_eq_ok.mp found
  obtain ⟨yMin, hyMin, found⟩ := bind_eq_ok.mp found
  obtain ⟨yMax, hyMax, found⟩ := bind_eq_ok.mp found
  obtain rfl := Except.ok.inj found
  refine ⟨points.map fun c => (c.x, c.y), ?_, ?_, ?_, ?_, ?_⟩
  · have ends : ∀ v ∈ edges.flatMap fun edge => [edge.vertices.1, edge.vertices.2], 0 ≤ v := by
      intro v hv
      obtain ⟨edge, he, mem⟩ := List.mem_flatMap.mp hv
      have := inside edge he
      simp only [List.mem_cons, List.not_mem_nil, or_false] at mem
      rcases mem with rfl | rfl
      · exact this.1
      · exact this.2
    have positions : points.map (fun c => some (c.x, c.y)) =
        (edges.flatMap fun edge => [edge.vertices.1, edge.vertices.2]).map (position s) := by
      have each := forall₂_imp_of_mem (mapM_eq_ok.mp each).flip (S := fun c v =>
        position s v = some (c.x, c.y)) fun c v hv made => by
          rw [position, (index_of_nonneg (ends v hv)).mp made]
          rfl
      have flipped := map_some_of_forall₂ (List.forall₂_map_right_iff.mpr each.flip :
        List.Forall₂ (fun v p => position s v = some p) _ (points.map fun c => (c.x, c.y)))
      rwa [List.map_map] at flipped
    rw [List.map_map, List.flatMap_map]
    refine positions.trans ?_
    rw [List.map_flatMap]
    rfl
  · rwa [List.map_map]
  · rwa [List.map_map]
  · rwa [List.map_map]
  · rwa [List.map_map]

theorem extentOf_alike {edges edges' : List ContactEdge} {extent extent' : Extent}
    (inside : ∀ edge ∈ edges, 0 ≤ edge.vertices.1 ∧ 0 ≤ edge.vertices.2)
    (inside' : ∀ edge ∈ edges', 0 ≤ edge.vertices.1 ∧ 0 ≤ edge.vertices.2)
    (perm : (edges'.map (ContactEdge.spot s')).Perm (edges.map (ContactEdge.spot s)))
    (found : extentOf s edges = .ok extent) (found' : extentOf s' edges' = .ok extent') :
    extent' = extent := by
  obtain ⟨points, values, xMin, xMax, yMin, yMax⟩ := extentOf_eq inside found
  obtain ⟨points', values', xMin', xMax', yMin', yMax'⟩ := extentOf_eq inside' found'
  have same : points'.Perm points := perm_of_map_some (values ▸ values' ▸ perm.flatMap_right _)
  rw [minOf_perm (same.map _), xMin] at xMin'
  rw [maxOf_perm (same.map _), xMax] at xMax'
  rw [minOf_perm (same.map _), yMin] at yMin'
  rw [maxOf_perm (same.map _), yMax] at yMax'
  cases extent
  cases extent'
  simp only [Except.ok.injEq] at xMin' xMax' yMin' yMax'
  rw [xMin', xMax', yMin', yMax']

/-- Where edges are: the pairs of their ends, whichever way they are walked. -/
def places (s : Structure Rat) (edges : List ContactEdge) : Set (Sym2 (Rat × Rat)) :=
  {place | ∃ edge ∈ edges, ∃ a b, position s edge.vertices.1 = some a ∧
    position s edge.vertices.2 = some b ∧ place = Sym2.mk a b}

theorem places_subset {edges edges' : List ContactEdge}
    (subset : (edges.map (ContactEdge.spot s)) ⊆ (edges'.map (ContactEdge.spot s'))) :
    places s edges ⊆ places s' edges' := by
  rintro place ⟨edge, he, a, b, ha, hb, rfl⟩
  obtain ⟨edge', he', same⟩ := List.mem_map.mp (subset (List.mem_map_of_mem he))
  obtain ⟨-, first, second⟩ := by simpa only [ContactEdge.spot, Prod.mk.injEq] using same
  exact ⟨edge', he', a, b, first.trans ha, second.trans hb, rfl⟩

/-- What decides the name of a candidate, and where it is. -/
def Candidate.view (s : Structure Rat) (c : Candidate) : Bool × Rat × Set (Sym2 (Rat × Rat)) :=
  (c.looksLikeGate, c.center, places s c.edges)

theorem Alike.view {c c' : Candidate} (h : Alike s s' c c') : c'.view s' = c.view s := by
  have here : places s' c'.edges = places s c.edges :=
    (places_subset h.edges.subset).antisymm (places_subset h.edges.symm.subset)
  rw [Candidate.view, Candidate.view, Candidate.looksLikeGate, Candidate.looksLikeGate,
    Candidate.center, Candidate.center, h.kind, h.materials, h.extent, here]

/-- The ends of what a cluster touches are no negative numbers. -/
theorem nonneg_of_touch (well : WellPlaced s) {cluster : List Nat} {edges : List ContactEdge}
    (given : contactEdgesOfCluster s cluster conductors = .ok edges) :
    ∀ edge ∈ edges, 0 ≤ edge.vertices.1 ∧ 0 ≤ edge.vertices.2 := by
  intro edge he
  obtain ⟨element, mem, touch⟩ := contactEdgesOfCluster_edge given he
  obtain ⟨slot, neighbor, other, a, b, -, -, -, vertices, rfl⟩ := touch.touches
  obtain ⟨ha, hb⟩ := edgeVertices_mem vertices
  exact ⟨(well.inside element mem b hb).1, (well.inside element mem a ha).1⟩

/-- Clusters that correspond have candidates that are alike. -/
theorem candidateOf_alike (well : WellPlaced s) (h : Renumbers place point s s')
    {cluster cluster' : List Nat} (inside : ∀ t ∈ cluster, t < s.elements.length)
    (perm : (cluster.map place).Perm cluster')
    (rel : Corresponds place s.elements.length cluster cluster') {candidate candidate' : Option Candidate}
    (made : candidateOf s conductors cluster = .ok candidate)
    (made' : candidateOf s' conductors cluster' = .ok candidate') :
    candidate'.map (Candidate.view s') = candidate.map (Candidate.view s) := by
  have well' := wellPlaced_place well h
  obtain ⟨edges, given, made⟩ := bind_eq_ok.mp made
  obtain ⟨edges', given', made'⟩ := bind_eq_ok.mp made'
  have spots : (edges'.map (ContactEdge.spot s')).Perm (edges.map (ContactEdge.spot s)) := by
    have touched : ((touchesAt s' conductors cluster').map (Touch.spot s')).Perm
        ((touchesAt s conductors cluster).map (Touch.spot s)) := perm_touchesAt well h inside perm rel
    have chosen := (perm_select touched).map fun spot => spot.2.2
    rw [List.map_map, List.map_map] at chosen
    rw [contactEdgesOfCluster_eq well.triangles given, contactEdgesOfCluster_eq well'.triangles given',
      List.map_map, List.map_map]
    exact chosen
  have none_ : edges' = [] ↔ edges = [] := by
    rw [← List.map_eq_nil_iff (f := ContactEdge.spot s'), ← List.map_eq_nil_iff (f := ContactEdge.spot s)]
    exact ⟨fun e => (e ▸ spots).symm.eq_nil, fun e => (e ▸ spots).eq_nil⟩
  rw [if_congr none_ rfl rfl] at made'
  split at made
  · rename_i nothing
    rw [if_pos nothing] at made'
    obtain rfl := Except.ok.inj made
    obtain rfl := Except.ok.inj made'
    rfl
  · rename_i something
    rw [if_neg something] at made'
    obtain ⟨materials, touched, made⟩ := bind_eq_ok.mp made
    obtain ⟨extent, measured, made⟩ := bind_eq_ok.mp made
    obtain ⟨materials', touched', made'⟩ := bind_eq_ok.mp made'
    obtain ⟨extent', measured', made'⟩ := bind_eq_ok.mp made'
    obtain rfl := Except.ok.inj made
    obtain rfl := Except.ok.inj made'
    obtain rfl := touchedMaterials_alike h.materialOfRegion spots touched touched'
    obtain rfl := extentOf_alike (nonneg_of_touch well given) (nonneg_of_touch well' given') spots
      measured measured'
    exact congrArg some (Alike.view ⟨rfl, rfl, rfl, spots⟩)

/-- The candidates of a renumbered structure are the candidates of the structure, in an order of their
own. -/
theorem perm_candidates (well : WellPlaced s) (h : Renumbers place point s s')
    {clusters clusters' : List (List Nat)} {candidates candidates' : List (Option Candidate)}
    (are : AreComponents s conductors clusters) (are' : AreComponents s' conductors clusters')
    (made : List.Forall₂ (fun cluster c => candidateOf s conductors cluster = .ok c) clusters candidates)
    (made' : List.Forall₂ (fun cluster c => candidateOf s' conductors cluster = .ok c) clusters'
      candidates') :
    ((candidates'.filterMap id).map (Candidate.view s')).Perm
      ((candidates.filterMap id).map (Candidate.view s)) := by
  -- The candidate of a cluster as a value of the cluster.
  have values : ∀ {s : Structure Rat} {clusters : List (List Nat)} {candidates : List (Option Candidate)},
      List.Forall₂ (fun cluster c => candidateOf s conductors cluster = .ok c) clusters candidates →
      (candidates.filterMap id).map (Candidate.view s) = (clusters.map fun cluster =>
        (candidateOf s conductors cluster).toOption.join.map (Candidate.view s)).filterMap id := by
    intro s clusters candidates made
    induction made with
    | nil => rfl
    | @cons cluster candidate clusters candidates head _ ih =>
      rw [List.map_cons, head]
      cases candidate with
      | none => exact ih
      | some c => exact congrArg (c.view s :: ·) ih
  rw [values made, values made']
  refine List.Perm.filterMap _ (perm_clusters well h are are' fun cluster mem cluster' mem' rel => ?_).symm
  obtain ⟨candidate, -, head⟩ := exists_of_mem_left made mem
  obtain ⟨candidate', -, head'⟩ := exists_of_mem_left made' mem'
  rw [head, head']
  exact (candidateOf_alike well h (fun t ht => are.lt mem ht)
    (perm_of_corresponds h are are' mem mem' rel) rel head head').symm

end TcadWebapp.Devsim
