import Mathlib.Tactic.FieldSimp
import Mathlib.Tactic.Linarith
import Mathlib.Tactic.Ring
import TcadWebapp.Misc.Ranking
import TcadWebapp.Plotting.Profile

/-!
# A vertical cut is complete and sound

The points of a cut are the places at which the line meets the edges of the elements, one for each
rounded depth and material, in the order of their depths.
-/

namespace TcadWebapp.Plotting

open StrParser Devsim Remesh

/-! ## The order of the points -/

variable {points : List ProfilePoint}

theorem get?_byDepth (points : List ProfilePoint) (depth : Rat) :
    (byDepth points).get? depth = if (points.filter fun p => p.depth = depth) = [] then none
      else some (points.filter fun p => p.depth = depth) := by
  have groups := Dict.get?_foldl_group ProfilePoint.depth id points ∅ depth
  rwa [Dict.get?_empty, Option.getD_none, List.nil_append, List.map_id] at groups

/-- The points of one depth. -/
theorem getD_byDepth (points : List ProfilePoint) (depth : Rat) :
    ((byDepth points).get? depth).getD [] = points.filter fun p => p.depth = depth := by
  rw [get?_byDepth]
  split
  · rename_i none
    rw [none]
    rfl
  · rfl

theorem mem_depths {depth : Rat} :
    depth ∈ (byDepth points).keys.insertionSort (· ≤ ·) ↔ ∃ p ∈ points, p.depth = depth := by
  rw [(List.perm_insertionSort _ _).mem_iff, Dict.mem_keys, get?_byDepth]
  split
  · rename_i none
    rw [List.filter_eq_nil_iff] at none
    simpa using none
  · rename_i some
    simpa [List.filter_eq_nil_iff] using some

theorem depths_rising (points : List ProfilePoint) :
    ((byDepth points).keys.insertionSort (· ≤ ·)).Pairwise (· < ·) := by
  have sorted := List.pairwise_insertionSort (· ≤ ·) (byDepth points).keys
  have nodup : ((byDepth points).keys.insertionSort (· ≤ ·)).Nodup :=
    (List.perm_insertionSort _ _).nodup_iff.mpr (byDepth points).nodup
  exact (sorted.and nodup).imp fun both => lt_of_le_of_ne both.1 both.2

/-- The step adds the points of the depth, those that go on with the last material first. -/
theorem stackGroup_spec (ordered group : List ProfilePoint) : ∃ stacked,
    stackGroup ordered group = ordered ++ stacked ∧ stacked.Perm group ∧
      stacked.Pairwise fun p q => stackKey (ordered.getLast?.map ProfilePoint.material) p ≤
        stackKey (ordered.getLast?.map ProfilePoint.material) q := by
  unfold stackGroup
  split
  · rename_i one
    obtain ⟨p, rfl⟩ := List.length_eq_one_iff.mp one
    exact ⟨[p], rfl, List.Perm.refl _, List.pairwise_singleton _ _⟩
  · exact ⟨_, rfl, List.perm_insertionSort _ _, pairwise_sort_key group⟩

/-- Where the loop stands: `depths` are still to come. -/
structure Stacked (points ordered : List ProfilePoint) (depths : List Rat) : Prop where
  rising : depths.Pairwise (· < ·)
  above : ∀ p ∈ ordered, p ∈ points ∧ ∀ depth ∈ depths, p.depth < depth
  every : ∀ p ∈ points, p ∈ ordered ∨ p.depth ∈ depths

theorem mem_stackGroup {ordered : List ProfilePoint} {depth : Rat} {p : ProfilePoint} :
    p ∈ stackGroup ordered (points.filter fun p => p.depth = depth) ↔
      p ∈ ordered ∨ p ∈ points ∧ p.depth = depth := by
  obtain ⟨stacked, added, perm, -⟩ := stackGroup_spec ordered (points.filter fun p => p.depth = depth)
  rw [added, List.mem_append, perm.mem_iff, List.mem_filter, decide_eq_true_eq]

theorem Stacked.step {ordered : List ProfilePoint} {depth : Rat} {depths : List Rat}
    (h : Stacked points ordered (depth :: depths)) :
    Stacked points (stackGroup ordered (points.filter fun p => p.depth = depth)) depths := by
  obtain ⟨next, rising⟩ := List.pairwise_cons.mp h.rising
  constructor
  · exact rising
  · intro p mem
    rcases mem_stackGroup.mp mem with done | ⟨given, rfl⟩
    · exact ⟨(h.above p done).1, fun d hd => (h.above p done).2 d (List.mem_cons_of_mem _ hd)⟩
    · exact ⟨given, next⟩
  · intro p mem
    rw [mem_stackGroup]
    rcases h.every p mem with done | coming
    · exact Or.inl (Or.inl done)
    · rcases List.mem_cons.mp coming with now | later
      · exact Or.inl (Or.inr ⟨mem, now⟩)
      · exact Or.inr later

/-- What each step of the loop keeps holds of the result. -/
theorem orderedByStack_induction {P : List ProfilePoint → Prop} (start : P [])
    (step : ∀ ordered depth depths, Stacked points ordered (depth :: depths) → P ordered →
      P (stackGroup ordered (points.filter fun p => p.depth = depth))) : P (orderedByStack points) := by
  have run : ∀ depths ordered, Stacked points ordered depths → P ordered →
      P (depths.foldl (fun ordered depth =>
        stackGroup ordered (((byDepth points).get? depth).getD [])) ordered) := by
    intro depths
    induction depths with
    | nil => exact fun ordered _ h => h
    | cons depth depths ih =>
      intro ordered stacked h
      rw [List.foldl_cons, getD_byDepth]
      exact ih _ stacked.step (step ordered depth depths stacked h)
  refine run _ [] ⟨depths_rising points, by simp, fun p mem => Or.inr ?_⟩ start
  exact mem_depths.mpr ⟨p, mem, rfl⟩

theorem pairwise_orderedByStack (points : List ProfilePoint) :
    (orderedByStack points).Pairwise fun p q => p.depth ≤ q.depth := by
  refine orderedByStack_induction List.Pairwise.nil ?_
  intro ordered depth depths stacked sorted
  obtain ⟨added, e, perm, -⟩ := stackGroup_spec ordered (points.filter fun p => p.depth = depth)
  have now : ∀ p ∈ added, p.depth = depth := fun p mem => by
    simpa using List.of_mem_filter (perm.mem_iff.mp mem)
  rw [e, List.pairwise_append]
  refine ⟨sorted, ?_, ?_⟩
  · refine List.pairwise_of_forall_mem_list fun p hp q hq => ?_
    exact (now p hp).le.trans (now q hq).ge
  · intro p hp q hq
    rw [now q hq]
    exact ((stacked.above p hp).2 depth List.mem_cons_self).le

theorem orderedByStack_perm (points : List ProfilePoint) : (orderedByStack points).Perm points := by
  have run : ∀ (depths : List Rat) (ordered : List ProfilePoint),
      (depths.foldl (fun ordered depth =>
        stackGroup ordered (((byDepth points).get? depth).getD [])) ordered).Perm
      (ordered ++ depths.flatMap fun depth => points.filter fun p => p.depth = depth) := by
    intro depths
    induction depths with
    | nil => simp
    | cons depth depths ih =>
      intro ordered
      obtain ⟨added, e, perm, -⟩ := stackGroup_spec ordered (points.filter fun p => p.depth = depth)
      rw [List.foldl_cons, getD_byDepth, e]
      refine (ih _).trans ?_
      rw [List.append_assoc, List.flatMap_cons]
      exact (perm.append_right _).append_left _
  have distinct := (depths_rising points).imp fun lt => ne_of_lt lt
  exact (run _ []).trans (perm_flatMap_filter distinct fun p mem => mem_depths.mpr ⟨p, mem, rfl⟩)

/-! ## Where an edge meets the line -/

/-- An edge meets the line at the depth, with the value that varies linearly along it. An edge along
the line meets it with its ends. -/
def Meets (start stop : Corner) (x depth value : Rat) : Prop :=
  ∃ t, 0 ≤ t ∧ t ≤ 1 ∧ start.1.x + t * (stop.1.x - start.1.x) = x ∧
    (start.1.x = stop.1.x → t = 0 ∨ t = 1) ∧
    depth = start.1.y + t * (stop.1.y - start.1.y) ∧ value = start.2 + t * (stop.2 - start.2)

section Meets

variable {start stop : Corner} {x depth value : Rat}

theorem meets_along (hs : start.1.x = x) (he : stop.1.x = x) : Meets start stop x depth value ↔
    (depth = start.1.y ∧ value = start.2) ∨ (depth = stop.1.y ∧ value = stop.2) := by
  unfold Meets
  constructor
  · rintro ⟨t, -, -, -, ends, rfl, rfl⟩
    rcases ends (hs.trans he.symm) with rfl | rfl
    · exact Or.inl (by simp)
    · exact Or.inr (by simp)
  · intro h
    rcases h with ⟨rfl, rfl⟩ | ⟨rfl, rfl⟩
    · exact ⟨0, by simp [hs]⟩
    · exact ⟨1, by simp [he]⟩

theorem meets_at_start (hs : start.1.x = x) (he : stop.1.x ≠ x) : Meets start stop x depth value ↔
    depth = start.1.y ∧ value = start.2 := by
  unfold Meets
  constructor
  · rintro ⟨t, -, -, on, -, rfl, rfl⟩
    have none : t * (stop.1.x - x) = 0 := by rw [hs] at on; linarith
    obtain rfl := (mul_eq_zero.mp none).resolve_right (sub_ne_zero.mpr he)
    simp
  · rintro ⟨rfl, rfl⟩
    exact ⟨0, by simp [hs]⟩

theorem meets_at_stop (hs : start.1.x ≠ x) (he : stop.1.x = x) : Meets start stop x depth value ↔
    depth = stop.1.y ∧ value = stop.2 := by
  unfold Meets
  constructor
  · rintro ⟨t, -, -, on, -, rfl, rfl⟩
    have none : (1 - t) * (start.1.x - x) = 0 := by rw [he] at on; linarith
    have last := (mul_eq_zero.mp none).resolve_right (sub_ne_zero.mpr hs)
    obtain rfl : t = 1 := (sub_eq_zero.mp last).symm
    simp
  · rintro ⟨rfl, rfl⟩
    exact ⟨1, by simp [he]⟩

/-- An edge with both ends on one side of the line does not meet it. -/
theorem not_meets (hs : start.1.x - x ≠ 0) (he : stop.1.x - x ≠ 0)
    (same : (0 < start.1.x - x) = (0 < stop.1.x - x)) : ¬ Meets start stop x depth value := by
  rintro ⟨t, low, high, on, -⟩
  have mixed : (1 - t) * (start.1.x - x) + t * (stop.1.x - x) = 0 := by linarith
  by_cases pos : 0 < start.1.x - x
  · have pos' : 0 < stop.1.x - x := same ▸ pos
    nlinarith [mul_nonneg (sub_nonneg.mpr high) pos.le, mul_nonneg low pos'.le]
  · have neg' : ¬ 0 < stop.1.x - x := same ▸ pos
    have neg := lt_of_le_of_ne (not_lt.mp pos) hs
    have neg' := lt_of_le_of_ne (not_lt.mp neg') he
    nlinarith [mul_nonneg (sub_nonneg.mpr high) (neg_nonneg.mpr neg.le),
      mul_nonneg low (neg_nonneg.mpr neg'.le)]

/-- An edge with its ends on both sides meets the line once. -/
theorem meets_between (hs : start.1.x - x ≠ 0)
    (other : (0 < start.1.x - x) ≠ (0 < stop.1.x - x)) {t : Rat}
    (ht : t = (start.1.x - x) / (start.1.x - x - (stop.1.x - x))) : Meets start stop x depth value ↔
      depth = start.1.y + t * (stop.1.y - start.1.y) ∧ value = start.2 + t * (stop.2 - start.2) := by
  have differ : start.1.x - x - (stop.1.x - x) ≠ 0 := fun zero =>
    other (by rw [sub_eq_zero.mp zero])
  have times : t * (start.1.x - x - (stop.1.x - x)) = start.1.x - x := by
    rw [ht, div_mul_cancel₀ _ differ]
  constructor
  · rintro ⟨t', -, -, on, -, rfl, rfl⟩
    have zero : (t' - t) * (start.1.x - x - (stop.1.x - x)) = 0 := by linarith
    obtain rfl := sub_eq_zero.mp ((mul_eq_zero.mp zero).resolve_right differ)
    exact ⟨rfl, rfl⟩
  · rintro ⟨rfl, rfl⟩
    have inside : 0 ≤ t ∧ t ≤ 1 := by
      by_cases pos : 0 < start.1.x - x
      · have neg' : stop.1.x - x ≤ 0 := not_lt.mp fun pos' => other (by simp [pos, pos'])
        have wide : 0 < start.1.x - x - (stop.1.x - x) := by linarith
        rw [ht, div_le_one wide]
        exact ⟨div_nonneg pos.le wide.le, by linarith⟩
      · have pos' : 0 < stop.1.x - x := by
          by_contra neg'
          exact other (by simp [pos, neg'])
        have neg := lt_of_le_of_ne (not_lt.mp pos) hs
        have wide : start.1.x - x - (stop.1.x - x) < 0 := by linarith
        rw [ht, div_le_one_of_neg wide]
        exact ⟨div_nonneg_of_nonpos neg.le wide.le, by linarith⟩
    refine ⟨t, inside.1, inside.2, by linarith, ?_, rfl, rfl⟩
    intro same
    exact absurd (by rw [same, sub_self]) differ

theorem mem_edgeCrossings {material : String} {p : ProfilePoint} :
    p ∈ edgeCrossings start stop x material ↔ p.material = material ∧ Meets start stop x p.depth p.value := by
  obtain ⟨depth, value, m⟩ := p
  unfold edgeCrossings
  simp only
  by_cases hs : start.1.x - x = 0
  · rw [if_pos (Or.inl hs), if_pos hs]
    by_cases he : stop.1.x - x = 0
    · rw [if_pos he, meets_along (sub_eq_zero.mp hs) (sub_eq_zero.mp he)]
      simp
      tauto
    · rw [if_neg he, meets_at_start (sub_eq_zero.mp hs) (sub_ne_zero.mp he)]
      simp
      tauto
  · by_cases he : stop.1.x - x = 0
    · rw [if_pos (Or.inr he), if_neg hs, if_pos he,
        meets_at_stop (sub_ne_zero.mp hs) (sub_eq_zero.mp he)]
      simp
      tauto
    · rw [if_neg (not_or.mpr ⟨hs, he⟩)]
      by_cases same : (0 < start.1.x - x) = (0 < stop.1.x - x)
      · simp [same, not_meets hs he same]
      · rw [if_neg same, meets_between hs same rfl]
        simp
        tauto

end Meets

/-! ## The points of an element -/

/-- The corners of an element with their values on the side of its material. -/
def CornersOf (s : Structure Rat) (quantity : String) (materialId : Int) (vertices : List Int)
    (corners : List Corner) : Prop :=
  List.Forall₂ (fun vertex corner => index s.coordinates vertex = .ok corner.1 ∧
    valueAt s quantity materialId vertex = .ok corner.2) vertices corners

/-- The line meets an edge of an element that has rows at all its corners. -/
def OnElement (s : Structure Rat) (x : Rat) (quantity : String) (element : Element) (p : ProfilePoint) : Prop :=
  ∃ region corners, lookup (regionOf s) element.regionId = .ok region ∧ region.material = p.material ∧
    CornersOf s quantity region.materialId element.vertices corners ∧
    ∃ edge ∈ edges corners, Meets edge.1 edge.2 x p.depth p.value

variable {s : Structure Rat} {x : Rat} {quantity : String}

theorem cornersOf_zip {materialId : Int} {vertices : List Int} {coordinates : List (Coordinate Rat)}
    {values : List Rat} (found : vertices.mapM (index s.coordinates) = .ok coordinates)
    (read : vertices.mapM (valueAt s quantity materialId) = .ok values) :
    CornersOf s quantity materialId vertices (coordinates.zip values) := by
  rw [mapM_eq_ok] at found read
  unfold CornersOf
  induction found generalizing values with
  | nil => cases read; exact List.Forall₂.nil
  | cons first _ ih =>
    cases read with
    | cons value rest => exact List.Forall₂.cons ⟨first, value⟩ (ih rest)

theorem CornersOf.unique {materialId : Int} {vertices : List Int} {corners corners' : List Corner}
    (h : CornersOf s quantity materialId vertices corners)
    (h' : CornersOf s quantity materialId vertices corners') : corners = corners' := by
  unfold CornersOf at h h'
  induction h generalizing corners' with
  | nil => cases h'; rfl
  | cons first _ ih =>
    cases h' with
    | cons first' rest =>
      rw [ih rest, Prod.ext (Except.ok.inj (first.1.symm.trans first'.1))
        (Except.ok.inj (first.2.symm.trans first'.2))]

theorem CornersOf.values {materialId : Int} {vertices : List Int} {corners : List Corner}
    (h : CornersOf s quantity materialId vertices corners) :
    vertices.mapM (valueAt s quantity materialId) = .ok (corners.map Prod.snd) := by
  rw [mapM_eq_ok, List.forall₂_map_right_iff]
  exact h.imp fun _ _ both => both.2

theorem mem_elementPoints {element : Element} {points : List ProfilePoint}
    (read : elementPoints s x quantity element = .ok points) {p : ProfilePoint} :
    p ∈ points ↔ OnElement s x quantity element p := by
  unfold elementPoints at read
  obtain ⟨region, hregion, read⟩ := bind_eq_ok.mp read
  unfold OnElement
  rw [hregion]
  cases hvalues : element.vertices.mapM (valueAt s quantity region.materialId) with
  | error e =>
    rw [hvalues] at read
    have none : points = [] := by
      cases e <;> simp at read
      exact read
    rw [none]
    constructor
    · intro mem
      cases mem
    · rintro ⟨region', corners, e', -, h, -⟩
      obtain rfl := Except.ok.inj e'
      rw [h.values] at hvalues
      cases hvalues
  | ok values =>
    rw [hvalues] at read
    obtain ⟨coordinates, hcoordinates, read⟩ := bind_eq_ok.mp read
    obtain rfl := Except.ok.inj read
    have corners := cornersOf_zip hcoordinates hvalues
    simp only [List.mem_flatMap, mem_edgeCrossings]
    constructor
    · rintro ⟨edge, mem, same, meets⟩
      exact ⟨region, _, rfl, same.symm, corners, edge, mem, meets⟩
    · rintro ⟨region', corners', e, same, h, edge, mem, meets⟩
      obtain rfl := Except.ok.inj e
      obtain rfl := corners.unique h
      exact ⟨edge, mem, same.symm, meets⟩

/-! ## The cut -/

/-- The line meets an edge of some element. -/
def OnCut (s : Structure Rat) (x : Rat) (quantity : String) (p : ProfilePoint) : Prop :=
  ∃ element ∈ s.elements, OnElement s x quantity element p

/-- The profile has what is on the cut, once for each rounded depth and material. -/
structure Faithful (s : Structure Rat) (x : Rat) (quantity : String) (profile : Profile) : Prop where
  named : profile.quantity = quantity
  sound : ∀ p ∈ profile.points, OnCut s x quantity p
  complete : ∀ p, OnCut s x quantity p → ∃ q ∈ profile.points, pointKey q = pointKey p
  sorted : profile.points.Pairwise fun p q => p.depth ≤ q.depth
  once : (profile.points.map pointKey).Nodup

/-- A structure whose elements refer to regions and coordinates that it has, with a value for each
column in every row. -/
structure Readable (s : Structure Rat) : Prop where
  region : ∀ element ∈ s.elements, ∃ region ∈ s.regions, region.id = element.regionId
  vertices : ∀ element ∈ s.elements, ∀ vertex ∈ element.vertices, InRange s.coordinates vertex
  columns : ∀ row ∈ s.solutions, s.species.length ≤ row.values.length

/-! ### One point for each place -/

theorem get?_collected (points : List ProfilePoint) (k : Int × String) :
    (collected points).get? k = points.find? fun p => pointKey p = k := by
  have first := Dict.get?_foldl_setdefault pointKey id points ∅ k
  rwa [Dict.get?_empty, Option.none_or, Option.map_id, id] at first

theorem mem_collected {points : List ProfilePoint} {entry : (Int × String) × ProfilePoint}
    (h : entry ∈ (collected points).entries) : entry.2 ∈ points ∧ pointKey entry.2 = entry.1 := by
  have found := Dict.get?_eq_some.mpr h
  rw [get?_collected] at found
  exact ⟨List.mem_of_find?_eq_some found, by simpa using List.find?_some found⟩

theorem keys_collected (points : List ProfilePoint) :
    ((collected points).entries.map Prod.snd).map pointKey = (collected points).keys := by
  rw [List.map_map]
  exact List.map_congr_left fun entry h => (mem_collected h).2

theorem exists_collected {points : List ProfilePoint} {p : ProfilePoint} (h : p ∈ points) :
    ∃ q ∈ (collected points).entries.map Prod.snd, pointKey q = pointKey p := by
  have mem : pointKey p ∈ (collected points).keys := by
    rw [Dict.mem_keys, get?_collected]
    exact Option.isSome_iff_exists.mp (List.find?_isSome.mpr ⟨p, h, by simp⟩)
  rw [← keys_collected] at mem
  obtain ⟨q, hq, e⟩ := List.mem_map.mp mem
  exact ⟨q, hq, e⟩

theorem faithful_of_ok {profile : Profile} (cut : verticalCut s x quantity = .ok profile) :
    Faithful s x quantity profile := by
  unfold verticalCut at cut
  split at cut
  · cases cut
  obtain ⟨found, hfound, cut⟩ := bind_eq_ok.mp cut
  obtain rfl := Except.ok.inj cut
  have onCut : ∀ p, p ∈ found.flatten ↔ OnCut s x quantity p := by
    intro p
    rw [List.mem_flatten]
    constructor
    · intro h
      obtain ⟨points, mem, hp⟩ := h
      obtain ⟨element, helement, read⟩ := exists_of_mem_mapM hfound mem
      exact ⟨element, helement, (mem_elementPoints read).mp hp⟩
    · intro h
      obtain ⟨element, helement, hp⟩ := h
      obtain ⟨points, mem, read⟩ := exists_mem_of_mapM hfound helement
      exact ⟨points, mem, (mem_elementPoints read).mpr hp⟩
  have perm := orderedByStack_perm ((collected found.flatten).entries.map Prod.snd)
  refine ⟨rfl, ?_, ?_, pairwise_orderedByStack _, ?_⟩
  · intro p mem
    obtain ⟨entry, hentry, rfl⟩ := List.mem_map.mp (perm.mem_iff.mp mem)
    exact (onCut _).mp (mem_collected hentry).1
  · intro p hp
    obtain ⟨q, hq, same⟩ := exists_collected ((onCut p).mpr hp)
    exact ⟨q, perm.mem_iff.mpr hq, same⟩
  · rw [(perm.map pointKey).nodup_iff, keys_collected]
    exact (collected found.flatten).nodup

/-! ### The cut of a readable structure -/

theorem exists_index {values : List Rat} {position : Nat} (h : position < values.length) :
    ∃ value, index values position = .ok value := by
  obtain ⟨value, -, found⟩ := index_of_inRange (l := values) (i := position) ⟨by omega, by omega⟩
  exact ⟨value, found⟩

theorem exists_columnSum {table : List Species} {values : List Rat} (columns : table.length ≤ values.length)
    (role : DopantRole) : ∃ total, columnSum values (positionsOf table role) = .ok total := by
  refine exists_ok_bind (exists_mapM fun position mem => exists_index ?_) fun _ _ => ⟨_, rfl⟩
  have inTable := List.mem_range.mp (List.mem_filter.mp mem).1
  omega

/-- A row has a value for each quantity that is there. -/
theorem valueOf_raisesUnless {table : List Species} {row : NodeSolution Rat}
    (columns : table.length ≤ row.values.length) (quantity : String) :
    RaisesUnless .keyError (quantity = "net_doping" ∨ quantity ∈ (speciesIndex table).keys)
      (valueOf table row quantity) := by
  unfold valueOf
  by_cases net : quantity = "net_doping"
  · rw [if_pos net]
    refine Or.inl ⟨Or.inl net, ?_⟩
    exact exists_ok_bind (exists_columnSum columns .donor) fun _ _ =>
      exists_ok_bind (exists_columnSum columns .acceptor) fun _ _ => ⟨_, rfl⟩
  · rw [if_neg net]
    cases found : (speciesIndex table).get? quantity with
    | none => exact Or.inr ⟨not_or.mpr ⟨net, Dict.get?_eq_none.mp found⟩, rfl⟩
    | some position =>
      refine Or.inl ⟨Or.inr (Dict.mem_keys.mpr ⟨position, found⟩), exists_index ?_⟩
      have column := (List.mem_zipIdx (Dict.mem_of_get?_ofList found)).2.1
      rw [List.length_map] at column
      omega

theorem valueAt_raisesUnless (readable : Readable s) (quantity : String) (materialId vertex : Int) :
    RaisesUnless .keyError ((∃ row, solutionAt s vertex materialId = some row) ∧
      (quantity = "net_doping" ∨ quantity ∈ (speciesIndex (speciesTable s.species)).keys))
      (valueAt s quantity materialId vertex) := by
  unfold valueAt
  cases found : solutionAt s vertex materialId with
  | none => exact Or.inr ⟨by simp, rfl⟩
  | some row =>
    obtain ⟨given, mem, e⟩ := List.mem_map.mp (Dict.mem_of_get?_ofList found)
    obtain rfl := (Prod.mk.inj e).2
    refine (valueOf_raisesUnless ?_ quantity).congr (by simp)
    rw [speciesTable, List.length_map]
    exact readable.columns given mem

theorem exists_elementPoints (readable : Readable s) {element : Element} (mem : element ∈ s.elements) :
    ∃ points, elementPoints s x quantity element = .ok points := by
  obtain ⟨region, hregion, same⟩ := readable.region element mem
  have listed : element.regionId ∈ (s.regions.map fun region => (region.id, region)).map Prod.fst := by
    simpa using ⟨region, hregion, same⟩
  obtain ⟨known, -, found⟩ := Dict.get?_update_of_mem ∅ listed
  have hlookup : lookup (regionOf s) element.regionId = .ok known := by
    unfold lookup regionOf Dict.ofList
    rw [found]
  unfold elementPoints
  rw [hlookup]
  have values := RaisesUnless.mapM (l := element.vertices) fun vertex _ =>
    valueAt_raisesUnless readable quantity known.materialId vertex
  simp only [bind, Except.bind]
  rcases values with ⟨-, values, read⟩ | ⟨-, raised⟩
  · rw [read]
    obtain ⟨corners, hcorners⟩ := exists_mapM fun vertex hvertex => by
      obtain ⟨corner, -, found⟩ := index_of_inRange (readable.vertices element mem vertex hvertex)
      exact ⟨corner, found⟩
    rw [hcorners]
    exact ⟨_, rfl⟩
  · rw [raised]
    exact ⟨_, rfl⟩

theorem exists_verticalCut (plane : s.dimension = 2) (readable : Readable s) (x : Rat) (quantity : String) :
    ∃ profile, verticalCut s x quantity = .ok profile := by
  unfold verticalCut
  rw [if_neg (not_not.mpr plane)]
  exact exists_ok_bind (exists_mapM fun _ mem => exists_elementPoints readable mem) fun _ _ => ⟨_, rfl⟩

/-- Every cut that is returned is complete and sound, and a readable structure is cut. -/
theorem verticalCut_faithful (s : Structure Rat) (x : Rat) (quantity : String) :
    (∀ profile, verticalCut s x quantity = .ok profile → Faithful s x quantity profile) ∧
      (s.dimension = 2 → Readable s → ∃ profile, verticalCut s x quantity = .ok profile) :=
  ⟨fun _ => faithful_of_ok, fun plane readable => exists_verticalCut plane readable x quantity⟩

/-- Oxide over silicon, one triangle each. -/
def twoTriangles : Structure Rat where
  version := ""
  dimension := 2
  verticesPerElement := 3
  neighborsPerElement := 3
  coordinates := [⟨0, 0, 0⟩, ⟨1, 1, 0⟩, ⟨2, 1 / 2, -1⟩, ⟨3, 1 / 2, 1⟩]
  regions := [⟨1, 1, "oxide"⟩, ⟨2, 3, "silicon"⟩]
  elements := [⟨0, 1, [0, 1, 2], [], []⟩, ⟨1, 2, [0, 3, 1], [], []⟩]
  solutions := [⟨0, 1, "oxide", [1]⟩, ⟨1, 1, "oxide", [1]⟩, ⟨2, 1, "oxide", [3]⟩, ⟨0, 3, "silicon", [5]⟩,
    ⟨1, 3, "silicon", [5]⟩, ⟨3, 3, "silicon", [7]⟩]
  species := [5]
  temperature := none
  warnings := []

theorem verticalCut_faithful_twoTriangles : ∃ profile,
    verticalCut twoTriangles (1 / 4) "chem_boron" = .ok profile ∧
      Faithful twoTriangles (1 / 4) "chem_boron" profile ∧
      profile.points = [⟨-1 / 2, 2, "oxide"⟩, ⟨0, 1, "oxide"⟩, ⟨0, 5, "silicon"⟩, ⟨1 / 2, 6, "silicon"⟩] := by
  have cut : ∃ profile ∈ (verticalCut twoTriangles (1 / 4) "chem_boron").toOption,
      profile.points =
        [⟨-1 / 2, 2, "oxide"⟩, ⟨0, 1, "oxide"⟩, ⟨0, 5, "silicon"⟩, ⟨1 / 2, 6, "silicon"⟩] := by
    decide +kernel
  obtain ⟨profile, cut, points⟩ := exists_ok_and cut
  exact ⟨profile, cut, (verticalCut_faithful twoTriangles (1 / 4) "chem_boron").1 profile cut, points⟩

end TcadWebapp.Plotting
