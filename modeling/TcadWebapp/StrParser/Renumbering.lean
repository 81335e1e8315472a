import Mathlib.Data.Finset.Card
import Mathlib.Data.Finset.Range
import TcadWebapp.StrParser.Sides

/-!
# Numbering a structure anew

The same elements and points in another order, with the entries that refer to them carried along. Ids are
left free: what they are after renumbering is for their readers to say.
-/

namespace TcadWebapp.StrParser

variable {F : Type}

/-- An entry after renumbering; boundary codes stay. -/
def moveEntry (place : Nat → Nat) (code : Int) : Int := if code < 0 then code else place code.toNat

theorem moveEntry_neg {place : Nat → Nat} {code : Int} : moveEntry place code < 0 ↔ code < 0 := by
  unfold moveEntry
  split <;> omega

theorem moveEntry_natCast (place : Nat → Nat) (i : Nat) : moveEntry place i = place i := by
  rw [moveEntry, if_neg (by omega), Int.toNat_natCast]

theorem moveEntry_of_nonneg {place : Nat → Nat} {code : Int} (pos : 0 ≤ code) :
    moveEntry place code = place code.toNat := if_neg (by omega)

/-- `element'` is `element`, but for the numbers and the id. -/
structure Moved (place point : Nat → Nat) (element element' : Element) : Prop where
  regionId : element'.regionId = element.regionId
  vertices : element'.vertices = element.vertices.map (moveEntry point)
  neighbors : element'.neighbors = element.neighbors.map (moveEntry place)

/-- `s'` has the element at `t` of `s` at `place t`, and the point at `p` at `point p`. -/
structure Renumbers (place point : Nat → Nat) (s s' : Structure F) : Prop where
  regions : s'.regions = s.regions
  elements : s'.elements.length = s.elements.length
  place_lt : ∀ t < s.elements.length, place t < s.elements.length
  place_inj : ∀ t < s.elements.length, ∀ u < s.elements.length, place t = place u → t = u
  element : ∀ (t : Nat) (element : Element), s.elements[t]? = some element →
    ∃ element', s'.elements[place t]? = some element' ∧ Moved place point element element'
  points : s'.coordinates.length = s.coordinates.length
  point_lt : ∀ p < s.coordinates.length, point p < s.coordinates.length
  point_inj : ∀ p < s.coordinates.length, ∀ q < s.coordinates.length, point p = point q → p = q
  coordinate : ∀ (p : Nat) (c : Coordinate F), s.coordinates[p]? = some c →
    ∃ c', s'.coordinates[point p]? = some c' ∧ c'.x = c.x ∧ c'.y = c.y

/-- A side after renumbering. -/
def Side.move (place point : Nat → Nat) (side : Side) : Side :=
  ⟨place side.element, side.slot, moveEntry point side.a, moveEntry point side.b, side.regionId,
    moveEntry place side.code⟩

/-- An injective map of the numbers below a bound to themselves meets each of them. -/
theorem exists_place {n : Nat} {place : Nat → Nat} (lt : ∀ t < n, place t < n)
    (inj : ∀ t < n, ∀ u < n, place t = place u → t = u) {u : Nat} (hu : u < n) :
    ∃ t < n, place t = u := by
  have images : (Finset.range n).image place = Finset.range n := by
    refine Finset.eq_of_subset_of_card_le ?_ ?_
    · intro v hv
      obtain ⟨t, ht, rfl⟩ := Finset.mem_image.mp hv
      exact Finset.mem_range.mpr (lt t (Finset.mem_range.mp ht))
    · rw [Finset.card_image_of_injOn]
      intro t ht t' ht' e
      exact inj t (Finset.mem_range.mp ht) t' (Finset.mem_range.mp ht') e
  obtain ⟨t, ht, e⟩ := Finset.mem_image.mp (images ▸ Finset.mem_range.mpr hu)
  exact ⟨t, Finset.mem_range.mp ht, e⟩

namespace Renumbers

variable {place point : Nat → Nat} {s s' : Structure F}

/-- Every element of the new structure is one of the old. -/
theorem exists_element (h : Renumbers place point s s') {u : Nat} {element' : Element}
    (found : s'.elements[u]? = some element') : ∃ t element, u = place t ∧
      s.elements[t]? = some element ∧ Moved place point element element' := by
  have lt : u < s.elements.length := h.elements ▸ (List.getElem?_eq_some_iff.mp found).1
  obtain ⟨t, ht, rfl⟩ := exists_place h.place_lt h.place_inj lt
  obtain ⟨element'', found', moved⟩ := h.element t _ (List.getElem?_eq_getElem ht)
  obtain rfl := Option.some.inj (found'.symm.trans found)
  exact ⟨t, _, rfl, List.getElem?_eq_getElem ht, moved⟩

theorem element_iff (h : Renumbers place point s s') {t : Nat} {element element' : Element}
    (found : s.elements[t]? = some element) (found' : s'.elements[place t]? = some element') :
    Moved place point element element' := by
  obtain ⟨element'', found'', moved⟩ := h.element t element found
  obtain rfl := Option.some.inj (found''.symm.trans found')
  exact moved

theorem materialOfRegion (h : Renumbers place point s s') :
    s'.materialOfRegion = s.materialOfRegion := by
  rw [Structure.materialOfRegion, h.regions, Structure.materialOfRegion]

end Renumbers

theorem Moved.side {place point : Nat → Nat} {element element' : Element}
    (h : Moved place point element element') (t slot : Nat) :
    element'.side (place t) slot = (element.side t slot).map (Side.move place point) := by
  unfold Element.side
  rw [h.vertices, h.neighbors, h.regionId, List.getElem?_map, List.getElem?_map, List.getElem?_map]
  cases element.vertices[(slot + 1) % 3]? with
  | none => rfl
  | some a =>
    cases element.vertices[(slot + 2) % 3]? with
    | none => rfl
    | some b => cases element.neighbors[slot]? <;> rfl

theorem Moved.sides {place point : Nat → Nat} {element element' : Element}
    (h : Moved place point element element') (t : Nat) :
    element'.sides (place t) = (element.sides t).map (Side.move place point) := by
  rw [Element.sides, Element.sides, List.map_filterMap]
  exact List.filterMap_congr fun slot _ => h.side t slot

theorem Renumbers.sidesAt {place point : Nat → Nat} {s s' : Structure F}
    (h : Renumbers place point s s') {t : Nat} (lt : t < s.elements.length) :
    sidesAt s'.elements (place t) = (sidesAt s.elements t).map (Side.move place point) := by
  have found := List.getElem?_eq_getElem lt
  obtain ⟨element', found', moved⟩ := h.element t _ found
  rw [StrParser.sidesAt, StrParser.sidesAt, found, found']
  exact moved.sides t

/-! ## The elements in another order -/

/-- The structure with its elements in an order, numbered and named by it. -/
def Structure.reorder (s : Structure F) (order : List Nat) : Structure F :=
  { s with
    elements := order.filterMap fun t => (s.elements[t]?).map fun element =>
      { element with
        id := order.idxOf t + 1
        neighbors := element.neighbors.map (moveEntry order.idxOf) } }

theorem getElem?_filterMap_of_some {α β : Type*} {f : α → Option β} {l : List α}
    (all : ∀ a ∈ l, (f a).isSome) (i : Nat) : (l.filterMap f)[i]? = l[i]?.bind f := by
  induction l generalizing i with
  | nil => rfl
  | cons a l ih =>
    obtain ⟨b, made⟩ := Option.isSome_iff_exists.mp (all a List.mem_cons_self)
    rw [List.filterMap_cons_some made]
    cases i with
    | zero => exact made.symm
    | succ i => exact ih (fun a ha => all a (List.mem_cons_of_mem _ ha)) i

theorem moveEntry_id (code : Int) : moveEntry id code = code := by
  unfold moveEntry
  split
  · rfl
  · exact Int.toNat_of_nonneg (by omega)

theorem renumbers_reorder {s : Structure F} {order : List Nat}
    (perm : order.Perm (List.range s.elements.length)) :
    Renumbers order.idxOf id s (s.reorder order) := by
  have length := perm.length_eq.trans List.length_range
  have mem : ∀ {t : Nat}, t ∈ order ↔ t < s.elements.length := perm.mem_iff.trans List.mem_range
  have all : ∀ t ∈ order, ((s.elements[t]?).map fun element => { element with
      id := order.idxOf t + 1
      neighbors := element.neighbors.map (moveEntry order.idxOf) : Element }).isSome := by
    intro t ht
    rw [List.getElem?_eq_getElem (mem.mp ht)]
    rfl
  refine ⟨rfl, ?_, ?_, ?_, ?_, rfl, fun _ => id, fun _ _ _ _ => id, fun p c found => ⟨c, found, rfl, rfl⟩⟩
  · rw [Structure.reorder, List.filterMap_length_eq_length.mpr all, length]
  · exact fun t ht => length ▸ List.idxOf_lt_length_iff.mpr (mem.mpr ht)
  · exact fun t ht u _ e => (List.idxOf_inj (mem.mpr ht)).mp e
  · intro t element found
    have ht := mem.mpr (List.getElem?_eq_some_iff.mp found).1
    refine ⟨{ element with
      id := order.idxOf t + 1
      neighbors := element.neighbors.map (moveEntry order.idxOf) }, ?_, rfl, ?_, rfl⟩
    · have there : order[order.idxOf t]? = some t := List.getElem?_idxOf ht
      rw [Structure.reorder, getElem?_filterMap_of_some all, there, Option.bind_some, found,
        Option.map_some]
    · exact (List.map_congr_left fun v _ => moveEntry_id v).trans (List.map_id _) |>.symm

end TcadWebapp.StrParser
