import Mathlib.Data.List.Basic
import TcadWebapp.StrParser.Models

/-!
# The sides of triangles

What a mesh of triangles has to be for its neighbour entries to mean what `str_parser/models.py` says
of them: an edge belongs to one or two elements, and two elements with a common edge name each other
in the slots opposite to it. How an entry names an element is left open, since the readers of the
entries differ in it (`Remesh/Proofs/Neighbors`).
-/

namespace TcadWebapp.StrParser

/-- The side of an element opposite to one of its vertices. -/
structure Side where
  /-- The position of the element. -/
  element : Nat
  slot : Nat
  a : Int
  b : Int
  regionId : Int
  /-- The neighbour entry. -/
  code : Int
  deriving DecidableEq, Repr

/-- An edge, whichever way it is walked. -/
def edgePair (a b : Int) : Int × Int := (min a b, max a b)

def Side.pair (side : Side) : Int × Int := edgePair side.a side.b

theorem edgePair_comm (a b : Int) : edgePair a b = edgePair b a := by
  rw [edgePair, edgePair, min_comm, max_comm]

theorem edgePair_eq_iff {a b c d : Int} :
    edgePair a b = edgePair c d ↔ a = c ∧ b = d ∨ a = d ∧ b = c := by
  simp only [edgePair, Prod.mk.injEq]
  omega

/-- The side at a slot of the element at position `t`. -/
def Element.side (element : Element) (t slot : Nat) : Option Side :=
  match element.vertices[(slot + 1) % 3]?, element.vertices[(slot + 2) % 3]?,
      element.neighbors[slot]? with
  | some a, some b, some code => some ⟨t, slot, a, b, element.regionId, code⟩
  | _, _, _ => none

def Element.sides (element : Element) (t : Nat) : List Side := [0, 1, 2].filterMap (element.side t)

/-- The sides of all elements, in their order. -/
def meshSides (elements : List Element) : List Side :=
  elements.zipIdx.flatMap fun entry => entry.1.sides entry.2

theorem Element.side_eq_some {element : Element} {t slot : Nat} {side : Side} :
    element.side t slot = some side ↔ side.element = t ∧ side.slot = slot ∧
      element.vertices[(slot + 1) % 3]? = some side.a ∧
      element.vertices[(slot + 2) % 3]? = some side.b ∧ side.regionId = element.regionId ∧
      element.neighbors[slot]? = some side.code := by
  obtain ⟨t', slot', a, b, regionId, code⟩ := side
  unfold Element.side
  constructor
  · intro h
    split at h
    · rename_i first second entry
      obtain ⟨rfl, rfl, rfl, rfl, rfl, rfl⟩ := Side.mk.inj (Option.some.inj h)
      exact ⟨rfl, rfl, first, second, rfl, entry⟩
    · cases h
  · rintro ⟨rfl, rfl, first, second, rfl, entry⟩
    dsimp only at first second entry
    rw [first, second, entry]

theorem Element.mem_sides {element : Element} {t : Nat} {side : Side}
    (h : side ∈ element.sides t) : side.element = t := by
  obtain ⟨slot, -, made⟩ := List.mem_filterMap.mp h
  exact (Element.side_eq_some.mp made).1

theorem Element.nodup_sides (element : Element) (t : Nat) : (element.sides t).Nodup := by
  refine List.Nodup.filterMap ?_ (by decide)
  intro slot slot' side made made'
  exact (Element.side_eq_some.mp made).2.1.symm.trans (Element.side_eq_some.mp made').2.1

/-- The sides are those of the elements at the three slots. -/
theorem mem_meshSides {elements : List Element} {side : Side} : side ∈ meshSides elements ↔
    ∃ element, elements[side.element]? = some element ∧ side.slot < 3 ∧
      element.side side.element side.slot = some side := by
  simp only [meshSides, Element.sides, List.mem_flatMap, List.mem_filterMap, Prod.exists,
    List.mem_zipIdx_iff_getElem?]
  constructor
  · rintro ⟨element, t, found, slot, mem, made⟩
    obtain ⟨rfl, rfl, -⟩ := Element.side_eq_some.mp made
    refine ⟨element, found, ?_, made⟩
    simp only [List.mem_cons, List.not_mem_nil, or_false] at mem
    omega
  · rintro ⟨element, found, lt, made⟩
    refine ⟨element, side.element, found, side.slot, ?_, made⟩
    simp only [List.mem_cons, List.not_mem_nil, or_false]
    omega

/-- The sides of the element at a position. -/
def sidesAt (elements : List Element) (t : Nat) : List Side :=
  match elements[t]? with
  | some element => element.sides t
  | none => []

theorem mem_sidesAt {elements : List Element} {t : Nat} {side : Side} :
    side ∈ sidesAt elements t ↔ side ∈ meshSides elements ∧ side.element = t := by
  rw [mem_meshSides]
  unfold sidesAt
  constructor
  · intro h
    split at h
    · rename_i element found
      obtain ⟨slot, mem, made⟩ := List.mem_filterMap.mp h
      obtain ⟨rfl, rfl, -⟩ := Element.side_eq_some.mp made
      refine ⟨⟨element, found, ?_, made⟩, rfl⟩
      simp only [List.mem_cons, List.not_mem_nil, or_false] at mem
      omega
    · simp at h
  · rintro ⟨⟨element, found, lt, made⟩, rfl⟩
    rw [found]
    refine List.mem_filterMap.mpr ⟨side.slot, ?_, made⟩
    simp only [List.mem_cons, List.not_mem_nil, or_false]
    omega

theorem nodup_sidesAt (elements : List Element) (t : Nat) : (sidesAt elements t).Nodup := by
  unfold sidesAt
  split
  · rename_i element found
    exact element.nodup_sides t
  · exact List.nodup_nil

/-- A triangle has all its sides. -/
theorem Element.sides_of_triangle {element : Element} (h : element.vertices.length = 3 ∧
    element.neighbors.length = 3) (t : Nat) : ∃ a b c l m n, element.vertices = [a, b, c] ∧
      element.neighbors = [l, m, n] ∧ element.sides t = [⟨t, 0, b, c, element.regionId, l⟩,
        ⟨t, 1, c, a, element.regionId, m⟩, ⟨t, 2, a, b, element.regionId, n⟩] := by
  obtain ⟨a, b, c, vertices⟩ := List.length_eq_three.mp h.1
  obtain ⟨l, m, n, neighbors⟩ := List.length_eq_three.mp h.2
  exact ⟨a, b, c, l, m, n, vertices, neighbors, by simp [Element.sides, Element.side, vertices, neighbors]⟩

theorem Element.exists_sides {element : Element} (h : element.vertices.length = 3 ∧
    element.neighbors.length = 3) (t : Nat) : ∃ x y z, element.sides t = [x, y, z] ∧
      element.side t 0 = some x ∧ element.side t 1 = some y ∧ element.side t 2 = some z := by
  obtain ⟨a, b, c, l, m, n, vertices, neighbors, sides⟩ := element.sides_of_triangle h t
  exact ⟨_, _, _, sides, by simp [Element.side, vertices, neighbors],
    by simp [Element.side, vertices, neighbors], by simp [Element.side, vertices, neighbors]⟩

/-- A side is where it is. -/
theorem eq_of_place {elements : List Element} {side side' : Side} (mem : side ∈ meshSides elements)
    (mem' : side' ∈ meshSides elements) (t : side.element = side'.element)
    (slot : side.slot = side'.slot) : side = side' := by
  obtain ⟨element, found, -, made⟩ := mem_meshSides.mp mem
  obtain ⟨element', found', -, made'⟩ := mem_meshSides.mp mem'
  rw [t, found'] at found
  obtain rfl := Option.some.inj found
  rw [t, slot, made'] at made
  exact (Option.some.inj made).symm

theorem nodup_meshSides (elements : List Element) : (meshSides elements).Nodup := by
  rw [meshSides, List.nodup_flatMap]
  refine ⟨fun entry _ => entry.1.nodup_sides entry.2, ?_⟩
  have positions : (elements.zipIdx.map Prod.snd).Nodup := by
    rw [List.zipIdx_map_snd]
    exact List.nodup_range'
  refine (List.pairwise_map.mp positions).imp fun {entry entry'} ne side h h' => ?_
  exact ne ((Element.mem_sides h).symm.trans (Element.mem_sides h'))

/-- Elements are triangles, an edge belongs to one or two sides, and where two sides have an edge in
common, each names the element of the other, as `names` reads the entries. -/
structure ConformingMesh (elements : List Element) (names : Int → Nat → Prop) : Prop where
  triangles : ∀ element ∈ elements, element.vertices.length = 3 ∧ element.neighbors.length = 3
  atMostTwo : ∀ x ∈ meshSides elements, ∀ y ∈ meshSides elements, ∀ z ∈ meshSides elements,
    x.pair = y.pair → y.pair = z.pair → x = y ∨ y = z ∨ x = z
  paired : ∀ x ∈ meshSides elements, ∀ y ∈ meshSides elements, x ≠ y → x.pair = y.pair →
    names x.code y.element

/-- The slots opposite to edges that belong to one side only have boundary codes. -/
def Enclosed (elements : List Element) : Prop :=
  ∀ x ∈ meshSides elements, (∀ y ∈ meshSides elements, y.pair = x.pair → y = x) → x.code < 0

/-- An entry as a position in the list of elements. -/
def ByPosition (code : Int) (t : Nat) : Prop := code = t

instance (code : Int) (t : Nat) : Decidable (ByPosition code t) :=
  inferInstanceAs (Decidable (_ = _))

end TcadWebapp.StrParser
