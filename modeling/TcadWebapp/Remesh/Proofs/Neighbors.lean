import TcadWebapp.Remesh.Geometry
import TcadWebapp.StrParser.Numbers

/-!
# The two readers of a neighbour entry

`devsim/electrodes.py` takes a neighbour entry as a position in the element list, as
`str_parser/models.py` describes it, `_element_at` of `remesh/geometry.py` looks for the element with
the id that follows from it. Nothing in a structure file keeps the two together.
-/

namespace TcadWebapp.Remesh

open StrParser

variable {s : Structure Rat}

/-- `elements[neighbor]` of `electrodes.py`. -/
def elementByPosition (s : Structure Rat) (neighbor : Int) : Except Exn Element :=
  index s.elements neighbor

/-- Every entry that is not a boundary code stands for the same element to both readers. -/
def ReadersAgree (s : Structure Rat) : Prop :=
  ∀ element ∈ s.elements, ∀ neighbor ∈ element.neighbors, 0 ≤ neighbor →
    ∃ taken, elementByPosition s neighbor = .ok taken ∧ elementAt s neighbor = some taken

/-- The element at the position of an entry has the id that goes with it. -/
def Numbered (s : Structure Rat) (neighbor : Int) : Prop :=
  ∃ element, s.elements[neighbor.toNat]? = some element ∧ element.id = neighbor + 1

theorem elementByPosition_eq_ok {neighbor : Int} (pos : 0 ≤ neighbor) {element : Element} :
    elementByPosition s neighbor = .ok element ↔ s.elements[neighbor.toNat]? = some element := by
  rw [elementByPosition, index, if_pos pos]
  cases s.elements[neighbor.toNat]? <;> simp

/-- An element that is found has the id that goes with the entry. -/
theorem id_of_elementAt {code : Int} {element : Element} (h : elementAt s code = some element) :
    element.id = code + 1 := by
  have byId : ∀ {e : Element}, (s.elements.filter fun e => e.id = code + 1).getLast? = some e →
      e.id = code + 1 := by
    intro e last
    have mem := List.mem_of_getLast? last
    exact of_decide_eq_true (List.mem_filter.mp mem).2
  unfold elementAt at h
  dsimp only at h
  split at h
  · split at h
    · split at h
      · rename_i named
        exact Option.some.inj h ▸ named
      · exact byId h
    · exact byId h
  · exact byId h

theorem elementAt_of_numbered {code : Int} (pos : 0 ≤ code) {element : Element}
    (found : s.elements[code.toNat]? = some element) (named : element.id = code + 1) :
    elementAt s code = some element := by
  simp only [elementAt, if_pos pos, found, if_pos named]

/-- The readers take the same element for an entry exactly if it is numbered by its position. -/
theorem taken_iff_numbered {neighbor : Int} (pos : 0 ≤ neighbor) :
    (∃ taken, elementByPosition s neighbor = .ok taken ∧ elementAt s neighbor = some taken) ↔
      Numbered s neighbor := by
  constructor
  · rintro ⟨taken, position, found⟩
    exact ⟨taken, (elementByPosition_eq_ok pos).mp position, id_of_elementAt found⟩
  · rintro ⟨taken, found, named⟩
    exact ⟨taken, (elementByPosition_eq_ok pos).mpr found, elementAt_of_numbered pos found named⟩

theorem readersAgree_iff (s : Structure Rat) : ReadersAgree s ↔
    ∀ element ∈ s.elements, ∀ neighbor ∈ element.neighbors, 0 ≤ neighbor → Numbered s neighbor := by
  refine forall₂_congr fun element _ => forall₂_congr fun neighbor _ => ?_
  exact forall_congr' fun pos => taken_iff_numbered pos

/-- If the elements are numbered from one on, entries in range are all that is needed. -/
theorem numbered_of_inOrder (order : ∀ (i : Nat) element, s.elements[i]? = some element →
    element.id = i + 1) {neighbor : Int} (pos : 0 ≤ neighbor) :
    Numbered s neighbor ↔ neighbor < s.elements.length := by
  constructor
  · rintro ⟨element, found, -⟩
    have := (List.getElem?_eq_some_iff.mp found).1
    omega
  · intro lt
    have inside : neighbor.toNat < s.elements.length := by omega
    refine ⟨s.elements[neighbor.toNat], List.getElem?_eq_getElem inside, ?_⟩
    have := order neighbor.toNat _ (List.getElem?_eq_getElem inside)
    omega

/-- Two triangles that share an edge, numbered 2 and 1. -/
def swapped : Text :=
  ['D', ' ', '2', ' ', '3', ' ', '3', '\n',
    't', ' ', '2', ' ', '1', ' ', '1', ' ', '2', ' ', '3', ' ', '2', ' ', '-', '1', ' ', '-', '1', ' ',
      '0', ' ', '0', '\n',
    't', ' ', '1', ' ', '1', ' ', '2', ' ', '4', ' ', '3', ' ', '-', '1', ' ', '1', ' ', '-', '1', ' ',
      '0', ' ', '0', '\n',
    's', ' ', '0', '\n']

/-- To `_element_at` each of the two triangles is its own neighbour. -/
theorem not_readersAgree : ¬ ∀ (reader : Reader Rat) (source : Text) (parsed : Structure Rat),
    parseStructure reader source = .ok parsed → ReadersAgree parsed := by
  intro all
  obtain ⟨parsed, accepted, element, mem, neighbor, entry, pos, position, found⟩ :
      ∃ parsed, parseStructure plainReader swapped = .ok parsed ∧ ∃ element ∈ parsed.elements,
        ∃ neighbor ∈ element.neighbors, 0 ≤ neighbor ∧
          parsed.elements[neighbor.toNat]? ≠ some element ∧ elementAt parsed neighbor = some element := by
    apply exists_ok_and
    decide
  obtain ⟨taken, position', found'⟩ := all plainReader swapped parsed accepted element mem neighbor entry pos
  rw [elementByPosition_eq_ok pos] at position'
  obtain rfl := Option.some.inj (found'.symm.trans found)
  exact position position'

end TcadWebapp.Remesh
