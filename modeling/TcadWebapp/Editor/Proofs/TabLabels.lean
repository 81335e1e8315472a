import TcadWebapp.Editor.TabLabels
import TcadWebapp.Workspace.Proofs.Paths

/-!
# Labels tell tabs apart

A label that no other path ends in is no other label, and a path that is the end of another one is shown as it
is (`tabLabels_spec`).
-/

namespace TcadWebapp.Editor

variable {paths : List Text} {path : Text}

theorem components_ne_nil (path : Text) : components path ≠ [] := List.splitOn_ne_nil '/' path

theorem lastComponents_length {k : Nat} (le : k ≤ (components path).length) :
    (lastComponents path k).length = k := by
  rw [lastComponents, List.length_drop]
  omega

theorem tail_length (path : Text) : tail path (components path).length = path := by
  rw [tail, lastComponents, Nat.sub_self, List.drop_zero]
  exact List.intercalate_splitOn '/'

/-- The last components can be read off a tail. -/
theorem components_tail {k : Nat} (pos : 1 ≤ k) (path : Text) : components (tail path k) = lastComponents path k := by
  refine List.splitOn_intercalate '/' (fun part mem => ?_) ?_
  · exact Workspace.notMem_of_mem_splitOn (List.mem_of_mem_drop mem)
  · have := List.length_pos_of_ne_nil (components_ne_nil path)
    refine List.ne_nil_of_length_pos ?_
    rw [lastComponents, List.length_drop]
    omega

theorem collides_iff {take : Nat} : collides paths path take = true ↔
    ∃ other ∈ paths, other ≠ path ∧ tail other take = tail path take := by
  simp [collides]

/-- The label is the first tail with which no other path ends, or the whole path. -/
theorem labelFrom_spec (paths : List Text) (path : Text) (n k : Nat) (pos : 1 ≤ k)
    (end_ : k + n = (components path).length + 1) (before : ∀ j, 1 ≤ j → j < k → collides paths path j = true) :
    ∃ m, 1 ≤ m ∧ m ≤ (components path).length ∧ labelFrom paths path (List.range' k n) = tail path m ∧
      (∀ j, 1 ≤ j → j < m → collides paths path j = true) ∧
      (collides paths path m = false ∨ m = (components path).length) := by
  induction n generalizing k with
  | zero =>
    have some_ := List.length_pos_of_ne_nil (components_ne_nil path)
    refine ⟨(components path).length, some_, le_rfl, (tail_length path).symm, ?_, Or.inr rfl⟩
    intro j low less
    exact before j low (by omega)
  | succ n ih =>
    rw [List.range'_succ, labelFrom]
    by_cases more : collides paths path k = true
    · rw [if_pos more]
      refine ih (k + 1) (by omega) (by omega) fun j low less => ?_
      rcases Nat.lt_succ_iff_lt_or_eq.mp less with less | rfl
      · exact before j low less
      · exact more
    · rw [if_neg more]
      exact ⟨k, pos, by omega, rfl, before, Or.inl (by simpa using more)⟩

/-- A label is made of the last components, of as few as it takes: with fewer of them another path ends, too. -/
def IsLabel (paths : List Text) (path label : Text) : Prop :=
  ∃ k, 1 ≤ k ∧ k ≤ (components path).length ∧ label = ['/'].intercalate (lastComponents path k) ∧
    ∀ j, 1 ≤ j → j < k → ∃ other ∈ paths, other ≠ path ∧ j ≤ (components other).length ∧
      lastComponents other j = lastComponents path j

theorem isLabel_of_spec {m : Nat} (pos : 1 ≤ m) (le : m ≤ (components path).length)
    (before : ∀ j, 1 ≤ j → j < m → collides paths path j = true) : IsLabel paths path (tail path m) := by
  refine ⟨m, pos, le, rfl, fun j low less => ?_⟩
  obtain ⟨other, mem, ne, same⟩ := collides_iff.mp (before j low less)
  have last : lastComponents other j = lastComponents path j := by
    rw [← components_tail low, ← components_tail low, same]
  refine ⟨other, mem, ne, ?_, last⟩
  -- A path with fewer components has no such end.
  have length : (lastComponents path j).length = j := lastComponents_length (by omega)
  rw [← last, lastComponents, List.length_drop] at length
  omega

/-- Tabs have different labels, each made of the last components of its path and as short as can be. -/
theorem tabLabels_spec (nodup : paths.Nodup) :
    (tabLabels paths).Nodup ∧ List.Forall₂ (IsLabel paths) paths (tabLabels paths) := by
  have spec := fun path => labelFrom_spec paths path (components path).length 1 le_rfl (by omega) (by omega)
  constructor
  · refine (List.nodup_map_iff_inj_on nodup).mpr fun p hp q hq same => ?_
    obtain ⟨m, pos, le, label, -, last⟩ := spec p
    obtain ⟨m', pos', le', label', -, last'⟩ := spec q
    rw [label, label'] at same
    have lengths : m = m' := by
      rw [← lastComponents_length le, ← lastComponents_length le', ← components_tail pos, ← components_tail pos', same]
    subst lengths
    by_contra ne
    -- Each path ends as the other does, so both are shown whole.
    have whole : ∀ {p q : Text}, q ∈ paths → p ≠ q → tail p m = tail q m →
        (collides paths p m = false ∨ m = (components p).length) → m = (components p).length := by
      intro p q hq ne same last
      refine last.resolve_left fun alone => ?_
      rw [collides_iff.mpr ⟨q, hq, Ne.symm ne, same.symm⟩] at alone
      cases alone
    have one := whole hq ne same last
    have two := whole hp (Ne.symm ne) same.symm last'
    rw [one, tail_length, ← one, two, tail_length] at same
    exact ne same
  · rw [tabLabels, List.forall₂_map_right_iff]
    refine List.forall₂_same.mpr fun path _ => ?_
    obtain ⟨m, pos, le, label, before, -⟩ := spec path
    rw [label]
    exact isLabel_of_spec pos le before

theorem tabLabels_spec_same : (tabLabels ["same.in".toList, "x/same.in".toList]).Nodup ∧
    List.Forall₂ (IsLabel ["same.in".toList, "x/same.in".toList]) ["same.in".toList, "x/same.in".toList]
      (tabLabels ["same.in".toList, "x/same.in".toList]) :=
  tabLabels_spec (by decide)

example : tabLabels ["deep/a/same.in".toList, "b/same.in".toList] = ["a/same.in".toList, "b/same.in".toList] := by
  decide

end TcadWebapp.Editor
