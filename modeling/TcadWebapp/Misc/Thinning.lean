import Mathlib.Data.List.Lemmas
import Mathlib.Order.Defs.LinearOrder
import Mathlib.Tactic.Common

/-!
# Divide and conquer on a stretch of points

A stretch is cut at the point that is farthest from its chord, as long as that is too far away, and each
part is cut in turn. Then every point that was not taken is near the chord between two points that were,
without another of them in between (`splits_near`). How far points are is left open.
-/

namespace TcadWebapp

variable {R : Type*} [LinearOrder R]

/-- The places inside of a stretch. -/
def between (lo hi : Nat) : List Nat := List.range' (lo + 1) (hi - lo - 1)

theorem mem_between {lo hi k : Nat} : k ∈ between lo hi ↔ lo < k ∧ k < hi := by
  rw [between, List.mem_range'_1]
  omega

/-- The largest of some values, `least` being below all of them, and the first place that has it. -/
def farthest (value : Nat → R) (least : R) (places : List Nat) : R × Nat :=
  places.foldl (fun worst k => if worst.1 < value k then (value k, k) else worst) (least, 0)

theorem foldl_farthest (value : Nat → R) (places : List Nat) (worst : R × Nat) :
    let found := places.foldl (fun worst k => if worst.1 < value k then (value k, k) else worst) worst
    worst.1 ≤ found.1 ∧ (∀ k ∈ places, value k ≤ found.1) ∧
      (found = worst ∨ found.2 ∈ places ∧ found.1 = value found.2) := by
  induction places generalizing worst with
  | nil => exact ⟨le_rfl, by simp, Or.inl rfl⟩
  | cons k places ih =>
    obtain ⟨low, all, is⟩ := ih (if worst.1 < value k then (value k, k) else worst)
    rw [List.foldl_cons]
    by_cases more : worst.1 < value k
    · rw [if_pos more] at low all is ⊢
      refine ⟨more.le.trans low, List.forall_mem_cons.mpr ⟨low, all⟩, Or.inr ?_⟩
      rcases is with is | ⟨mem, value_⟩
      · rw [is]
        exact ⟨List.mem_cons_self, rfl⟩
      · exact ⟨List.mem_cons_of_mem _ mem, value_⟩
    · rw [if_neg more] at low all is ⊢
      refine ⟨low, List.forall_mem_cons.mpr ⟨(le_of_not_gt more).trans low, all⟩, ?_⟩
      exact is.imp_right fun h => ⟨List.mem_cons_of_mem _ h.1, h.2⟩

theorem le_farthest (value : Nat → R) (least : R) {places : List Nat} {k : Nat} (mem : k ∈ places) :
    value k ≤ (farthest value least places).1 :=
  (foldl_farthest value places (least, 0)).2.1 k mem

theorem farthest_mem {value : Nat → R} {least : R} {places : List Nat}
    (more : least < (farthest value least places).1) : (farthest value least places).2 ∈ places ∧
      (farthest value least places).1 = value (farthest value least places).2 := by
  rcases (foldl_farthest value places (least, 0)).2.2 with is | is
  · rw [farthest, is] at more
    exact absurd more (lt_irrefl _)
  · exact is

section Splits

variable (offset : Nat → Nat → Nat → R) (least bound : R)

/-- Where a stretch is cut, if it is. -/
def cut (lo hi : Nat) : Option Nat :=
  let worst := farthest (offset lo hi) least (between lo hi)
  if bound < worst.1 then some worst.2 else none

variable {offset least bound}

theorem cut_mem (low : least ≤ bound) {lo hi k : Nat} (h : cut offset least bound lo hi = some k) :
    lo < k ∧ k < hi := by
  unfold cut at h
  dsimp only at h
  split at h
  · rename_i more
    obtain rfl := Option.some.inj h
    exact mem_between.mp (farthest_mem (low.trans_lt more)).1
  · cases h

theorem lt_of_cut_eq_some (low : least ≤ bound) {lo hi k : Nat} (h : cut offset least bound lo hi = some k) :
    bound < offset lo hi k := by
  unfold cut at h
  dsimp only at h
  split at h
  · rename_i more
    obtain rfl := Option.some.inj h
    exact more.trans_eq (farthest_mem (low.trans_lt more)).2
  · cases h

theorem le_of_cut_eq_none {lo hi k : Nat} (h : cut offset least bound lo hi = none) (after : lo < k)
    (before : k < hi) : offset lo hi k ≤ bound := by
  unfold cut at h
  dsimp only at h
  split at h
  · cases h
  · rename_i near
    exact (le_farthest _ least (mem_between.mpr ⟨after, before⟩)).trans (le_of_not_gt near)

theorem cut_of_short (low : least ≤ bound) {lo hi : Nat} (short : hi - lo < 2) :
    cut offset least bound lo hi = none := by
  cases found : cut offset least bound lo hi with
  | none => rfl
  | some k =>
    have := cut_mem low found
    omega

variable (offset least bound)

/-- The places at which a stretch and its parts are cut. -/
def splits (lo hi : Nat) : List Nat :=
  match cut offset least bound lo hi with
  | none => []
  | some k => if lo < k ∧ k < hi then k :: (splits k hi ++ splits lo k) else []
termination_by hi - lo
decreasing_by all_goals omega

variable {offset least bound}

theorem splits_of_none {lo hi : Nat} (h : cut offset least bound lo hi = none) :
    splits offset least bound lo hi = [] := by
  rw [splits, h]

theorem splits_of_some (low : least ≤ bound) {lo hi k : Nat} (h : cut offset least bound lo hi = some k) :
    splits offset least bound lo hi =
      k :: (splits offset least bound k hi ++ splits offset least bound lo k) := by
  rw [splits, h]
  exact if_pos (cut_mem low h)

theorem mem_splits (low : least ≤ bound) {lo hi k : Nat} (mem : k ∈ splits offset least bound lo hi) :
    lo < k ∧ k < hi := by
  cases found : cut offset least bound lo hi with
  | none =>
    rw [splits_of_none found] at mem
    cases mem
  | some j =>
    have inside := cut_mem low found
    rw [splits_of_some low found] at mem
    rcases List.mem_cons.mp mem with rfl | mem
    · exact inside
    · rcases List.mem_append.mp mem with mem | mem
      · have := mem_splits low mem
        omega
      · have := mem_splits low mem
        omega
termination_by hi - lo
decreasing_by all_goals omega

/-- A point is taken, or it is near the chord of a stretch whose ends are taken, but nothing inside. -/
theorem splits_near (low : least ≤ bound) {lo hi k : Nat} (after : lo < k) (before : k < hi) :
    k ∈ splits offset least bound lo hi ∨ ∃ a b, lo ≤ a ∧ a < k ∧ k < b ∧ b ≤ hi ∧
      (a = lo ∨ a ∈ splits offset least bound lo hi) ∧ (b = hi ∨ b ∈ splits offset least bound lo hi) ∧
      (∀ j ∈ splits offset least bound lo hi, j ≤ a ∨ b ≤ j) ∧ offset a b k ≤ bound := by
  cases found : cut offset least bound lo hi with
  | none =>
    refine Or.inr ⟨lo, hi, le_rfl, after, before, le_rfl, Or.inl rfl, Or.inl rfl, ?_, ?_⟩
    · rw [splits_of_none found]
      simp
    · exact le_of_cut_eq_none found after before
  | some j =>
    have inside := cut_mem low found
    rw [splits_of_some low found]
    simp only [List.mem_cons, List.mem_append]
    rcases lt_trichotomy k j with less | rfl | more
    · rcases splits_near low after less with taken | ⟨a, b, la, ak, kb, bj, ha, hb, none_, near⟩
      · exact Or.inl (Or.inr (Or.inr taken))
      · refine Or.inr ⟨a, b, la, ak, kb, by omega, ha.imp_right fun h => Or.inr (Or.inr h), ?_, ?_, near⟩
        · rcases hb with rfl | hb
          · exact Or.inr (Or.inl rfl)
          · exact Or.inr (Or.inr (Or.inr hb))
        · rintro i (rfl | right | left)
          · exact Or.inr bj
          · have := mem_splits low right
            omega
          · exact none_ i left
    · exact Or.inl (Or.inl rfl)
    · rcases splits_near low more before with taken | ⟨a, b, la, ak, kb, bj, ha, hb, none_, near⟩
      · exact Or.inl (Or.inr (Or.inl taken))
      · refine Or.inr ⟨a, b, by omega, ak, kb, bj, ?_, hb.imp_right fun h => Or.inr (Or.inl h), ?_, near⟩
        · rcases ha with rfl | ha
          · exact Or.inr (Or.inl rfl)
          · exact Or.inr (Or.inr (Or.inl ha))
        · rintro i (rfl | right | left)
          · exact Or.inl la
          · exact none_ i right
          · have := mem_splits low left
            omega
termination_by hi - lo
decreasing_by all_goals omega

end Splits

end TcadWebapp
