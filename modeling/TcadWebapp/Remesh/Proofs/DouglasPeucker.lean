import Mathlib.Tactic.Linarith
import Mathlib.Tactic.Ring
import TcadWebapp.Remesh.Simplify

/-!
# What `_douglas_peucker` takes

The loop over the stack cuts a chain like `splits` does (`douglasPeucker_spec`).
-/

namespace TcadWebapp.Remesh

open StrParser

/-! ## The stack -/

section Stack

variable {chain : List Int} {offset : Nat → Nat → Nat → Rat} {tolerance : Rat}

/-- The turns that a stretch takes at most. -/
def turns (stretch : Nat × Nat) : Nat := 2 * (stretch.2 - stretch.1) - 1

theorem neg_one_le_sq (tolerance : Rat) : (-1 : Rat) ≤ tolerance ^ 2 :=
  (by decide : (-1 : Rat) ≤ 0).trans (sq_nonneg tolerance)

/-- One turn, in the words of `cut`. -/
theorem splitFrom_cons (fuel lo hi : Nat) (stack : List (Nat × Nat)) (keep : List Int) :
    splitFrom chain offset tolerance (fuel + 1) ((lo, hi) :: stack) keep =
      match cut offset (-1) (tolerance ^ 2) lo hi with
      | none => splitFrom chain offset tolerance fuel stack keep
      | some k => splitFrom chain offset tolerance fuel ((k, hi) :: (lo, k) :: stack)
          (keep ++ [chain.getD k 0]) := by
  rw [splitFrom]
  split
  · rename_i short
    rw [cut_of_short (neg_one_le_sq tolerance) short]
  · unfold cut
    dsimp only
    split
    · rfl
    · rfl

theorem splitFrom_eq (fuel : Nat) {stack : List (Nat × Nat)} (keep : List Int)
    (forward : ∀ stretch ∈ stack, stretch.1 < stretch.2) (enough : (stack.map turns).sum ≤ fuel) :
    splitFrom chain offset tolerance fuel stack keep = .ok (keep ++ (stack.flatMap fun stretch =>
      splits offset (-1) (tolerance ^ 2) stretch.1 stretch.2).map fun k => chain.getD k 0) := by
  induction fuel generalizing stack keep with
  | zero =>
    cases stack with
    | nil => simp [splitFrom]
    | cons stretch stack =>
      have := forward stretch List.mem_cons_self
      rw [List.map_cons, List.sum_cons, turns] at enough
      omega
  | succ fuel ih =>
    cases stack with
    | nil => simp [splitFrom]
    | cons stretch stack =>
      obtain ⟨lo, hi⟩ := stretch
      have lt := forward (lo, hi) List.mem_cons_self
      have forward' : ∀ stretch ∈ stack, stretch.1 < stretch.2 :=
        fun stretch mem => forward stretch (List.mem_cons_of_mem _ mem)
      rw [List.map_cons, List.sum_cons, turns] at enough
      dsimp only at lt enough
      rw [splitFrom_cons, List.flatMap_cons]
      cases found : cut offset (-1) (tolerance ^ 2) lo hi with
      | none =>
        dsimp only
        rw [splits_of_none found, List.nil_append]
        exact ih keep forward' (by omega)
      | some k =>
        have inside := cut_mem (neg_one_le_sq tolerance) found
        dsimp only
        rw [splits_of_some (neg_one_le_sq tolerance) found, ih]
        · simp
        · exact List.forall_mem_cons.mpr ⟨inside.2, List.forall_mem_cons.mpr ⟨inside.1, forward'⟩⟩
        · rw [List.map_cons, List.map_cons, List.sum_cons, List.sum_cons, turns, turns]
          dsimp only
          omega

end Stack

/-- The places of a chain that are taken. -/
def taken (points : List (Coordinate Rat)) (tolerance : Rat) (last : Nat) : List Nat :=
  0 :: last :: splits (offsetAt points) (-1) (tolerance ^ 2) 0 last

theorem douglasPeucker_spec {coords points : List (Coordinate Rat)} {chain : List Int} (tolerance : Rat)
    (found : chain.mapM (index coords) = .ok points) (long : 2 ≤ chain.length) :
    douglasPeucker coords tolerance chain =
      .ok ((taken points tolerance (chain.length - 1)).map fun k => chain.getD k 0) := by
  rw [douglasPeucker, found]
  refine (splitFrom_eq _ _ (by simpa using by omega) (by simp [turns]; omega)).trans ?_
  simp [taken]

theorem le_of_mem_taken {points : List (Coordinate Rat)} {tolerance : Rat} {last k : Nat}
    (mem : k ∈ taken points tolerance last) : k ≤ last := by
  rcases List.mem_cons.mp mem with rfl | mem
  · exact Nat.zero_le _
  · rcases List.mem_cons.mp mem with rfl | mem
    · exact le_rfl
    · exact (mem_splits (neg_one_le_sq tolerance) mem).2.le

/-- A point that is not taken is near the chord of the two next to it that are. -/
theorem taken_near (points : List (Coordinate Rat)) (tolerance : Rat) {last k : Nat} (le : k ≤ last) :
    k ∈ taken points tolerance last ∨ ∃ a b, a < k ∧ k < b ∧ a ∈ taken points tolerance last ∧
      b ∈ taken points tolerance last ∧ (∀ j ∈ taken points tolerance last, j ≤ a ∨ b ≤ j) ∧
      offsetAt points a b k ≤ tolerance ^ 2 := by
  rcases Nat.eq_zero_or_pos k with rfl | pos
  · exact Or.inl List.mem_cons_self
  · rcases Nat.eq_or_lt_of_le le with rfl | lt
    · exact Or.inl (List.mem_cons_of_mem _ List.mem_cons_self)
    · rcases @splits_near _ _ (offsetAt points) _ _ (neg_one_le_sq tolerance) 0 last k pos lt with
        mem | ⟨a, b, -, ak, kb, b_, ha, hb, none_, near⟩
      · exact Or.inl (List.mem_cons_of_mem _ (List.mem_cons_of_mem _ mem))
      · refine Or.inr ⟨a, b, ak, kb, ?_, ?_, ?_, near⟩
        · rcases ha with rfl | ha
          · exact List.mem_cons_self
          · exact List.mem_cons_of_mem _ (List.mem_cons_of_mem _ ha)
        · rcases hb with rfl | hb
          · exact List.mem_cons_of_mem _ List.mem_cons_self
          · exact List.mem_cons_of_mem _ (List.mem_cons_of_mem _ hb)
        · refine List.forall_mem_cons.mpr ⟨Or.inl (Nat.zero_le _), ?_⟩
          exact List.forall_mem_cons.mpr ⟨Or.inr b_, none_⟩

/-! ## Distances -/

/-- A point is within the tolerance of some point of the line between two others. -/
def Within (tolerance : Rat) (point a b : Coordinate Rat) : Prop :=
  ∃ t, 0 ≤ t ∧ t ≤ 1 ∧ (point.x - (a.x + t * (b.x - a.x))) ^ 2 +
    (point.y - (a.y + t * (b.y - a.y))) ^ 2 ≤ tolerance ^ 2

theorem Within.symm {tolerance : Rat} {point a b : Coordinate Rat} (h : Within tolerance point a b) :
    Within tolerance point b a := by
  obtain ⟨t, pos, le, near⟩ := h
  refine ⟨1 - t, by linarith, by linarith, le_of_eq_of_le ?_ near⟩
  ring

theorem within_of_offsetSq {tolerance : Rat} {point a b : Coordinate Rat}
    (h : offsetSq point a b ≤ tolerance ^ 2) : Within tolerance point a b := by
  unfold offsetSq at h
  dsimp only at h
  split at h
  · exact ⟨0, le_rfl, zero_le_one, by simpa using h⟩
  · exact ⟨_, le_max_left _ _, max_le zero_le_one (min_le_left _ _), h⟩

theorem within_self (tolerance : Rat) (a b : Coordinate Rat) : Within tolerance a a b :=
  ⟨0, le_rfl, zero_le_one, by simpa using sq_nonneg tolerance⟩

end TcadWebapp.Remesh
