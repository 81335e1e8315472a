import Mathlib.Algebra.Order.Field.Basic
import Mathlib.Data.Fin.VecNotation
import Mathlib.Data.Finset.Max
import Mathlib.Data.Fintype.Basic
import Mathlib.Tactic.FieldSimp
import Mathlib.Tactic.FinCases
import Mathlib.Tactic.Linarith
import Mathlib.Tactic.LinearCombination
import Mathlib.Tactic.Ring

/-!
# Triangles of the plane

The weights by which a point is a mixture of three corners, the nearest point of a segment, and
the way out of a triangle: whoever comes from a point inside crosses a side.
-/

namespace TcadWebapp.Plane

variable {F : Type*} [Field F] {a b c p q : F × F}

/-! ## Weights -/

/-- The point is this mixture of the corners. -/
structure Weights (a b c p : F × F) (w : F × F × F) : Prop where
  total : w.1 + w.2.1 + w.2.2 = 1
  x : p.1 = w.1 * a.1 + w.2.1 * b.1 + w.2.2 * c.1
  y : p.2 = w.1 * a.2 + w.2.1 * b.2 + w.2.2 * c.2

/-- Twice the area, with its sign. -/
def area (a b c : F × F) : F := (b.2 - c.2) * (a.1 - c.1) + (c.1 - b.1) * (a.2 - c.2)

/-- The weights of a point, by areas. -/
def weights (a b c p : F × F) : F × F × F :=
  let wa := ((b.2 - c.2) * (p.1 - c.1) + (c.1 - b.1) * (p.2 - c.2)) / area a b c
  let wb := ((c.2 - a.2) * (p.1 - c.1) + (a.1 - c.1) * (p.2 - c.2)) / area a b c
  (wa, wb, 1 - wa - wb)

theorem weights_spec (wide : area a b c ≠ 0) (p : F × F) : Weights a b c p (weights a b c p) := by
  refine ⟨by simp [weights], ?_, ?_⟩
  · simp only [weights]
    field_simp
    simp only [area]
    ring
  · simp only [weights]
    field_simp
    simp only [area]
    ring

/-- A triangle with an area has no other weights for a point. -/
theorem Weights.eq (wide : area a b c ≠ 0) {w : F × F × F} (h : Weights a b c p w) : w = weights a b c p := by
  obtain ⟨wa, wb, wc⟩ := w
  obtain ⟨total, x, y⟩ := h
  dsimp only at total x y
  have first : wa = ((b.2 - c.2) * (p.1 - c.1) + (c.1 - b.1) * (p.2 - c.2)) / area a b c := by
    rw [eq_div_iff wide, x, y, area]
    linear_combination -((b.2 - c.2) * c.1 + (c.1 - b.1) * c.2) * total
  have second : wb = ((c.2 - a.2) * (p.1 - c.1) + (a.1 - c.1) * (p.2 - c.2)) / area a b c := by
    rw [eq_div_iff wide, x, y, area]
    linear_combination -((c.2 - a.2) * c.1 + (a.1 - c.1) * c.2) * total
  rw [weights, ← first, ← second, Prod.mk.injEq, Prod.mk.injEq]
  exact ⟨rfl, rfl, by linear_combination total⟩

/-! ## Triangles -/

variable [LinearOrder F]

/-- The point lies in the triangle. -/
def Holds (a b c p : F × F) : Prop := ∃ w, Weights a b c p w ∧ 0 ≤ w.1 ∧ 0 ≤ w.2.1 ∧ 0 ≤ w.2.2

/-- The point lies on the segment. -/
def OnSegment (a b q : F × F) : Prop :=
  ∃ t, (0 ≤ t ∧ t ≤ 1) ∧ q = (a.1 + t * (b.1 - a.1), a.2 + t * (b.2 - a.2))

/-- The point lies on a side. -/
def OnSide (a b c q : F × F) : Prop := OnSegment a b q ∨ OnSegment b c q ∨ OnSegment c a q

/-- The square of the distance. -/
def distSq (p q : F × F) : F := (p.1 - q.1) ^ 2 + (p.2 - q.2) ^ 2

variable [IsStrictOrderedRing F]

theorem Holds.of_onSide (h : OnSide a b c q) : Holds a b c q := by
  rcases h with ⟨t, ⟨low, high⟩, rfl⟩ | ⟨t, ⟨low, high⟩, rfl⟩ | ⟨t, ⟨low, high⟩, rfl⟩
  · exact ⟨(1 - t, t, 0), ⟨by ring, by ring, by ring⟩, sub_nonneg.mpr high, low, le_rfl⟩
  · exact ⟨(0, 1 - t, t), ⟨by ring, by ring, by ring⟩, le_rfl, sub_nonneg.mpr high, low⟩
  · exact ⟨(t, 0, 1 - t), ⟨by ring, by ring, by ring⟩, low, le_rfl, sub_nonneg.mpr high⟩

omit [IsStrictOrderedRing F] in
theorem not_holds (wide : area a b c ≠ 0)
    (below : (weights a b c p).1 < 0 ∨ (weights a b c p).2.1 < 0 ∨ (weights a b c p).2.2 < 0) : ¬ Holds a b c p := by
  rintro ⟨w, h, pa, pb, pc⟩
  rw [h.eq wide] at pa pb pc
  rcases below with below | below | below
  · exact absurd pa (not_le.mpr below)
  · exact absurd pb (not_le.mpr below)
  · exact absurd pc (not_le.mpr below)

/-- A point of a triangle lies within any bounds that its corners keep. -/
theorem Holds.between (low high : F × F) (h : Holds a b c p)
    (ha : (low.1 ≤ a.1 ∧ a.1 ≤ high.1) ∧ low.2 ≤ a.2 ∧ a.2 ≤ high.2)
    (hb : (low.1 ≤ b.1 ∧ b.1 ≤ high.1) ∧ low.2 ≤ b.2 ∧ b.2 ≤ high.2)
    (hc : (low.1 ≤ c.1 ∧ c.1 ≤ high.1) ∧ low.2 ≤ c.2 ∧ c.2 ≤ high.2) :
    (low.1 ≤ p.1 ∧ p.1 ≤ high.1) ∧ low.2 ≤ p.2 ∧ p.2 ≤ high.2 := by
  obtain ⟨⟨wa, wb, wc⟩, ⟨total, x, y⟩, pa, pb, pc⟩ := h
  dsimp only at total x y pa pb pc
  have bound {l u v w : F} (hu : l ≤ u) (hv : l ≤ v) (hw : l ≤ w) : l ≤ wa * u + wb * v + wc * w := by
    have := add_le_add (add_le_add (mul_le_mul_of_nonneg_left hu pa) (mul_le_mul_of_nonneg_left hv pb))
      (mul_le_mul_of_nonneg_left hw pc)
    rwa [← add_mul, ← add_mul, total, one_mul] at this
  have bound' {l u v w : F} (hu : u ≤ l) (hv : v ≤ l) (hw : w ≤ l) : wa * u + wb * v + wc * w ≤ l := by
    have := add_le_add (add_le_add (mul_le_mul_of_nonneg_left hu pa) (mul_le_mul_of_nonneg_left hv pb))
      (mul_le_mul_of_nonneg_left hw pc)
    rwa [← add_mul, ← add_mul, total, one_mul] at this
  rw [x, y]
  exact ⟨⟨bound ha.1.1 hb.1.1 hc.1.1, bound' ha.1.2 hb.1.2 hc.1.2⟩,
    bound ha.2.1 hb.2.1 hc.2.1, bound' ha.2.2 hb.2.2 hc.2.2⟩

/-! ## The way out -/

/-- Three amounts that start out at least zero, and of which one ends below: on the way there is a
place where all are at least zero and one is zero. -/
theorem exists_exit {w v : Fin 3 → F} (start : ∀ i, 0 ≤ w i) (below : ∃ i, v i < 0) :
    ∃ s, (0 ≤ s ∧ s ≤ 1) ∧ (∀ i, 0 ≤ w i + s * (v i - w i)) ∧ ∃ i, w i + s * (v i - w i) = 0 := by
  obtain ⟨k, hk⟩ := below
  -- the amount that reaches zero first
  obtain ⟨i, hi, least⟩ := Finset.exists_min_image (Finset.univ.filter fun i => v i < 0)
    (fun i => w i / (w i - v i)) ⟨k, by simpa using hk⟩
  have down : v i < 0 := by simpa using hi
  have pos : 0 < w i - v i := by linarith [start i]
  refine ⟨w i / (w i - v i), ⟨div_nonneg (start i) pos.le, (div_le_one pos).mpr (by linarith)⟩, ?_, i, ?_⟩
  · intro j
    by_cases hj : v j < 0
    · have first := least j (by simpa using hj)
      have pos' : 0 < w j - v j := by linarith [start j]
      rw [le_div_iff₀ pos'] at first
      linarith
    · have := div_nonneg (start i) pos.le
      have high : w i / (w i - v i) ≤ 1 := (div_le_one pos).mpr (by linarith)
      have := mul_nonneg this (not_lt.mp hj)
      have := mul_nonneg (sub_nonneg.mpr high) (start j)
      linarith
  · rw [← neg_sub (w i) (v i), mul_neg, div_mul_cancel₀ _ pos.ne', add_neg_cancel]

omit [LinearOrder F] [IsStrictOrderedRing F] in
/-- Weights along the way from one point to another. -/
theorem Weights.along {w v : F × F × F} (h : Weights a b c q w) (h' : Weights a b c p v) (s : F) :
    Weights a b c (q.1 + s * (p.1 - q.1), q.2 + s * (p.2 - q.2))
      (w.1 + s * (v.1 - w.1), w.2.1 + s * (v.2.1 - w.2.1), w.2.2 + s * (v.2.2 - w.2.2)) where
  total := by linear_combination (1 - s) * h.total + s * h'.total
  x := by linear_combination (1 - s) * h.x + s * h'.x
  y := by linear_combination (1 - s) * h.y + s * h'.y

theorem Weights.onSide {w : F × F × F} (h : Weights a b c q w) (pa : 0 ≤ w.1) (pb : 0 ≤ w.2.1) (pc : 0 ≤ w.2.2)
    (zero : w.1 = 0 ∨ w.2.1 = 0 ∨ w.2.2 = 0) : OnSide a b c q := by
  obtain ⟨wa, wb, wc⟩ := w
  obtain ⟨total, x, y⟩ := h
  dsimp only at total x y pa pb pc zero
  rcases zero with rfl | rfl | rfl
  · refine Or.inr (Or.inl ⟨wc, ⟨pc, by linarith⟩, Prod.ext ?_ ?_⟩)
    · linear_combination x + b.1 * total
    · linear_combination y + b.2 * total
  · refine Or.inr (Or.inr ⟨wa, ⟨pa, by linarith⟩, Prod.ext ?_ ?_⟩)
    · linear_combination x + c.1 * total
    · linear_combination y + c.2 * total
  · refine Or.inl ⟨wb, ⟨pb, by linarith⟩, Prod.ext ?_ ?_⟩
    · linear_combination x + a.1 * total
    · linear_combination y + a.2 * total

theorem distSq_along_le {s : F} (low : 0 ≤ s) (high : s ≤ 1) (p q : F × F) :
    distSq p (q.1 + s * (p.1 - q.1), q.2 + s * (p.2 - q.2)) ≤ distSq p q := by
  have scaled : distSq p (q.1 + s * (p.1 - q.1), q.2 + s * (p.2 - q.2)) = (1 - s) ^ 2 * distSq p q := by
    unfold distSq
    ring
  have nonneg : 0 ≤ distSq p q := add_nonneg (sq_nonneg _) (sq_nonneg _)
  rw [scaled]
  exact mul_le_of_le_one_left nonneg (pow_le_one₀ (by linarith) (by linarith))

/-- From a point inside to one outside a side is crossed, no farther from the one outside. -/
theorem exists_onSide (wide : area a b c ≠ 0) (inside : Holds a b c q) (outside : ¬ Holds a b c p) :
    ∃ q', OnSide a b c q' ∧ distSq p q' ≤ distSq p q := by
  obtain ⟨w, hw, pa, pb, pc⟩ := inside
  have hv := weights_spec wide p
  generalize weights a b c p = v at hv
  have start : ∀ i, 0 ≤ ![w.1, w.2.1, w.2.2] i := by
    intro i
    fin_cases i
    · exact pa
    · exact pb
    · exact pc
  have below : ∃ i, ![v.1, v.2.1, v.2.2] i < 0 := by
    by_contra none
    push Not at none
    exact outside ⟨v, hv, none 0, none 1, none 2⟩
  obtain ⟨s, ⟨low, high⟩, all, i, zero⟩ := exists_exit start below
  refine ⟨_, (hw.along hv s).onSide (all 0) (all 1) (all 2) ?_, distSq_along_le low high p q⟩
  fin_cases i
  · exact Or.inl zero
  · exact Or.inr (Or.inl zero)
  · exact Or.inr (Or.inr zero)

/-- The sides of a triangle with an area have a length. -/
theorem distSq_ne_zero (wide : area a b c ≠ 0) : distSq b a ≠ 0 ∧ distSq c b ≠ 0 ∧ distSq a c ≠ 0 := by
  have apart {u v : F × F} (h : distSq u v = 0) : u = v := by
    obtain ⟨x, y⟩ := (add_eq_zero_iff_of_nonneg (sq_nonneg _) (sq_nonneg _)).mp h
    exact Prod.ext (sub_eq_zero.mp (pow_eq_zero_iff two_ne_zero |>.mp x))
      (sub_eq_zero.mp (pow_eq_zero_iff two_ne_zero |>.mp y))
  refine ⟨fun h => wide ?_, fun h => wide ?_, fun h => wide ?_⟩
  all_goals
    rw [apart h, area]
    ring

/-! ## The nearest point of a segment -/

/-- How far along the segment its nearest point is. -/
def foot (p a b : F × F) : F :=
  max 0 (min 1 (((p.1 - a.1) * (b.1 - a.1) + (p.2 - a.2) * (b.2 - a.2)) / distSq b a))

theorem distSq_foot_le (long : distSq b a ≠ 0) (p : F × F) {t : F} (low : 0 ≤ t) (high : t ≤ 1) :
    distSq p (a.1 + foot p a b * (b.1 - a.1), a.2 + foot p a b * (b.2 - a.2)) ≤
      distSq p (a.1 + t * (b.1 - a.1), a.2 + t * (b.2 - a.2)) := by
  have pos : 0 < distSq b a := lt_of_le_of_ne (add_nonneg (sq_nonneg _) (sq_nonneg _)) (Ne.symm long)
  unfold foot
  generalize hm : (p.1 - a.1) * (b.1 - a.1) + (p.2 - a.2) * (b.2 - a.2) = m
  -- a quadratic in the place on the segment, which is least at m / distSq b a
  have quadratic : ∀ u : F, distSq p (a.1 + u * (b.1 - a.1), a.2 + u * (b.2 - a.2)) =
      distSq p a - 2 * u * m + u ^ 2 * distSq b a := by
    intro u
    rw [← hm]
    unfold distSq
    ring
  rw [quadratic, quadratic]
  generalize distSq b a = len at pos
  generalize distSq p a = k
  rcases le_total m 0 with before | after
  · have : max 0 (min 1 (m / len)) = 0 :=
      max_eq_left ((min_le_right _ _).trans (div_nonpos_of_nonpos_of_nonneg before pos.le))
    rw [this]
    have := mul_nonneg low (neg_nonneg.mpr before)
    have := mul_nonneg (sq_nonneg t) pos.le
    linarith
  · rcases le_total len m with behind | within
    · have : max 0 (min 1 (m / len)) = 1 := by
        rw [min_eq_left ((one_le_div pos).mpr behind), max_eq_right zero_le_one]
      rw [this]
      nlinarith [mul_nonneg (sub_nonneg.mpr high) (sub_nonneg.mpr behind),
        mul_nonneg (mul_nonneg (sub_nonneg.mpr high) (sub_nonneg.mpr high)) pos.le]
    · have : max 0 (min 1 (m / len)) = m / len := by
        rw [min_eq_right ((div_le_one pos).mpr within), max_eq_right (div_nonneg after pos.le)]
      rw [this]
      have square : 0 ≤ (t - m / len) ^ 2 * len := mul_nonneg (sq_nonneg _) pos.le
      have cancel : m / len * len = m := div_mul_cancel₀ _ pos.ne'
      have : (t - m / len) ^ 2 * len = t ^ 2 * len - 2 * t * m + m / len * m := by
        linear_combination (-2 * t + m / len) * cancel
      have : (m / len) ^ 2 * len = m / len * m := by linear_combination (m / len) * cancel
      linarith

end TcadWebapp.Plane
