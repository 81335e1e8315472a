import Mathlib.Analysis.Convex.Topology
import Mathlib.Analysis.Normed.Module.Convex
import Mathlib.Analysis.Normed.Module.Connected
import Mathlib.Analysis.LocallyConvex.WithSeminorms
import Mathlib.Topology.Algebra.Module.LocallyConvex
import Mathlib.Topology.Connected.LocallyPathConnected
import Mathlib.Order.CountableDenseLinearOrder
import Mathlib.Topology.Connected.TotallyDisconnected
import TcadWebapp.Misc.Crossings

/-!
# The inside of a simple polygon

A simple polygon divides the plane into two parts, and the parity of the crossings of a ray tells
them apart: the number is odd for the points of the bounded part.
-/

namespace TcadWebapp.Plane

open Set Topology

/-! ## Sets with two sides -/

section Sides

variable {X : Type*} [TopologicalSpace X] {o : Set X} {p q r x : X}

/-- The part of the complement in which a point lies. -/
def partOf (o : Set X) (p : X) : Set X := connectedComponentIn oᶜ p

/-- Close to the point there are at most two parts beside the set, and the set borders on both. -/
structure TwoSidesAt (o : Set X) (x : X) where
  near : Set X
  isOpen : IsOpen near
  mem : x ∈ near
  left : Set X
  right : Set X
  left_connected : IsPreconnected left
  right_connected : IsPreconnected right
  left_subset : left ⊆ oᶜ
  right_subset : right ⊆ oᶜ
  beside : ∀ z ∈ near, z ∉ o → z ∈ left ∨ z ∈ right
  borders_left : ∀ z ∈ near, z ∈ o → z ∈ closure left
  borders_right : ∀ z ∈ near, z ∈ o → z ∈ closure right

theorem mem_partOf (h : p ∉ o) : p ∈ partOf o p := mem_connectedComponentIn h

theorem partOf_eq (h : q ∈ partOf o p) : partOf o p = partOf o q := connectedComponentIn_eq h

theorem subset_partOf {S : Set X} (connected : IsPreconnected S) (beside : S ⊆ oᶜ) (mem : p ∈ S) : S ⊆ partOf o p :=
  connected.subset_connectedComponentIn mem beside

/-- The part of a point that is close by has one of the sides. -/
theorem TwoSidesAt.subset (sides : TwoSidesAt o x) (near : q ∈ sides.near) (mem : q ∈ partOf o p) :
    sides.left ⊆ partOf o p ∨ sides.right ⊆ partOf o p := by
  have beside : q ∉ o := connectedComponentIn_subset _ _ mem
  rw [partOf_eq mem]
  rcases sides.beside q near beside with h | h
  · exact Or.inl (subset_partOf sides.left_connected sides.left_subset h)
  · exact Or.inr (subset_partOf sides.right_connected sides.right_subset h)

/-- If the part of a point comes close to the set somewhere, then it borders on the set there. -/
theorem TwoSidesAt.borders (sides : TwoSidesAt o x) (near : x ∈ closure (partOf o p)) :
    ∀ z ∈ sides.near, z ∈ o → z ∈ closure (partOf o p) := by
  intro z hz on
  obtain ⟨q, hq, mem⟩ := mem_closure_iff.mp near _ sides.isOpen sides.mem
  rcases sides.subset hq mem with side | side
  · exact closure_mono side (sides.borders_left z hz on)
  · exact closure_mono side (sides.borders_right z hz on)

variable [PreconnectedSpace X] [LocallyConnectedSpace X]

/-- Each part borders on the whole of a connected set that has two sides everywhere. -/
theorem subset_closure_partOf (closed : IsClosed o) (connected : IsPreconnected o) (some : o.Nonempty)
    (sides : ∀ x ∈ o, Nonempty (TwoSidesAt o x)) (h : p ∉ o) : o ⊆ closure (partOf o p) := by
  have isOpen : IsOpen (partOf o p) := closed.isOpen_compl.connectedComponentIn
  -- somewhere the part comes close to the set
  obtain ⟨x, hx, close⟩ : ∃ x ∈ o, x ∈ closure (partOf o p) := by
    have proper : partOf o p ≠ univ := by
      obtain ⟨y, hy⟩ := some
      intro all
      exact absurd hy (connectedComponentIn_subset oᶜ p (show y ∈ partOf o p from all ▸ mem_univ y))
    obtain ⟨x, close, out⟩ := nonempty_frontier_iff.mpr ⟨⟨p, mem_partOf h⟩, proper⟩
    refine ⟨x, ?_, close⟩
    by_contra beside
    obtain ⟨y, hy, hy'⟩ := mem_closure_iff.mp close (partOf o x) closed.isOpen_compl.connectedComponentIn
      (mem_partOf beside)
    have same : partOf o x = partOf o p := (partOf_eq hy).trans (partOf_eq hy').symm
    exact out (isOpen.interior_eq.symm ▸ same ▸ mem_partOf beside)
  -- and then everywhere
  by_contra notAll
  obtain ⟨y, hy, far⟩ := not_subset.mp notAll
  let near : Set X := ⋃ z : {z // z ∈ o ∧ z ∈ closure (partOf o p)}, (sides z.1 z.2.1).some.near
  have cover : o ⊆ near ∪ (closure (partOf o p))ᶜ := by
    intro z hz
    by_cases close : z ∈ closure (partOf o p)
    · exact Or.inl (mem_iUnion.mpr ⟨⟨z, hz, close⟩, (sides z hz).some.mem⟩)
    · exact Or.inr close
  obtain ⟨z, hz, inNear, far'⟩ := connected near (closure (partOf o p))ᶜ
    (isOpen_iUnion fun z => (sides z.1 z.2.1).some.isOpen) isClosed_closure.isOpen_compl cover
    ⟨x, hx, mem_iUnion.mpr ⟨⟨x, hx, close⟩, (sides x hx).some.mem⟩⟩ ⟨y, hy, far⟩
  obtain ⟨⟨w, hw, close⟩, here⟩ := mem_iUnion.mp inNear
  exact far' ((sides w hw).some.borders close z here hz)

/-- Beside such a set there are at most two parts. -/
theorem exists_partOf_eq (closed : IsClosed o) (connected : IsPreconnected o) (some : o.Nonempty)
    (sides : ∀ x ∈ o, Nonempty (TwoSidesAt o x)) (hp : p ∉ o) (hq : q ∉ o) (hr : r ∉ o) :
    partOf o p = partOf o q ∨ partOf o p = partOf o r ∨ partOf o q = partOf o r := by
  obtain ⟨x, hx⟩ := some
  obtain ⟨own⟩ := sides x hx
  have side {y : X} (hy : y ∉ o) : own.left ⊆ partOf o y ∨ own.right ⊆ partOf o y := by
    have close := subset_closure_partOf closed connected ⟨x, hx⟩ sides hy hx
    obtain ⟨z, near, mem⟩ := mem_closure_iff.mp close _ own.isOpen own.mem
    exact own.subset near mem
  have left : own.left.Nonempty := closure_nonempty_iff.mp ⟨x, own.borders_left x own.mem hx⟩
  have right : own.right.Nonempty := closure_nonempty_iff.mp ⟨x, own.borders_right x own.mem hx⟩
  have same {S : Set X} (some : S.Nonempty) {y z : X} (hy : S ⊆ partOf o y) (hz : S ⊆ partOf o z) :
      partOf o y = partOf o z := by
    obtain ⟨w, hw⟩ := some
    exact (partOf_eq (hy hw)).trans (partOf_eq (hz hw)).symm
  rcases side hp with p_left | p_right
  · rcases side hq with q_left | q_right
    · exact Or.inl (same left p_left q_left)
    · rcases side hr with r_left | r_right
      · exact Or.inr (Or.inl (same left p_left r_left))
      · exact Or.inr (Or.inr (same right q_right r_right))
  · rcases side hq with q_left | q_right
    · rcases side hr with r_left | r_right
      · exact Or.inr (Or.inr (same left q_left r_left))
      · exact Or.inr (Or.inl (same right p_right r_right))
    · exact Or.inl (same right p_right q_right)

end Sides

/-! ## The sides of a fork -/

/-- The turn from one direction to another, positive to the left. -/
def cross (u w : ℝ × ℝ) : ℝ := u.1 * w.2 - u.2 * w.1

theorem convex_halfPlane (u x : ℝ × ℝ) : Convex ℝ {z | 0 < cross u (z - x)} := by
  intro y hy z hz s t hs ht total
  have mix : cross u (s • y + t • z - x) = s * cross u (y - x) + t * cross u (z - x) := by
    simp only [cross, Prod.fst_sub, Prod.snd_sub, Prod.fst_add, Prod.snd_add, Prod.smul_fst, Prod.smul_snd, smul_eq_mul]
    linear_combination (u.1 * x.2 - u.2 * x.1) * total
  show 0 < cross u (s • y + t • z - x)
  rw [mix]
  rcases hs.lt_or_eq with pos | rfl
  · exact add_pos_of_pos_of_nonneg (mul_pos pos hy) (mul_nonneg ht (le_of_lt hz))
  · rw [zero_add] at total
    rw [total, zero_mul, zero_add, one_mul]
    exact hz

theorem cross_neg_left (u w : ℝ × ℝ) : cross (-u) w = -cross u w := by
  simp only [cross, Prod.fst_neg, Prod.snd_neg]
  ring

/-- Close to a point a set is two segments from there, which have nothing else in common. -/
structure Fork (o : Set (ℝ × ℝ)) (x a b : ℝ × ℝ) (r : ℝ) : Prop where
  pos : 0 < r
  first : r ≤ ‖a - x‖
  second : r ≤ ‖b - x‖
  here : ∀ z ∈ Metric.ball x r, z ∈ o ↔ OnSegment x a z ∨ OnSegment x b z
  meet : ∀ z, OnSegment x a z → OnSegment x b z → z = x

namespace Fork

variable {o : Set (ℝ × ℝ)} {x a b z : ℝ × ℝ} {r : ℝ}

theorem swap (fork : Fork o x a b r) : Fork o x b a r where
  pos := fork.pos
  first := fork.second
  second := fork.first
  here z hz := (fork.here z hz).trans or_comm
  meet z hb ha := fork.meet z ha hb

theorem onSegment_of_mul {t : ℝ} (low : 0 ≤ t) (high : t ≤ 1) (h : z - x = t • (a - x)) : OnSegment x a z := by
  have first : z.1 - x.1 = t * (a.1 - x.1) := congrArg Prod.fst h
  have second : z.2 - x.2 = t * (a.2 - x.2) := congrArg Prod.snd h
  exact ⟨t, ⟨low, high⟩, Prod.ext (by linarith) (by linarith)⟩

/-- On the way in the direction of a branch the points close by belong to the branch. -/
theorem onSegment_of_ray (far : r ≤ ‖a - x‖) (near : z ∈ Metric.ball x r) {t : ℝ} (low : 0 ≤ t)
    (h : z - x = t • (a - x)) : OnSegment x a z := by
  refine onSegment_of_mul low ?_ h
  by_contra beyond
  have close : ‖z - x‖ < ‖a - x‖ := (mem_ball_iff_norm.mp near).trans_le far
  rw [h, norm_smul, Real.norm_of_nonneg low] at close
  have := mul_le_mul_of_nonneg_right (not_le.mp beyond).le (norm_nonneg (a - x))
  rw [one_mul] at this
  exact absurd close (not_lt.mpr this)

/-- Two directions without a turn are the same up to a factor. -/
theorem exists_smul {u w : ℝ × ℝ} (some : u ≠ 0) (straight : cross u w = 0) : ∃ t : ℝ, w = t • u := by
  have square : u.1 * u.1 + u.2 * u.2 ≠ 0 := by
    intro zero
    have first := mul_self_nonneg u.1
    have second := mul_self_nonneg u.2
    exact some (Prod.ext (mul_self_eq_zero.mp (by linarith)) (mul_self_eq_zero.mp (by linarith)))
  unfold cross at straight
  refine ⟨(u.1 * w.1 + u.2 * w.2) / (u.1 * u.1 + u.2 * u.2), Prod.ext ?_ ?_⟩
  · rw [Prod.smul_fst, smul_eq_mul, div_mul_eq_mul_div, eq_div_iff square]
    linear_combination -u.2 * straight
  · rw [Prod.smul_snd, smul_eq_mul, div_mul_eq_mul_div, eq_div_iff square]
    linear_combination u.1 * straight

theorem ne_zero (fork : Fork o x a b r) : a - x ≠ 0 := by
  intro zero
  have := fork.first
  rw [zero, norm_zero] at this
  exact absurd fork.pos (not_lt.mpr this)

/-- A fork without a turn goes straight on. -/
theorem straight_on (fork : Fork o x a b r) (straight : cross (a - x) (b - x) = 0) :
    ∃ t : ℝ, 0 < t ∧ b - x = -t • (a - x) := by
  obtain ⟨t, same⟩ := exists_smul fork.ne_zero straight
  rcases lt_trichotomy t 0 with below | rfl | above
  · exact ⟨-t, neg_pos.mpr below, by rw [neg_neg]; exact same⟩
  · rw [zero_smul] at same
    exact absurd same fork.swap.ne_zero
  · -- the shorter branch would lie on the longer one
    exfalso
    rcases le_total t 1 with short | long
    · have onFirst : OnSegment x a b := onSegment_of_mul above.le short same
      have own : OnSegment x b b := onSegment_of_mul zero_le_one le_rfl (one_smul _ _).symm
      exact fork.swap.ne_zero (sub_eq_zero.mpr (fork.meet b onFirst own))
    · have own : OnSegment x a a := onSegment_of_mul zero_le_one le_rfl (one_smul _ _).symm
      have onSecond : OnSegment x b a := by
        refine onSegment_of_mul (inv_nonneg.mpr above.le) (inv_le_one_of_one_le₀ long) ?_
        rw [same, smul_smul, inv_mul_cancel₀ above.ne', one_smul]
      exact fork.ne_zero (sub_eq_zero.mpr (fork.meet a own onSecond))

/-- A direction into the side on the left. -/
theorem exists_direction (fork : Fork o x a b r) (turn : 0 ≤ cross (a - x) (b - x)) :
    ∃ d, 0 < cross (a - x) d ∧ cross (b - x) d < 0 := by
  rcases turn.lt_or_eq with left | straight
  · refine ⟨a - x + (b - x), ?_, ?_⟩
    · unfold cross at left ⊢
      rw [Prod.fst_add, Prod.snd_add]
      linarith
    · unfold cross at left ⊢
      rw [Prod.fst_add, Prod.snd_add]
      linarith
  · obtain ⟨t, pos, same⟩ := fork.straight_on straight.symm
    have square : 0 < (a - x).1 * (a - x).1 + (a - x).2 * (a - x).2 := by
      by_contra none
      have first := mul_self_nonneg (a - x).1
      have second := mul_self_nonneg (a - x).2
      exact fork.ne_zero (Prod.ext (mul_self_eq_zero.mp (by linarith)) (mul_self_eq_zero.mp (by linarith)))
    refine ⟨(-(a - x).2, (a - x).1), ?_, ?_⟩
    · unfold cross
      linarith
    · rw [same]
      unfold cross
      rw [Prod.smul_fst, Prod.smul_snd, smul_eq_mul, smul_eq_mul]
      have := mul_pos pos square
      linarith

variable (x a b r) in
/-- Left of the first branch and right of the second. -/
def left : Set (ℝ × ℝ) := {z | z ∈ Metric.ball x r ∧ 0 < cross (a - x) (z - x) ∧ cross (b - x) (z - x) < 0}

variable (x a b r) in
/-- Right of the first branch or left of the second. -/
def right : Set (ℝ × ℝ) := {z | z ∈ Metric.ball x r ∧ (cross (a - x) (z - x) < 0 ∨ 0 < cross (b - x) (z - x))}

theorem convex_left : Convex ℝ (left x a b r) := by
  have same : left x a b r =
      Metric.ball x r ∩ ({z | 0 < cross (a - x) (z - x)} ∩ {z | 0 < cross (-(b - x)) (z - x)}) := by
    ext z
    show _ ∧ _ ∧ _ ↔ _ ∧ _ ∧ 0 < cross (-(b - x)) (z - x)
    rw [cross_neg_left, neg_pos]
    exact Iff.rfl
  rw [same]
  exact (convex_ball x r).inter ((convex_halfPlane _ x).inter (convex_halfPlane _ x))

theorem tendsto_along (z d : ℝ × ℝ) : Filter.Tendsto (fun t : ℝ => z + t • d) (𝓝[>] 0) (𝓝 z) := by
  have continuous : Continuous fun t : ℝ => z + t • d := by fun_prop
  exact (continuous.tendsto' 0 z (by simp)).mono_left nhdsWithin_le_nhds

/-- A point close by stays close by for a while in any direction. -/
theorem eventually_mem_ball (near : z ∈ Metric.ball x r) (d : ℝ × ℝ) :
    ∀ᶠ t in 𝓝[>] (0 : ℝ), 0 < t ∧ z + t • d ∈ Metric.ball x r :=
  eventually_mem_nhdsWithin.and ((tendsto_along z d).eventually (Metric.isOpen_ball.mem_nhds near))

theorem cross_along (u d : ℝ × ℝ) (t : ℝ) : cross u (z + t • d - x) = cross u (z - x) + t * cross u d := by
  simp only [cross, Prod.fst_sub, Prod.snd_sub, Prod.fst_add, Prod.snd_add, Prod.smul_fst, Prod.smul_snd, smul_eq_mul]
  ring

theorem isPreconnected_right (fork : Fork o x a b r) (turn : 0 ≤ cross (a - x) (b - x)) :
    IsPreconnected (right x a b r) := by
  have same : right x a b r = Metric.ball x r ∩ {z | 0 < cross (-(a - x)) (z - x)} ∪
      Metric.ball x r ∩ {z | 0 < cross (b - x) (z - x)} := by
    ext z
    show _ ∧ (_ ∨ _) ↔ (_ ∧ 0 < cross (-(a - x)) (z - x)) ∨ _
    rw [cross_neg_left, neg_pos]
    exact and_or_left
  obtain ⟨d, first, second⟩ := fork.exists_direction turn
  obtain ⟨t, pos, near⟩ := (eventually_mem_ball (Metric.mem_ball_self fork.pos) (-d)).exists
  have turned (u : ℝ × ℝ) : cross u (x + t • -d - x) = -(t * cross u d) := by
    rw [cross_along (z := x) u (-d) t]
    simp only [cross, Prod.fst_sub, Prod.snd_sub, Prod.fst_neg, Prod.snd_neg]
    ring
  rw [same]
  refine IsPreconnected.union (x + t • -d) ⟨near, ?_⟩ ⟨near, ?_⟩
    ((convex_ball x r).inter (convex_halfPlane _ x)).isPreconnected
    ((convex_ball x r).inter (convex_halfPlane _ x)).isPreconnected
  · show 0 < cross (-(a - x)) (x + t • -d - x)
    rw [cross_neg_left, turned, neg_neg]
    exact mul_pos pos first
  · show 0 < cross (b - x) (x + t • -d - x)
    rw [turned, neg_pos]
    exact mul_neg_of_pos_of_neg pos second

theorem exists_smul_of_on (on : OnSegment x a z) : ∃ t : ℝ, 0 ≤ t ∧ z - x = t • (a - x) := by
  obtain ⟨t, ⟨low, -⟩, rfl⟩ := on
  refine ⟨t, low, Prod.ext ?_ ?_⟩
  · exact add_sub_cancel_left _ _
  · exact add_sub_cancel_left _ _

theorem cross_smul_self (t : ℝ) (u : ℝ × ℝ) : cross u (t • u) = 0 := by
  simp only [cross, Prod.smul_fst, Prod.smul_snd, smul_eq_mul]
  ring

theorem cross_smul (t : ℝ) (u w : ℝ × ℝ) : cross u (t • w) = t * cross u w := by
  simp only [cross, Prod.smul_fst, Prod.smul_snd, smul_eq_mul]
  ring

theorem cross_swap (u w : ℝ × ℝ) : cross w u = -cross u w := by
  unfold cross
  ring

/-- The points of the branches lie on the border of both sides. -/
theorem signs (fork : Fork o x a b r) (turn : 0 ≤ cross (a - x) (b - x)) (near : z ∈ Metric.ball x r) (h : z ∈ o) :
    (0 ≤ cross (a - x) (z - x) ∧ cross (b - x) (z - x) ≤ 0) ∧
      (cross (a - x) (z - x) = 0 ∨ cross (b - x) (z - x) = 0) := by
  rcases (fork.here z near).mp h with on | on
  · obtain ⟨t, low, same⟩ := exists_smul_of_on on
    rw [same, cross_smul_self, cross_smul, cross_swap]
    exact ⟨⟨le_rfl, mul_nonpos_of_nonneg_of_nonpos low (neg_nonpos.mpr turn)⟩, Or.inl rfl⟩
  · obtain ⟨t, low, same⟩ := exists_smul_of_on on
    rw [same, cross_smul_self, cross_smul]
    exact ⟨⟨mul_nonneg low turn, le_rfl⟩, Or.inr rfl⟩

theorem left_subset (fork : Fork o x a b r) (turn : 0 ≤ cross (a - x) (b - x)) : left x a b r ⊆ oᶜ := by
  rintro z ⟨near, first, second⟩ h
  rcases (fork.signs turn near h).2 with zero | zero
  · exact absurd first zero.not_gt
  · exact absurd second zero.not_lt

theorem right_subset (fork : Fork o x a b r) (turn : 0 ≤ cross (a - x) (b - x)) : right x a b r ⊆ oᶜ := by
  rintro z ⟨near, side⟩ h
  obtain ⟨⟨first, second⟩, -⟩ := fork.signs turn near h
  rcases side with side | side
  · exact absurd side (not_lt.mpr first)
  · exact absurd side (not_lt.mpr second)

theorem beside (fork : Fork o x a b r) (turn : 0 ≤ cross (a - x) (b - x)) (near : z ∈ Metric.ball x r) (h : z ∉ o) :
    z ∈ left x a b r ∨ z ∈ right x a b r := by
  have not_first {t : ℝ} (low : 0 ≤ t) (same : z - x = t • (a - x)) : False :=
    h ((fork.here z near).mpr (Or.inl (onSegment_of_ray fork.first near low same)))
  have not_second {t : ℝ} (low : 0 ≤ t) (same : z - x = t • (b - x)) : False :=
    h ((fork.here z near).mpr (Or.inr (onSegment_of_ray fork.second near low same)))
  by_contra neither
  rw [not_or] at neither
  obtain ⟨notLeft, notRight⟩ := neither
  have first : 0 ≤ cross (a - x) (z - x) := not_lt.mp fun side => notRight ⟨near, Or.inl side⟩
  have second : cross (b - x) (z - x) ≤ 0 := not_lt.mp fun side => notRight ⟨near, Or.inr side⟩
  rcases first.lt_or_eq with left | zero
  · rcases second.lt_or_eq with right | zero
    · exact notLeft ⟨near, left, right⟩
    · obtain ⟨t, same⟩ := exists_smul fork.swap.ne_zero zero
      rcases le_or_gt 0 t with low | below
      · exact not_second low same
      · rw [same, cross_smul] at left
        exact absurd left (not_lt.mpr (mul_nonpos_of_nonpos_of_nonneg below.le turn))
  · obtain ⟨t, same⟩ := exists_smul fork.ne_zero zero.symm
    rcases le_or_gt 0 t with low | below
    · exact not_first low same
    · -- then the fork goes straight on, and the point is on the other branch
      rw [same, cross_smul, cross_swap, mul_neg, Left.neg_nonpos_iff] at second
      have straight : cross (a - x) (b - x) = 0 := le_antisymm (nonpos_of_mul_nonneg_right second below) turn
      obtain ⟨k, pos, onwards⟩ := fork.straight_on straight
      refine not_second (div_nonneg (neg_nonneg.mpr below.le) pos.le) (t := -t / k) ?_
      rw [same, onwards, smul_smul]
      congr 1
      field_simp

theorem borders_left (fork : Fork o x a b r) (turn : 0 ≤ cross (a - x) (b - x)) (near : z ∈ Metric.ball x r)
    (h : z ∈ o) : z ∈ closure (left x a b r) := by
  obtain ⟨d, first, second⟩ := fork.exists_direction turn
  obtain ⟨⟨low, high⟩, -⟩ := fork.signs turn near h
  apply mem_closure_of_tendsto (tendsto_along z d)
  filter_upwards [eventually_mem_ball near d] with t ht
  obtain ⟨pos, stays⟩ := ht
  refine ⟨stays, ?_, ?_⟩
  · rw [cross_along (a - x) d t]
    exact add_pos_of_nonneg_of_pos low (mul_pos pos first)
  · rw [cross_along (b - x) d t]
    exact add_neg_of_nonpos_of_neg high (mul_neg_of_pos_of_neg pos second)

theorem borders_right (fork : Fork o x a b r) (turn : 0 ≤ cross (a - x) (b - x)) (near : z ∈ Metric.ball x r)
    (h : z ∈ o) : z ∈ closure (right x a b r) := by
  obtain ⟨d, first, second⟩ := fork.exists_direction turn
  apply mem_closure_of_tendsto (tendsto_along z (-d))
  filter_upwards [eventually_mem_ball near (-d)] with t ht
  obtain ⟨pos, stays⟩ := ht
  refine ⟨stays, ?_⟩
  rw [cross_along (a - x) (-d) t, cross_along (b - x) (-d) t]
  have back (u : ℝ × ℝ) : cross u (-d) = -cross u d := by
    simp only [cross, Prod.fst_neg, Prod.snd_neg]
    ring
  rw [back, back]
  rcases (fork.signs turn near h).2 with zero | zero
  · left
    rw [zero, zero_add, mul_neg, neg_lt_zero]
    exact mul_pos pos first
  · right
    rw [zero, zero_add, mul_neg, neg_pos]
    exact mul_neg_of_pos_of_neg pos second

/-- A fork has two sides. -/
theorem nonempty_twoSidesAt (fork : Fork o x a b r) : Nonempty (TwoSidesAt o x) := by
  have made {a b : ℝ × ℝ} (fork : Fork o x a b r) (turn : 0 ≤ cross (a - x) (b - x)) : TwoSidesAt o x :=
    { near := Metric.ball x r
      isOpen := Metric.isOpen_ball
      mem := Metric.mem_ball_self fork.pos
      left := left x a b r
      right := right x a b r
      left_connected := convex_left.isPreconnected
      right_connected := fork.isPreconnected_right turn
      left_subset := fork.left_subset turn
      right_subset := fork.right_subset turn
      beside := fun z near h => fork.beside turn near h
      borders_left := fun z near h => fork.borders_left turn near h
      borders_right := fun z near h => fork.borders_right turn near h }
  rcases le_total 0 (cross (a - x) (b - x)) with turn | turn
  · exact ⟨made fork turn⟩
  · refine ⟨made fork.swap ?_⟩
    unfold cross at turn ⊢
    linarith

end Fork

/-! ## Polygons -/

/-- No two edges have a point in common, except for the end at which an edge follows on another. -/
structure Simple {n : Nat} [NeZero n] (v : Fin n → ℝ × ℝ) : Prop where
  three : 3 ≤ n
  long : ∀ i, v i ≠ v (i + 1)
  apart : ∀ i j p, i ≠ j → OnSegment (v i) (v (i + 1)) p → OnSegment (v j) (v (j + 1)) p →
    (j = i + 1 ∧ p = v j) ∨ (i = j + 1 ∧ p = v i)

section Polygon

variable {n : Nat} [NeZero n] {v : Fin n → ℝ × ℝ} {p q x : ℝ × ℝ}

/-- The points of the edges. -/
def outline (v : Fin n → ℝ × ℝ) : Set (ℝ × ℝ) := {p | OnOutline v p}

theorem onSegment_iff {a b : ℝ × ℝ} : OnSegment a b p ↔ p ∈ segment ℝ a b := by
  rw [segment_eq_image']
  constructor
  · rintro ⟨t, within, rfl⟩
    exact ⟨t, within, rfl⟩
  · rintro ⟨t, within, rfl⟩
    exact ⟨t, within, rfl⟩

theorem outline_eq (v : Fin n → ℝ × ℝ) : outline v = ⋃ i, segment ℝ (v i) (v (i + 1)) := by
  ext p
  rw [mem_iUnion]
  exact exists_congr fun i => onSegment_iff

theorem isClosed_segment (a b : ℝ × ℝ) : IsClosed (segment ℝ a b) := by
  rw [segment_eq_image']
  have continuous : Continuous fun t : ℝ => a + t • (b - a) := by fun_prop
  exact (isCompact_Icc.image continuous).isClosed

theorem isClosed_outline : IsClosed (outline v) := by
  rw [outline_eq]
  exact isClosed_iUnion_of_finite fun i => isClosed_segment _ _

theorem outline_nonempty : (outline v).Nonempty := ⟨v 0, 0, 0, ⟨le_rfl, zero_le_one⟩, by simp⟩

theorem isPreconnected_outline : IsPreconnected (outline v) := by
  -- around the polygon without an end, so that each edge meets the one after it
  have around : outline v = ⋃ k : ℕ, segment ℝ (v (Fin.ofNat n k)) (v (Fin.ofNat n k + 1)) := by
    rw [outline_eq]
    ext p
    rw [mem_iUnion, mem_iUnion]
    constructor
    · rintro ⟨i, on⟩
      refine ⟨i, ?_⟩
      rwa [Fin.ofNat_val_eq_self]
    · rintro ⟨k, on⟩
      exact ⟨_, on⟩
  rw [around]
  apply IsPreconnected.iUnion_of_chain
  · exact fun k => (convex_segment _ _).isPreconnected
  · intro k
    refine ⟨v (Fin.ofNat n k + 1), right_mem_segment ℝ _ _, ?_⟩
    have next : Fin.ofNat n (k + 1) = Fin.ofNat n k + 1 := by
      apply Fin.ext
      rw [Fin.val_add, Fin.val_ofNat, Fin.val_ofNat, Fin.val_one', ← Nat.add_mod]
    rw [Order.succ_eq_add_one]
    rw [next]
    exact left_mem_segment ℝ _ _

/-! ## The parity of a part -/

theorem parity_eq_of_partOf (h : q ∈ partOf (outline v) p) : parity v p = parity v q := by
  have beside : p ∉ outline v := by
    intro on
    rw [partOf, connectedComponentIn_eq_empty (not_not.mpr on)] at h
    cases h
  let _ : TopologicalSpace (ZMod 2) := ⊥
  have _ : DiscreteTopology (ZMod 2) := ⟨rfl⟩
  have continuous : ContinuousOn (parity v) (partOf (outline v) p) := by
    intro z hz
    have beside : z ∉ outline v := connectedComponentIn_subset _ _ hz
    obtain ⟨r, pos, clear⟩ := Metric.isOpen_iff.mp isClosed_outline.isOpen_compl z beside
    apply ContinuousAt.continuousWithinAt
    have same : ∀ᶠ w in 𝓝 z, parity v z = parity v w := by
      filter_upwards [Metric.ball_mem_nhds z pos] with w hw
      apply parity_eq
      intro y on
      exact clear ((convex_ball z r).segment_subset (Metric.mem_ball_self pos) hw (onSegment_iff.mp on))
    exact continuousAt_const.congr same
  exact isPreconnected_connectedComponentIn.constant continuous (mem_partOf beside) h

/-! ## The forks of a simple polygon -/

theorem exists_clear (x : ℝ × ℝ) (v : Fin n → ℝ × ℝ) : ∃ r, 0 < r ∧ ∀ i, ¬ OnSegment (v i) (v (i + 1)) x →
    ∀ z ∈ Metric.ball x r, ¬ OnSegment (v i) (v (i + 1)) z := by
  let others : Set (ℝ × ℝ) := ⋃ i : {i // ¬ OnSegment (v i) (v (i + 1)) x}, segment ℝ (v i.1) (v (i.1 + 1))
  have closed : IsClosed others := isClosed_iUnion_of_finite fun i => isClosed_segment _ _
  have beside : x ∈ othersᶜ := by
    intro mem
    obtain ⟨⟨i, off⟩, on⟩ := mem_iUnion.mp mem
    exact off (onSegment_iff.mpr on)
  obtain ⟨r, pos, clear⟩ := Metric.isOpen_iff.mp closed.isOpen_compl x beside
  refine ⟨r, pos, ?_⟩
  intro i off z near on
  exact clear near (mem_iUnion.mpr ⟨⟨i, off⟩, onSegment_iff.mp on⟩)

theorem exists_fork_of {a b : ℝ × ℝ} (first : a ≠ x) (second : b ≠ x)
    (covers : ∀ i, OnSegment (v i) (v (i + 1)) x → ∀ z, OnSegment (v i) (v (i + 1)) z →
      OnSegment x a z ∨ OnSegment x b z)
    (within : ∀ z, OnSegment x a z ∨ OnSegment x b z → z ∈ outline v)
    (meet : ∀ z, OnSegment x a z → OnSegment x b z → z = x) : ∃ r, Fork (outline v) x a b r := by
  obtain ⟨r, pos, clear⟩ := exists_clear x v
  refine ⟨min r (min ‖a - x‖ ‖b - x‖), ?_, ?_, ?_, ?_, meet⟩
  · exact lt_min pos (lt_min (norm_pos_iff.mpr (sub_ne_zero.mpr first)) (norm_pos_iff.mpr (sub_ne_zero.mpr second)))
  · exact (min_le_right _ _).trans (min_le_left _ _)
  · exact (min_le_right _ _).trans (min_le_right _ _)
  · intro z near
    refine ⟨?_, within z⟩
    rintro ⟨i, on⟩
    apply covers i _ z on
    by_contra off
    exact clear i off z (Metric.ball_subset_ball (min_le_left _ _) near) on

namespace Simple

theorem ne_next (simple : Simple v) (i : Fin n) : i + 1 ≠ i := by
  intro same
  exact simple.long i (congrArg v same.symm)

theorem ne_next_next (simple : Simple v) (i : Fin n) : i + 1 + 1 ≠ i := by
  intro same
  rw [add_assoc, add_eq_left] at same
  have := congrArg Fin.val same
  rw [Fin.val_add, Fin.val_one', ← Nat.add_mod, Nat.mod_eq_of_lt (by have := simple.three; omega)] at this
  cases this

/-- At a corner two edges meet. -/
theorem exists_fork_corner (simple : Simple v) (j : Fin n) : ∃ a b r, Fork (outline v) (v (j + 1)) a b r := by
  refine ⟨v j, v (j + 1 + 1), exists_fork_of (simple.long j) (simple.long (j + 1)).symm ?_ ?_ ?_⟩
  · intro i here z on
    by_cases own : i = j + 1
    · subst own
      exact Or.inr on
    · rcases simple.apart i (j + 1) _ own here ⟨0, ⟨le_rfl, zero_le_one⟩, by simp⟩ with ⟨next, -⟩ | ⟨back, same⟩
      · obtain rfl := add_right_cancel next
        exact Or.inl on.swap
      · exact absurd (same.trans (congrArg v back)) (simple.long (j + 1))
  · rintro z (on | on)
    · exact ⟨j, on.swap⟩
    · exact ⟨j + 1, on⟩
  · intro z on on'
    rcases simple.apart j (j + 1) z (simple.ne_next j).symm on.swap on' with ⟨-, same⟩ | ⟨back, -⟩
    · exact same
    · exact absurd back.symm (simple.ne_next_next j)

/-- Elsewhere an edge goes straight on. -/
theorem exists_fork_between (simple : Simple v) {i : Fin n} (on : OnSegment (v i) (v (i + 1)) x) (first : v i ≠ x)
    (second : v (i + 1) ≠ x) : ∃ a b r, Fork (outline v) x a b r := by
  refine ⟨v i, v (i + 1), exists_fork_of first second ?_ ?_ ?_⟩
  · intro j here z hz
    by_cases own : i = j
    · subst own
      exact on.split hz
    · rcases simple.apart i j x own on here with ⟨rfl, same⟩ | ⟨-, same⟩
      · exact absurd same.symm second
      · exact absurd same.symm first
  · rintro z (part | part)
    · exact ⟨i, on.of_part part⟩
    · exact ⟨i, (on.swap.of_part part).swap⟩
  · intro z part part'
    exact on.eq_of_parts (simple.long i) part part'

theorem exists_fork (simple : Simple v) (on : x ∈ outline v) : ∃ a b r, Fork (outline v) x a b r := by
  obtain ⟨i, on⟩ := on
  by_cases second : v (i + 1) = x
  · subst second
    exact simple.exists_fork_corner i
  by_cases first : v i = x
  · obtain ⟨j, rfl⟩ : ∃ j, i = j + 1 := ⟨i - 1, (sub_add_cancel i 1).symm⟩
    subst first
    exact simple.exists_fork_corner j
  exact simple.exists_fork_between on first second

theorem sides (simple : Simple v) : ∀ x ∈ outline v, Nonempty (TwoSidesAt (outline v) x) := by
  intro x on
  obtain ⟨a, b, r, fork⟩ := simple.exists_fork on
  exact fork.nonempty_twoSidesAt

/-- Beside a simple polygon there are at most two parts. -/
theorem partOf_eq (simple : Simple v) {r : ℝ × ℝ} (hp : p ∉ outline v) (hq : q ∉ outline v) (hr : r ∉ outline v) :
    partOf (outline v) p = partOf (outline v) q ∨ partOf (outline v) p = partOf (outline v) r ∨
      partOf (outline v) q = partOf (outline v) r :=
  exists_partOf_eq isClosed_outline isPreconnected_outline outline_nonempty simple.sides hp hq hr

/-! ## The two parts -/

/-- Not all edges of a simple polygon are level. -/
theorem exists_steep (simple : Simple v) : ∃ i, (v i).2 ≠ (v (i + 1)).2 := by
  by_contra flat
  push Not at flat
  -- the two edges from a corner on the far left would lie on each other
  obtain ⟨k, -, leftmost⟩ := Finset.exists_min_image Finset.univ (fun i => (v i).1) Finset.univ_nonempty
  obtain ⟨j, rfl⟩ : ∃ j, k = j + 1 := ⟨k - 1, (sub_add_cancel k 1).symm⟩
  have right {i : Fin n} (level : (v i).2 = (v (j + 1)).2) (apart : v i ≠ v (j + 1)) : (v (j + 1)).1 < (v i).1 :=
    lt_of_le_of_ne (leftmost i (Finset.mem_univ _)) fun same => apart (Prod.ext same.symm level)
  have first := right (flat j) (simple.long j)
  have second := right (flat (j + 1)).symm (simple.long (j + 1)).symm
  have onFirst := onSegment_level (flat j).symm (le_min first.le second.le) (min_le_left _ _)
  have onSecond := onSegment_level (flat (j + 1)) (le_min first.le second.le) (min_le_right _ _)
  rcases simple.apart j (j + 1) _ (simple.ne_next j).symm onFirst.swap onSecond with ⟨-, same⟩ | ⟨back, -⟩
  · exact absurd (congrArg Prod.fst same) (lt_min first second).ne'
  · exact simple.ne_next_next j back.symm

/-- Somewhere the number of crossings is odd: at the height of an edge, just left of the last crossing. -/
theorem exists_parity_one (simple : Simple v) : ∃ p, p ∉ outline v ∧ parity v p = 1 := by
  obtain ⟨k, steep⟩ := simple.exists_steep
  -- a height at which there is no corner
  obtain ⟨h, ⟨low, high⟩, between⟩ : ∃ h, (min (v k).2 (v (k + 1)).2 < h ∧ h < max (v k).2 (v (k + 1)).2) ∧
      ∀ i, (v i).2 ≠ h := by
    obtain ⟨h, within, off⟩ := (Ioo_infinite (min_lt_max.mpr steep)).exists_notMem_finset
      (Finset.univ.image fun i => (v i).2)
    exact ⟨h, within, fun i same => off (Finset.mem_image.mpr ⟨i, Finset.mem_univ _, same⟩)⟩
  let straddles (i : Fin n) : Prop := h < (v i).2 ↔ ¬ h < (v (i + 1)).2
  let cut (i : Fin n) : ℝ := passes (v i) (v (i + 1)) h
  have some : straddles k := by
    rcases lt_or_gt_of_ne steep with rises | falls
    · rw [min_eq_left rises.le] at low
      rw [max_eq_right rises.le] at high
      exact iff_of_false low.not_gt (not_not.mpr high)
    · rw [min_eq_right falls.le] at low
      rw [max_eq_left falls.le] at high
      exact iff_of_true high low.not_gt
  obtain ⟨m, hm, last⟩ := Finset.exists_max_image (Finset.univ.filter straddles) cut ⟨k, by simpa using some⟩
  have hm : straddles m := by simpa using hm
  have before {i : Fin n} (hi : straddles i) (other : i ≠ m) : cut i < cut m := by
    refine lt_of_le_of_ne (last i (by simpa using hi)) ?_
    intro same
    have on := onSegment_of_straddles hi
    have on' := onSegment_of_straddles hm
    rw [show passes (v i) (v (i + 1)) h = passes (v m) (v (m + 1)) h from same] at on
    rcases simple.apart i m _ other on on' with ⟨-, corner⟩ | ⟨-, corner⟩
    · exact between m (congrArg Prod.snd corner).symm
    · exact between i (congrArg Prod.snd corner).symm
  obtain ⟨c, others, left⟩ := Order.exists_between_finsets (((Finset.univ.filter straddles).erase m).image cut)
    {cut m} (by
      intro x hx y hy
      obtain ⟨i, hi, rfl⟩ := Finset.mem_image.mp hx
      obtain ⟨other, hi⟩ := Finset.mem_erase.mp hi
      rw [Finset.mem_singleton.mp hy]
      exact before (by simpa using hi) other)
  have left : c < cut m := left _ (Finset.mem_singleton_self _)
  have others {i : Fin n} (hi : straddles i) (other : i ≠ m) : cut i < c :=
    others _ (Finset.mem_image_of_mem _ (Finset.mem_erase.mpr ⟨other, by simpa using hi⟩))
  refine ⟨(c, h), ?_, ?_⟩
  · rintro ⟨i, on⟩
    have hi : straddles i := on.straddles (between i) (between (i + 1))
    have same : c = cut i := on.eq_passes fun level => by
      have turned : h < (v i).2 ↔ ¬ h < (v (i + 1)).2 := hi
      rw [level] at turned
      exact iff_not_self turned
    by_cases own : i = m
    · exact absurd left (own ▸ same.not_lt)
    · exact absurd (others hi own) same.not_gt
  · have only (i : Fin n) : Crosses (c, h) (v i) (v (i + 1)) ↔ i = m := by
      constructor
      · intro crosses
        by_contra other
        exact absurd crosses.2 (not_lt.mpr (others crosses.1 other).le)
      · rintro rfl
        exact ⟨hm, left⟩
    unfold parity
    rw [Finset.sum_congr rfl fun i _ => if_congr (only i) rfl rfl, Finset.sum_ite_eq', if_pos (Finset.mem_univ _)]

end Simple

/-- The points whose part is bounded. -/
def inside (v : Fin n → ℝ × ℝ) : Set (ℝ × ℝ) := {p | p ∉ outline v ∧ Bornology.IsBounded (partOf (outline v) p)}

/-- A bound for the corners. -/
def extent (v : Fin n → ℝ × ℝ) : ℝ := ∑ i, ‖v i‖

omit [NeZero n] in
theorem norm_le_extent (v : Fin n → ℝ × ℝ) (i : Fin n) : ‖v i‖ ≤ extent v :=
  Finset.single_le_sum (f := fun i => ‖v i‖) (fun _ _ => norm_nonneg _) (Finset.mem_univ i)

theorem InBox.norm_le (h : InBox v p) : ‖p‖ ≤ extent v := by
  obtain ⟨⟨i, left⟩, ⟨j, right⟩, ⟨k, below⟩, ⟨l, above⟩⟩ := h
  have first (i : Fin n) : |(v i).1| ≤ extent v := (norm_fst_le (v i)).trans (norm_le_extent v i)
  have second (i : Fin n) : |(v i).2| ≤ extent v := (norm_snd_le (v i)).trans (norm_le_extent v i)
  rw [Prod.norm_def, max_le_iff, Real.norm_eq_abs, Real.norm_eq_abs, abs_le, abs_le]
  exact ⟨⟨(abs_le.mp (first i)).1.trans left, right.trans (abs_le.mp (first j)).2⟩,
    (abs_le.mp (second k)).1.trans below, above.trans (abs_le.mp (second l)).2⟩

/-- Far out there is a part that is not bounded. -/
theorem exists_unbounded (v : Fin n → ℝ × ℝ) :
    ∃ p, p ∉ outline v ∧ parity v p = 0 ∧ ¬ Bornology.IsBounded (partOf (outline v) p) := by
  let beyond : Set (ℝ × ℝ) := {z | extent v < z.1}
  have far {z : ℝ × ℝ} (hz : z ∈ beyond) : ¬ InBox v z := by
    intro within
    have := (le_abs_self z.1).trans ((norm_fst_le z).trans within.norm_le)
    exact absurd hz (not_lt.mpr this)
  have connected : IsPreconnected beyond :=
    (convex_halfSpace_gt (LinearMap.fst ℝ ℝ ℝ).isLinear (extent v)).isPreconnected
  have beside : beyond ⊆ (outline v)ᶜ := fun z hz on => far hz on.inBox
  have mem : (extent v + 1, 0) ∈ beyond := lt_add_one (extent v)
  refine ⟨(extent v + 1, 0), beside mem, parity_of_not_inBox (far mem), ?_⟩
  intro bounded
  obtain ⟨r, all⟩ := (bounded.subset (subset_partOf connected beside mem)).exists_norm_le
  have out : (max (extent v) r + 1, 0) ∈ beyond :=
    (le_max_left (extent v) r).trans_lt (lt_add_one (max (extent v) r))
  have := (le_abs_self _).trans ((norm_fst_le _).trans (all _ out))
  exact absurd ((le_max_right (extent v) r).trans_lt (lt_add_one _)) (not_lt.mpr this)

/-- The inside of a simple polygon are the points from which a ray crosses it an odd number of times. -/
theorem Simple.mem_inside_iff (simple : Simple v) (h : p ∉ outline v) : p ∈ inside v ↔ parity v p = 1 := by
  obtain ⟨far, hfar, even, unbounded⟩ := exists_unbounded v
  obtain ⟨within, hwithin, odd⟩ := simple.exists_parity_one
  have same {p q : ℝ × ℝ} (hq : q ∉ outline v) (eq : partOf (outline v) p = partOf (outline v) q) :
      parity v p = parity v q := parity_eq_of_partOf (eq ▸ mem_partOf hq)
  constructor
  · rintro ⟨-, bounded⟩
    rcases simple.partOf_eq h hfar hwithin with eq | eq | eq
    · exact absurd (eq ▸ bounded) unbounded
    · rw [same hwithin eq, odd]
    · have := same hwithin eq
      rw [even, odd] at this
      exact absurd this (by decide)
  · intro own
    refine ⟨h, ?_⟩
    refine (isBounded_iff_forall_norm_le.mpr ⟨extent v, ?_⟩)
    intro z hz
    by_contra out
    have := parity_eq_of_partOf hz
    rw [own, parity_of_not_inBox fun box => out box.norm_le] at this
    exact absurd this (by decide)

theorem isOpen_inside : IsOpen (inside v) := by
  rw [isOpen_iff_mem_nhds]
  rintro p ⟨beside, bounded⟩
  have isOpen : IsOpen (partOf (outline v) p) := isClosed_outline.isOpen_compl.connectedComponentIn
  filter_upwards [isOpen.mem_nhds (mem_partOf beside)] with q hq
  exact ⟨connectedComponentIn_subset _ _ hq, Plane.partOf_eq hq ▸ bounded⟩

/-- Whatever hangs together with a point inside, without meeting the outline, is inside. -/
theorem subset_inside {S : Set (ℝ × ℝ)} (connected : IsPreconnected S) (beside : S ⊆ (outline v)ᶜ) (mem : p ∈ S)
    (h : p ∈ inside v) : S ⊆ inside v := by
  intro q hq
  have here := subset_partOf connected beside mem hq
  exact ⟨beside hq, Plane.partOf_eq here ▸ h.2⟩

/-- What is inside lies in the box. -/
theorem inBox_of_mem_inside (simple : Simple v) (h : p ∈ inside v) : InBox v p := by
  by_contra out
  have odd := (simple.mem_inside_iff h.1).mp h
  rw [parity_of_not_inBox out] at odd
  exact absurd odd (by decide)

/-- Close to each point of the outline there are points outside. -/
theorem Simple.exists_outside (simple : Simple v) (on : x ∈ outline v) {N : Set (ℝ × ℝ)} (isOpen : IsOpen N)
    (mem : x ∈ N) : ∃ z ∈ N, z ∉ outline v ∧ z ∉ inside v := by
  obtain ⟨far, beside, -, unbounded⟩ := exists_unbounded v
  have close := subset_closure_partOf isClosed_outline isPreconnected_outline outline_nonempty simple.sides beside on
  obtain ⟨z, near, there⟩ := mem_closure_iff.mp close N isOpen mem
  refine ⟨z, near, connectedComponentIn_subset _ _ there, ?_⟩
  rintro ⟨-, bounded⟩
  exact unbounded (Plane.partOf_eq there ▸ bounded)

end Polygon

/-! ## Triangles -/

theorem eq_of_onSegments {a b c p : ℝ × ℝ} (wide : area a b c ≠ 0) (first : OnSegment a b p)
    (second : OnSegment b c p) : p = b := by
  obtain ⟨t, -, rfl⟩ := first
  obtain ⟨u, -, same⟩ := second
  rw [Prod.mk.injEq] at same
  have weights : Weights a b c (a.1 + t * (b.1 - a.1), a.2 + t * (b.2 - a.2)) (1 - t, t, 0) :=
    ⟨by ring, by ring, by ring⟩
  have weights' : Weights a b c (a.1 + t * (b.1 - a.1), a.2 + t * (b.2 - a.2)) (0, 1 - u, u) :=
    ⟨by ring, by linear_combination same.1, by linear_combination same.2⟩
  have zero : 1 - t = 0 := congrArg Prod.fst ((weights.eq wide).trans (weights'.eq wide).symm)
  refine Prod.ext ?_ ?_
  · linear_combination (a.1 - b.1) * zero
  · linear_combination (a.2 - b.2) * zero

theorem onSide_of_outline {v : Fin 3 → ℝ × ℝ} {p : ℝ × ℝ} (h : p ∈ outline v) : OnSide (v 0) (v 1) (v 2) p := by
  obtain ⟨i, on⟩ := h
  fin_cases i
  · exact Or.inl on
  · exact Or.inr (Or.inl on)
  · exact Or.inr (Or.inr on)

/-- A triangle with an area is a simple polygon. -/
theorem simple_of_area {v : Fin 3 → ℝ × ℝ} (wide : area (v 0) (v 1) (v 2) ≠ 0) : Simple v := by
  have wide' : area (v 1) (v 2) (v 0) ≠ 0 := by
    convert wide using 1
    unfold area
    ring
  have wide'' : area (v 2) (v 0) (v 1) ≠ 0 := by
    convert wide using 1
    unfold area
    ring
  have long {a b c : ℝ × ℝ} (wide : area a b c ≠ 0) : a ≠ b := by
    rintro rfl
    apply wide
    unfold area
    ring
  refine ⟨le_rfl, ?_, ?_⟩
  · intro i
    fin_cases i
    · exact long wide
    · exact long wide'
    · exact long wide''
  · intro i j p other first second
    fin_cases i <;> fin_cases j
    · exact absurd rfl other
    · exact Or.inl ⟨rfl, eq_of_onSegments wide first second⟩
    · exact Or.inr ⟨rfl, eq_of_onSegments wide'' second first⟩
    · exact Or.inr ⟨rfl, eq_of_onSegments wide second first⟩
    · exact absurd rfl other
    · exact Or.inl ⟨rfl, eq_of_onSegments wide' first second⟩
    · exact Or.inl ⟨rfl, eq_of_onSegments wide'' first second⟩
    · exact Or.inr ⟨rfl, eq_of_onSegments wide' second first⟩
    · exact absurd rfl other

end TcadWebapp.Plane
