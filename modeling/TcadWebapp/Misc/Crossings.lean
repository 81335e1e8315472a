import Mathlib.Algebra.BigOperators.Group.Finset.Basic
import Mathlib.Algebra.CharP.Two
import Mathlib.Algebra.Field.ZMod
import Mathlib.Data.Fin.Basic
import Mathlib.Data.ZMod.Basic
import TcadWebapp.Misc.Triangles

/-!
# Crossings of a ray

The ray that leaves a point to the right and the edges that it crosses. When the point moves along a
way that meets no edge, the crossings of an edge change only with its ends that the ray passes over.
-/

namespace TcadWebapp.Plane

variable {F : Type*} [Field F] [LinearOrder F] {a b p q : F × F} {h k : F}

/-- Where the line through two points is at a height. -/
def passes (a b : F × F) (h : F) : F := a.1 + (h - a.2) * (b.1 - a.1) / (b.2 - a.2)

/-- The ray crosses the edge. An end at the height of the ray counts as below. -/
def Crosses (p a b : F × F) : Prop := (p.2 < a.2 ↔ ¬ p.2 < b.2) ∧ p.1 < passes a b p.2

instance (p a b : F × F) : Decidable (Crosses p a b) := inferInstanceAs (Decidable (_ ∧ _))

/-- The two segments have no common point. -/
def Apart (p q a b : F × F) : Prop := ∀ w, OnSegment p q w → ¬ OnSegment a b w

omit [LinearOrder F] in
theorem passes_first (a b : F × F) : passes a b a.2 = a.1 := by
  unfold passes
  simp

omit [LinearOrder F] in
theorem passes_second (level : a.2 ≠ b.2) : passes a b b.2 = b.1 := by
  unfold passes
  rw [mul_div_cancel_left₀ _ (sub_ne_zero.mpr level.symm)]
  ring

omit [LinearOrder F] in
theorem passes_swap (level : a.2 ≠ b.2) (h : F) : passes b a h = passes a b h := by
  have up := sub_ne_zero.mpr level
  have down := sub_ne_zero.mpr level.symm
  unfold passes
  field_simp
  ring

omit [LinearOrder F] in
theorem passes_along (a b : F × F) (h k t : F) :
    passes a b (h + t * (k - h)) = passes a b h + t * (passes a b k - passes a b h) := by
  unfold passes
  ring

theorem crosses_swap : Crosses p a b ↔ Crosses p b a := by
  unfold Crosses
  by_cases level : a.2 = b.2
  · rw [level]
    constructor <;> exact fun h => absurd h.1 iff_not_self
  · rw [passes_swap level]
    tauto

variable [IsStrictOrderedRing F]

theorem OnSegment.swap {w : F × F} (on : OnSegment a b w) : OnSegment b a w := by
  obtain ⟨t, ⟨low, high⟩, rfl⟩ := on
  refine ⟨1 - t, ⟨sub_nonneg.mpr high, sub_le_self _ low⟩, Prod.ext ?_ ?_⟩
  · dsimp only
    ring
  · dsimp only
    ring

theorem onSegment_passes (up : a.2 < b.2) (low : a.2 ≤ h) (high : h ≤ b.2) :
    OnSegment a b (passes a b h, h) := by
  have pos := sub_pos.mpr up
  refine ⟨(h - a.2) / (b.2 - a.2), ⟨div_nonneg (sub_nonneg.mpr low) pos.le,
    (div_le_one pos).mpr (sub_le_sub_right high _)⟩, Prod.ext ?_ ?_⟩
  · dsimp only [passes]
    rw [div_mul_eq_mul_div]
  · dsimp only
    rw [div_mul_cancel₀ _ pos.ne', add_sub_cancel]

omit [IsStrictOrderedRing F] in
theorem onSegment_of_eq {w : F × F} {t : F} (low : 0 ≤ t) (high : t ≤ 1) (x : w.1 - a.1 = t * (b.1 - a.1))
    (y : w.2 - a.2 = t * (b.2 - a.2)) : OnSegment a b w :=
  ⟨t, ⟨low, high⟩, Prod.ext (by linear_combination x) (by linear_combination y)⟩

/-- A point divides its segment in two, -/
theorem OnSegment.split {x w : F × F} (hx : OnSegment a b x) (hw : OnSegment a b w) :
    OnSegment x a w ∨ OnSegment x b w := by
  have before {a b : F × F} {s t : F} (pos : 0 ≤ t) (le : t ≤ s) :
      OnSegment (a.1 + s * (b.1 - a.1), a.2 + s * (b.2 - a.2)) a (a.1 + t * (b.1 - a.1), a.2 + t * (b.2 - a.2)) := by
    rcases (pos.trans le).lt_or_eq with above | rfl
    · refine onSegment_of_eq (div_nonneg (sub_nonneg.mpr le) above.le) ((div_le_one above).mpr (sub_le_self s pos)) ?_ ?_
      · dsimp only
        field_simp
        ring
      · dsimp only
        field_simp
        ring
    · obtain rfl := le_antisymm le pos
      exact ⟨0, ⟨le_rfl, zero_le_one⟩, by simp⟩
  obtain ⟨s, ⟨s_low, s_high⟩, rfl⟩ := hx
  obtain ⟨t, ⟨t_low, t_high⟩, rfl⟩ := hw
  rcases le_total t s with le | le
  · exact Or.inl (before t_low le)
  · right
    have turned (u : F) : (a.1 + u * (b.1 - a.1), a.2 + u * (b.2 - a.2)) =
        (b.1 + (1 - u) * (a.1 - b.1), b.2 + (1 - u) * (a.2 - b.2)) :=
      Prod.ext (by ring) (by ring)
    rw [turned s, turned t]
    exact before (sub_nonneg.mpr t_high) (sub_le_sub_left le 1)

/-- both of which are parts of it -/
theorem OnSegment.of_part {x w : F × F} (hx : OnSegment a b x) (hw : OnSegment x a w) : OnSegment a b w := by
  obtain ⟨s, ⟨s_low, s_high⟩, rfl⟩ := hx
  obtain ⟨t, ⟨t_low, t_high⟩, rfl⟩ := hw
  refine ⟨(1 - t) * s, ⟨mul_nonneg (sub_nonneg.mpr t_high) s_low,
    mul_le_one₀ (sub_le_self 1 t_low) s_low s_high⟩, Prod.ext ?_ ?_⟩
  · dsimp only
    ring
  · dsimp only
    ring

/-- and have only the point in common. -/
theorem OnSegment.eq_of_parts {x w : F × F} (long : a ≠ b) (hx : OnSegment a b x) (first : OnSegment x a w)
    (second : OnSegment x b w) : w = x := by
  obtain ⟨s, ⟨s_low, s_high⟩, rfl⟩ := hx
  obtain ⟨t, ⟨t_low, t_high⟩, rfl⟩ := first
  obtain ⟨u, ⟨u_low, u_high⟩, same⟩ := second
  rw [Prod.mk.injEq] at same
  dsimp only at same
  have zero : t * s + u * (1 - s) = 0 := by
    by_contra some
    refine long (Prod.ext ?_ ?_)
    · refine mul_left_cancel₀ some ?_
      linear_combination same.1
    · refine mul_left_cancel₀ some ?_
      linear_combination same.2
  have none : t * s = 0 := by
    have := mul_nonneg t_low s_low
    have := mul_nonneg u_low (sub_nonneg.mpr s_high)
    linarith
  refine Prod.ext ?_ ?_
  · dsimp only
    linear_combination (a.1 - b.1) * none
  · dsimp only
    linear_combination (a.2 - b.2) * none

/-- Two segments that rise past the same heights and do not meet keep their sides. -/
theorem Apart.left_of (apart : Apart p q a b) (up : p.2 < q.2) (rises : a.2 < b.2)
    (hp : p.2 ≤ h ∧ h ≤ q.2) (ha : a.2 ≤ h ∧ h ≤ b.2) (kp : p.2 ≤ k ∧ k ≤ q.2) (ka : a.2 ≤ k ∧ k ≤ b.2)
    (left : passes p q h < passes a b h) : passes p q k < passes a b k := by
  by_contra right
  have right := not_lt.mp right
  -- where the difference, which is linear in the height, is zero
  have pos : 0 < (passes a b h - passes p q h) + (passes p q k - passes a b k) := by linarith
  obtain ⟨t, low, high, zero⟩ : ∃ t : F, 0 ≤ t ∧ t ≤ 1 ∧
      (passes a b h - passes p q h) = t * ((passes a b h - passes p q h) + (passes p q k - passes a b k)) :=
    ⟨_, div_nonneg (sub_nonneg.mpr left.le) pos.le, (div_le_one pos).mpr (by linarith),
      (div_mul_cancel₀ _ pos.ne').symm⟩
  have same : passes p q (h + t * (k - h)) = passes a b (h + t * (k - h)) := by
    rw [passes_along, passes_along]
    linarith
  have between {l u : F} (hl : l ≤ h ∧ h ≤ u) (kl : l ≤ k ∧ k ≤ u) :
      l ≤ h + t * (k - h) ∧ h + t * (k - h) ≤ u := by
    constructor <;> nlinarith
  obtain ⟨p_low, p_high⟩ := between hp kp
  obtain ⟨a_low, a_high⟩ := between ha ka
  have first := onSegment_passes up p_low p_high
  have second := onSegment_passes rises a_low a_high
  rw [same] at first
  exact apart _ first second

theorem onSegment_level {c : F} (level : a.2 = b.2) (low : a.1 ≤ c) (high : c ≤ b.1) : OnSegment a b (c, a.2) := by
  rcases (low.trans high).lt_or_eq with lt | same
  · have pos := sub_pos.mpr lt
    refine ⟨(c - a.1) / (b.1 - a.1), ⟨div_nonneg (sub_nonneg.mpr low) pos.le,
      (div_le_one pos).mpr (sub_le_sub_right high _)⟩, Prod.ext ?_ ?_⟩
    · dsimp only
      rw [div_mul_cancel₀ _ pos.ne', add_sub_cancel]
    · dsimp only
      rw [level, sub_self, mul_zero, add_zero]
  · refine ⟨0, ⟨le_rfl, zero_le_one⟩, Prod.ext ?_ ?_⟩
    · dsimp only
      rw [zero_mul, add_zero]
      exact le_antisymm (high.trans same.ge) low
    · dsimp only
      rw [zero_mul, add_zero]

/-- A level segment lies on one side of whatever goes past its height without meeting it. -/
theorem level_iff {c : F} (apart : ¬ OnSegment a b (c, a.2)) (level : a.2 = b.2) :
    (c < a.1 ↔ c < b.1) ∧ (a.1 < c ↔ b.1 < c) := by
  have apart' : ¬ OnSegment b a (c, b.2) := fun on => apart (level ▸ on.swap)
  refine ⟨⟨fun left => ?_, fun left => ?_⟩, fun right => ?_, fun right => ?_⟩
  · by_contra beyond
    exact apart' (onSegment_level level.symm (not_lt.mp beyond) left.le)
  · by_contra beyond
    exact apart (onSegment_level level (not_lt.mp beyond) left.le)
  · by_contra beyond
    exact apart (onSegment_level level right.le (not_lt.mp beyond))
  · by_contra beyond
    exact apart' (onSegment_level level.symm right.le (not_lt.mp beyond))

/-- The ray passes over the point while its source goes up from one point to another. -/
def PassedOver (p q w : F × F) : Prop := p.2 < w.2 ∧ w.2 ≤ q.2 ∧ passes p q w.2 < w.1

omit [IsStrictOrderedRing F] in
theorem not_crosses_of_le (ha : a.2 ≤ p.2) (hb : b.2 ≤ p.2) : ¬ Crosses p a b :=
  fun h => absurd (h.1.mpr (not_lt.mpr hb)) (not_lt.mpr ha)

omit [IsStrictOrderedRing F] in
theorem not_crosses_of_lt (ha : p.2 < a.2) (hb : p.2 < b.2) : ¬ Crosses p a b :=
  fun h => absurd hb (h.1.mp ha)

omit [IsStrictOrderedRing F] in
theorem crosses_of_between (ha : a.2 ≤ p.2) (hb : p.2 < b.2) : Crosses p a b ↔ p.1 < passes a b p.2 :=
  and_iff_right (iff_of_false (not_lt.mpr ha) (not_not.mpr hb))

omit [IsStrictOrderedRing F] in
theorem passedOver_of_between {w : F × F} (low : p.2 < w.2) (high : w.2 ≤ q.2) :
    PassedOver p q w ↔ passes p q w.2 < w.1 :=
  ⟨fun h => h.2.2, fun h => ⟨low, high, h⟩⟩

/-- The crossings of an edge on the way of a source that meets no edge, by where the ends are. -/
theorem Apart.crosses_iff_of_le (apart : Apart p q a b) (up : p.2 ≤ q.2) (rises : a.2 ≤ b.2) :
    (Crosses p a b ↔ Crosses q a b) ↔ (PassedOver p q a ↔ PassedOver p q b) := by
  rcases le_or_gt b.2 p.2 with below | b_above
  · -- the whole edge below
    exact iff_of_true (iff_of_false (not_crosses_of_le (rises.trans below) below)
        (not_crosses_of_le ((rises.trans below).trans up) (below.trans up)))
      (iff_of_false (fun h => absurd h.1 (not_lt.mpr (rises.trans below))) fun h => absurd h.1 (not_lt.mpr below))
  rcases lt_or_ge q.2 a.2 with above | a_below
  · -- the whole edge above
    have b_high := above.trans_le rises
    exact iff_of_true (iff_of_false (not_crosses_of_lt (up.trans_lt above) b_above)
        (not_crosses_of_lt above b_high))
      (iff_of_false (fun h => absurd h.2.1 (not_le.mpr above)) fun h => absurd h.2.1 (not_le.mpr b_high))
  rcases up.lt_or_eq with up | level
  · have sides {h k : F} (hp : p.2 ≤ h ∧ h ≤ q.2) (ha : a.2 ≤ h ∧ h ≤ b.2) (kp : p.2 ≤ k ∧ k ≤ q.2)
        (ka : a.2 ≤ k ∧ k ≤ b.2) (steep : a.2 < b.2) :
        passes p q h < passes a b h ↔ passes p q k < passes a b k :=
      ⟨apart.left_of up steep hp ha kp ka, apart.left_of up steep kp ka hp ha⟩
    rcases le_or_gt a.2 p.2 with a_low | a_high
    · have steep := a_low.trans_lt b_above
      have not_a : ¬ PassedOver p q a := fun h => absurd h.1 (not_lt.mpr a_low)
      have start : Crosses p a b ↔ passes p q p.2 < passes a b p.2 := by
        rw [crosses_of_between a_low b_above, passes_first]
      rcases lt_or_ge q.2 b.2 with b_high | b_low
      · have not_b : ¬ PassedOver p q b := fun h => absurd h.2.1 (not_le.mpr b_high)
        have stop : Crosses q a b ↔ passes p q q.2 < passes a b q.2 := by
          rw [crosses_of_between a_below b_high, passes_second up.ne]
        have := sides ⟨le_rfl, up.le⟩ ⟨a_low, b_above.le⟩ ⟨up.le, le_rfl⟩ ⟨a_below, b_high.le⟩ steep
        tauto
      · have stop : ¬ Crosses q a b := not_crosses_of_le a_below b_low
        have passed : PassedOver p q b ↔ passes p q b.2 < passes a b b.2 := by
          rw [passedOver_of_between b_above b_low, passes_second steep.ne]
        have := sides ⟨le_rfl, up.le⟩ ⟨a_low, b_above.le⟩ ⟨b_above.le, b_low⟩ ⟨steep.le, le_rfl⟩ steep
        tauto
    · have start : ¬ Crosses p a b := not_crosses_of_lt a_high b_above
      have over_a : PassedOver p q a ↔ passes p q a.2 < passes a b a.2 := by
        rw [passedOver_of_between a_high a_below, passes_first]
      rcases lt_or_ge q.2 b.2 with b_high | b_low
      · have steep := a_below.trans_lt b_high
        have not_b : ¬ PassedOver p q b := fun h => absurd h.2.1 (not_le.mpr b_high)
        have stop : Crosses q a b ↔ passes p q q.2 < passes a b q.2 := by
          rw [crosses_of_between a_below b_high, passes_second up.ne]
        have := sides ⟨a_high.le, a_below⟩ ⟨le_rfl, steep.le⟩ ⟨up.le, le_rfl⟩ ⟨a_below, b_high.le⟩ steep
        tauto
      · have stop : ¬ Crosses q a b := not_crosses_of_le a_below b_low
        rcases rises.lt_or_eq with steep | flat
        · have over_b : PassedOver p q b ↔ passes p q b.2 < passes a b b.2 := by
            rw [passedOver_of_between b_above b_low, passes_second steep.ne]
          have := sides ⟨a_high.le, a_below⟩ ⟨le_rfl, steep.le⟩ ⟨b_above.le, b_low⟩ ⟨steep.le, le_rfl⟩ steep
          tauto
        · obtain ⟨this, -⟩ := level_iff (apart _ (onSegment_passes up a_high.le a_below)) flat
          rw [passedOver_of_between b_above b_low, passedOver_of_between a_high a_below, ← flat]
          tauto
  · -- the way is level
    have not_over (w : F × F) : ¬ PassedOver p q w := fun h => absurd (h.1.trans_le h.2.1) level.not_lt
    refine iff_of_true ?_ (iff_of_false (not_over a) (not_over b))
    rw [crosses_of_between (level ▸ a_below) b_above, crosses_of_between a_below (level ▸ b_above), level]
    have steep := a_below.trans_lt (level ▸ b_above)
    refine (level_iff (fun on => apart _ on ?_) level).2
    rw [level]
    exact onSegment_passes steep a_below (level ▸ b_above).le

theorem Apart.crosses_iff (apart : Apart p q a b) (up : p.2 ≤ q.2) :
    (Crosses p a b ↔ Crosses q a b) ↔ (PassedOver p q a ↔ PassedOver p q b) := by
  rcases le_total a.2 b.2 with rises | falls
  · exact apart.crosses_iff_of_le up rises
  · have turned : Apart p q b a := fun w on on' => apart w on on'.swap
    rw [crosses_swap, crosses_swap (a := a), turned.crosses_iff_of_le up falls]
    exact Iff.comm

/-! ## Polygons -/

variable {n : Nat} [NeZero n] {v : Fin n → F × F}

omit [IsStrictOrderedRing F] in
/-- Whether the ray crosses an odd number of edges. -/
def parity (v : Fin n → F × F) (p : F × F) : ZMod 2 := ∑ i, if Crosses p (v i) (v (i + 1)) then 1 else 0

/-- The point lies on an edge. -/
def OnOutline (v : Fin n → F × F) (p : F × F) : Prop := ∃ i, OnSegment (v i) (v (i + 1)) p

/-- Along a way that meets no edge the parity stays. -/
theorem parity_eq_of_le (up : p.2 ≤ q.2) (apart : ∀ w, OnSegment p q w → ¬ OnOutline v w) :
    parity v p = parity v q := by
  classical
  have edge (i : Fin n) : ((if Crosses p (v i) (v (i + 1)) then 1 else 0) +
      if Crosses q (v i) (v (i + 1)) then 1 else 0 : ZMod 2) =
      (if PassedOver p q (v i) then 1 else 0) + if PassedOver p q (v (i + 1)) then 1 else 0 := by
    have apart : Apart p q (v i) (v (i + 1)) := fun w on on' => apart w on ⟨i, on'⟩
    have := apart.crosses_iff up
    split <;> split <;> split <;> split <;> first | rfl | decide | tauto
  have turned : ∑ i, (if PassedOver p q (v (i + 1)) then 1 else 0 : ZMod 2) =
      ∑ i, if PassedOver p q (v i) then 1 else 0 :=
    Equiv.sum_comp (Equiv.addRight (1 : Fin n)) fun i => (if PassedOver p q (v i) then 1 else 0 : ZMod 2)
  have total : parity v p + parity v q = 0 := by
    unfold parity
    rw [← Finset.sum_add_distrib, Finset.sum_congr rfl fun i _ => edge i, Finset.sum_add_distrib, turned]
    exact CharTwo.add_self_eq_zero _
  exact CharTwo.add_eq_zero.mp total

theorem parity_eq (apart : ∀ w, OnSegment p q w → ¬ OnOutline v w) : parity v p = parity v q := by
  rcases le_total p.2 q.2 with up | down
  · exact parity_eq_of_le up apart
  · exact (parity_eq_of_le down fun w on => apart w on.swap).symm

omit [IsStrictOrderedRing F] in
theorem parity_eq_zero (none : ∀ i, ¬ Crosses p (v i) (v (i + 1))) : parity v p = 0 :=
  Finset.sum_eq_zero fun i _ => if_neg (none i)

/-- The box of the polygon. -/
structure InBox (v : Fin n → F × F) (p : F × F) : Prop where
  left : ∃ i, (v i).1 ≤ p.1
  right : ∃ i, p.1 ≤ (v i).1
  below : ∃ i, (v i).2 ≤ p.2
  above : ∃ i, p.2 ≤ (v i).2

theorem OnSegment.between {w : F × F} (on : OnSegment a b w) :
    (min a.1 b.1 ≤ w.1 ∧ w.1 ≤ max a.1 b.1) ∧ min a.2 b.2 ≤ w.2 ∧ w.2 ≤ max a.2 b.2 := by
  obtain ⟨t, ⟨low, high⟩, rfl⟩ := on
  have mix (c d : F) : min c d ≤ c + t * (d - c) ∧ c + t * (d - c) ≤ max c d := by
    rcases le_total c d with h | h
    · rw [min_eq_left h, max_eq_right h]
      constructor <;> nlinarith
    · rw [min_eq_right h, max_eq_left h]
      constructor <;> nlinarith
  exact ⟨mix a.1 b.1, mix a.2 b.2⟩

theorem OnOutline.inBox (on : OnOutline v p) : InBox v p := by
  obtain ⟨i, on⟩ := on
  obtain ⟨⟨left, right⟩, below, above⟩ := on.between
  exact
    { left := (min_le_iff.mp left).elim (fun h => ⟨_, h⟩) fun h => ⟨_, h⟩
      right := (le_max_iff.mp right).elim (fun h => ⟨_, h⟩) fun h => ⟨_, h⟩
      below := (min_le_iff.mp below).elim (fun h => ⟨_, h⟩) fun h => ⟨_, h⟩
      above := (le_max_iff.mp above).elim (fun h => ⟨_, h⟩) fun h => ⟨_, h⟩ }

/-- An edge that comes from above the height of the ray to below it, or the other way, has a point there. -/
theorem onSegment_of_straddles (straddles : h < a.2 ↔ ¬ h < b.2) : OnSegment a b (passes a b h, h) := by
  rcases lt_or_ge h b.2 with b_above | b_below
  · have a_below : a.2 ≤ h := not_lt.mp fun above => straddles.mp above b_above
    exact onSegment_passes (a_below.trans_lt b_above) a_below b_above.le
  · have a_above := straddles.mpr (not_lt.mpr b_below)
    rw [← passes_swap (b_below.trans_lt a_above).ne']
    exact (onSegment_passes (b_below.trans_lt a_above) b_below a_above.le).swap

omit [IsStrictOrderedRing F] in
/-- No other point of the edge is at the height. -/
theorem OnSegment.eq_passes {w : F × F} (level : a.2 ≠ b.2) (on : OnSegment a b w) : w.1 = passes a b w.2 := by
  obtain ⟨t, -, rfl⟩ := on
  have := sub_ne_zero.mpr level.symm
  unfold passes
  field_simp
  ring

/-- An edge that meets the ray's height between its ends. -/
theorem OnSegment.straddles {w : F × F} (on : OnSegment a b w) (first : a.2 ≠ w.2) (second : b.2 ≠ w.2) :
    w.2 < a.2 ↔ ¬ w.2 < b.2 := by
  obtain ⟨-, low, high⟩ := on.between
  rw [not_lt]
  constructor
  · intro above
    rcases min_le_iff.mp low with le | le
    · exact absurd le (not_le.mpr above)
    · exact le
  · intro below
    rcases le_max_iff.mp high with le | le
    · exact lt_of_le_of_ne le first.symm
    · exact absurd (le_antisymm below le) second

/-- A ray that crosses an edge starts out at most as far to the right as one of the ends. -/
theorem Crosses.lt_max (crosses : Crosses p a b) : p.1 < max a.1 b.1 :=
  crosses.2.trans_le (onSegment_of_straddles crosses.1).between.1.2

/-- Outside the box the number of crossings is even. -/
theorem parity_of_not_inBox (outside : ¬ InBox v p) : parity v p = 0 := by
  by_cases above : ∃ i, p.2 ≤ (v i).2
  · by_cases below : ∃ i, (v i).2 ≤ p.2
    · by_cases right : ∃ i, p.1 ≤ (v i).1
      · -- to the left of all: straight up, past the highest, there is no edge
        have left : ∀ i, p.1 < (v i).1 := by
          intro i
          by_contra h
          exact outside ⟨⟨i, not_lt.mp h⟩, right, below, above⟩
        obtain ⟨top, -, highest⟩ := Finset.exists_max_image Finset.univ (fun i => (v i).2) Finset.univ_nonempty
        have climb : parity v p = parity v (p.1, (v top).2) := by
          apply parity_eq
          intro w on meets
          obtain ⟨i, hi⟩ := meets.inBox.left
          have := on.between.1.2
          rw [max_self] at this
          exact absurd (hi.trans this) (not_le.mpr (left i))
        rw [climb]
        exact parity_eq_zero fun i => not_crosses_of_le (highest i (Finset.mem_univ _)) (highest _ (Finset.mem_univ _))
      · push Not at right
        exact parity_eq_zero fun i crosses => absurd crosses.lt_max (not_lt.mpr (max_le (right _).le (right _).le))
    · push Not at below
      exact parity_eq_zero fun i => not_crosses_of_lt (below _) (below _)
  · push Not at above
    exact parity_eq_zero fun i => not_crosses_of_le (above _).le (above _).le

end TcadWebapp.Plane
