import Mathlib.Tactic.FieldSimp
import Mathlib.Tactic.Linarith
import Mathlib.Tactic.Ring
import TcadWebapp.Plotting.Zoom

/-!
# Views that stay in the picture

Whatever the user does, the view is a part of the full range that is neither too narrow nor too wide
(`viewing_spec`).
-/

namespace TcadWebapp.Plotting

variable {F : Type*} [Field F] [LinearOrder F] [IsStrictOrderedRing F] {view full : View F}

/-- One range is a part of another. -/
structure View.Within (view full : View F) : Prop where
  low : full.from_ ≤ view.from_
  high : view.to_ ≤ full.to_

/-- A view that may be shown. -/
structure View.Shown (view full : View F) : Prop extends view.Within full where
  wide : full.span * minSpanRatio F ≤ view.span
  narrow : view.span ≤ full.span

theorem minSpanRatio_pos : 0 < minSpanRatio F := by
  unfold minSpanRatio
  positivity

theorem minSpanRatio_le_one : minSpanRatio F ≤ 1 := by
  unfold minSpanRatio
  rw [div_le_one (by positivity)]
  exact one_le_pow₀ (by norm_num)

omit [LinearOrder F] [IsStrictOrderedRing F] in
@[simp] theorem span_mk (start span : F) : View.span ⟨start, start + span⟩ = span := add_sub_cancel_left start span

theorem View.Shown.pos (wide : 0 < full.span) (h : view.Shown full) : 0 < view.span :=
  lt_of_lt_of_le (mul_pos wide minSpanRatio_pos) h.wide

theorem shown_full (wide : 0 ≤ full.span) : full.Shown full where
  low := le_rfl
  high := le_rfl
  wide := mul_le_of_le_one_right wide minSpanRatio_le_one
  narrow := le_rfl

/-! ## Pushing a view inside -/

omit [IsStrictOrderedRing F] in
theorem clamp_span (view full : View F) : (clamp view full).span = min view.span full.span := span_mk _ _

theorem clamp_within (view full : View F) : (clamp view full).Within full := by
  have fits : min view.span full.span ≤ full.to_ - full.from_ := min_le_right _ _
  unfold clamp
  dsimp only
  by_cases beyond : full.to_ < (if view.from_ < full.from_ then full.from_ else view.from_) + min view.span full.span
  · rw [if_pos beyond]
    exact ⟨by linarith, by linarith⟩
  · rw [if_neg beyond]
    push Not at beyond
    refine ⟨?_, beyond⟩
    by_cases before : view.from_ < full.from_
    · rw [if_pos before]
    · rw [if_neg before]
      exact not_lt.mp before

/-- What is inside stays where it is. -/
theorem clamp_of_within (h : view.Within full) : clamp view full = view := by
  have low := h.low
  have high := h.high
  have span : min view.span full.span = view.to_ - view.from_ := by
    refine min_eq_left ?_
    unfold View.span
    linarith
  unfold clamp
  dsimp only
  rw [span, if_neg (not_lt.mpr low), if_neg (by linarith), add_sub_cancel]

/-! ## What the user does -/

omit [IsStrictOrderedRing F] in
theorem zoomed_span (view full : View F) (factor at_ : F) : (zoomed view full factor at_).span =
    min full.span (max (full.span * minSpanRatio F) (view.span * factor)) := span_mk _ _

theorem zoomAround_shown (wide : 0 < full.span) (view : View F) (factor at_ : F) :
    (zoomAround view full factor at_).Shown full := by
  rw [zoomAround, if_neg (not_not.mpr wide)]
  have span : (clamp (zoomed view full factor at_) full).span =
      min full.span (max (full.span * minSpanRatio F) (view.span * factor)) := by
    rw [clamp_span, zoomed_span]
    exact min_eq_left (min_le_left _ _)
  refine ⟨clamp_within _ _, ?_, ?_⟩
  · rw [span]
    exact le_min (mul_le_of_le_one_right wide.le minSpanRatio_le_one) (le_max_left _ _)
  · rw [span]
    exact min_le_left _ _

/-- The point under the cursor stays where it is in the view, unless the view had to be pushed inside. -/
theorem zoomAround_ratio (wide : 0 < full.span) (h : view.Shown full) {factor at_ : F}
    (inside : (zoomed view full factor at_).Within full) :
    (at_ - (zoomAround view full factor at_).from_) / (zoomAround view full factor at_).span =
      (at_ - view.from_) / view.span := by
  have pos := (zoomAround_shown wide view factor at_).pos wide
  rw [zoomAround, if_neg (not_not.mpr wide), clamp_of_within inside, zoomed_span] at *
  have from_ : at_ - (zoomed view full factor at_).from_ = (at_ - view.from_) / view.span *
      min full.span (max (full.span * minSpanRatio F) (view.span * factor)) := by
    unfold zoomed
    dsimp only
    rw [if_pos (h.pos wide), sub_sub_cancel]
  rw [from_, mul_div_assoc, div_self (ne_of_gt pos), mul_one]

theorem panBy_span (h : view.Shown full) (delta : F) : (panBy view full delta).span = view.span := by
  have moved : View.span ⟨view.from_ + delta, view.to_ + delta⟩ = view.span := add_sub_add_right_eq_sub _ _ _
  rw [panBy, clamp_span, moved]
  exact min_eq_left h.narrow

theorem panBy_shown (h : view.Shown full) (delta : F) : (panBy view full delta).Shown full where
  toWithin := clamp_within _ _
  wide := (panBy_span h delta).symm ▸ h.wide
  narrow := (panBy_span h delta).symm ▸ h.narrow

theorem shown_inductive (wide : 0 < full.span) : (viewing full).Inductive fun view => view.Shown full where
  start := by
    rintro view rfl
    exact shown_full wide.le
  step view gesture next h step := by
    cases gesture with
    | zoom factor at_ =>
      simp only [viewing] at step
      split at step
      · obtain rfl := Option.some.inj step
        exact zoomAround_shown wide view factor at_
      · cases step
    | pan delta =>
      obtain rfl := Option.some.inj step
      exact panBy_shown h delta
    | reset =>
      obtain rfl := Option.some.inj step
      exact shown_full wide.le

/-- In every run the views are parts of the full range that are not too narrow, dragging keeps their span, and
zooming keeps the place of the cursor where there is room for it. -/
theorem viewing_spec (wide : full.from_ < full.to_) {h : List (Taken (View F) (Gesture F))}
    (run : (viewing full).Run h view) :
    (∀ shown ∈ Lts.visited h view, full.from_ ≤ shown.from_ ∧ shown.to_ ≤ full.to_ ∧
      full.span * minSpanRatio F ≤ shown.span ∧ shown.span ≤ full.span) ∧
    (∀ x ∈ h, ∀ delta, x.label = .pan delta → x.post.span = x.pre.span) ∧
    ∀ x ∈ h, ∀ factor at_, x.label = .zoom factor at_ → (zoomed x.pre full factor at_).Within full →
      (at_ - x.post.from_) / x.post.span = (at_ - x.pre.from_) / x.pre.span := by
  have pos : 0 < full.span := sub_pos.mpr wide
  have all := run.invariant_visited (shown_inductive pos)
  refine ⟨fun shown mem => ?_, fun x hx delta label => ?_, fun x hx factor at_ label inside => ?_⟩
  · have h := all shown mem
    exact ⟨h.low, h.high, h.wide, h.narrow⟩
  · obtain ⟨before, run', step, -⟩ := run.of_mem hx
    rw [label] at step
    rw [← Option.some.inj step]
    exact panBy_span (run'.invariant (shown_inductive pos)) delta
  · obtain ⟨before, run', step, -⟩ := run.of_mem hx
    rw [label] at step
    simp only [viewing] at step
    split at step
    · rw [← Option.some.inj step]
      exact zoomAround_ratio pos (run'.invariant (shown_inductive pos)) inside
    · cases step

/-- The wheel is turned over the point 2. -/
theorem run_wheel : (viewing (⟨0, 10⟩ : View Rat)).Run [⟨⟨0, 10⟩, .zoom (1 / 2) 2, ⟨1, 6⟩⟩] ⟨1, 6⟩ :=
  .next (.start rfl) (by decide +kernel)

theorem viewing_spec_wheel : (2 - 1) / View.span (⟨1, 6⟩ : View Rat) = (2 - 0) / View.span ⟨0, 10⟩ :=
  (viewing_spec (by norm_num) run_wheel).2.2 _ List.mem_cons_self (1 / 2) 2 rfl
    ⟨by decide +kernel, by decide +kernel⟩

end TcadWebapp.Plotting
