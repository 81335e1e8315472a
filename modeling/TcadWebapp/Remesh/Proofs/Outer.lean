import Mathlib.Analysis.Real.Sqrt
import TcadWebapp.Remesh.Proofs.Boundary
import TcadWebapp.Remesh.Proofs.Nearby

/-!
# The nearest outer segment

Where lengths are exact, the search in nine cells finds a code just if a segment is within reach, and then that
of a segment no other one is nearer than (`codeAt_spec`).
-/

namespace TcadWebapp.Remesh

variable {F : Type} [Field F] [LinearOrder F]

/-- `math.hypot` without rounding. -/
def FloatOps.Exact (ops : FloatOps F) : Prop := ∀ x y, 0 ≤ ops.hypot x y ∧ ops.hypot x y ^ 2 = x ^ 2 + y ^ 2

namespace OuterSegment

/-- A point of the segment is at most at this distance. -/
def Within (segment : OuterSegment F) (p : Point F) (reach : F) : Prop :=
  ∃ q, Plane.OnSegment segment.a segment.b q ∧ Plane.distSq p q ≤ reach ^ 2

/-- The segment is no farther from the point than another. -/
def NoFarther (segment : OuterSegment F) (p : Point F) (other : OuterSegment F) : Prop :=
  ∀ r, Plane.OnSegment other.a other.b r →
    ∃ q, Plane.OnSegment segment.a segment.b q ∧ Plane.distSq p q ≤ Plane.distSq p r

end OuterSegment

namespace BoundaryIndex

variable [IsStrictOrderedRing F] {ops : FloatOps F} {segments : List (OuterSegment F)} {reach : F} {mid : Point F}

/-- What is measured is the distance of the nearest point of the segment. -/
theorem distance_spec (exact : ops.Exact) (mid : Point F) (segment : OuterSegment F) :
    0 ≤ distance ops mid segment ∧ ∃ q, Plane.OnSegment segment.a segment.b q ∧
      distance ops mid segment ^ 2 = Plane.distSq mid q ∧
      ∀ r, Plane.OnSegment segment.a segment.b r → Plane.distSq mid q ≤ Plane.distSq mid r := by
  unfold distance
  by_cases long : Plane.distSq segment.b segment.a = 0
  · -- A segment without a length is its end.
    have point := long
    unfold Plane.distSq at point
    rw [sq, sq] at point
    have measured : pointToSegment ops.hypot mid segment.a segment.b =
        ops.hypot (mid.1 - segment.a.1) (mid.2 - segment.a.2) := by
      unfold pointToSegment
      dsimp only
      rw [if_pos point]
    obtain ⟨x, y⟩ := (add_eq_zero_iff_of_nonneg (mul_self_nonneg _) (mul_self_nonneg _)).mp point
    rw [measured]
    refine ⟨(exact _ _).1, segment.a, ⟨0, ⟨le_rfl, zero_le_one⟩, by simp⟩, (exact _ _).2, ?_⟩
    intro r on
    obtain ⟨t, -, rfl⟩ := on
    rw [mul_self_eq_zero.mp x, mul_self_eq_zero.mp y, mul_zero, add_zero, add_zero]
  · rw [pointToSegment_eq _ _ long]
    refine ⟨(exact _ _).1, foot mid segment.a segment.b, ⟨_, along_mem mid _ _, rfl⟩, (exact _ _).2, ?_⟩
    intro r on
    obtain ⟨t, ⟨low, high⟩, rfl⟩ := on
    unfold foot
    rw [along_eq]
    exact Plane.distSq_foot_le long mid low high

theorem distance_le_iff (exact : ops.Exact) (nonneg : 0 ≤ reach) {segment : OuterSegment F} :
    distance ops mid segment ≤ reach ↔ segment.Within mid reach := by
  obtain ⟨pos, q, on, square, least⟩ := distance_spec exact mid segment
  constructor
  · intro near
    refine ⟨q, on, ?_⟩
    rw [← square]
    exact pow_le_pow_left₀ pos near 2
  · intro within
    obtain ⟨r, on', near⟩ := within
    refine le_of_sq_le_sq ?_ nonneg
    rw [square]
    exact (least r on').trans near

theorem noFarther_of_distance_le (exact : ops.Exact) {segment other : OuterSegment F}
    (le : distance ops mid segment ≤ distance ops mid other) : segment.NoFarther mid other := by
  obtain ⟨pos, q, on, square, -⟩ := distance_spec exact mid segment
  obtain ⟨-, q', -, square', least'⟩ := distance_spec exact mid other
  intro r on'
  refine ⟨q, on, le_trans ?_ (least' r on')⟩
  rw [← square, ← square']
  exact pow_le_pow_left₀ pos le 2

variable [FloorRing F]

/-- A code is found just if there is a segment within reach. -/
theorem exists_code_iff : (∃ code, (init ops segments reach).codeAt ops mid = .ok code) ↔
    ∃ segment ∈ segments, distance ops mid segment ≤ reach := by
  constructor
  · intro h
    obtain ⟨code, found⟩ := h
    obtain ⟨segment, mem, -, near, -⟩ := codeAt_eq_ok found
    exact ⟨segment, mem, near⟩
  · intro h
    obtain ⟨segment, mem, near⟩ := h
    have candidate := mem_candidates mem near
    unfold codeAt
    dsimp only
    split
    · rename_i none_
      have away := scan_eq_none refines_le none_ segment candidate
      rw [reach_init] at away
      exact absurd near (of_decide_eq_false away)
    · exact ⟨_, rfl⟩

/-- The index finds what a search through all segments finds. -/
theorem codeAt_spec (exact : ops.Exact) (segments : List (OuterSegment F)) (nonneg : 0 ≤ reach) (mid : Point F) :
    ((∃ code, (init ops segments reach).codeAt ops mid = .ok code) ↔ ∃ segment ∈ segments, segment.Within mid reach) ∧
    ((¬ ∃ segment ∈ segments, segment.Within mid reach) →
      ∃ message, (init ops segments reach).codeAt ops mid = .error (.valueError message)) ∧
    ∀ code, (init ops segments reach).codeAt ops mid = .ok code →
      ∃ segment ∈ segments, segment.bc = code ∧ ∀ other ∈ segments, segment.NoFarther mid other := by
  have within : (∃ code, (init ops segments reach).codeAt ops mid = .ok code) ↔
      ∃ segment ∈ segments, segment.Within mid reach := by
    rw [exists_code_iff]
    exact exists_congr fun segment => and_congr_right fun _ => distance_le_iff exact nonneg
  refine ⟨within, fun none_ => ?_, fun code found => ?_⟩
  · rw [← within] at none_
    unfold codeAt at none_ ⊢
    dsimp only at none_ ⊢
    split at none_
    · exact ⟨_, rfl⟩
    · exact absurd ⟨_, rfl⟩ none_
  · obtain ⟨segment, mem, bc, -, least⟩ := codeAt_eq_ok found
    exact ⟨segment, mem, bc, fun other ho => noFarther_of_distance_le exact (least other ho)⟩

end BoundaryIndex

/-- The operations on real numbers. -/
noncomputable def realOps : FloatOps ℝ where
  hypot x y := √(x ^ 2 + y ^ 2)
  root x y := √(x ^ 2 + y ^ 2)
  repr _ := ""
  formatG _ := ""
  abs_le_hypot x y := ⟨Real.abs_le_sqrt (le_add_of_nonneg_right (sq_nonneg y)),
    Real.abs_le_sqrt (le_add_of_nonneg_left (sq_nonneg x))⟩

theorem realOps_exact : realOps.Exact := fun x y =>
  ⟨Real.sqrt_nonneg _, Real.sq_sqrt (add_nonneg (sq_nonneg x) (sq_nonneg y))⟩

theorem codeAt_spec_real :
    ((∃ code, (BoundaryIndex.init realOps [⟨(0, 0), (1, 0), -1022⟩] 1).codeAt realOps (0, 1) = .ok code) ↔
      ∃ segment ∈ ([⟨(0, 0), (1, 0), -1022⟩] : List (OuterSegment ℝ)), segment.Within (0, 1) 1) :=
  (BoundaryIndex.codeAt_spec realOps_exact _ zero_le_one _).1

end TcadWebapp.Remesh
