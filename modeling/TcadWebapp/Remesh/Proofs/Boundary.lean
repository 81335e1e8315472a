import Mathlib.Tactic.Linarith
import TcadWebapp.Remesh.Assemble

/-!
# The old boundary found again

A segment within reach of a point has the point's own cell among its cells, so that the search in
the nine cells around it misses none that a search through all would find.
-/

namespace TcadWebapp.Remesh

theorem mem_rangeTo {low high k : Int} : k ∈ rangeTo low high ↔ low ≤ k ∧ k ≤ high := by
  unfold rangeTo
  rw [List.mem_map]
  constructor
  · rintro ⟨n, mem, rfl⟩
    rw [List.mem_range] at mem
    omega
  · intro h
    exact ⟨(k - low).toNat, List.mem_range.mpr (by omega), by omega⟩

variable {F : Type} [Field F] [LinearOrder F]

section Feet

variable [IsStrictOrderedRing F]

theorem along_mem (p a b : Point F) : 0 ≤ along p a b ∧ along p a b ≤ 1 := by
  unfold along
  exact ⟨le_max_left _ _, max_le zero_le_one (min_le_left _ _)⟩

/-- A mixture of two numbers lies between them. -/
theorem mixture_mem {a b t : F} (low : 0 ≤ t) (high : t ≤ 1) :
    min a b ≤ a + t * (b - a) ∧ a + t * (b - a) ≤ max a b := by
  rcases le_total a b with h | h
  · rw [min_eq_left h, max_eq_right h]
    constructor <;> nlinarith
  · rw [min_eq_right h, max_eq_left h]
    constructor <;> nlinarith

/-- Where the distance to a segment is measured from: a point in the box of the segment. -/
theorem exists_foot (length : F → F → F) (p a b : Point F) : ∃ q : Point F,
    pointToSegment length p a b = length (p.1 - q.1) (p.2 - q.2) ∧
      (min a.1 b.1 ≤ q.1 ∧ q.1 ≤ max a.1 b.1) ∧ min a.2 b.2 ≤ q.2 ∧ q.2 ≤ max a.2 b.2 := by
  unfold pointToSegment
  dsimp only
  split
  · exact ⟨a, rfl, ⟨min_le_left _ _, le_max_left _ _⟩, min_le_left _ _, le_max_left _ _⟩
  · obtain ⟨low, high⟩ := along_mem p a b
    exact ⟨(a.1 + along p a b * (b.1 - a.1), a.2 + along p a b * (b.2 - a.2)), rfl,
      mixture_mem low high, mixture_mem low high⟩

end Feet

namespace BoundaryIndex

variable [IsStrictOrderedRing F] [FloorRing F]

variable {ops : FloatOps F} {segments : List (OuterSegment F)} {reach : F} {mid : Point F}

/-- The distance of a point from a segment, as `code_at` computes it. -/
def distance (ops : FloatOps F) (mid : Point F) (segment : OuterSegment F) : F :=
  pointToSegment ops.hypot mid segment.a segment.b

theorem g_mono {cell v w : F} (pos : 0 < cell) (h : v ≤ w) : g cell v ≤ g cell w :=
  Int.floor_le_floor ((div_le_div_iff_of_pos_right pos).mpr h)

/-- The cell of a point is one of a segment that is within reach. -/
theorem mem_cellsOf {cell : F} (pos : 0 < cell) {segment : OuterSegment F}
    (near : distance ops mid segment ≤ reach) :
    (g cell mid.1, g cell mid.2) ∈ cellsOf cell reach segment := by
  obtain ⟨q, measured, ⟨xLow, xHigh⟩, yLow, yHigh⟩ := exists_foot ops.hypot mid segment.a segment.b
  rw [distance, measured] at near
  obtain ⟨hx, hy⟩ := ops.abs_le_hypot (mid.1 - q.1) (mid.2 - q.2)
  obtain ⟨xBelow, xAbove⟩ := abs_le.mp (hx.trans near)
  obtain ⟨yBelow, yAbove⟩ := abs_le.mp (hy.trans near)
  refine List.mem_flatMap.mpr ⟨_, mem_rangeTo.mpr ⟨?_, ?_⟩, List.mem_map.mpr ⟨_, mem_rangeTo.mpr ⟨?_, ?_⟩, rfl⟩⟩
  all_goals
    apply g_mono pos
    linarith

omit [FloorRing F] in
theorem cellWidth_pos : 0 < cellWidth ops segments reach := by
  unfold cellWidth
  exact lt_max_of_lt_right (by positivity)

omit [IsStrictOrderedRing F] in
theorem mem_bucket {cell : F} {c : Int × Int} {i : Nat} :
    i ∈ (((segments.zipIdx.flatMap fun (segment, i) => (cellsOf cell reach segment).map fun c => (c, i)).foldl
      (fun d e => d.alter e.1 fun group => group.getD [] ++ [e.2]) (∅ : Dict (Int × Int) (List Nat))).get?
        c).getD [] ↔ ∃ segment, segments[i]? = some segment ∧ c ∈ cellsOf cell reach segment := by
  rw [Dict.mem_group]
  constructor
  · rintro ⟨e, mem, rfl, rfl⟩
    obtain ⟨⟨segment, i⟩, placed, mem⟩ := List.mem_flatMap.mp mem
    obtain ⟨c, hc, rfl⟩ := List.mem_map.mp mem
    exact ⟨segment, List.mk_mem_zipIdx_iff_getElem?.mp placed, hc⟩
  · rintro ⟨segment, placed, hc⟩
    exact ⟨(c, i), List.mem_flatMap.mpr ⟨(segment, i), List.mk_mem_zipIdx_iff_getElem?.mpr placed,
      List.mem_map.mpr ⟨c, hc, rfl⟩⟩, rfl, rfl⟩

theorem mem_candidates {segment : OuterSegment F} (mem : segment ∈ segments)
    (near : distance ops mid segment ≤ reach) : segment ∈ (init ops segments reach).candidates mid := by
  obtain ⟨i, placed⟩ := List.getElem?_of_mem mem
  have pos : 0 < cellWidth ops segments reach := cellWidth_pos
  have here := mem_cellsOf pos near
  unfold init candidates
  rw [if_neg (List.ne_nil_of_mem mem)]
  refine List.mem_flatMap.mpr ⟨0, by simp, List.mem_flatMap.mpr ⟨0, by simp, ?_⟩⟩
  rw [add_zero, add_zero]
  exact List.mem_filterMap.mpr ⟨i, mem_bucket.mpr ⟨segment, placed, here⟩, placed⟩

omit [IsStrictOrderedRing F] in
theorem mem_of_mem_candidates {segment : OuterSegment F}
    (mem : segment ∈ (init ops segments reach).candidates mid) : segment ∈ segments := by
  have same : (init ops segments reach).segments = segments := by
    unfold init
    split
    · rename_i none
      rw [none]
    · rfl
  obtain ⟨dx, -, mem⟩ := List.mem_flatMap.mp mem
  obtain ⟨dy, -, mem⟩ := List.mem_flatMap.mp mem
  obtain ⟨i, -, placed⟩ := List.mem_filterMap.mp mem
  rw [same] at placed
  exact List.mem_of_getElem? placed

omit [IsStrictOrderedRing F] in
theorem reach_init : (init ops segments reach).reach = reach := by
  unfold init
  split <;> rfl

/-- A code that is found is that of one of the nearest segments. -/
theorem codeAt_eq_ok {code : Int} (h : (init ops segments reach).codeAt ops mid = .ok code) :
    ∃ segment ∈ segments, segment.bc = code ∧ distance ops mid segment ≤ reach ∧
      ∀ other ∈ segments, distance ops mid segment ≤ distance ops mid other := by
  unfold codeAt at h
  dsimp only at h
  split at h
  · cases h
  · rename_i segment found
    obtain ⟨mem, near, least⟩ := scan_eq_some refines_le found
    have near := of_decide_eq_true near
    rw [reach_init] at near
    refine ⟨segment, mem_of_mem_candidates mem, Except.ok.inj h, near, ?_⟩
    intro other ho
    by_cases other_near : distance ops mid other ≤ reach
    · exact least other (mem_candidates ho other_near)
    · exact near.trans (le_of_not_ge other_near)

end BoundaryIndex

end TcadWebapp.Remesh
