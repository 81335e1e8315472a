import Mathlib.Algebra.BigOperators.Group.List.Lemmas
import Mathlib.Algebra.Order.Floor.Semiring
import Mathlib.Data.Rat.Floor
import TcadWebapp.Plotting.Shading

/-!
# The pieces of a shaded triangle

The pieces tile the triangle and have the colours of the linear interpolant (`shadeTriangle_spec`).
-/

namespace TcadWebapp.Plotting

open Plane (Weights Holds Inner area Quarter)

variable {F : Type*} [Field F] [LinearOrder F] [IsStrictOrderedRing F]

/-! ## What the pieces are to be -/

def Corners.area (t : Corners F) : F := Plane.area t.a t.b t.c

def Corners.Holds (t : Corners F) (p : F × F) : Prop := Plane.Holds t.a t.b t.c p

def Corners.Inner (t : Corners F) (p : F × F) : Prop := Plane.Inner t.a t.b t.c p

attribute [local instance] atLeastTwo_three

def Corners.centroid (t : Corners F) : F × F := ((t.a.1 + t.b.1 + t.c.1) / 3, (t.a.2 + t.b.2 + t.c.2) / 3)

/-- The pieces are parts of the triangle that turn as it does, have no inner point in common and fill it. -/
structure Tiles (whole : Corners F) (shards : List (Shard F)) : Prop where
  inside : ∀ s ∈ shards, ∀ p, s.Holds p → whole.Holds p
  inner : ∀ s ∈ shards, ∀ p, s.Inner p → whole.Inner p
  turned : ∀ s ∈ shards, ∃ k : ℕ, s.area * 4 ^ k = whole.area
  apart : shards.Pairwise fun s t => ∀ p, ¬ (s.Inner p ∧ t.Inner p)
  covers : ∀ p, whole.Holds p → ∃ s ∈ shards, s.Holds p
  total : (shards.map fun s => s.area).sum = whole.area

/-- The value at the point is the mixture of those at the corners that the point is of the corners. -/
def Interpolates (a b c : Vertex F) (p : F × F) (value : F) : Prop :=
  ∃ w, Weights a.place b.place c.place p w ∧ (0 ≤ w.1 ∧ 0 ≤ w.2.1 ∧ 0 ≤ w.2.2) ∧
    value = w.1 * a.value + w.2.1 * b.value + w.2.2 * c.value

/-- The piece is what `n` cuts leave, or fewer where the values are hardly apart, in the colour of its middle. -/
structure Shaded (a b c : Vertex F) (n : ℕ) (tolerance : F) (s : Shard F) : Prop where
  middle : Interpolates a b c s.centroid s.logValue
  deep : ∃ path : List Quarter, (s.a, s.b, s.c) = Quarter.descend Plane.mid a.place b.place c.place path ∧
    path.length ≤ n ∧ (path.length = n ∨ ∃ u v w,
      Interpolates a b c s.a u ∧ Interpolates a b c s.b v ∧ Interpolates a b c s.c w ∧
        max (max u v) w - min (min u v) w ≤ tolerance)

/-! ## One cut -/

variable {a b c : Vertex F} {p : F × F} {value tolerance : F} {n : ℕ} {q : Quarter} {s : Shard F}

omit [LinearOrder F] [IsStrictOrderedRing F] in
/-- The places of the corners of a part are the corners of the part. -/
theorem places_quarter (a b c : Vertex F) (q : Quarter) :
    q.corners Plane.mid a.place b.place c.place = ((q.corners Vertex.mid a b c).1.place,
      (q.corners Vertex.mid a b c).2.1.place, (q.corners Vertex.mid a b c).2.2.place) := by
  cases q <;> rfl

theorem Interpolates.of_quarter (h : Interpolates (q.corners Vertex.mid a b c).1 (q.corners Vertex.mid a b c).2.1
    (q.corners Vertex.mid a b c).2.2 p value) : Interpolates a b c p value := by
  obtain ⟨w, is, ⟨one, two, three⟩, rfl⟩ := h
  refine ⟨q.lift w, Weights.lift ?_, ?_, ?_⟩
  · rw [places_quarter]
    exact is
  · cases q <;>
      simp only [Quarter.lift] <;>
      refine ⟨?_, ?_, ?_⟩ <;>
      linarith
  · cases q <;>
      simp only [Quarter.lift, Quarter.corners, Vertex.mid] <;>
      ring

theorem interpolates_corners (a b c : Vertex F) : Interpolates a b c a.place a.value ∧
    Interpolates a b c b.place b.value ∧ Interpolates a b c c.place c.value := by
  refine ⟨⟨(1, 0, 0), ⟨?_, ?_, ?_⟩, ?_, ?_⟩, ⟨(0, 1, 0), ⟨?_, ?_, ?_⟩, ?_, ?_⟩, ⟨(0, 0, 1), ⟨?_, ?_, ?_⟩, ?_, ?_⟩⟩ <;>
    simp

theorem interpolates_centroid (a b c : Vertex F) :
    Interpolates a b c (shard a b c).centroid (shard a b c).logValue := by
  refine ⟨(1 / 3, 1 / 3, 1 / 3), ⟨?_, ?_, ?_⟩, ⟨?_, ?_, ?_⟩, ?_⟩ <;>
    simp only [shard, Corners.centroid]
  · norm_num
  · ring
  · ring
  · positivity
  · positivity
  · positivity
  · ring

/-- A piece that is not cut. -/
theorem shaded_shard (stop : n = 0 ∨ spread a b c ≤ tolerance) : Shaded a b c n tolerance (shard a b c) where
  middle := interpolates_centroid a b c
  deep := by
    obtain ⟨ha, hb, hc⟩ := interpolates_corners a b c
    refine ⟨[], rfl, Nat.zero_le n, ?_⟩
    cases stop with
    | inl zero => exact Or.inl zero.symm
    | inr near => exact Or.inr ⟨a.value, b.value, c.value, ha, hb, hc, near⟩

omit [IsStrictOrderedRing F] in
theorem tiles_shard (a b c : Vertex F) : Tiles ⟨a.place, b.place, c.place⟩ [shard a b c] where
  inside := by
    intro s hs p hp
    rw [List.mem_singleton.mp hs] at hp
    exact hp
  inner := by
    intro s hs p hp
    rw [List.mem_singleton.mp hs] at hp
    exact hp
  turned := by
    intro s hs
    rw [List.mem_singleton.mp hs]
    exact ⟨0, (congrArg (_ * ·) (pow_zero 4)).trans (mul_one _)⟩
  apart := List.pairwise_singleton _ _
  covers := fun p hp => ⟨shard a b c, List.mem_singleton_self _, hp⟩
  total := List.sum_singleton

/-- A piece of a part is a piece of the whole. -/
theorem Shaded.of_quarter (h : Shaded (q.corners Vertex.mid a b c).1 (q.corners Vertex.mid a b c).2.1
    (q.corners Vertex.mid a b c).2.2 n tolerance s) : Shaded a b c (n + 1) tolerance s where
  middle := h.middle.of_quarter
  deep := by
    obtain ⟨path, is, short, stop⟩ := h.deep
    refine ⟨q :: path, ?_, Nat.succ_le_succ short, ?_⟩
    · rw [is, Quarter.descend, places_quarter]
    · cases stop with
      | inl full => exact Or.inl (congrArg (· + 1) full)
      | inr near =>
        obtain ⟨u, v, w, hu, hv, hw, near⟩ := near
        exact Or.inr ⟨u, v, w, hu.of_quarter, hv.of_quarter, hw.of_quarter, near⟩

/-- The corners of a part. -/
def part (a b c : Vertex F) (q : Quarter) : Corners F :=
  ⟨(q.corners Vertex.mid a b c).1.place, (q.corners Vertex.mid a b c).2.1.place,
    (q.corners Vertex.mid a b c).2.2.place⟩

theorem area_part (a b c : Vertex F) (q : Quarter) :
    (part a b c q).area = Plane.area a.place b.place c.place / 4 := by
  have := Plane.area_quarter a.place b.place c.place q
  rw [places_quarter] at this
  exact this

theorem inner_of_part (h : (part a b c q).Inner p) : Plane.Inner a.place b.place c.place p := by
  apply Plane.Inner.of_quarter (q := q)
  rw [places_quarter]
  exact h

theorem holds_of_part (h : (part a b c q).Holds p) : Plane.Holds a.place b.place c.place p := by
  apply Plane.Holds.of_quarter (q := q)
  rw [places_quarter]
  exact h

/-- A triangle is tiled by what its four parts are tiled by. -/
theorem Tiles.join {shards : Quarter → List (Shard F)} (h : ∀ q, Tiles (part a b c q) (shards q)) :
    Tiles ⟨a.place, b.place, c.place⟩ (Quarter.all.flatMap shards) where
  inside := by
    intro s hs p hp
    obtain ⟨q, -, hs⟩ := List.mem_flatMap.mp hs
    exact holds_of_part ((h q).inside s hs p hp)
  inner := by
    intro s hs p hp
    obtain ⟨q, -, hs⟩ := List.mem_flatMap.mp hs
    exact inner_of_part ((h q).inner s hs p hp)
  turned := by
    intro s hs
    obtain ⟨q, -, hs⟩ := List.mem_flatMap.mp hs
    obtain ⟨k, same⟩ := (h q).turned s hs
    rw [area_part] at same
    refine ⟨k + 1, ?_⟩
    rw [pow_succ, ← mul_assoc, same]
    exact div_mul_cancel₀ _ four_ne_zero
  apart := by
    apply List.pairwise_flatMap.mpr
    refine ⟨fun q _ => (h q).apart, Quarter.nodup_all.imp ?_⟩
    intro q q' ne s hs t ht p both
    have one := (h q).inner s hs p both.1
    have other := (h q').inner t ht p both.2
    apply Plane.not_inner_of_ne (a := a.place) (b := b.place) (c := c.place) ne
    · rw [places_quarter]
      exact one
    · rw [places_quarter]
      exact other
  covers := by
    intro p hp
    obtain ⟨q, hq⟩ := Plane.Holds.exists_quarter hp
    rw [places_quarter] at hq
    obtain ⟨s, hs, holds⟩ := (h q).covers p hq
    exact ⟨s, List.mem_flatMap.mpr ⟨q, q.mem_all, hs⟩, holds⟩
  total := by
    have quarters (q : Quarter) : ((shards q).map fun s => s.area).sum = Plane.area a.place b.place c.place / 4 := by
      rw [(h q).total, area_part]
    simp only [Quarter.all, List.flatMap_cons, List.flatMap_nil, List.append_nil, List.map_append, List.sum_append,
      quarters]
    unfold Corners.area
    ring

/-! ## All cuts -/

omit [IsStrictOrderedRing F] in
theorem split_succ (tolerance : F) (n : ℕ) (a b c : Vertex F) :
    split tolerance (n + 1) a b c = if spread a b c ≤ tolerance then [shard a b c]
      else Quarter.all.flatMap fun q => split tolerance n (q.corners Vertex.mid a b c).1
        (q.corners Vertex.mid a b c).2.1 (q.corners Vertex.mid a b c).2.2 := by
  simp only [split, Quarter.all, Quarter.corners, List.flatMap_cons, List.flatMap_nil, List.append_nil,
    List.append_assoc]

theorem split_tiles (tolerance : F) (n : ℕ) (a b c : Vertex F) :
    Tiles ⟨a.place, b.place, c.place⟩ (split tolerance n a b c) := by
  induction n generalizing a b c with
  | zero => exact tiles_shard a b c
  | succ n ih =>
    rw [split_succ]
    by_cases near : spread a b c ≤ tolerance
    · rw [if_pos near]
      exact tiles_shard a b c
    · rw [if_neg near]
      exact Tiles.join fun q => ih _ _ _

theorem split_shaded (tolerance : F) (n : ℕ) (a b c : Vertex F) :
    ∀ s ∈ split tolerance n a b c, Shaded a b c n tolerance s := by
  induction n generalizing a b c with
  | zero =>
    intro s hs
    rw [List.mem_singleton.mp hs]
    exact shaded_shard (Or.inl rfl)
  | succ n ih =>
    intro s hs
    rw [split_succ] at hs
    by_cases near : spread a b c ≤ tolerance
    · rw [if_pos near] at hs
      rw [List.mem_singleton.mp hs]
      exact shaded_shard (Or.inr near)
    · rw [if_neg near] at hs
      obtain ⟨q, -, hs⟩ := List.mem_flatMap.mp hs
      exact (ih _ _ _ s hs).of_quarter

omit [IsStrictOrderedRing F] in
theorem split_length_le (tolerance : F) (n : ℕ) (a b c : Vertex F) :
    (split tolerance n a b c).length ≤ 4 ^ n := by
  induction n generalizing a b c with
  | zero => exact le_rfl
  | succ n ih =>
    simp only [split]
    split_ifs
    · exact Nat.one_le_pow _ _ (by decide)
    · simp only [List.length_append]
      have first := ih a (a.mid b) (c.mid a)
      have second := ih (a.mid b) b (b.mid c)
      have third := ih (c.mid a) (b.mid c) c
      have middle := ih (a.mid b) (b.mid c) (c.mid a)
      omega

/-! ## A triangle -/

variable [FloorRing F]

@[simp] theorem levels_natCast (n : ℕ) : levels (n : F) = n := by
  simp [levels]

theorem shadeTriangle_spec (corners : Corners F) (va vb vc depth tolerance : F) :
    Tiles corners (shadeTriangle corners [va, vb, vc] depth tolerance) ∧
    (shadeTriangle corners [va, vb, vc] depth tolerance).length ≤ 4 ^ levels depth ∧
    ∀ s ∈ shadeTriangle corners [va, vb, vc] depth tolerance,
      Shaded ⟨corners.a, va⟩ ⟨corners.b, vb⟩ ⟨corners.c, vc⟩ (levels depth) tolerance s := by
  refine ⟨?_, split_length_le _ _ _ _ _, split_shaded _ _ _ _ _⟩
  exact split_tiles tolerance (levels depth) ⟨corners.a, va⟩ ⟨corners.b, vb⟩ ⟨corners.c, vc⟩

/-- Two levels of a triangle with one value that differs. -/
theorem shadeTriangle_spec_peak :
    (shadeTriangle (⟨(0, 0), (4, 0), (0, 4)⟩ : Corners ℚ) [5, 5, 21] 2 0).length ≤ 4 ^ levels (2 : ℚ) :=
  (shadeTriangle_spec (⟨(0, 0), (4, 0), (0, 4)⟩ : Corners ℚ) 5 5 21 2 0).2.1

end TcadWebapp.Plotting
