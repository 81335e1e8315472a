import TcadWebapp.Misc.Triangles

/-!
# Triangles cut at the middles of their sides

The middles of the sides cut a triangle into four of a quarter of its area, which turn the same way as it does,
cover it and have no inner point in common.
-/

namespace TcadWebapp.Plane

variable {F : Type*} [Field F]

def mid (p q : F × F) : F × F := ((p.1 + q.1) / 2, (p.2 + q.2) / 2)

/-- The part at one of the corners, or the one between them. -/
inductive Quarter where
  | first
  | second
  | third
  | middle
  deriving DecidableEq, Repr

namespace Quarter

/-- In the order in which they are cut. -/
def all : List Quarter := [first, second, third, middle]

theorem mem_all (q : Quarter) : q ∈ all := by
  cases q <;>
    simp [all]

theorem nodup_all : all.Nodup := by decide

/-- The corners of a part, in the order of those of the whole, where `between` gives the middle of a side. -/
def corners {α : Type*} (between : α → α → α) (a b c : α) : Quarter → α × α × α
  | first => (a, between a b, between c a)
  | second => (between a b, b, between b c)
  | third => (between c a, between b c, c)
  | middle => (between a b, between b c, between c a)

/-- The corners of a part of a part and so on. -/
def descend {α : Type*} (between : α → α → α) (a b c : α) : List Quarter → α × α × α
  | [] => (a, b, c)
  | q :: path => descend between (q.corners between a b c).1 (q.corners between a b c).2.1
      (q.corners between a b c).2.2 path

/-- The weights in the whole of a point with these weights in a part. -/
def lift : Quarter → F × F × F → F × F × F
  | first, w => (w.1 + (w.2.1 + w.2.2) / 2, w.2.1 / 2, w.2.2 / 2)
  | second, w => (w.1 / 2, w.2.1 + (w.1 + w.2.2) / 2, w.2.2 / 2)
  | third, w => (w.1 / 2, w.2.1 / 2, w.2.2 + (w.1 + w.2.1) / 2)
  | middle, w => ((w.1 + w.2.2) / 2, (w.1 + w.2.1) / 2, (w.2.1 + w.2.2) / 2)

end Quarter

variable [LinearOrder F]

/-- The point lies inside of the triangle, and on none of its sides. -/
def Inner (a b c p : F × F) : Prop :=
  area a b c ≠ 0 ∧ ∃ w, Weights a b c p w ∧ 0 < w.1 ∧ 0 < w.2.1 ∧ 0 < w.2.2

variable [IsStrictOrderedRing F] {a b c p : F × F}

theorem area_quarter (a b c : F × F) (q : Quarter) :
    area (q.corners mid a b c).1 (q.corners mid a b c).2.1 (q.corners mid a b c).2.2 = area a b c / 4 := by
  cases q <;>
    simp only [Quarter.corners, area, mid] <;>
    ring

theorem Weights.lift {q : Quarter} {w : F × F × F}
    (h : Weights (q.corners mid a b c).1 (q.corners mid a b c).2.1 (q.corners mid a b c).2.2 p w) :
    Weights a b c p (q.lift w) := by
  obtain ⟨total, x, y⟩ := h
  cases q <;>
    simp only [Quarter.corners, Quarter.lift, mid] at * <;>
    refine ⟨?_, ?_, ?_⟩ <;>
    linarith

/-- A part is inside of the whole. -/
theorem Holds.of_quarter {q : Quarter}
    (h : Holds (q.corners mid a b c).1 (q.corners mid a b c).2.1 (q.corners mid a b c).2.2 p) : Holds a b c p := by
  obtain ⟨w, is, one, two, three⟩ := h
  refine ⟨q.lift w, is.lift, ?_⟩
  cases q <;>
    simp only [Quarter.lift] <;>
    refine ⟨?_, ?_, ?_⟩ <;>
    linarith

theorem Inner.of_quarter {q : Quarter}
    (h : Inner (q.corners mid a b c).1 (q.corners mid a b c).2.1 (q.corners mid a b c).2.2 p) : Inner a b c p := by
  obtain ⟨wide, w, is, one, two, three⟩ := h
  refine ⟨fun flat => wide ?_, q.lift w, is.lift, ?_⟩
  · rw [area_quarter, flat, zero_div]
  · cases q <;>
      simp only [Quarter.lift] <;>
      refine ⟨?_, ?_, ?_⟩ <;>
      linarith

/-- Every point of the whole is in one of the parts. -/
theorem Holds.exists_quarter (h : Holds a b c p) : ∃ q : Quarter,
    Holds (q.corners mid a b c).1 (q.corners mid a b c).2.1 (q.corners mid a b c).2.2 p := by
  obtain ⟨w, ⟨total, x, y⟩, one, two, three⟩ := h
  -- The part at a corner has the points of which at least half of the weight is at the corner.
  by_cases at_a : 1 / 2 ≤ w.1
  · refine ⟨.first, (2 * w.1 - 1, 2 * w.2.1, 2 * w.2.2), ?_, by linarith, by linarith, by linarith⟩
    simp only [Quarter.corners, mid]
    exact ⟨by linarith, by linear_combination x - a.1 * total, by linear_combination y - a.2 * total⟩
  by_cases at_b : 1 / 2 ≤ w.2.1
  · refine ⟨.second, (2 * w.1, 2 * w.2.1 - 1, 2 * w.2.2), ?_, by linarith, by linarith, by linarith⟩
    simp only [Quarter.corners, mid]
    exact ⟨by linarith, by linear_combination x - b.1 * total, by linear_combination y - b.2 * total⟩
  by_cases at_c : 1 / 2 ≤ w.2.2
  · refine ⟨.third, (2 * w.1, 2 * w.2.1, 2 * w.2.2 - 1), ?_, by linarith, by linarith, by linarith⟩
    simp only [Quarter.corners, mid]
    exact ⟨by linarith, by linear_combination x - c.1 * total, by linear_combination y - c.2 * total⟩
  · push Not at at_a at_b at_c
    refine ⟨.middle, (1 - 2 * w.2.2, 1 - 2 * w.1, 1 - 2 * w.2.1), ?_, by linarith, by linarith, by linarith⟩
    simp only [Quarter.corners, mid]
    exact ⟨by linarith, by linear_combination x + (a.1 + b.1 + c.1) * total,
      by linear_combination y + (a.2 + b.2 + c.2) * total⟩

/-- Different parts have no inner point in common. -/
theorem not_inner_of_ne {q q' : Quarter} (ne : q ≠ q')
    (h : Inner (q.corners mid a b c).1 (q.corners mid a b c).2.1 (q.corners mid a b c).2.2 p)
    (h' : Inner (q'.corners mid a b c).1 (q'.corners mid a b c).2.1 (q'.corners mid a b c).2.2 p) : False := by
  obtain ⟨wide, w, is, one, two, three⟩ := h
  obtain ⟨-, w', is', one', two', three'⟩ := h'
  have whole : area a b c ≠ 0 := fun flat => wide (by rw [area_quarter, flat, zero_div])
  have total := is.total
  have total' := is'.total
  -- The weights in the whole are the same, but more than half of them at other corners.
  have same : q.lift w = q'.lift w' := (is.lift.eq whole).trans (is'.lift.eq whole).symm
  cases q <;> cases q' <;>
    simp only [Quarter.lift, Prod.mk.injEq, ne_eq, not_true_eq_false] at same ne <;>
    linarith

end TcadWebapp.Plane
