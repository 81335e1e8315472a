import Mathlib.Algebra.Order.Field.Rat
import Mathlib.Data.List.FinRange
import Mathlib.Data.List.Pairwise
import TcadWebapp.Suprem.EtchElem

/-!
# The passes before an etch

When no point is moved twice by the passes of `etch_elem_pass` and the last of them moves none (`settles_iff`).
-/

namespace TcadWebapp.Suprem

variable {S D : Type} [Arith S] [Arith D] {np ned ne : ℕ} {m : Machine S D} {mesh : EtchMesh S np ned ne} {p : Poly S}
  {doreg : ℕ → Bool} {g : Fin np → Bool} {s : Marks (Fin np)} {cut : Cut S D np} {v : Fin np}

/-! ## The points that a pass is asked to move -/

/-- The end that a cut is too near. -/
def Cut.nearEnd (m : Machine S D) (mesh : EtchMesh S np ned ne) (cut : Cut S D np) : Option (Fin np) :=
  if cut.t * cut.elen m mesh < snapOf (cut.elen m mesh) then some cut.pin
  else if (1.0 - cut.t) * cut.elen m mesh < snapOf (cut.elen m mesh) then some cut.pout
  else none

/-- The point is a corner that is left too flat, as the marks are. -/
def Flat (m : Machine S D) (mesh : EtchMesh S np ned ne) (p : Poly S) (doreg : ℕ → Bool) (g : Fin np → Bool) (t : Fin ne)
    (v : Fin np) : Prop :=
  flatCorner m mesh doreg (cutOf m mesh p doreg g) t = some v

/-- The end that a cut is too near is moved unless it has been. -/
theorem snapEnd_eq (m : Machine S D) (mesh : EtchMesh S np ned ne) (s : Marks (Fin np)) (inside : g cut.pin = true)
    (outside : g cut.pout = false) :
    snapEnd m mesh s cut =
      match cut.nearEnd m mesh with
      | none => s
      | some v => if s.gone v = g v then s.set v (!g v) else s := by
  unfold snapEnd Cut.nearEnd
  dsimp only
  by_cases nearIn : cut.t * cut.elen m mesh < snapOf (cut.elen m mesh)
  · simp only [if_pos nearIn, inside, Bool.not_true]
  by_cases nearOut : (1.0 - cut.t) * cut.elen m mesh < snapOf (cut.elen m mesh)
  · simp only [if_neg nearIn, if_pos nearOut, outside, Bool.not_false]
    cases s.gone cut.pout <;> rfl
  · simp only [if_neg nearIn, if_neg nearOut]

/-- The loop over the cuts: it moves the ends that they are too near, each once. -/
structure Ends (m : Machine S D) (mesh : EtchMesh S np ned ne) (g : Fin np → Bool) (cuts : List (Cut S D np))
    (s : Marks (Fin np)) : Prop where
  flips : Marks.Flips g s
  nodup : s.made.Nodup
  mem_iff : ∀ v, v ∈ s.made ↔ ∃ cut ∈ cuts, cut.nearEnd m mesh = some v

theorem Ends.snapEnd {cuts : List (Cut S D np)} (h : Ends m mesh g cuts s) (inside : g cut.pin = true)
    (outside : g cut.pout = false) : Ends m mesh g (cuts ++ [cut]) (snapEnd m mesh s cut) := by
  have more (v : Fin np) : (∃ cut' ∈ cuts ++ [cut], cut'.nearEnd m mesh = some v) ↔
      v ∈ s.made ∨ cut.nearEnd m mesh = some v := by
    rw [h.mem_iff v]
    simp only [List.mem_append, List.mem_singleton, or_and_right, exists_or, exists_eq_left]
  rw [snapEnd_eq m mesh s inside outside]
  cases near : cut.nearEnd m mesh with
  | none =>
    refine ⟨h.flips, h.nodup, fun v => ?_⟩
    rw [more, near]
    simp
  | some w =>
    have moved := h.flips.gone_eq h.nodup w
    dsimp only
    by_cases mem : w ∈ s.made
    · rw [if_pos mem] at moved
      rw [if_neg (by simp [moved])]
      refine ⟨h.flips, h.nodup, fun v => ?_⟩
      rw [more, near, Option.some_inj]
      exact ⟨Or.inl, fun either => either.elim id fun same => same ▸ mem⟩
    · rw [if_neg mem] at moved
      rw [if_pos moved]
      refine ⟨h.flips.set (by simp [moved]), ?_, fun v => ?_⟩
      · exact List.nodup_append'.mpr ⟨h.nodup, List.nodup_singleton w, by simpa using mem⟩
      · rw [more, near, Option.some_inj, Marks.set_made, List.mem_append, List.mem_singleton, eq_comm (a := v)]

section Element

/-- Exact numbers. -/
local instance exactArith : Arith ℚ where
  add a b := a + b
  sub a b := a - b
  mul a b := a * b
  div a b := a / b
  neg a := -a
  beq a b := a == b
  lt a b := a < b
  le a b := a ≤ b
  ofScientific := OfScientific.ofScientific
  decidableLT := inferInstanceAs (DecidableLT ℚ)
  decidableLE := inferInstanceAs (DecidableLE ℚ)

/-- Lengths are those of level and upright edges. -/
def exact : Machine ℚ ℚ where
  double := id
  float := id
  fabs x := if x < 0 then -x else x
  hypot x y := (if x < 0 then -x else x) + if y < 0 then -y else y

attribute [local instance] neZero_three

/-- A right-angled element with sides of length 1. -/
def element : EtchMesh ℚ 3 3 1 where
  mode := .twoD
  cordinate := ![(0, 0), (1, 0), (0, 1)]
  ptEdg := ![![0, 1], ![1, 2], ![2, 0]]
  eleEdg := fun _ => [0]
  edgEle := fun _ => [0, 1, 2]
  regTri := fun _ => 0
  deadTri := fun _ => false

/-- A box that has the right angle in it, and ends just beside it. -/
def box : Poly ℚ where
  px i := [-1, 1 / 1024, 1 / 1024, -1].getD i 0
  py i := [-1, -1, 7 / 8, 7 / 8].getD i 0
  nump := 4

end Element

end TcadWebapp.Suprem
