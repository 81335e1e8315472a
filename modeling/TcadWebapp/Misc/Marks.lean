import Mathlib.Algebra.Group.Nat.Even
import Mathlib.Data.List.Nodup
import Mathlib.Logic.Function.Basic

/-!
# Marks that are changed in passes

A loop of passes that change marks, until a pass changes none or there have been so many of them. What it takes for no
mark to be changed twice.
-/

namespace TcadWebapp

/-- Marks, and what has had its mark changed, in order. -/
structure Marks (α : Type*) where
  gone : α → Bool
  made : List α

namespace Marks

variable {α : Type*} [DecidableEq α] {g h : α → Bool} {s : Marks α} {pass : (α → Bool) → Marks α} {n : ℕ}

def set (s : Marks α) (v : α) (mark : Bool) : Marks α where
  gone := Function.update s.gone v mark
  made := s.made ++ [v]

@[simp] theorem set_gone (s : Marks α) (v u : α) (mark : Bool) :
    (s.set v mark).gone u = if u = v then mark else s.gone u :=
  Function.update_apply s.gone v mark u

@[simp] theorem set_made (s : Marks α) (v : α) (mark : Bool) : (s.set v mark).made = s.made ++ [v] := rfl

/-- The loop, for at most so many passes: the marks at the end, and what was changed in each pass. -/
def run (pass : (α → Bool) → Marks α) : ℕ → (α → Bool) → (α → Bool) × List (List α)
  | 0, g => (g, [])
  | n + 1, g =>
    let s := pass g
    if s.made.isEmpty then (s.gone, [s.made])
    else
      let (g, passes) := run pass n s.gone
      (g, s.made :: passes)

/-- A mark is as it was when it has been changed an even number of times. -/
def Flips (g : α → Bool) (s : Marks α) : Prop :=
  ∀ v, s.gone v = if Even (s.made.count v) then g v else !g v

theorem Flips.set (flips : Flips g s) {v : α} {mark : Bool} (change : s.gone v = !mark) : Flips g (s.set v mark) := by
  intro u
  have before := flips u
  by_cases same : u = v
  · subst same
    simp only [set_gone, set_made, if_true, List.count_append, List.count_singleton_self, Nat.even_add_one]
    rw [change] at before
    by_cases even : Even (s.made.count u)
    · rw [if_pos even] at before
      simp [even, ← before]
    · rw [if_neg even] at before
      simp [even, Bool.not_inj before]
  · have count : (s.made ++ [v]).count u = s.made.count u := by simp [Ne.symm same]
    simp only [set_gone, set_made, if_neg same, count]
    exact before

/-- Where no mark is changed twice, the changed ones are those that are not as they were. -/
theorem Flips.gone_eq (flips : Flips g s) (nodup : s.made.Nodup) (v : α) :
    s.gone v = if v ∈ s.made then !g v else g v := by
  rw [flips v]
  by_cases mem : v ∈ s.made
  · rw [List.count_eq_one_of_mem nodup mem, if_neg (by decide), if_pos mem]
  · rw [List.count_eq_zero_of_not_mem mem, if_pos (by decide), if_neg mem]

/-! ## The loop -/

end Marks

end TcadWebapp
