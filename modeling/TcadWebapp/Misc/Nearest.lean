import Mathlib.Order.Basic
import Mathlib.Order.Lattice
import Mathlib.Tactic.Common

/-!
# The nearest of a list

A scan that keeps the best entry so far: it starts from a distance within which an entry must
lie, and an entry takes over when it is closer in the sense of the scan, which is `≤` where ties
go to the later entry and `<` where they go to the earlier one.
-/

namespace TcadWebapp

variable {α F : Type*}

/-- One entry of the scan. -/
def scanStep (closer : F → F → Bool) (distance : α → F) (best : Option α × F) (a : α) : Option α × F :=
  if closer (distance a) best.2 then (some a, distance a) else best

/-- The best entry, if any is near enough, and its distance. -/
def scan (closer : F → F → Bool) (distance : α → F) (reach : F) (l : List α) : Option α × F :=
  l.foldl (scanStep closer distance) (none, reach)

section Ties

variable [LinearOrder F] {closer : F → F → Bool} {distance : α → F} {reach : F} {l : List α}

/-- A comparison by which a scan may go: it refines the order. -/
structure Refines (closer : F → F → Bool) : Prop where
  le : ∀ {d e}, closer d e = true → d ≤ e
  ge : ∀ {d e}, closer d e = false → e ≤ d
  trans : ∀ {c d e}, closer c d = true → closer d e = true → closer c e = true

theorem refines_le : Refines fun d e : F => d ≤ e where
  le h := of_decide_eq_true h
  ge h := le_of_not_ge (of_decide_eq_false h)
  trans h h' := decide_eq_true ((of_decide_eq_true h).trans (of_decide_eq_true h'))

theorem refines_lt : Refines fun d e : F => d < e where
  le h := (of_decide_eq_true h).le
  ge h := le_of_not_gt (of_decide_eq_false h)
  trans h h' := decide_eq_true ((of_decide_eq_true h).trans (of_decide_eq_true h'))

/-- What the scan has found among the entries seen. -/
structure Scanned (closer : F → F → Bool) (distance : α → F) (reach : F) (seen : List α)
    (best : Option α × F) : Prop where
  least : ∀ a ∈ seen, best.2 ≤ distance a
  missed : best.1 = none → best.2 = reach ∧ ∀ a ∈ seen, closer (distance a) reach = false
  found : ∀ a, best.1 = some a → a ∈ seen ∧ best.2 = distance a ∧ closer (distance a) reach = true

theorem Scanned.step (refines : Refines closer) {seen : List α} {best : Option α × F}
    (h : Scanned closer distance reach seen best) (a : α) :
    Scanned closer distance reach (seen ++ [a]) (scanStep closer distance best a) := by
  unfold scanStep
  cases nearer : closer (distance a) best.2 with
  | true =>
    rw [if_pos rfl]
    have within : closer (distance a) reach = true := by
      cases e : best.1 with
      | none =>
        rw [← (h.missed e).1]
        exact nearer
      | some b =>
        obtain ⟨-, same, near⟩ := h.found b e
        exact refines.trans (same ▸ nearer) near
    refine ⟨?_, by simp, ?_⟩
    · intro b mem
      rcases List.mem_append.mp mem with mem | mem
      · exact (refines.le nearer).trans (h.least b mem)
      · rw [List.mem_singleton.mp mem]
    · intro b same
      obtain rfl := Option.some.inj same
      exact ⟨by simp, rfl, within⟩
  | false =>
    rw [if_neg Bool.false_ne_true]
    refine ⟨?_, ?_, ?_⟩
    · intro b mem
      rcases List.mem_append.mp mem with mem | mem
      · exact h.least b mem
      · rw [List.mem_singleton.mp mem]
        exact refines.ge nearer
    · intro none
      obtain ⟨same, far⟩ := h.missed none
      refine ⟨same, ?_⟩
      intro b mem
      rcases List.mem_append.mp mem with mem | mem
      · exact far b mem
      · rw [List.mem_singleton.mp mem, ← same]
        exact nearer
    · intro b same
      obtain ⟨mem, e, near⟩ := h.found b same
      exact ⟨List.mem_append_left _ mem, e, near⟩

theorem scanned_foldl (refines : Refines closer) {seen : List α} {best : Option α × F}
    (h : Scanned closer distance reach seen best) (l : List α) :
    Scanned closer distance reach (seen ++ l) (l.foldl (scanStep closer distance) best) := by
  induction l generalizing seen best with
  | nil => simpa using h
  | cons a l ih => simpa using ih (h.step refines a)

theorem scanned_scan (refines : Refines closer) (distance : α → F) (reach : F) (l : List α) :
    Scanned closer distance reach l (scan closer distance reach l) := by
  have start : Scanned closer distance reach [] ((none : Option α), reach) := ⟨by simp, by simp, by simp⟩
  simpa [scan] using scanned_foldl refines start l

/-- An entry that is found is among the nearest, and within reach. -/
theorem scan_eq_some (refines : Refines closer) {a : α} (h : (scan closer distance reach l).1 = some a) :
    a ∈ l ∧ closer (distance a) reach = true ∧ ∀ b ∈ l, distance a ≤ distance b := by
  have scanned := scanned_scan refines distance reach l
  obtain ⟨mem, same, near⟩ := scanned.found a h
  exact ⟨mem, near, fun b hb => same ▸ scanned.least b hb⟩

/-- Nothing is found only if nothing is within reach. -/
theorem scan_eq_none (refines : Refines closer) (h : (scan closer distance reach l).1 = none) :
    ∀ a ∈ l, closer (distance a) reach = false :=
  ((scanned_scan refines distance reach l).missed h).2

end Ties

end TcadWebapp
