import Mathlib.Data.List.Basic

/-!
# Forests

Ordered trees, by what stands below the first root and what comes after it.
-/

namespace TcadWebapp

inductive Forest (α : Type*) where
  | nil
  | cons (a : α) (below after : Forest α)
  deriving DecidableEq, Repr

namespace Forest

variable {α β : Type*}

/-- The roots with what stands below them. -/
def trees : Forest α → List (α × Forest α)
  | nil => []
  | cons a below after => (a, below) :: after.trees

def ofTrees : List (α × Forest α) → Forest α
  | [] => nil
  | (a, below) :: rest => cons a below (ofTrees rest)

/-- Everything, a root before what stands below it. -/
def flat : Forest α → List α
  | nil => []
  | cons a below after => a :: (below.flat ++ after.flat)

/-- How deep it goes. -/
def depth : Forest α → ℕ
  | nil => 0
  | cons _ below after => max (below.depth + 1) after.depth

@[simp] theorem ofTrees_trees (f : Forest α) : ofTrees f.trees = f := by
  induction f with
  | nil => rfl
  | cons a below after _ ih => rw [trees, ofTrees, ih]

@[simp] theorem trees_eq_nil {f : Forest α} : f.trees = [] ↔ f = nil := by
  cases f <;> simp [trees]

/-- The last place of a walk through it is a root. -/
def endsOnRoot : Forest α → Bool
  | nil => true
  | cons _ below after =>
    match below, after with
    | nil, nil => true
    | cons .., nil => false
    | _, cons .. => after.endsOnRoot

/-- `b` comes after the tree in which the last place of a walk is just below the root. -/
def behindLast (b : α) : Forest α → Forest α
  | nil => nil
  | cons a below after =>
    match below, after with
    | nil, nil => cons a nil nil
    | cons .., nil => if below.endsOnRoot then cons a below (cons b nil nil) else cons a (below.behindLast b) nil
    | _, cons .. => cons a below (after.behindLast b)

@[simp] theorem endsOnRoot_root (a : α) : (cons a nil nil).endsOnRoot = true := rfl

@[simp] theorem endsOnRoot_below (a b : α) (below after : Forest α) :
    (cons a (cons b below after) nil).endsOnRoot = false := rfl

@[simp] theorem endsOnRoot_after (a b : α) (f below after : Forest α) :
    (cons a f (cons b below after)).endsOnRoot = (cons b below after).endsOnRoot := by
  cases f <;> rfl

theorem behindLast_of_endsOnRoot (b : α) {f : Forest α} (ends : f.endsOnRoot = true) : f.behindLast b = f := by
  fun_induction behindLast b f with
  | case1 => rfl
  | case2 => rfl
  | case3 => cases ends
  | case4 => cases ends
  | case5 a below a' below' after' ih =>
    rw [endsOnRoot_after] at ends
    rw [ih ends]

/-- Nothing but `b` is new. -/
theorem filter_behindLast {b : α} {p : α → Bool} (not : p b = false) (f : Forest α) :
    (f.behindLast b).flat.filter p = f.flat.filter p := by
  fun_induction behindLast b f with
  | case1 => rfl
  | case2 => rfl
  | case3 a a' below' after' ends => simp [ends, flat, List.filter_cons, not]
  | case4 a a' below' after' ends ih =>
    have tree (x : Forest α) : (cons a x nil).flat = a :: x.flat := by simp [flat]
    rw [if_neg ends, tree, tree, List.filter_cons, List.filter_cons, ih]
  | case5 a below a' below' after' ih =>
    rw [flat, flat, List.filter_cons, List.filter_cons, List.filter_append, ih, List.filter_append]

/-- The trees are the same ones, and nothing but `b` is new in them. -/
theorem trees_behindLast {b : α} {f : Forest α} {i : ℕ} {a : α} {below : Forest α} (at_ : f.trees[i]? = some (a, below)) :
    ∃ below', (f.behindLast b).trees[i]? = some (a, below') ∧
      ∀ p : α → Bool, p b = false → below'.flat.filter p = below.flat.filter p := by
  fun_induction behindLast b f generalizing i with
  | case1 => cases at_
  | case2 a' => exact ⟨below, at_, fun _ _ => rfl⟩
  | case3 a' c below' after' ends =>
    rw [if_pos ends]
    cases i with
    | zero => exact ⟨below, at_, fun _ _ => rfl⟩
    | succ i => cases at_
  | case4 a' c below' after' ends ih =>
    rw [if_neg ends]
    cases i with
    | zero =>
      cases at_
      exact ⟨_, rfl, fun p not => filter_behindLast not _⟩
    | succ i => cases at_
  | case5 a' f c below' after' ih =>
    cases i with
    | zero => exact ⟨below, at_, fun _ _ => rfl⟩
    | succ i => exact ih at_

end Forest

end TcadWebapp
