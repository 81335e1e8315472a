import Mathlib.LinearAlgebra.Matrix.Block
import Mathlib.LinearAlgebra.Matrix.Determinant.Basic

/-!
# The factors of a matrix

A matrix that is computed place by place from a lower factor, a diagonal and an upper factor is their product
(`Crout.eq_mul`), so what the two substitutions end with solves it (`Crout.solves`), and the diagonal has no zero when
the leading minors have none (`Crout.det`).
-/

namespace TcadWebapp

open Matrix Finset

variable {F : Type*} [Field F] {M lo up : ℕ → ℕ → F} {d b x y : ℕ → F} {n k : ℕ}

/-- The leading part of a matrix. -/
def leading (n : ℕ) (M : ℕ → ℕ → F) : Matrix (Fin n) (Fin n) F := of fun r c => M r c

def lowerFactor (n : ℕ) (lo : ℕ → ℕ → F) : Matrix (Fin n) (Fin n) F :=
  of fun r c => if c < r then lo r c else if c = r then 1 else 0

def upperFactor (n : ℕ) (up : ℕ → ℕ → F) : Matrix (Fin n) (Fin n) F :=
  of fun r c => if r < c then up r c else if r = c then 1 else 0

/-- What the first `m` rows and columns of the factors make of a place. -/
def product (lo : ℕ → ℕ → F) (d : ℕ → F) (up : ℕ → ℕ → F) (m r c : ℕ) : F := ∑ i ∈ range m, lo r i * d i * up i c

/-- The first `k` of `n` rows and columns, each from those before it. -/
structure Crout (n : ℕ) (M lo : ℕ → ℕ → F) (d : ℕ → F) (up : ℕ → ℕ → F) (k : ℕ) : Prop where
  diag : ∀ i < k, M i i = product lo d up i i i + d i
  col : ∀ i < k, ∀ j < n, i < j → M j i = product lo d up i j i + lo j i * d i
  row : ∀ i < k, ∀ j < n, i < j → M i j = product lo d up i i j + d i * up i j

/-! ## The product of the factors -/

theorem det_lowerFactor : (lowerFactor n lo).det = 1 := by
  rw [det_of_isLowerTriangular]
  · simp [lowerFactor]
  · intro r c less
    have less : r < c := less
    simp [lowerFactor, less.not_gt, less.ne']

theorem det_upperFactor : (upperFactor n up).det = 1 := by
  rw [det_of_isUpperTriangular]
  · simp [upperFactor]
  · intro r c less
    have less : c < r := less
    simp [upperFactor, less.not_gt, less.ne']

theorem factors_apply (r c : Fin n) :
    (lowerFactor n lo * diagonal (fun i : Fin n => d i) * upperFactor n up) r c =
      product lo d up (min (r : ℕ) c) r c +
        (if (c : ℕ) < r then lo r c else 1) * d (min (r : ℕ) c) * (if (r : ℕ) < c then up r c else 1) := by
  let term (i : ℕ) : F := (if i < r then lo r i else if i = r then 1 else 0) * d i *
    (if i < (c : ℕ) then up i c else if i = c then 1 else 0)
  have sum : (lowerFactor n lo * diagonal (fun i : Fin n => d i) * upperFactor n up) r c = ∑ i ∈ range n, term i := by
    rw [mul_apply, ← Fin.sum_univ_eq_sum_range]
    apply Finset.sum_congr rfl
    intro i _
    simp only [mul_diagonal, lowerFactor, upperFactor, of_apply, term, Fin.lt_def, Fin.ext_iff]
  -- behind the smaller of the two numbers one of the factors is zero
  have behind : ∑ i ∈ range n, term i = ∑ i ∈ range (min (r : ℕ) c + 1), term i := by
    symm
    apply Finset.sum_subset
    · intro i mem
      rw [mem_range] at mem ⊢
      omega
    · intro i _ out
      rw [mem_range] at out
      rcases Nat.le_total r c with le | le
      · have : (r : ℕ) < i := by omega
        simp [term, this.not_gt, this.ne']
      · have : (c : ℕ) < i := by omega
        simp [term, this.not_gt, this.ne']
  rw [sum, behind, sum_range_succ, product]
  congr 1
  · apply Finset.sum_congr rfl
    intro i mem
    rw [mem_range] at mem
    have left : i < (r : ℕ) := by omega
    have right : i < (c : ℕ) := by omega
    simp [term, left, right]
  · rcases Nat.lt_trichotomy r c with less | same | less
    · simp [term, Nat.min_eq_left less.le, less, less.not_gt]
    · simp [term, same]
    · simp [term, Nat.min_eq_right less.le, less, less.not_gt]

/-- The matrix is the product of the factors. -/
theorem Crout.eq_mul (crout : Crout n M lo d up n) :
    leading n M = lowerFactor n lo * diagonal (fun i : Fin n => d i) * upperFactor n up := by
  ext r c
  rw [factors_apply, leading, of_apply]
  rcases Nat.lt_trichotomy r c with less | same | less
  · rw [crout.row r r.isLt c c.isLt less, Nat.min_eq_left less.le, if_neg less.not_gt, if_pos less, one_mul]
  · rw [same, crout.diag c c.isLt, Nat.min_self, if_neg (lt_irrefl _), if_neg (lt_irrefl _), one_mul, mul_one]
  · rw [crout.col c c.isLt r r.isLt less, Nat.min_eq_right less.le, if_pos less, if_neg less.not_gt, mul_one]

theorem Crout.det (crout : Crout n M lo d up n) : (leading n M).det = ∏ i ∈ range n, d i := by
  rw [crout.eq_mul, det_mul, det_mul, det_lowerFactor, det_upperFactor, det_diagonal, one_mul, mul_one,
    Fin.prod_univ_eq_prod_range]

/-! ## The two substitutions -/

/-- What the substitutions end with: `y` for the lower factor and `x` for the upper one. -/
structure Substituted (n : ℕ) (lo : ℕ → ℕ → F) (d : ℕ → F) (up : ℕ → ℕ → F) (b y x : ℕ → F) : Prop where
  lower : ∀ r < n, y r = b r - ∑ c ∈ range r, lo r c * y c
  upper : ∀ r < n, x r = y r / d r - ∑ c ∈ Ico (r + 1) n, up r c * x c

theorem lowerFactor_mulVec (r : Fin n) :
    (lowerFactor n lo *ᵥ fun i : Fin n => y i) r = ∑ c ∈ range r, lo r c * y c + y r := by
  have sum : (lowerFactor n lo *ᵥ fun i : Fin n => y i) r =
      ∑ c ∈ range n, (if c < r then lo r c else if c = r then 1 else 0) * y c := by
    rw [mulVec, dotProduct, ← Fin.sum_univ_eq_sum_range]
    apply Finset.sum_congr rfl
    intro c _
    simp only [lowerFactor, of_apply, Fin.lt_def, Fin.ext_iff]
  have behind : ∑ c ∈ range n, (if c < (r : ℕ) then lo r c else if c = r then 1 else 0) * y c =
      ∑ c ∈ range (r + 1), (if c < (r : ℕ) then lo r c else if c = r then 1 else 0) * y c := by
    symm
    apply Finset.sum_subset
    · intro i mem
      rw [mem_range] at mem ⊢
      omega
    · intro i _ out
      rw [mem_range] at out
      have : (r : ℕ) < i := by omega
      simp [this.not_gt, this.ne']
  rw [sum, behind, sum_range_succ]
  congr 1
  · apply Finset.sum_congr rfl
    intro c mem
    rw [if_pos (mem_range.mp mem)]
  · simp

theorem upperFactor_mulVec (r : Fin n) :
    (upperFactor n up *ᵥ fun i : Fin n => x i) r = x r + ∑ c ∈ Ico (r + 1 : ℕ) n, up r c * x c := by
  have sum : (upperFactor n up *ᵥ fun i : Fin n => x i) r =
      ∑ c ∈ Ico 0 n, (if r < c then up r c else if r = c then 1 else 0) * x c := by
    rw [← range_eq_Ico, mulVec, dotProduct, ← Fin.sum_univ_eq_sum_range]
    apply Finset.sum_congr rfl
    intro c _
    simp only [upperFactor, of_apply, Fin.lt_def, Fin.ext_iff]
  have before : ∑ c ∈ Ico 0 n, (if (r : ℕ) < c then up r c else if (r : ℕ) = c then 1 else 0) * x c =
      ∑ c ∈ Ico (r : ℕ) n, (if (r : ℕ) < c then up r c else if (r : ℕ) = c then 1 else 0) * x c := by
    symm
    apply Finset.sum_subset
    · intro i mem
      rw [mem_Ico] at mem ⊢
      omega
    · intro i inside out
      rw [mem_Ico] at inside out
      have : i < (r : ℕ) := by omega
      simp [this.not_gt, this.ne']
  rw [sum, before, sum_eq_sum_Ico_succ_bot r.isLt]
  congr 1
  · simp
  · apply Finset.sum_congr rfl
    intro c mem
    rw [if_pos (by rw [mem_Ico] at mem; omega)]

/-- They solve the system. -/
theorem Crout.solves (crout : Crout n M lo d up n) (nonzero : ∀ i < n, d i ≠ 0)
    (done : Substituted n lo d up b y x) : (leading n M *ᵥ fun i : Fin n => x i) = fun i : Fin n => b i := by
  have upper : (upperFactor n up *ᵥ fun i : Fin n => x i) = fun i : Fin n => y i / d i := by
    ext r
    rw [upperFactor_mulVec]
    conv_lhs => rw [done.upper r r.isLt]
    rw [sub_add_cancel]
  have scaled : (diagonal (fun i : Fin n => d i) *ᵥ fun i : Fin n => y i / d i) = fun i : Fin n => y i := by
    ext r
    rw [mulVec_diagonal, mul_div_cancel₀ _ (nonzero r r.isLt)]
  have lower : (lowerFactor n lo *ᵥ fun i : Fin n => y i) = fun i : Fin n => b i := by
    ext r
    rw [lowerFactor_mulVec]
    conv_lhs => rw [done.lower r r.isLt]
    rw [add_sub_cancel]
  rw [crout.eq_mul, ← mulVec_mulVec, ← mulVec_mulVec, upper, scaled, lower]

end TcadWebapp
