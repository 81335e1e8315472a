import Mathlib.Algebra.BigOperators.Intervals
import Mathlib.Algebra.BigOperators.Ring.Finset
import Mathlib.Data.Finset.Sigma
import Mathlib.Data.Set.Card
import Mathlib.Tactic.Common

/-!
# Elimination

The vertices of a graph are taken out one after the other, and the neighbours of each are joined when it is taken out.
What is joined by then are the ends of the ways that go through what has been taken out (`through_insert`). In the
order of the numbers these are the places of the factors of a matrix (`fill_iff`).
-/

namespace TcadWebapp

variable {α β : Type*} {R : α → α → Prop} {S T : α → Prop} {x y z b : α}

/-- There is a way from `x` to `y` with nothing but points of `S` between them. -/
inductive Through (R : α → α → Prop) (S : α → Prop) : α → α → Prop
  | edge {x y : α} : R x y → Through R S x y
  | step {x z y : α} : R x z → S z → Through R S z y → Through R S x y

namespace Through

theorem mono (sub : ∀ v, S v → T v) (way : Through R S x y) : Through R T x y := by
  induction way with
  | edge near => exact .edge near
  | step near mem _ ih => exact .step near (sub _ mem) ih

theorem trans (left : Through R S x z) (mem : S z) (right : Through R S z y) : Through R S x y := by
  induction left with
  | edge near => exact .step near mem right
  | step near inner _ ih => exact .step near inner (ih mem right)

theorem symm (sym : ∀ u v, R u v → R v u) (way : Through R S x y) : Through R S y x := by
  induction way with
  | edge near => exact .edge (sym _ _ near)
  | step near mem _ ih => exact ih.trans mem (.edge (sym _ _ near))

theorem comm (sym : ∀ u v, R u v → R v u) : Through R S x y ↔ Through R S y x :=
  ⟨symm sym, symm sym⟩

/-- A way in one graph is one in another, under other names. -/
theorem map {Q : β → β → Prop} {T : β → Prop} (f : α → β) (near : ∀ u v, R u v → Q (f u) (f v))
    (mem : ∀ v, S v → T (f v)) (way : Through R S x y) : Through Q T (f x) (f y) := by
  induction way with
  | edge edge => exact .edge (near _ _ edge)
  | step edge inner _ ih => exact .step (near _ _ edge) (mem _ inner) ih

/-- With nothing taken out there are the edges. -/
theorem of_empty (empty : ∀ v, ¬S v) : Through R S x y ↔ R x y := by
  constructor
  · intro way
    cases way with
    | edge near => exact near
    | step _ mem _ => exact absurd mem (empty _)
  · exact edge

/-- Edges to themselves are not needed to come to another point. -/
theorem loopless {Q : α → α → Prop} (edges : ∀ u v, u ≠ v → R u v → Q u v) (way : Through R S x y) :
    x = y ∨ Through Q S x y := by
  classical
  induction way with
  | @edge x y near =>
    by_cases same : x = y
    · exact .inl same
    · exact .inr (.edge (edges _ _ same near))
  | @step x z y near mem _ ih =>
    by_cases same : x = z
    · exact same ▸ ih
    · refine .inr ?_
      rcases ih with rfl | way
      · exact .edge (edges _ _ same near)
      · exact .step (edges _ _ same near) mem way

/-- Taking out `b` joins its neighbours, and no others. -/
theorem insert_iff : Through R (fun v => S v ∨ v = b) x y ↔
    Through R S x y ∨ (Through R S x b ∧ Through R S b y) := by
  constructor
  · intro way
    induction way with
    | edge near => exact .inl (.edge near)
    | step near mem _ ih =>
      rcases mem with mem | rfl
      · rcases ih with way | ⟨toward, onward⟩
        · exact .inl (.step near mem way)
        · exact .inr ⟨.step near mem toward, onward⟩
      · -- the last time that the way is at `b`
        rcases ih with way | ⟨_, onward⟩
        · exact .inr ⟨.edge near, way⟩
        · exact .inr ⟨.edge near, onward⟩
  · intro split
    rcases split with way | ⟨toward, onward⟩
    · exact way.mono fun _ => .inl
    · exact (toward.mono fun _ => .inl).trans (.inr rfl) (onward.mono fun _ => .inl)

end Through

/-! ## In the order of the numbers -/

/-- `j` is joined to `k` when `k` is taken out after all that come before it. -/
def Fill (R : ℕ → ℕ → Prop) (k j : ℕ) : Prop := Through R (· < k) k j

section Numbers

variable {R : ℕ → ℕ → Prop} {i j k n : ℕ}

theorem through_succ {x y m : ℕ} : Through R (· < m + 1) x y ↔
    Through R (· < m) x y ∨ (Through R (· < m) x m ∧ Through R (· < m) m y) := by
  rw [← Through.insert_iff]
  have same : (fun v => v < m + 1) = fun v => v < m ∨ v = m := funext fun v => propext Nat.lt_succ_iff_lt_or_eq
  rw [same]

theorem through_below {x y m : ℕ} : Through R (· < m) x y ↔
    R x y ∨ ∃ i < m, Through R (· < i) x i ∧ Through R (· < i) i y := by
  induction m with
  | zero => simp [Through.of_empty]
  | succ m ih =>
    rw [through_succ, ih]
    constructor
    · intro split
      rcases split with (near | ⟨i, below, both⟩) | both
      · exact .inl near
      · exact .inr ⟨i, Nat.lt_succ_of_lt below, both⟩
      · exact .inr ⟨m, Nat.lt_succ_self m, both⟩
    · intro split
      rcases split with near | ⟨i, below, both⟩
      · exact .inl (.inl near)
      · rcases Nat.lt_succ_iff_lt_or_eq.mp below with below | rfl
        · exact .inl (.inr ⟨i, below, both⟩)
        · exact .inr both

/-- A row of the factor is that of the matrix and the rows before it that have its column. -/
theorem fill_iff (sym : ∀ u v, R u v → R v u) :
    Fill R k j ↔ R k j ∨ ∃ i < k, Fill R i k ∧ Fill R i j := by
  rw [Fill, through_below]
  apply or_congr_right
  apply exists_congr
  intro i
  rw [Through.comm sym (x := k)]
  rfl

/-- The places above the diagonal that are filled. -/
def fillSet (R : ℕ → ℕ → Prop) (n : ℕ) : Set (ℕ × ℕ) :=
  {place | place.1 < place.2 ∧ place.2 < n ∧ Fill R place.1 place.2}

/-- The fill, row by row. -/
theorem fillSet_ncard (R : ℕ → ℕ → Prop) (n : ℕ) :
    (fillSet R n).ncard = ∑ i ∈ Finset.range n, {b | i < b ∧ b < n ∧ Fill R i b}.ncard := by
  classical
  let row (i : ℕ) : Finset ℕ := (Finset.range n).filter fun b => i < b ∧ Fill R i b
  have rows (i : ℕ) : {b | i < b ∧ b < n ∧ Fill R i b} = (row i : Set ℕ) := by
    ext b
    simp only [row, Finset.coe_filter, Finset.mem_range, Set.mem_ofPred_eq]
    tauto
  have union : fillSet R n = ((Finset.range n).sigma row).map (Equiv.sigmaEquivProd ℕ ℕ).toEmbedding := by
    ext place
    obtain ⟨i, b⟩ := place
    rw [Finset.mem_coe, Finset.mem_map]
    constructor
    · intro mem
      obtain ⟨above, below, fill⟩ := mem
      have lt : i < n := above.trans below
      exact ⟨⟨i, b⟩, by simp [row, lt, above, below, fill], rfl⟩
    · intro found
      obtain ⟨⟨i', b'⟩, mem, eq⟩ := found
      cases eq
      simp only [row, Finset.mem_sigma, Finset.mem_filter, Finset.mem_range] at mem
      exact ⟨mem.2.2.1, mem.2.1, mem.2.2.2⟩
  rw [union, Set.ncard_coe_finset, Finset.card_map, Finset.card_sigma]
  apply Finset.sum_congr rfl
  intro i _
  rw [rows, Set.ncard_coe_finset]

end Numbers

/-! ## Other numbers -/

/-- The graph of the first `n` numbers, under the numbers that `reorder` gives them. -/
def Relabel (n : ℕ) (reorder : ℕ → ℕ) (R : ℕ → ℕ → Prop) (a b : ℕ) : Prop :=
  ∃ x < n, ∃ y < n, reorder x = a ∧ reorder y = b ∧ R x y

/-! ## Blocks -/

/-- `d` numbers for each of the first `n`, joined when these are. -/
def Blocks (n d : ℕ) (R R' : ℕ → ℕ → Prop) : Prop :=
  ∀ u w, u ≠ w → (R' u w ↔ u < d * n ∧ w < d * n ∧ R (u / d) (w / d))

section Blocks

variable {R R' : ℕ → ℕ → Prop} {n d u w : ℕ}

/-- Below `u` there are only blocks up to that of `u`. -/
theorem Blocks.fill_down (blocks : Blocks n d R R') (ne : u ≠ w) (fill : Fill R' u w) : Fill R (u / d) (w / d) := by
  have plain : Through (fun a b => a ≠ b ∧ R' a b) (· < u) u w :=
    (fill.loopless fun _ _ ne near => ⟨ne, near⟩).resolve_left ne
  have way : Through R (fun v => v < u / d ∨ v = u / d) (u / d) (w / d) := by
    refine plain.map (· / d) (fun a b near => ((blocks a b near.1).mp near.2).2.2) fun v less => ?_
    exact Nat.lt_or_eq_of_le (Nat.div_le_div_right less.le)
  -- the block of `u` is left for the last time
  rcases Through.insert_iff.mp way with way | both
  · exact way
  · exact both.2

theorem Blocks.fill_up (blocks : Blocks n d R R') (pos : 0 < d) (lt_u : u < d * n) (lt_w : w < d * n) (ne : u ≠ w)
    (fill : Fill R (u / d) (w / d)) : Fill R' u w := by
  have lift {x y : ℕ} (way : Through R (· < u / d) x y) : ∀ a b, a < d * n → b < d * n → a / d = x → b / d = y →
      a = b ∨ Through R' (· < u) a b := by
    induction way with
    | edge near =>
      intro a b lt_a lt_b at_a at_b
      by_cases same : a = b
      · exact .inl same
      · exact .inr (.edge ((blocks a b same).mpr ⟨lt_a, lt_b, by rwa [at_a, at_b]⟩))
    | @step x z y near less _ ih =>
      intro a b lt_a lt_b at_a at_b
      have below : d * z < u := (Nat.mul_lt_mul_of_pos_left less pos).trans_le (Nat.mul_div_le u d)
      have rest := ih (d * z) b (below.trans lt_u) lt_b (Nat.mul_div_cancel_left z pos) at_b
      by_cases same : a = d * z
      · exact same ▸ rest
      · have first : R' a (d * z) :=
          (blocks a (d * z) same).mpr ⟨lt_a, below.trans lt_u, by rwa [at_a, Nat.mul_div_cancel_left z pos]⟩
        refine .inr ?_
        rcases rest with rfl | way
        · exact .edge first
        · exact .step first below way
  exact (lift fill u w lt_u lt_w rfl rfl).resolve_left ne

/-- Two numbers are filled when they are of one block or their blocks are filled. -/
theorem Blocks.fill_iff (blocks : Blocks n d R R') (pos : 0 < d) (diag : ∀ i < n, R i i) (less : u < w)
    (lt_w : w < d * n) : Fill R' u w ↔ u / d = w / d ∨ Fill R (u / d) (w / d) := by
  have lt_u := less.trans lt_w
  constructor
  · exact fun fill => .inr (blocks.fill_down less.ne fill)
  · intro either
    rcases either with same | fill
    · refine .edge ((blocks u w less.ne).mpr ⟨lt_u, lt_w, ?_⟩)
      rw [← same]
      exact diag _ (Nat.div_lt_of_lt_mul lt_u)
    · exact blocks.fill_up pos lt_u lt_w less.ne fill

/-- The row of the `a`-th number of a block. -/
theorem Blocks.row_ncard (blocks : Blocks n d R R') (diag : ∀ i < n, R i i) {i a : ℕ} (lt : i < n) (lt_a : a < d) :
    {w | d * i + a < w ∧ w < d * n ∧ Fill R' (d * i + a) w}.ncard =
      (d - 1 - a) + d * {j | i < j ∧ j < n ∧ Fill R i j}.ncard := by
  classical
  have pos : 0 < d := by omega
  have block (j b : ℕ) (lt_b : b < d) : (d * j + b) / d = j := by
    rw [Nat.mul_add_div pos, Nat.div_eq_of_lt lt_b, Nat.add_zero]
  let cols := (Finset.range n).filter fun j => i < j ∧ Fill R i j
  let same := (Finset.range (d - 1 - a)).image fun t => d * i + a + 1 + t
  let other := (cols ×ˢ Finset.range d).image fun place => d * place.1 + place.2
  have mem_other (w : ℕ) : w ∈ other ↔ w / d < n ∧ i < w / d ∧ Fill R i (w / d) := by
    simp only [other, cols, Finset.mem_image, Finset.mem_product, Finset.mem_filter, Finset.mem_range]
    constructor
    · intro found
      obtain ⟨⟨j, b⟩, ⟨⟨lt_j, above, fill⟩, lt_b⟩, rfl⟩ := found
      rw [block j b lt_b]
      exact ⟨lt_j, above, fill⟩
    · intro all
      exact ⟨(w / d, w % d), ⟨all, Nat.mod_lt w pos⟩, Nat.div_add_mod w d⟩
  have mem_same (w : ℕ) : w ∈ same ↔ d * i + a < w ∧ w / d = i := by
    have split := Nat.div_add_mod w d
    have rem := Nat.mod_lt w pos
    simp only [same, Finset.mem_image, Finset.mem_range]
    constructor
    · intro found
      obtain ⟨t, lt_t, rfl⟩ := found
      have : d * i + a + 1 + t = d * i + (a + 1 + t) := by omega
      rw [this, block i _ (by omega)]
      exact ⟨by omega, rfl⟩
    · intro both
      obtain ⟨less, rfl⟩ := both
      exact ⟨w % d - a - 1, by omega, by omega⟩
  have set : {w | d * i + a < w ∧ w < d * n ∧ Fill R' (d * i + a) w} = ((same ∪ other : Finset ℕ) : Set ℕ) := by
    ext w
    rw [Finset.mem_coe, Finset.mem_union, mem_same, mem_other]
    have split := Nat.div_add_mod w d
    have rem := Nat.mod_lt w pos
    constructor
    · intro all
      obtain ⟨less, lt_w, fill⟩ := all
      have lt_n : w / d < n := Nat.div_lt_of_lt_mul lt_w
      have le : i ≤ w / d := by
        rw [← block i a lt_a]
        exact Nat.div_le_div_right less.le
      rcases Nat.lt_or_eq_of_le le with above | same
      · have down := blocks.fill_down less.ne fill
        rw [block i a lt_a] at down
        exact .inr ⟨lt_n, above, down⟩
      · exact .inl ⟨less, same.symm⟩
    · intro either
      rcases either with ⟨less, same⟩ | ⟨lt_n, above, fill⟩
      · have top : d * (w / d + 1) ≤ d * n := Nat.mul_le_mul_left d (same ▸ lt)
        have lt_w : w < d * n := by
          rw [Nat.mul_add_one] at top
          omega
        refine ⟨less, lt_w, (blocks.fill_iff pos diag less lt_w).mpr (.inl ?_)⟩
        rw [block i a lt_a, same]
      · have bottom : d * (i + 1) ≤ d * (w / d) := Nat.mul_le_mul_left d above
        have top : d * (w / d + 1) ≤ d * n := Nat.mul_le_mul_left d lt_n
        rw [Nat.mul_add_one] at bottom top
        have less : d * i + a < w := by omega
        have lt_w : w < d * n := by omega
        refine ⟨less, lt_w, (blocks.fill_iff pos diag less lt_w).mpr (.inr ?_)⟩
        rwa [block i a lt_a]
  have apart : Disjoint same other := by
    rw [Finset.disjoint_left]
    intro w mem_w mem_w'
    have eq := ((mem_same w).mp mem_w).2
    have less := ((mem_other w).mp mem_w').2.1
    omega
  have cols_eq : {j | i < j ∧ j < n ∧ Fill R i j} = (cols : Set ℕ) := by
    ext j
    simp only [cols, Finset.coe_filter, Finset.mem_range, Set.mem_ofPred_eq]
    tauto
  have inj : Set.InjOn (fun place : ℕ × ℕ => d * place.1 + place.2) ↑(cols ×ˢ Finset.range d) := by
    intro p mem_p q mem_q eq
    rw [Finset.mem_coe, Finset.mem_product, Finset.mem_range] at mem_p mem_q
    have eq : d * p.1 + p.2 = d * q.1 + q.2 := eq
    have first : p.1 = q.1 := by rw [← block p.1 p.2 mem_p.2, eq, block q.1 q.2 mem_q.2]
    rw [first] at eq
    exact Prod.ext first (Nat.add_left_cancel eq)
  rw [set, Set.ncard_coe_finset, Finset.card_union_of_disjoint apart,
    Finset.card_image_of_injective _ fun s t eq => Nat.add_left_cancel eq, Finset.card_range,
    Finset.card_image_of_injOn inj, Finset.card_product, Finset.card_range, cols_eq, Set.ncard_coe_finset, Nat.mul_comm d]

/-- The fill of blocks is that of the numbers, and what is right of the diagonal in the blocks. -/
theorem Blocks.fillSet_ncard (blocks : Blocks n d R R') (diag : ∀ i < n, R i i) :
    (fillSet R' (d * n)).ncard = d * d * (fillSet R n).ncard + n * (d * (d - 1) / 2) := by
  let row (u : ℕ) := {w | u < w ∧ w < d * n ∧ Fill R' u w}.ncard
  have rows (m : ℕ) : ∑ u ∈ Finset.range (d * m), row u =
      ∑ i ∈ Finset.range m, ∑ a ∈ Finset.range d, row (d * i + a) := by
    induction m with
    | zero => simp
    | succ m ih => rw [Nat.mul_add_one, Finset.sum_range_add, Finset.sum_range_succ, ih]
  have within : ∑ a ∈ Finset.range d, (d - 1 - a) = d * (d - 1) / 2 := by
    rw [Finset.sum_range_reflect (fun a => a) d, Finset.sum_range_id]
  have block (i : ℕ) (lt : i < n) : ∑ a ∈ Finset.range d, row (d * i + a) =
      d * (d - 1) / 2 + d * d * {j | i < j ∧ j < n ∧ Fill R i j}.ncard := by
    have each : ∑ a ∈ Finset.range d, row (d * i + a) =
        ∑ a ∈ Finset.range d, ((d - 1 - a) + d * {j | i < j ∧ j < n ∧ Fill R i j}.ncard) :=
      Finset.sum_congr rfl fun a mem => blocks.row_ncard diag lt (Finset.mem_range.mp mem)
    rw [each, Finset.sum_add_distrib, within, Finset.sum_const, Finset.card_range, Nat.nsmul_eq_mul, Nat.mul_assoc]
  have all : (fillSet R' (d * n)).ncard = ∑ i ∈ Finset.range n, ∑ a ∈ Finset.range d, row (d * i + a) :=
    (TcadWebapp.fillSet_ncard R' (d * n)).trans (rows n)
  rw [all, TcadWebapp.fillSet_ncard R n, Finset.mul_sum,
    Finset.sum_congr rfl fun i mem => block i (Finset.mem_range.mp mem), Finset.sum_add_distrib, Finset.sum_const,
    Finset.card_range, Nat.nsmul_eq_mul, Nat.add_comm]

end Blocks

end TcadWebapp
