import Mathlib.Algebra.BigOperators.Ring.Finset
import Mathlib.Data.Set.Card
import Mathlib.Tactic.IntervalCases
import TcadWebapp.Misc.Elimination
import TcadWebapp.Suprem.MinFill
import TcadWebapp.Suprem.Proofs.Symfac

/-!
# The minimum fill ordering

`min_ia_fill` takes each node out when none has fewer neighbors, its order is one, and what it returns is the fill
(`minIaFill_spec`).
-/

namespace TcadWebapp.Suprem

variable {n best work q x y : ℕ} {mask : ℕ → Bool} {bestl workl : List ℕ} {s : Neighbors}

/-! ## The union -/

theorem stuff_eq (mask : ℕ → Bool) (bestl : List ℕ) (s : List ℕ × ℤ) :
    stuff mask bestl s =
      ((bestl.filter fun q => !mask q).reverse ++ s.1, s.2 + (bestl.filter fun q => !mask q).length) := by
  induction bestl generalizing s with
  | nil => simp [stuff]
  | cons q bestl ih =>
    have step : stuff mask (q :: bestl) s = stuff mask bestl (if mask q then s else (q :: s.1, s.2 + 1)) := rfl
    rw [step, ih]
    cases set : mask q
    · simp [set]
      omega
    · simp [set]

theorem clear_iff {cols : List ℕ} :
    cols.foldl (fun mask q => Function.update mask q false) mask q = (mask q && !cols.contains q) := by
  induction cols generalizing mask with
  | nil => simp
  | cons c cols ih =>
    rw [List.foldl_cons, ih, List.contains_cons]
    by_cases same : q = c
    · subst same
      simp
    · rw [Function.update_of_ne same, beq_false_of_ne same, Bool.false_or]

/-- The new list of a neighbor. -/
def joined (best : ℕ) (bestl workl : List ℕ) : List ℕ :=
  (bestl.filter fun q => !workl.contains q).reverse ++ workl.erase best

theorem mem_joined (nodup : workl.Nodup) (mem : best ∈ workl) :
    q ∈ joined best bestl workl ↔ q ≠ best ∧ (q ∈ workl ∨ q ∈ bestl) := by
  rw [joined, List.mem_append, List.mem_reverse, List.mem_filter, nodup.mem_erase_iff, Bool.not_eq_true',
    List.contains_eq_mem, decide_eq_false_iff_not]
  constructor
  · intro either
    rcases either with ⟨new, out⟩ | ⟨ne, old⟩
    · exact ⟨fun same => out (same ▸ mem), .inr new⟩
    · exact ⟨ne, .inl old⟩
  · intro both
    obtain ⟨ne, either⟩ := both
    by_cases old : q ∈ workl
    · exact .inr ⟨ne, old⟩
    · exact .inl ⟨either.resolve_left old, old⟩

theorem joined_nodup (nodup : workl.Nodup) (nodup' : bestl.Nodup) : (joined best bestl workl).Nodup := by
  rw [joined, List.nodup_append']
  refine ⟨List.nodup_reverse.mpr (nodup'.filter _), nodup.erase best, ?_⟩
  intro q new old
  rw [List.mem_reverse, List.mem_filter] at new
  have old := List.mem_of_mem_erase old
  simp [old] at new

/-! ## The neighbors of a node -/

/-- The lists are what they are when a node has no links to itself missing, none twice, and its length right. -/
structure Listed (best : ℕ) (s : Neighbors) (x : ℕ) : Prop where
  mem : best ∈ s.nbrs x
  nodup : (s.nbrs x).Nodup
  length : s.v x = (s.nbrs x).length

theorem eliminate_eq (ne : work ≠ best) (clean : ∀ q, s.mask q = false) (listed : Listed best s work) :
    let workl := joined best (s.nbrs best) (s.nbrs work)
    let s' := eliminate best s work
    s'.nbrs = Function.update s.nbrs work workl ∧ s'.v = Function.update s.v work workl.length ∧
      (∀ q, s'.mask q = false) ∧ s'.obestn = min s.obestn workl.length := by
  intro workl
  have set (q : ℕ) : setAll s.mask (s.nbrs work) q = (s.nbrs work).contains q := by
    rw [Bool.eq_iff_iff, setAll_iff, clean q]
    simp
  have set' : setAll s.mask (s.nbrs work) = fun q => (s.nbrs work).contains q := funext set
  have length : s.v work - 1 + ((s.nbrs best).filter fun q => !(s.nbrs work).contains q).length = workl.length := by
    have pos := List.length_pos_of_mem listed.mem
    simp only [workl, joined, List.length_append, List.length_reverse, List.length_erase_of_mem listed.mem, listed.length]
    omega
  have run : stuff (setAll s.mask (s.nbrs work)) (s.nbrs best) ((s.nbrs work).erase best, s.v work - 1) =
      (workl, (workl.length : ℤ)) := by
    rw [stuff_eq, set', length]
    rfl
  rw [eliminate, if_neg ne]
  simp only [run]
  refine ⟨trivial, trivial, ?_, ?_⟩
  · intro q
    rw [clear_iff, set']
    by_cases same : q = best
    · subst same
      simp
    · rw [Function.update_of_ne same]
      by_cases old : q ∈ s.nbrs work
      · have new : q ∈ workl := (mem_joined listed.nodup listed.mem).mpr ⟨same, .inl old⟩
        simp [new]
      · simp [old]
  · split_ifs with less
    · exact (min_eq_right less.le).symm
    · exact (min_eq_left (not_lt.mp less)).symm

/-- What the loop over the neighbors of `best` has done so far. -/
structure Done (best : ℕ) (s : Neighbors) (done : List ℕ) (s' : Neighbors) : Prop where
  nbrs : ∀ x, s'.nbrs x = if x ∈ done ∧ x ≠ best then joined best (s.nbrs best) (s.nbrs x) else s.nbrs x
  v : ∀ x, s'.v x = if x ∈ done ∧ x ≠ best then ((s'.nbrs x).length : ℤ) else s.v x
  clean : ∀ q, s'.mask q = false
  low : s'.obestn ≤ s.obestn
  lowest : ∀ x ∈ done, x ≠ best → s'.obestn ≤ s'.v x

theorem Done.step {done : List ℕ} {s' : Neighbors} (sofar : Done best s done s') (out : work ∉ done)
    (listed : Listed best s work) : Done best s (done ++ [work]) (eliminate best s' work) := by
  by_cases self : work = best
  · have skip : eliminate best s' work = s' := by rw [eliminate, if_pos self]
    have same (x : ℕ) : x ∈ done ++ [work] ∧ x ≠ best ↔ x ∈ done ∧ x ≠ best := by
      rw [List.mem_append, List.mem_singleton]
      constructor
      · intro both
        exact ⟨both.1.resolve_right fun eq => both.2 (eq.trans self), both.2⟩
      · exact fun both => ⟨.inl both.1, both.2⟩
    rw [skip]
    refine ⟨fun x => ?_, fun x => ?_, sofar.clean, sofar.low, fun x mem ne => ?_⟩
    · simp only [same, sofar.nbrs x]
    · simp only [same, sofar.v x]
    · exact sofar.lowest x ((same x).mp ⟨mem, ne⟩).1 ne
  · have at_best : s'.nbrs best = s.nbrs best := by simp [sofar.nbrs best]
    have at_work : s'.nbrs work = s.nbrs work := by simp [sofar.nbrs work, out]
    have listed' : Listed best s' work := by
      refine ⟨at_work ▸ listed.mem, at_work ▸ listed.nodup, ?_⟩
      rw [at_work, sofar.v work, if_neg fun both => out both.1]
      exact listed.length
    obtain ⟨nbrs, v, clean, low⟩ := eliminate_eq self sofar.clean listed'
    rw [at_best, at_work] at nbrs v low
    have new (x : ℕ) (ne : x ≠ work) : x ∈ done ++ [work] ↔ x ∈ done := by simp [ne]
    refine ⟨fun x => ?_, fun x => ?_, clean, ?_, fun x mem ne => ?_⟩
    · rw [nbrs]
      by_cases same : x = work
      · subst same
        rw [Function.update_self, if_pos ⟨by simp, self⟩]
      · rw [Function.update_of_ne same, sofar.nbrs x]
        simp only [new x same]
    · rw [nbrs, v]
      by_cases same : x = work
      · subst same
        rw [Function.update_self, Function.update_self, if_pos ⟨by simp, self⟩]
      · rw [Function.update_of_ne same, Function.update_of_ne same, sofar.v x]
        simp only [new x same]
    · rw [low]
      exact (min_le_left _ _).trans sofar.low
    · rw [low, v]
      by_cases same : x = work
      · subst same
        rw [Function.update_self]
        exact min_le_right _ _
      · rw [Function.update_of_ne same]
        exact (min_le_left _ _).trans (sofar.lowest x ((new x same).mp mem) ne)

theorem eliminate_done (clean : ∀ q, s.mask q = false) (nodup : bestl.Nodup)
    (listed : ∀ x ∈ bestl, Listed best s x) : Done best s bestl (bestl.foldl (eliminate best) s) := by
  have go (done rest : List ℕ) (nodup : (done ++ rest).Nodup) (listed : ∀ x ∈ rest, Listed best s x) (s' : Neighbors)
      (sofar : Done best s done s') : Done best s (done ++ rest) (rest.foldl (eliminate best) s') := by
    induction rest generalizing done s' with
    | nil => simpa using sofar
    | cons work rest ih =>
      have out : work ∉ done := fun mem => (List.nodup_append'.mp nodup).2.2 mem List.mem_cons_self
      have next := ih (done ++ [work]) (by simpa using nodup) (fun x mem => listed x (List.mem_cons_of_mem work mem))
        (eliminate best s' work) (sofar.step out (listed work List.mem_cons_self))
      simpa using next
  have start : Done best s [] s := ⟨by simp, by simp, clean, le_rfl, by simp⟩
  simpa using go [] bestl (by simpa using nodup) listed s start

/-! ## The scan -/

/-- The scan finds a least number of neighbors, when there are none below the old one. -/
theorem scan_spec (remaining : ℕ → ℕ) {rest : List ℕ} (low : ∀ i ∈ rest, s.obestn ≤ s.v (remaining i)) (best₀ : ℤ × ℕ)
    (high : ∃ i ∈ rest, s.v (remaining i) < best₀.1) :
    ∃ i ∈ rest, scan s remaining rest best₀ = (s.v (remaining i), i) ∧
      ∀ j ∈ rest, s.v (remaining i) ≤ s.v (remaining j) := by
  have go (rest : List ℕ) (low : ∀ i ∈ rest, s.obestn ≤ s.v (remaining i)) (best₀ : ℤ × ℕ) :
      ((scan s remaining rest best₀ = best₀ ∨
          ∃ i ∈ rest, scan s remaining rest best₀ = (s.v (remaining i), i)) ∧
        (scan s remaining rest best₀).1 ≤ best₀.1) ∧
        ∀ j ∈ rest, (scan s remaining rest best₀).1 ≤ s.v (remaining j) := by
    induction rest generalizing best₀ with
    | nil => exact ⟨⟨.inl rfl, le_rfl⟩, by simp⟩
    | cons i rest ih =>
      have later (j : ℕ) (mem : j ∈ rest) := low j (List.mem_cons_of_mem i mem)
      rw [scan]
      split_ifs with less least
      · -- no node has fewer
        refine ⟨⟨.inr ⟨i, List.mem_cons_self, rfl⟩, less.le⟩, ?_⟩
        intro j mem
        exact least.trans (low j mem)
      · obtain ⟨⟨found, le⟩, all⟩ := ih later (s.v (remaining i), i)
        refine ⟨⟨.inr ?_, le.trans less.le⟩, ?_⟩
        · rcases found with same | ⟨j, mem, at_j⟩
          · exact ⟨i, List.mem_cons_self, same⟩
          · exact ⟨j, List.mem_cons_of_mem i mem, at_j⟩
        · intro j mem
          rcases List.mem_cons.mp mem with rfl | mem
          · exact le
          · exact all j mem
      · obtain ⟨⟨found, le⟩, all⟩ := ih later best₀
        refine ⟨⟨found.imp_right ?_, le⟩, ?_⟩
        · intro there
          obtain ⟨j, mem, at_j⟩ := there
          exact ⟨j, List.mem_cons_of_mem i mem, at_j⟩
        · intro j mem
          rcases List.mem_cons.mp mem with rfl | mem
          · exact le.trans (not_lt.mp less)
          · exact all j mem
  obtain ⟨⟨found, le⟩, all⟩ := go rest low best₀
  obtain ⟨j, mem_j, less⟩ := high
  rcases found with same | ⟨i, mem, at_i⟩
  · have := all j mem_j
    rw [same] at this
    exact absurd less (not_lt.mpr this)
  · refine ⟨i, mem, at_i, ?_⟩
    intro m mem_m
    have := all m mem_m
    rwa [at_i] at this

/-! ## A step -/

/-- The neighbors of a node among those that are left, itself included, when `gone` are not. -/
noncomputable def degree (n : ℕ) (A : ℕ → ℕ → Prop) (gone : ℕ → Prop) (x : ℕ) : ℕ :=
  {y | y < n ∧ ¬gone y ∧ Through A gone x y}.ncard

/-- The nodes `order` are gone, in this order; each had no more neighbors than the others that were left. -/
structure MinInv (n : ℕ) (A : ℕ → ℕ → Prop) (order : List ℕ) (s : MinFill) : Prop where
  order_nodup : order.Nodup
  order_lt : ∀ x ∈ order, x < n
  left : ∀ x, x ∈ (List.range s.nremain).map s.remaining ↔ x < n ∧ x ∉ order
  left_nodup : ((List.range s.nremain).map s.remaining).Nodup
  number : s.nremain + order.length = n
  reorder : ∀ i x, order[i]? = some x → s.reorder x = i
  near : ∀ x < n, x ∉ order → ∀ y, y ∈ s.near.nbrs x ↔ y < n ∧ y ∉ order ∧ Through A (· ∈ order) x y
  nodup : ∀ x < n, x ∉ order → (s.near.nbrs x).Nodup
  length : ∀ x < n, x ∉ order → s.near.v x = (s.near.nbrs x).length
  clean : ∀ q, s.near.mask q = false
  low : ∀ x < n, x ∉ order → s.near.obestn ≤ s.near.v x
  total : s.total = ∑ i ∈ Finset.range order.length, (degree n A (· ∈ order.take i) (order.getD i 0) : ℤ)
  least : ∀ i x, order[i]? = some x → ∀ y < n, y ∉ order.take i →
    degree n A (· ∈ order.take i) x ≤ degree n A (· ∈ order.take i) y

section Step

variable {A : ℕ → ℕ → Prop} {order : List ℕ} {s : MinFill}

theorem MinInv.degree_eq (inv : MinInv n A order s) (lt : x < n) (out : x ∉ order) :
    s.near.v x = degree n A (· ∈ order) x := by
  have same : {y | y < n ∧ y ∉ order ∧ Through A (· ∈ order) x y} = ((s.near.nbrs x).toFinset : Set ℕ) := by
    ext y
    rw [Finset.mem_coe, List.mem_toFinset, inv.near x lt out y]
    rfl
  rw [inv.length x lt out, degree, same, Set.ncard_coe_finset, List.toFinset_card_of_nodup (inv.nodup x lt out)]

theorem MinInv.length_le (inv : MinInv n A order s) (lt : x < n) (out : x ∉ order) : s.near.v x ≤ n := by
  rw [inv.length x lt out]
  have := length_le_of_below (inv.nodup x lt out) fun y mem => ((inv.near x lt out y).mp mem).1
  exact_mod_cast this

/-- The last of the nodes that are left takes the place of the one that goes. -/
theorem remaining_eq {remaining : ℕ → ℕ} {m i : ℕ} (lt : i < m) (nodup : ((List.range m).map remaining).Nodup) :
    (((List.range (m - 1)).map (Function.update remaining i (remaining (m - 1)))).Nodup) ∧
      ∀ x, x ∈ (List.range (m - 1)).map (Function.update remaining i (remaining (m - 1))) ↔
        x ∈ (List.range m).map remaining ∧ x ≠ remaining i := by
  have inj (a b : ℕ) (lt_a : a < m) (lt_b : b < m) (same : remaining a = remaining b) : a = b := by
    rw [List.nodup_map_iff_inj_on List.nodup_range] at nodup
    exact nodup a (List.mem_range.mpr lt_a) b (List.mem_range.mpr lt_b) same
  constructor
  · rw [List.nodup_map_iff_inj_on List.nodup_range]
    intro a lt_a b lt_b same
    rw [List.mem_range] at lt_a lt_b
    by_cases at_a : a = i <;> by_cases at_b : b = i
    · rw [at_a, at_b]
    · rw [at_a, Function.update_self, Function.update_of_ne at_b] at same
      have := inj _ _ (by omega) (by omega) same
      omega
    · rw [at_b, Function.update_self, Function.update_of_ne at_a] at same
      have := inj _ _ (by omega) (by omega) same
      omega
    · rw [Function.update_of_ne at_a, Function.update_of_ne at_b] at same
      exact inj _ _ (by omega) (by omega) same
  · intro x
    simp only [List.mem_map, List.mem_range]
    constructor
    · intro found
      obtain ⟨a, lt_a, rfl⟩ := found
      by_cases at_a : a = i
      · rw [at_a, Function.update_self]
        refine ⟨⟨m - 1, by omega, rfl⟩, fun same => ?_⟩
        have := inj _ _ (by omega) (by omega) same
        omega
      · rw [Function.update_of_ne at_a]
        refine ⟨⟨a, by omega, rfl⟩, fun same => at_a (inj _ _ (by omega) lt same)⟩
    · intro both
      obtain ⟨⟨a, lt_a, rfl⟩, ne⟩ := both
      have not_i : a ≠ i := fun eq => ne (eq ▸ rfl)
      by_cases last : a = m - 1
      · exact ⟨i, by omega, by rw [Function.update_self, last]⟩
      · exact ⟨a, by omega, Function.update_of_ne not_i _ _⟩

/-- What the matrix map is asked for: `A` is symmetric and has the diagonal, for the first `n` numbers. -/
structure Graph (n : ℕ) (A : ℕ → ℕ → Prop) : Prop where
  symm : ∀ u v, A u v → A v u
  inside : ∀ u v, A u v → v < n
  diag : ∀ u < n, A u u

/-- A step takes a node out that has no more neighbors than any other. -/
theorem minStep_inv (graph : Graph n A) (inv : MinInv n A order s) (more : order.length < n) :
    ∃ best, MinInv n A (order ++ [best]) (minStep n s order.length) := by
  have pos : 0 < s.nremain := by
    have := inv.number
    omega
  have live (i : ℕ) (lt : i < s.nremain) : s.remaining i < n ∧ s.remaining i ∉ order :=
    (inv.left _).mp (List.mem_map.mpr ⟨i, List.mem_range.mpr lt, rfl⟩)
  have low (i : ℕ) (mem : i ∈ List.range s.nremain) : s.near.obestn ≤ s.near.v (s.remaining i) :=
    inv.low _ (live i (List.mem_range.mp mem)).1 (live i (List.mem_range.mp mem)).2
  have high : s.near.v (s.remaining 0) < (n : ℤ) + 1 := by
    have := inv.length_le (live 0 pos).1 (live 0 pos).2
    omega
  obtain ⟨besti, mem, at_best, least⟩ := scan_spec s.remaining low ((n : ℤ) + 1, s.besti)
    ⟨0, List.mem_range.mpr pos, high⟩
  rw [List.mem_range] at mem
  let best := s.remaining besti
  obtain ⟨lt_best, out_best⟩ := live besti mem
  let near₀ : Neighbors := { s.near with obestn := s.near.v best }
  let bestl := s.near.nbrs best
  let near := bestl.foldl (eliminate best) near₀
  have run : minStep n s order.length =
      { near := { near with nbrs := Function.update near.nbrs best [] }
        remaining := Function.update s.remaining besti (s.remaining (s.nremain - 1))
        nremain := s.nremain - 1
        besti
        total := s.total + bestl.length
        reorder := Function.update s.reorder best order.length } := by
    simp only [minStep, at_best]
    rfl
  have mem_bestl (x : ℕ) : x ∈ bestl ↔ x < n ∧ x ∉ order ∧ Through A (· ∈ order) best x :=
    inv.near best lt_best out_best x
  have listed (x : ℕ) (mem : x ∈ bestl) : Listed best near₀ x := by
    obtain ⟨lt, out, way⟩ := (mem_bestl x).mp mem
    exact ⟨(inv.near x lt out best).mpr ⟨lt_best, out_best, way.symm graph.symm⟩, inv.nodup x lt out,
      inv.length x lt out⟩
  have nodup_bestl : bestl.Nodup := inv.nodup best lt_best out_best
  have done : Done best near₀ bestl near := eliminate_done inv.clean nodup_bestl listed
  have new (x : ℕ) : x ∉ order ++ [best] ↔ x ∉ order ∧ x ≠ best := by simp
  have gone : (fun v => v ∈ order ++ [best]) = fun v => v ∈ order ∨ v = best := by simp
  have same (x : ℕ) (ne : x ≠ best) : Function.update near.nbrs best [] x = near.nbrs x :=
    Function.update_of_ne ne _ _
  have union (x : ℕ) (mem : x ∈ bestl) (ne : x ≠ best) : near.nbrs x = joined best bestl (s.near.nbrs x) := by
    rw [done.nbrs x, if_pos ⟨mem, ne⟩]
  have kept (x : ℕ) (out : x ∉ bestl) : near.nbrs x = s.near.nbrs x := by
    rw [done.nbrs x, if_neg fun both => out both.1]
  have remaining := remaining_eq mem inv.left_nodup
  have before (i : ℕ) (lt : i ≤ order.length) : (order ++ [best]).take i = order.take i := by
    rw [List.take_append_of_le_length lt]
  have value := inv.degree_eq lt_best out_best
  refine ⟨best, run ▸ ⟨?_, ?_, ?_, ?_, ?_, ?_, ?_, ?_, ?_, ?_, ?_, ?_, ?_⟩⟩
  · rw [List.nodup_append']
    refine ⟨inv.order_nodup, List.nodup_singleton best, fun x mem eq => ?_⟩
    rw [List.mem_singleton.mp eq] at mem
    exact out_best mem
  · intro x mem
    rcases List.mem_append.mp mem with mem | mem
    · exact inv.order_lt x mem
    · exact List.mem_singleton.mp mem ▸ lt_best
  · intro x
    rw [remaining.2 x, inv.left x, new x]
    exact and_assoc
  · exact remaining.1
  · have := inv.number
    rw [List.length_append, List.length_singleton]
    dsimp only
    omega
  · intro i x at_i
    rcases Nat.lt_trichotomy i order.length with less | rfl | more
    · rw [List.getElem?_append_left less] at at_i
      have mem_x : x ∈ order := List.mem_of_getElem? at_i
      have ne : x ≠ best := by
        intro eq
        rw [eq] at mem_x
        exact out_best mem_x
      exact (Function.update_of_ne ne _ _).trans (inv.reorder i x at_i)
    · rw [List.getElem?_append_right le_rfl, Nat.sub_self] at at_i
      obtain rfl : best = x := by simpa using at_i
      exact Function.update_self _ _ _
    · rw [List.getElem?_eq_none (by simp; omega)] at at_i
      cases at_i
  · intro x lt out y
    obtain ⟨out, ne⟩ := (new x).mp out
    rw [gone, Through.insert_iff, new y]
    dsimp only
    rw [same x ne]
    by_cases near_best : x ∈ bestl
    · rw [union x near_best ne, mem_joined (inv.nodup x lt out) (listed x near_best).mem, inv.near x lt out y, mem_bestl y]
      have way := ((mem_bestl x).mp near_best).2.2.symm graph.symm
      simp only [way, true_and]
      tauto
    · rw [kept x near_best, inv.near x lt out y]
      have no_way : ¬Through A (· ∈ order) x best := fun way =>
        near_best ((mem_bestl x).mpr ⟨lt, out, way.symm graph.symm⟩)
      simp only [no_way, false_and, or_false]
      constructor
      · intro all
        obtain ⟨lt_y, out_y, way⟩ := all
        exact ⟨lt_y, ⟨out_y, fun eq => no_way (eq ▸ way)⟩, way⟩
      · intro all
        obtain ⟨lt_y, ⟨out_y, -⟩, way⟩ := all
        exact ⟨lt_y, out_y, way⟩
  · intro x lt out
    obtain ⟨out, ne⟩ := (new x).mp out
    dsimp only
    rw [same x ne]
    by_cases near_best : x ∈ bestl
    · rw [union x near_best ne]
      exact joined_nodup (inv.nodup x lt out) nodup_bestl
    · rw [kept x near_best]
      exact inv.nodup x lt out
  · intro x lt out
    obtain ⟨out, ne⟩ := (new x).mp out
    dsimp only
    rw [same x ne, done.v x]
    by_cases near_best : x ∈ bestl
    · rw [if_pos ⟨near_best, ne⟩]
    · rw [if_neg fun both => near_best both.1, kept x near_best]
      exact inv.length x lt out
  · exact done.clean
  · intro x lt out
    obtain ⟨out, ne⟩ := (new x).mp out
    by_cases near_best : x ∈ bestl
    · exact done.lowest x near_best ne
    · dsimp only
      rw [done.v x, if_neg fun both => near_best both.1]
      obtain ⟨j, mem_j, rfl⟩ := List.mem_map.mp ((inv.left x).mpr ⟨lt, out⟩)
      exact done.low.trans (least j mem_j)
  · have size : (bestl.length : ℤ) = degree n A (· ∈ order) best := (inv.length best lt_best out_best).symm.trans value
    rw [List.length_append, List.length_singleton, Finset.sum_range_succ, before _ le_rfl, List.take_length]
    dsimp only
    rw [inv.total, size]
    congr 1
    · apply Finset.sum_congr rfl
      intro i mem
      rw [Finset.mem_range] at mem
      rw [before i mem.le, List.getD_eq_getElem?_getD, List.getD_eq_getElem?_getD, List.getElem?_append_left mem]
    · rw [List.getD_eq_getElem?_getD, List.getElem?_append_right le_rfl, Nat.sub_self]
      rfl
  · intro i x at_i y lt_y out_y
    rcases Nat.lt_trichotomy i order.length with less | rfl | more
    · rw [List.getElem?_append_left less] at at_i
      rw [before i less.le] at out_y ⊢
      exact inv.least i x at_i y lt_y out_y
    · rw [List.getElem?_append_right le_rfl, Nat.sub_self] at at_i
      obtain rfl : best = x := by simpa using at_i
      rw [before _ le_rfl, List.take_length] at out_y ⊢
      obtain ⟨j, mem_j, rfl⟩ := List.mem_map.mp ((inv.left y).mpr ⟨lt_y, out_y⟩)
      have fewer := least j mem_j
      rw [inv.degree_eq lt_y out_y] at fewer
      have := value.symm.le.trans fewer
      exact_mod_cast this
    · rw [List.getElem?_eq_none (by simp; omega)] at at_i
      cases at_i

end Step

/-! ## The run -/

/-- The places of a map, with both sides of the diagonal in it. -/
def Adjacent (n : ℕ) (ia : ℕ → ℕ) (i j : ℕ) : Prop := i < n ∧ j ∈ rowOf ia i

/-- All the neighbors of a node are in its row, once, and itself too. -/
structure FullMap (n : ℕ) (ia : ℕ → ℕ) : Prop where
  start : ia 0 = n + 1
  mono : ∀ i < n, ia i ≤ ia (i + 1)
  nodup : ∀ i < n, (rowOf ia i).Nodup
  graph : Graph n (Adjacent n ia)

section Run

variable {ia : ℕ → ℕ}

theorem minStart_inv (full : FullMap n ia) (reorder₀ : ℕ → ℕ) :
    MinInv n (Adjacent n ia) [] (minStart ia reorder₀) where
  order_nodup := List.nodup_nil
  order_lt _ mem := by cases mem
  left x := by
    have all : ia 0 - 1 = n := by rw [full.start, Nat.add_sub_cancel]
    simp [minStart, all]
  left_nodup := by simpa [minStart] using List.nodup_range
  number := by simp [minStart, full.start]
  reorder _ _ at_i := by cases at_i
  near x lt _ y := by
    simp only [minStart, List.mem_reverse, List.not_mem_nil, not_false_iff, true_and]
    rw [Through.of_empty fun v => by simp]
    constructor
    · intro mem
      exact ⟨full.graph.inside x y ⟨lt, mem⟩, lt, mem⟩
    · exact fun all => all.2.2
  nodup x lt _ := List.nodup_reverse.mpr (full.nodup x lt)
  length x lt _ := by
    have := full.mono x lt
    simp only [minStart, List.length_reverse, rowOf, spanOf, List.length_map, List.length_range']
    omega
  clean _ := rfl
  low x _ _ := by
    have := full.mono
    simp only [minStart]
    have := full.mono x (by assumption)
    omega
  total := rfl
  least _ _ at_i := by cases at_i

theorem minRun_inv (full : FullMap n ia) (reorder₀ : ℕ → ℕ) {k : ℕ} (le : k ≤ n) :
    ∃ order, order.length = k ∧
      MinInv n (Adjacent n ia) order ((List.range k).foldl (minStep n) (minStart ia reorder₀)) := by
  induction k with
  | zero => exact ⟨[], rfl, minStart_inv full reorder₀⟩
  | succ k ih =>
    obtain ⟨order, length, inv⟩ := ih (Nat.le_of_succ_le le)
    obtain ⟨best, inv'⟩ := minStep_inv full.graph inv (by omega)
    refine ⟨order ++ [best], by simp [length], ?_⟩
    rw [List.range_succ, List.foldl_append, List.foldl_cons, List.foldl_nil, ← length]
    rw [← length] at inv'
    exact inv'

theorem tally_eq {f : ℕ → ℕ} {list : List ℕ} {mask : ℕ → ℕ} {i : ℕ} :
    list.foldl (fun mask j => Function.update mask (f j) (mask (f j) + 1)) mask i = mask i + (list.map f).count i := by
  induction list generalizing mask with
  | nil => simp
  | cons j list ih =>
    rw [List.foldl_cons, ih, List.map_cons]
    by_cases same : i = f j
    · rw [same, Function.update_self, List.count_cons_self]
      omega
    · rw [Function.update_of_ne same, List.count_cons_of_ne (Ne.symm same)]

/-- What the order is when all are gone. -/
structure Ordered (n : ℕ) (order : List ℕ) (reorder : ℕ → ℕ) : Prop where
  perm : order.Perm (List.range n)
  numbers : order.map reorder = List.range n

theorem MinInv.ordered {A : ℕ → ℕ → Prop} {order : List ℕ} {s : MinFill} (inv : MinInv n A order s)
    (all : order.length = n) : Ordered n order s.reorder where
  perm := by
    have sub : order ⊆ List.range n := fun x mem => List.mem_range.mpr (inv.order_lt x mem)
    exact (inv.order_nodup.subperm sub).perm_of_length_le (by rw [all, List.length_range])
  numbers := by
    apply List.ext_getElem?
    intro i
    rw [List.getElem?_map]
    by_cases lt : i < n
    · rw [List.getElem?_range lt]
      have at_i : order[i]? = some (order.get ⟨i, by omega⟩) := List.getElem?_eq_getElem (by omega)
      rw [at_i, Option.map_some, inv.reorder i _ at_i]
    · rw [List.getElem?_eq_none (by omega), List.getElem?_eq_none (by simpa using lt)]
      rfl

namespace Ordered

variable {order : List ℕ} {reorder : ℕ → ℕ} (ordered : Ordered n order reorder)

include ordered

theorem length : order.length = n := by simpa using ordered.perm.length_eq

theorem nodup : order.Nodup := ordered.perm.nodup_iff.mpr List.nodup_range

theorem mem_iff : x ∈ order ↔ x < n := by rw [ordered.perm.mem_iff, List.mem_range]

theorem reorder_of_getElem? {i : ℕ} (at_i : order[i]? = some x) : reorder x = i := by
  have both : (order.map reorder)[i]? = some (reorder x) := by rw [List.getElem?_map, at_i, Option.map_some]
  rw [ordered.numbers] at both
  have := List.mem_range.mp (List.mem_of_getElem? both)
  obtain ⟨lt, eq⟩ := List.getElem?_eq_some_iff.mp both
  simpa using eq.symm

theorem getElem?_reorder (lt : x < n) : order[reorder x]? = some x := by
  obtain ⟨i, at_i⟩ := List.mem_iff_getElem?.mp (ordered.mem_iff.mpr lt)
  rw [ordered.reorder_of_getElem? at_i, at_i]

theorem reorder_lt (lt : x < n) : reorder x < n := by
  obtain ⟨below, -⟩ := List.getElem?_eq_some_iff.mp (ordered.getElem?_reorder lt)
  rwa [ordered.length] at below

theorem reorder_inj (lt_x : x < n) (lt_y : y < n) (same : reorder x = reorder y) : x = y := by
  have at_x := ordered.getElem?_reorder lt_x
  rw [same, ordered.getElem?_reorder lt_y] at at_x
  exact (Option.some.inj at_x).symm

theorem bijOn : Set.BijOn reorder (Set.Iio n) (Set.Iio n) := by
  refine ⟨fun x lt => ordered.reorder_lt lt, fun x lt_x y lt_y same => ordered.reorder_inj lt_x lt_y same, ?_⟩
  intro i lt
  have lt : i < order.length := by
    rw [ordered.length]
    exact lt
  have at_i : order[i]? = some order[i] := List.getElem?_eq_getElem lt
  exact ⟨order[i], ordered.mem_iff.mp (List.getElem_mem lt), ordered.reorder_of_getElem? at_i⟩

theorem mem_take {i : ℕ} : x ∈ order.take i ↔ x < n ∧ reorder x < i := by
  rw [List.mem_take_iff_getElem]
  constructor
  · intro found
    obtain ⟨j, lt, rfl⟩ := found
    have lt' : j < order.length := by omega
    have at_j : order[j]? = some order[j] := List.getElem?_eq_getElem lt'
    refine ⟨ordered.mem_iff.mp (List.getElem_mem lt'), ?_⟩
    rw [ordered.reorder_of_getElem? at_j]
    omega
  · intro both
    obtain ⟨lt, less⟩ := both
    obtain ⟨below, eq⟩ := List.getElem?_eq_some_iff.mp (ordered.getElem?_reorder lt)
    exact ⟨reorder x, by omega, eq⟩

/-- A way through what is gone is one through the smaller numbers. -/
theorem through_iff {A : ℕ → ℕ → Prop} (graph : Graph n A) {i : ℕ} (top : i ≤ n) (lt_x : x < n) (lt_y : y < n) :
    Through A (· ∈ order.take i) x y ↔ Through (Relabel n reorder A) (· < i) (reorder x) (reorder y) := by
  constructor
  · apply Through.map
    · intro u v near
      exact ⟨u, graph.inside v u (graph.symm u v near), v, graph.inside u v near, rfl, rfl, near⟩
    · intro v mem
      exact (ordered.mem_take.mp mem).2
  · intro way
    have back (x : ℕ) (lt : x < n) : order.getD (reorder x) 0 = x := by
      rw [List.getD_eq_getElem?_getD, ordered.getElem?_reorder lt]
      rfl
    have way := way.map (Q := A) (T := (· ∈ order.take i)) (fun a => order.getD a 0)
      (by
        intro a b near
        obtain ⟨u, lt_u, v, lt_v, rfl, rfl, near⟩ := near
        rwa [back u lt_u, back v lt_v])
      (by
        intro a lt_a
        have lt : a < order.length := by
          rw [ordered.length]
          exact lt_a.trans_le top
        have at_a : order[a]? = some order[a] := List.getElem?_eq_getElem lt
        have value : order.getD a 0 = order[a] := by
          rw [List.getD_eq_getElem?_getD, at_a]
          rfl
        rw [value, ordered.mem_take, ordered.reorder_of_getElem? at_a]
        exact ⟨ordered.mem_iff.mp (List.getElem_mem lt), lt_a⟩)
    rwa [back x lt_x, back y lt_y] at way

/-- The neighbors that a node has when it goes are itself and its row of the fill. -/
theorem degree_eq {A : ℕ → ℕ → Prop} (graph : Graph n A) (lt : x < n) :
    degree n A (· ∈ order.take (reorder x)) x =
      {b | reorder x < b ∧ b < n ∧ Fill (Relabel n reorder A) (reorder x) b}.ncard + 1 := by
  have top := (ordered.reorder_lt lt).le
  let near := {y | y < n ∧ y ∉ order.take (reorder x) ∧ Through A (· ∈ order.take (reorder x)) x y}
  have image : reorder '' near =
      insert (reorder x) {b | reorder x < b ∧ b < n ∧ Fill (Relabel n reorder A) (reorder x) b} := by
    ext b
    constructor
    · intro found
      obtain ⟨y, ⟨lt_y, out, way⟩, rfl⟩ := found
      rw [ordered.through_iff graph top lt lt_y] at way
      rw [ordered.mem_take, not_and, not_lt] at out
      rcases Nat.lt_or_eq_of_le (out lt_y) with less | same
      · exact .inr ⟨less, ordered.reorder_lt lt_y, way⟩
      · exact .inl same.symm
    · intro mem
      rcases mem with rfl | ⟨less, lt_b, fill⟩
      · refine ⟨x, ⟨lt, ?_, .edge (graph.diag x lt)⟩, rfl⟩
        rw [ordered.mem_take]
        exact fun both => lt_irrefl _ both.2
      · obtain ⟨y, lt_y, rfl⟩ := ordered.bijOn.surjOn lt_b
        refine ⟨y, ⟨lt_y, ?_, (ordered.through_iff graph top lt lt_y).mpr fill⟩, rfl⟩
        rw [ordered.mem_take]
        exact fun both => lt_asymm less both.2
  have finite : {b | reorder x < b ∧ b < n ∧ Fill (Relabel n reorder A) (reorder x) b}.Finite :=
    (Finset.range n).finite_toSet.subset fun b mem => Finset.mem_coe.mpr (Finset.mem_range.mpr mem.2.1)
  have inj : Set.InjOn reorder near := fun y mem_y z mem_z same => ordered.reorder_inj mem_y.1 mem_z.1 same
  rw [degree, ← inj.ncard_image, image, Set.ncard_insert_of_notMem _ finite]
  exact fun mem => lt_irrefl _ mem.1

end Ordered

/-- What is returned is the order in which the nodes go, and the size of the fill under the new numbers. -/
theorem minIaFill_ordered (full : FullMap n ia) (reorder₀ : ℕ → ℕ) :
    ∃ order reorder, Ordered n order reorder ∧
      minIaFill ia reorder₀ = some (reorder, ((fillSet (Relabel n reorder (Adjacent n ia)) n).ncard : ℤ)) ∧
      ∀ i x, order[i]? = some x → ∀ y < n, y ∉ order.take i →
        degree n (Adjacent n ia) (· ∈ order.take i) x ≤ degree n (Adjacent n ia) (· ∈ order.take i) y := by
  obtain ⟨order, length, inv⟩ := minRun_inv full reorder₀ le_rfl
  let s := (List.range n).foldl (minStep n) (minStart ia reorder₀)
  have ordered : Ordered n order s.reorder := inv.ordered length
  have nodes : ia 0 - 1 = n := by rw [full.start, Nat.add_sub_cancel]
  -- every number is given once
  have once (i : ℕ) (lt : i < n) : ((List.range n).map s.reorder).count i = 1 := by
    rw [← (ordered.perm.map s.reorder).count_eq, ordered.numbers]
    exact List.count_eq_one_of_mem List.nodup_range (List.mem_range.mpr lt)
  have size : s.total - n = ((fillSet (Relabel n s.reorder (Adjacent n ia)) n).ncard : ℤ) := by
    have rows : s.total = ∑ i ∈ Finset.range n,
        ({b | i < b ∧ b < n ∧ Fill (Relabel n s.reorder (Adjacent n ia)) i b}.ncard + 1 : ℤ) := by
      rw [inv.total, length]
      apply Finset.sum_congr rfl
      intro i mem
      rw [Finset.mem_range] at mem
      have lt : i < order.length := by omega
      have at_i : order[i]? = some order[i] := List.getElem?_eq_getElem lt
      have value : order.getD i 0 = order[i] := by
        rw [List.getD_eq_getElem?_getD, at_i]
        rfl
      have number := ordered.reorder_of_getElem? at_i
      have := ordered.degree_eq full.graph (ordered.mem_iff.mp (List.getElem_mem lt))
      rw [number] at this
      rw [value, this]
      push_cast
      rfl
    rw [rows, Finset.sum_add_distrib, fillSet_ncard]
    simp
  refine ⟨order, s.reorder, ordered, ?_, inv.least⟩
  rw [minIaFill, nodes, if_pos]
  · exact congrArg (fun size => some (s.reorder, size)) size
  · rw [List.all_eq_true]
    intro i mem
    rw [decide_eq_true_eq, tally_eq, inv.clean i]
    simpa using once i (List.mem_range.mp mem)

/-- The order is one, no node had more neighbors than another that was left when it went, and what is returned is the
size of the fill under the new numbers. -/
theorem minIaFill_spec (full : FullMap n ia) (reorder₀ : ℕ → ℕ) :
    ∃ reorder, minIaFill ia reorder₀ = some (reorder, ((fillSet (Relabel n reorder (Adjacent n ia)) n).ncard : ℤ)) ∧
      Set.BijOn reorder (Set.Iio n) (Set.Iio n) ∧
      ∀ x < n, ∀ y < n, reorder x ≤ reorder y →
        degree n (Adjacent n ia) (fun z => z < n ∧ reorder z < reorder x) x ≤
          degree n (Adjacent n ia) (fun z => z < n ∧ reorder z < reorder x) y := by
  obtain ⟨order, reorder, ordered, run, least⟩ := minIaFill_ordered full reorder₀
  refine ⟨reorder, run, ordered.bijOn, ?_⟩
  intro x lt_x y lt_y le
  have gone : (fun z => z ∈ order.take (reorder x)) = fun z => z < n ∧ reorder z < reorder x :=
    funext fun z => propext ordered.mem_take
  rw [← gone]
  apply least _ x (ordered.getElem?_reorder lt_x) y lt_y
  rw [ordered.mem_take]
  exact fun both => absurd both.2 (not_lt.mpr le)

/-- A path of three nodes. -/
def pathMap (p : ℕ) : ℕ := [4, 6, 9, 11, 0, 1, 0, 1, 2, 1, 2].getD p 0

theorem rowOf_pathMap : rowOf pathMap 0 = [0, 1] ∧ rowOf pathMap 1 = [0, 1, 2] ∧ rowOf pathMap 2 = [1, 2] := by decide

theorem pathMap_full : FullMap 3 pathMap where
  start := rfl
  mono i lt := by interval_cases i <;> decide
  nodup i lt := by interval_cases i <;> decide
  graph := {
    symm := by
      intro u v both
      obtain ⟨lt, mem⟩ := both
      interval_cases u
      all_goals
        simp only [rowOf_pathMap, List.mem_cons, List.not_mem_nil, or_false] at mem
        rcases mem with rfl | rfl | rfl <;> simp [Adjacent, rowOf_pathMap]
    inside := by
      intro u v both
      obtain ⟨lt, mem⟩ := both
      interval_cases u
      all_goals
        simp only [rowOf_pathMap, List.mem_cons, List.not_mem_nil, or_false] at mem
        omega
    diag := by
      intro u lt
      interval_cases u <;> simp [Adjacent, rowOf_pathMap] }

theorem minIaFill_spec_path :
    ∃ reorder, minIaFill pathMap id =
        some (reorder, ((fillSet (Relabel 3 reorder (Adjacent 3 pathMap)) 3).ncard : ℤ)) ∧
      Set.BijOn reorder (Set.Iio 3) (Set.Iio 3) ∧
      ∀ x < 3, ∀ y < 3, reorder x ≤ reorder y →
        degree 3 (Adjacent 3 pathMap) (fun z => z < 3 ∧ reorder z < reorder x) x ≤
          degree 3 (Adjacent 3 pathMap) (fun z => z < 3 ∧ reorder z < reorder x) y :=
  minIaFill_spec pathMap_full id

end Run

end TcadWebapp.Suprem
