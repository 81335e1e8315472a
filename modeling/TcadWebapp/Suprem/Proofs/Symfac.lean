import Mathlib.Data.List.Sort
import TcadWebapp.Misc.Elimination
import TcadWebapp.Suprem.Proofs.Threads

/-!
# The symbolic factorization

The rows that `symfac` finds are the fill of the elimination in the order of the numbers (`symfac_spec`).
-/

namespace TcadWebapp.Suprem

variable {n k i j loff : ℕ} {il il' : ℕ → ℕ} {icol : ℕ → Bool} {R : ℕ → ℕ → Prop}
  {locs : ℕ → (ℕ → Bool) → (ℕ → Bool) × ℕ}

/-! ## What is set -/

theorem setAll_iff {cols : List ℕ} : setAll icol cols j = true ↔ icol j = true ∨ j ∈ cols := by
  induction cols generalizing icol with
  | nil => simp [setAll]
  | cons c cols ih =>
    have step : setAll icol (c :: cols) = setAll (Function.update icol c true) cols := rfl
    rw [step, ih, List.mem_cons]
    by_cases same : j = c
    · subst same
      simp
    · simp [same]

/-- `locs` sets the columns that `R` has right of the diagonal, and none of them is behind the last neighbor. -/
structure Locates (n : ℕ) (R : ℕ → ℕ → Prop) (locs : ℕ → (ℕ → Bool) → (ℕ → Bool) × ℕ) : Prop where
  set : ∀ k < n, ∀ icol j, k < j → ((locs k icol).1 j = true ↔ icol j = true ∨ R k j)
  last : ∀ k < n, ∀ icol j, k < j → R k j → j ≤ (locs k icol).2
  bound : ∀ k < n, ∀ icol, (locs k icol).2 < n
  inside : ∀ u v, R u v → v < n

/-- The columns set right of `k` are those of `want`, up to the last neighbor. -/
structure Merged (n k : ℕ) (want : ℕ → Prop) (s : (ℕ → Bool) × ℕ) : Prop where
  bound : s.2 < n
  set : ∀ j, k < j → (s.1 j = true ↔ want j)
  last : ∀ j, k < j → want j → j ≤ s.2

/-- Right of `k` a row has what stands behind the place of `k`. -/
theorem mem_behind {p : ℕ} (placed : PlacedAt il k i p k) (right : k < j) :
    j ∈ (List.range' (p + 1) (il (i + 1) - (p + 1))).map il ↔ j ∈ rowOf il i := by
  rw [List.mem_map, mem_rowOf]
  constructor
  · intro found
    obtain ⟨q, mem, rfl⟩ := found
    rw [List.mem_range'_1] at mem
    exact ⟨q, placed.le.trans (by omega), by omega, rfl⟩
  · intro found
    obtain ⟨q, le_q, lt_q, rfl⟩ := found
    have behind : p < q := by
      rcases Nat.lt_trichotomy p q with less | same | less
      · exact less
      · rw [← same, placed.col] at right
        exact absurd right (lt_irrefl k)
      · exact absurd (placed.first q le_q less) (Nat.not_lt.mpr right.le)
    exact ⟨q, by rw [List.mem_range'_1]; omega, rfl⟩

theorem mergeRow_merged (mapped : Mapped n il k) (lt : i < k) {p : ℕ} (placed : PlacedAt il k i p k)
    {want : ℕ → Prop} {s : (ℕ → Bool) × ℕ} (merged : Merged n k want s) :
    ∃ s', mergeRow il k i p s = some s' ∧ Merged n k (fun j => want j ∨ j ∈ rowOf il i) s' := by
  have here : ¬il p ≠ k := not_not.mpr placed.col
  by_cases last : il (i + 1) ≤ p + 1
  · have none_ (j : ℕ) (right : k < j) : j ∉ rowOf il i := by
      rw [← mem_behind placed right]
      have empty : il (i + 1) - (p + 1) = 0 := Nat.sub_eq_zero_of_le last
      simp [empty]
    refine ⟨s, by rw [mergeRow, if_neg here, if_pos last], merged.bound, ?_, ?_⟩
    · intro j right
      simp [merged.set j right, none_ j right]
    · intro j right either
      exact merged.last j right (either.resolve_right (none_ j right))
  · have last_lt : il (i + 1) - 1 < il (i + 1) := by omega
    have last_ge : il i ≤ il (i + 1) - 1 := placed.le.trans (by omega)
    have bound : il (il (i + 1) - 1) < n := (mapped.above i lt _ last_ge last_lt).2
    refine ⟨_, by rw [mergeRow, if_neg here, if_neg last], ?_, ?_, ?_⟩
    · have := merged.bound
      dsimp only
      split_ifs
      · exact bound
      · exact this
    · intro j right
      rw [setAll_iff, merged.set j right, mem_behind placed right]
    · intro j right either
      have top : s.2 ≤ (if s.2 < il (il (i + 1) - 1) then il (il (i + 1) - 1) else s.2) ∧
          il (il (i + 1) - 1) ≤ (if s.2 < il (il (i + 1) - 1) then il (il (i + 1) - 1) else s.2) := by
        split_ifs <;> omega
      rcases either with old | new
      · exact (merged.last j right old).trans top.1
      · -- the last column of a row is the greatest
        obtain ⟨q, le_q, lt_q, rfl⟩ := mem_rowOf.mp new
        refine le_trans ?_ top.2
        rcases Nat.lt_or_eq_of_le (show q ≤ il (i + 1) - 1 by omega) with less | same
        · exact (mapped.sorted i lt q _ le_q less last_lt).le
        · rw [same]

theorem mergeRows_merged (mapped : Mapped n il k) {rest : List ℕ} {lstr : ℕ → ℕ}
    (rows : ∀ i ∈ rest, i < k ∧ PlacedAt il k i (lstr i) k) {want : ℕ → Prop} {s : (ℕ → Bool) × ℕ}
    (merged : Merged n k want s) :
    ∃ s', rest.foldlM (fun s i => mergeRow il k i (lstr i) s) s = some s' ∧
      Merged n k (fun j => want j ∨ ∃ i ∈ rest, j ∈ rowOf il i) s' := by
  induction rest generalizing want s with
  | nil => exact ⟨s, rfl, by simpa using merged⟩
  | cons i rest ih =>
    obtain ⟨lt, placed⟩ := rows i List.mem_cons_self
    obtain ⟨first, run, merged⟩ := mergeRow_merged mapped lt placed merged
    obtain ⟨s', more, merged⟩ := ih (fun j mem => rows j (List.mem_cons_of_mem i mem)) merged
    refine ⟨s', ?_, ?_⟩
    · rw [List.foldlM_cons, run]
      exact more
    · simpa only [List.exists_mem_cons_iff, or_assoc] using merged

/-! ## What is copied out -/

theorem writeAt_before {out : List ℕ} {start p : ℕ} (before : p < start) : writeAt il start out p = il p := by
  induction out generalizing il start with
  | nil => rfl
  | cons j out ih =>
    rw [writeAt, ih (by omega), Function.update_of_ne (by omega)]

theorem writeAt_map (il : ℕ → ℕ) (start : ℕ) {out : List ℕ} :
    (List.range' start out.length).map (writeAt il start out) = out := by
  induction out generalizing il start with
  | nil => rfl
  | cons j out ih =>
    rw [List.length_cons, List.range'_succ, List.map_cons, writeAt, ih, writeAt_before (Nat.lt_succ_self start),
      Function.update_self]

theorem copyOut_eq (il : ℕ → ℕ) (icol : ℕ → Bool) {cols : List ℕ} (nodup : cols.Nodup) {ilmax at_ : ℕ} (some_ : 0 < at_)
    (room : at_ < ilmax) :
    ∃ ilmax' icol', copyOut cols (il, ilmax, at_, icol) =
        some (writeAt il at_ (cols.filter icol), ilmax', at_ + (cols.filter icol).length, icol') ∧
      (∀ j, icol' j = (icol j && !cols.contains j)) ∧ at_ + (cols.filter icol).length < ilmax' ∧
      (at_ + (cols.filter icol).length + 10 < ilmax → ilmax' = ilmax) := by
  induction cols generalizing il ilmax at_ icol with
  | nil => exact ⟨ilmax, icol, rfl, by simp, by simpa using room, fun _ => rfl⟩
  | cons c cols ih =>
    obtain ⟨out, nodup⟩ := List.nodup_cons.mp nodup
    by_cases set : icol c = true
    · have rest : cols.filter (Function.update icol c false) = cols.filter icol := by
        apply List.filter_congr
        intro j mem
        have ne : j ≠ c := fun eq => out (eq ▸ mem)
        rw [Function.update_of_ne ne]
      have grown : at_ + 1 < if ilmax ≤ at_ + 1 + 10 then ilmax * 3 / 2 else ilmax := by
        split_ifs <;> omega
      obtain ⟨ilmax', icol', run, clear, room', kept⟩ := ih (Function.update il at_ c)
        (Function.update icol c false) nodup (Nat.succ_pos at_) grown
      rw [rest] at run room' kept
      have full : ¬ilmax ≤ at_ := by omega
      refine ⟨ilmax', icol', ?_, ?_, ?_, ?_⟩
      · rw [copyOut, if_pos set, if_neg full, List.filter_cons_of_pos set, List.length_cons, writeAt]
        rw [run, Nat.add_right_comm at_ 1, Nat.add_assoc at_ _ 1]
      · intro j
        rw [clear j, List.contains_cons]
        by_cases same : j = c
        · subst same
          simp
        · rw [Function.update_of_ne same, beq_false_of_ne same, Bool.false_or]
      · rw [List.filter_cons_of_pos set, List.length_cons]
        omega
      · rw [List.filter_cons_of_pos set, List.length_cons]
        intro enough
        have same : (if ilmax ≤ at_ + 1 + 10 then ilmax * 3 / 2 else ilmax) = ilmax := if_neg (by omega)
        rw [kept (by rw [same]; omega), same]
    · obtain ⟨ilmax', icol', run, clear, room', kept⟩ := ih il icol nodup some_ room
      rw [List.filter_cons_of_neg set]
      refine ⟨ilmax', icol', by rw [copyOut, if_neg set, run], ?_, room', kept⟩
      intro j
      rw [clear j, List.contains_cons]
      by_cases same : j = c
      · subst same
        simp [Bool.eq_false_iff.mpr set]
      · rw [beq_false_of_ne same, Bool.false_or]

/-! ## A row -/

/-- After the rows before `k`. -/
structure SymInv (n : ℕ) (R : ℕ → ℕ → Prop) (loff k : ℕ) (s : Symbolic) : Prop where
  mapped : Mapped n s.il k
  rows : ∀ i < k, ∀ j, j ∈ rowOf s.il i ↔ i < j ∧ j < n ∧ Fill R i j
  threaded : ∃ chain, Threaded s.il k k [] s.links chain
  clean : ∀ j, k ≤ j → s.icol j = false
  room : s.il k < s.ilmax
  kept : s.il k + 10 < loff → s.ilmax = loff

theorem writeRow_of_ne {out : List ℕ} {p : ℕ} (ne : p ≠ k + 1) : writeRow il k out p = writeAt il (il k) out p :=
  Function.update_of_ne ne _ _

@[simp] theorem writeRow_end {out : List ℕ} : writeRow il k out (k + 1) = il k + out.length :=
  Function.update_self _ _ _

/-- A row is put behind those before it. -/
theorem sameRows_writeRow (headed : Headed n il k) (lt : k < n) (out : List ℕ) :
    SameRows n k il (writeRow il k out) := by
  have head := headed.head_le le_rfl
  refine ⟨?_, ?_⟩
  · intro i le
    rw [writeRow_of_ne (by omega), writeAt_before (by omega)]
  · intro p le_p lt_p
    rw [writeRow_of_ne (by omega), writeAt_before lt_p]

theorem rowOf_writeRow (headed : Headed n il k) (lt : k < n) (out : List ℕ) : rowOf (writeRow il k out) k = out := by
  have head := headed.head_le le_rfl
  have places : spanOf (writeRow il k out) k = List.range' (il k) out.length := by
    rw [spanOf, (sameRows_writeRow headed lt out).heads k le_rfl, writeRow_end, Nat.add_sub_cancel_left]
  rw [rowOf, places]
  refine Eq.trans ?_ (writeAt_map il (il k))
  apply List.map_congr_left
  intro p mem
  rw [List.mem_range'_1] at mem
  exact writeRow_of_ne (by omega)

theorem Headed.write (headed : Headed n il k) (lt : k < n) (out : List ℕ) :
    Headed n (writeRow il k out) (k + 1) := by
  have before := (sameRows_writeRow headed lt out).headed headed
  refine ⟨before.start, ?_⟩
  intro i lt_i
  rcases Nat.lt_succ_iff_lt_or_eq.mp lt_i with less | rfl
  · exact before.mono i less
  · rw [(sameRows_writeRow headed lt out).heads i le_rfl, writeRow_end]
    exact Nat.le_add_right _ _

/-- A map whose rows are in order, right of the diagonal. -/
theorem Headed.mapped (headed : Headed n il k) (sorted : ∀ i < k, (rowOf il i).Pairwise (· < ·))
    (above : ∀ i < k, ∀ j ∈ rowOf il i, i < j ∧ j < n) : Mapped n il k where
  toHeaded := headed
  sorted i lt p q le_p less lt_q := by
    have ordered := sorted i lt
    rw [rowOf, spanOf, List.pairwise_map, List.pairwise_iff_getElem] at ordered
    have step := ordered (p - il i) (q - il i) (by rw [List.length_range']; omega) (by rw [List.length_range']; omega)
      (by omega)
    simp only [List.getElem_range', Nat.one_mul] at step
    rwa [Nat.add_sub_cancel' le_p, Nat.add_sub_cancel' (by omega)] at step
  above i lt p le_p lt_p := above i lt _ (mem_rowOf.mpr ⟨p, le_p, lt_p, rfl⟩)

theorem Mapped.sorted_row (mapped : Mapped n il k) (lt : i < k) : (rowOf il i).Pairwise (· < ·) := by
  rw [rowOf, spanOf, List.pairwise_map]
  refine List.Pairwise.imp_of_mem ?_ List.pairwise_lt_range'
  intro p q mem_p mem_q less
  rw [← spanOf, mem_spanOf] at mem_p mem_q
  exact mapped.sorted i lt p q mem_p.1 less mem_q.2

theorem Mapped.write (mapped : Mapped n il k) (lt : k < n) {out : List ℕ} (sorted : out.Pairwise (· < ·))
    (above : ∀ j ∈ out, k < j ∧ j < n) : Mapped n (writeRow il k out) (k + 1) := by
  have same := sameRows_writeRow mapped.toHeaded lt out
  apply (mapped.toHeaded.write lt out).mapped
  · intro i lt_i
    rcases Nat.lt_succ_iff_lt_or_eq.mp lt_i with less | rfl
    · rw [same.row mapped.toHeaded less]
      exact mapped.sorted_row less
    · rw [rowOf_writeRow mapped.toHeaded lt]
      exact sorted
  · intro i lt_i
    rcases Nat.lt_succ_iff_lt_or_eq.mp lt_i with less | rfl
    · rw [same.row mapped.toHeaded less]
      exact fun j => mapped.row_above less
    · rw [rowOf_writeRow mapped.toHeaded lt]
      exact above

/-- The list that a row goes on is known before its end is written. -/
theorem enter_writeRow (mapped : Mapped n il k) (lt : k < n) (links : Links) (out : List ℕ) :
    links.enter (writeAt il (il k) out) k (il k + out.length) =
      links.enter (writeRow il k out) k (writeRow il k out (k + 1)) := by
  have head := mapped.head_le le_rfl
  have at_head : writeRow il k out k = writeAt il (il k) out k := writeRow_of_ne (Nat.lt_succ_self k).ne
  have at_first : writeRow il k out (writeAt il (il k) out k) = writeAt il (il k) out (writeAt il (il k) out k) := by
    apply writeRow_of_ne
    rw [writeAt_before (by omega)]
    omega
  rw [Links.enter, Links.enter, writeRow_end, at_head, Links.push, Links.push, at_first]

theorem length_le_of_below {rest : List ℕ} (nodup : rest.Nodup) (below : ∀ i ∈ rest, i < k) : rest.length ≤ k := by
  have sub : rest ⊆ List.range k := fun i mem => List.mem_range.mpr (below i mem)
  simpa using (nodup.subperm sub).length_le

theorem symfacRow_inv (sym : ∀ u v, R u v → R v u) (locates : Locates n R locs) (lt : k < n) {s : Symbolic}
    (inv : SymInv n R loff k s) : ∃ s', symfacRow n locs k s = some s' ∧ SymInv n R loff (k + 1) s' := by
  obtain ⟨chain, threaded⟩ := inv.threaded
  have mapped := inv.mapped
  have long : (chain k).length ≤ n :=
    (length_le_of_below (threaded.chained.nodup k le_rfl) (threaded.chained.below k le_rfl)).trans lt.le
  have head := mapped.head_le le_rfl
  -- the rows of the list of `k` are merged
  obtain ⟨links, chain', threaded', walk⟩ := subtract_eq (mergeRow s.il k) mapped le_rfl threaded.take
    (threaded.chained.linked k le_rfl) (threaded.chained.nodup k le_rfl) (threaded.rows k le_rfl) long (locs k s.icol)
  have start : Merged n k (R k) (locs k s.icol) := by
    refine ⟨locates.bound k lt _, ?_, locates.last k lt _⟩
    intro j right
    simp [locates.set k lt s.icol j right, inv.clean j right.le]
  obtain ⟨⟨icol, last⟩, run, merged⟩ := mergeRows_merged mapped (threaded.rows k le_rfl) start
  rw [run] at walk
  have bound : ¬n ≤ last := Nat.not_le.mpr merged.bound
  -- what is set is the row
  have want (j : ℕ) (right : k < j) : (R k j ∨ ∃ i ∈ chain k, j ∈ rowOf s.il i) ↔ j < n ∧ Fill R k j := by
    constructor
    · intro found
      rcases found with near | ⟨i, mem, mem_j⟩
      · exact ⟨locates.inside k j near, .edge near⟩
      · obtain ⟨lt_i, mem_k⟩ := (threaded.mem_chain mapped).mp mem
        have to_j := (inv.rows i lt_i j).mp mem_j
        exact ⟨to_j.2.1, (fill_iff sym).mpr (.inr ⟨i, lt_i, ((inv.rows i lt_i k).mp mem_k).2.2, to_j.2.2⟩)⟩
    · intro found
      obtain ⟨lt_j, fill⟩ := found
      apply ((fill_iff sym).mp fill).imp_right
      intro through
      obtain ⟨i, lt_i, fill_k, fill_j⟩ := through
      refine ⟨i, (threaded.mem_chain mapped).mpr ⟨lt_i, ?_⟩, ?_⟩
      · exact (inv.rows i lt_i k).mpr ⟨lt_i, lt, fill_k⟩
      · exact (inv.rows i lt_i j).mpr ⟨lt_i.trans right, lt_j, fill_j⟩
  -- it is copied out
  obtain ⟨ilmax, icol', copy, clear, room, kept⟩ :=
    copyOut_eq s.il icol (List.nodup_range' (s := k + 1) (n := last - k)) (by omega) inv.room
  have mem_out (j : ℕ) : j ∈ (List.range' (k + 1) (last - k)).filter icol ↔ k < j ∧ j < n ∧ Fill R k j := by
    rw [List.mem_filter, List.mem_range'_1]
    constructor
    · intro both
      have right : k < j := both.1.1
      exact ⟨right, (want j right).mp ((merged.set j right).mp both.2)⟩
    · intro both
      obtain ⟨right, fill⟩ := both
      have wanted := (want j right).mpr fill
      have := merged.last j right wanted
      exact ⟨by omega, (merged.set j right).mpr wanted⟩
  have sorted : ((List.range' (k + 1) (last - k)).filter icol).Pairwise (· < ·) :=
    List.Pairwise.filter _ List.pairwise_lt_range'
  have mapped' := mapped.write lt sorted fun j mem => ⟨((mem_out j).mp mem).1, ((mem_out j).mp mem).2.1⟩
  have same := sameRows_writeRow mapped.toHeaded lt ((List.range' (k + 1) (last - k)).filter icol)
  have entered := (threaded'.congr same mapped).enter mapped'
  rw [← enter_writeRow mapped lt] at entered
  let out := (List.range' (k + 1) (last - k)).filter icol
  refine ⟨⟨writeRow s.il k out, ilmax, links.enter (writeAt s.il (s.il k) out) k (s.il k + out.length),
    Function.update icol' k false⟩, ?_, mapped', ?_, entered, ?_, ?_, ?_⟩
  · simp only [symfacRow, walk, Option.map_some, Option.bind_eq_bind, Option.bind_some, if_neg bound, copy]
    rfl
  · intro i lt_i j
    rcases Nat.lt_succ_iff_lt_or_eq.mp lt_i with lt_i | rfl
    · rw [← inv.rows i lt_i j, same.row mapped.toHeaded lt_i]
    · rw [← mem_out j, rowOf_writeRow mapped.toHeaded lt]
  · intro j right
    have ne : j ≠ k := by omega
    simp only [Function.update_of_ne ne, clear j]
    by_cases set : icol j = true
    · have := merged.last j right ((merged.set j right).mp set)
      have : j ∈ List.range' (k + 1) (last - k) := by
        rw [List.mem_range'_1]
        omega
      simp [this]
    · simp [Bool.eq_false_iff.mpr set]
  · simpa using room
  · intro enough
    have at_end : s.il k + out.length + 10 < loff := by simpa using enough
    have before : s.ilmax = loff := inv.kept (by omega)
    exact (kept (before ▸ at_end)).trans before

/-! ## All the rows -/

theorem symfacStart_inv (R : ℕ → ℕ → Prop) (start : ℕ → ℕ) (room : n + 1 < loff) :
    SymInv n R loff 0 (symfacStart n loff start) where
  mapped := ⟨⟨by simp [symfacStart], fun _ lt => absurd lt (Nat.not_lt_zero _)⟩,
    fun _ lt => absurd lt (Nat.not_lt_zero _), fun _ lt => absurd lt (Nat.not_lt_zero _)⟩
  rows _ lt := absurd lt (Nat.not_lt_zero _)
  threaded := ⟨_, Threaded.start _ _⟩
  clean _ _ := rfl
  room := by
    have : (symfacStart n loff start).il 0 = n + 1 := by simp [symfacStart]
    rw [this]
    exact room
  kept _ := rfl

theorem symfacRows_inv (sym : ∀ u v, R u v → R v u) (locates : Locates n R locs) {start : Symbolic}
    (inv : SymInv n R loff 0 start) (le : k ≤ n) :
    ∃ s, (List.range k).foldlM (fun s k => symfacRow n locs k s) start = some s ∧ SymInv n R loff k s := by
  induction k with
  | zero => exact ⟨start, rfl, inv⟩
  | succ k ih =>
    obtain ⟨s, run, inv⟩ := ih (Nat.le_of_succ_le le)
    obtain ⟨s', step, inv'⟩ := symfacRow_inv sym locates le inv
    refine ⟨s', ?_, inv'⟩
    rw [List.range_succ, List.foldlM_append, run]
    simpa using step

/-- The places of the rows are as many as there are offsets behind the heads. -/
theorem Mapped.count (mapped : Mapped n il n) {places : Set (ℕ × ℕ)}
    (rows : ∀ i j, (i, j) ∈ places ↔ i < n ∧ j ∈ rowOf il i) : il n - n - 1 = places.ncard := by
  have length (i : ℕ) : (rowOf il i).length = il (i + 1) - il i := by simp [rowOf, spanOf]
  have total (k : ℕ) (le : k ≤ n) : ∑ i ∈ Finset.range k, (rowOf il i).length = il k - (n + 1) := by
    induction k with
    | zero => simp [mapped.start]
    | succ k ih =>
      rw [Finset.sum_range_succ, ih (Nat.le_of_succ_le le), length]
      have := mapped.mono k le
      have := mapped.head_le (Nat.le_of_succ_le le)
      omega
  have union : places = ((Finset.range n).sigma fun i => (rowOf il i).toFinset).map
      (Equiv.sigmaEquivProd ℕ ℕ).toEmbedding := by
    ext place
    obtain ⟨i, j⟩ := place
    rw [rows i j, Finset.mem_coe, Finset.mem_map]
    constructor
    · intro both
      exact ⟨⟨i, j⟩, by simpa using both, rfl⟩
    · intro found
      obtain ⟨⟨i', j'⟩, mem, eq⟩ := found
      cases eq
      simpa using mem
  rw [union, Set.ncard_coe_finset, Finset.card_map, Finset.card_sigma, Nat.sub_sub, ← total n le_rfl]
  apply Finset.sum_congr rfl
  intro i mem
  exact (List.toFinset_card_of_nodup (mapped.row_nodup (Finset.mem_range.mp mem))).symm

/-- The rows of `il` are the fill, and `loff` is its size. With room for them from the start no more is made. -/
theorem symfac_eq (sym : ∀ u v, R u v → R v u) (locates : Locates n R locs) (some_ : 0 < n) (room : n + 1 < loff)
    (start : ℕ → ℕ) :
    ∃ il ilmax, symfac n locs start loff = some (il, ilmax, (fillSet R n).ncard) ∧ Mapped n il n ∧
      (∀ i < n, ∀ j, j ∈ rowOf il i ↔ i < j ∧ j < n ∧ Fill R i j) ∧ il n = n + 1 + (fillSet R n).ncard ∧
      (n + 1 + (fillSet R n).ncard + 10 < loff → ilmax = loff) := by
  obtain ⟨s, run, inv⟩ := symfacRows_inv sym locates (symfacStart_inv R start room) le_rfl
  -- the last row is empty
  have last : s.il (n - 1) = s.il n := by
    have step : n - 1 + 1 = n := Nat.sub_add_cancel some_
    have mono := inv.mapped.mono (n - 1) (by omega)
    rw [step] at mono
    rcases Nat.lt_or_eq_of_le mono with less | same
    · have := inv.mapped.above (n - 1) (by omega) (s.il (n - 1)) le_rfl (by rw [step]; exact less)
      omega
    · exact same
  have same : Function.update s.il n (s.il (n - 1)) = s.il := by rw [last, Function.update_eq_self]
  have size : s.il n - n - 1 = (fillSet R n).ncard := by
    apply inv.mapped.count
    intro i j
    constructor
    · intro mem
      have lt : i < n := mem.1.trans mem.2.1
      exact ⟨lt, (inv.rows i lt j).mpr mem⟩
    · intro both
      exact (inv.rows i both.1 j).mp both.2
  have head := inv.mapped.head_le le_rfl
  refine ⟨s.il, s.ilmax, ?_, inv.mapped, inv.rows, by omega, ?_⟩
  · rw [symfac, run]
    simp only [Option.bind_eq_bind, Option.bind_some, same, size]
  · intro enough
    apply inv.kept
    omega

end TcadWebapp.Suprem
