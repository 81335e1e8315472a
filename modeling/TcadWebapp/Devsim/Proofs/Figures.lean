import Mathlib.Algebra.Ring.Int.Defs
import Mathlib.Data.List.Chain
import TcadWebapp.Devsim.Figures
import TcadWebapp.Misc.Decimal
import TcadWebapp.Misc.Python
import TcadWebapp.Misc.Ranking

/-!
# Figures of a curve

The figures of a curve are there unless it has three points or more that all are at one voltage: then
the greatest slope is sought among none. No division is by zero.
-/

namespace TcadWebapp.Devsim

variable {F : Type} [Zero F] [LinearOrder F] {js : JsNumbers F}

/-! ## The parts -/

theorem divide_eq_ok {a b : F} (h : b ≠ 0) : divide js a b = .ok (js.div a b) := if_neg h

variable (js) in
/-- There is a slope exactly if two neighbours are at different voltages. -/
theorem slopes_spec (points : List (Point F)) : ∃ found, slopes js points = .ok found ∧
    (found = [] ↔ points.IsChain fun p q => p.x = q.x) := by
  fun_induction slopes js points with
  | case1 p q rest dx same ih =>
    have same := (js.sub_eq_zero q.x p.x).mp same
    simpa [same] using ih
  | case2 p q rest dx differ ih =>
    obtain ⟨later, found, -⟩ := ih
    rw [divide_eq_ok js.two_ne_zero, divide_eq_ok js.two_ne_zero, divide_eq_ok differ, found]
    refine ⟨_, rfl, ?_⟩
    have apart : p.x ≠ q.x := fun same => differ ((js.sub_eq_zero q.x p.x).mpr same.symm)
    simp [apart]
  | case3 points short =>
    refine ⟨[], rfl, ?_⟩
    cases points with
    | nil => simp
    | cons p rest =>
      cases rest with
      | nil => simp
      | cons q rest => exact absurd rfl (short p q rest)

theorem exists_swingFrom (iOn : F) (best : Option F) (points : List (Point F)) :
    ∃ swing, swingFrom js iOn best points = .ok swing := by
  induction points generalizing best with
  | nil => exact ⟨best, rfl⟩
  | cons p rest ih =>
    cases rest with
    | nil => exact ⟨best, rfl⟩
    | cons q rest =>
      unfold swingFrom
      dsimp only
      split
      · exact ih best
      · rename_i positive
        split
        · exact ih best
        · rw [divide_eq_ok fun zero => positive (Or.inl zero.le)]
          refine exists_ok_bind ⟨_, rfl⟩ fun ratio _ => ?_
          split
          · exact ih best
          · rename_i decades
            rw [divide_eq_ok fun zero => decades zero.le]
            exact exists_ok_bind ⟨_, rfl⟩ fun _ _ => ih _

variable (js) in
theorem exists_onOffOf (iOn : F) (iOff : Option F) : ∃ onOff, onOffOf js iOn iOff = .ok onOff := by
  cases iOff with
  | none => exact ⟨none, rfl⟩
  | some low =>
    unfold onOffOf
    dsimp only
    split
    · rename_i both
      rw [divide_eq_ok both.1]
      exact ⟨_, rfl⟩
    · exact ⟨none, rfl⟩

theorem exists_vthOf (peak : Slope F) (gmMax : Option F) : ∃ vth, vthOf js peak gmMax = .ok vth := by
  cases gmMax with
  | none => exact ⟨none, rfl⟩
  | some gm =>
    unfold vthOf
    dsimp only
    split
    · rename_i nonzero
      rw [divide_eq_ok nonzero]
      exact ⟨_, rfl⟩
    · exact ⟨none, rfl⟩

theorem exists_ronOf (first : Option (Slope F)) : ∃ ron, ronOf js first = .ok ron := by
  cases first with
  | none => exact ⟨none, rfl⟩
  | some first =>
    unfold ronOf
    dsimp only
    split
    · rename_i rising
      rw [divide_eq_ok rising.ne']
      exact ⟨_, rfl⟩
    · exact ⟨none, rfl⟩

/-! ## The figures -/

/-- The figures are there, and those that need a slope are not if there is none. -/
def Fine (js : JsNumbers F) (series : Series F) : Prop :=
  ∃ figures, figuresOf js series = .ok figures ∧
    ((series.points.IsChain fun p q => p.x = q.x) →
      figures.gmMax = none ∧ figures.vth = none ∧ figures.ron = none)

omit [Zero F] in
/-- Not all points are at one voltage. -/
theorem not_isChain_iff (points : List (Point F)) :
    ¬ (points.IsChain fun p q => p.x = q.x) ↔ ∃ p ∈ points, ∃ q ∈ points, p.x ≠ q.x := by
  have trans : IsTrans (Point F) fun p q => p.x = q.x := ⟨fun _ _ _ => Eq.trans⟩
  rw [List.isChain_iff_pairwise]
  constructor
  · intro apart
    by_contra same
    push Not at same
    exact apart (List.pairwise_of_forall_mem_list same)
  · rintro ⟨p, hp, q, hq, differ⟩ same
    have symm : Std.Symm fun p q : Point F => p.x = q.x := ⟨fun _ _ => Eq.symm⟩
    exact differ (List.Pairwise.forall_of_forall (R := fun p q : Point F => p.x = q.x)
      (fun _ _ => rfl) same hp hq)

/-- Fewer than three points have figures, but none that needs a slope. -/
theorem fine_of_few {series : Series F} (few : series.points.length < 3) : Fine js series := by
  unfold Fine figuresOf
  cases series.points.map fun p => js.abs p.y with
  | nil => exact ⟨_, rfl, fun _ => ⟨rfl, rfl, rfl⟩⟩
  | cons first rest =>
    obtain ⟨onOff, found⟩ := exists_onOffOf js (rest.foldl max first) (iOffOf (first :: rest))
    simp only [found, few, if_true, bind, Except.bind]
    exact ⟨_, rfl, fun _ => ⟨rfl, rfl, rfl⟩⟩

/-- Three points or more have figures exactly if there is a slope. -/
theorem figuresOf_of_many {series : Series F} (many : ¬ series.points.length < 3) :
    (∃ figures, figuresOf js series = .ok figures) ↔ ¬ series.points.IsChain fun p q => p.x = q.x := by
  obtain ⟨derivative, found, flat⟩ := slopes_spec js series.points
  rw [← flat]
  unfold figuresOf
  cases magnitudes : series.points.map fun p => js.abs p.y with
  | nil =>
    rw [List.map_eq_nil_iff.mp magnitudes] at many
    exact absurd (Nat.zero_lt_succ 2) many
  | cons first rest =>
    obtain ⟨onOff, onOff_ok⟩ := exists_onOffOf js (rest.foldl max first) (iOffOf (first :: rest))
    simp only [onOff_ok, many, if_false, found]
    constructor
    · intro returned
      obtain ⟨figures, returned⟩ := returned
      rintro rfl
      cases returned
    · intro some
      obtain ⟨steepest, others, rfl⟩ := List.exists_cons_of_ne_nil some
      refine exists_ok_bind ⟨_, rfl⟩ fun _ _ => exists_ok_bind ⟨_, rfl⟩ fun derivative same => ?_
      obtain rfl := Except.ok.inj same
      refine exists_ok_bind ⟨_, rfl⟩ fun peak _ => ?_
      exact exists_ok_bind (exists_vthOf peak _) fun _ _ =>
        exists_ok_bind (exists_swingFrom _ none _) fun _ _ => exists_ok_bind (exists_ronOf _) fun _ _ => ⟨_, rfl⟩

theorem fine_iff_points (series : Series F) : Fine js series ↔
    series.points.length < 3 ∨ ∃ p ∈ series.points, ∃ q ∈ series.points, p.x ≠ q.x := by
  rw [← not_isChain_iff]
  by_cases few : series.points.length < 3
  · exact iff_of_true (fine_of_few few) (Or.inl few)
  · have returns : (∃ figures, figuresOf js series = .ok figures) ↔ _ := figuresOf_of_many few
    rw [or_iff_right few, ← returns]
    constructor
    · intro fine
      obtain ⟨figures, returned, -⟩ := fine
      exact ⟨figures, returned⟩
    · intro returned
      have slope := returns.mp returned
      obtain ⟨figures, returned⟩ := returned
      exact ⟨figures, returned, fun same => absurd same slope⟩

/-! ## The curves -/

variable {dataset : IvDataset F} {bias : String} {kind : SeriesKind}

omit [LinearOrder F] in
/-- What is written of the steps of two rows is the same only for the same steps, if they are listed in
one order. -/
theorem stringifyEntries_inj {entries entries' : List (String × F)}
    (names : entries.map Prod.fst = entries'.map Prod.fst)
    (same : stringifyEntries js entries = stringifyEntries js entries') : entries = entries' := by
  induction entries generalizing entries' with
  | nil => exact (List.map_eq_nil_iff.mp names.symm).symm
  | cons entry entries ih =>
    obtain ⟨name, value⟩ := entry
    cases entries' with
    | nil => cases names
    | cons entry' entries' =>
      obtain ⟨name', value'⟩ := entry'
      simp only [List.map_cons, List.cons.injEq] at names
      obtain ⟨rfl, names⟩ := names
      cases entries with
      | nil =>
        obtain rfl : entries' = [] := List.map_eq_nil_iff.mp names.symm
        simp only [stringifyEntries, List.append_cancel_left_eq, List.cons.injEq, true_and,
          List.append_cancel_right_eq] at same
        rw [js.text_inj _ _ same]
      | cons second entries =>
        cases entries' with
        | nil => cases names
        | cons second' entries' =>
          simp only [stringifyEntries, List.append_assoc, List.cons_append, List.append_cancel_left_eq,
            List.cons.injEq, true_and] at same
          obtain ⟨text, rest⟩ := append_cons_inj_of_first (js.text_plain value).1
            (js.text_plain value').1 same
          rw [js.text_inj _ _ text, ih names rest]

theorem stepsKey_inj {row row' : IvRow F} (names : row.steps.keys = row'.steps.keys)
    (same : stepsKey js row = stepsKey js row') : row.steps = row'.steps := by
  have entries := stringifyEntries_inj names (List.cons.inj same).2
  cases hsteps : row.steps
  cases hsteps' : row'.steps
  rw [hsteps, hsteps'] at entries
  obtain rfl : _ = _ := entries
  rfl

/-- The rows of one combination of steps. -/
def rowsAt (dataset : IvDataset F) (steps : Dict String F) : List (IvRow F) :=
  dataset.rows.filter fun row => row.steps = steps

/-- The curve of the combination of a row. -/
def curveOf (js : JsNumbers F) (dataset : IvDataset F) (bias : String) (kind : SeriesKind) (row : IvRow F) :
    Series F where
  label := labelOf js row
  steps := row.steps
  points := ((rowsAt dataset row.steps).map (pointOf js dataset bias kind)).insertionSort
    fun p q => p.x ≤ q.x

/-- The rows list their steps in one order. -/
def OneOrder (dataset : IvDataset F) : Prop :=
  ∀ row ∈ dataset.rows, ∀ row' ∈ dataset.rows, row.steps.keys = row'.steps.keys

/-- What is grouped under the key of a row: the rows with its steps. -/
theorem filter_stepsKey (oneOrder : OneOrder dataset) {row : IvRow F} (mem : row ∈ dataset.rows) :
    (dataset.rows.filter fun row' => stepsKey js row' = stepsKey js row) = rowsAt dataset row.steps := by
  refine List.filter_congr fun row' mem' => decide_eq_decide.mpr ?_
  refine ⟨stepsKey_inj (oneOrder row' mem' row mem), fun same => ?_⟩
  unfold stepsKey
  rw [same]

omit [LinearOrder F] in
theorem get?_grouped (key : Text) : (grouped js dataset bias kind).get? key =
    match dataset.rows.filter fun row => stepsKey js row = key with
    | [] => none
    | first :: rest => some ⟨labelOf js first, first.steps,
        (first :: rest).map (pointOf js dataset bias kind)⟩ := by
  refine (Dict.get?_foldl_alter (stepsKey js) (withRow js dataset bias kind) dataset.rows ∅ key).trans ?_
  have goesOn : ∀ (rest : List (IvRow F)) (series : Series F),
      rest.foldl (fun there row => some (withRow js dataset bias kind row there)) (some series) =
        some { series with points := series.points ++ rest.map (pointOf js dataset bias kind) } := by
    intro rest
    induction rest with
    | nil => simp
    | cons row rest ih =>
      intro series
      rw [List.foldl_cons, ih]
      simp [withRow]
  cases dataset.rows.filter fun row => stepsKey js row = key with
  | nil => rfl
  | cons first rest =>
    rw [List.foldl_cons, goesOn]
    rfl

/-- Each entry is the curve of a row. -/
theorem exists_row_of_entry (oneOrder : OneOrder dataset) {entry : Text × Series F}
    (mem : entry ∈ (grouped js dataset bias kind).entries) : ∃ row ∈ dataset.rows,
      entry.1 = stepsKey js row ∧ entry.2.steps = row.steps ∧
        entry.2.sorted = curveOf js dataset bias kind row := by
  have found := Dict.get?_eq_some.mpr mem
  rw [get?_grouped] at found
  cases group : dataset.rows.filter fun row => stepsKey js row = entry.1 with
  | nil =>
    rw [group] at found
    cases found
  | cons first rest =>
    rw [group] at found
    have hit : first ∈ dataset.rows.filter fun row => stepsKey js row = entry.1 := group ▸ List.mem_cons_self
    obtain ⟨given, key⟩ := List.mem_filter.mp hit
    have key := of_decide_eq_true key
    rw [← Option.some.inj found]
    refine ⟨first, given, key.symm, rfl, ?_⟩
    rw [← key, filter_stepsKey oneOrder given] at group
    rw [curveOf, group]
    rfl

theorem mem_seriesOf (oneOrder : OneOrder dataset) {series : Series F} :
    series ∈ seriesOf js dataset bias kind ↔
      ∃ row ∈ dataset.rows, series = curveOf js dataset bias kind row := by
  unfold seriesOf
  rw [List.mem_map]
  constructor
  · intro h
    obtain ⟨entry, mem, rfl⟩ := h
    obtain ⟨row, given, -, -, curve⟩ := exists_row_of_entry oneOrder mem
    exact ⟨row, given, curve⟩
  · intro h
    obtain ⟨row, given, rfl⟩ := h
    have there : stepsKey js row ∈ (grouped js dataset bias kind).keys := by
      rw [Dict.mem_keys, get?_grouped]
      cases group : dataset.rows.filter fun row' => stepsKey js row' = stepsKey js row with
      | nil => exact absurd (decide_eq_true rfl) (List.filter_eq_nil_iff.mp group row given)
      | cons first rest => exact ⟨_, rfl⟩
    obtain ⟨entry, mem, key⟩ := List.mem_map.mp there
    obtain ⟨row', given', key', -, curve⟩ := exists_row_of_entry oneOrder mem
    have steps := stepsKey_inj (oneOrder row' given' row given) (key'.symm.trans key)
    refine ⟨entry, mem, curve.trans ?_⟩
    unfold curveOf labelOf
    rw [steps]

/-! ## One curve for each combination -/

/-- The rows have different steps or sweep voltages, and list their steps in one order. -/
structure RowsApart (dataset : IvDataset F) : Prop where
  different : (dataset.rows.map fun row => (row.steps, row.sweep)).Nodup
  oneOrder : OneOrder dataset

/-- Each row is in one curve: that of its steps, in the order of the sweep. -/
structure OnePerCombination (js : JsNumbers F) (dataset : IvDataset F) (bias : String) (kind : SeriesKind) :
    Prop where
  once : ((seriesOf js dataset bias kind).map fun series => series.steps).Nodup
  every : ∀ row ∈ dataset.rows, ∃ series ∈ seriesOf js dataset bias kind, series.steps = row.steps
  points : ∀ series ∈ seriesOf js dataset bias kind, (∃ row ∈ dataset.rows, row.steps = series.steps) ∧
    series.points.Perm ((rowsAt dataset series.steps).map (pointOf js dataset bias kind)) ∧
    series.points.Pairwise fun p q => p.x < q.x

omit [Zero F] [LinearOrder F] in
theorem RowsApart.perm (apart : RowsApart dataset) {rows : List (IvRow F)} (perm : rows.Perm dataset.rows) :
    RowsApart { dataset with rows := rows } where
  different := (perm.map _).nodup_iff.mpr apart.different
  oneOrder row mem row' mem' :=
    apart.oneOrder row (perm.mem_iff.mp mem) row' (perm.mem_iff.mp mem')

omit [Zero F] in
/-- The points of a combination are at different voltages. -/
theorem nodup_rowsAt (apart : RowsApart dataset) (steps : Dict String F) :
    ((rowsAt dataset steps).map fun row => row.sweep).Nodup := by
  refine (List.Nodup.of_map (fun sweep => (steps, sweep)) ?_)
  rw [List.map_map]
  have same : (rowsAt dataset steps).map ((fun sweep => (steps, sweep)) ∘ fun row => row.sweep) =
      (rowsAt dataset steps).map fun row => (row.steps, row.sweep) := by
    refine List.map_congr_left fun row mem => ?_
    have steps := of_decide_eq_true (List.mem_filter.mp mem).2
    rw [Function.comp_apply, steps]
  rw [same]
  exact apart.different.sublist (List.filter_sublist.map _)

theorem pairwise_curveOf (apart : RowsApart dataset) (row : IvRow F) :
    (curveOf js dataset bias kind row).points.Pairwise fun p q => p.x < q.x := by
  have sorted : (curveOf js dataset bias kind row).points.Pairwise fun p q => p.x ≤ q.x :=
    pairwise_sort_key _
  have perm := List.perm_insertionSort (fun p q : Point F => p.x ≤ q.x)
    ((rowsAt dataset row.steps).map (pointOf js dataset bias kind))
  have distinct : ((curveOf js dataset bias kind row).points.map Point.x).Nodup := by
    refine (perm.map Point.x).nodup_iff.mpr ?_
    rw [List.map_map]
    exact nodup_rowsAt apart row.steps
  exact (sorted.and (List.pairwise_map.mp distinct)).imp fun both => lt_of_le_of_ne both.1 both.2

theorem nodup_steps_seriesOf (oneOrder : OneOrder dataset) :
    ((seriesOf js dataset bias kind).map fun series => series.steps).Nodup := by
  unfold seriesOf
  rw [List.map_map]
  refine List.Nodup.map_on ?_ (List.Nodup.of_map Prod.fst (grouped js dataset bias kind).nodup)
  intro entry mem entry' mem' same
  obtain ⟨row, -, key, steps, -⟩ := exists_row_of_entry oneOrder mem
  obtain ⟨row', -, key', steps', -⟩ := exists_row_of_entry oneOrder mem'
  have same : row.steps = row'.steps := steps.symm.trans (same.trans steps')
  refine List.inj_on_of_nodup_map (grouped js dataset bias kind).nodup mem mem' ?_
  rw [key, key', stepsKey, stepsKey, same]

theorem onePerCombination (apart : RowsApart dataset) : OnePerCombination js dataset bias kind where
  once := nodup_steps_seriesOf apart.oneOrder
  every row mem := ⟨_, (mem_seriesOf apart.oneOrder).mpr ⟨row, mem, rfl⟩, rfl⟩
  points := by
    intro series mem
    obtain ⟨row, given, rfl⟩ := (mem_seriesOf apart.oneOrder).mp mem
    exact ⟨⟨row, given, rfl⟩, List.perm_insertionSort _ _, pairwise_curveOf apart row⟩

/-- The curve of a combination does not depend on the order of the rows. -/
theorem curveOf_perm (apart : RowsApart dataset) {rows : List (IvRow F)} (perm : rows.Perm dataset.rows)
    (row : IvRow F) : curveOf js { dataset with rows := rows } bias kind row =
      curveOf js dataset bias kind row := by
  have points : (curveOf js { dataset with rows := rows } bias kind row).points.Perm
      (curveOf js dataset bias kind row).points :=
    ((List.perm_insertionSort _ _).trans ((perm.filter _).map _)).trans (List.perm_insertionSort _ _).symm
  have same := points.eq_of_pairwise (fun p q _ _ lt gt => absurd gt lt.asymm)
    (pairwise_curveOf (apart.perm perm) row) (pairwise_curveOf apart row)
  exact congrArg (Series.mk (labelOf js row) row.steps) same

theorem seriesOf_perm (apart : RowsApart dataset) {rows : List (IvRow F)} (perm : rows.Perm dataset.rows) :
    (seriesOf js { dataset with rows := rows } bias kind).Perm (seriesOf js dataset bias kind) := by
  have apart' := apart.perm perm
  refine (List.perm_ext_iff_of_nodup (List.Nodup.of_map _ (nodup_steps_seriesOf apart'.oneOrder))
    (List.Nodup.of_map _ (nodup_steps_seriesOf apart.oneOrder))).mpr fun series => ?_
  rw [mem_seriesOf apart'.oneOrder, mem_seriesOf apart.oneOrder]
  constructor
  · intro h
    obtain ⟨row, mem, rfl⟩ := h
    exact ⟨row, perm.mem_iff.mp mem, curveOf_perm apart perm row⟩
  · intro h
    obtain ⟨row, mem, rfl⟩ := h
    exact ⟨row, perm.mem_iff.mpr mem, (curveOf_perm apart perm row).symm⟩

/-- There is one curve for each combination of steps, and neither the curves nor their figures depend on
the order of the rows. -/
theorem curves_of_rows (js : JsNumbers F) (dataset : IvDataset F) (bias : String) (kind : SeriesKind)
    (apart : RowsApart dataset) : OnePerCombination js dataset bias kind ∧
      ∀ rows : List (IvRow F), rows.Perm dataset.rows →
        (seriesOf js { dataset with rows := rows } bias kind).Perm (seriesOf js dataset bias kind) ∧
        ((seriesOf js { dataset with rows := rows } bias kind).map fun series =>
          (series.steps, figuresOf js series)).Perm
            ((seriesOf js dataset bias kind).map fun series => (series.steps, figuresOf js series)) :=
  ⟨onePerCombination apart, fun _ perm => ⟨seriesOf_perm apart perm, (seriesOf_perm apart perm).map _⟩⟩

/-- A curve has its figures exactly if it has fewer than three points or not all at one voltage. -/
theorem fine_iff (js : JsNumbers F) (dataset : IvDataset F) (bias : String) (kind : SeriesKind)
    (series : Series F) (_ : series ∈ seriesOf js dataset bias kind) : Fine js series ↔
      series.points.length < 3 ∨ ∃ p ∈ series.points, ∃ q ∈ series.points, p.x ≠ q.x :=
  fine_iff_points series

/-! ## Whole numbers -/

/-- Whole numbers in place of doubles. -/
def wholeNumbers : JsNumbers Int where
  add := (· + ·)
  sub := (· - ·)
  mul := (· * ·)
  div := (· / ·)
  abs n := n.natAbs
  log10 n := (Nat.toDigits 10 n.toNat).length - 1
  one := 1
  two := 2
  tenth := 0
  thousand := 1000
  million := 1000000
  text n := (toString n).toList
  volts n := (toString n).toList
  sub_eq_zero _ _ := Int.sub_eq_zero
  two_ne_zero := by decide
  text_inj _ _ same := toString_int_inj.mp (String.toList_inj.mp same)
  text_plain n := ⟨notMem_toString (by decide) (by decide) n, notMem_toString (by decide) (by decide) n⟩

/-- Two curves of which the second is recorded from its end. -/
def twoCurves : IvDataset Int where
  currentUnit := "uA/um"
  rows := [⟨0, Dict.ofList [("Vg", 1)], Dict.ofList [("Vd", 0)], none⟩,
    ⟨1, Dict.ofList [("Vg", 1)], Dict.ofList [("Vd", 5)], none⟩,
    ⟨1, Dict.ofList [("Vg", 2)], Dict.ofList [("Vd", 9)], none⟩,
    ⟨0, Dict.ofList [("Vg", 2)], Dict.ofList [("Vd", 0)], none⟩]

theorem apart_twoCurves : RowsApart twoCurves where
  different := by decide
  oneOrder := by
    unfold OneOrder
    decide

theorem curves_of_rows_twoCurves : OnePerCombination wholeNumbers twoCurves "Vd" .current ∧
    (seriesOf wholeNumbers { twoCurves with rows := twoCurves.rows.reverse } "Vd" .current).Perm
      (seriesOf wholeNumbers twoCurves "Vd" .current) := by
  obtain ⟨one, order⟩ := curves_of_rows wholeNumbers twoCurves "Vd" .current apart_twoCurves
  exact ⟨one, (order _ (List.reverse_perm _)).1⟩

theorem fine_iff_twoCurves : ∃ series ∈ seriesOf wholeNumbers twoCurves "Vd" .current,
    (Fine wholeNumbers series ↔ series.points.length < 3 ∨
      ∃ p ∈ series.points, ∃ q ∈ series.points, p.x ≠ q.x) := by
  have mem : (⟨"Vg=1V".toList, Dict.ofList [("Vg", 1)], [⟨0, 0⟩, ⟨1, 5⟩]⟩ : Series Int) ∈
      seriesOf wholeNumbers twoCurves "Vd" .current := by decide
  exact ⟨_, mem, fine_iff wholeNumbers twoCurves "Vd" .current _ mem⟩

/-- The list `[1, 1, 1]` is swept. -/
def threeAtOne : IvDataset Int where
  currentUnit := "uA/um"
  rows := List.replicate 3 ⟨1, ∅, Dict.ofList [("Vd", 5)], none⟩

/-- Three points at one voltage: the greatest slope of none is asked for. -/
theorem not_fine : ¬ ∀ (dataset : IvDataset Int) (bias : String) (kind : SeriesKind),
    ∀ series ∈ seriesOf wholeNumbers dataset bias kind, Fine wholeNumbers series := by
  intro all
  have mem : (⟨[], ∅, List.replicate 3 ⟨1, 5⟩⟩ : Series Int) ∈
      seriesOf wholeNumbers threeAtOne "Vd" .current := by decide
  obtain ⟨figures, returned, -⟩ := all threeAtOne "Vd" .current _ mem
  have raised : figuresOf wholeNumbers ⟨[], ∅, List.replicate 3 ⟨1, 5⟩⟩ = .error .typeError := by
    decide
  rw [raised] at returned
  cases returned

end TcadWebapp.Devsim
