import TcadWebapp.Misc.Triangles
import TcadWebapp.Remesh.Proofs.Assemble

/-!
# Values inside a material

The grid of a `Sampler` has every old triangle in all cells that its box touches, so that the cell
of a point has the triangles that hold the point. What a triangle gives is the mixture of the rows
at its corners, for a point that lies in it up to the tolerance.
-/

namespace TcadWebapp.Remesh

open StrParser

variable {F : Type} [Field F] [LinearOrder F] {s : Structure F} {material : Int} {p : Point F}

/-! ## Old triangles -/

/-- Every element is a triangle, and its vertices are points of the structure. -/
def Planar (s : Structure F) : Prop :=
  ∀ element ∈ s.elements, element.vertices.length = 3 ∧ ∀ v ∈ element.vertices, InRange s.coordinates v

/-- `_values`. -/
def rowsOf (s : Structure F) : Dict (Int × Int) (List F) :=
  Dict.ofList (s.solutions.map fun row => ((row.coordinateIndex, row.materialId), row.values))

/-- A triangle of a material, with its corners. -/
structure OldTriangle (s : Structure F) (material : Int) where
  element : Element
  mem : element ∈ s.elements
  isOf : (materialIds s).get? element.regionId = some material
  i : Int
  j : Int
  k : Int
  vertices : element.vertices = [i, j, k]
  a : Coordinate F
  b : Coordinate F
  c : Coordinate F
  first : index s.coordinates i = .ok a
  second : index s.coordinates j = .ok b
  third : index s.coordinates k = .ok c

omit [Field F] [LinearOrder F] in
theorem Planar.exists_triangle (planar : Planar s) {element : Element} (mem : element ∈ s.elements)
    (isOf : (materialIds s).get? element.regionId = some material) :
    ∃ t : OldTriangle s material, t.element = element := by
  obtain ⟨three, inside⟩ := planar element mem
  obtain ⟨i, j, k, vertices⟩ := List.length_eq_three.mp three
  rw [vertices] at inside
  obtain ⟨a, -, first⟩ := index_of_inRange (inside i (by simp))
  obtain ⟨b, -, second⟩ := index_of_inRange (inside j (by simp))
  obtain ⟨c, -, third⟩ := index_of_inRange (inside k (by simp))
  exact ⟨⟨element, mem, isOf, i, j, k, vertices, a, b, c, first, second, third⟩, rfl⟩

namespace OldTriangle

variable (t : OldTriangle s material)

def pa : Point F := (t.a.x, t.a.y)

def pb : Point F := (t.b.x, t.b.y)

def pc : Point F := (t.c.x, t.c.y)

/-- The point lies in the triangle. -/
def Holds (p : Point F) : Prop := Plane.Holds t.pa t.pb t.pc p

def area : F := Plane.area t.pa t.pb t.pc

/-- Each corner has a row of the material: these are the values. -/
structure Rows (va vb vc : List F) : Prop where
  first : (rowsOf s).get? (t.i, material) = some va
  second : (rowsOf s).get? (t.j, material) = some vb
  third : (rowsOf s).get? (t.k, material) = some vc

def HasRows : Prop := ∃ va vb vc, t.Rows va vb vc

end OldTriangle

/-- The mixture of three rows, column by column. -/
def mixture (w : F × F × F) (va vb vc : List F) : List F :=
  (va.zip (vb.zip vc)).map fun (a, b, c) => w.1 * a + w.2.1 * b + w.2.2 * c

/-- The values are the mixture of the rows at the corners by the weights of the point, none of which is
below the tolerance. -/
def OldTriangle.Gives (t : OldTriangle s material) (p : Point F) (values : List F) : Prop :=
  ∃ w va vb vc, t.area ≠ 0 ∧ Plane.Weights t.pa t.pb t.pc p w ∧
    (-insideTol ≤ w.1 ∧ -insideTol ≤ w.2.1 ∧ -insideTol ≤ w.2.2) ∧ t.Rows va vb vc ∧ values = mixture w va vb vc

/-! ## Weights -/

theorem barycentric_eq_some {a b c : Point F} {w : F × F × F} : barycentric p a b c false = some w ↔
    Plane.area a b c ≠ 0 ∧ w = Plane.weights a b c p ∧
      -insideTol ≤ w.1 ∧ -insideTol ≤ w.2.1 ∧ -insideTol ≤ w.2.2 := by
  have den : (b.2 - c.2) * (a.1 - c.1) + (c.1 - b.1) * (a.2 - c.2) = Plane.area a b c := rfl
  unfold barycentric
  dsimp only
  rw [den]
  split
  · rename_i flat
    exact ⟨nofun, fun h => absurd flat h.1⟩
  · rename_i wide
    rw [if_neg Bool.false_ne_true]
    split
    · rename_i below
      refine ⟨nofun, ?_⟩
      rintro ⟨-, rfl, ha, hb, hc⟩
      rcases below with below | below | below
      · exact absurd below (not_lt.mpr ha)
      · exact absurd below (not_lt.mpr hb)
      · exact absurd below (not_lt.mpr hc)
    · rename_i within
      rw [not_or, not_or, not_lt, not_lt, not_lt] at within
      constructor
      · intro h
        obtain rfl := Option.some.inj h
        exact ⟨wide, rfl, within⟩
      · rintro ⟨-, rfl, -⟩
        rfl

namespace OldTriangle

variable {t : OldTriangle s material}

theorem gives_iff {values : List F} : t.Gives p values ↔ ∃ w va vb vc,
    barycentric p t.pa t.pb t.pc false = some w ∧ t.Rows va vb vc ∧ values = mixture w va vb vc := by
  constructor
  · rintro ⟨w, va, vb, vc, wide, weights, within, rows, same⟩
    exact ⟨w, va, vb, vc, barycentric_eq_some.mpr ⟨wide, weights.eq wide, within⟩, rows, same⟩
  · rintro ⟨w, va, vb, vc, h, rows, same⟩
    obtain ⟨wide, rfl, within⟩ := barycentric_eq_some.mp h
    exact ⟨_, va, vb, vc, wide, Plane.weights_spec wide p, within, rows, same⟩

variable [IsStrictOrderedRing F]

/-- A triangle with an area gives the values of the points that it holds. -/
theorem Holds.gives (holds : t.Holds p) (wide : t.area ≠ 0) (rows : t.HasRows) : ∃ values, t.Gives p values := by
  obtain ⟨w, weights, pa, pb, pc⟩ := holds
  obtain ⟨va, vb, vc, rows⟩ := rows
  have tolerance : (-insideTol : F) ≤ 0 := by
    unfold insideTol
    simp
  exact ⟨_, w, va, vb, vc, wide, weights,
    ⟨tolerance.trans pa, tolerance.trans pb, tolerance.trans pc⟩, rows, rfl⟩

end OldTriangle

/-! ## The grid -/

omit [Field F] in
theorem foldl_min_le (x : F) (l : List F) : l.foldl min x ≤ x ∧ ∀ y ∈ l, l.foldl min x ≤ y := by
  induction l generalizing x with
  | nil => exact ⟨le_rfl, by simp⟩
  | cons a l ih =>
    obtain ⟨first, rest⟩ := ih (min x a)
    refine ⟨first.trans (min_le_left _ _), ?_⟩
    intro y mem
    rcases List.mem_cons.mp mem with rfl | mem
    · exact first.trans (min_le_right _ _)
    · exact rest y mem

omit [Field F] in
theorem le_foldl_max (x : F) (l : List F) : x ≤ l.foldl max x ∧ ∀ y ∈ l, y ≤ l.foldl max x := by
  induction l generalizing x with
  | nil => exact ⟨le_rfl, by simp⟩
  | cons a l ih =>
    obtain ⟨first, rest⟩ := ih (max x a)
    refine ⟨(le_max_left _ _).trans first, ?_⟩
    intro y mem
    rcases List.mem_cons.mp mem with rfl | mem
    · exact (le_max_right _ _).trans first
    · exact rest y mem

theorem exists_leastOf {l : List F} (h : l ≠ []) : ∃ low, leastOf l = .ok low ∧ ∀ x ∈ l, low ≤ x := by
  cases l with
  | nil => exact absurd rfl h
  | cons x xs => exact ⟨_, rfl, List.forall_mem_cons.mpr (foldl_min_le x xs)⟩

theorem exists_greatestOf {l : List F} (h : l ≠ []) : ∃ high, greatestOf l = .ok high ∧ ∀ x ∈ l, x ≤ high := by
  cases l with
  | nil => exact absurd rfl h
  | cons x xs => exact ⟨_, rfl, List.forall_mem_cons.mpr (le_foldl_max x xs)⟩

namespace Sampler

variable [FloorRing F]

/-- What `init` makes of a structure. -/
structure Built (s : Structure F) (sampler : Sampler F) : Prop where
  source : sampler.source = s
  materialOf : sampler.materialOf = materialIds s
  values : sampler.values = rowsOf s
  dx : 0 < sampler.dx
  dy : 0 < sampler.dy
  bucket : ∀ key i, i ∈ (sampler.buckets.get? key).getD [] ↔
    ∃ element, s.elements[i]? = some element ∧ ∃ cells, sampler.cellsOf element = .ok cells ∧ key ∈ cells

theorem mem_bucket {elements : List Element} {f : Element → Except Exn (List (Int × Int × Int))}
    {cells : List (List (Int × Int × Int))} (h : elements.mapM f = .ok cells) {key : Int × Int × Int} {i : Nat} :
    i ∈ (((cells.zipIdx.flatMap fun (cells, i) => cells.map fun cell => (cell, i)).foldl
      (fun d e => d.alter e.1 fun group => group.getD [] ++ [e.2]) (∅ : Dict (Int × Int × Int) (List Nat))).get?
        key).getD [] ↔ ∃ element, elements[i]? = some element ∧ ∃ cells, f element = .ok cells ∧ key ∈ cells := by
  have pairs := mapM_eq_ok.mp h
  rw [Dict.mem_group]
  constructor
  · rintro ⟨e, mem, rfl, rfl⟩
    obtain ⟨⟨here, i⟩, placed, mem⟩ := List.mem_flatMap.mp mem
    obtain ⟨cell, inside, rfl⟩ := List.mem_map.mp mem
    have placed := List.mk_mem_zipIdx_iff_getElem?.mp placed
    obtain ⟨lt, rfl⟩ := List.getElem?_eq_some_iff.mp placed
    have lt' : i < elements.length := pairs.length_eq ▸ lt
    exact ⟨elements[i], List.getElem?_eq_getElem lt', cells[i], pairs.get lt' lt, inside⟩
  · rintro ⟨element, placed, here, made, inside⟩
    obtain ⟨lt, rfl⟩ := List.getElem?_eq_some_iff.mp placed
    have lt' : i < cells.length := pairs.length_eq ▸ lt
    have same : cells[i] = here := Except.ok.inj ((pairs.get lt lt').symm.trans made)
    refine ⟨(key, i), List.mem_flatMap.mpr ⟨(cells[i], i), ?_, ?_⟩, rfl, rfl⟩
    · exact List.mk_mem_zipIdx_iff_getElem?.mpr (List.getElem?_eq_getElem lt')
    · exact List.mem_map.mpr ⟨key, same ▸ inside, rfl⟩

variable [IsStrictOrderedRing F]

theorem built_of_init {sampler : Sampler F} (h : init s = .ok sampler) : Built s sampler := by
  unfold init at h
  obtain ⟨x0, -, h⟩ := bind_eq_ok.mp h
  obtain ⟨x1, -, h⟩ := bind_eq_ok.mp h
  obtain ⟨y0, -, h⟩ := bind_eq_ok.mp h
  obtain ⟨y1, -, h⟩ := bind_eq_ok.mp h
  obtain ⟨cells, made, h⟩ := bind_eq_ok.mp h
  obtain rfl := Except.ok.inj h
  exact
    { source := rfl
      materialOf := rfl
      values := rfl
      dx := lt_max_of_lt_right (by positivity)
      dy := lt_max_of_lt_right (by positivity)
      bucket := fun key i => mem_bucket made }

omit [IsStrictOrderedRing F] in
theorem exists_cellsOf (planar : Planar s) {sampler : Sampler F} (source : sampler.source = s)
    {element : Element} (mem : element ∈ s.elements) : ∃ cells, sampler.cellsOf element = .ok cells := by
  obtain ⟨three, inside⟩ := planar element mem
  unfold cellsOf
  split
  · exact ⟨_, rfl⟩
  · apply exists_ok_bind
    · rw [source]
      exact exists_mapM fun v hv => (index_of_inRange (inside v hv)).imp fun _ h => h.2
    intro corners made
    have some (f : Coordinate F → F) : corners.map f ≠ [] := by
      intro none
      have := (mapM_eq_ok.mp made).length_eq
      rw [List.map_eq_nil_iff.mp none, three] at this
      cases this
    apply exists_ok_bind
    · exact (exists_leastOf (some _)).imp fun _ h => h.1
    intro xLow _
    apply exists_ok_bind
    · exact (exists_greatestOf (some _)).imp fun _ h => h.1
    intro xHigh _
    apply exists_ok_bind
    · exact (exists_leastOf (some _)).imp fun _ h => h.1
    intro yLow _
    apply exists_ok_bind
    · exact (exists_greatestOf (some _)).imp fun _ h => h.1
    intro yHigh _
    exact ⟨_, rfl⟩

omit [IsStrictOrderedRing F] in
theorem exists_init (planar : Planar s) (some : s.coordinates ≠ []) : ∃ sampler, init s = .ok sampler := by
  have some (f : Coordinate F → F) : s.coordinates.map f ≠ [] := mt List.map_eq_nil_iff.mp some
  unfold init
  apply exists_ok_bind
  · exact (exists_leastOf (some _)).imp fun _ h => h.1
  intro x0 _
  apply exists_ok_bind
  · exact (exists_greatestOf (some _)).imp fun _ h => h.1
  intro x1 _
  apply exists_ok_bind
  · exact (exists_leastOf (some _)).imp fun _ h => h.1
  intro y0 _
  apply exists_ok_bind
  · exact (exists_greatestOf (some _)).imp fun _ h => h.1
  intro y1 _
  apply exists_ok_bind
  · apply exists_mapM
    intro element mem
    exact exists_cellsOf planar rfl mem
  intro cells _
  exact ⟨_, rfl⟩

/-! ## The cell of a point -/

theorem cell_mono {side : Nat} {low width v w : F} (pos : 0 < width) (h : v ≤ w) :
    cell side low width v ≤ cell side low width w := by
  unfold cell
  apply min_le_min_left
  apply max_le_max_left
  exact Int.floor_le_floor ((div_le_div_iff_of_pos_right pos).mpr (sub_le_sub_right h low))

variable {sampler : Sampler F}

/-- A triangle is in the cells of the points that it holds. -/
theorem Built.mem_cellsOf (built : Built s sampler) (planar : Planar s) (t : OldTriangle s material) :
    ∃ cells, sampler.cellsOf t.element = .ok cells ∧ (∀ key ∈ cells, key.1 = material) ∧
      ∀ p, t.Holds p → (material, sampler.cellX p.1, sampler.cellY p.2) ∈ cells := by
  obtain ⟨cells, made⟩ := exists_cellsOf planar built.source t.mem
  refine ⟨cells, made, ?_⟩
  unfold cellsOf at made
  rw [built.materialOf, t.isOf, built.source] at made
  dsimp only at made
  have all : t.element.vertices.mapM (index s.coordinates) = .ok [t.a, t.b, t.c] := by
    rw [t.vertices]
    exact mapM_eq_ok.mpr (.cons t.first (.cons t.second (.cons t.third .nil)))
  obtain ⟨xLow, hxLow, xMin⟩ := exists_leastOf (List.cons_ne_nil t.a.x [t.b.x, t.c.x])
  obtain ⟨xHigh, hxHigh, xMax⟩ := exists_greatestOf (List.cons_ne_nil t.a.x [t.b.x, t.c.x])
  obtain ⟨yLow, hyLow, yMin⟩ := exists_leastOf (List.cons_ne_nil t.a.y [t.b.y, t.c.y])
  obtain ⟨yHigh, hyHigh, yMax⟩ := exists_greatestOf (List.cons_ne_nil t.a.y [t.b.y, t.c.y])
  obtain ⟨corners, hc, made⟩ := bind_eq_ok.mp made
  obtain rfl := Except.ok.inj (all.symm.trans hc)
  obtain ⟨xLow', h, made⟩ := bind_eq_ok.mp made
  obtain rfl := Except.ok.inj (hxLow.symm.trans h)
  obtain ⟨xHigh', h, made⟩ := bind_eq_ok.mp made
  obtain rfl := Except.ok.inj (hxHigh.symm.trans h)
  obtain ⟨yLow', h, made⟩ := bind_eq_ok.mp made
  obtain rfl := Except.ok.inj (hyLow.symm.trans h)
  obtain ⟨yHigh', h, made⟩ := bind_eq_ok.mp made
  obtain rfl := Except.ok.inj (hyHigh.symm.trans h)
  obtain rfl := Except.ok.inj made
  constructor
  · intro key mem
    obtain ⟨gx, -, mem⟩ := List.mem_flatMap.mp mem
    obtain ⟨gy, -, rfl⟩ := List.mem_map.mp mem
    rfl
  · intro p holds
    have corner {q : Coordinate F} (mem : q ∈ [t.a, t.b, t.c]) :
        (xLow ≤ q.x ∧ q.x ≤ xHigh) ∧ yLow ≤ q.y ∧ q.y ≤ yHigh :=
      ⟨⟨xMin _ (List.mem_map_of_mem mem), xMax _ (List.mem_map_of_mem mem)⟩,
        yMin _ (List.mem_map_of_mem mem), yMax _ (List.mem_map_of_mem mem)⟩
    obtain ⟨⟨xBelow, xAbove⟩, yBelow, yAbove⟩ := Plane.Holds.between (xLow, yLow)
      (xHigh, yHigh) holds (corner (by simp)) (corner (by simp)) (corner (by simp))
    refine List.mem_flatMap.mpr ⟨_, mem_rangeTo.mpr ⟨?_, ?_⟩, List.mem_map.mpr ⟨_, mem_rangeTo.mpr ⟨?_, ?_⟩, rfl⟩⟩
    · exact cell_mono built.dx xBelow
    · exact cell_mono built.dx xAbove
    · exact cell_mono built.dy yBelow
    · exact cell_mono built.dy yAbove

/-- The triangles in the cell of a point. -/
def candidates (sampler : Sampler F) (p : Point F) (material : Int) : List Nat :=
  (sampler.buckets.get? (material, sampler.cellX p.1, sampler.cellY p.2)).getD []

theorem Built.mem_candidates (built : Built s sampler) (planar : Planar s) (t : OldTriangle s material)
    (holds : t.Holds p) : ∃ i ∈ sampler.candidates p material, s.elements[i]? = some t.element := by
  obtain ⟨i, placed⟩ := List.getElem?_of_mem t.mem
  obtain ⟨cells, made, -, here⟩ := built.mem_cellsOf planar t
  exact ⟨i, (built.bucket _ _).mpr ⟨_, placed, cells, made, here p holds⟩, placed⟩

/-- What is found through a cell is a triangle of the material. -/
theorem Built.exists_triangle (built : Built s sampler) (planar : Planar s) {gx gy : Int} {i : Nat}
    (mem : i ∈ (sampler.buckets.get? (material, gx, gy)).getD []) :
    ∃ t : OldTriangle s material, s.elements[i]? = some t.element := by
  obtain ⟨element, placed, cells, made, here⟩ := (built.bucket _ _).mp mem
  have old := List.mem_of_getElem? placed
  cases isOf : (materialIds s).get? element.regionId with
  | none =>
    unfold cellsOf at made
    rw [built.materialOf, isOf] at made
    obtain rfl := Except.ok.inj made
    cases here
  | some own =>
    obtain ⟨t, rfl⟩ := planar.exists_triangle old isOf
    obtain ⟨cells', made', same, -⟩ := built.mem_cellsOf planar t
    obtain rfl := Except.ok.inj (made.symm.trans made')
    obtain rfl := same _ here
    exact ⟨t, placed⟩

/-! ## The search -/

omit [Field F] [LinearOrder F] [FloorRing F] [IsStrictOrderedRing F] in
theorem OldTriangle.ext_element {t u : OldTriangle s material} (h : t.element = u.element) : t = u := by
  cases t with | mk element _ _ i j k vertices a b c first second third =>
  cases u with | mk element' _ _ i' j' k' vertices' a' b' c' first' second' third' =>
  obtain rfl : element = element' := h
  rw [vertices, List.cons.injEq, List.cons.injEq, List.cons.injEq] at vertices'
  obtain ⟨rfl, rfl, rfl, -⟩ := vertices'
  obtain rfl := Except.ok.inj (first.symm.trans first')
  obtain rfl := Except.ok.inj (second.symm.trans second')
  obtain rfl := Except.ok.inj (third.symm.trans third')
  rfl

omit [IsStrictOrderedRing F] in
theorem Built.corners_eq (built : Built s sampler) (t : OldTriangle s material) :
    sampler.corners t.element.vertices = .ok (t.pa, t.pb, t.pc) := by
  rw [t.vertices]
  dsimp only [corners, corner]
  rw [built.source, t.first, t.second, t.third]
  rfl

omit [IsStrictOrderedRing F] in
theorem Built.inside_cons (built : Built s sampler) {i : Nat} {t : OldTriangle s material}
    (placed : s.elements[i]? = some t.element) (rest : List Nat) :
    sampler.inside p material (i :: rest) = match barycentric p t.pa t.pb t.pc false with
      | none => sampler.inside p material rest
      | some w => sampler.blend t.element.vertices material w >>= fun
        | none => sampler.inside p material rest
        | some values => .ok (some values) := by
  have here : index sampler.source.elements (i : Nat) = .ok t.element := by
    rw [built.source, index_natCast, placed]
  rw [inside, here]
  dsimp only [bind, Except.bind]
  rw [built.corners_eq]
  all_goals rfl

omit [IsStrictOrderedRing F] in
/-- What `blend` returns are the mixed rows, if there are rows. -/
theorem Built.exists_blend (built : Built s sampler) (t : OldTriangle s material) (w : F × F × F) :
    ∃ result, sampler.blend t.element.vertices material w = .ok result ∧
      ∀ values, result = some values ↔ ∃ va vb vc, t.Rows va vb vc ∧ values = mixture w va vb vc := by
  have first : index [t.i, t.j, t.k] 0 = .ok t.i := rfl
  have second : index [t.i, t.j, t.k] 1 = .ok t.j := rfl
  have third : index [t.i, t.j, t.k] 2 = .ok t.k := rfl
  rw [t.vertices]
  unfold blend
  rw [first, second, third, built.values]
  dsimp only [bind, Except.bind]
  split
  · rename_i va vb vc ha hb hc
    refine ⟨_, rfl, ?_⟩
    intro values
    constructor
    · intro same
      exact ⟨va, vb, vc, ⟨ha, hb, hc⟩, (Option.some.inj same).symm⟩
    · rintro ⟨va', vb', vc', rows, rfl⟩
      obtain rfl := Option.some.inj (ha.symm.trans rows.first)
      obtain rfl := Option.some.inj (hb.symm.trans rows.second)
      obtain rfl := Option.some.inj (hc.symm.trans rows.third)
      rfl
  · rename_i missing
    refine ⟨none, rfl, ?_⟩
    intro values
    constructor
    · nofun
    · rintro ⟨va, vb, vc, rows, -⟩
      exact absurd rows.third (missing va vb vc rows.first rows.second)

omit [IsStrictOrderedRing F] in
/-- The search of a cell finds what one of the triangles gives, if one gives anything. -/
theorem Built.exists_inside (built : Built s sampler) {candidates : List Nat}
    (all : ∀ i ∈ candidates, ∃ t : OldTriangle s material, s.elements[i]? = some t.element) :
    ∃ result, sampler.inside p material candidates = .ok result ∧
      (∀ values, result = some values → ∃ t : OldTriangle s material,
        (∃ i ∈ candidates, s.elements[i]? = some t.element) ∧ t.Gives p values) ∧
      (result = none → ∀ i ∈ candidates, ∀ t : OldTriangle s material, s.elements[i]? = some t.element →
        ∀ values, ¬ t.Gives p values) := by
  induction candidates with
  | nil => exact ⟨none, rfl, nofun, nofun⟩
  | cons i rest ih =>
    obtain ⟨result, found, gives, none⟩ := ih fun j hj => all j (List.mem_cons_of_mem _ hj)
    obtain ⟨t, placed⟩ := all i List.mem_cons_self
    -- where the triangle of this place gives nothing the search goes on
    have onwards (nothing : ∀ values, ¬ t.Gives p values)
        (step : sampler.inside p material (i :: rest) = sampler.inside p material rest) :
        ∃ result, sampler.inside p material (i :: rest) = .ok result ∧
          (∀ values, result = some values → ∃ t : OldTriangle s material,
            (∃ j ∈ i :: rest, s.elements[j]? = some t.element) ∧ t.Gives p values) ∧
          (result = Option.none → ∀ j ∈ i :: rest, ∀ t : OldTriangle s material,
            s.elements[j]? = some t.element → ∀ values, ¬ t.Gives p values) := by
      refine ⟨result, step.trans found, ?_, ?_⟩
      · intro values same
        obtain ⟨u, ⟨j, hj, placed'⟩, given⟩ := gives values same
        exact ⟨u, ⟨j, List.mem_cons_of_mem _ hj, placed'⟩, given⟩
      intro missing j hj u placed'
      rcases List.mem_cons.mp hj with rfl | hj
      · obtain rfl : t = u := OldTriangle.ext_element (Option.some.inj (placed.symm.trans placed'))
        exact nothing
      · exact none missing j hj u placed'
    cases hw : barycentric p t.pa t.pb t.pc false with
    | none =>
      apply onwards
      · intro values given
        obtain ⟨w, -, -, -, found, -⟩ := OldTriangle.gives_iff.mp given
        rw [hw] at found
        cases found
      · rw [built.inside_cons placed, hw]
    | some w =>
      obtain ⟨blended, made, rows⟩ := built.exists_blend t w
      have step := built.inside_cons (p := p) placed rest
      rw [hw] at step
      dsimp only at step
      rw [made] at step
      cases blended with
      | none =>
        apply onwards _ step
        intro values given
        obtain ⟨w', va, vb, vc, found, have_rows, same⟩ := OldTriangle.gives_iff.mp given
        obtain rfl := Option.some.inj (hw.symm.trans found)
        cases (rows values).mpr ⟨va, vb, vc, have_rows, same⟩
      | some values =>
        refine ⟨some values, step, ?_, nofun⟩
        intro values' same
        obtain rfl := Option.some.inj same
        obtain ⟨va, vb, vc, have_rows, mixed⟩ := (rows values).mp rfl
        exact ⟨t, ⟨i, List.mem_cons_self, placed⟩, OldTriangle.gives_iff.mpr ⟨w, va, vb, vc, hw, have_rows, mixed⟩⟩

omit [IsStrictOrderedRing F] in
theorem valueAt_eq {ops : FloatOps F} {reach : F} {result : Option (List F)}
    (h : sampler.inside p material (sampler.candidates p material) = .ok result) :
    sampler.valueAt ops p material reach = match result with
      | some values => .ok (some values)
      | none => if reach ≤ 0 then .ok none else sampler.nearest ops p material reach := by
  unfold candidates at h
  unfold valueAt
  dsimp only
  rw [h]
  cases result <;> rfl

/-- The search of the cell of a point: nothing is found only if none of its triangles gives anything. -/
theorem Built.exists_here (built : Built s sampler) (planar : Planar s) (p : Point F) (material : Int) :
    ∃ result, sampler.inside p material (sampler.candidates p material) = .ok result ∧
      (∀ values, result = some values → ∃ t : OldTriangle s material,
        (∃ i ∈ sampler.candidates p material, s.elements[i]? = some t.element) ∧ t.Gives p values) ∧
      (result = none → ∀ i ∈ sampler.candidates p material, ∀ t : OldTriangle s material,
        s.elements[i]? = some t.element → ∀ values, ¬ t.Gives p values) :=
  built.exists_inside fun _ mem => built.exists_triangle planar mem

/-! ## Results -/

/-- Inside a material a value is found wherever a triangle with an area and with rows at its corners holds
the point, and what is found without a reach is the mixture that a triangle of the material gives. -/
theorem valueAt_inside (planar : Planar s) (ops : FloatOps F) (p : Point F) (material : Int) :
    (∀ t : OldTriangle s material, t.area ≠ 0 → t.HasRows → t.Holds p →
      ∃ sampler, init s = .ok sampler ∧
        ∀ reach, ∃ values, sampler.valueAt ops p material reach = .ok (some values)) ∧
    ∀ sampler values, init s = .ok sampler → sampler.valueAt ops p material 0 = .ok (some values) →
      ∃ t : OldTriangle s material, t.Gives p values := by
  constructor
  · intro t wide rows holds
    have some : s.coordinates ≠ [] := List.ne_nil_of_mem (mem_of_index t.first)
    obtain ⟨sampler, made⟩ := exists_init planar some
    have built := built_of_init made
    obtain ⟨result, found, -, none⟩ := built.exists_here planar p material
    obtain ⟨i, mem, placed⟩ := built.mem_candidates planar t holds
    obtain ⟨values, given⟩ := holds.gives wide rows
    refine ⟨sampler, made, ?_⟩
    intro reach
    rw [valueAt_eq found]
    cases result with
    | none => exact absurd given (none rfl i mem t placed values)
    | some values => exact ⟨values, rfl⟩
  · intro sampler values made found
    have built := built_of_init made
    obtain ⟨result, searched, gives, -⟩ := built.exists_here planar p material
    rw [valueAt_eq searched] at found
    cases result with
    | none =>
      rw [if_pos le_rfl] at found
      cases found
    | some values' =>
      obtain rfl := Option.some.inj (Except.ok.inj found)
      obtain ⟨t, -, given⟩ := gives values' rfl
      exact ⟨t, given⟩

/-- The triangle of `silicon`. -/
def siliconTriangle : OldTriangle silicon 3 where
  element := ⟨1, 1, [0, 1, 2], [-1022, -1024, -1024], [-1, -1]⟩
  mem := by decide
  isOf := by decide
  i := 0
  j := 1
  k := 2
  vertices := rfl
  a := ⟨1, 0, 0⟩
  b := ⟨2, 1, 0⟩
  c := ⟨3, 0, 1⟩
  first := rfl
  second := rfl
  third := rfl

theorem valueAt_inside_silicon : (∃ sampler, init silicon = .ok sampler ∧
      ∀ reach, ∃ values, sampler.valueAt roundedUp (1 / 4, 1 / 4) 3 reach = .ok (some values)) ∧
    ∀ sampler values, init silicon = .ok sampler → sampler.valueAt roundedUp (1 / 4, 1 / 4) 3 0 = .ok (some values) →
      ∃ t : OldTriangle silicon 3, t.Gives (1 / 4, 1 / 4) values := by
  have planar : Planar silicon := by unfold Planar; decide
  obtain ⟨found, only⟩ := valueAt_inside planar roundedUp (1 / 4, 1 / 4) 3
  refine ⟨found siliconTriangle (by decide +kernel) ?_ ?_, only⟩
  · exact ⟨[1], [2], [3], by decide, by decide, by decide⟩
  · exact ⟨(1 / 2, 1 / 4, 1 / 4), ⟨by decide +kernel, by decide +kernel, by decide +kernel⟩, by decide +kernel⟩

end Sampler

end TcadWebapp.Remesh
