import TcadWebapp.Remesh.Proofs.Sampler

/-!
# Values outside a material

A point that no triangle of the material holds gets the value of the nearest one, if that is within
reach. Only the triangles that touch the nine cells around the point are looked at; a reach of at
most a cell stays among them.
-/

namespace TcadWebapp.Remesh

open StrParser

variable {F : Type} [Field F] [LinearOrder F] {s : Structure F} {material : Int} {p : Point F} {reach : F}
  {ops : FloatOps F}

/-- The nearest point of a segment. -/
def foot (p a b : Point F) : Point F := (a.1 + along p a b * (b.1 - a.1), a.2 + along p a b * (b.2 - a.2))

/-- The weights above zero, to a total of one. -/
def clamped (w : F × F × F) : F × F × F :=
  let total := max w.1 0 + max w.2.1 0 + max w.2.2 0
  (max w.1 0 / total, max w.2.1 0 / total, max w.2.2 0 / total)

namespace OldTriangle

variable (t : OldTriangle s material)

/-- The sides, in the order in which they are looked at. -/
def sides : List (Point F × Point F) := [(t.pa, t.pb), (t.pb, t.pc), (t.pc, t.pa)]

/-- The lengths from the point to the sides are exact. -/
def Exact (ops : FloatOps F) (p : Point F) : Prop :=
  ∀ side ∈ t.sides, 0 ≤ ops.root (p.1 - (foot p side.1 side.2).1) (p.2 - (foot p side.1 side.2).2) ∧
    ops.root (p.1 - (foot p side.1 side.2).1) (p.2 - (foot p side.1 side.2).2) ^ 2 =
      Plane.distSq p (foot p side.1 side.2)

/-- The triangle lies at a distance smaller than the reach. -/
def Within (p : Point F) (reach : F) : Prop := ∃ q, t.Holds q ∧ Plane.distSq p q < reach ^ 2

/-- The triangle is no farther from the point than another. -/
def NoFarther (p : Point F) (u : OldTriangle s material) : Prop :=
  ∀ q', u.Holds q' → ∃ q, t.Holds q ∧ Plane.distSq p q ≤ Plane.distSq p q'

/-- The values are the mixture of the rows at the corners by the clamped weights of the point. -/
def Clamps (p : Point F) (values : List F) : Prop :=
  ∃ w va vb vc, Plane.Weights t.pa t.pb t.pc p w ∧ t.Rows va vb vc ∧ values = mixture (clamped w) va vb vc

end OldTriangle

/-! ## Distances -/

theorem along_eq (p a b : Point F) : along p a b = Plane.foot p a b := by
  unfold along Plane.foot Plane.distSq
  rw [sq, sq]

theorem pointToSegment_eq (length : F → F → F) (p : Point F) {a b : Point F} (long : Plane.distSq b a ≠ 0) :
    pointToSegment length p a b = length (p.1 - (foot p a b).1) (p.2 - (foot p a b).2) := by
  unfold Plane.distSq at long
  rw [sq, sq] at long
  unfold pointToSegment
  dsimp only
  rw [if_neg long]
  rfl

/-- The distance from the point to a side, as the search measures it. -/
def measure (ops : FloatOps F) (p : Point F) (side : Point F × Point F) : F :=
  pointToSegment ops.root p side.1 side.2

namespace OldTriangle

variable {t : OldTriangle s material} [IsStrictOrderedRing F]

theorem long (wide : t.area ≠ 0) {side : Point F × Point F} (mem : side ∈ t.sides) :
    Plane.distSq side.2 side.1 ≠ 0 := by
  obtain ⟨ab, bc, ca⟩ := Plane.distSq_ne_zero wide
  unfold sides at mem
  rw [List.mem_cons, List.mem_cons, List.mem_singleton] at mem
  rcases mem with rfl | rfl | rfl
  · exact ab
  · exact bc
  · exact ca

theorem holds_foot {side : Point F × Point F} (mem : side ∈ t.sides) : t.Holds (foot p side.1 side.2) := by
  apply Plane.Holds.of_onSide
  have on (a b : Point F) : Plane.OnSegment a b (foot p a b) := ⟨along p a b, along_mem p a b, rfl⟩
  unfold sides at mem
  rw [List.mem_cons, List.mem_cons, List.mem_singleton] at mem
  rcases mem with rfl | rfl | rfl
  · exact Or.inl (on _ _)
  · exact Or.inr (Or.inl (on _ _))
  · exact Or.inr (Or.inr (on _ _))

/-- What is measured to a side is the distance of a point of the triangle. -/
theorem measure_spec (wide : t.area ≠ 0) (exact : t.Exact ops p) {side : Point F × Point F} (mem : side ∈ t.sides) :
    0 ≤ measure ops p side ∧ Plane.distSq p (foot p side.1 side.2) = measure ops p side ^ 2 := by
  unfold measure
  rw [pointToSegment_eq _ _ (long wide mem)]
  obtain ⟨pos, square⟩ := exact side mem
  exact ⟨pos, square.symm⟩

/-- From outside no point of a triangle is nearer than its sides. -/
theorem exists_side (wide : t.area ≠ 0) (exact : t.Exact ops p) (outside : ¬ t.Holds p) {q : Point F}
    (holds : t.Holds q) : ∃ side ∈ t.sides, measure ops p side ^ 2 ≤ Plane.distSq p q := by
  obtain ⟨q', on, closer⟩ := Plane.exists_onSide wide holds outside
  have along {a b : Point F} (mem : (a, b) ∈ t.sides) (on : Plane.OnSegment a b q') :
      ∃ side ∈ t.sides, measure ops p side ^ 2 ≤ Plane.distSq p q := by
    obtain ⟨k, ⟨low, high⟩, rfl⟩ := on
    refine ⟨(a, b), mem, ?_⟩
    rw [← (measure_spec wide exact mem).2]
    refine le_trans ?_ closer
    unfold foot
    rw [along_eq]
    exact Plane.distSq_foot_le (long wide mem) p low high
  rcases on with on | on | on
  · exact along (by simp [sides]) on
  · exact along (by simp [sides]) on
  · exact along (by simp [sides]) on

theorem within_iff (wide : t.area ≠ 0) (exact : t.Exact ops p) (outside : ¬ t.Holds p) (pos : 0 < reach) :
    t.Within p reach ↔ ∃ side ∈ t.sides, measure ops p side < reach := by
  constructor
  · rintro ⟨q, holds, near⟩
    obtain ⟨side, mem, le⟩ := exists_side wide exact outside holds
    exact ⟨side, mem, lt_of_pow_lt_pow_left₀ 2 pos.le (le.trans_lt near)⟩
  · rintro ⟨side, mem, near⟩
    obtain ⟨low, square⟩ := measure_spec wide exact mem
    refine ⟨foot p side.1 side.2, holds_foot mem, ?_⟩
    rw [square]
    exact pow_lt_pow_left₀ near low two_ne_zero

/-- The triangle of a side that is nearest among some triangles' sides is no farther than those. -/
theorem noFarther_of_side (wide : t.area ≠ 0) (exact : t.Exact ops p) {side : Point F × Point F}
    (mem : side ∈ t.sides) {u : OldTriangle s material} (wide' : u.area ≠ 0) (exact' : u.Exact ops p)
    (outside : ¬ u.Holds p) (least : ∀ side' ∈ u.sides, measure ops p side ≤ measure ops p side') :
    t.NoFarther p u := by
  intro q holds
  obtain ⟨side', mem', le⟩ := exists_side wide' exact' outside holds
  obtain ⟨low, square⟩ := measure_spec wide exact mem
  refine ⟨foot p side.1 side.2, holds_foot mem, ?_⟩
  rw [square]
  exact (pow_le_pow_left₀ low (least side' mem') 2).trans le

end OldTriangle

/-! ## The nine cells -/

namespace Sampler

variable [FloorRing F] {sampler : Sampler F}

/-- Its box touches the cell of the point. -/
def Here (sampler : Sampler F) (p : Point F) (t : OldTriangle s material) : Prop :=
  ∃ cells, sampler.cellsOf t.element = .ok cells ∧ (material, sampler.cellX p.1, sampler.cellY p.2) ∈ cells

/-- Its box touches one of the nine cells around the point. -/
def Near (sampler : Sampler F) (p : Point F) (t : OldTriangle s material) : Prop :=
  ∃ cells, sampler.cellsOf t.element = .ok cells ∧ ∃ gx gy, (material, gx, gy) ∈ cells ∧
    (sampler.cellX p.1 - 1 ≤ gx ∧ gx ≤ sampler.cellX p.1 + 1) ∧
      sampler.cellY p.2 - 1 ≤ gy ∧ gy ≤ sampler.cellY p.2 + 1

/-- The triangles of the nine cells, as the search goes through them. -/
def neighbours (sampler : Sampler F) (p : Point F) (material : Int) : List Nat :=
  (rangeTo (sampler.cellX p.1 - 1) (sampler.cellX p.1 + 1)).flatMap fun gx =>
    (rangeTo (sampler.cellY p.2 - 1) (sampler.cellY p.2 + 1)).flatMap fun gy =>
      (sampler.buckets.get? (material, gx, gy)).getD []

theorem Built.mem_bucket_iff (built : Built s sampler) {t : OldTriangle s material} {key : Int × Int × Int} :
    (∃ i ∈ (sampler.buckets.get? key).getD [], s.elements[i]? = some t.element) ↔
      ∃ cells, sampler.cellsOf t.element = .ok cells ∧ key ∈ cells := by
  constructor
  · rintro ⟨i, mem, placed⟩
    obtain ⟨element, placed', touched⟩ := (built.bucket _ _).mp mem
    obtain rfl := Option.some.inj (placed'.symm.trans placed)
    exact touched
  · intro touched
    obtain ⟨i, placed⟩ := List.getElem?_of_mem t.mem
    exact ⟨i, (built.bucket _ _).mpr ⟨_, placed, touched⟩, placed⟩

theorem Built.here_iff (built : Built s sampler) {t : OldTriangle s material} :
    sampler.Here p t ↔ ∃ i ∈ sampler.candidates p material, s.elements[i]? = some t.element :=
  built.mem_bucket_iff.symm

theorem Built.near_iff (built : Built s sampler) {t : OldTriangle s material} :
    sampler.Near p t ↔ ∃ i ∈ sampler.neighbours p material, s.elements[i]? = some t.element := by
  constructor
  · rintro ⟨cells, made, gx, gy, mem, hx, hy⟩
    obtain ⟨i, here, placed⟩ := built.mem_bucket_iff.mpr ⟨cells, made, mem⟩
    exact ⟨i, List.mem_flatMap.mpr ⟨gx, mem_rangeTo.mpr hx, List.mem_flatMap.mpr ⟨gy, mem_rangeTo.mpr hy, here⟩⟩,
      placed⟩
  · rintro ⟨i, mem, placed⟩
    obtain ⟨gx, hx, mem⟩ := List.mem_flatMap.mp mem
    obtain ⟨gy, hy, mem⟩ := List.mem_flatMap.mp mem
    obtain ⟨cells, made, here⟩ := built.mem_bucket_iff.mp ⟨i, mem, placed⟩
    exact ⟨cells, made, gx, gy, here, mem_rangeTo.mp hx, mem_rangeTo.mp hy⟩

theorem Built.exists_neighbour [IsStrictOrderedRing F] (built : Built s sampler) (planar : Planar s) {i : Nat}
    (mem : i ∈ sampler.neighbours p material) : ∃ t : OldTriangle s material, s.elements[i]? = some t.element := by
  obtain ⟨gx, -, mem⟩ := List.mem_flatMap.mp mem
  obtain ⟨gy, -, mem⟩ := List.mem_flatMap.mp mem
  exact built.exists_triangle planar mem

theorem Built.sidesOf_eq (built : Built s sampler) {i : Nat} {t : OldTriangle s material}
    (placed : s.elements[i]? = some t.element) :
    sampler.sidesOf i = .ok (t.sides.map fun side => (side.1, side.2, t.element.vertices)) := by
  have here : index sampler.source.elements (i : Nat) = .ok t.element := by
    rw [built.source, index_natCast, placed]
  unfold sidesOf
  rw [here]
  dsimp only [bind, Except.bind]
  rw [t.vertices]
  have side (k m : Nat) {v w : Int} {a b : Coordinate F} (first : index [t.i, t.j, t.k] (k : Nat) = .ok v)
      (second : index [t.i, t.j, t.k] (m : Nat) = .ok w) (atFirst : index s.coordinates v = .ok a)
      (atSecond : index s.coordinates w = .ok b) :
      (do
        let a ← index [t.i, t.j, t.k] (k : Nat)
        let b ← index [t.i, t.j, t.k] (m : Nat)
        let pa ← sampler.corner a
        let pb ← sampler.corner b
        .ok (pa, pb, [t.i, t.j, t.k])) = (.ok ((a.x, a.y), (b.x, b.y), [t.i, t.j, t.k]) : Except Exn _) := by
    rw [first, second]
    dsimp only [bind, Except.bind, corner]
    rw [built.source, atFirst, atSecond]
  apply mapM_eq_ok.mpr
  refine .cons ?_ (.cons ?_ (.cons ?_ .nil))
  · exact side 0 1 rfl rfl t.first t.second
  · exact side 1 2 rfl rfl t.second t.third
  · exact side 2 0 rfl rfl t.third t.first

/-- The sides that the search goes through. -/
theorem Built.exists_sides (built : Built s sampler) {found : List Nat}
    (all : ∀ i ∈ found, ∃ t : OldTriangle s material, s.elements[i]? = some t.element) :
    ∃ sides, found.mapM sampler.sidesOf = .ok sides ∧ ∀ side, side ∈ sides.flatten ↔
      ∃ t : OldTriangle s material, (∃ i ∈ found, s.elements[i]? = some t.element) ∧
        ∃ ends ∈ t.sides, side = (ends.1, ends.2, t.element.vertices) := by
  obtain ⟨sides, made⟩ : ∃ sides, found.mapM sampler.sidesOf = .ok sides := by
    apply exists_mapM
    intro i mem
    obtain ⟨t, placed⟩ := all i mem
    exact ⟨_, built.sidesOf_eq placed⟩
  refine ⟨sides, made, ?_⟩
  intro side
  rw [List.mem_flatten]
  constructor
  · rintro ⟨own, mem, within⟩
    obtain ⟨i, here, same⟩ := exists_of_mem_mapM made mem
    obtain ⟨t, placed⟩ := all i here
    obtain rfl := Except.ok.inj ((built.sidesOf_eq placed).symm.trans same)
    obtain ⟨ends, hends, rfl⟩ := List.mem_map.mp within
    exact ⟨t, ⟨i, here, placed⟩, ends, hends, rfl⟩
  · rintro ⟨t, ⟨i, here, placed⟩, ends, hends, rfl⟩
    obtain ⟨own, mem, same⟩ := exists_mem_of_mapM made here
    obtain rfl := Except.ok.inj ((built.sidesOf_eq placed).symm.trans same)
    exact ⟨_, mem, List.mem_map_of_mem hends⟩

/-! ## The search -/

variable [IsStrictOrderedRing F]

/-- A triangle with an area has clamped weights for every point. -/
theorem barycentric_clamped {a b c : Point F} (wide : Plane.area a b c ≠ 0) (p : Point F) :
    barycentric p a b c true = some (clamped (Plane.weights a b c p)) := by
  have den : (b.2 - c.2) * (a.1 - c.1) + (c.1 - b.1) * (a.2 - c.2) = Plane.area a b c := rfl
  unfold barycentric
  dsimp only
  rw [den, if_neg wide, if_pos rfl]
  have total := (Plane.weights_spec wide p).total
  apply if_pos
  have first := le_max_left (Plane.weights a b c p).1 0
  have second := le_max_left (Plane.weights a b c p).2.1 0
  have third := le_max_left (Plane.weights a b c p).2.2 0
  calc (0 : F) < 1 := zero_lt_one
    _ = _ := total.symm
    _ ≤ _ := add_le_add (add_le_add first second) third

omit [IsStrictOrderedRing F] in
theorem nearest_eq {sides : List (List (Point F × Point F × List Int))}
    (h : (sampler.neighbours p material).mapM sampler.sidesOf = .ok sides) :
    sampler.nearest ops p material reach =
      match (scan (fun d e => d < e) (fun side => pointToSegment ops.root p side.1 side.2.1) reach sides.flatten).1 with
      | none => .ok none
      | some (_, _, vertices) => sampler.corners vertices >>= fun (a, b, c) =>
        match barycentric p a b c true with
        | none => .ok none
        | some weights => sampler.blend vertices material weights := by
  unfold neighbours at h
  unfold nearest
  dsimp only
  rw [h]
  rfl

/-- What the search of the nine cells comes to: a nearest triangle, and its rows mixed if it has rows. -/
theorem Built.exists_nearest (built : Built s sampler) (planar : Planar s)
    (wide : ∀ t : OldTriangle s material, t.area ≠ 0) (outside : ∀ t : OldTriangle s material, ¬ t.Holds p)
    (pos : 0 < reach) (exact : ∀ t : OldTriangle s material, t.Exact ops p) :
    ∃ result, sampler.nearest ops p material reach = .ok result ∧
      ((result = none ∧ ∀ t : OldTriangle s material, sampler.Near p t → ¬ t.Within p reach) ∨
        ∃ t : OldTriangle s material, sampler.Near p t ∧ t.Within p reach ∧
          (∀ u : OldTriangle s material, sampler.Near p u → t.NoFarther p u) ∧
          ∀ values, result = some values ↔ t.Clamps p values) := by
  obtain ⟨sides, made, all⟩ := built.exists_sides
    fun i (mem : i ∈ sampler.neighbours p material) => built.exists_neighbour planar mem
  rw [nearest_eq made]
  cases found : (scan (fun d e => d < e)
    (fun side => pointToSegment ops.root p side.1 side.2.1) reach sides.flatten).1 with
  | none =>
    refine ⟨none, rfl, Or.inl ⟨rfl, ?_⟩⟩
    intro t near within
    obtain ⟨side, mem, closer⟩ := (OldTriangle.within_iff (wide t) (exact t) (outside t) pos).mp within
    have listed := (all _).mpr ⟨t, built.near_iff.mp near, side, mem, rfl⟩
    exact absurd closer (of_decide_eq_false (scan_eq_none refines_lt found _ listed))
  | some best =>
    obtain ⟨listed, closer, least⟩ := scan_eq_some refines_lt found
    have closer := of_decide_eq_true closer
    obtain ⟨t, placed, side, mem, rfl⟩ := (all _).mp listed
    have near := built.near_iff.mpr placed
    obtain ⟨result, blended, rows⟩ := built.exists_blend t (clamped (Plane.weights t.pa t.pb t.pc p))
    refine ⟨result, ?_, Or.inr ⟨t, near, ?_, ?_, ?_⟩⟩
    · dsimp only
      rw [built.corners_eq]
      dsimp only [bind, Except.bind]
      rw [barycentric_clamped (wide t)]
      exact blended
    · exact (OldTriangle.within_iff (wide t) (exact t) (outside t) pos).mpr ⟨side, mem, closer⟩
    · intro u near'
      apply OldTriangle.noFarther_of_side (wide t) (exact t) mem (wide u) (exact u) (outside u)
      intro side' mem'
      exact least _ ((all _).mpr ⟨u, built.near_iff.mp near', side', mem', rfl⟩)
    · intro values
      rw [rows]
      constructor
      · rintro ⟨va, vb, vc, have_rows, same⟩
        exact ⟨_, va, vb, vc, Plane.weights_spec (wide t) p, have_rows, same⟩
      · rintro ⟨w, va, vb, vc, weights, have_rows, rfl⟩
        exact ⟨va, vb, vc, have_rows, by rw [weights.eq (wide t)]⟩

/-! ## A reach of at most a cell -/

theorem cell_le_add_one {side : Nat} {low width v w : F} (pos : 0 < width) (h : v ≤ w + width) :
    cell side low width v ≤ cell side low width w + 1 := by
  have step : ⌊(v - low) / width⌋ ≤ ⌊(w - low) / width⌋ + 1 := by
    rw [← Int.floor_add_one]
    apply Int.floor_le_floor
    rw [div_add_one pos.ne']
    exact (div_le_div_iff_of_pos_right pos).mpr (by linarith)
  unfold cell
  omega

theorem Built.near_of_within (built : Built s sampler) (planar : Planar s) (pos : 0 < reach)
    (narrow : reach ≤ sampler.dx) (low : reach ≤ sampler.dy) {t : OldTriangle s material}
    (within : t.Within p reach) : sampler.Near p t := by
  obtain ⟨q, holds, close⟩ := within
  obtain ⟨cells, made, -, here⟩ := built.mem_cellsOf planar t
  have bound {d e : F} (part : d ^ 2 ≤ e) (small : e < reach ^ 2) : |d| ≤ reach :=
    (abs_lt_of_sq_lt_sq (part.trans_lt small) pos.le).le
  obtain ⟨xBelow, xAbove⟩ := abs_le.mp (bound (le_add_of_nonneg_right (sq_nonneg _)) close : |p.1 - q.1| ≤ reach)
  obtain ⟨yBelow, yAbove⟩ := abs_le.mp (bound (le_add_of_nonneg_left (sq_nonneg _)) close : |p.2 - q.2| ≤ reach)
  have left : sampler.cellX p.1 ≤ sampler.cellX q.1 + 1 := cell_le_add_one built.dx (by linarith)
  have right : sampler.cellX q.1 ≤ sampler.cellX p.1 + 1 := cell_le_add_one built.dx (by linarith)
  have under : sampler.cellY p.2 ≤ sampler.cellY q.2 + 1 := cell_le_add_one built.dy (by linarith)
  have above : sampler.cellY q.2 ≤ sampler.cellY p.2 + 1 := cell_le_add_one built.dy (by linarith)
  exact ⟨cells, made, _, _, here q holds, ⟨by omega, right⟩, by omega, above⟩

/-! ## Results -/

/-- A point outside the triangles of a material is asked for, in exact arithmetic. -/
structure Asked (ops : FloatOps F) (s : Structure F) (sampler : Sampler F) (p : Point F) (material : Int)
    (reach : F) : Prop where
  planar : Planar s
  wide : ∀ t : OldTriangle s material, t.area ≠ 0
  made : init s = .ok sampler
  outside : ∀ t : OldTriangle s material, ¬ t.Holds p
  pos : 0 < reach
  exact : ∀ t : OldTriangle s material, t.Exact ops p

/-- There is a value just if some triangle with rows lies within reach, and it is that of a nearest one. The
triangles that count are given. -/
def FallsBack (ops : FloatOps F) (sampler : Sampler F) (p : Point F) (material : Int) (reach : F)
    (counts : OldTriangle s material → Prop) : Prop :=
  ((∃ values, sampler.valueAt ops p material reach = .ok (some values)) ↔
      ∃ t, counts t ∧ t.HasRows ∧ t.Within p reach) ∧
    ∀ values, sampler.valueAt ops p material reach = .ok (some values) →
      ∃ t, counts t ∧ t.Within p reach ∧ t.Clamps p values ∧ ∀ u, counts u → u.HasRows → t.NoFarther p u

/-- No triangle without rows is among the nearest. -/
def NearestHaveRows (s : Structure F) (sampler : Sampler F) (p : Point F) (material : Int) (reach : F) : Prop :=
  ∀ u : OldTriangle s material, sampler.Near p u → ¬ u.HasRows → u.Within p reach →
    ∃ v : OldTriangle s material, sampler.Near p v ∧ v.HasRows ∧ ¬ u.NoFarther p v

/-- A point that a triangle of its cell takes in, be it by the tolerance, gets what such a triangle gives. Any
other falls back on the triangles near it, among which are all that lie within a reach of at most a cell. -/
theorem valueAt_outside (asked : Asked ops s sampler p material reach) :
    ((∃ (t : OldTriangle s material) (values : List F), sampler.Here p t ∧ t.Gives p values) →
      ∃ (t : OldTriangle s material) (values : List F), sampler.Here p t ∧ t.Gives p values ∧
        sampler.valueAt ops p material reach = .ok (some values)) ∧
    ((∀ (t : OldTriangle s material) values, sampler.Here p t → ¬ t.Gives p values) →
      NearestHaveRows s sampler p material reach →
        FallsBack ops sampler p material reach fun t : OldTriangle s material => sampler.Near p t) ∧
    (reach ≤ sampler.dx → reach ≤ sampler.dy → ∀ t : OldTriangle s material, t.Within p reach → sampler.Near p t) := by
  obtain ⟨planar, wide, made, outside, pos, exact⟩ := asked
  have built := built_of_init made
  obtain ⟨here, found, gives, missing⟩ := built.exists_here planar p material
  refine ⟨?_, ?_, ?_⟩
  · rintro ⟨t, values, touched, given⟩
    cases here with
    | none =>
      obtain ⟨i, mem, placed⟩ := built.here_iff.mp touched
      exact absurd given (missing rfl i mem t placed values)
    | some values' =>
      obtain ⟨u, placed, given'⟩ := gives values' rfl
      exact ⟨u, values', built.here_iff.mpr placed, given', valueAt_eq found⟩
  · intro beyond rows
    cases here with
    | some values =>
      obtain ⟨u, placed, given⟩ := gives values rfl
      exact absurd given (beyond u values (built.here_iff.mpr placed))
    | none =>
      obtain ⟨result, searched, cases⟩ := built.exists_nearest planar wide outside pos exact
      unfold FallsBack
      rw [valueAt_eq found]
      dsimp only
      rw [if_neg (not_le.mpr pos), searched]
      rcases cases with ⟨rfl, far⟩ | ⟨t, near, within, least, mixed⟩
      · constructor
        · constructor
          · rintro ⟨values, same⟩
            cases same
          · rintro ⟨t, near, -, within⟩
            exact absurd within (far t near)
        · intro values same
          cases same
      · -- a triangle without rows would not be the nearest
        have has_rows : t.HasRows := by
          by_contra missing
          obtain ⟨v, near', -, farther⟩ := rows t near missing within
          exact farther (least v near')
        obtain ⟨va, vb, vc, r⟩ := has_rows
        have some := (mixed _).mpr ⟨_, va, vb, vc, Plane.weights_spec (wide t) p, r, rfl⟩
        constructor
        · exact iff_of_true ⟨_, congrArg _ some⟩ ⟨t, near, ⟨va, vb, vc, r⟩, within⟩
        · intro values same
          refine ⟨t, near, within, (mixed values).mp (Except.ok.inj same), ?_⟩
          intro u near' _
          exact least u near'
  · intro narrow low t within
    exact built.near_of_within planar pos narrow low within

omit [FloorRing F] [IsStrictOrderedRing F] in
/-- The material has no other triangle. -/
theorem eq_of_only {t : OldTriangle s material} (only : ∀ element ∈ s.elements,
    (materialIds s).get? element.regionId = some material → element = t.element) (u : OldTriangle s material) :
    u = t :=
  OldTriangle.ext_element (only u.element u.mem u.isOf)

omit [IsStrictOrderedRing F] in
theorem asked_of_only {t : OldTriangle s material} (only : ∀ element ∈ s.elements,
      (materialIds s).get? element.regionId = some material → element = t.element)
    (planar : Planar s) (wide : t.area ≠ 0) (made : init s = .ok sampler) (outside : ¬ t.Holds p) (pos : 0 < reach)
    (exact : t.Exact ops p) : Asked ops s sampler p material reach where
  planar := planar
  wide u := eq_of_only only u ▸ wide
  made := made
  outside u := eq_of_only only u ▸ outside
  pos := pos
  exact u := eq_of_only only u ▸ exact

instance (ops : FloatOps Rat) (s : Structure Rat) (t : OldTriangle s material) (p : Point Rat) :
    Decidable (t.Exact ops p) :=
  inferInstanceAs (Decidable (∀ side ∈ t.sides, _ ∧ _))

instance (s : Structure Rat) : Decidable (Planar s) :=
  inferInstanceAs (Decidable (∀ element ∈ s.elements, _ ∧ ∀ v ∈ element.vertices, InRange s.coordinates v))

theorem valueAt_outside_silicon : ∃ sampler, init silicon = .ok sampler ∧
    FallsBack roundedUp sampler (-12 / 5, 0) 3 (5 / 2)
      fun t : OldTriangle silicon 3 => sampler.Near (-12 / 5, 0) t := by
  have only : ∀ element ∈ silicon.elements, (materialIds silicon).get? element.regionId = some 3 →
      element = siliconTriangle.element := by decide
  obtain ⟨sampler, made⟩ := exists_init (s := silicon) (by decide) (by decide)
  have asked : Asked roundedUp silicon sampler (-12 / 5, 0) 3 (5 / 2) :=
    asked_of_only only (by decide) (by decide +kernel) made (Plane.not_holds (by decide +kernel) (by decide +kernel))
      (by decide +kernel) (by decide +kernel)
  refine ⟨sampler, made, (valueAt_outside asked).2.1 ?_ ?_⟩
  · intro t values _ given
    obtain rfl := eq_of_only only t
    obtain ⟨w, va, vb, vc, found, -⟩ := OldTriangle.gives_iff.mp given
    have none : barycentric (-12 / 5, 0) siliconTriangle.pa siliconTriangle.pb siliconTriangle.pc false = none := by
      decide +kernel
    rw [none] at found
    cases found
  · intro u _ missing
    obtain rfl := eq_of_only only u
    exact absurd ⟨[1], [2], [3], by decide, by decide, by decide⟩ missing

/-- Silicon behind oxide slivers that make the cells narrow. -/
def distant : Structure Rat where
  version := ""
  dimension := 2
  verticesPerElement := 3
  neighborsPerElement := 3
  coordinates := ((List.range 17).flatMap fun k => [⟨3 * k + 1, -1 + k / 5, 0⟩, ⟨3 * k + 2, -9 / 10 + k / 5, 0⟩,
    ⟨3 * k + 3, -1 + k / 5, 6⟩]) ++ [⟨52, 11, 0⟩, ⟨53, 17, 0⟩, ⟨54, 11, 6⟩]
  regions := [⟨1, 1, "oxide"⟩, ⟨2, 3, "silicon"⟩]
  elements := ((List.range 17).map fun k =>
    ⟨k + 1, 1, [3 * k, 3 * k + 1, 3 * k + 2], [-1024, -1024, -1024], [-1, -1]⟩) ++
      [⟨18, 2, [51, 52, 53], [-1024, -1024, -1024], [-1, -1]⟩]
  solutions := [⟨51, 3, "silicon", [1]⟩, ⟨52, 3, "silicon", [2]⟩, ⟨53, 3, "silicon", [3]⟩]
  species := []
  temperature := none
  warnings := []

/-- Its triangle of silicon. -/
def distantTriangle : OldTriangle distant 3 where
  element := ⟨18, 2, [51, 52, 53], [-1024, -1024, -1024], [-1, -1]⟩
  mem := by decide
  isOf := by decide
  i := 51
  j := 52
  k := 53
  vertices := rfl
  a := ⟨52, 11, 0⟩
  b := ⟨53, 17, 0⟩
  c := ⟨54, 11, 6⟩
  first := by decide
  second := by decide
  third := by decide

/-- One long triangle that is hardly higher than the tolerance. -/
def sliver : Structure Rat where
  version := ""
  dimension := 2
  verticesPerElement := 3
  neighborsPerElement := 3
  coordinates := [⟨1, 0, 0⟩, ⟨2, 4, 0⟩, ⟨3, 0, 3 / 10 ^ 9⟩]
  regions := [⟨1, 3, "silicon"⟩]
  elements := [⟨1, 1, [0, 1, 2], [-1024, -1024, -1024], [-1, -1]⟩]
  solutions := [⟨0, 3, "silicon", [1]⟩, ⟨1, 3, "silicon", [2]⟩, ⟨2, 3, "silicon", [3]⟩]
  species := []
  temperature := none
  warnings := []

def sliverTriangle : OldTriangle sliver 3 where
  element := ⟨1, 1, [0, 1, 2], [-1024, -1024, -1024], [-1, -1]⟩
  mem := by decide
  isOf := by decide
  i := 0
  j := 1
  k := 2
  vertices := rfl
  a := ⟨1, 0, 0⟩
  b := ⟨2, 4, 0⟩
  c := ⟨3, 0, 3 / 10 ^ 9⟩
  first := rfl
  second := rfl
  third := rfl

/-- A triangle within reach is missed beyond the nine cells, and one beyond reach is taken by the tolerance. -/
theorem not_fallsBack :
    (∃ sampler, Asked roundedUp distant sampler (3, 0) 3 9 ∧
      ¬ FallsBack roundedUp sampler (3, 0) 3 9 fun _ : OldTriangle distant 3 => True) ∧
    ∃ sampler, Asked roundedUp sliver sampler (-4 / 10 ^ 9, 0) 3 (1 / 10 ^ 9) ∧
      ¬ FallsBack roundedUp sampler (-4 / 10 ^ 9, 0) 3 (1 / 10 ^ 9) fun _ : OldTriangle sliver 3 => True := by
  constructor
  · have only : ∀ element ∈ distant.elements, (materialIds distant).get? element.regionId = some 3 →
        element = distantTriangle.element := by decide
    obtain ⟨sampler, made, nothing⟩ : ∃ sampler, init distant = .ok sampler ∧
        sampler.valueAt roundedUp (3, 0) 3 9 = .ok none := exists_ok_and (by decide +kernel)
    refine ⟨sampler, asked_of_only only (by decide +kernel) (by decide +kernel) made
      (Plane.not_holds (by decide +kernel) (by decide +kernel)) (by decide +kernel) (by decide +kernel), ?_⟩
    rintro ⟨just, -⟩
    obtain ⟨values, same⟩ := just.mpr ⟨distantTriangle, trivial,
      ⟨[1], [2], [3], by decide, by decide, by decide⟩, (11, 0),
      ⟨(1, 0, 0), ⟨by decide +kernel, by decide +kernel, by decide +kernel⟩, by decide +kernel⟩, by decide +kernel⟩
    rw [nothing] at same
    cases same
  · have only : ∀ element ∈ sliver.elements, (materialIds sliver).get? element.regionId = some 3 →
        element = sliverTriangle.element := by decide
    obtain ⟨sampler, made, taken⟩ : ∃ sampler, init sliver = .ok sampler ∧
        sampler.valueAt roundedUp (-4 / 10 ^ 9, 0) 3 (1 / 10 ^ 9) = .ok (some [999999999 / 10 ^ 9]) :=
      exists_ok_and (by decide +kernel)
    have wide : sliverTriangle.area ≠ 0 := by decide +kernel
    have outside : ¬ sliverTriangle.Holds (-4 / 10 ^ 9, 0) := Plane.not_holds wide (by decide +kernel)
    have exact : sliverTriangle.Exact roundedUp (-4 / 10 ^ 9, 0) := by decide +kernel
    have pos : (0 : Rat) < 1 / 10 ^ 9 := by decide +kernel
    refine ⟨sampler, asked_of_only only (by decide +kernel) wide made outside pos exact, ?_⟩
    rintro ⟨just, -⟩
    obtain ⟨t, -, -, within⟩ := just.mp ⟨_, taken⟩
    obtain rfl := eq_of_only only t
    obtain ⟨side, mem, closer⟩ := (OldTriangle.within_iff wide exact outside pos).mp within
    have far : ∀ side ∈ sliverTriangle.sides, ¬ measure roundedUp (-4 / 10 ^ 9, 0) side < 1 / 10 ^ 9 := by
      decide +kernel
    exact far side mem closer

end Sampler

end TcadWebapp.Remesh
