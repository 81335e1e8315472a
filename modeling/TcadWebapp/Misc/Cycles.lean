import Mathlib

/-!
# Closed walks

A closed walk is a list of points that is walked around; a place on it is an integer. What is left of the
points when some are dropped is walked around in the same order (`mem_steps_filter`). Two walks that never turn
back agree as long as one of them has no choice (`agree`).
-/

namespace TcadWebapp

variable {V : Type*}

/-- The steps of a walk. -/
def steps (walk : List V) : List (V × V) := walk.zip walk.tail

theorem getElem?_steps {walk : List V} {i : Nat} {a b : V} :
    (steps walk)[i]? = some (a, b) ↔ walk[i]? = some a ∧ walk[i + 1]? = some b := by
  rw [steps, List.getElem?_zip_eq_some, List.getElem?_tail]

theorem mem_steps {walk : List V} {a b : V} :
    (a, b) ∈ steps walk ↔ ∃ i : Nat, walk[i]? = some a ∧ walk[i + 1]? = some b := by
  rw [List.mem_iff_getElem?]
  exact exists_congr fun i => getElem?_steps

theorem steps_map {W : Type*} (f : V → W) (walk : List V) :
    steps (walk.map f) = (steps walk).map (Prod.map f f) := by
  rw [steps, steps, ← List.map_tail, List.zip_map]

theorem steps_concat {walk : List V} {a : V} (last : walk.getLast? = some a) (b : V) :
    steps (walk ++ [b]) = steps walk ++ [(a, b)] := by
  induction walk with
  | nil => cases last
  | cons point walk ih =>
    cases walk with
    | nil =>
      obtain rfl : point = a := by simpa using last
      rfl
    | cons second walk =>
      rw [List.getLast?_cons_cons] at last
      have later := ih last
      simp only [steps, List.cons_append, List.tail_cons, List.zip_cons_cons] at later ⊢
      rw [later]

/-- The walk around points, back to the first. -/
def closeUp (points : List V) : List V := points ++ points.take 1

theorem getElem?_closeUp {points : List V} {i : Nat} (le : i ≤ points.length) (pos : points ≠ []) :
    (closeUp points)[i]? = points[i % points.length]? := by
  rcases Nat.lt_or_eq_of_le le with lt | rfl
  · rw [closeUp, List.getElem?_append_left lt, Nat.mod_eq_of_lt lt]
  · obtain ⟨point, points, rfl⟩ := List.exists_cons_of_ne_nil pos
    rw [closeUp, List.getElem?_append_right le_rfl, Nat.mod_self, Nat.sub_self]
    rfl

/-! ## Places -/

section Around

variable [Inhabited V]

/-- The point at a place. -/
def around (points : List V) (i : Int) : V := points.getD (i % points.length).toNat default

variable {points : List V}

theorem getElem?_around (pos : points ≠ []) (i : Int) :
    points[(i % points.length).toNat]? = some (around points i) := by
  have := List.length_pos_of_ne_nil pos
  have low := Int.emod_nonneg i (by omega : (points.length : Int) ≠ 0)
  have high := Int.emod_lt_of_pos i (by omega : 0 < (points.length : Int))
  rw [around, List.getD_eq_getElem?_getD, List.getElem?_eq_getElem (by omega)]
  rfl

theorem around_mem (pos : points ≠ []) (i : Int) : around points i ∈ points :=
  List.mem_of_getElem? (getElem?_around pos i)

theorem around_add_mul (i k : Int) : around points (i + points.length * k) = around points i := by
  rw [around, Int.add_mul_emod_self_left, around]

theorem around_congr {i j : Int} (same : i % points.length = j % points.length) :
    around points i = around points j := by
  rw [around, same, around]

theorem around_natCast {i : Nat} {point : V} (found : points[i]? = some point) : around points i = point := by
  have lt := (List.getElem?_eq_some_iff.mp found).1
  have same : ((i : Int) % points.length).toNat = i := by
    rw [Int.emod_eq_of_lt (by omega) (by omega)]
    rfl
  rw [around, same, List.getD_eq_getElem?_getD, found]
  rfl

theorem exists_around {point : V} (mem : point ∈ points) : ∃ i : Int, around points i = point := by
  obtain ⟨i, found⟩ := List.mem_iff_getElem?.mp mem
  exact ⟨i, around_natCast found⟩

/-- The step at a place. -/
theorem getElem?_steps_closeUp (pos : points ≠ []) (i : Int) :
    (steps (closeUp points))[(i % points.length).toNat]? = some (around points i, around points (i + 1)) := by
  have length := List.length_pos_of_ne_nil pos
  have low := Int.emod_nonneg i (by omega : (points.length : Int) ≠ 0)
  have high := Int.emod_lt_of_pos i (by omega : 0 < (points.length : Int))
  have inside : (i % points.length).toNat < points.length := by omega
  rw [getElem?_steps]
  refine ⟨?_, ?_⟩
  · rw [getElem?_closeUp inside.le pos, Nat.mod_eq_of_lt inside, getElem?_around pos]
  · rw [getElem?_closeUp inside pos, ← getElem?_around pos]
    congr 1
    have cast : ((((i % points.length).toNat + 1) % points.length : Nat) : Int) =
        (i + 1) % points.length := by
      rw [Int.natCast_emod, Int.natCast_add, Int.toNat_of_nonneg low]
      exact Int.emod_add_emod i points.length 1
    rw [← cast]
    rfl

theorem mem_steps_closeUp (pos : points ≠ []) (i : Int) :
    (around points i, around points (i + 1)) ∈ steps (closeUp points) :=
  List.mem_of_getElem? (getElem?_steps_closeUp pos i)

theorem exists_of_mem_steps_closeUp (pos : points ≠ []) {a b : V} (mem : (a, b) ∈ steps (closeUp points)) :
    ∃ i : Nat, i < points.length ∧ a = around points i ∧ b = around points (i + 1) := by
  have length := List.length_pos_of_ne_nil pos
  obtain ⟨i, found⟩ := List.mem_iff_getElem?.mp mem
  have lt := (List.getElem?_eq_some_iff.mp (getElem?_steps.mp found).2).1
  rw [closeUp, List.length_append, List.length_take] at lt
  have here : ((i : Int) % points.length).toNat = i := by
    rw [Int.emod_eq_of_lt (by omega) (by omega)]
    rfl
  have step := getElem?_steps_closeUp pos i
  rw [here, found] at step
  obtain ⟨rfl, rfl⟩ := Prod.mk.inj (Option.some.inj step)
  exact ⟨i, by omega, rfl, rfl⟩

/-- Two steps of a walk that goes along nothing twice are at the same place, up to rounds. -/
theorem emod_eq_of_step {E : Type*} {edge : V × V → E} (pos : points ≠ [])
    (nodup : ((steps (closeUp points)).map edge).Nodup) {i j : Int}
    (same : edge (around points i, around points (i + 1)) = edge (around points j, around points (j + 1))) :
    i % points.length = j % points.length := by
  have length := List.length_pos_of_ne_nil pos
  have lowi := Int.emod_nonneg i (by omega : (points.length : Int) ≠ 0)
  have lowj := Int.emod_nonneg j (by omega : (points.length : Int) ≠ 0)
  have at_ : ∀ i : Int, ((steps (closeUp points)).map edge)[(i % points.length).toNat]? =
      some (edge (around points i, around points (i + 1))) := by
    intro i
    rw [List.getElem?_map, getElem?_steps_closeUp pos]
    rfl
  have lt := (List.getElem?_eq_some_iff.mp (at_ i)).1
  have := (List.getElem?_inj lt nodup).mp ((at_ i).trans ((congrArg some same).trans (at_ j).symm))
  omega

end Around

/-! ## Dropping points -/

section Filter

/-- The places of a list, again in every round. -/
def inRounds (places : List Nat) (round : Nat) (t : Int) : Int :=
  ((around places t : Nat) : Int) + round * (t / places.length)

variable {places : List Nat} {round : Nat}

theorem inRounds_eq {r k : Nat} (found : places[r]? = some k) (q : Int) :
    inRounds places round (r + places.length * q) = k + round * q := by
  have lt := (List.getElem?_eq_some_iff.mp found).1
  rw [inRounds, around_add_mul, around_natCast found, Int.add_mul_ediv_left _ _ (by omega),
    Int.ediv_eq_zero_of_lt (by omega) (by omega), Int.zero_add]

theorem exists_round (some_ : places ≠ []) (t : Int) :
    ∃ (r k : Nat) (q : Int), places[r]? = some k ∧ t = r + places.length * q := by
  have pos := List.length_pos_of_ne_nil some_
  have low := Int.emod_nonneg t (by omega : (places.length : Int) ≠ 0)
  refine ⟨(t % places.length).toNat, _, t / places.length, getElem?_around some_ t, ?_⟩
  rw [Int.toNat_of_nonneg low]
  exact (Int.emod_add_mul_ediv t places.length).symm

theorem inRounds_add_mul (some_ : places ≠ []) (t n : Int) :
    inRounds places round (t + places.length * n) = inRounds places round t + round * n := by
  obtain ⟨r, k, q, found, rfl⟩ := exists_round some_ t
  rw [Int.add_assoc, ← Int.mul_add, inRounds_eq found, inRounds_eq found, Int.mul_add, Int.add_assoc]

/-- Places in rising order go on rising from round to round. -/
theorem strictMono_inRounds (some_ : places ≠ []) (rising : places.Pairwise (· < ·))
    (bound : ∀ k ∈ places, k < round) : StrictMono (inRounds places round) := by
  refine strictMono_int_of_lt_succ fun t => ?_
  obtain ⟨r, k, q, found, rfl⟩ := exists_round some_ t
  obtain ⟨lt, value⟩ := List.getElem?_eq_some_iff.mp found
  rw [inRounds_eq found]
  rcases Nat.lt_or_ge (r + 1) places.length with more | last
  · have next := List.getElem?_eq_getElem more
    rw [Int.add_right_comm, ← Int.natCast_succ, inRounds_eq next]
    have := List.pairwise_iff_getElem.mp rising r (r + 1) lt more (by omega)
    omega
  · have next := List.getElem?_eq_getElem (l := places) (show 0 < places.length by omega)
    have turn : (r : Int) + places.length * q + 1 = (0 : Nat) + places.length * (q + 1) := by
      rw [Int.mul_add]
      omega
    have := bound k (List.mem_of_getElem? found)
    rw [turn, inRounds_eq next, Int.mul_add, Int.mul_one]
    omega

variable [Inhabited V] {p : V → Bool} {points : List V}

theorem map_around_range (points : List V) :
    (List.range points.length).map (fun k : Nat => around points k) = points := by
  refine List.ext_getElem? fun k => ?_
  rcases Nat.lt_or_ge k points.length with lt | ge
  · rw [List.getElem?_map, List.getElem?_range lt, List.getElem?_eq_getElem lt]
    exact congrArg some (around_natCast (List.getElem?_eq_getElem lt))
  · rw [List.getElem?_eq_none (by simpa using ge), List.getElem?_eq_none ge]

/-- The places of the points that are left: in rising order, again in every round, and there are no others. -/
theorem exists_places (left : points.filter p ≠ []) : ∃ place : Int → Int, StrictMono place ∧
    (∀ t n, place (t + (points.filter p).length * n) = place t + points.length * n) ∧
    (∀ t, around (points.filter p) t = around points (place t) ∧ p (around points (place t))) ∧
    ∀ i, p (around points i) → ∃ t, place t = i := by
  have kept : points.filter p =
      ((List.range points.length).filter fun k : Nat => p (around points k)).map
        fun k : Nat => around points k := by
    conv_lhs => rw [← map_around_range points, List.filter_map]
    rfl
  have rising : ((List.range points.length).filter fun k : Nat => p (around points k)).Pairwise (· < ·) :=
    List.pairwise_lt_range.filter _
  have mem : ∀ k : Nat, k ∈ (List.range points.length).filter (fun k : Nat => p (around points k)) ↔
      k < points.length ∧ p (around points k) := by
    intro k
    rw [List.mem_filter, List.mem_range]
  revert kept rising mem
  generalize (List.range points.length).filter (fun k : Nat => p (around points k)) = places
  intro kept rising mem
  have some_ : places ≠ [] := by
    rintro rfl
    exact left kept
  have length : (points.filter p).length = places.length := by rw [kept, List.length_map]
  have round : ∀ k q : Int, around points (k + points.length * q) = around points k := around_add_mul
  refine ⟨inRounds places points.length, ?_, ?_, ?_, ?_⟩
  · exact strictMono_inRounds some_ rising fun k hk => ((mem k).mp hk).1
  · intro t n
    rw [length, inRounds_add_mul some_]
  · intro t
    obtain ⟨r, k, q, found, rfl⟩ := exists_round some_ t
    rw [inRounds_eq found, round]
    refine ⟨?_, ((mem k).mp (List.mem_of_getElem? found)).2⟩
    rw [← length, around_add_mul]
    refine around_natCast ?_
    rw [kept, List.getElem?_map, found]
    rfl
  · intro i here
    have nonempty : points ≠ [] := by
      rintro rfl
      exact left rfl
    have pos := List.length_pos_of_ne_nil nonempty
    have low := Int.emod_nonneg i (by omega : (points.length : Int) ≠ 0)
    have high := Int.emod_lt_of_pos i (by omega : 0 < (points.length : Int))
    have split : i = (i % points.length).toNat + points.length * (i / points.length) := by
      rw [Int.toNat_of_nonneg low]
      exact (Int.emod_add_mul_ediv i points.length).symm
    rw [split, round] at here
    obtain ⟨r, found⟩ := List.mem_iff_getElem?.mp ((mem _).mpr ⟨by omega, here⟩)
    exact ⟨r + places.length * (i / points.length), (inRounds_eq found _).trans split.symm⟩

/-- Two points that are left with none in between are a step of what is left. -/
theorem mem_steps_filter {i j : Int} (lt : i < j) (hi : p (around points i)) (hj : p (around points j))
    (none_ : ∀ k, i < k → k < j → ¬ p (around points k)) (pos : points ≠ []) :
    (around points i, around points j) ∈ steps (closeUp (points.filter p)) := by
  have left : points.filter p ≠ [] :=
    List.ne_nil_of_mem (List.mem_filter.mpr ⟨around_mem pos i, hi⟩)
  obtain ⟨place, mono, -, at_, all⟩ := exists_places left
  obtain ⟨t, rfl⟩ := all i hi
  obtain ⟨u, rfl⟩ := all j hj
  have next : u = t + 1 := by
    have less := mono.lt_iff_lt.mp lt
    by_contra more
    exact none_ (place (t + 1)) (mono (by omega)) (mono (by omega)) (at_ (t + 1)).2
  rw [next, ← (at_ t).1, ← (at_ (t + 1)).1]
  exact mem_steps_closeUp left t

end Filter

/-! ## Walks without a choice -/

/-- A walk that never turns back agrees with one whose points have no neighbours besides the points before
and after them. -/
theorem agree {adjacent : V → V → Prop} {f g : Int → V} {lo hi : Int} (here : f 0 = g 0) (next : f 1 = g 1)
    (previous : f (-1) = g (-1))
    (goes : ∀ t, lo < t → t < hi → adjacent (f t) (f (t + 1)) ∧ adjacent (f t) (f (t - 1)) ∧
      f (t - 1) ≠ f (t + 1))
    (only : ∀ t v, lo < t → t < hi → adjacent (g t) v → v = g (t - 1) ∨ v = g (t + 1)) {t : Int}
    (low : lo ≤ t) (high : t ≤ hi) (le : lo ≤ 0) (ge : 0 ≤ hi) : f t = g t := by
  have up : ∀ n : Nat, (n + 1 : Int) ≤ hi → f n = g n ∧ f (n + 1) = g (n + 1) := by
    intro n
    induction n with
    | zero => exact fun _ => ⟨here, next⟩
    | succ n ih =>
      intro top
      push_cast at top ⊢
      obtain ⟨one, two⟩ := ih (by omega)
      obtain ⟨edge, -, ne⟩ := goes (n + 1) (by omega) (by omega)
      refine ⟨two, ?_⟩
      rw [two] at edge
      rcases only (n + 1) _ (by omega) (by omega) edge with back | on
      · rw [Int.add_sub_cancel] at ne back
        exact absurd (one.trans back.symm) ne
      · exact on
  have down : ∀ n : Nat, lo ≤ -(n + 1 : Int) → f (-n) = g (-n) ∧ f (-(n + 1)) = g (-(n + 1)) := by
    intro n
    induction n with
    | zero => exact fun _ => ⟨here, previous⟩
    | succ n ih =>
      intro bottom
      push_cast at bottom ⊢
      obtain ⟨one, two⟩ := ih (by omega)
      obtain ⟨-, edge, ne⟩ := goes (-(n + 1)) (by omega) (by omega)
      refine ⟨two, ?_⟩
      have before : -((n : Int) + 1) - 1 = -(n + 1 + 1) := by omega
      have after : -((n : Int) + 1) + 1 = -n := by omega
      rw [two, before] at edge
      rw [before, after] at ne
      rcases only (-(n + 1)) _ (by omega) (by omega) edge with on | back
      · rwa [before] at on
      · rw [after] at back
        exact absurd (back.trans one.symm) ne
  rcases lt_trichotomy t 0 with neg | rfl | pos
  · obtain ⟨n, rfl⟩ : ∃ n : Nat, t = -(n + 1) := ⟨(-t - 1).toNat, by omega⟩
    exact (down n low).2
  · exact here
  · obtain ⟨n, rfl⟩ : ∃ n : Nat, t = n + 1 := ⟨(t - 1).toNat, by omega⟩
    exact (up n high).2

/-! ## Walks with few edges -/

section Few

variable {E : Type*} {edge : V → V → E} {y : Int → V}
  (ends : ∀ {a b c d}, edge a b = edge c d → a = c ∧ b = d ∨ a = d ∧ b = c)
  (ne : ∀ t, y t ≠ y (t + 1))
  (few : ¬ ∃ t u v, edge (y t) (y (t + 1)) ≠ edge (y u) (y (u + 1)) ∧
    edge (y u) (y (u + 1)) ≠ edge (y v) (y (v + 1)) ∧ edge (y t) (y (t + 1)) ≠ edge (y v) (y (v + 1)))

include ends ne

/-- Of two edges to the same point that are the same the other ends are the same, too. -/
theorem eq_of_edge {t u : Int} (same : y (t + 1) = y (u + 1))
    (h : edge (y t) (y (t + 1)) = edge (y u) (y (u + 1))) : y t = y u := by
  rcases ends h with ⟨one, -⟩ | ⟨one, -⟩
  · exact one
  · exact absurd (one.trans same.symm) (ne t)

include few

/-- On a walk with no more than two edges one of two points is passed back and forth. -/
theorem turns_of_few (t : Int) : y t = y (t + 2) ∨ y (t + 1) = y (t + 3) := by
  have two : t + 1 + 1 = t + 2 := by omega
  have three : t + 2 + 1 = t + 3 := by omega
  have ne' := ne (t + 1)
  rw [two] at ne'
  by_contra neither
  push Not at neither
  refine few ⟨t, t + 1, t + 2, fun first => ?_, fun second => ?_, fun third => ?_⟩
  · rw [two] at first
    rcases ends first with ⟨one, -⟩ | ⟨one, -⟩
    · exact ne t one
    · exact neither.1 one
  · rw [two, three] at second
    rcases ends second with ⟨one, -⟩ | ⟨one, -⟩
    · exact ne' one
    · exact neither.2 one
  · rw [three] at third
    rcases ends third with ⟨one, -⟩ | ⟨-, one⟩
    · exact neither.1 one
    · exact ne' one

/-- If the walk comes to some points in one place of a round only, and goes along an edge between others in one
place only, then it goes back and forth between one other point and one or two of them. -/
theorem spikes_of_few {m : Nat} (pos : 0 < m) {loose : V → Prop} (period : ∀ t n, y (t + m * n) = y t)
    (comm : ∀ a b, edge a b = edge b a)
    (once : ∀ {t u}, loose (y t) → y t = y u → ∃ n, u = t + m * n)
    (unique : ∀ {t u}, ¬ loose (y t) → ¬ loose (y (t + 1)) →
      edge (y t) (y (t + 1)) = edge (y u) (y (u + 1)) → ∃ n, u = t + m * n) :
    (m = 2 ∧ ∃ t, loose (y t) ∧ y (t - 1) = y (t + 1)) ∨
      (m = 4 ∧ ∃ t, loose (y t) ∧ loose (y (t + 2)) ∧ y (t - 1) = y (t + 1) ∧ y (t + 1) = y (t + 3)) := by
  have not_one : m ≠ 1 := by
    rintro rfl
    exact ne 0 (period 0 1).symm
  have divides : ∀ {n : Int}, 2 = m * n → m = 2 := by
    intro n e
    have dvd : (m : Int) ∣ 2 := ⟨n, e⟩
    have := Int.le_of_dvd (by decide) dvd
    omega
  by_cases two : m = 2
  · -- One of the two points is passed in one place only.
    have back : ∀ t, y (t - 1) = y (t + 1) := by
      intro t
      have same := period (t - 1) 1
      rw [two, show t - 1 + ((2 : Nat) : Int) * 1 = t + 1 by omega] at same
      exact same.symm
    refine Or.inl ⟨two, ?_⟩
    by_contra none_
    push Not at none_
    have others : ∀ t, ¬ loose (y t) := fun t h => none_ t h (back t)
    obtain ⟨n, e⟩ := @unique 0 1 (others 0) (others (0 + 1)) (by rw [comm, show y (1 + 1) = y 0 from (back 1).symm]; rfl)
    rw [two] at e
    omega
  · -- A point from which the walk goes back is one of them, and the point it goes back to is another.
    have turn : ∀ t, y (t - 1) = y (t + 1) → loose (y t) ∧ ¬ loose (y (t + 1)) := by
      intro t back
      have other : ¬ loose (y (t + 1)) := by
        intro here
        obtain ⟨n, e⟩ := @once (t - 1) (t + 1) (back ▸ here) back
        exact two (divides (show 2 = (m : Int) * n by omega))
      refine ⟨?_, other⟩
      by_contra here
      obtain ⟨n, e⟩ := @unique t (t - 1) here other (by
        rw [Int.sub_add_cancel, back]
        exact comm _ _)
      have dvd : (m : Int) ∣ 1 := ⟨-n, by rw [Int.mul_neg]; omega⟩
      have := Int.le_of_dvd (by decide) dvd
      omega
    have forth : ∀ t, y (t - 1) = y (t + 1) → y (t + 1) = y (t + 3) := by
      intro t back
      refine (turns_of_few ends ne few t).resolve_left fun again => ?_
      refine (turn t back).2 (turn (t + 1) ?_).1
      rw [Int.add_sub_cancel, again, show t + 1 + 1 = t + 2 by omega]
    obtain ⟨a, first⟩ : ∃ a, y (a - 1) = y (a + 1) := by
      rcases turns_of_few ends ne few 0 with same | same
      · exact ⟨1, same⟩
      · exact ⟨2, same⟩
    have before : a + 2 - 1 = a + 1 := by omega
    have after : a + 2 + 1 = a + 3 := by omega
    have second := forth a first
    have third : y (a + 3) = y (a + 5) := by
      have on := forth (a + 2) (by rw [before, after, second])
      rwa [after, show a + 2 + 3 = a + 5 by omega] at on
    have here := (turn a first).1
    have here' := (turn (a + 2) (by rw [before, after, second])).1
    refine Or.inr ⟨?_, a, here, here', first, second⟩
    by_contra other
    have last : a + 4 + 1 = a + 5 := by omega
    refine few ⟨a, a + 2, a + 4, fun e => ?_, fun e => ?_, fun e => ?_⟩
    · obtain ⟨n, e⟩ := once here (eq_of_edge ends ne (by rw [after, second]) e)
      exact two (divides (show 2 = (m : Int) * n by omega))
    · obtain ⟨n, e⟩ := once here' (eq_of_edge ends ne (by rw [after, last, third]) e)
      exact two (divides (show 2 = (m : Int) * n by omega))
    · obtain ⟨n, e⟩ := once here (eq_of_edge ends ne (by rw [last, second, third]) e)
      have dvd : (m : Int) ∣ 4 := ⟨n, by omega⟩
      have le := Int.le_of_dvd (by decide) dvd
      have three : m = 3 := by omega
      rw [three] at dvd
      omega

end Few

end TcadWebapp
