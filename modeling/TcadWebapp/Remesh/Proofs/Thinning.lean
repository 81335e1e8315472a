import TcadWebapp.Remesh.Proofs.Simplify

/-!
# Thinning keeps within its tolerance

What is dropped from a loop was dropped from a chain. The loop and the chain go the same way around it, and so
the chord of the chain is a step of the loop that is left (`simplifyBoundary_within`).
-/

namespace TcadWebapp.Remesh

open StrParser

variable {s : Structure Rat} {segments : List Segment} {tolerance : Rat} {chains : List (List Int)}
  {keep : List Int}

/-- The points at which the chains of segments are cut. -/
def cuts (segments : List Segment) : List Int :=
  startsOf (fixedPoints segments) (neighboursOf segments).keys

/-- What is kept: the fixed points, and what is taken from the chains. -/
def Keeps (s : Structure Rat) (segments : List Segment) (tolerance : Rat) (chains : List (List Int))
    (keep : List Int) : Prop :=
  ∀ v, v ∈ keep ↔ v ∈ fixedPoints segments ∨ ∃ chain ∈ chains, TakenFrom s tolerance chain v

/-- A point is within the tolerance of the line between the ends of a step. -/
def WithinStep (s : Structure Rat) (tolerance : Rat) (v : Int) (step : Int × Int) : Prop :=
  ∃ p a b, index s.coordinates v = .ok p ∧ index s.coordinates step.1 = .ok a ∧
    index s.coordinates step.2 = .ok b ∧ Within tolerance p a b

/-! ## Chords of chains -/

/-- The points of a chain are those that were looked up. -/
theorem index_of_looked {chain : List Int} {points : List (Coordinate Rat)}
    (looked : chain.mapM (index s.coordinates) = .ok points) {i : Nat} {v : Int} (found : chain[i]? = some v) :
    index s.coordinates v = .ok (points.getD i ⟨0, 0, 0⟩) := by
  have all := mapM_eq_ok.mp looked
  have inside := (List.getElem?_eq_some_iff.mp found).1
  have same := all.length_eq
  have one := (List.forall₂_iff_get.mp all).2 i inside (by omega)
  rw [List.getD_eq_getElem?_getD, List.getElem?_eq_getElem (by omega)]
  obtain ⟨_, rfl⟩ := List.getElem?_eq_some_iff.mp found
  exact one

section Chords

variable (areChains : AreChains (neighboursOf segments) (cuts segments) chains)
  (keeps : Keeps s segments tolerance chains keep)

include areChains

theorem mem_of_takenFrom {chain : List Int} (mem : chain ∈ chains) {v : Int}
    (taken_ : TakenFrom s tolerance chain v) : v ∈ cuts segments ∨ v ∈ inner chain := by
  obtain ⟨points, -, k, hk, found⟩ := taken_
  obtain ⟨complete, long⟩ := areChains.each chain mem
  by_cases loose : v ∈ cuts segments
  · exact Or.inl loose
  refine Or.inr (mem_inner.mpr ?_)
  cases k with
  | zero =>
    obtain ⟨start, hstart, head⟩ := complete.starts
    rw [List.head?_eq_getElem?, found] at head
    exact absurd (Option.some.inj head ▸ hstart) loose
  | succ k =>
    have before := List.getElem?_eq_getElem (l := chain)
      (show k < chain.length from by have := (List.getElem?_eq_some_iff.mp found).1; omega)
    exact complete.mem_inner_of_step (Or.inl (mem_steps.mpr ⟨k, before, found⟩)) loose

include keeps

/-- Where anything is kept the chains are cut at points that are kept. -/
theorem mem_keep_of_mem_cuts {u v : Int} (hu : u ∈ keep) (hv : v ∈ cuts segments) : v ∈ keep := by
  by_cases some_ : fixedPoints segments = []
  · rcases (keeps u).mp hu with mem | ⟨chain, mem, points, found, -⟩
    · rw [some_] at mem
      cases mem
    · obtain ⟨complete, long⟩ := areChains.each chain mem
      obtain ⟨start, hstart, head⟩ := complete.starts
      rw [cuts, some_] at hstart hv
      obtain rfl := eq_of_mem_startsOf_nil hstart hv
      rw [List.head?_eq_getElem?] at head
      exact (keeps start).mpr (Or.inr ⟨chain, mem, points, found, 0, List.mem_cons_self, head⟩)
  · exact (keeps v).mpr (Or.inl ((mem_startsOf some_).mp hv))

/-- An inner point that is kept was taken from its chain, at its place. -/
theorem mem_taken_of_inner {chain : List Int} (mem : chain ∈ chains) {points : List (Coordinate Rat)}
    (looked : chain.mapM (index s.coordinates) = .ok points) {k : Nat} {v : Int}
    (lt : k + 2 < chain.length) (found : chain[k + 1]? = some v) (hv : v ∈ keep) :
    k + 1 ∈ taken points tolerance (chain.length - 1) := by
  have loose := (areChains.each chain mem).1.notMem_of_inner (mem_inner.mpr ⟨k, lt, found⟩)
  rcases (keeps v).mp hv with fixed | ⟨other, hother, points', looked', j, hj, there⟩
  · exact absurd (mem_startsOf_of_mem fixed) loose
  · rcases mem_of_takenFrom areChains hother ⟨points', looked', j, hj, there⟩ with start | inside
    · exact absurd start loose
    · obtain ⟨i, lt', found'⟩ := mem_inner.mp inside
      obtain ⟨rfl, rfl⟩ := areChains.unique mem hother lt lt' found found'
      obtain rfl := Except.ok.inj (looked.symm.trans looked')
      -- The place is the one of the point, since at the ends there is no loose point.
      have before := le_of_mem_taken hj
      cases j with
      | zero =>
        obtain ⟨start, hstart, head⟩ := (areChains.each chain mem).1.starts
        rw [List.head?_eq_getElem?, there] at head
        exact absurd (Option.some.inj head ▸ hstart) loose
      | succ j =>
        rcases Nat.lt_or_ge (j + 2) chain.length with inner_ | end_
        · obtain ⟨-, rfl⟩ := areChains.unique mem mem lt inner_ found there
          exact hj
        · obtain ⟨last, hlast, is⟩ := (areChains.each chain mem).1.ends
          rw [length_of_getLast? (by omega) there] at is
          exact absurd (Option.some.inj is ▸ hlast) loose

/-- A place that is taken has a point that is kept. -/
theorem mem_keep_of_mem_taken {chain : List Int} (mem : chain ∈ chains) {points : List (Coordinate Rat)}
    (looked : chain.mapM (index s.coordinates) = .ok points) {k : Nat}
    (hk : k ∈ taken points tolerance (chain.length - 1)) : ∃ v, chain[k]? = some v ∧ v ∈ keep := by
  have long := (areChains.each chain mem).2
  have le := le_of_mem_taken hk
  have found := List.getElem?_eq_getElem (l := chain) (show k < chain.length by omega)
  exact ⟨_, found, (keeps _).mpr (Or.inr ⟨chain, mem, points, looked, k, hk, found⟩)⟩

/-- A point of a chain that is not kept lies at a chord between kept points, with none in between. -/
theorem exists_chord {chain : List Int} (mem : chain ∈ chains) {points : List (Coordinate Rat)}
    (looked : chain.mapM (index s.coordinates) = .ok points) {k : Nat} {v : Int} (lt : k + 2 < chain.length)
    (found : chain[k + 1]? = some v) (dropped : v ∉ keep) :
    ∃ a b x y, a < k + 1 ∧ k + 1 < b ∧ chain[a]? = some x ∧ chain[b]? = some y ∧ x ∈ keep ∧ y ∈ keep ∧
      (∀ j z, a < j → j < b → chain[j]? = some z → z ∉ keep) ∧ WithinStep s tolerance v (x, y) := by
  rcases taken_near points tolerance (show k + 1 ≤ chain.length - 1 by omega) with
    here | ⟨a, b, ak, kb, ha, hb, none_, near_⟩
  · obtain ⟨w, there, hw⟩ := mem_keep_of_mem_taken areChains keeps mem looked here
    obtain rfl := Option.some.inj (found.symm.trans there)
    exact absurd hw dropped
  · obtain ⟨x, hx, keptx⟩ := mem_keep_of_mem_taken areChains keeps mem looked ha
    obtain ⟨y, hy, kepty⟩ := mem_keep_of_mem_taken areChains keeps mem looked hb
    refine ⟨a, b, x, y, ak, kb, hx, hy, keptx, kepty, fun j z aj jb hz hkeep => ?_, ?_⟩
    · have last := le_of_mem_taken hb
      obtain ⟨i, rfl⟩ : ∃ i, j = i + 1 := ⟨j - 1, by omega⟩
      have hj := mem_taken_of_inner areChains keeps mem looked (by omega) hz hkeep
      rcases none_ _ hj with le | ge
      · omega
      · omega
    · exact ⟨_, _, _, index_of_looked looked found, index_of_looked looked hx, index_of_looked looked hy,
        within_of_offsetSq near_⟩

end Chords

/-! ## Loops -/

/-- The points of a loop, walked around. -/
theorem closeUp_dropLast {loop : List Int} (closed : Closed loop) :
    loop.dropLast ≠ [] ∧ closeUp loop.dropLast = loop := by
  obtain ⟨start, head, last⟩ := closed.ends
  have goes := closed.goes
  obtain ⟨front, rfl⟩ := List.getLast?_eq_some_iff.mp last
  cases front with
  | nil => simp at goes
  | cons point front =>
    obtain rfl : point = start := by simpa using head
    rw [List.dropLast_concat]
    exact ⟨List.cons_ne_nil _ _, rfl⟩

/-- The points of a closed walk along segments, each of them once. -/
structure Round (segments : List Segment) (points : List Int) : Prop where
  some_ : points ≠ []
  along : ∀ u v, (u, v) ∈ steps (closeUp points) → v ∈ near (neighboursOf segments) u
  once : ((steps (closeUp points)).map pairOf).Nodup

theorem round_of_closed {region : Int} {loops : List (List Int)} (closed : RegionClosed segments region loops)
    {loop : List Int} (mem : loop ∈ loops) : Round segments loop.dropLast := by
  obtain ⟨some_, around_⟩ := closeUp_dropLast (closed.closed loop mem)
  refine ⟨some_, fun u v step => ?_, ?_⟩
  · rw [around_] at step
    have pair : pairOf (u, v) ∈ loops.flatMap stepPairs :=
      List.mem_flatMap.mpr ⟨loop, mem, List.mem_map_of_mem step⟩
    obtain ⟨segment, hsegment, -, same⟩ := (closed.along _).mp pair
    refine (holds_neighboursOf segments).mem_near_iff.mpr ?_
    rcases edgePair_eq_iff.mp same with ⟨rfl, rfl⟩ | ⟨rfl, rfl⟩
    · exact Or.inl (List.mem_map_of_mem hsegment)
    · exact Or.inr (List.mem_map_of_mem hsegment)
  · rw [around_]
    exact (List.nodup_flatMap.mp closed.once).1 loop mem

namespace Round

variable {points : List Int} (round : Round segments points)

include round

theorem next_near (i : Int) : around points (i + 1) ∈ near (neighboursOf segments) (around points i) :=
  round.along _ _ (mem_steps_closeUp round.some_ i)

theorem previous_near (i : Int) : around points (i - 1) ∈ near (neighboursOf segments) (around points i) := by
  have next := round.next_near (i - 1)
  rw [Int.sub_add_cancel] at next
  exact (near_comm (holds_neighboursOf segments)).mp next

/-- A walk that goes along every segment once does not turn back. -/
theorem previous_ne_next (two : 2 ≤ points.length) (i : Int) : around points (i - 1) ≠ around points (i + 1) := by
  intro same
  have edge : pairOf (around points (i - 1), around points (i - 1 + 1)) =
      pairOf (around points i, around points (i + 1)) := by
    rw [Int.sub_add_cancel, same]
    exact edgePair_comm _ _
  have turn := emod_eq_of_step round.some_ round.once edge
  have dvd : (points.length : Int) ∣ i - (i - 1) := Int.ModEq.dvd turn
  rw [show i - (i - 1) = 1 by omega] at dvd
  have := Int.le_of_dvd one_pos dvd
  omega

variable (areChains : AreChains (neighboursOf segments) (cuts segments) chains)
  (keeps : Keeps s segments tolerance chains keep)

include areChains keeps

/-- A closed walk with a point that is kept is on chains. -/
theorem reached {i j : Int} (kept : around points j ∈ keep) :
    around points i ∈ cuts segments ∨ around points i ∈ chains.flatMap inner := by
  have all : ∀ t : Nat, around points (j + t) ∈ cuts segments ∨
      around points (j + t) ∈ chains.flatMap inner := by
    intro t
    induction t with
    | zero =>
      rw [Int.natCast_zero, Int.add_zero]
      rcases (keeps _).mp kept with fixed | ⟨chain, mem, taken_⟩
      · exact Or.inl (mem_startsOf_of_mem fixed)
      · exact (mem_of_takenFrom areChains mem taken_).imp_right fun inside =>
          List.mem_flatMap.mpr ⟨chain, mem, inside⟩
    | succ t ih =>
      rw [Int.natCast_succ, ← Int.add_assoc]
      exact areChains.closed ih (round.next_near (j + t))
  have length := List.length_pos_of_ne_nil round.some_
  obtain ⟨t, q, e⟩ : ∃ (t : Nat) (q : Int), i + points.length * q = j + t := by
    refine ⟨(i - j + points.length * (j - i).natAbs).toNat, (j - i).natAbs, ?_⟩
    have le : ((j - i).natAbs : Int) ≤ points.length * (j - i).natAbs :=
      le_mul_of_one_le_left (Int.natCast_nonneg _) (by omega)
    omega
  have there := all t
  rwa [← e, around_add_mul] at there

omit keeps in
/-- The walk goes the same way as the chain, or the opposite way, around a point that they have in common. -/
theorem agrees (two : 2 ≤ points.length) {chain : List Int} (mem : chain ∈ chains) {k : Nat} {i : Int}
    (lt : k + 2 < chain.length) (found : chain[k + 1]? = some (around points i)) :
    ∃ σ : Int, (σ = 1 ∨ σ = -1) ∧ ∀ (j : Nat) (z : Int), chain[j]? = some z →
      around points (i + σ * (j - (k + 1))) = z := by
  obtain ⟨complete, long⟩ := areChains.each chain mem
  have value : ∀ {j : Nat} {z : Int}, chain[j]? = some z → chain.getD j 0 = z := by
    intro j z there
    rw [List.getD_eq_getElem?_getD, there]
    rfl
  have at_ : ∀ {j : Nat}, j < chain.length → chain[j]? = some (chain.getD j 0) := by
    intro j inside
    rw [value (List.getElem?_eq_getElem inside), List.getElem?_eq_getElem inside]
  have turn := complete.turns k _ _ _ (at_ (by omega)) found (at_ lt)
  have ne := round.previous_ne_next two i
  -- The points before and after are those of the chain, in one order or the other.
  have order : ∃ σ : Int, (σ = 1 ∨ σ = -1) ∧ around points (i + σ) = chain.getD (k + 2) 0 ∧
      around points (i + -σ) = chain.getD k 0 := by
    rcases turn.2.2.2 _ (round.next_near i) with next | next
    · refine ⟨-1, Or.inr rfl, ?_, next⟩
      rcases turn.2.2.2 _ (round.previous_near i) with previous | previous
      · exact absurd (previous.trans next.symm) ne
      · exact previous
    · refine ⟨1, Or.inl rfl, next, ?_⟩
      rcases turn.2.2.2 _ (round.previous_near i) with previous | previous
      · exact previous
      · exact absurd (previous.trans next.symm) ne
  obtain ⟨σ, sign, next, previous⟩ := order
  refine ⟨σ, sign, fun j z there => ?_⟩
  have inside := (List.getElem?_eq_some_iff.mp there).1
  have same := @agree Int (fun u v => v ∈ near (neighboursOf segments) u) (fun t => around points (i + σ * t))
    (fun t => chain.getD (k + 1 + t).toNat 0) (-(k + 1)) (chain.length - 1 - (k + 1)) ?_ ?_ ?_ ?_ ?_
    (j - (k + 1)) (by omega) (by omega) (by omega) (by omega)
  · refine same.trans (value ?_)
    rw [← there]
    congr 1
    omega
  · rw [Int.mul_zero, Int.add_zero]
    exact (value found).symm
  · rw [Int.mul_one]
    exact next
  · rw [Int.mul_neg_one, previous]
    congr 1
    omega
  · intro t _ _
    rcases sign with rfl | rfl
    · rw [show i + 1 * t = i + t by omega, show i + 1 * (t + 1) = i + t + 1 by omega,
        show i + 1 * (t - 1) = i + t - 1 by omega]
      exact ⟨round.next_near _, round.previous_near _, round.previous_ne_next two _⟩
    · rw [show i + -1 * t = i - t by omega, show i + -1 * (t + 1) = i - t - 1 by omega,
        show i + -1 * (t - 1) = i - t + 1 by omega]
      exact ⟨round.previous_near _, round.next_near _, (round.previous_ne_next two _).symm⟩
  · intro t v low high edge
    obtain ⟨q, rfl⟩ : ∃ q : Nat, t = q - k := ⟨(t + k).toNat, by omega⟩
    have here : (k + 1 + ((q : Int) - k)).toNat = q + 1 := by omega
    have before : (k + 1 + ((q : Int) - k - 1)).toNat = q := by omega
    have after : (k + 1 + ((q : Int) - k + 1)).toNat = q + 2 := by omega
    rw [here] at edge
    rw [before, after]
    exact (complete.turns q _ _ _ (at_ (by omega)) (at_ (by omega)) (at_ (by omega))).2.2.2 v edge

/-- A point that is dropped lies at a step between two points that are kept, with none in between. -/
theorem exists_gap (looked : ∀ chain ∈ chains, ∃ coords, chain.mapM (index s.coordinates) = .ok coords)
    {i j : Int} (kept : around points j ∈ keep) (dropped : around points i ∉ keep) :
    ∃ a b, a < b ∧ around points a ∈ keep ∧ around points b ∈ keep ∧
      (∀ k, a < k → k < b → around points k ∉ keep) ∧
      WithinStep s tolerance (around points i) (around points a, around points b) := by
  have two : 2 ≤ points.length := by
    have length := List.length_pos_of_ne_nil round.some_
    by_contra one
    have same : points.length = 1 := by omega
    rw [around, same, Int.natCast_one, Int.emod_one] at kept dropped
    exact dropped kept
  rcases round.reached areChains keeps kept with start | inside
  · exact absurd (mem_keep_of_mem_cuts areChains keeps kept start) dropped
  · obtain ⟨chain, mem, inside⟩ := List.mem_flatMap.mp inside
    obtain ⟨k, lt, found⟩ := mem_inner.mp inside
    obtain ⟨coords, hcoords⟩ := looked chain mem
    obtain ⟨a, b, x, y, ak, kb, hx, hy, keptx, kepty, none_, within⟩ :=
      exists_chord areChains keeps mem hcoords lt found dropped
    obtain ⟨σ, sign, same⟩ := round.agrees areChains two mem lt found
    have bound := (List.getElem?_eq_some_iff.mp hy).1
    -- Between the ends of the chord the walk passes the points of the chain.
    have between_ : ∀ t : Int, a < t + (k + 1) → t + (k + 1) < b → around points (i + σ * t) ∉ keep := by
      intro t low high
      obtain ⟨q, hq⟩ : ∃ q : Nat, (q : Int) = t + (k + 1) := ⟨(t + (k + 1)).toNat, by omega⟩
      have there := List.getElem?_eq_getElem (l := chain) (show q < chain.length by omega)
      have e := same q _ there
      rw [show (q : Int) - (k + 1) = t by omega] at e
      rw [e]
      exact none_ q _ (by omega) (by omega) there
    have ex := same a x hx
    have ey := same b y hy
    rcases sign with rfl | rfl
    · refine ⟨i + 1 * (a - (k + 1)), i + 1 * (b - (k + 1)), by omega, ex ▸ keptx, ey ▸ kepty, ?_, ?_⟩
      · intro t low high
        have e := between_ (t - i) (by omega) (by omega)
        rwa [show i + 1 * (t - i) = t by omega] at e
      · rw [ex, ey]
        exact within
    · refine ⟨i + -1 * (b - (k + 1)), i + -1 * (a - (k + 1)), by omega, ey ▸ kepty, ex ▸ keptx, ?_, ?_⟩
      · intro t low high
        have e := between_ (i - t) (by omega) (by omega)
        rwa [show i + -1 * (i - t) = t by omega] at e
      · rw [ex, ey]
        obtain ⟨p, u, w, hp, hu, hw, within⟩ := within
        exact ⟨p, w, u, hp, hw, hu, within.symm⟩

end Round

/-! ## The loops that are left -/

theorem thin_eq (keep loop : List Int) : thin keep loop =
    if loop.dropLast.filter (· ∈ keep) = [] then loop else closeUp (loop.dropLast.filter (· ∈ keep)) := by
  unfold thin
  cases loop.dropLast.filter (· ∈ keep) with
  | nil => rfl
  | cons first rest => rfl

/-- What thinning makes of a loop. -/
structure Thinned (s : Structure Rat) (tolerance : Rat) (loop thinned : List Int) : Prop where
  near : ∀ v ∈ loop, ∃ step ∈ steps thinned, WithinStep s tolerance v step
  subsequence : thinned.dropLast.Sublist loop.dropLast
  closed : Closed thinned

theorem closed_closeUp {points : List Int} (some_ : points ≠ []) :
    Closed (closeUp points) ∧ (closeUp points).dropLast = points := by
  obtain ⟨point, points, rfl⟩ := List.exists_cons_of_ne_nil some_
  have form : closeUp (point :: points) = point :: points ++ [point] := rfl
  refine ⟨⟨⟨point, rfl, ?_⟩, ?_⟩, ?_⟩
  · rw [form, List.getLast?_concat]
  · simp [closeUp]
  · rw [form, List.dropLast_concat]

theorem withinStep_self {points : List Int} (round : Round segments points) (are : AreSegments s segments)
    (given : PointsGiven s) (tolerance : Rat) {u v : Int} (hu : u ∈ points) (hv : v ∈ points) :
    WithinStep s tolerance u (u, v) := by
  have inside : ∀ w ∈ points, ∃ p, index s.coordinates w = .ok p := by
    intro w mem
    obtain ⟨i, rfl⟩ := exists_around mem
    have edge := round.next_near (i - 1)
    rw [Int.sub_add_cancel] at edge
    obtain ⟨p, -, there⟩ := index_of_inRange (inRange_of_near are given edge)
    exact ⟨p, there⟩
  obtain ⟨p, hp⟩ := inside u hu
  obtain ⟨q, hq⟩ := inside v hv
  exact ⟨p, p, q, hp, hp, hq, within_self tolerance p q⟩

theorem thinned_thin (are : AreSegments s segments) (given : PointsGiven s)
    (areChains : AreChains (neighboursOf segments) (cuts segments) chains)
    (keeps : Keeps s segments tolerance chains keep) {region : Int} {loops : List (List Int)}
    (closed : RegionClosed segments region loops) {loop : List Int} (mem : loop ∈ loops) :
    Thinned s tolerance loop (thin keep loop) := by
  have round := round_of_closed closed mem
  obtain ⟨some_, form⟩ := closeUp_dropLast (closed.closed loop mem)
  have points : ∀ v ∈ loop, v ∈ loop.dropLast := by
    intro v hv
    rw [← form, closeUp, List.mem_append] at hv
    exact hv.elim id fun h => List.mem_of_mem_take h
  -- A point has a step of a closed walk through it.
  have own : ∀ {walk : List Int}, walk ≠ [] → walk ⊆ loop.dropLast → ∀ v ∈ walk,
      ∃ step ∈ steps (closeUp walk), WithinStep s tolerance v step := by
    intro walk nonempty subset v hv
    obtain ⟨i, rfl⟩ := exists_around hv
    exact ⟨_, mem_steps_closeUp nonempty i, withinStep_self round are given tolerance
      (subset (around_mem nonempty i)) (subset (around_mem nonempty (i + 1)))⟩
  rw [thin_eq]
  split
  · refine ⟨fun v hv => ?_, List.Sublist.refl _, closed.closed loop mem⟩
    have step := own some_ (List.Subset.refl _) v (points v hv)
    rwa [form] at step
  · rename_i left
    obtain ⟨closed', dropLast⟩ := closed_closeUp left
    refine ⟨fun v hv => ?_, ?_, closed'⟩
    · by_cases kept : v ∈ keep
      · exact own left (List.filter_sublist).subset v (List.mem_filter.mpr ⟨points v hv, decide_eq_true kept⟩)
      · obtain ⟨i, rfl⟩ := exists_around (points v hv)
        obtain ⟨w, hw⟩ := List.exists_mem_of_ne_nil _ left
        obtain ⟨hw, here⟩ := List.mem_filter.mp hw
        obtain ⟨j, rfl⟩ := exists_around hw
        obtain ⟨a, b, lt, ha, hb, none_, within⟩ := round.exists_gap areChains keeps
          (fun chain hchain => exists_mapM_chain are given (areChains.each chain hchain).1
            (areChains.each chain hchain).2) (of_decide_eq_true here) kept
        refine ⟨_, mem_steps_filter lt (decide_eq_true ha) (decide_eq_true hb) ?_ some_, within⟩
        intro k low high
        simpa using none_ k low high
    · rw [dropLast]
      exact List.filter_sublist

/-- Thinning a mesh that conforms drops no point at which other than two kept segments end, or two of
different kinds, and moves no loop by more than the tolerance. -/
theorem simplifyBoundary_within (flat : Flat s) (conforming : ConformingMesh s.elements (Names s))
    (enclosed : Enclosed s.elements) (given : PointsGiven s) (pos : 0 < tolerance) :
    ∃ segments found keep, constrainedSegments s = .ok segments ∧ regionLoops s = .ok found ∧
      simplifyBoundary s tolerance = .ok keep ∧
      (∀ v, 0 < degree (segments.map Segment.ends) v → degree (segments.map Segment.ends) v ≠ 2 → v ∈ keep) ∧
      (∀ x ∈ segments, ∀ y ∈ segments, ∀ v, x.At v → y.At v → x.signature ≠ y.signature → v ∈ keep) ∧
      ∀ entry ∈ found, ∀ loop ∈ entry.2, Thinned s tolerance loop (thin keep loop) := by
  obtain ⟨segments, kept, are⟩ := constrainedSegments_spec flat
  obtain ⟨found, loops, closed⟩ := exists_allClosed conforming enclosed kept are
  obtain ⟨chains, keep, -, simplified, areChains, keeps⟩ := simplifyBoundary_spec kept are given pos
  refine ⟨segments, found, keep, kept, loops, simplified, ?_, ?_, ?_⟩
  · intro v some_ other
    exact (keeps v).mpr (Or.inl (mem_fixedPoints_of_degree some_ other))
  · intro x hx y hy v vx vy ne
    exact (keeps v).mpr (Or.inl (mem_fixedPoints_of_kinds hx hy vx vy ne))
  · intro entry hentry loop hloop
    exact thinned_thin are given areChains keeps (closed.closed entry hentry) hloop

/-- Two triangles with a point in the middle of their common base. -/
def gable : Structure Rat where
  version := ""
  dimension := 2
  verticesPerElement := 3
  neighborsPerElement := 3
  coordinates := [⟨1, 0, 0⟩, ⟨2, 1, 0⟩, ⟨3, 2, 0⟩, ⟨4, 1, 1⟩]
  regions := [⟨1, 3, "silicon"⟩]
  elements := [⟨1, 1, [0, 1, 3], [1, -1022, -1022], [-1, -1]⟩,
    ⟨2, 1, [1, 2, 3], [-1022, 0, -1022], [-1, -1]⟩]
  solutions := []
  species := []
  temperature := none
  warnings := []

theorem simplifyBoundary_within_gable : ∃ segments found keep, constrainedSegments gable = .ok segments ∧
    regionLoops gable = .ok found ∧ simplifyBoundary gable (1 / 10) = .ok keep ∧
    (∀ v, 0 < degree (segments.map Segment.ends) v → degree (segments.map Segment.ends) v ≠ 2 → v ∈ keep) ∧
    (∀ x ∈ segments, ∀ y ∈ segments, ∀ v, x.At v → y.At v → x.signature ≠ y.signature → v ∈ keep) ∧
    ∀ entry ∈ found, ∀ loop ∈ entry.2, Thinned gable (1 / 10) loop (thin keep loop) :=
  simplifyBoundary_within ⟨rfl, rfl, by decide⟩ ⟨by decide, by decide, by decide⟩
    (by unfold Enclosed; decide) (by unfold PointsGiven; decide) (by norm_num)

example : simplifyBoundary gable (1 / 10) = .ok [0, 0, 2, 3] := by decide +kernel

end TcadWebapp.Remesh
