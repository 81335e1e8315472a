import Mathlib.Tactic.LinearCombination
import TcadWebapp.Remesh.Proofs.Thinning

/-!
# The gaps of a loop

A loop that is thinned is cut at the points that are kept. Between two of them it goes along a segment or along
a stretch of a chain, and between two fixed points along a whole one.
-/

namespace TcadWebapp.Remesh

open StrParser

variable {s : Structure Rat} {segments : List Segment} {tolerance : Rat} {chains : List (List Int)}
  {keep : List Int}

/-! ## Straight chains -/

/-- A chain is within the tolerance of the line between its ends. -/
def Straight (s : Structure Rat) (tolerance : Rat) (chain : List Int) : Prop :=
  ∀ first last, chain.head? = some first → chain.getLast? = some last →
    ∀ v ∈ chain, WithinStep s tolerance v (first, last)

/-- No point of a line is nearer than the one that `_offset` takes. -/
theorem offsetSq_le {point a b : Coordinate Rat} (h : Within tolerance point a b) :
    offsetSq point a b ≤ tolerance ^ 2 := by
  obtain ⟨t, pos, le, near_⟩ := h
  refine le_trans ?_ near_
  unfold offsetSq
  dsimp only
  split
  · rename_i zero
    have dx : b.x - a.x = 0 := by nlinarith [sq_nonneg (b.x - a.x), sq_nonneg (b.y - a.y)]
    have dy : b.y - a.y = 0 := by nlinarith [sq_nonneg (b.x - a.x), sq_nonneg (b.y - a.y)]
    rw [dx, dy, mul_zero, add_zero, add_zero]
  · rename_i some_
    have length : 0 < (b.x - a.x) * (b.x - a.x) + (b.y - a.y) * (b.y - a.y) :=
      lt_of_le_of_ne (add_nonneg (mul_self_nonneg _) (mul_self_nonneg _)) (Ne.symm some_)
    -- The foot of the perpendicular, from which the parameters of both points are measured.
    obtain ⟨foot, at_⟩ : ∃ foot, foot = ((point.x - a.x) * (b.x - a.x) + (point.y - a.y) * (b.y - a.y)) /
        ((b.x - a.x) * (b.x - a.x) + (b.y - a.y) * (b.y - a.y)) := ⟨_, rfl⟩
    have project := (eq_div_iff some_).mp at_
    rw [← at_]
    have nearer : (max 0 (min 1 foot) - foot) ^ 2 ≤ (t - foot) ^ 2 := by
      rcases le_total foot 0 with low | high
      · rw [min_eq_right (by linarith), max_eq_left low]
        nlinarith
      · rcases le_total foot 1 with inside | beyond
        · rw [min_eq_right inside, max_eq_right high, sub_self]
          simpa using sq_nonneg (t - foot)
        · rw [min_eq_left beyond, max_eq_right zero_le_one]
          nlinarith
    have measured : ∀ r, (point.x - (a.x + r * (b.x - a.x))) ^ 2 + (point.y - (a.y + r * (b.y - a.y))) ^ 2 =
        ((b.x - a.x) * (b.x - a.x) + (b.y - a.y) * (b.y - a.y)) * (r - foot) ^ 2 +
          ((point.x - a.x) ^ 2 + (point.y - a.y) ^ 2 -
            ((b.x - a.x) * (b.x - a.x) + (b.y - a.y) * (b.y - a.y)) * foot ^ 2) := by
      intro r
      linear_combination 2 * r * project
    rw [measured, measured]
    have scaled := mul_le_mul_of_nonneg_left nearer length.le
    linarith

section Straight

variable (areChains : AreChains (neighboursOf segments) (cuts segments) chains)
  (keeps : Keeps s segments tolerance chains keep)

include areChains

theorem place_of_cut {chain : List Int} (mem : chain ∈ chains) {k : Nat} {v : Int}
    (found : chain[k]? = some v) (cut_ : v ∈ cuts segments) : k = 0 ∨ k + 1 = chain.length := by
  by_contra neither
  push Not at neither
  have lt := (List.getElem?_eq_some_iff.mp found).1
  obtain ⟨j, rfl⟩ : ∃ j, k = j + 1 := ⟨k - 1, by omega⟩
  exact (areChains.each chain mem).1.notMem_of_inner (mem_inner.mpr ⟨j, by omega, found⟩) cut_

theorem cut_of_end {chain : List Int} (mem : chain ∈ chains) {k : Nat} {v : Int}
    (found : chain[k]? = some v) (end_ : k = 0 ∨ k + 1 = chain.length) : v ∈ cuts segments := by
  obtain ⟨complete, -⟩ := areChains.each chain mem
  rcases end_ with rfl | last
  · obtain ⟨start, hstart, head⟩ := complete.starts
    rw [List.head?_eq_getElem?, found] at head
    exact Option.some.inj head ▸ hstart
  · obtain ⟨last_, hlast, is⟩ := complete.ends
    rw [length_of_getLast? last found] at is
    exact Option.some.inj is ▸ hlast

/-- A chain comes back to no point but its start, and only at its end. -/
theorem places_of_twice {chain : List Int} (mem : chain ∈ chains) {i j : Nat} {v : Int} (lt : i < j)
    (hi : chain[i]? = some v) (hj : chain[j]? = some v) : i = 0 ∧ j + 1 = chain.length := by
  have bound := (List.getElem?_eq_some_iff.mp hj).1
  by_cases cut_ : v ∈ cuts segments
  · have one := place_of_cut areChains mem hi cut_
    have two := place_of_cut areChains mem hj cut_
    omega
  · have one : ¬ (i = 0 ∨ i + 1 = chain.length) := fun h => cut_ (cut_of_end areChains mem hi h)
    have two : ¬ (j = 0 ∨ j + 1 = chain.length) := fun h => cut_ (cut_of_end areChains mem hj h)
    obtain ⟨a, rfl⟩ : ∃ a, i = a + 1 := ⟨i - 1, by omega⟩
    obtain ⟨b, rfl⟩ : ∃ b, j = b + 1 := ⟨j - 1, by omega⟩
    have := (areChains.unique mem mem (by omega) (by omega) hi hj).2
    omega

include keeps

theorem straight_of_dropped {chain : List Int} (mem : chain ∈ chains) {points : List (Coordinate Rat)}
    (looked : chain.mapM (index s.coordinates) = .ok points) (dropped : ∀ v ∈ inner chain, v ∉ keep) :
    Straight s tolerance chain := by
  intro first last head is v hv
  obtain ⟨k, found⟩ := List.mem_iff_getElem?.mp hv
  have lt := (List.getElem?_eq_some_iff.mp found).1
  have value : ∀ w ∈ chain, ∃ p, index s.coordinates w = .ok p := fun w hw =>
    (exists_of_mem_left (mapM_eq_ok.mp looked) hw).imp fun _ h => h.2
  obtain ⟨p, hp⟩ := value first (List.mem_of_head? head)
  obtain ⟨q, hq⟩ := value last (List.mem_of_getLast? is)
  by_cases end_ : k = 0 ∨ k + 1 = chain.length
  · rcases end_ with rfl | end_
    · rw [List.head?_eq_getElem?, found] at head
      obtain rfl := Option.some.inj head
      exact ⟨p, p, q, hp, hp, hq, within_self _ _ _⟩
    · rw [length_of_getLast? end_ found] at is
      obtain rfl := Option.some.inj is
      exact ⟨q, p, q, hq, hp, hq, (within_self _ _ _).symm⟩
  · obtain ⟨j, rfl⟩ : ∃ j, k = j + 1 := ⟨k - 1, by omega⟩
    have inside : v ∈ inner chain := mem_inner.mpr ⟨j, by omega, found⟩
    obtain ⟨a, b, x, y, aj, jb, hx, hy, keptx, kepty, -, within⟩ :=
      exists_chord areChains keeps mem looked (by omega) found (dropped v inside)
    have ends : ∀ {i : Nat} {z : Int}, chain[i]? = some z → z ∈ keep → i = 0 ∨ i + 1 = chain.length := by
      intro i z hz kept
      have bound := (List.getElem?_eq_some_iff.mp hz).1
      by_contra neither
      push Not at neither
      obtain ⟨m, rfl⟩ : ∃ m, i = m + 1 := ⟨i - 1, by omega⟩
      exact dropped z (mem_inner.mpr ⟨m, by omega, hz⟩) kept
    have one := ends hx keptx
    have two := ends hy kepty
    have bound := (List.getElem?_eq_some_iff.mp hy).1
    obtain rfl : a = 0 := by omega
    rw [List.head?_eq_getElem?, hx] at head
    rw [length_of_getLast? (by omega) hy] at is
    obtain rfl := Option.some.inj head
    obtain rfl := Option.some.inj is
    exact within

theorem dropped_of_straight {chain : List Int} (mem : chain ∈ chains) {points : List (Coordinate Rat)}
    (looked : chain.mapM (index s.coordinates) = .ok points) (straight : Straight s tolerance chain) :
    ∀ v ∈ inner chain, v ∉ keep := by
  intro v inside kept
  obtain ⟨k, lt, found⟩ := mem_inner.mp inside
  have taken_ := mem_taken_of_inner areChains keeps mem looked lt found kept
  have uncut : cut (offsetAt points) (-1) (tolerance ^ 2) 0 (chain.length - 1) = none := by
    cases far : cut (offsetAt points) (-1) (tolerance ^ 2) 0 (chain.length - 1) with
    | none => rfl
    | some j =>
      have inside := cut_mem (neg_one_le_sq tolerance) far
      have more := lt_of_cut_eq_some (neg_one_le_sq tolerance) far
      have at_ : ∀ {i : Nat} {w : Int}, chain[i]? = some w →
          index s.coordinates w = .ok (points.getD i ⟨0, 0, 0⟩) := index_of_looked looked
      have hj := List.getElem?_eq_getElem (l := chain) (show j < chain.length by omega)
      have first := List.getElem?_eq_getElem (l := chain) (show 0 < chain.length by omega)
      have last := List.getElem?_eq_getElem (l := chain) (show chain.length - 1 < chain.length by omega)
      obtain ⟨p, a, b, hp, ha, hb, within⟩ := straight _ _ (List.head?_eq_getElem?.trans first)
        (length_of_getLast? (by omega) last) _ (List.getElem_mem (show j < chain.length by omega))
      obtain rfl := Except.ok.inj ((at_ hj).symm.trans hp)
      obtain rfl := Except.ok.inj ((at_ first).symm.trans ha)
      obtain rfl := Except.ok.inj ((at_ last).symm.trans hb)
      exact absurd (offsetSq_le within) (not_le.mpr more)
  rw [taken, splits_of_none uncut] at taken_
  simp at taken_
  omega

end Straight

/-- The ends of a chain, in either order. -/
def endPair (chain : List Int) : Option (Int × Int) :=
  match chain.head?, chain.getLast? with
  | some first, some last => some (edgePair first last)
  | _, _ => none

/-- The chains between fixed points, also those of one segment. -/
def originals (segments : List Segment) (chains : List (List Int)) : List (List Int) :=
  chains ++ (segments.filter fun g => g.a ∈ cuts segments ∧ g.b ∈ cuts segments).map fun g => [g.a, g.b]

/-! ## Gaps -/

/-- A walk passes the places of a chain one after the other, forwards or backwards. -/
structure Follows (points chain : List Int) (σ o : Int) : Prop where
  sign : σ = 1 ∨ σ = -1
  same : ∀ (k : Nat) (v : Int), chain[k]? = some v → around points (o + σ * k) = v

/-- Two places with kept points, and none in between. -/
structure Gap (points keep : List Int) (i j : Int) : Prop where
  lt : i < j
  first : around points i ∈ keep
  last : around points j ∈ keep
  dropped : ∀ k, i < k → k < j → around points k ∉ keep

/-- The edge that a walk goes along from a place to the next. -/
def edgeAt (points : List Int) (i : Int) : Int × Int := edgePair (around points i) (around points (i + 1))

theorem mem_stepPairs {walk : List Int} {pair : Int × Int} : pair ∈ stepPairs walk ↔
    ∃ (k : Nat) (u v : Int), walk[k]? = some u ∧ walk[k + 1]? = some v ∧ edgePair u v = pair := by
  show pair ∈ (steps walk).map pairOf ↔ _
  rw [List.mem_map]
  constructor
  · rintro ⟨⟨u, v⟩, step, same⟩
    obtain ⟨k, hu, hv⟩ := mem_steps.mp step
    exact ⟨k, u, v, hu, hv, same⟩
  · rintro ⟨k, u, v, hu, hv, same⟩
    exact ⟨(u, v), mem_steps.mpr ⟨k, hu, hv⟩, same⟩

/-- The places at which a walk goes along a chain. -/
def Covered (chain : List Int) (σ o q : Int) : Prop :=
  (σ = 1 ∧ o ≤ q ∧ q + 1 < o + chain.length) ∨ (σ = -1 ∧ o < q + chain.length ∧ q < o)

theorem Follows.mem_stepPairs_iff {points chain : List Int} {σ o : Int} (h : Follows points chain σ o)
    {pair : Int × Int} :
    pair ∈ stepPairs chain ↔ ∃ q, Covered chain σ o q ∧ edgeAt points q = pair := by
  rw [mem_stepPairs]
  constructor
  · rintro ⟨k, u, v, hu, hv, rfl⟩
    have lt := (List.getElem?_eq_some_iff.mp hv).1
    rw [← h.same k u hu, ← h.same (k + 1) v hv]
    rcases h.sign with rfl | rfl
    · refine ⟨o + 1 * k, Or.inl ⟨rfl, by omega, by omega⟩, ?_⟩
      rw [edgeAt, Int.natCast_succ, Int.mul_add, Int.mul_one, Int.add_assoc]
    · refine ⟨o + -1 * (k + 1 : Nat), Or.inr ⟨rfl, by omega, by omega⟩, ?_⟩
      rw [edgeAt, edgePair_comm, show o + -1 * ((k + 1 : Nat) : Int) + 1 = o + -1 * k by omega]
  · rintro ⟨q, covered, rfl⟩
    rcases covered with ⟨rfl, low, high⟩ | ⟨rfl, low, high⟩
    · obtain ⟨k, hk⟩ : ∃ k : Nat, q = o + 1 * k := ⟨(q - o).toNat, by omega⟩
      have hu := List.getElem?_eq_getElem (l := chain) (show k < chain.length by omega)
      have hv := List.getElem?_eq_getElem (l := chain) (show k + 1 < chain.length by omega)
      refine ⟨k, _, _, hu, hv, ?_⟩
      rw [edgeAt, ← h.same k _ hu, ← h.same (k + 1) _ hv, hk,
        show o + 1 * (k : Int) + 1 = o + 1 * ((k + 1 : Nat) : Int) by omega]
    · obtain ⟨k, hk⟩ : ∃ k : Nat, q = o + -1 * (k + 1 : Nat) := ⟨(o - q - 1).toNat, by omega⟩
      have hu := List.getElem?_eq_getElem (l := chain) (show k < chain.length by omega)
      have hv := List.getElem?_eq_getElem (l := chain) (show k + 1 < chain.length by omega)
      refine ⟨k, _, _, hu, hv, ?_⟩
      rw [edgeAt, ← h.same k _ hu, ← h.same (k + 1) _ hv, hk, edgePair_comm,
        show o + -1 * ((k + 1 : Nat) : Int) + 1 = o + -1 * (k : Int) by omega]

/-- No segment ends where it starts. -/
def NoLoops (segments : List Segment) : Prop := ∀ segment ∈ segments, segment.a ≠ segment.b

section Gaps

variable (areChains : AreChains (neighboursOf segments) (cuts segments) chains)
  (keeps : Keeps s segments tolerance chains keep) (noLoops : NoLoops segments) {points : List Int}
  (round : Round segments points)

include noLoops round in
theorem Round.ne_next (i : Int) : around points i ≠ around points (i + 1) := by
  intro same
  have edge := round.next_near i
  rw [(holds_neighboursOf segments).mem_near_iff, ← same, or_self] at edge
  obtain ⟨segment, mem, ends⟩ := List.mem_map.mp edge
  exact noLoops segment mem ((Prod.mk.inj ends).1.trans (Prod.mk.inj ends).2.symm)

include noLoops round in
theorem Round.three : 3 ≤ points.length := by
  have pos := List.length_pos_of_ne_nil round.some_
  have turn := @around_add_mul _ _ points 0 1
  rw [Int.mul_one, Int.zero_add] at turn
  by_contra few
  rcases (by omega : points.length = 1 ∨ points.length = 2) with one | two
  · rw [one] at turn
    exact round.ne_next noLoops 0 turn.symm
  · -- Of two edges the second is the first.
    rw [two] at turn
    have back : pairOf (around points 0, around points (0 + 1)) = pairOf (around points 1, around points (1 + 1)) := by
      rw [show (1 : Int) + 1 = (2 : Nat) from rfl, turn]
      exact edgePair_comm _ _
    have := emod_eq_of_step round.some_ round.once back
    rw [two] at this
    omega

include areChains round noLoops in
theorem Round.follows {chain : List Int} (mem : chain ∈ chains) {k : Nat} {i : Int}
    (lt : k + 2 < chain.length) (found : chain[k + 1]? = some (around points i)) :
    ∃ σ o, Follows points chain σ o ∧ i = o + σ * (k + 1 : Nat) := by
  have three := round.three noLoops
  obtain ⟨σ, sign, same⟩ := round.agrees areChains (by omega) mem lt found
  refine ⟨σ, i - σ * (k + 1 : Nat), ⟨sign, fun j z there => ?_⟩, by omega⟩
  rw [← same j z there]
  congr 1
  rcases sign with rfl | rfl
  · omega
  · omega

include areChains keeps noLoops round

/-- A gap after which a walk goes on to an inner point of a chain, which was dropped, is a stretch of it. -/
theorem Gap.stretch_of {i j : Int} (gap : Gap points keep i j) {chain : List Int} (mem : chain ∈ chains) {k : Nat}
    (lt : k + 2 < chain.length) (found : chain[k + 1]? = some (around points (i + 1))) (long : i + 1 < j) :
    ∃ σ o, Follows points chain σ o ∧ ∃ a b : Nat, a < chain.length ∧ b < chain.length ∧
      i = o + σ * a ∧ j = o + σ * b := by
  obtain ⟨σ, o, follows, e⟩ := round.follows areChains noLoops mem lt found
  refine ⟨σ, o, follows, ?_⟩
  -- The ends of the chain are kept, so that the gap does not go beyond them.
  have ends : ∀ m : Nat, (m = 0 ∨ m + 1 = chain.length) → around points (o + σ * m) ∈ keep := by
    intro m end_
    have there := List.getElem?_eq_getElem (l := chain) (show m < chain.length by omega)
    rw [follows.same m _ there]
    exact mem_keep_of_mem_cuts areChains keeps gap.first (cut_of_end areChains mem there end_)
  have first := ends 0 (Or.inl rfl)
  have last := ends (chain.length - 1) (Or.inr (by omega))
  have outside : ∀ m, around points m ∈ keep → m ≤ i ∨ j ≤ m := by
    intro m kept
    by_contra inside
    exact gap.dropped m (by omega) (by omega) kept
  have one := outside _ first
  have two := outside _ last
  rcases follows.sign with rfl | rfl
  · exact ⟨k, (j - o).toNat, by omega, by omega, by omega, by omega⟩
  · exact ⟨k + 2, (o - j).toNat, by omega, by omega, by omega, by omega⟩

/-- A gap with points that were dropped is a stretch of a chain. -/
theorem Gap.stretch {i j : Int} (gap : Gap points keep i j) (long : i + 1 < j) :
    ∃ chain ∈ chains, ∃ σ o, Follows points chain σ o ∧ ∃ a b : Nat, a < chain.length ∧ b < chain.length ∧
      i = o + σ * a ∧ j = o + σ * b := by
  rcases round.reached areChains keeps gap.first with start | inside
  · exact absurd (mem_keep_of_mem_cuts areChains keeps gap.first start) (gap.dropped (i + 1) (by omega) long)
  · obtain ⟨chain, mem, inside⟩ := List.mem_flatMap.mp inside
    obtain ⟨k, lt, found⟩ := mem_inner.mp inside
    exact ⟨chain, mem, gap.stretch_of areChains keeps noLoops round mem lt found long⟩

/-- A gap between fixed points with dropped points is a whole chain, of which nothing inside is kept. -/
theorem Gap.chain {i j : Int} (gap : Gap points keep i j) (long : i + 1 < j)
    (ends : (around points i ∈ cuts segments ∧ around points j ∈ cuts segments) ∨
      around points i = around points j) :
    ∃ chain ∈ chains, (∀ v ∈ inner chain, v ∉ keep) ∧
      endPair chain = some (edgePair (around points i) (around points j)) ∧
      (around points i = around points j → chain.head? = chain.getLast?) ∧
      ∀ pair, pair ∈ stepPairs chain ↔ ∃ q, i ≤ q ∧ q < j ∧ edgeAt points q = pair := by
  obtain ⟨chain, mem, σ, o, follows, a, b, ha, hb, ei, ej⟩ := gap.stretch areChains keeps noLoops round long
  have lt := gap.lt
  have va := List.getElem?_eq_getElem ha
  have vb := List.getElem?_eq_getElem hb
  have ia := follows.same a _ va
  have jb := follows.same b _ vb
  rw [← ei] at ia
  rw [← ej] at jb
  rw [← ia] at va
  rw [← jb] at vb
  -- Its places are the ends.
  have places : (a = 0 ∧ b + 1 = chain.length) ∨ (b = 0 ∧ a + 1 = chain.length) := by
    have ne : a ≠ b := by
      rintro rfl
      omega
    rcases ends with ⟨cuti, cutj⟩ | same
    · have one := place_of_cut areChains mem va cuti
      have two := place_of_cut areChains mem vb cutj
      omega
    · rcases Nat.lt_or_gt_of_ne ne with less | more
      · exact Or.inl (places_of_twice areChains mem less va (same ▸ vb))
      · exact Or.inr (places_of_twice areChains mem more vb (same ▸ va))
  refine ⟨chain, mem, ?_, ?_, ?_, fun pair => ?_⟩
  · intro v inside
    obtain ⟨k, less, found⟩ := mem_inner.mp inside
    rw [← follows.same (k + 1) v found]
    rcases follows.sign with rfl | rfl
    · exact gap.dropped _ (by omega) (by omega)
    · exact gap.dropped _ (by omega) (by omega)
  · rcases places with ⟨rfl, last⟩ | ⟨rfl, last⟩
    · rw [endPair, List.head?_eq_getElem?, va, length_of_getLast? last vb]
    · rw [endPair, List.head?_eq_getElem?, vb, length_of_getLast? last va]
      exact congrArg some (edgePair_comm _ _)
  · intro same
    rcases places with ⟨rfl, last⟩ | ⟨rfl, last⟩
    · rw [List.head?_eq_getElem?, va, length_of_getLast? last vb, same]
    · rw [List.head?_eq_getElem?, vb, length_of_getLast? last va, same]
  · rw [follows.mem_stepPairs_iff]
    refine exists_congr fun q => ?_
    rw [← and_assoc]
    refine and_congr_left fun _ => ?_
    rw [Covered]
    rcases follows.sign with rfl | rfl
    · constructor
      · rintro (⟨-, low, high⟩ | ⟨no, -⟩)
        · omega
        · omega
      · intro range
        exact Or.inl ⟨rfl, by omega, by omega⟩
    · constructor
      · rintro (⟨no, -⟩ | ⟨-, low, high⟩)
        · omega
        · omega
      · intro range
        exact Or.inr ⟨rfl, by omega, by omega⟩

/-- A walk passes an inner point of a chain once. -/
theorem Round.once_inner {i j : Int} (kept : around points i ∈ keep)
    (loose : around points i ∉ cuts segments) (same : around points i = around points j) :
    i % points.length = j % points.length := by
  have three := round.three noLoops
  have inside := (round.reached areChains keeps kept (i := i)).resolve_left loose
  obtain ⟨chain, mem, inside⟩ := List.mem_flatMap.mp inside
  obtain ⟨k, lt, found⟩ := mem_inner.mp inside
  have before := List.getElem?_eq_getElem (l := chain) (show k < chain.length by omega)
  have only := ((areChains.each chain mem).1.turns k _ _ _ before found (List.getElem?_eq_getElem lt)).2.2.2
  have nexti := only _ (round.next_near i)
  rw [same] at only
  have nextj := only _ (round.next_near j)
  have previousj := only _ (round.previous_near j)
  have ne := round.previous_ne_next (by omega) j
  -- The next point is the one after or the one before the other place.
  have way : around points (i + 1) = around points (j + 1) ∨ around points (i + 1) = around points (j - 1) := by
    grind
  rcases way with next | next
  · exact emod_eq_of_step round.some_ round.once (congrArg pairOf (Prod.ext same next))
  · have back : pairOf (around points i, around points (i + 1)) =
        pairOf (around points (j - 1), around points (j - 1 + 1)) := by
      rw [Int.sub_add_cancel, same, next]
      exact edgePair_comm _ _
    have turn := around_congr (emod_eq_of_step round.some_ round.once back)
    have stay := round.ne_next noLoops (j - 1)
    rw [Int.sub_add_cancel, ← turn] at stay
    exact absurd same stay

end Gaps

/-- Neighbours are the ends of a segment. -/
theorem exists_segment_of_near {u v : Int} (edge : v ∈ near (neighboursOf segments) u) :
    ∃ segment ∈ segments, segment.pair = edgePair u v := by
  rw [(holds_neighboursOf segments).mem_near_iff] at edge
  rcases edge with edge | edge
  · obtain ⟨segment, mem, same⟩ := List.mem_map.mp edge
    obtain ⟨a, b⟩ := Prod.mk.inj same
    exact ⟨segment, mem, by rw [Segment.pair, a, b]⟩
  · obtain ⟨segment, mem, same⟩ := List.mem_map.mp edge
    obtain ⟨a, b⟩ := Prod.mk.inj same
    exact ⟨segment, mem, by rw [Segment.pair, a, b, edgePair_comm]⟩

/-! ## Chains that are far enough apart -/

/-- No chain from a point back to itself stays near it, and of two chains with the same ends one does not stay
near the line between them. -/
structure Spread (s : Structure Rat) (segments : List Segment) (chains : List (List Int)) (tolerance : Rat) :
    Prop where
  closed : ∀ chain ∈ originals segments chains, chain.head? = chain.getLast? → ¬ Straight s tolerance chain
  apart : ∀ chain ∈ originals segments chains, ∀ other ∈ originals segments chains, chain ≠ other →
    endPair chain = endPair other → ¬ (Straight s tolerance chain ∧ Straight s tolerance other)

section Spread

variable (are : AreSegments s segments) (given : PointsGiven s)
  (areChains : AreChains (neighboursOf segments) (cuts segments) chains)
  (keeps : Keeps s segments tolerance chains keep) (noLoops : NoLoops segments) {points : List Int}
  (round : Round segments points)

include are given areChains keeps noLoops round

/-- A gap between fixed points goes along a whole chain that stays near the line between them. -/
theorem Gap.whole {i j : Int} (gap : Gap points keep i j) (cuti : around points i ∈ cuts segments)
    (cutj : around points j ∈ cuts segments) : ∃ chain ∈ originals segments chains,
      Straight s tolerance chain ∧ endPair chain = some (edgePair (around points i) (around points j)) ∧
      ∀ pair, pair ∈ stepPairs chain ↔ ∃ q, i ≤ q ∧ q < j ∧ edgeAt points q = pair := by
  rcases lt_or_ge (i + 1) j with long | short
  · obtain ⟨chain, mem, dropped, ends, -, pairs⟩ :=
      gap.chain areChains keeps noLoops round long (Or.inl ⟨cuti, cutj⟩)
    obtain ⟨complete, length⟩ := areChains.each chain mem
    obtain ⟨coords, looked⟩ := exists_mapM_chain are given complete length
    exact ⟨chain, List.mem_append_left _ mem, straight_of_dropped areChains keeps mem looked dropped, ends, pairs⟩
  · have lt := gap.lt
    obtain rfl : j = i + 1 := by omega
    obtain ⟨segment, mem, pair⟩ : ∃ segment ∈ segments, segment.pair = edgeAt points i :=
      exists_segment_of_near (round.next_near i)
    have ends : (segment.a = around points i ∧ segment.b = around points (i + 1)) ∨
        (segment.a = around points (i + 1) ∧ segment.b = around points i) := edgePair_eq_iff.mp pair
    have cut_ : segment.a ∈ cuts segments ∧ segment.b ∈ cuts segments := by
      rcases ends with ⟨a, b⟩ | ⟨a, b⟩
      · exact ⟨a ▸ cuti, b ▸ cutj⟩
      · exact ⟨a ▸ cutj, b ▸ cuti⟩
    refine ⟨[segment.a, segment.b], List.mem_append_right _ (List.mem_map.mpr ⟨segment,
      List.mem_filter.mpr ⟨mem, decide_eq_true cut_⟩, rfl⟩), ?_, congrArg some pair, fun other => ?_⟩
    · intro first last head is v hv
      obtain rfl := Option.some.inj head
      obtain rfl := Option.some.inj is
      have onWalk : ∀ w, (w = segment.a ∨ w = segment.b) → w ∈ points := by
        rintro w (rfl | rfl)
        · rcases ends with ⟨a, -⟩ | ⟨a, -⟩
          · exact a ▸ around_mem round.some_ _
          · exact a ▸ around_mem round.some_ _
        · rcases ends with ⟨-, b⟩ | ⟨-, b⟩
          · exact b ▸ around_mem round.some_ _
          · exact b ▸ around_mem round.some_ _
      have ha := onWalk segment.a (Or.inl rfl)
      have hb := onWalk segment.b (Or.inr rfl)
      rcases List.mem_cons.mp hv with rfl | hv
      · exact withinStep_self round are given tolerance ha hb
      · obtain rfl := List.mem_singleton.mp hv
        obtain ⟨p, u, w, hp, hu, hw, within⟩ := withinStep_self round are given tolerance hb ha
        exact ⟨p, w, u, hp, hw, hu, within.symm⟩
    · have one : stepPairs [segment.a, segment.b] = [edgeAt points i] := congrArg (fun e => [e]) pair
      rw [one, List.mem_singleton]
      constructor
      · rintro rfl
        exact ⟨i, le_rfl, by omega, rfl⟩
      · rintro ⟨q, low, high, rfl⟩
        rw [show q = i by omega]

variable (spread : Spread s segments chains tolerance)

include spread

/-- The ends of a gap are different points. -/
theorem Gap.ne {i j : Int} (gap : Gap points keep i j) : around points i ≠ around points j := by
  intro same
  have lt := gap.lt
  rcases lt_or_ge (i + 1) j with long | short
  · obtain ⟨chain, mem, dropped, -, closed, -⟩ :=
      gap.chain areChains keeps noLoops round long (Or.inr same)
    obtain ⟨complete, length⟩ := areChains.each chain mem
    obtain ⟨coords, looked⟩ := exists_mapM_chain are given complete length
    exact spread.closed chain (List.mem_append_left _ mem) (closed same)
      (straight_of_dropped areChains keeps mem looked dropped)
  · obtain rfl : j = i + 1 := by omega
    exact round.ne_next noLoops i same

/-- Between two fixed points there is one gap. -/
theorem Gap.unique {i j i' j' : Int} (gap : Gap points keep i j) (gap' : Gap points keep i' j')
    (cuti : around points i ∈ cuts segments) (cutj : around points j ∈ cuts segments)
    (same : edgePair (around points i) (around points j) = edgePair (around points i') (around points j')) :
    i % points.length = i' % points.length := by
  have cut' : around points i' ∈ cuts segments ∧ around points j' ∈ cuts segments := by
    rcases edgePair_eq_iff.mp same with ⟨one, two⟩ | ⟨one, two⟩
    · exact ⟨one ▸ cuti, two ▸ cutj⟩
    · exact ⟨two ▸ cutj, one ▸ cuti⟩
  obtain ⟨chain, mem, straight, ends, pairs⟩ := gap.whole are given areChains keeps noLoops round cuti cutj
  obtain ⟨other, mem', straight', ends', pairs'⟩ :=
    gap'.whole are given areChains keeps noLoops round cut'.1 cut'.2
  have one : chain = other := by
    by_contra ne
    exact spread.apart chain mem other mem' ne (by rw [ends, ends', same]) ⟨straight, straight'⟩
  have edge := (pairs _).mpr ⟨i, le_rfl, gap.lt, rfl⟩
  rw [one] at edge
  obtain ⟨q, low, high, again⟩ := (pairs' _).mp edge
  have turn := @emod_eq_of_step Int _ points _ pairOf round.some_ round.once q i again
  -- A place in the gap with a kept point is its first.
  rcases Int.lt_or_eq_of_le low with inside | rfl
  · have kept := gap.first
    rw [← around_congr turn] at kept
    exact absurd kept (gap'.dropped q inside high)
  · exact turn.symm

end Spread

end TcadWebapp.Remesh
