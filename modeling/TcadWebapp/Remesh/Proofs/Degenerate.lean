import TcadWebapp.Remesh.Proofs.Gaps

/-!
# Loops that keep three lines

What is left of a loop has at least three different lines, if chains do not fall together and the loop does not
consist of chains of which a single inner point is left (`exists_three_edges`).
-/

namespace TcadWebapp.Remesh

open StrParser

variable {s : Structure Rat} {segments : List Segment} {tolerance : Rat} {chains : List (List Int)}
  {keep : List Int}

/-- A chain is cut at one inner point, and near the lines from there to both of its ends. -/
def CutOnce (s : Structure Rat) (tolerance : Rat) (chain : List Int) : Prop :=
  ∃ points k, chain.mapM (index s.coordinates) = .ok points ∧
    cut (offsetAt points) (-1) (tolerance ^ 2) 0 (chain.length - 1) = some k ∧
    cut (offsetAt points) (-1) (tolerance ^ 2) 0 k = none ∧
    cut (offsetAt points) (-1) (tolerance ^ 2) k (chain.length - 1) = none

/-- A chain from a point back to it of which one more point is left. -/
structure Spike (s : Structure Rat) (tolerance : Rat) (chain : List Int) : Prop where
  closed : chain.head? = chain.getLast?
  once : CutOnce s tolerance chain

/-- A loop is no more than one spike or two. -/
def OfSpikes (s : Structure Rat) (tolerance : Rat) (chains : List (List Int)) (loop : List Int) : Prop :=
  ∃ chain ∈ chains, ∃ other ∈ chains, Spike s tolerance chain ∧ Spike s tolerance other ∧
    ∀ pair ∈ stepPairs loop, pair ∈ stepPairs chain ∨ pair ∈ stepPairs other

theorem cutOnce_of_kept (areChains : AreChains (neighboursOf segments) (cuts segments) chains)
    (keeps : Keeps s segments tolerance chains keep) {chain : List Int} (mem : chain ∈ chains)
    {points : List (Coordinate Rat)} (looked : chain.mapM (index s.coordinates) = .ok points) {k : Nat}
    {v : Int} (lt : k + 2 < chain.length) (found : chain[k + 1]? = some v) (kept : v ∈ keep)
    (only : ∀ j w, j + 2 < chain.length → chain[j + 1]? = some w → w ∈ keep → j = k) :
    CutOnce s tolerance chain := by
  have low := neg_one_le_sq tolerance
  -- What is cut is kept, and there is one inner place that is.
  have one : ∀ j ∈ splits (offsetAt points) (-1) (tolerance ^ 2) 0 (chain.length - 1), j = k + 1 := by
    intro j hj
    have inside := mem_splits low hj
    obtain ⟨w, hw, there⟩ := mem_keep_of_mem_taken areChains keeps mem looked
      (List.mem_cons_of_mem _ (List.mem_cons_of_mem _ hj))
    obtain ⟨i, rfl⟩ : ∃ i, j = i + 1 := ⟨j - 1, by omega⟩
    rw [only i w (by omega) hw there]
  have taken_ := mem_taken_of_inner areChains keeps mem looked lt found kept
  have here : k + 1 ∈ splits (offsetAt points) (-1) (tolerance ^ 2) 0 (chain.length - 1) := by
    rcases List.mem_cons.mp taken_ with no | taken_
    · cases no
    · rcases List.mem_cons.mp taken_ with no | taken_
      · omega
      · exact taken_
  cases far : cut (offsetAt points) (-1) (tolerance ^ 2) 0 (chain.length - 1) with
  | none =>
    rw [splits_of_none far] at here
    cases here
  | some j =>
    rw [splits_of_some low far] at one
    have first := one j List.mem_cons_self
    refine ⟨points, j, looked, far, ?_, ?_⟩
    · cases again : cut (offsetAt points) (-1) (tolerance ^ 2) 0 j with
      | none => rfl
      | some i =>
        have inside := cut_mem low again
        have := one i (List.mem_cons_of_mem _ (List.mem_append_right _ (by
          rw [splits_of_some low again]
          exact List.mem_cons_self)))
        omega
    · cases again : cut (offsetAt points) (-1) (tolerance ^ 2) j (chain.length - 1) with
      | none => rfl
      | some i =>
        have inside := cut_mem low again
        have := one i (List.mem_cons_of_mem _ (List.mem_append_left _ (by
          rw [splits_of_some low again]
          exact List.mem_cons_self)))
        omega

/-- Every edge of a loop is passed in the round that begins at a place. -/
theorem Round.exists_edgeAt {points : List Int} (round : Round segments points) (i : Int) {pair : Int × Int}
    (mem : pair ∈ stepPairs (closeUp points)) :
    ∃ q, i ≤ q ∧ q < i + points.length ∧ edgeAt points q = pair := by
  have length := List.length_pos_of_ne_nil round.some_
  obtain ⟨⟨u, v⟩, step, rfl⟩ := List.mem_map.mp (show pair ∈ (steps (closeUp points)).map pairOf from mem)
  obtain ⟨k, -, rfl, rfl⟩ := exists_of_mem_steps_closeUp round.some_ step
  -- The place in that round.
  have low := Int.emod_nonneg (k - i) (by omega : (points.length : Int) ≠ 0)
  have high := Int.emod_lt_of_pos (k - i) (by omega : 0 < (points.length : Int))
  refine ⟨i + (k - i) % points.length, by omega, by omega, ?_⟩
  have same : (i + (k - i) % points.length) % points.length = ((k : Nat) : Int) % points.length := by
    rw [Int.add_emod_emod]
    congr 1
    omega
  have next : (i + (k - i) % points.length + 1) % points.length = ((k : Int) + 1) % points.length := by
    rw [Int.add_emod, same, ← Int.add_emod]
  rw [edgeAt, around_congr same, around_congr next]
  rfl

/-- The kept points of a loop and the gaps between them. -/
theorem exists_gaps {points : List Int} (left : points.filter (· ∈ keep) ≠ []) :
    ∃ place : Int → Int, StrictMono place ∧
      (∀ t n, place (t + (points.filter (· ∈ keep)).length * n) = place t + points.length * n) ∧
      (∀ t, around (points.filter (· ∈ keep)) t = around points (place t)) ∧
      ∀ t, Gap points keep (place t) (place (t + 1)) := by
  obtain ⟨place, mono, rounds, at_, all⟩ := exists_places left
  refine ⟨place, mono, rounds, fun t => (at_ t).1, fun t => ?_⟩
  refine ⟨mono (by omega), of_decide_eq_true (at_ t).2, of_decide_eq_true (at_ (t + 1)).2, ?_⟩
  intro k low high there
  obtain ⟨v, rfl⟩ := all k (decide_eq_true there)
  have := mono.lt_iff_lt.mp low
  have := mono.lt_iff_lt.mp high
  omega

section Turns

variable (are : AreSegments s segments) (given : PointsGiven s)
  (areChains : AreChains (neighboursOf segments) (cuts segments) chains)
  (keeps : Keeps s segments tolerance chains keep) (noLoops : NoLoops segments) {points : List Int}
  (round : Round segments points)

include are given areChains keeps noLoops round

/-- Where a loop comes back from a loose point to where it came from, it goes along a spike. -/
theorem spike_of_turn {h i j : Int} (before : Gap points keep h i) (after : Gap points keep i j)
    (loose : around points i ∉ cuts segments) (same : around points h = around points j) :
    ∃ chain ∈ chains, Spike s tolerance chain ∧
      ∀ q, h ≤ q → q < j → edgeAt points q ∈ stepPairs chain := by
  have hi := before.lt
  have ij := after.lt
  have inside := (round.reached areChains keeps after.first (i := i)).resolve_left loose
  obtain ⟨chain, mem, inside⟩ := List.mem_flatMap.mp inside
  obtain ⟨k, lt, found⟩ := mem_inner.mp inside
  obtain ⟨σ, o, follows, e⟩ := round.follows areChains noLoops mem lt found
  obtain ⟨complete, length⟩ := areChains.each chain mem
  obtain ⟨coords, looked⟩ := exists_mapM_chain are given complete length
  have ends : ∀ m : Nat, (m = 0 ∨ m + 1 = chain.length) → around points (o + σ * m) ∈ keep := by
    intro m end_
    have there := List.getElem?_eq_getElem (l := chain) (show m < chain.length by omega)
    rw [follows.same m _ there]
    exact mem_keep_of_mem_cuts areChains keeps after.first (cut_of_end areChains mem there end_)
  have outside : ∀ m, around points m ∈ keep → m ≤ h ∨ m = i ∨ j ≤ m := by
    intro m kept
    by_contra inside
    push Not at inside
    rcases lt_or_gt_of_ne inside.2.1 with less | more
    · exact before.dropped m (by omega) less kept
    · exact after.dropped m more (by omega) kept
  have one := outside _ (ends 0 (Or.inl rfl))
  have two := outside _ (ends (chain.length - 1) (Or.inr (by omega)))
  -- The places of the chain before and after are both of the same point, and so its ends.
  obtain ⟨a, b, ha, hb, eh, ej, ne⟩ : ∃ a b : Nat, a < chain.length ∧ b < chain.length ∧ h = o + σ * a ∧
      j = o + σ * b ∧ a ≠ b := by
    rcases follows.sign with rfl | rfl
    · exact ⟨(h - o).toNat, (j - o).toNat, by omega, by omega, by omega, by omega, by omega⟩
    · exact ⟨(o - h).toNat, (o - j).toNat, by omega, by omega, by omega, by omega, by omega⟩
  have va := List.getElem?_eq_getElem ha
  have vb := List.getElem?_eq_getElem hb
  rw [← follows.same a _ va, ← eh] at va
  rw [← follows.same b _ vb, ← ej, ← same] at vb
  have places : (a = 0 ∧ b + 1 = chain.length) ∨ (b = 0 ∧ a + 1 = chain.length) := by
    rcases Nat.lt_or_gt_of_ne ne with less | more
    · exact Or.inl (places_of_twice areChains mem less va vb)
    · exact Or.inr (places_of_twice areChains mem more vb va)
  refine ⟨chain, mem, ⟨?_, ?_⟩, fun q low high => ?_⟩
  · rcases places with ⟨rfl, last⟩ | ⟨rfl, last⟩
    · rw [List.head?_eq_getElem?, va, length_of_getLast? last vb]
    · rw [List.head?_eq_getElem?, vb, length_of_getLast? last va]
  · refine cutOnce_of_kept areChains keeps mem looked lt found after.first ?_
    intro m w less there kept
    rw [← follows.same (m + 1) w there] at kept
    have := outside _ kept
    rcases follows.sign with rfl | rfl
    · omega
    · omega
  · refine follows.mem_stepPairs_iff.mpr ⟨q, ?_, rfl⟩
    rcases follows.sign with rfl | rfl
    · exact Or.inl ⟨rfl, by omega, by omega⟩
    · exact Or.inr ⟨rfl, by omega, by omega⟩

variable (spread : Spread s segments chains tolerance)

include spread

/-- If fewer than three different edges are left, the loop goes along one spike or two. -/
theorem ofSpikes_of_few (left : points.filter (· ∈ keep) ≠ [])
    (few : ¬ ∃ x ∈ steps (closeUp (points.filter (· ∈ keep))), ∃ y ∈ steps (closeUp (points.filter (· ∈ keep))),
      ∃ z ∈ steps (closeUp (points.filter (· ∈ keep))), pairOf x ≠ pairOf y ∧ pairOf y ≠ pairOf z ∧
        pairOf x ≠ pairOf z) : OfSpikes s tolerance chains (closeUp points) := by
  obtain ⟨place, mono, rounds, at_, gap⟩ := exists_gaps left
  have length := List.length_pos_of_ne_nil left
  revert few length rounds at_
  generalize points.filter (· ∈ keep) = kept at *
  intro few rounds at_ length
  -- Places that are the same up to rounds are so among the kept points.
  have rounds' : ∀ {t u : Int}, place t % points.length = place u % points.length →
      ∃ n, u = t + kept.length * n := by
    intro t u same
    obtain ⟨n, e⟩ := Int.ModEq.dvd same
    refine ⟨n, mono.injective ?_⟩
    rw [rounds]
    omega
  have once : ∀ {t u : Int}, around points (place t) ∉ cuts segments →
      around points (place t) = around points (place u) → ∃ n, u = t + kept.length * n :=
    fun {t u} loose same => rounds' (round.once_inner areChains keeps noLoops (gap t).first loose same)
  have unique : ∀ {t u : Int}, around points (place t) ∈ cuts segments →
      around points (place (t + 1)) ∈ cuts segments →
      edgePair (around points (place t)) (around points (place (t + 1))) =
        edgePair (around points (place u)) (around points (place (u + 1))) → ∃ n, u = t + kept.length * n :=
    fun {t u} one two same => rounds' ((gap t).unique are given areChains keeps noLoops round spread
      (gap u) one two same)
  -- All edges of the loop are passed in one round from any place.
  have covered : ∀ {i : Int} {chain other : List Int}, chain ∈ chains → other ∈ chains →
      Spike s tolerance chain → Spike s tolerance other → (∀ q, i ≤ q → q < i + points.length →
        edgeAt points q ∈ stepPairs chain ∨ edgeAt points q ∈ stepPairs other) →
      OfSpikes s tolerance chains (closeUp points) := by
    intro i chain other mem mem' spike spike' pairs
    refine ⟨chain, mem, other, mem', spike, spike', fun pair hpair => ?_⟩
    obtain ⟨q, low, high, rfl⟩ := round.exists_edgeAt i hpair
    exact pairs q low high
  have spike : ∀ t, around points (place t) ∉ cuts segments →
      around points (place (t - 1)) = around points (place (t + 1)) → ∃ chain ∈ chains,
        Spike s tolerance chain ∧ ∀ q, place (t - 1) ≤ q → q < place (t + 1) → edgeAt points q ∈ stepPairs chain :=
    fun t loose back => by
      have before := gap (t - 1)
      rw [Int.sub_add_cancel] at before
      exact spike_of_turn are given areChains keeps noLoops round before (gap t) loose back
  have alternate := @spikes_of_few Int _ edgePair (fun t => around points (place t))
    (fun same => edgePair_eq_iff.mp same)
    (fun t => (gap t).ne are given areChains keeps noLoops round spread) ?_ kept.length length (fun v => v ∉ cuts segments)
    ?_ edgePair_comm once fun {t u} one two => unique (not_not.mp one) (not_not.mp two)
  · rcases alternate with ⟨two, t, loose, back⟩ | ⟨four, t, loose, loose', first, second⟩
    · obtain ⟨chain, mem, is, edges⟩ := spike t loose back
      refine @covered (place (t - 1)) chain chain mem mem is is fun q low high => Or.inl (edges q low ?_)
      have next := rounds (t - 1) 1
      rw [two, show t - 1 + ((2 : Nat) : Int) * 1 = t + 1 by omega, Int.mul_one] at next
      omega
    · have before : t + 2 - 1 = t + 1 := by omega
      have after : t + 2 + 1 = t + 3 := by omega
      obtain ⟨chain, mem, is, edges⟩ := spike t loose first
      obtain ⟨other, mem', is', edges'⟩ := spike (t + 2) loose' (by rw [before, after, second])
      rw [before, after] at edges'
      have next := rounds (t - 1) 1
      rw [four, show t - 1 + ((4 : Nat) : Int) * 1 = t + 3 by omega, Int.mul_one] at next
      refine @covered (place (t - 1)) chain other mem mem' is is' fun q low high => ?_
      rcases lt_or_ge q (place (t + 1)) with less | more
      · exact Or.inl (edges q low less)
      · exact Or.inr (edges' q more (by omega))
  · rintro ⟨t, u, v, tu, uv, tv⟩
    have step : ∀ t, (around points (place t), around points (place (t + 1))) ∈ steps (closeUp kept) := by
      intro t
      rw [← at_ t, ← at_ (t + 1)]
      exact mem_steps_closeUp (List.ne_nil_of_length_pos length) t
    exact few ⟨_, step t, _, step u, _, step v, tu, uv, tv⟩
  · intro t n
    rw [rounds, around_add_mul]

/-- A line of a loop that is thinned has two ends. -/
theorem ne_of_mem_thin {loop : List Int} (form : closeUp points = loop) (dropLast : loop.dropLast = points)
    {u v : Int} (mem : (u, v) ∈ steps (thin keep loop)) : u ≠ v := by
  rw [thin_eq, dropLast] at mem
  split at mem
  · rw [← form] at mem
    obtain ⟨i, -, rfl, rfl⟩ := exists_of_mem_steps_closeUp round.some_ mem
    exact round.ne_next noLoops i
  · rename_i left
    obtain ⟨place, -, -, at_, gap⟩ := exists_gaps left
    obtain ⟨t, -, rfl, rfl⟩ := exists_of_mem_steps_closeUp left mem
    rw [at_, at_]
    exact (gap t).ne are given areChains keeps noLoops round spread

/-- A loop that is thinned has three different lines, if it is more than one spike or two. -/
theorem exists_three_of_thin {loop : List Int} (form : closeUp points = loop)
    (dropLast : loop.dropLast = points) (more : ¬ OfSpikes s tolerance chains loop) :
    ∃ x ∈ steps (thin keep loop), ∃ y ∈ steps (thin keep loop), ∃ z ∈ steps (thin keep loop),
      pairOf x ≠ pairOf y ∧ pairOf y ≠ pairOf z ∧ pairOf x ≠ pairOf z := by
  rw [thin_eq, dropLast]
  split
  · -- Nothing is dropped, and no edge is passed twice.
    have three := round.three noLoops
    have step := mem_steps_closeUp round.some_
    rw [form] at step
    have apart : ∀ i j : Int, 0 ≤ i → i < j → j < 3 → pairOf (around points i, around points (i + 1)) ≠
        pairOf (around points j, around points (j + 1)) := by
      intro i j low lt high same
      have := @emod_eq_of_step Int _ points _ pairOf round.some_ round.once i j same
      rw [Int.emod_eq_of_lt (by omega) (by omega), Int.emod_eq_of_lt (by omega) (by omega)] at this
      omega
    exact ⟨_, step 0, _, step 1, _, step 2, apart 0 1 (by omega) (by omega) (by omega),
      apart 1 2 (by omega) (by omega) (by omega), apart 0 2 (by omega) (by omega) (by omega)⟩
  · rename_i left
    by_contra few
    rw [← form] at more
    exact more (ofSpikes_of_few are given areChains keeps noLoops round spread left few)

end Turns

end TcadWebapp.Remesh
