import TcadWebapp.Misc.Triangles
import TcadWebapp.Remesh.Proofs.Degenerate
import TcadWebapp.Remesh.Proofs.Lines

/-!
# The model for gmsh

Thinning leaves a model without degenerate lines and loops just if no chain collapses and no two
chains fall together (`Spread`), and no loop that gets into a surface consists of spikes
(`wellFormed_iff`).
-/

namespace TcadWebapp.Remesh

open StrParser

variable {s : Structure Rat} {segments : List Segment} {tolerance : Rat} {chains : List (List Int)}
  {keep : List Int} {found : List (Int × List (List Int))}

/-! ## Chains on loops -/

/-- The loops of the regions go along every segment. -/
theorem exists_loop_of_segment (closed : AllClosed segments found) {segment : Segment}
    (mem : segment ∈ segments) : ∃ entry ∈ found, ∃ loop ∈ entry.2, Round segments loop.dropLast ∧
      closeUp loop.dropLast = loop ∧ segment.pair ∈ stepPairs loop := by
  obtain ⟨entry, hentry, region⟩ := List.mem_map.mp
    (closed.each segment mem segment.leftRegion List.mem_cons_self)
  have along := (closed.closed entry hentry).along segment.pair
  obtain ⟨loop, hloop, pair⟩ := List.mem_flatMap.mp
    (along.mpr ⟨segment, mem, region ▸ List.mem_cons_self, rfl⟩)
  exact ⟨entry, hentry, loop, hloop, round_of_closed (closed.closed entry hentry) hloop,
    (closeUp_dropLast ((closed.closed entry hentry).closed loop hloop)).2, pair⟩

section Chains

variable (areChains : AreChains (neighboursOf segments) (cuts segments) chains)

include areChains

/-- Each end of a chain is kept. -/
theorem mem_keep_of_end (are : AreSegments s segments) (given : PointsGiven s)
    (keeps : Keeps s segments tolerance chains keep) {chain : List Int} (mem : chain ∈ chains) {k : Nat}
    {v : Int} (hv : chain[k]? = some v) (end_ : k = 0 ∨ k + 1 = chain.length) : v ∈ keep := by
  obtain ⟨complete, length⟩ := areChains.each chain mem
  obtain ⟨coords, looked⟩ := exists_mapM_chain are given complete length
  have taken_ : k ∈ taken coords tolerance (chain.length - 1) := by
    rcases end_ with rfl | last
    · exact List.mem_cons_self
    · rw [show chain.length - 1 = k by omega]
      exact List.mem_cons_of_mem _ List.mem_cons_self
  obtain ⟨w, hw, kept⟩ := mem_keep_of_mem_taken areChains keeps mem looked taken_
  rw [hv] at hw
  exact Option.some.inj hw ▸ kept

/-- Where a walk goes along a chain it comes to an inner point of it. -/
theorem exists_inner {points chain : List Int} (mem : chain ∈ chains) {i : Int}
    (edge : edgeAt points i ∈ stepPairs chain) : ∃ (k : Nat) (j : Int), k + 2 < chain.length ∧
      chain[k + 1]? = some (around points j) := by
  have length := (areChains.each chain mem).2
  obtain ⟨k, u, v, hu, hv, same⟩ := mem_stepPairs.mp edge
  have onWalk : ∀ w, w = u ∨ w = v → ∃ j, w = around points j := by
    intro w is
    rcases edgePair_eq_iff.mp same with ⟨a, b⟩ | ⟨a, b⟩
    · exact is.elim (fun e => ⟨i, e.trans a⟩) fun e => ⟨i + 1, e.trans b⟩
    · exact is.elim (fun e => ⟨i + 1, e.trans a⟩) fun e => ⟨i, e.trans b⟩
  have lt := (List.getElem?_eq_some_iff.mp hv).1
  by_cases last : k + 2 < chain.length
  · obtain ⟨j, rfl⟩ := onWalk v (Or.inr rfl)
    exact ⟨k, j, last, hv⟩
  · obtain ⟨j, rfl⟩ := onWalk u (Or.inl rfl)
    obtain ⟨m, rfl⟩ : ∃ m, k = m + 1 := ⟨k - 1, by omega⟩
    exact ⟨m, j, by omega, hu⟩

/-- A loop of a region goes along each chain. -/
theorem exists_loop_of_chain (noLoops : NoLoops segments) (closed : AllClosed segments found) {chain : List Int} (mem : chain ∈ chains) :
    ∃ entry ∈ found, ∃ loop ∈ entry.2, Round segments loop.dropLast ∧
      ∃ σ o, Follows loop.dropLast chain σ o := by
  obtain ⟨complete, length⟩ := areChains.each chain mem
  have first := List.getElem?_eq_getElem (l := chain) (show 0 < chain.length by omega)
  have second := List.getElem?_eq_getElem (l := chain) (show 0 + 1 < chain.length by omega)
  have edge := complete.along 0 _ _ first second
  obtain ⟨segment, hsegment, pair⟩ := exists_segment_of_near edge
  obtain ⟨entry, hentry, loop, hloop, round, form, onLoop⟩ :=
    exists_loop_of_segment closed hsegment
  refine ⟨entry, hentry, loop, hloop, round, ?_⟩
  rw [← form] at onLoop
  obtain ⟨q, -, -, same⟩ := round.exists_edgeAt 0 onLoop
  rw [pair, edgeAt, edgePair_eq_iff] at same
  rcases same with ⟨-, here⟩ | ⟨here, -⟩
  · obtain ⟨σ, o, follows, -⟩ := round.follows areChains noLoops mem (by omega) (second.trans (congrArg some here.symm))
    exact ⟨σ, o, follows⟩
  · obtain ⟨σ, o, follows, -⟩ := round.follows areChains noLoops mem (by omega) (second.trans (congrArg some here.symm))
    exact ⟨σ, o, follows⟩

end Chains

/-! ## What is left of a loop -/

theorem mem_closeUp {points : List Int} {v : Int} : v ∈ closeUp points ↔ v ∈ points := by
  rw [closeUp, List.mem_append]
  exact or_iff_left_of_imp List.mem_of_mem_take

theorem mem_thin_iff {loop : List Int} (form : closeUp loop.dropLast = loop)
    (left : loop.dropLast.filter (· ∈ keep) ≠ []) {v : Int} : v ∈ thin keep loop ↔ v ∈ loop ∧ v ∈ keep := by
  have onLoop : v ∈ loop.dropLast ↔ v ∈ loop := by
    rw [← mem_closeUp, form]
  rw [thin_eq, if_neg left, mem_closeUp, List.mem_filter, decide_eq_true_eq, onLoop]

/-- A step of a loop that is left has a line. -/
theorem exists_line_of_step {lines : List Segment}
    (areLines : AreLines (walked (thinnedLoops keep found)) lines) {entry : Int × List (List Int)}
    (hentry : entry ∈ found) {loop : List Int} (hloop : loop ∈ entry.2) {step : Int × Int}
    (mem : step ∈ steps (thin keep loop)) : ∃ g ∈ lines, g.pair = pairOf step := by
  refine areLines.each step (List.mem_flatMap.mpr ⟨thin keep loop, ?_, mem⟩)
  exact List.mem_flatMap.mpr ⟨_, List.mem_map_of_mem hentry, List.mem_map_of_mem hloop⟩

section Left

variable (are : AreSegments s segments) (given : PointsGiven s)
  (areChains : AreChains (neighboursOf segments) (cuts segments) chains)
  (keeps : Keeps s segments tolerance chains keep) (noLoops : NoLoops segments)
  (closed : AllClosed segments found)

include are given areChains keeps

/-- Something is left of a loop that goes along a chain. -/
theorem Follows.left {points chain : List Int} {σ o : Int} (follows : Follows points chain σ o)
    (mem : chain ∈ chains) (some_ : points ≠ []) : points.filter (· ∈ keep) ≠ [] := by
  have length := (areChains.each chain mem).2
  have first := List.getElem?_eq_getElem (l := chain) (show 0 < chain.length by omega)
  have kept := mem_keep_of_end areChains are given keeps mem first (Or.inl rfl)
  rw [← follows.same 0 _ first] at kept
  exact List.ne_nil_of_mem (List.mem_filter.mpr ⟨around_mem some_ _, decide_eq_true kept⟩)

variable {lines : List Segment} {model : GeoModel}
  (areLines : AreLines (walked (thinnedLoops keep found)) lines) (drawn : Drawn lines model)

include closed areLines drawn

/-- The points of the model are those of the loops that are left. -/
theorem mem_origin_iff {v : Int} : v ∈ model.origin ↔
    ∃ entry ∈ found, ∃ loop ∈ entry.2, v ∈ thin keep loop := by
  rw [drawn.origin]
  constructor
  · intro h
    obtain ⟨g, hg, at_⟩ := h
    obtain ⟨walk, hwalk, step⟩ := List.mem_flatMap.mp (areLines.ofStep g hg)
    obtain ⟨_, hthinned, hwalk⟩ := List.mem_flatMap.mp hwalk
    obtain ⟨entry, hentry, rfl⟩ := List.mem_map.mp hthinned
    obtain ⟨loop, hloop, rfl⟩ := List.mem_map.mp hwalk
    refine ⟨entry, hentry, loop, hloop, ?_⟩
    obtain ⟨k, ha, hb⟩ := mem_steps.mp step
    rcases at_ with rfl | rfl
    · exact List.mem_of_getElem? ha
    · exact List.mem_of_getElem? hb
  · intro h
    obtain ⟨entry, hentry, loop, hloop, mem⟩ := h
    have thinned := thinned_thin are given areChains keeps (closed.closed entry hentry) hloop
    obtain ⟨some_, form⟩ := closeUp_dropLast thinned.closed
    rw [← form, mem_closeUp] at mem
    obtain ⟨i, rfl⟩ := exists_around mem
    have step := mem_steps_closeUp some_ i
    rw [form] at step
    obtain ⟨g, hg, pair⟩ := exists_line_of_step areLines hentry hloop step
    refine ⟨g, hg, ?_⟩
    rcases edgePair_eq_iff.mp pair with ⟨a, -⟩ | ⟨-, b⟩
    · exact Or.inl a
    · exact Or.inr b

include noLoops

/-- An inner point of a chain is in the model just if it is kept. -/
theorem mem_origin_iff_of_inner {chain : List Int} (mem : chain ∈ chains) {v : Int} (hv : v ∈ inner chain) :
    v ∈ model.origin ↔ v ∈ keep := by
  obtain ⟨k, lt, at_⟩ := mem_inner.mp hv
  rw [mem_origin_iff are given areChains keeps closed areLines drawn]
  constructor
  · intro h
    obtain ⟨entry, hentry, loop, hloop, there⟩ := h
    have round := round_of_closed (closed.closed entry hentry) hloop
    have form := (closeUp_dropLast ((closed.closed entry hentry).closed loop hloop)).2
    have left : loop.dropLast.filter (· ∈ keep) ≠ [] := by
      intro none
      rw [thin_eq, if_pos none, ← form, mem_closeUp] at there
      obtain ⟨i, rfl⟩ := exists_around there
      obtain ⟨σ, o, follows, -⟩ := round.follows areChains noLoops mem lt at_
      exact follows.left are given areChains keeps mem round.some_ none
    exact ((mem_thin_iff form left).mp there).2
  · intro kept
    obtain ⟨entry, hentry, loop, hloop, round, σ, o, follows⟩ :=
      exists_loop_of_chain areChains noLoops closed mem
    have form := (closeUp_dropLast ((closed.closed entry hentry).closed loop hloop)).2
    have left := follows.left are given areChains keeps mem round.some_
    have onLoop : v ∈ loop := by
      rw [← form, mem_closeUp, ← follows.same (k + 1) v at_]
      exact around_mem round.some_ _
    exact ⟨entry, hentry, loop, hloop, (mem_thin_iff form left).mpr ⟨onLoop, kept⟩⟩

omit drawn

/-- A chain of which nothing inside is kept has a line. -/
theorem exists_line_of_dropped {chain : List Int} (mem : chain ∈ originals segments chains)
    (dropped : ∀ v ∈ inner chain, v ∉ keep) : ∃ g ∈ lines, endPair chain = some g.pair := by
  rcases List.mem_append.mp mem with mem | mem
  · obtain ⟨entry, hentry, loop, hloop, round, σ, o, follows⟩ :=
      exists_loop_of_chain areChains noLoops closed mem
    have length := (areChains.each chain mem).2
    have first := List.getElem?_eq_getElem (l := chain) (show 0 < chain.length by omega)
    have last := List.getElem?_eq_getElem (l := chain) (show chain.length - 1 < chain.length by omega)
    have keptFirst := mem_keep_of_end areChains are given keeps mem first (Or.inl rfl)
    have keptLast := mem_keep_of_end areChains are given keeps mem last (Or.inr (by omega))
    have ends : endPair chain = some (edgePair (around loop.dropLast (o + σ * (0 : Nat)))
        (around loop.dropLast (o + σ * (chain.length - 1 : Nat)))) := by
      rw [follows.same 0 _ first, follows.same _ _ last, endPair, List.head?_eq_getElem?, first,
        length_of_getLast? (by omega) last]
    rw [← follows.same 0 _ first] at keptFirst
    rw [← follows.same _ _ last] at keptLast
    -- Between the ends there is no kept point, whichever way the loop goes.
    have between_ : ∀ k : Nat, 0 < k → k + 1 < chain.length → around loop.dropLast (o + σ * k) ∉ keep := by
      intro k pos less
      obtain ⟨j, rfl⟩ : ∃ j, k = j + 1 := ⟨k - 1, by omega⟩
      have there := List.getElem?_eq_getElem (l := chain) (show j + 1 < chain.length by omega)
      rw [follows.same _ _ there]
      exact dropped _ (mem_inner.mpr ⟨j, by omega, there⟩)
    have step : ∀ i j : Int, i < j → around loop.dropLast i ∈ keep → around loop.dropLast j ∈ keep →
        (∀ k, i < k → k < j → around loop.dropLast k ∉ keep) →
        (around loop.dropLast i, around loop.dropLast j) ∈ steps (thin keep loop) := by
      intro i j lt hi hj none_
      rw [thin_eq, if_neg (follows.left are given areChains keeps mem round.some_)]
      exact mem_steps_filter lt (decide_eq_true hi) (decide_eq_true hj)
        (fun k low high => by simpa using none_ k low high) round.some_
    rcases follows.sign with rfl | rfl
    · obtain ⟨g, hg, pair⟩ := exists_line_of_step areLines hentry hloop
        (step _ _ (by omega) keptFirst keptLast (by
          intro k low high
          have inside := between_ (k - o).toNat (by omega) (by omega)
          rwa [show o + 1 * ((k - o).toNat : Int) = k by omega] at inside))
      exact ⟨g, hg, ends.trans (congrArg some pair.symm)⟩
    · obtain ⟨g, hg, pair⟩ := exists_line_of_step areLines hentry hloop
        (step _ _ (by omega) keptLast keptFirst (by
          intro k low high
          have inside := between_ (o - k).toNat (by omega) (by omega)
          rwa [show o + -1 * ((o - k).toNat : Int) = k by omega] at inside))
      refine ⟨g, hg, ends.trans (congrArg some ?_)⟩
      rw [edgePair_comm]
      exact pair.symm
  · obtain ⟨segment, hsegment, rfl⟩ := List.mem_map.mp mem
    obtain ⟨hsegment, cuts_⟩ := List.mem_filter.mp hsegment
    obtain ⟨cuta, cutb⟩ := of_decide_eq_true cuts_
    obtain ⟨entry, hentry, loop, hloop, round, form, pair⟩ := exists_loop_of_segment closed hsegment
    -- With two points to cut at, all of them are fixed.
    have some_ : fixedPoints segments ≠ [] := by
      intro none
      rw [cuts, none] at cuta cutb
      exact noLoops segment hsegment (eq_of_mem_startsOf_nil cuta cutb)
    have kept : ∀ v, v = segment.a ∨ v = segment.b → v ∈ keep := by
      intro v h
      refine (keeps v).mpr (Or.inl ?_)
      rcases h with rfl | rfl
      · exact (mem_startsOf some_).mp cuta
      · exact (mem_startsOf some_).mp cutb
    rw [← form] at pair
    obtain ⟨q, -, -, same⟩ := round.exists_edgeAt 0 pair
    have ends : (around loop.dropLast q = segment.a ∧ around loop.dropLast (q + 1) = segment.b) ∨
        (around loop.dropLast q = segment.b ∧ around loop.dropLast (q + 1) = segment.a) :=
      edgePair_eq_iff.mp same
    have first : around loop.dropLast q ∈ keep := kept _ (ends.imp And.left And.left)
    have last : around loop.dropLast (q + 1) ∈ keep := by
      rcases ends with ⟨-, b⟩ | ⟨-, a⟩
      · exact kept _ (Or.inr b)
      · exact kept _ (Or.inl a)
    have step := @mem_steps_filter Int _ (· ∈ keep) _ _ _ (lt_add_one q) (decide_eq_true first)
      (decide_eq_true last) (fun k low high => absurd high (by omega)) round.some_
    have left : loop.dropLast.filter (· ∈ keep) ≠ [] :=
      List.ne_nil_of_mem (List.mem_filter.mpr ⟨around_mem round.some_ q, decide_eq_true first⟩)
    have onLoop : (around loop.dropLast q, around loop.dropLast (q + 1)) ∈ steps (thin keep loop) := by
      rw [thin_eq, if_neg left]
      exact step
    obtain ⟨g, hg, line⟩ := exists_line_of_step areLines hentry hloop onLoop
    exact ⟨g, hg, congrArg some (same.symm.trans line.symm)⟩

end Left

/-! ## Loops of spikes -/

section Spikes

variable (are : AreSegments s segments) (given : PointsGiven s)
  (areChains : AreChains (neighboursOf segments) (cuts segments) chains)
  (keeps : Keeps s segments tolerance chains keep)

include areChains keeps

/-- Of a chain that is cut once its ends and one more place are kept. -/
theorem CutOnce.places {chain : List Int} (once : CutOnce s tolerance chain) (mem : chain ∈ chains) :
    ∃ k : Nat, ∀ (j : Nat) (w : Int), chain[j]? = some w → w ∈ keep →
      j = 0 ∨ j + 1 = chain.length ∨ j = k := by
  obtain ⟨points, k, looked, first, before, after⟩ := once
  refine ⟨k, fun j w hw kept => ?_⟩
  have lt := (List.getElem?_eq_some_iff.mp hw).1
  by_cases end_ : j = 0 ∨ j + 1 = chain.length
  · exact end_.imp_right Or.inl
  · obtain ⟨i, rfl⟩ : ∃ i, j = i + 1 := ⟨j - 1, by omega⟩
    have taken_ := mem_taken_of_inner areChains keeps mem looked (by omega) hw kept
    rw [taken, splits_of_some (neg_one_le_sq tolerance) first, splits_of_none before,
      splits_of_none after] at taken_
    simp only [List.append_nil, List.mem_cons, List.not_mem_nil, or_false] at taken_
    omega

/-- A spike has two kept points. -/
theorem Spike.two {chain : List Int} (spike : Spike s tolerance chain) (mem : chain ∈ chains) :
    ∃ c v : Int, ∀ w ∈ chain, w ∈ keep → w = c ∨ w = v := by
  obtain ⟨k, only⟩ := spike.once.places areChains keeps mem
  obtain ⟨c, head⟩ : ∃ c, chain.head? = some c := by
    obtain ⟨start, -, head⟩ := (areChains.each chain mem).1.starts
    exact ⟨start, head⟩
  refine ⟨c, chain.getD k 0, fun w hw kept => ?_⟩
  obtain ⟨j, found⟩ := List.mem_iff_getElem?.mp hw
  rcases only j w found kept with rfl | last | rfl
  · rw [List.head?_eq_getElem?, found] at head
    exact Or.inl (Option.some.inj head)
  · rw [spike.closed, length_of_getLast? last found] at head
    exact Or.inl (Option.some.inj head)
  · rw [List.getD_eq_getElem?_getD, found]
    exact Or.inr rfl

variable (noLoops : NoLoops segments) {points : List Int} (round : Round segments points)

include noLoops round

/-- A gap that begins with a step along a chain stays on it. -/
theorem Gap.on_chain (are : AreSegments s segments) (given : PointsGiven s) {i j : Int} (gap : Gap points keep i j)
    {chain : List Int} (mem : chain ∈ chains) (edge : edgeAt points i ∈ stepPairs chain) :
    around points i ∈ chain ∧ around points j ∈ chain := by
  obtain ⟨k, u, v, hu, hv, same⟩ := mem_stepPairs.mp edge
  have ends : around points i ∈ chain ∧ around points (i + 1) ∈ chain := by
    have mu := List.mem_of_getElem? hu
    have mv := List.mem_of_getElem? hv
    rcases edgePair_eq_iff.mp same with ⟨rfl, rfl⟩ | ⟨rfl, rfl⟩
    · exact ⟨mu, mv⟩
    · exact ⟨mv, mu⟩
  have lt := gap.lt
  rcases lt_or_ge (i + 1) j with long | short
  · -- The next point is inside the chain, as it was dropped.
    obtain ⟨m, found⟩ := List.mem_iff_getElem?.mp ends.2
    have bound := (List.getElem?_eq_some_iff.mp found).1
    have loose : ¬ (m = 0 ∨ m + 1 = chain.length) := fun end_ =>
      gap.dropped (i + 1) (by omega) long (mem_keep_of_end areChains are given keeps mem found end_)
    obtain ⟨n, rfl⟩ : ∃ n, m = n + 1 := ⟨m - 1, by omega⟩
    obtain ⟨σ, o, follows, a, b, ha, hb, rfl, rfl⟩ :=
      gap.stretch_of areChains keeps noLoops round mem (by omega) found long
    rw [follows.same a _ (List.getElem?_eq_getElem ha), follows.same b _ (List.getElem?_eq_getElem hb)]
    exact ⟨List.getElem_mem ha, List.getElem_mem hb⟩
  · obtain rfl : j = i + 1 := by omega
    exact ends

/-- Of one spike or two there are no three lines. -/
theorem not_three_of_spikes (are : AreSegments s segments) (given : PointsGiven s)
    (spread : Spread s segments chains tolerance) {loop : List Int} (form : closeUp points = loop)
    (dropLast : loop.dropLast = points) (spikes : OfSpikes s tolerance chains loop) :
    ¬ ∃ x ∈ steps (thin keep loop), ∃ y ∈ steps (thin keep loop), ∃ z ∈ steps (thin keep loop),
      pairOf x ≠ pairOf y ∧ pairOf y ≠ pairOf z ∧ pairOf x ≠ pairOf z := by
  obtain ⟨chain, mem, other, mem', spike, spike', pairs⟩ := spikes
  have onLoop : ∀ i, edgeAt points i ∈ stepPairs loop := by
    intro i
    rw [← form]
    exact List.mem_map_of_mem (mem_steps_closeUp round.some_ i)
  have on : ∀ i, ∃ c, (c = chain ∨ c = other) ∧ edgeAt points i ∈ stepPairs c := by
    intro i
    rcases pairs _ (onLoop i) with edge | edge
    · exact ⟨chain, Or.inl rfl, edge⟩
    · exact ⟨other, Or.inr rfl, edge⟩
  have left : points.filter (· ∈ keep) ≠ [] := by
    obtain ⟨c, is, edge⟩ := on 0
    have hc : c ∈ chains := is.elim (fun e => e ▸ mem) fun e => e ▸ mem'
    obtain ⟨k, j, lt, found⟩ := exists_inner areChains hc edge
    obtain ⟨σ, o, follows, -⟩ := round.follows areChains noLoops hc lt found
    exact follows.left are given areChains keeps hc round.some_
  obtain ⟨u, v, two⟩ := spike.two areChains keeps mem
  obtain ⟨u', v', two'⟩ := spike'.two areChains keeps mem'
  obtain ⟨place, -, -, at_, gaps⟩ := exists_gaps left
  -- The ends of each line are the two points that are left of a spike.
  have line : ∀ x ∈ steps (thin keep loop), pairOf x = edgePair u v ∨ pairOf x = edgePair u' v' := by
    rintro ⟨a, b⟩ step
    rw [thin_eq, dropLast, if_neg left] at step
    obtain ⟨t, -, rfl, rfl⟩ := exists_of_mem_steps_closeUp left step
    rw [at_, at_]
    have gap := gaps t
    have ne := gap.ne are given areChains keeps noLoops round spread
    have same : ∀ {u v : Int}, (around points (place t) = u ∨ around points (place t) = v) →
        (around points (place (t + 1)) = u ∨ around points (place (t + 1)) = v) →
        pairOf (around points (place t), around points (place (t + 1))) = edgePair u v := by
      intro u v first last
      rcases first with one | one
      · rcases last with two | two
        · exact absurd (one.trans two.symm) ne
        · rw [pairOf, one, two]
      · rcases last with two | two
        · rw [pairOf, one, two]
          exact edgePair_comm _ _
        · exact absurd (one.trans two.symm) ne
    obtain ⟨c, is, edge⟩ := on (place t)
    rcases is with rfl | rfl
    · obtain ⟨first, last⟩ := gap.on_chain areChains keeps noLoops round are given mem edge
      exact Or.inl (same (two _ first gap.first) (two _ last gap.last))
    · obtain ⟨first, last⟩ := gap.on_chain areChains keeps noLoops round are given mem' edge
      exact Or.inr (same (two' _ first gap.first) (two' _ last gap.last))
  intro h
  obtain ⟨x, hx, y, hy, z, hz, xy, yz, xz⟩ := h
  have lx := line x hx
  have ly := line y hy
  have lz := line z hz
  grind

end Spikes

/-! ## Models without degenerate lines and loops -/

/-- The points of the line that a loop refers to, in the order in which it is walked. -/
def GeoModel.lineAt (model : GeoModel) (n : Int) : Option (Nat × Nat) :=
  if 0 < n then model.lines[n.natAbs - 1]?
  else if n < 0 then (model.lines[n.natAbs - 1]?).map Prod.swap
  else none

/-- At least three different lines that join end to end into a closed walk. -/
structure GeoModel.IsLoop (model : GeoModel) (numbers : List Int) : Prop where
  closed : ∃ points : List Nat, points.head? = points.getLast? ∧
    numbers.map model.lineAt = (steps points).map some
  three : ∃ x ∈ numbers, ∃ y ∈ numbers, ∃ z ∈ numbers,
    x.natAbs ≠ y.natAbs ∧ y.natAbs ≠ z.natAbs ∧ x.natAbs ≠ z.natAbs

/-- The line goes from one end of a chain to the other, and no point inside the chain is left. -/
structure GeoModel.Represents (model : GeoModel) (line : Nat × Nat) (chain : List Int) : Prop where
  ends : ∃ a b, model.origin[line.1 - 1]? = some a ∧ model.origin[line.2 - 1]? = some b ∧
    endPair chain = some (edgePair a b)
  dropped : ∀ v ∈ inner chain, v ∉ model.origin

/-- No line, no loop and no two chains have collapsed. -/
structure GeoModel.Sound (model : GeoModel) (chains : List (List Int)) : Prop where
  lines : ∀ line ∈ model.lines, line.1 ≠ line.2
  loops : ∀ surface ∈ model.surfaces, ∀ numbers ∈ surface.loops, model.IsLoop numbers
  apart : ∀ line ∈ model.lines, ∀ chain ∈ chains, ∀ other ∈ chains, chain ≠ other →
    endPair chain = endPair other → ¬ (model.Represents line chain ∧ model.Represents line other)

section Model

variable {lines : List Segment} {model : GeoModel} (drawn : Drawn lines model)

/-- Numbers of one line are those of one edge. -/
theorem Refers.natAbs_eq_iff (once : (lines.map Segment.pair).Nodup) {x y : Int × Int} {n m : Int}
    (hn : Refers lines x n) (hm : Refers lines y m) : n.natAbs = m.natAbs ↔ pairOf x = pairOf y := by
  have at_ : ∀ {x : Int × Int} {n : Int}, Refers lines x n →
      ∃ (i : Nat) (g : Segment), lines[i]? = some g ∧ g.pair = pairOf x ∧ n.natAbs = i + 1 := by
    intro x n refers
    obtain ⟨i, g, found, ends⟩ := refers
    rcases ends with ⟨rfl, rfl⟩ | ⟨same, rfl⟩
    · exact ⟨i, g, found, rfl, by omega⟩
    · exact ⟨i, g, found, by rw [← pairOf_swap x, ← same]; rfl, by omega⟩
  obtain ⟨i, g, hi, gx, abs⟩ := at_ hn
  obtain ⟨j, h, hj, hy, abs'⟩ := at_ hm
  rw [abs, abs', ← gx, ← hy]
  constructor
  · intro same
    obtain rfl : i = j := by omega
    rw [Option.some.inj (hi.symm.trans hj)]
  · intro same
    obtain rfl := List.inj_on_of_nodup_map once (List.mem_of_getElem? hi) (List.mem_of_getElem? hj) same
    have lt := (List.getElem?_eq_some_iff.mp hi).1
    rw [(List.getElem?_inj lt once.of_map).mp (hi.trans hj.symm)]

include drawn

theorem Drawn.lineAt_of_refers {step : Int × Int} {n : Int} (refers : Refers lines step n) :
    model.lineAt n = some (model.origin.idxOf step.1 + 1, model.origin.idxOf step.2 + 1) := by
  obtain ⟨i, g, found, ends⟩ := refers
  have there : model.lines[i]? = some (model.origin.idxOf g.a + 1, model.origin.idxOf g.b + 1) := by
    rw [drawn.lines, List.getElem?_map, found]
    rfl
  rcases ends with ⟨rfl, rfl⟩ | ⟨same, rfl⟩
  · rw [GeoModel.lineAt, if_pos (by omega), show ((i : Int) + 1).natAbs - 1 = i by omega, there]
    rfl
  · obtain rfl : step = g.ends.swap := by rw [same, Prod.swap_swap]
    rw [GeoModel.lineAt, if_neg (by omega), if_pos (by omega),
      show (-((i : Int) + 1)).natAbs - 1 = i by omega, there]
    rfl

/-- The lines of a closed walk are a loop if three of them are different. -/
theorem Drawn.isLoop_iff (once : (lines.map Segment.pair).Nodup) {loop : List Int} {numbers : List Int}
    (closed : Closed loop) (refers : List.Forall₂ (Refers lines) (steps loop) numbers) :
    model.IsLoop numbers ↔ ∃ x ∈ steps loop, ∃ y ∈ steps loop, ∃ z ∈ steps loop,
      pairOf x ≠ pairOf y ∧ pairOf y ≠ pairOf z ∧ pairOf x ≠ pairOf z := by
  constructor
  · intro isLoop
    obtain ⟨x, hx, y, hy, z, hz, xy, yz, xz⟩ := isLoop.three
    obtain ⟨a, ha, ra⟩ := exists_of_mem_right refers hx
    obtain ⟨b, hb, rb⟩ := exists_of_mem_right refers hy
    obtain ⟨c, hc, rc⟩ := exists_of_mem_right refers hz
    exact ⟨a, ha, b, hb, c, hc, (ra.natAbs_eq_iff once rb).not.mp xy, (rb.natAbs_eq_iff once rc).not.mp yz,
      (ra.natAbs_eq_iff once rc).not.mp xz⟩
  · intro three
    obtain ⟨a, ha, b, hb, c, hc, ab, bc, ac⟩ := three
    obtain ⟨x, hx, rx⟩ := exists_of_mem_left refers ha
    obtain ⟨y, hy, ry⟩ := exists_of_mem_left refers hb
    obtain ⟨z, hz, rz⟩ := exists_of_mem_left refers hc
    refine ⟨⟨loop.map fun v => model.origin.idxOf v + 1, ?_, ?_⟩, x, hx, y, hy, z, hz,
      (rx.natAbs_eq_iff once ry).not.mpr ab, (ry.natAbs_eq_iff once rz).not.mpr bc,
      (rx.natAbs_eq_iff once rz).not.mpr ac⟩
    · obtain ⟨start, head, last⟩ := closed.ends
      rw [List.head?_map, List.getLast?_map, head, last]
    · rw [steps_map, List.map_map]
      refine (List.forall₂_eq_eq_eq ▸ List.forall₂_map_left_iff.mpr (List.forall₂_map_right_iff.mpr ?_) :
        List.map _ (steps loop) = numbers.map model.lineAt).symm
      exact refers.imp fun _ _ h => (drawn.lineAt_of_refers h).symm

/-- The points of a line are where those of its segment are among the points of the model. -/
theorem Drawn.exists_mem_lines {g : Segment} (mem : g ∈ lines) : ∃ line ∈ model.lines,
    model.origin[line.1 - 1]? = some g.a ∧ model.origin[line.2 - 1]? = some g.b ∧
      (line.1 = line.2 ↔ g.a = g.b) := by
  have inside : ∀ v, g.At v → v ∈ model.origin := fun v at_ => (drawn.origin v).mpr ⟨g, mem, at_⟩
  have ha := inside g.a (Or.inl rfl)
  have hb := inside g.b (Or.inr rfl)
  refine ⟨(model.origin.idxOf g.a + 1, model.origin.idxOf g.b + 1), ?_, ?_, ?_, ?_⟩
  · rw [drawn.lines]
    exact List.mem_map_of_mem mem
  · rw [Nat.add_sub_cancel]
    exact List.getElem?_idxOf ha
  · rw [Nat.add_sub_cancel]
    exact List.getElem?_idxOf hb
  · rw [Nat.add_right_cancel_iff, List.idxOf_inj ha]

end Model

section Sound

variable (are : AreSegments s segments) (given : PointsGiven s)
  (areChains : AreChains (neighboursOf segments) (cuts segments) chains)
  (keeps : Keeps s segments tolerance chains keep)

include are given in
/-- A segment is on the line between its ends. -/
theorem straight_segment {segment : Segment} (mem : segment ∈ segments) :
    Straight s tolerance [segment.a, segment.b] := by
  have near_ : ∀ v, segment.At v → ∃ p, index s.coordinates v = .ok p := by
    intro v at_
    have pair : segment.ends ∈ segments.map Segment.ends := List.mem_map_of_mem mem
    obtain ⟨u, edge⟩ : ∃ u, v ∈ near (neighboursOf segments) u := by
      rcases at_ with rfl | rfl
      · exact ⟨segment.b, (holds_neighboursOf segments).mem_near_iff.mpr (Or.inr pair)⟩
      · exact ⟨segment.a, (holds_neighboursOf segments).mem_near_iff.mpr (Or.inl pair)⟩
    obtain ⟨p, -, there⟩ := index_of_inRange (inRange_of_near are given edge)
    exact ⟨p, there⟩
  obtain ⟨p, hp⟩ := near_ segment.a (Or.inl rfl)
  obtain ⟨q, hq⟩ := near_ segment.b (Or.inr rfl)
  intro first last head is v hv
  obtain rfl := Option.some.inj head
  obtain rfl := Option.some.inj is
  rcases List.mem_cons.mp hv with rfl | hv
  · exact ⟨p, p, q, hp, hp, hq, within_self tolerance p q⟩
  · obtain rfl := List.mem_singleton.mp hv
    exact ⟨q, p, q, hq, hp, hq, (within_self tolerance q p).symm⟩

include are given areChains keeps

/-- Nothing inside a chain is kept just if it is near the line between its ends. -/
theorem straight_iff {chain : List Int} (mem : chain ∈ originals segments chains) :
    Straight s tolerance chain ↔ ∀ v ∈ inner chain, v ∉ keep := by
  rcases List.mem_append.mp mem with mem | mem
  · obtain ⟨complete, length⟩ := areChains.each chain mem
    obtain ⟨coords, looked⟩ := exists_mapM_chain are given complete length
    exact ⟨dropped_of_straight areChains keeps mem looked, straight_of_dropped areChains keeps mem looked⟩
  · obtain ⟨segment, hsegment, rfl⟩ := List.mem_map.mp mem
    have none_ : inner [segment.a, segment.b] = [] := rfl
    rw [none_]
    exact iff_of_true (straight_segment are given (List.mem_filter.mp hsegment).1) (by simp)

variable (noLoops : NoLoops segments) (closed : AllClosed segments found) {lines : List Segment}
  {model : GeoModel} (areLines : AreLines (walked (thinnedLoops keep found)) lines)
  (drawn : Drawn lines model)

include noLoops closed areLines drawn

/-- A point inside of a chain is left in the model just if it is kept. -/
theorem mem_origin_iff_of_original {chain : List Int} (mem : chain ∈ originals segments chains) {v : Int}
    (hv : v ∈ inner chain) : v ∈ model.origin ↔ v ∈ keep := by
  rcases List.mem_append.mp mem with mem | mem
  · exact mem_origin_iff_of_inner are given areChains keeps noLoops closed areLines drawn mem hv
  · obtain ⟨segment, -, rfl⟩ := List.mem_map.mp mem
    cases hv

/-- If no line, loop or pair of chains has collapsed, the chains were far enough apart. -/
theorem spread_of_sound (sound : model.Sound (originals segments chains)) :
    Spread s segments chains tolerance := by
  have line : ∀ chain ∈ originals segments chains, Straight s tolerance chain →
      (∀ v ∈ inner chain, v ∉ keep) ∧ ∃ g ∈ lines, endPair chain = some g.pair := by
    intro chain mem straight
    have dropped := (straight_iff are given areChains keeps mem).mp straight
    exact ⟨dropped, exists_line_of_dropped are given areChains keeps noLoops closed areLines mem dropped⟩
  constructor
  · intro chain mem back straight
    obtain ⟨-, g, hg, ends⟩ := line chain mem straight
    obtain ⟨entry, hentry, -, -, same⟩ := drawn.exists_mem_lines hg
    refine sound.lines entry hentry (same.mpr ?_)
    unfold endPair at ends
    rw [back] at ends
    cases last : chain.getLast? with
    | none => rw [last] at ends; cases ends
    | some v =>
      rw [last] at ends
      have pair : edgePair v v = edgePair g.a g.b := Option.some.inj ends
      rcases edgePair_eq_iff.mp pair with ⟨a, b⟩ | ⟨a, b⟩
      · exact a.symm.trans b
      · exact b.symm.trans a
  · intro chain mem other mem' ne ends both
    obtain ⟨dropped, g, hg, pair⟩ := line chain mem both.1
    have dropped' := (straight_iff are given areChains keeps mem').mp both.2
    obtain ⟨entry, hentry, ha, hb, -⟩ := drawn.exists_mem_lines hg
    refine sound.apart entry hentry chain mem other mem' ne ends ⟨⟨⟨g.a, g.b, ha, hb, pair⟩, ?_⟩, ⟨g.a, g.b, ha, hb, ?_⟩, ?_⟩
    · intro v hv
      rw [mem_origin_iff_of_original are given areChains keeps noLoops closed areLines drawn mem hv]
      exact dropped v hv
    · rw [← ends]
      exact pair
    · intro v hv
      rw [mem_origin_iff_of_original are given areChains keeps noLoops closed areLines drawn mem' hv]
      exact dropped' v hv

/-- Chains that are far enough apart are not represented by one line. -/
theorem Spread.not_represented (spread : Spread s segments chains tolerance) {line : Nat × Nat}
    {chain other : List Int} (mem : chain ∈ originals segments chains) (mem' : other ∈ originals segments chains)
    (ne : chain ≠ other) (ends : endPair chain = endPair other) :
    ¬ (model.Represents line chain ∧ model.Represents line other) := by
  have straight : ∀ chain ∈ originals segments chains, model.Represents line chain → Straight s tolerance chain := by
    intro chain mem represents
    refine (straight_iff are given areChains keeps mem).mpr fun v hv kept => represents.dropped v hv ?_
    exact (mem_origin_iff_of_original are given areChains keeps noLoops closed areLines drawn mem hv).mpr kept
  intro both
  exact spread.apart chain mem other mem' ne ends ⟨straight chain mem both.1, straight other mem' both.2⟩

end Sound

/-- The corners of no triangle are on one line. -/
def NonZeroArea (s : Structure Rat) : Prop :=
  ∀ element ∈ s.elements, ∀ p q r, element.vertices.mapM (index s.coordinates) = .ok [p, q, r] →
    Plane.area (p.x, p.y) (q.x, q.y) (r.x, r.y) ≠ 0

theorem noLoops_of_area (are : AreSegments s segments) (flat : Flat s) (given : PointsGiven s)
    (areas : NonZeroArea s) : NoLoops segments := by
  intro segment mem same
  obtain ⟨side, hside, made⟩ := are.ofSide segment mem
  obtain ⟨a, b, -⟩ := pair_of_sideSegment made
  obtain ⟨element, found, inside, hslot⟩ := mem_meshSides.mp hside
  obtain ⟨-, -, first, second, -⟩ := Element.side_eq_some.mp hslot
  have hmem := List.mem_of_getElem? found
  obtain ⟨x, y, z, vertices⟩ := List.length_eq_three.mp (flat.triangles element hmem).1
  obtain ⟨corners, looked⟩ := exists_forall₂ fun v (hv : v ∈ element.vertices) =>
    (show ∃ p, index s.coordinates v = .ok p by
      have := given element hmem v hv
      obtain ⟨p, -, there⟩ := index_of_inRange (l := s.coordinates) (i := v) ⟨by omega, this.2⟩
      exact ⟨p, there⟩)
  have all := mapM_eq_ok.mpr looked
  rw [vertices] at looked
  obtain ⟨p, q, r, rfl⟩ := List.length_eq_three.mp looked.length_eq.symm
  refine areas element hmem p q r all ?_
  simp only [List.forall₂_cons, List.forall₂_nil_left_iff, and_true] at looked
  obtain ⟨hx, hy, hz⟩ := looked
  -- Two corners are one point, and the area of the triangle is that of a line.
  rw [vertices, ← a] at first
  rw [vertices, ← b, ← same] at second
  have two : p = q ∨ q = r ∨ p = r := by
    have value : ∀ {u v : Int} {p q : Coordinate Rat}, index s.coordinates u = .ok p →
        index s.coordinates v = .ok q → u = v → p = q := by
      intro u v p q hu hv same
      exact Except.ok.inj (hu.symm.trans (same ▸ hv))
    have slots : side.slot = 0 ∨ side.slot = 1 ∨ side.slot = 2 := by omega
    rcases slots with zero | one | two
    · rw [zero] at first second
      exact Or.inr (Or.inl (value hy hz (Option.some.inj (first.trans second.symm))))
    · rw [one] at first second
      exact Or.inr (Or.inr (value hz hx (Option.some.inj (first.trans second.symm))).symm)
    · rw [two] at first second
      exact Or.inl (value hx hy (Option.some.inj (first.trans second.symm)))
  rcases two with rfl | rfl | rfl
  · simp only [Plane.area]
    ring
  · simp only [Plane.area]
    ring
  · simp only [Plane.area]
    ring

/-- What `build_geo` makes of loops that are closed: lines, and loops of them for the loops of the regions. -/
theorem exists_model (are : AreSegments s segments) (given : PointsGiven s)
    (areChains : AreChains (neighboursOf segments) (cuts segments) chains)
    (keeps : Keeps s segments tolerance chains keep) (closed : AllClosed segments found) (pos : 0 < tolerance)
    (kept : constrainedSegments s = .ok segments) (loops : regionLoops s = .ok found)
    (simplified : simplifyBoundary s tolerance = .ok keep) :
    ∃ lines model, buildGeo s tolerance = .ok model ∧ AreLines (walked (thinnedLoops keep found)) lines ∧
      Drawn lines model ∧ ∀ numbers, (∃ surface ∈ model.surfaces, numbers ∈ surface.loops) ↔
        ∃ entry ∈ found, ∃ i loop, entry.2[i]? = some loop ∧
          Placed s.coordinates (entry.2.map (thin keep)) i ∧ refs (linesOf lines) (thin keep loop) = .ok numbers := by
  have thinned : ∀ entry ∈ found, ∀ loop ∈ entry.2, Thinned s tolerance loop (thin keep loop) :=
    fun entry hentry loop hloop => thinned_thin are given areChains keeps (closed.closed entry hentry) hloop
  -- The points of a thinned loop are those of the loop, and ends of segments.
  have onLoop : ∀ entry ∈ thinnedLoops keep found, ∀ loop ∈ entry.2, loop.dropLast ≠ [] ∧
      ∀ v ∈ loop, ∃ u, v ∈ near (neighboursOf segments) u := by
    intro _ hentry _ hwalk
    obtain ⟨entry, hfound, rfl⟩ := List.mem_map.mp hentry
    obtain ⟨loop, hloop, rfl⟩ := List.mem_map.mp hwalk
    have is := thinned entry hfound loop hloop
    have round := round_of_closed (closed.closed entry hfound) hloop
    obtain ⟨some_, form⟩ := closeUp_dropLast is.closed
    refine ⟨some_, fun v hv => ?_⟩
    rw [← form, mem_closeUp] at hv
    obtain ⟨i, rfl⟩ := exists_around (is.subsequence.subset hv)
    have edge := round.next_near (i - 1)
    rw [Int.sub_add_cancel] at edge
    exact ⟨_, edge⟩
  obtain ⟨lines, relinked, areLines⟩ := @relink_spec s segments kept are.nodup (thinnedLoops keep found) (by
    intro step mem
    obtain ⟨loop, hloop, hstep⟩ := List.mem_flatMap.mp mem
    obtain ⟨entry, hentry, hloop⟩ := List.mem_flatMap.mp hloop
    obtain ⟨k, ha, -⟩ := mem_steps.mp hstep
    obtain ⟨u, edge⟩ := (onLoop entry hentry loop hloop).2 _ (List.mem_of_getElem? ha)
    rcases (holds_neighboursOf segments).mem_near_iff.mp edge with edge | edge
    · obtain ⟨g, hg, same⟩ := List.mem_map.mp edge
      exact ⟨g, hg, Or.inr (Prod.mk.inj same).2⟩
    · obtain ⟨g, hg, same⟩ := List.mem_map.mp edge
      exact ⟨g, hg, Or.inl (Prod.mk.inj same).1⟩)
  obtain ⟨model, built, drawn, surfaces⟩ := buildGeo_spec pos kept loops simplified relinked areLines
    (fun entry hentry loop hloop => (onLoop entry hentry loop hloop).1)
    (fun entry hentry loop hloop v hv => by
      obtain ⟨u, edge⟩ := (onLoop entry hentry loop hloop).2 v hv
      exact inRange_of_near are given edge)
  refine ⟨lines, model, built, areLines, drawn, fun numbers => (surfaces numbers).trans ⟨?_, ?_⟩⟩
  · intro h
    obtain ⟨_, hentry, i, _, placed, there, given_⟩ := h
    obtain ⟨entry, hfound, rfl⟩ := List.mem_map.mp hentry
    obtain ⟨loop, here, rfl⟩ := Option.map_eq_some_iff.mp (List.getElem?_map ▸ there)
    exact ⟨entry, hfound, i, loop, here, placed, given_⟩
  · intro h
    obtain ⟨entry, hfound, i, loop, here, placed, given_⟩ := h
    exact ⟨_, List.mem_map_of_mem hfound, i, thin keep loop, placed, by rw [List.getElem?_map, here]; rfl, given_⟩

/-- Thinning a mesh that conforms leaves a model in which nothing has collapsed just if the chains are far enough
apart and no loop that gets into a surface is made of spikes. -/
theorem buildGeo_sound_iff (flat : Flat s) (conforming : ConformingMesh s.elements (Names s))
    (enclosed : Enclosed s.elements) (given : PointsGiven s) (areas : NonZeroArea s) (pos : 0 < tolerance) :
    ∃ segments chains found keep model, constrainedSegments s = .ok segments ∧
      chainsOf (neighboursOf segments) (fixedPoints segments) (neighboursOf segments).keys = .ok chains ∧
      regionLoops s = .ok found ∧ simplifyBoundary s tolerance = .ok keep ∧ buildGeo s tolerance = .ok model ∧
      (model.Sound (originals segments chains) ↔ Spread s segments chains tolerance ∧
        ∀ entry ∈ found, ∀ i loop, entry.2[i]? = some loop →
          Placed s.coordinates (entry.2.map (thin keep)) i → ¬ OfSpikes s tolerance chains loop) := by
  obtain ⟨segments, kept, are⟩ := constrainedSegments_spec flat
  obtain ⟨found, loops, closed⟩ := exists_allClosed conforming enclosed kept are
  obtain ⟨chains, keep, followed, simplified, areChains, keeps⟩ := simplifyBoundary_spec kept are given pos
  have noLoops := noLoops_of_area are flat given areas
  obtain ⟨lines, model, built, areLines, drawn, surfaces⟩ :=
    exists_model are given areChains keeps closed pos kept loops simplified
  have isLoop_iff : ∀ entry ∈ found, ∀ loop ∈ entry.2, ∃ numbers,
      refs (linesOf lines) (thin keep loop) = .ok numbers ∧ (model.IsLoop numbers ↔
        ∃ x ∈ steps (thin keep loop), ∃ y ∈ steps (thin keep loop), ∃ z ∈ steps (thin keep loop),
          pairOf x ≠ pairOf y ∧ pairOf y ≠ pairOf z ∧ pairOf x ≠ pairOf z) := by
    intro entry hentry loop hloop
    obtain ⟨numbers, given_, each⟩ := refs_spec areLines fun step mem =>
      List.mem_flatMap.mpr ⟨thin keep loop, List.mem_flatMap.mpr
        ⟨_, List.mem_map_of_mem hentry, List.mem_map_of_mem hloop⟩, mem⟩
    have thinned := thinned_thin are given areChains keeps (closed.closed entry hentry) hloop
    exact ⟨numbers, given_, drawn.isLoop_iff areLines.once thinned.closed each⟩
  refine ⟨segments, chains, found, keep, model, kept, followed, loops, simplified, built, ?_, ?_⟩
  · intro sound
    have spread := spread_of_sound are given areChains keeps noLoops closed areLines drawn sound
    refine ⟨spread, fun entry hentry i loop there placed spikes => ?_⟩
    have hloop := List.mem_of_getElem? there
    obtain ⟨numbers, given_, iff⟩ := isLoop_iff entry hentry loop hloop
    obtain ⟨surface, hsurface, mem⟩ := (surfaces numbers).mpr ⟨entry, hentry, i, loop, there, placed, given_⟩
    exact not_three_of_spikes areChains keeps noLoops (round_of_closed (closed.closed entry hentry) hloop) are
      given spread (closeUp_dropLast ((closed.closed entry hentry).closed loop hloop)).2 rfl spikes
      (iff.mp (sound.loops surface hsurface numbers mem))
  · intro h
    obtain ⟨spread, more⟩ := h
    refine ⟨fun line mem => ?_, fun surface hsurface numbers mem => ?_,
      fun line _ chain mem other mem' ne ends => spread.not_represented are given areChains keeps noLoops closed
        areLines drawn mem mem' ne ends⟩
    · rw [drawn.lines] at mem
      obtain ⟨g, hg, rfl⟩ := List.mem_map.mp mem
      obtain ⟨_, hwalk, step⟩ := List.mem_flatMap.mp (areLines.ofStep g hg)
      obtain ⟨_, hentry, hwalk⟩ := List.mem_flatMap.mp hwalk
      obtain ⟨entry, hfound, rfl⟩ := List.mem_map.mp hentry
      obtain ⟨loop, hloop, rfl⟩ := List.mem_map.mp hwalk
      have ne := ne_of_mem_thin are given areChains keeps noLoops
        (round_of_closed (closed.closed entry hfound) hloop) spread
        (closeUp_dropLast ((closed.closed entry hfound).closed loop hloop)).2 rfl step
      intro same
      exact ne ((List.idxOf_inj ((drawn.origin g.a).mpr ⟨g, hg, Or.inl rfl⟩)).mp (Nat.add_right_cancel same))
    · obtain ⟨entry, hentry, i, loop, there, placed, given_⟩ := (surfaces numbers).mp ⟨surface, hsurface, mem⟩
      have hloop := List.mem_of_getElem? there
      obtain ⟨numbers', given', iff⟩ := isLoop_iff entry hentry loop hloop
      obtain rfl := Except.ok.inj (given_.symm.trans given')
      exact iff.mpr (exists_three_of_thin are given areChains keeps noLoops
        (round_of_closed (closed.closed entry hentry) hloop) spread
        (closeUp_dropLast ((closed.closed entry hentry).closed loop hloop)).2 rfl
        (more entry hentry i loop there placed))

theorem nonZeroArea_gable : NonZeroArea gable := by
  intro element mem p q r looked
  have elements : element = ⟨1, 1, [0, 1, 3], [1, -1022, -1022], [-1, -1]⟩ ∨
      element = ⟨2, 1, [1, 2, 3], [-1022, 0, -1022], [-1, -1]⟩ := by
    simpa [gable] using mem
  rcases elements with rfl | rfl
  · have found : [0, 1, 3].mapM (index gable.coordinates) = .ok [⟨1, 0, 0⟩, ⟨2, 1, 0⟩, ⟨4, 1, 1⟩] := rfl
    obtain ⟨rfl, rfl, rfl⟩ := by simpa using Except.ok.inj (found.symm.trans looked)
    norm_num [Plane.area]
  · have found : [1, 2, 3].mapM (index gable.coordinates) = .ok [⟨2, 1, 0⟩, ⟨3, 2, 0⟩, ⟨4, 1, 1⟩] := rfl
    obtain ⟨rfl, rfl, rfl⟩ := by simpa using Except.ok.inj (found.symm.trans looked)
    norm_num [Plane.area]

theorem buildGeo_sound_iff_gable : ∃ segments chains found keep model, constrainedSegments gable = .ok segments ∧
    chainsOf (neighboursOf segments) (fixedPoints segments) (neighboursOf segments).keys = .ok chains ∧
    regionLoops gable = .ok found ∧ simplifyBoundary gable (1 / 10) = .ok keep ∧
    buildGeo gable (1 / 10) = .ok model ∧
    (model.Sound (originals segments chains) ↔ Spread gable segments chains (1 / 10) ∧
      ∀ entry ∈ found, ∀ i loop, entry.2[i]? = some loop →
        Placed gable.coordinates (entry.2.map (thin keep)) i → ¬ OfSpikes gable (1 / 10) chains loop) :=
  buildGeo_sound_iff ⟨rfl, rfl, by decide⟩ ⟨by decide, by decide, by decide⟩
    (by unfold Enclosed; decide) (by unfold PointsGiven; decide) nonZeroArea_gable (by norm_num)

/-- A triangle on top of another that is thinner than the tolerance. -/
def eave : Structure Rat where
  version := ""
  dimension := 2
  verticesPerElement := 3
  neighborsPerElement := 3
  coordinates := [⟨1, 0, 0⟩, ⟨2, 1, 0⟩, ⟨3, 1 / 2, 1⟩, ⟨4, 1 / 2, -1 / 2000⟩]
  regions := [⟨1, 3, "silicon"⟩, ⟨2, 1, "oxide"⟩]
  elements := [⟨1, 1, [0, 1, 2], [-1022, -1022, 1], [-1, -1]⟩,
    ⟨2, 2, [1, 0, 3], [-1022, -1022, 0], [-1, -1]⟩]
  solutions := []
  species := []
  temperature := none
  warnings := []

theorem nonZeroArea_eave : NonZeroArea eave := by
  intro element mem p q r looked
  have elements : element = ⟨1, 1, [0, 1, 2], [-1022, -1022, 1], [-1, -1]⟩ ∨
      element = ⟨2, 2, [1, 0, 3], [-1022, -1022, 0], [-1, -1]⟩ := by
    simpa [eave] using mem
  rcases elements with rfl | rfl
  · have found : [0, 1, 2].mapM (index eave.coordinates) = .ok [⟨1, 0, 0⟩, ⟨2, 1, 0⟩, ⟨3, 1 / 2, 1⟩] := rfl
    obtain ⟨rfl, rfl, rfl⟩ := by simpa using Except.ok.inj (found.symm.trans looked)
    norm_num [Plane.area]
  · have found : [1, 0, 3].mapM (index eave.coordinates) = .ok [⟨2, 1, 0⟩, ⟨1, 0, 0⟩, ⟨4, 1 / 2, -1 / 2000⟩] := rfl
    obtain ⟨rfl, rfl, rfl⟩ := by simpa using Except.ok.inj (found.symm.trans looked)
    norm_num [Plane.area]

theorem not_buildGeo_sound : ¬ ∀ (s : Structure Rat) (tolerance : Rat) (segments : List Segment)
    (chains : List (List Int)) (model : GeoModel), Flat s → ConformingMesh s.elements (Names s) →
    Enclosed s.elements → PointsGiven s → NonZeroArea s → 0 < tolerance → constrainedSegments s = .ok segments →
    chainsOf (neighboursOf segments) (fixedPoints segments) (neighboursOf segments).keys = .ok chains →
    buildGeo s tolerance = .ok model → model.Sound (originals segments chains) := by
  intro h
  have sound := h eave (1 / 1000) [⟨1, 2, 1, none, -1022⟩, ⟨2, 0, 1, none, -1022⟩, ⟨0, 1, 1, some 2, 0⟩,
    ⟨0, 3, 2, none, -1022⟩, ⟨3, 1, 2, none, -1022⟩] [[0, 2, 1], [0, 3, 1]]
    ⟨[(0, 0), (1, 0), (1 / 2, 1)], [(2, 1), (1, 3), (3, 2)], [⟨1, [[1, 2, 3]]⟩, ⟨2, [[-1, 1]]⟩], [0, 1, 2]⟩
    ⟨rfl, rfl, by decide⟩ ⟨by decide, by decide, by decide⟩ (by unfold Enclosed; decide)
    (by unfold PointsGiven; decide) nonZeroArea_eave (by norm_num) (by decide +kernel) (by decide +kernel)
    (by decide +kernel)
  -- The loop of the thin triangle is one line there and back.
  have loop := sound.loops ⟨2, [[-1, 1]]⟩ (by simp) [-1, 1] (by simp)
  obtain ⟨x, hx, y, hy, z, hz, xy, yz, xz⟩ := loop.three
  simp only [List.mem_cons, List.not_mem_nil, or_false] at hx hy hz
  omega

end TcadWebapp.Remesh
