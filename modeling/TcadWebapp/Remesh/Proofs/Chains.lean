import Mathlib.Data.List.Pairwise
import TcadWebapp.Misc.Cycles
import TcadWebapp.Remesh.Proofs.Walks
import TcadWebapp.Remesh.Simplify

/-!
# The chains between fixed points

At a point that is not fixed two segments meet, so that a walk goes on in one way only. The chains of `_chains`
end in fixed points, have no inner point in common and go through every point that can be reached
(`chainsOf_spec`).
-/

namespace TcadWebapp.Remesh

open StrParser

/-! ## Points with two segments -/

section Graph

variable {adjacency : Dict Int (List Int)} {edges : List (Int × Int)} (holds : Holds adjacency edges)

include holds

theorem near_comm {v w : Int} : w ∈ near adjacency v ↔ v ∈ near adjacency w := by
  rw [holds.mem_near_iff, holds.mem_near_iff]
  exact or_comm

variable (once : (edges.map pairOf).Nodup)

include once

/-- No two points have two edges in common. -/
theorem count_near_le {v w : Int} (ne : v ≠ w) : (near adjacency v).count w ≤ 1 := by
  have nodup := List.Nodup.of_map _ once
  have le : ∀ e, edges.count e ≤ 1 := List.nodup_iff_count_le_one.mp nodup
  rw [holds.count]
  by_contra more
  have one := le (v, w)
  have two := le (w, v)
  have mem : (v, w) ∈ edges := List.count_pos_iff.mp (by omega)
  have mem' : (w, v) ∈ edges := List.count_pos_iff.mp (by omega)
  have same := List.inj_on_of_nodup_map once mem mem' (edgePair_comm v w)
  exact ne (Prod.mk.inj same).1

variable {fixed : List Int}
  (two : ∀ v, v ∉ fixed → near adjacency v ≠ [] → (near adjacency v).length = 2)

include two

/-- A walk that comes to a point that is not fixed goes on to another one, which is all there is. -/
theorem exists_turn {u v : Int} (loose : v ∉ fixed) (mem : u ∈ near adjacency v) (ne : u ≠ v) :
    ∃ w, w ≠ u ∧ w ≠ v ∧ w ∈ near adjacency v ∧ (∀ z ∈ near adjacency v, z = u ∨ z = w) ∧
      (near adjacency v).filter (fun n => n ≠ u) = [w] := by
  obtain ⟨x, y, pair⟩ := List.length_eq_two.mp (two v loose (List.ne_nil_of_mem mem))
  have single := count_near_le holds once ne.symm
  have self := holds.count v v
  rw [pair] at mem single self ⊢
  -- A loop has both its ends at the point.
  simp only [List.count_cons, List.count_nil, beq_iff_eq] at single self
  simp only [List.mem_cons, List.not_mem_nil, or_false] at mem ⊢
  rcases mem with rfl | rfl
  · have other : y ≠ u := by
      rintro rfl
      simp at single
    have apart : y ≠ v := by
      rintro rfl
      rw [if_pos rfl, if_neg ne] at self
      omega
    exact ⟨y, other, apart, Or.inr rfl, fun z => id, by simp [other]⟩
  · have other : x ≠ u := by
      rintro rfl
      simp at single
    have apart : x ≠ v := by
      rintro rfl
      rw [if_pos rfl, if_neg ne] at self
      omega
    exact ⟨x, other, apart, Or.inl rfl, fun z => Or.symm, by simp [other]⟩

end Graph

/-! ## Walks from fixed points -/

/-- The points of a chain without its ends. -/
def inner (chain : List Int) : List Int := chain.tail.dropLast

theorem inner_concat (chain : List Int) (v : Int) (some_ : chain ≠ []) :
    inner (chain ++ [v]) = chain.tail := by
  obtain ⟨point, chain, rfl⟩ := List.exists_cons_of_ne_nil some_
  rw [inner, List.cons_append, List.tail_cons, List.tail_cons, List.dropLast_concat]

theorem mem_inner {chain : List Int} {v : Int} : v ∈ inner chain ↔
    ∃ k : Nat, k + 2 < chain.length ∧ chain[k + 1]? = some v := by
  rw [inner, List.mem_iff_getElem?]
  refine exists_congr fun k => ?_
  rw [List.getElem?_dropLast, List.getElem?_tail, List.length_tail]
  constructor
  · intro h
    split at h
    · exact ⟨by omega, h⟩
    · cases h
  · rintro ⟨lt, found⟩
    rw [if_pos (by omega), found]

/-- A walk that starts at a fixed point, goes through loose ones and never turns back. -/
structure Trail (adjacency : Dict Int (List Int)) (fixed chain : List Int) : Prop where
  starts : ∃ start ∈ fixed, chain.head? = some start
  along : ∀ (k : Nat) (u v : Int), chain[k]? = some u → chain[k + 1]? = some v → v ∈ near adjacency u
  turns : ∀ (k : Nat) (u v w : Int), chain[k]? = some u → chain[k + 1]? = some v →
    chain[k + 2]? = some w →
    v ∉ fixed ∧ u ≠ w ∧ v ≠ w ∧ ∀ z ∈ near adjacency v, z = u ∨ z = w
  once : (inner chain).Nodup

theorem getElem?_concat_eq_some {chain : List Int} {x v : Int} {k : Nat} :
    (chain ++ [x])[k]? = some v ↔ chain[k]? = some v ∨ k = chain.length ∧ x = v := by
  rcases Nat.lt_trichotomy k chain.length with lt | rfl | gt
  · rw [List.getElem?_append_left lt]
    exact ⟨Or.inl, fun h => h.resolve_right fun h => by omega⟩
  · rw [List.getElem?_concat_length, List.getElem?_eq_none le_rfl]
    simp
  · rw [List.getElem?_eq_none (by simp; omega), List.getElem?_eq_none gt.le]
    simp
    omega

theorem length_of_getLast? {chain : List Int} {v : Int} {k : Nat} (lt : k + 1 = chain.length)
    (found : chain[k]? = some v) : chain.getLast? = some v := by
  rw [List.getLast?_eq_getElem?, ← found]
  congr 1
  omega

section Follow

variable {adjacency : Dict Int (List Int)} {edges : List (Int × Int)} {fixed : List Int}

theorem trail_pair {start first : Int} (mem : start ∈ fixed) (edge : first ∈ near adjacency start) :
    Trail adjacency fixed [start, first] := by
  refine ⟨⟨start, mem, rfl⟩, ?_, ?_, List.nodup_nil⟩
  · intro k u v hu hv
    cases k with
    | zero =>
      obtain rfl := Option.some.inj hu
      obtain rfl := Option.some.inj hv
      exact edge
    | succ k => cases hv
  · intro k u v w _ _ hw
    cases hw

variable {chain : List Int} {previous current : Int}

/-- The point before the last is another one, if the last is loose. -/
theorem ne_of_trail (trail : Trail adjacency fixed (chain ++ [current])) (last : chain.getLast? = some previous)
    (loose : current ∉ fixed) : previous ≠ current := by
  obtain ⟨front, rfl⟩ := List.getLast?_eq_some_iff.mp last
  rcases List.eq_nil_or_concat' front with rfl | ⟨front, u, rfl⟩
  · rintro rfl
    obtain ⟨start, mem, head⟩ := trail.starts
    obtain rfl : previous = start := by simpa using head
    exact loose mem
  · refine (trail.turns front.length u previous current ?_ ?_ ?_).2.2.1
    · simp
    · simp
    · simp

/-- A walk that never turns back does not come to an inner point twice. -/
theorem notMem_of_trail (holds : Holds adjacency edges) (trail : Trail adjacency fixed (chain ++ [current]))
    (last : chain.getLast? = some previous) (loose : current ∉ fixed) : current ∉ chain.tail := by
  have ne := ne_of_trail trail last loose
  have some_ : chain ≠ [] := by
    rintro rfl
    cases last
  have once := trail.once
  rw [inner_concat chain current some_] at once
  have length := List.length_pos_of_ne_nil some_
  have before : chain[chain.length - 1]? = some previous := by
    rw [← List.getLast?_eq_getElem?, last]
  have back : previous ∈ near adjacency current := by
    refine (near_comm holds).mp (trail.along (chain.length - 1) previous current ?_ ?_)
    · exact getElem?_concat_eq_some.mpr (Or.inl before)
    · exact getElem?_concat_eq_some.mpr (Or.inr ⟨by omega, rfl⟩)
  have inner_ : ∀ {i j : Nat} {v : Int}, chain[i + 1]? = some v → chain[j + 1]? = some v → i = j := by
    intro i j v hi hj
    have lt := (List.getElem?_eq_some_iff.mp hi).1
    refine (List.getElem?_inj (by rw [List.length_tail]; omega) once).mp ?_
    rw [List.getElem?_tail, List.getElem?_tail, hi, hj]
  intro mem
  obtain ⟨j, found⟩ := List.mem_iff_getElem?.mp mem
  rw [List.getElem?_tail] at found
  have lt := (List.getElem?_eq_some_iff.mp found).1
  obtain ⟨a, ha⟩ : ∃ a, chain[j]? = some a := ⟨_, List.getElem?_eq_getElem (by omega)⟩
  -- The point after it and the point before it are the only ones next to it.
  obtain ⟨b, hb⟩ : ∃ b, (chain ++ [current])[j + 2]? = some b :=
    ⟨_, List.getElem?_eq_getElem (by simp; omega)⟩
  obtain ⟨-, -, -, only⟩ := trail.turns j a current b (getElem?_concat_eq_some.mpr (Or.inl ha))
    (getElem?_concat_eq_some.mpr (Or.inl found)) hb
  obtain ⟨i, hi⟩ : ∃ i, chain.length - 1 = i + 1 := ⟨chain.length - 2, by omega⟩
  obtain ⟨u, hu⟩ : ∃ u, chain[i]? = some u := ⟨_, List.getElem?_eq_getElem (by omega)⟩
  rw [hi] at before
  obtain ⟨inside, turned, -, -⟩ := trail.turns i u previous current
    (getElem?_concat_eq_some.mpr (Or.inl hu)) (getElem?_concat_eq_some.mpr (Or.inl before))
    (getElem?_concat_eq_some.mpr (Or.inr ⟨by omega, rfl⟩))
  rcases only previous back with rfl | rfl
  · cases j with
    | zero =>
      obtain ⟨start, mem, head⟩ := trail.starts
      rw [List.head?_eq_getElem?, List.getElem?_append_left length, ha] at head
      exact inside (Option.some.inj head ▸ mem)
    | succ j =>
      have := inner_ ha before
      omega
  · rcases getElem?_concat_eq_some.mp hb with hb | ⟨-, same⟩
    · have := inner_ hb before
      have at_ : i = j + 1 := by omega
      rw [at_, found] at hu
      exact turned (Option.some.inj hu).symm
    · exact ne same.symm

/-- The walk goes on. -/
theorem trail_concat (holds : Holds adjacency edges) (trail : Trail adjacency fixed (chain ++ [current]))
    (last : chain.getLast? = some previous) (loose : current ∉ fixed) {next : Int} (ne : next ≠ previous)
    (ne' : next ≠ current) (edge : next ∈ near adjacency current)
    (only : ∀ z ∈ near adjacency current, z = previous ∨ z = next) :
    Trail adjacency fixed (chain ++ [current] ++ [next]) := by
  have some_ : chain ≠ [] := by
    rintro rfl
    cases last
  have length := List.length_pos_of_ne_nil some_
  have new := notMem_of_trail holds trail last loose
  refine ⟨?_, ?_, ?_, ?_⟩
  · obtain ⟨start, mem, head⟩ := trail.starts
    exact ⟨start, mem, by rw [List.head?_append, head]; rfl⟩
  · intro k u v hu hv
    rcases getElem?_concat_eq_some.mp hv with hv | ⟨at_, rfl⟩
    · have lt := (List.getElem?_eq_some_iff.mp hv).1
      rw [List.getElem?_append_left (by omega)] at hu
      exact trail.along k u v hu hv
    · rw [List.length_append, List.length_singleton] at at_
      obtain rfl : k = chain.length := by omega
      rw [List.getElem?_append_left (by simp), List.getElem?_concat_length] at hu
      exact Option.some.inj hu ▸ edge
  · intro k u v w hu hv hw
    rcases getElem?_concat_eq_some.mp hw with hw | ⟨at_, rfl⟩
    · have lt := (List.getElem?_eq_some_iff.mp hw).1
      rw [List.getElem?_append_left (by omega)] at hu hv
      exact trail.turns k u v w hu hv hw
    · rw [List.length_append, List.length_singleton] at at_
      have end_ : k + 1 = chain.length := by omega
      rw [List.getElem?_append_left (by simp; omega)] at hu hv
      rw [end_, List.getElem?_concat_length] at hv
      rw [List.getElem?_append_left (by omega)] at hu
      obtain rfl := Option.some.inj hv
      obtain rfl : previous = u := by
        rw [length_of_getLast? end_ hu] at last
        exact (Option.some.inj last).symm
      exact ⟨loose, ne.symm, ne'.symm, only⟩
  · rw [inner_concat _ _ (by simp), List.tail_append_of_ne_nil some_]
    have once := trail.once
    rw [inner_concat chain current some_] at once
    exact List.nodup_append.mpr ⟨once, List.nodup_singleton _, by
      intro a ha b hb
      rw [List.mem_singleton.mp hb]
      exact fun same => new (same ▸ ha)⟩

/-- A walk from one fixed point to another. -/
structure Chain (adjacency : Dict Int (List Int)) (fixed chain : List Int) : Prop
    extends Trail adjacency fixed chain where
  ends : ∃ last ∈ fixed, chain.getLast? = some last

/-- A step of a walk, in either direction. -/
def Along (chain : List Int) (step : Int × Int) : Prop :=
  step ∈ steps chain ∨ step.swap ∈ steps chain

theorem along_concat (last : chain.getLast? = some previous) (step : Int × Int) :
    Along (chain ++ [current]) step ↔
      step = (current, previous) ∨ step = (previous, current) ∨ Along chain step := by
  rw [Along, Along, steps_concat last, List.mem_append, List.mem_append, List.mem_singleton,
    List.mem_singleton, Prod.swap_eq_iff_eq_swap]
  exact ⟨by tauto, by tauto⟩

/-- The walk ends in a fixed point, and all its steps are noted in both directions. -/
theorem follow_spec (holds : Holds adjacency edges) (once : (edges.map pairOf).Nodup)
    (two : ∀ v, v ∉ fixed → near adjacency v ≠ [] → (near adjacency v).length = 2) (fuel : Nat)
    {seen seen' : List (Int × Int)} (trail : Trail adjacency fixed (chain ++ [current]))
    (last : chain.getLast? = some previous)
    (enough : adjacency.entries.length + 1 ≤ fuel + chain.tail.length)
    (noted : ∀ step, step ∈ seen' ↔ step ∈ seen ∨ Along chain step) :
    ∃ rest seen'', follow adjacency fixed fuel previous current seen' chain =
        .ok (chain ++ current :: rest, seen'') ∧ Chain adjacency fixed (chain ++ current :: rest) ∧
      ∀ step, step ∈ seen'' ↔ step ∈ seen ∨ Along (chain ++ current :: rest) step := by
  induction fuel generalizing chain previous current seen' with
  | zero =>
    -- The inner points are different points with neighbours.
    have some_ : chain ≠ [] := by
      rintro rfl
      cases last
    have different := trail.once
    rw [inner_concat chain current some_] at different
    have keys : chain.tail ⊆ adjacency.keys := by
      intro v mem
      obtain ⟨k, found⟩ := List.mem_iff_getElem?.mp mem
      rw [List.getElem?_tail] at found
      have lt := (List.getElem?_eq_some_iff.mp found).1
      have before := List.getElem?_eq_getElem (l := chain) (show k < chain.length by omega)
      have edge := trail.along k _ v (getElem?_concat_eq_some.mpr (Or.inl before))
        (getElem?_concat_eq_some.mpr (Or.inl found))
      rw [near_comm holds] at edge
      rw [Dict.mem_keys]
      cases there : adjacency.get? v with
      | none =>
        rw [near, there] at edge
        cases edge
      | some noted => exact ⟨noted, rfl⟩
    have le := (List.subperm_of_subset different keys).length_le
    rw [Dict.keys, List.length_map] at le
    omega
  | succ fuel ih =>
    have noted' : ∀ step, step ∈ (current, previous) :: (previous, current) :: seen' ↔
        step ∈ seen ∨ Along (chain ++ [current]) step := by
      intro step
      rw [List.mem_cons, List.mem_cons, noted, along_concat last]
      exact ⟨by tauto, by tauto⟩
    have some_ : chain ≠ [] := by
      rintro rfl
      cases last
    rw [follow]
    split
    · rename_i mem
      exact ⟨[], _, rfl, ⟨trail, current, mem, List.getLast?_concat⟩, noted'⟩
    · rename_i loose
      have ne := ne_of_trail trail last loose
      have back : previous ∈ near adjacency current := by
        have length := List.length_pos_of_ne_nil some_
        have before : chain[chain.length - 1]? = some previous := by
          rw [← List.getLast?_eq_getElem?, last]
        refine (near_comm holds).mp (trail.along (chain.length - 1) previous current ?_ ?_)
        · exact getElem?_concat_eq_some.mpr (Or.inl before)
        · exact getElem?_concat_eq_some.mpr (Or.inr ⟨by omega, rfl⟩)
      obtain ⟨next, other, apart, edge, only, filtered⟩ := exists_turn holds once two loose back ne
      rw [filtered]
      have trail' := trail_concat holds trail last loose other apart edge only
      obtain ⟨rest, seen'', found, complete, all⟩ := ih trail' List.getLast?_concat (by
        rw [List.tail_append_of_ne_nil some_, List.length_append, List.length_singleton]
        omega) noted'
      rw [List.append_assoc] at found complete all
      exact ⟨next :: rest, seen'', found, complete, all⟩

end Follow

/-! ## All chains -/

section Chains

variable {adjacency : Dict Int (List Int)} {edges : List (Int × Int)} {fixed : List Int}

/-- The chains that were found and the steps that were noted. -/
structure Found (adjacency : Dict Int (List Int)) (fixed : List Int)
    (state : List (List Int) × List (Int × Int)) : Prop where
  chains : ∀ chain ∈ state.1, Chain adjacency fixed chain ∧ 2 < chain.length
  once : (state.1.flatMap inner).Nodup
  comm : ∀ u v, (u, v) ∈ state.2 → (v, u) ∈ state.2
  /-- What was walked was walked to its end. -/
  closed : ∀ u v w, (u, v) ∈ state.2 → v ∉ fixed → w ∈ near adjacency v → (v, w) ∈ state.2
  passed : ∀ u v, (u, v) ∈ state.2 → v ∉ fixed → v ∈ state.1.flatMap inner
  noted : ∀ v ∈ state.1.flatMap inner, ∃ u, (u, v) ∈ state.2

theorem found_nil : Found adjacency fixed ([], []) :=
  ⟨by simp, List.nodup_nil, by simp, by simp, by simp, by simp⟩

theorem Chain.notMem_of_inner {chain : List Int} (h : Chain adjacency fixed chain) {v : Int}
    (mem : v ∈ inner chain) : v ∉ fixed := by
  obtain ⟨k, lt, found⟩ := mem_inner.mp mem
  exact (h.turns k _ v _ (List.getElem?_eq_getElem (by omega)) found (List.getElem?_eq_getElem lt)).1

/-- The points of a chain that are not fixed are its inner ones. -/
theorem Chain.mem_inner_of_step {chain : List Int} (h : Chain adjacency fixed chain) {u v : Int}
    (along : Along chain (u, v)) (loose : v ∉ fixed) :
    ∃ k : Nat, k + 2 < chain.length ∧ chain[k + 1]? = some v := by
  obtain ⟨k, found⟩ : ∃ k : Nat, chain[k]? = some v := by
    rcases along with step | step
    · obtain ⟨k, -, found⟩ := mem_steps.mp step
      exact ⟨k + 1, found⟩
    · obtain ⟨k, found, -⟩ := mem_steps.mp step
      exact ⟨k, found⟩
  have lt := (List.getElem?_eq_some_iff.mp found).1
  cases k with
  | zero =>
    obtain ⟨start, mem, head⟩ := h.starts
    rw [List.head?_eq_getElem?, found] at head
    exact absurd (Option.some.inj head ▸ mem) loose
  | succ k =>
    refine ⟨k, ?_, found⟩
    by_contra end_
    obtain ⟨last, mem, is⟩ := h.ends
    rw [length_of_getLast? (by omega) found] at is
    exact loose (Option.some.inj is ▸ mem)

/-- A new chain has no inner point that was passed before. -/
theorem Found.fresh {state : List (List Int) × List (Int × Int)} (holds : Holds adjacency edges)
    (h : Found adjacency fixed state) {chain : List Int} (new : Chain adjacency fixed chain)
    (first : ∀ u v, chain[0]? = some u → chain[1]? = some v → (u, v) ∉ state.2) {v : Int}
    (mem : v ∈ inner chain) : v ∉ state.1.flatMap inner := by
  have back : ∀ (k : Nat) (u v : Int), chain[k]? = some u → chain[k + 1]? = some v → (u, v) ∉ state.2 := by
    intro k
    induction k with
    | zero => exact first
    | succ k ih =>
      intro u v hu hv seen
      have lt := (List.getElem?_eq_some_iff.mp hu).1
      have ht := List.getElem?_eq_getElem (l := chain) (show k < chain.length by omega)
      have loose := (new.turns k _ u v ht hu hv).1
      have edge := (near_comm holds).mp (new.along k _ u ht hu)
      exact ih _ u ht hu (h.comm _ _ (h.closed v u _ (h.comm _ _ seen) loose edge))
  intro old
  obtain ⟨u, seen⟩ := h.noted v old
  obtain ⟨k, lt, found⟩ := mem_inner.mp mem
  have hk := List.getElem?_eq_getElem (l := chain) (show k < chain.length by omega)
  have edge := (near_comm holds).mp (new.along k _ v hk found)
  exact back k _ v hk found (h.comm _ _ (h.closed u v _ seen (new.notMem_of_inner mem) edge))

/-- One turn of the loops follows the chain of a step, if it is new. -/
theorem followNew_spec (holds : Holds adjacency edges) (once : (edges.map pairOf).Nodup)
    (two : ∀ v, v ∉ fixed → near adjacency v ≠ [] → (near adjacency v).length = 2)
    {state : List (List Int) × List (Int × Int)} (h : Found adjacency fixed state) {start first : Int}
    (mem : start ∈ fixed) (edge : first ∈ near adjacency start) :
    ∃ state', followNew adjacency fixed state (start, first) = .ok state' ∧ Found adjacency fixed state' ∧
      (∀ step ∈ state.2, step ∈ state'.2) ∧ (start, first) ∈ state'.2 := by
  rw [followNew]
  split
  · rename_i seen
    exact ⟨state, rfl, h, fun _ => id, seen⟩
  · rename_i new
    obtain ⟨rest, seen', found, chain, noted⟩ := @follow_spec adjacency edges fixed [start] start first
      holds once two (adjacency.entries.length + 1) state.2 state.2 (trail_pair mem edge) rfl
      (by simp) (by simp [Along, steps])
    rw [found]
    refine ⟨_, rfl, ?_⟩
    have fresh : ∀ v ∈ inner ([start] ++ first :: rest), v ∉ state.1.flatMap inner :=
      fun v hv => h.fresh holds chain (fun u w hu hw => by
        obtain rfl := Option.some.inj hu
        obtain rfl := Option.some.inj hw
        exact new) hv
    -- A chain that is not kept has no inner points.
    have points : ∀ v, v ∈ (if 2 < ([start] ++ first :: rest).length then
        state.1 ++ [[start] ++ first :: rest] else state.1).flatMap inner ↔
        v ∈ state.1.flatMap inner ∨ v ∈ inner ([start] ++ first :: rest) := by
      intro v
      split
      · rw [List.flatMap_append, List.mem_append, List.flatMap_singleton]
      · rename_i short
        refine ⟨Or.inl, fun h => h.resolve_right fun mem => ?_⟩
        obtain ⟨k, lt, -⟩ := mem_inner.mp mem
        omega
    have passed : ∀ u v, (u, v) ∈ seen' → v ∉ fixed →
        (u, v) ∈ state.2 ∨ v ∈ inner ([start] ++ first :: rest) := by
      intro u v seen loose
      refine ((noted (u, v)).mp seen).imp_right fun along => ?_
      exact mem_inner.mpr (chain.mem_inner_of_step along loose)
    -- The steps at an inner point are steps of the chain.
    have at_ : ∀ v w, v ∈ inner ([start] ++ first :: rest) → w ∈ near adjacency v →
        Along ([start] ++ first :: rest) (v, w) := by
      intro v w hv hw
      obtain ⟨k, lt, found⟩ := mem_inner.mp hv
      have hk := List.getElem?_eq_getElem (l := [start] ++ first :: rest) (show k < _ by omega)
      have hk' := List.getElem?_eq_getElem lt
      rcases (chain.turns k _ v _ hk found hk').2.2.2 w hw with rfl | rfl
      · exact Or.inr (mem_steps.mpr ⟨k, hk, found⟩)
      · exact Or.inl (mem_steps.mpr ⟨k + 1, found, hk'⟩)
    refine ⟨⟨?_, ?_, ?_, ?_, ?_, ?_⟩, fun step seen => (noted step).mpr (Or.inl seen), ?_⟩
    · intro other hother
      dsimp only at hother
      split at hother
      · rename_i long
        rcases List.mem_append.mp hother with hother | hother
        · exact h.chains other hother
        · obtain rfl := List.mem_singleton.mp hother
          exact ⟨chain, long⟩
      · exact h.chains other hother
    · dsimp only
      split
      · rw [List.flatMap_append, List.flatMap_singleton]
        refine List.nodup_append.mpr ⟨h.once, chain.once, fun a ha b hb => ?_⟩
        rintro rfl
        exact fresh a hb ha
      · exact h.once
    · intro u v seen
      rcases (noted (u, v)).mp seen with old | along
      · exact (noted (v, u)).mpr (Or.inl (h.comm u v old))
      · exact (noted (v, u)).mpr (Or.inr along.symm)
    · intro u v w seen loose hw
      rcases passed u v seen loose with old | inside
      · exact (noted (v, w)).mpr (Or.inl (h.closed u v w old loose hw))
      · exact (noted (v, w)).mpr (Or.inr (at_ v w inside hw))
    · intro u v seen loose
      refine (points v).mpr ?_
      exact (passed u v seen loose).imp_left fun old => h.passed u v old loose
    · intro v hv
      rcases (points v).mp hv with old | inside
      · obtain ⟨u, seen⟩ := h.noted v old
        exact ⟨u, (noted (u, v)).mpr (Or.inl seen)⟩
      · obtain ⟨k, lt, found⟩ := mem_inner.mp inside
        have hk := List.getElem?_eq_getElem (l := [start] ++ first :: rest) (show k < _ by omega)
        exact ⟨_, (noted (_, v)).mpr (Or.inr (Or.inl (mem_steps.mpr ⟨k, hk, found⟩)))⟩
    · exact (noted (start, first)).mpr (Or.inr (Or.inl (mem_steps.mpr ⟨0, rfl, rfl⟩)))

theorem foldlM_followNew (holds : Holds adjacency edges) (once : (edges.map pairOf).Nodup)
    (two : ∀ v, v ∉ fixed → near adjacency v ≠ [] → (near adjacency v).length = 2)
    {todo : List (Int × Int)} (starts : ∀ step ∈ todo, step.1 ∈ fixed ∧ step.2 ∈ near adjacency step.1)
    {state : List (List Int) × List (Int × Int)} (h : Found adjacency fixed state) :
    ∃ state', todo.foldlM (followNew adjacency fixed) state = .ok state' ∧
      Found adjacency fixed state' ∧ (∀ step ∈ state.2, step ∈ state'.2) ∧ ∀ step ∈ todo, step ∈ state'.2 := by
  induction todo generalizing state with
  | nil => exact ⟨state, rfl, h, fun _ => id, by simp⟩
  | cons step todo ih =>
    obtain ⟨start, edge⟩ := starts step List.mem_cons_self
    obtain ⟨next, turn, h', grows, seen⟩ := followNew_spec holds once two h start edge
    obtain ⟨state', all, h'', grows', seen'⟩ := ih (fun step mem => starts step (List.mem_cons_of_mem _ mem)) h'
    refine ⟨state', ?_, h'', fun step mem => grows' step (grows step mem), ?_⟩
    · rw [List.foldlM_cons, turn]
      exact all
    · exact List.forall_mem_cons.mpr ⟨grows' _ seen, seen'⟩

/-- The chains between fixed points: they have no inner point in common, and every loose point next to a fixed
one is on one of them. -/
structure AreChains (adjacency : Dict Int (List Int)) (fixed : List Int) (chains : List (List Int)) :
    Prop where
  each : ∀ chain ∈ chains, Chain adjacency fixed chain ∧ 2 < chain.length
  once : (chains.flatMap inner).Nodup
  reached : ∀ u ∈ fixed, ∀ v ∈ near adjacency u, v ∉ fixed → v ∈ chains.flatMap inner

theorem chainsOf_spec (holds : Holds adjacency edges) (once : (edges.map pairOf).Nodup)
    {every : List Int} (two : ∀ v, v ∉ startsOf fixed every → near adjacency v ≠ [] →
      (near adjacency v).length = 2) :
    ∃ chains, chainsOf adjacency fixed every = .ok chains ∧
      AreChains adjacency (startsOf fixed every) chains := by
  obtain ⟨state, found, h, -, seen⟩ := @foldlM_followNew adjacency edges (startsOf fixed every) holds once
    two ((startsOf fixed every).flatMap fun start => (near adjacency start).map fun first =>
      (start, first)) (by
        intro step mem
        obtain ⟨start, hstart, mem⟩ := List.mem_flatMap.mp mem
        obtain ⟨first, hfirst, rfl⟩ := List.mem_map.mp mem
        exact ⟨hstart, hfirst⟩) ([], []) found_nil
  refine ⟨state.1, ?_, h.chains, h.once, fun u hu v hv loose => ?_⟩
  · rw [chainsOf, found]
    rfl
  · refine h.passed u v (seen _ ?_) loose
    exact List.mem_flatMap.mpr ⟨u, hu, List.mem_map_of_mem hv⟩

/-- An inner point is that of one chain, at one place. -/
theorem AreChains.unique {chains : List (List Int)} (are : AreChains adjacency fixed chains)
    {chain chain' : List Int} (mem : chain ∈ chains) (mem' : chain' ∈ chains) {k k' : Nat} {v : Int}
    (lt : k + 2 < chain.length) (lt' : k' + 2 < chain'.length) (found : chain[k + 1]? = some v)
    (found' : chain'[k' + 1]? = some v) : chain = chain' ∧ k = k' := by
  obtain ⟨each, apart⟩ := List.nodup_flatMap.mp are.once
  have same : chain = chain' := by
    by_contra ne
    have comm : Std.Symm (Function.onFun List.Disjoint inner) := ⟨fun _ _ h v hv hw => h hw hv⟩
    have disjoint : List.Disjoint (inner chain) (inner chain') := apart.forall mem mem' ne
    exact disjoint (mem_inner.mpr ⟨k, lt, found⟩) (mem_inner.mpr ⟨k', lt', found'⟩)
  subst same
  refine ⟨rfl, ?_⟩
  have at_ : ∀ {j : Nat}, j + 2 < chain.length → chain[j + 1]? = some v → (inner chain)[j]? = some v := by
    intro j lt found
    rw [inner, List.getElem?_dropLast, List.getElem?_tail, List.length_tail, if_pos (by omega), found]
  have inside := (List.getElem?_eq_some_iff.mp (at_ lt found)).1
  exact (List.getElem?_inj inside (each chain mem)).mp ((at_ lt found).trans (at_ lt' found').symm)

/-- From the points of chains no walk leads away. -/
theorem AreChains.closed {chains : List (List Int)} (are : AreChains adjacency fixed chains) {u v : Int}
    (here : u ∈ fixed ∨ u ∈ chains.flatMap inner) (edge : v ∈ near adjacency u) :
    v ∈ fixed ∨ v ∈ chains.flatMap inner := by
  by_cases loose : v ∈ fixed
  · exact Or.inl loose
  refine Or.inr ?_
  rcases here with mem | mem
  · exact are.reached u mem v edge loose
  · obtain ⟨chain, hchain, mem⟩ := List.mem_flatMap.mp mem
    obtain ⟨k, lt, found⟩ := mem_inner.mp mem
    have complete := (are.each chain hchain).1
    have hk := List.getElem?_eq_getElem (l := chain) (show k < chain.length by omega)
    have hk' := List.getElem?_eq_getElem lt
    refine List.mem_flatMap.mpr ⟨chain, hchain, mem_inner.mpr (complete.mem_inner_of_step (u := u) ?_ loose)⟩
    rcases (complete.turns k _ u _ hk found hk').2.2.2 v edge with rfl | rfl
    · exact Or.inr (mem_steps.mpr ⟨k, hk, found⟩)
    · exact Or.inl (mem_steps.mpr ⟨k + 1, found, hk'⟩)

end Chains

end TcadWebapp.Remesh
