import TcadWebapp.Remesh.Loops
import TcadWebapp.StrParser.Sides

/-!
# The walks of `_loops`

Where every point has an even number of edges of a region, the walks close and use every edge once
(`loopsOf_spec`).
-/

namespace TcadWebapp.Remesh

open StrParser

/-- The edges that a loop goes along. -/
def stepPairs (loop : List Int) : List (Int × Int) :=
  (loop.zip loop.tail).map fun step => edgePair step.1 step.2

theorem stepPairs_concat {loop : List Int} {current : Int} (last : loop.getLast? = some current)
    (next : Int) : stepPairs (loop ++ [next]) = stepPairs loop ++ [edgePair current next] := by
  induction loop with
  | nil => cases last
  | cons point loop ih =>
    cases loop with
    | nil =>
      obtain rfl : point = current := by simpa using last
      rfl
    | cons second loop =>
      rw [List.getLast?_cons_cons] at last
      have later := ih last
      simp only [stepPairs, List.cons_append, List.tail_cons, List.zip_cons_cons, List.map_cons] at later ⊢
      rw [later]

/-- The pair of an edge. -/
def pairOf (edge : Int × Int) : Int × Int := edgePair edge.1 edge.2

theorem pairOf_of_is {e : Int × Int} {current next : Int} (is : e = (current, next) ∨ e = (next, current)) :
    pairOf e = edgePair current next := by
  rcases is with rfl | rfl
  · rfl
  · exact edgePair_comm next current

/-! ## One loop -/

section Walk

variable {region start current : Int} {remaining : Dict Int (List Int)} {edges : List (Int × Int)}

/-- A turn takes an edge at the current point, if there is one. -/
theorem takeEdge_spec (holds : Holds remaining edges) (pos : 0 < degree edges current) :
    ∃ next remaining' e left, takeEdge remaining current = some (next, remaining') ∧
      (e = (current, next) ∨ e = (next, current)) ∧ edges.Perm (e :: left) ∧ Holds remaining' left := by
  have some_ := holds.near_ne_nil pos
  obtain ⟨front, next, split⟩ : ∃ front next, near remaining current = front ++ [next] :=
    ⟨_, _, (List.dropLast_append_getLast some_).symm⟩
  have taken : (near remaining current).Perm (next :: front) := by
    rw [split]
    exact List.perm_append_singleton next front
  obtain ⟨back, e, left, is, perm, holds'⟩ := holds.take taken
  refine ⟨next, _, e, left, ?_, is, perm, holds'⟩
  rw [takeEdge, split, List.getLast?_concat]
  dsimp only
  rw [List.dropLast_concat, if_pos back]

/-- The inner loop comes back to its start, and leaves the degrees even. -/
theorem walk_spec (fuel : Nat) {loop : List Int} (holds : Holds remaining edges)
    (even : EvenBut edges start current) (pos : 0 < degree edges current) (enough : edges.length ≤ fuel)
    (last : loop.getLast? = some current) :
    ∃ added remaining' taken left, walk region start fuel current remaining loop =
        .ok (loop ++ added, remaining') ∧ Holds remaining' left ∧ EvenBut left start start ∧
      edges.Perm (taken ++ left) ∧ added ≠ [] ∧ added.getLast? = some start ∧
      stepPairs (loop ++ added) = stepPairs loop ++ taken.map pairOf := by
  induction fuel generalizing current remaining edges loop with
  | zero =>
    have : edges = [] := List.eq_nil_of_length_eq_zero (Nat.le_zero.mp enough)
    rw [this] at pos
    cases pos
  | succ fuel ih =>
    obtain ⟨next, remaining', e, left, turn, is, perm, holds'⟩ := takeEdge_spec holds pos
    have even' := evenBut_step even is perm
    have length := perm.length_eq
    rw [List.length_cons] at length
    have step := stepPairs_concat last next
    rw [← pairOf_of_is is] at step
    rw [walk, turn]
    dsimp only
    split
    · rename_i home
      subst home
      exact ⟨[next], remaining', [e], left, rfl, holds', even', perm, by simp, rfl, step⟩
    · rename_i away
      obtain ⟨added, remaining'', taken, left', walked, holds'', even'', perm', something, ends, pairs⟩ :=
        ih holds' even' (degree_pos_of_evenBut even' away) (by omega)
          (List.getLast?_concat : (loop ++ [next]).getLast? = some next)
      refine ⟨next :: added, remaining'', e :: taken, left', ?_, holds'', even'', ?_, by simp, ?_, ?_⟩
      · rw [walked, List.append_assoc]
        rfl
      · exact perm.trans (perm'.cons e)
      · rwa [List.getLast?_cons_of_ne_nil something]
      · rw [← List.singleton_append, ← List.append_assoc, pairs, step, List.append_assoc]
        rfl

end Walk

/-! ## All loops -/

/-- A loop starts and ends in one point and goes along some edge. -/
structure Closed (loop : List Int) : Prop where
  ends : ∃ start, loop.head? = some start ∧ loop.getLast? = some start
  goes : 2 ≤ loop.length

/-- The outer loop walks along every edge once. -/
theorem loopsFrom_spec {region : Int} {bound : Nat} (fuel : Nat) {remaining : Dict Int (List Int)}
    {edges : List (Int × Int)} {loops : List (List Int)} (holds : Holds remaining edges)
    (even : ∀ v, Even (degree edges v)) (enough : edges.length ≤ fuel) (enough' : edges.length ≤ bound) :
    ∃ more, loopsFrom region bound fuel remaining loops = .ok (loops ++ more) ∧
      (∀ loop ∈ more, Closed loop) ∧ (more.flatMap stepPairs).Perm (edges.map pairOf) := by
  induction fuel generalizing remaining edges loops with
  | zero =>
    obtain rfl := List.eq_nil_of_length_eq_zero (Nat.le_zero.mp enough)
    have nothing : remaining.entries = [] := by
      refine List.eq_nil_iff_forall_not_mem.mpr fun entry mem => ?_
      have pos := holds.degree_pos_of_key (List.mem_map_of_mem mem : entry.1 ∈ remaining.keys)
      cases pos
    refine ⟨[], ?_, by simp, by simp⟩
    rw [loopsFrom_of_empty nothing, List.append_nil]
  | succ fuel ih =>
    cases entries : remaining.entries with
    | nil =>
      obtain rfl := holds.eq_nil_of_empty entries
      refine ⟨[], ?_, by simp, by simp⟩
      rw [loopsFrom_of_empty entries, List.append_nil]
    | cons entry rest =>
      obtain ⟨start, noted⟩ := entry
      have key : start ∈ remaining.keys := by
        rw [Dict.keys, entries]
        exact List.mem_cons_self
      obtain ⟨added, remaining', taken, left, walked, holds', even', perm, something, ends, pairs⟩ :=
        @walk_spec region start start remaining edges bound [start] holds (evenBut_self even start)
          (holds.degree_pos_of_key key) enough' rfl
      have length := perm.length_eq
      rw [List.length_append] at length
      have along : taken ≠ [] := by
        rintro rfl
        have := congrArg List.length pairs
        obtain ⟨point, added, rfl⟩ := List.exists_cons_of_ne_nil something
        simp [stepPairs] at this
      have some_ := List.length_pos_of_ne_nil along
      obtain ⟨more, found, closed, all⟩ := @ih remaining' left (loops ++ [[start] ++ added])
        holds' (even_of_evenBut even') (by omega) (by omega)
      refine ⟨([start] ++ added) :: more, ?_, ?_, ?_⟩
      · rw [loopsFrom_succ entries, walked]
        refine found.trans ?_
        rw [List.append_assoc]
        rfl
      · refine List.forall_mem_cons.mpr ⟨⟨⟨start, rfl, ?_⟩, ?_⟩, closed⟩
        · exact (List.getLast?_cons_of_ne_nil something).trans ends
        · have := List.length_pos_of_ne_nil something
          simp only [List.length_append, List.length_singleton]
          omega
      · rw [List.flatMap_cons, pairs]
        refine List.Perm.trans ?_ (perm.map pairOf).symm
        rw [List.map_append]
        exact all.append_left _

theorem loopsOf_spec {region : Int} {bound : Nat} {side : Dict Int (List Int)}
    {edges : List (Int × Int)} (holds : Holds side edges) (even : ∀ v, Even (degree edges v))
    (enough : edges.length ≤ bound) : ∃ loops, loopsOf region bound side = .ok loops ∧
      (∀ loop ∈ loops, Closed loop) ∧ (loops.flatMap stepPairs).Perm (edges.map pairOf) :=
  loopsFrom_spec bound holds even enough enough

end TcadWebapp.Remesh
