import Mathlib.Data.Finset.Card
import Mathlib.Logic.Relation
import TcadWebapp.Devsim.Electrodes

/-!
# The clusters of conducting elements

The breadth-first loop marks what it queues, so no element is queued twice and the fuel is
enough. What it returns is the set of elements that a path of conducting elements joins to its
start; it raises exactly if one of these has a neighbour beyond the list (`Indexed`).
-/

namespace TcadWebapp.Devsim

open StrParser

/-- No neighbour of the element at `i` is beyond the list. -/
def Indexed (elements : List Element) (i : Nat) : Prop :=
  ∀ element, elements[i]? = some element → ∀ neighbor ∈ element.neighbors,
    neighbor < elements.length

/-- `j` conducts and is a neighbour of `i`. -/
def Borders (elements : List Element) (conducts : List Bool) (i j : Nat) : Prop :=
  conducts[j]? = some true ∧ ∃ element, elements[i]? = some element ∧ (j : Int) ∈ element.neighbors

/-! ## The neighbours of one element -/

section Spread

variable {conducts : List Bool} {neighbors : List Int} {seen : List Bool}

/-- The elements `news` are the neighbours that conduct and were not seen; now they are. -/
structure Marks (conducts : List Bool) (neighbors : List Int) (seen : List Bool) (news : List Nat)
    (seen' : List Bool) : Prop where
  length : seen'.length = seen.length
  nodup : news.Nodup
  mem : ∀ j : Nat, j ∈ news ↔
    (j : Int) ∈ neighbors ∧ conducts[j]? = some true ∧ seen[j]? = some false
  marked : ∀ j : Nat, seen'[j]? = some true ↔ j ∈ news ∨ seen[j]? = some true

/-- A neighbour that is seen or does not conduct adds nothing. -/
theorem Marks.skip {neighbor : Int} {rest : List Int} {news : List Nat} {seen' : List Bool}
    (h : Marks conducts rest seen news seen')
    (nothing : ∀ j : Nat, (j : Int) = neighbor → ¬ (conducts[j]? = some true ∧
      seen[j]? = some false)) : Marks conducts (neighbor :: rest) seen news seen' := by
  refine ⟨h.length, h.nodup, ?_, h.marked⟩
  intro j
  rw [h.mem, List.mem_cons]
  constructor
  · intro h
    exact ⟨Or.inr h.1, h.2⟩
  · intro h
    rcases h.1 with e | hr
    · exact absurd h.2 (nothing j e)
    · exact ⟨hr, h.2⟩

/-- One that conducts and was not seen comes first. -/
theorem Marks.cons {i : Nat} {rest : List Int} {news : List Nat} {seen' : List Bool}
    (h : Marks conducts rest (seen.set i true) news seen') (lt : i < seen.length)
    (conducting : conducts[i]? = some true) (new : seen[i]? = some false) :
    Marks conducts (i :: rest) seen (i :: news) seen' := by
  have old : i ∉ news := by
    rw [h.mem, List.getElem?_set_self lt]
    simp
  refine ⟨by rw [h.length, List.length_set], List.nodup_cons.mpr ⟨old, h.nodup⟩, ?_, ?_⟩
  · intro j
    rw [List.mem_cons, h.mem, List.mem_cons]
    by_cases e : j = i
    · simp [e, conducting, new]
    · have : (j : Int) ≠ i := by omega
      rw [List.getElem?_set_ne (Ne.symm e)]
      simp [e, this]
  · intro j
    rw [h.marked, List.mem_cons]
    by_cases e : j = i
    · simp [e, List.getElem?_set_self lt]
    · rw [List.getElem?_set_ne (Ne.symm e)]
      simp [e]

theorem spread_spec (queue : List Nat) (inside : ∀ neighbor ∈ neighbors, neighbor < seen.length) :
    ∃ seen' news, spread conducts neighbors seen queue = .ok (seen', queue ++ news) ∧
      Marks conducts neighbors seen news seen' := by
  induction neighbors generalizing seen queue with
  | nil => exact ⟨seen, [], by simp [spread], by simp, by simp, by simp, by simp⟩
  | cons neighbor rest ih =>
    have inside' : ∀ neighbor ∈ rest, neighbor < seen.length :=
      fun n hn => inside n (List.mem_cons_of_mem _ hn)
    obtain ⟨seen', news, h, marks⟩ := ih queue inside'
    unfold spread
    by_cases neg : neighbor < 0
    · rw [if_pos neg]
      exact ⟨seen', news, h, marks.skip fun j e => by omega⟩
    · rw [if_neg neg]
      have lt : neighbor.toNat < seen.length := by
        have := inside neighbor List.mem_cons_self
        omega
      have found : seen[neighbor.toNat]? = some seen[neighbor.toNat] :=
        List.getElem?_eq_getElem lt
      rw [found]
      cases hs : seen[neighbor.toNat] with
      | true =>
        rw [hs] at found
        refine ⟨seen', news, h, marks.skip fun j e => ?_⟩
        have : j = neighbor.toNat := by omega
        simp [this, found]
      | false =>
        rw [hs] at found
        dsimp only
        by_cases conducting : conducts[neighbor.toNat]? = some true
        · rw [if_pos conducting]
          have inside'' : ∀ n ∈ rest, n < (seen.set neighbor.toNat true).length := by
            rwa [List.length_set]
          obtain ⟨seen', news, h, marks⟩ := ih (queue ++ [neighbor.toNat]) inside''
          refine ⟨seen', neighbor.toNat :: news, ?_, ?_⟩
          · rw [h, List.append_assoc, List.singleton_append]
          · have same : ((neighbor.toNat : Nat) : Int) = neighbor := by omega
            exact same ▸ marks.cons lt conducting found
        · rw [if_neg conducting]
          refine ⟨seen', news, h, marks.skip fun j e => ?_⟩
          have : j = neighbor.toNat := by omega
          simp [this, conducting]

theorem spread_raises (queue : List Nat) (outside : ∃ neighbor ∈ neighbors, seen.length ≤ neighbor) :
    spread conducts neighbors seen queue = .error .indexError := by
  induction neighbors generalizing seen queue with
  | nil => simp at outside
  | cons neighbor rest ih =>
    unfold spread
    by_cases far : seen.length ≤ neighbor
    · rw [if_neg (by omega), List.getElem?_eq_none (by omega)]
    · have rest' : ∃ neighbor ∈ rest, seen.length ≤ neighbor := by
        obtain ⟨n, hn, h⟩ := outside
        rcases List.mem_cons.mp hn with rfl | hn
        · exact absurd h far
        · exact ⟨n, hn, h⟩
      split
      · exact ih queue rest'
      · split
        · rfl
        · exact ih queue rest'
        · split
          · exact ih _ (by rwa [List.length_set])
          · exact ih queue rest'

end Spread

/-! ## One cluster -/

section Flood

variable {elements : List Element} {conducts : List Bool} {before : List Bool} {start : Nat}

/-- The loop from `start`, over what was seen before: the elements of the group are done, those
of the queue are not. -/
structure Flooding (elements : List Element) (conducts before : List Bool) (start : Nat)
    (seen : List Bool) (queue group : List Nat) : Prop where
  length : seen.length = elements.length
  nodup : (group ++ queue).Nodup
  seen_iff : ∀ j : Nat, seen[j]? = some true ↔ j ∈ group ++ queue ∨ before[j]? = some true
  fresh : ∀ j ∈ group ++ queue, before[j]? ≠ some true
  conducting : ∀ j ∈ group ++ queue, conducts[j]? = some true
  reached : ∀ j ∈ group ++ queue, Relation.ReflTransGen (Borders elements conducts) start j
  done : ∀ i ∈ group, Indexed elements i ∧
    ∀ j, Borders elements conducts i j → seen[j]? = some true

theorem Flooding.lt {seen : List Bool} {queue group : List Nat}
    (h : Flooding elements conducts before start seen queue group) {j : Nat}
    (mem : j ∈ group ++ queue) : j < elements.length := by
  rw [← h.length]
  exact (List.getElem?_eq_some_iff.mp ((h.seen_iff j).mpr (Or.inl mem))).1

/-- No element is queued twice. -/
theorem Flooding.length_le {seen : List Bool} {queue group : List Nat}
    (h : Flooding elements conducts before start seen queue group) :
    (group ++ queue).length ≤ elements.length := by
  rw [← List.toFinset_card_of_nodup h.nodup, ← Finset.card_range elements.length]
  refine Finset.card_le_card fun j hj => ?_
  exact Finset.mem_range.mpr (h.lt (List.mem_toFinset.mp hj))

/-- The next element of the queue is done. -/
theorem Flooding.step {seen seen' : List Bool} {i : Nat} {queue group news : List Nat}
    (h : Flooding elements conducts before start seen (i :: queue) group) {element : Element}
    (found : elements[i]? = some element) (indexed : Indexed elements i)
    (marks : Marks conducts element.neighbors seen news seen') :
    Flooding elements conducts before start seen' (queue ++ news) (group ++ [i]) := by
  have same : (group ++ [i]) ++ (queue ++ news) = (group ++ i :: queue) ++ news := by simp
  have fresh : ∀ j ∈ news, j ∉ group ++ i :: queue := by
    intro j hj old
    have := (h.seen_iff j).mpr (Or.inl old)
    rw [((marks.mem j).mp hj).2.2] at this
    cases this
  have kept : ∀ j, seen[j]? = some true → seen'[j]? = some true :=
    fun j hj => (marks.marked j).mpr (Or.inr hj)
  refine ⟨marks.length.trans h.length, ?_, ?_, ?_, ?_, ?_, ?_⟩
  · rw [same, List.nodup_append]
    refine ⟨h.nodup, marks.nodup, ?_⟩
    intro j hj j' hj' e
    exact fresh j' hj' (e ▸ hj)
  · intro j
    rw [same, marks.marked, h.seen_iff, @List.mem_append _ j (group ++ i :: queue)]
    tauto
  · intro j hj
    rw [same, List.mem_append] at hj
    rcases hj with hj | hj
    · exact h.fresh j hj
    · intro old
      have := (h.seen_iff j).mpr (Or.inr old)
      rw [((marks.mem j).mp hj).2.2] at this
      cases this
  · intro j hj
    rw [same, List.mem_append] at hj
    rcases hj with hj | hj
    · exact h.conducting j hj
    · exact ((marks.mem j).mp hj).2.1
  · intro j hj
    rw [same, List.mem_append] at hj
    rcases hj with hj | hj
    · exact h.reached j hj
    · have border := (marks.mem j).mp hj
      exact (h.reached i (by simp)).tail ⟨border.2.1, element, found, border.1⟩
  · intro k hk
    rcases List.mem_append.mp hk with hk | hk
    · exact ⟨(h.done k hk).1, fun j border => kept j ((h.done k hk).2 j border)⟩
    · obtain rfl := List.mem_singleton.mp hk
      refine ⟨indexed, ?_⟩
      intro j border
      obtain ⟨conducting, element', found', near⟩ := border
      obtain rfl := Option.some.inj (found.symm.trans found')
      have lt : j < seen.length := by
        have := indexed element found j near
        rw [h.length]
        omega
      cases hs : seen[j] with
      | true =>
        exact kept j (List.getElem?_eq_some_iff.mpr ⟨lt, hs⟩)
      | false =>
        refine (marks.marked j).mpr (Or.inl ((marks.mem j).mpr ⟨near, conducting, ?_⟩))
        exact List.getElem?_eq_some_iff.mpr ⟨lt, hs⟩

/-- The loop ends with an empty queue, or raises at an element that it has reached. -/
theorem flood_spec (fuel : Nat) {seen : List Bool} {queue group : List Nat}
    (h : Flooding elements conducts before start seen queue group)
    (enough : fuel + group.length = elements.length) :
    (∃ seen' group', flood elements conducts fuel seen queue group = .ok (seen', group') ∧
      Flooding elements conducts before start seen' [] group' ∧
      ∀ j ∈ group ++ queue, j ∈ group') ∨
    (flood elements conducts fuel seen queue group = .error .indexError ∧
      ∃ i, conducts[i]? = some true ∧ ¬ Indexed elements i) := by
  induction fuel generalizing seen queue group with
  | zero =>
    have := h.length_le
    cases queue with
    | nil => exact Or.inl ⟨seen, group, rfl, h, by simp⟩
    | cons i queue =>
      simp only [List.length_append, List.length_cons] at this
      omega
  | succ fuel ih =>
    cases queue with
    | nil => exact Or.inl ⟨seen, group, rfl, h, by simp⟩
    | cons i queue =>
      have mem : i ∈ group ++ i :: queue := by simp
      obtain ⟨element, found⟩ : ∃ element, elements[i]? = some element :=
        ⟨_, List.getElem?_eq_getElem (h.lt mem)⟩
      have unfolded : flood elements conducts (fuel + 1) seen (i :: queue) group =
          (spread conducts element.neighbors seen queue).bind fun next =>
            flood elements conducts fuel next.1 next.2 (group ++ [i]) := by
        rw [flood, index_natCast, found]
        rfl
      by_cases indexed : Indexed elements i
      · have inside : ∀ neighbor ∈ element.neighbors, neighbor < seen.length :=
          h.length ▸ indexed element found
        obtain ⟨seen', news, spreads, marks⟩ := @spread_spec conducts _ seen queue inside
        rw [unfolded, spreads]
        rcases ih (h.step found indexed marks) (by simp; omega) with ⟨seen', group', h⟩ | raised
        · refine Or.inl ⟨seen', group', h.1, h.2.1, fun j hj => h.2.2 j ?_⟩
          simp only [List.mem_append, List.mem_cons] at hj ⊢
          tauto
        · exact Or.inr raised
      · refine Or.inr ⟨?_, i, h.conducting i mem, indexed⟩
        rw [unfolded, spread_raises]
        · rfl
        · unfold Indexed at indexed
          push Not at indexed
          obtain ⟨element', found', neighbor, hn, far⟩ := indexed
          obtain rfl := Option.some.inj (found.symm.trans found')
          exact ⟨neighbor, hn, h.length ▸ far⟩

end Flood

/-! ## All clusters -/

section Clusters

variable {elements : List Element} {conducts : List Bool}

/-- A cluster: of conducting elements, all joined to one of them. -/
structure IsCluster (elements : List Element) (conducts : List Bool) (cluster : List Nat) :
    Prop where
  nodup : cluster.Nodup
  sorted : cluster.Pairwise (· ≤ ·)
  conducting : ∀ i ∈ cluster, conducts[i]? = some true
  indexed : ∀ i ∈ cluster, Indexed elements i
  joined : ∃ start ∈ cluster, ∀ i ∈ cluster,
    Relation.ReflTransGen (Borders elements conducts) start i

/-- The clusters found so far hold exactly what is seen, and what borders it. -/
structure Clustering (elements : List Element) (conducts seen : List Bool)
    (clusters : List (List Nat)) : Prop where
  length : seen.length = elements.length
  seen_iff : ∀ j : Nat, seen[j]? = some true ↔ j ∈ clusters.flatten
  nodup : clusters.flatten.Nodup
  each : ∀ cluster ∈ clusters, IsCluster elements conducts cluster
  closed : ∀ i ∈ clusters.flatten, ∀ j, Borders elements conducts i j → seen[j]? = some true
  /-- No cluster borders one that was found after it. -/
  ordered : clusters.Pairwise fun earlier later =>
    ∀ i ∈ earlier, ∀ j ∈ later, ¬ Borders elements conducts i j

/-- The loop from an element that is not seen adds its cluster. -/
theorem Clustering.add {seen seen' : List Bool} {clusters : List (List Nat)} {start : Nat}
    {group : List Nat} (h : Clustering elements conducts seen clusters)
    (flooded : Flooding elements conducts seen start seen' [] group) (mem : start ∈ group) :
    Clustering elements conducts seen' (clusters ++ [group.insertionSort (· ≤ ·)]) := by
  have members : ∀ j, j ∈ (clusters ++ [group.insertionSort (· ≤ ·)]).flatten ↔
      j ∈ clusters.flatten ∨ j ∈ group := by
    intro j
    simp
  have perm := List.perm_insertionSort (· ≤ ·) group
  have nodup : group.Nodup := by simpa using flooded.nodup
  refine ⟨flooded.length, ?_, ?_, ?_, ?_, ?_⟩
  · intro j
    rw [members, flooded.seen_iff, List.append_nil, h.seen_iff]
    exact or_comm
  · rw [List.flatten_append, List.flatten_singleton, List.nodup_append]
    refine ⟨h.nodup, perm.nodup_iff.mpr nodup, ?_⟩
    intro j hj j' hj' e
    have old := flooded.fresh j' (by simpa using hj')
    exact old (e ▸ (h.seen_iff j).mpr hj)
  · intro cluster hc
    rcases List.mem_append.mp hc with hc | hc
    · exact h.each cluster hc
    · obtain rfl := List.mem_singleton.mp hc
      refine ⟨perm.nodup_iff.mpr nodup, List.pairwise_insertionSort _ _, ?_, ?_, start,
        perm.mem_iff.mpr mem, ?_⟩
      · intro i hi
        exact flooded.conducting i (by simpa using hi)
      · intro i hi
        exact (flooded.done i (perm.mem_iff.mp hi)).1
      · intro i hi
        exact flooded.reached i (by simpa using hi)
  · intro i hi j border
    rcases (members i).mp hi with hi | hi
    · exact (flooded.seen_iff j).mpr (Or.inr (h.closed i hi j border))
    · exact (flooded.done i hi).2 j border
  · refine List.pairwise_append.mpr ⟨h.ordered, List.pairwise_singleton _ _, ?_⟩
    intro earlier he later hl i hi j hj border
    obtain rfl := List.mem_singleton.mp hl
    have old := h.closed i (List.mem_flatten.mpr ⟨earlier, he, hi⟩) j border
    exact flooded.fresh j (by simpa using hj) old

theorem clustersFrom_spec {starts : List Nat} {seen : List Bool} {clusters : List (List Nat)}
    (h : Clustering elements conducts seen clusters)
    (inside : ∀ start ∈ starts, start < elements.length) :
    (∃ seen' clusters', clustersFrom elements conducts starts seen clusters = .ok clusters' ∧
      Clustering elements conducts seen' clusters' ∧
      (∀ j : Nat, seen[j]? = some true → seen'[j]? = some true) ∧
      ∀ start ∈ starts, conducts[start]? = some true → seen'[start]? = some true) ∨
    (clustersFrom elements conducts starts seen clusters = .error .indexError ∧
      ∃ i, conducts[i]? = some true ∧ ¬ Indexed elements i) := by
  induction starts generalizing seen clusters with
  | nil => exact Or.inl ⟨seen, clusters, rfl, h, fun _ hj => hj, by simp⟩
  | cons start starts ih =>
    have inside' : ∀ start ∈ starts, start < elements.length :=
      fun s hs => inside s (List.mem_cons_of_mem _ hs)
    unfold clustersFrom
    split
    · rename_i skip
      rcases ih h inside' with ⟨seen', clusters', found, good, more, all⟩ | raised
      · refine Or.inl ⟨seen', clusters', found, good, more, ?_⟩
        intro s hs conducting
        rcases List.mem_cons.mp hs with rfl | hs
        · rcases skip with old | idle
          · exact more s old
          · exact absurd conducting idle
        · exact all s hs conducting
      · exact Or.inr raised
    · rename_i begin
      rw [not_or, not_not] at begin
      obtain ⟨new, conducting⟩ := begin
      have lt : start < seen.length := h.length ▸ inside start List.mem_cons_self
      have first : Flooding elements conducts seen start (seen.set start true) [start] [] := by
        refine ⟨?_, by simp, ?_, ?_, ?_, ?_, by simp⟩
        · rw [List.length_set, h.length]
        · intro j
          rw [List.nil_append, List.mem_singleton]
          by_cases e : j = start
          · simp [e, List.getElem?_set_self lt]
          · rw [List.getElem?_set_ne (Ne.symm e)]
            simp [e]
        · intro j hj
          obtain rfl : j = start := by simpa using hj
          exact new
        · intro j hj
          obtain rfl : j = start := by simpa using hj
          exact conducting
        · intro j hj
          obtain rfl : j = start := by simpa using hj
          exact .refl
      rcases flood_spec elements.length first (by simp) with
        ⟨seen', group, floods, flooded, grown⟩ | raised
      · have mem : start ∈ group := grown start (by simp)
        have kept : ∀ j : Nat, seen[j]? = some true → seen'[j]? = some true :=
          fun j hj => (flooded.seen_iff j).mpr (Or.inr hj)
        rw [floods]
        rcases ih (h.add flooded mem) inside' with ⟨seen'', clusters', found, good, more, all⟩ | raised
        · refine Or.inl ⟨seen'', clusters', found, good, fun j hj => more j (kept j hj), ?_⟩
          intro s hs conducting
          rcases List.mem_cons.mp hs with rfl | hs
          · exact more s ((flooded.seen_iff s).mpr (Or.inl (by simpa using mem)))
          · exact all s hs conducting
        · exact Or.inr raised
      · refine Or.inr ⟨?_, raised.2⟩
        rw [raised.1]
        rfl

end Clusters

/-- The clusters of a structure: each conducting element is in exactly one of them. -/
structure AreClusters (elements : List Element) (conducts : List Bool)
    (clusters : List (List Nat)) : Prop where
  nodup : clusters.flatten.Nodup
  each : ∀ cluster ∈ clusters, IsCluster elements conducts cluster
  covered : ∀ i : Nat, conducts[i]? = some true → ∃ cluster ∈ clusters, i ∈ cluster
  closed : ∀ i ∈ clusters.flatten, ∀ j, Borders elements conducts i j → j ∈ clusters.flatten
  ordered : clusters.Pairwise fun earlier later =>
    ∀ i ∈ earlier, ∀ j ∈ later, ¬ Borders elements conducts i j

/-- `conductor_clusters` raises exactly if a conducting element has a neighbour beyond the
list. -/
theorem conductorClusters_spec (s : Structure Rat) (conductors : List String) :
    ((∀ i : Nat, (isConductor s conductors)[i]? = some true → Indexed s.elements i) ∧
      ∃ clusters, conductorClusters s conductors = .ok clusters ∧
        AreClusters s.elements (isConductor s conductors) clusters) ∨
    ((∃ i : Nat, (isConductor s conductors)[i]? = some true ∧ ¬ Indexed s.elements i) ∧
      conductorClusters s conductors = .error .indexError) := by
  have first : Clustering s.elements (isConductor s conductors)
      (List.replicate s.elements.length false) [] := by
    refine ⟨List.length_replicate, ?_, by simp, by simp, by simp, by simp⟩
    intro j
    simp [List.getElem?_replicate]
  have inside : ∀ i ∈ List.range s.elements.length, i < s.elements.length :=
    fun i hi => List.mem_range.mp hi
  rcases clustersFrom_spec first inside with ⟨seen, clusters, found, good, -, all⟩ | raised
  · have covered : ∀ i : Nat, (isConductor s conductors)[i]? = some true →
        i ∈ clusters.flatten := by
      intro i conducting
      refine (good.seen_iff i).mp (all i (List.mem_range.mpr ?_) conducting)
      have := (List.getElem?_eq_some_iff.mp conducting).1
      rwa [isConductor, List.length_map] at this
    refine Or.inl ⟨?_, clusters, found, good.nodup, good.each, ?_, ?_,
      good.ordered⟩
    · intro i conducting
      obtain ⟨cluster, hc, hi⟩ := List.mem_flatten.mp (covered i conducting)
      exact (good.each cluster hc).indexed i hi
    · exact fun i conducting => List.mem_flatten.mp (covered i conducting)
    · exact fun i hi j border => (good.seen_iff j).mp (good.closed i hi j border)
  · exact Or.inr ⟨raised.2, raised.1⟩

/-! ## Connected components -/

section Components

variable {s : Structure Rat} {conductors : List String}

/-- There is an element at `i`, and its region is of one of the materials. -/
def Conducts (s : Structure Rat) (conductors : List String) (i : Nat) : Prop :=
  ∃ element, s.elements[i]? = some element ∧
    (s.materialOfRegion.get? element.regionId).any (· ∈ conductors)

/-- The element at `i` has that at `j` among its neighbours. -/
def Adjacent (elements : List Element) (i j : Nat) : Prop :=
  ∃ element, elements[i]? = some element ∧ (j : Int) ∈ element.neighbors

/-- Neighbour entries are in range and symmetric. -/
structure Paired (elements : List Element) : Prop where
  inRange : ∀ element ∈ elements, ∀ neighbor ∈ element.neighbors, neighbor < elements.length
  symmetric : ∀ i j, Adjacent elements i j → Adjacent elements j i

/-- A path of adjacent conducting elements leads from `i` to `j`. -/
def Joined (s : Structure Rat) (conductors : List String) (i j : Nat) : Prop :=
  Conducts s conductors i ∧ Relation.ReflTransGen
    (fun i j => Conducts s conductors j ∧ Adjacent s.elements i j) i j

theorem isConductor_iff {i : Nat} :
    (isConductor s conductors)[i]? = some true ↔ Conducts s conductors i := by
  simp [isConductor, Conducts]

theorem borders_iff {i j : Nat} : Borders s.elements (isConductor s conductors) i j ↔
    Conducts s conductors j ∧ Adjacent s.elements i j := by
  rw [Borders, isConductor_iff]
  rfl

theorem Joined.conducts {i j : Nat} (h : Joined s conductors i j) : Conducts s conductors j := by
  obtain ⟨start, path⟩ := h
  cases path with
  | refl => exact start
  | tail _ last => exact last.1

theorem Joined.trans {i j k : Nat} (h : Joined s conductors i j) (h' : Joined s conductors j k) :
    Joined s conductors i k :=
  ⟨h.1, h.2.trans h'.2⟩

theorem Joined.symm (paired : Paired s.elements) {i j : Nat} (h : Joined s conductors i j) :
    Joined s conductors j i := by
  obtain ⟨start, path⟩ := h
  induction path with
  | refl => exact ⟨start, .refl⟩
  | @tail k l path last ih =>
    have back : Joined s conductors l k :=
      ⟨last.1, .single ⟨ih.1, paired.symmetric k l last.2⟩⟩
    exact back.trans ih

/-- A cluster has all the elements that border it, since no other cluster can have them. -/
theorem AreClusters.closed_each (paired : Paired s.elements) {clusters : List (List Nat)}
    (h : AreClusters s.elements (isConductor s conductors) clusters) {cluster : List Nat}
    (mem : cluster ∈ clusters) {i j : Nat} (hi : i ∈ cluster)
    (border : Borders s.elements (isConductor s conductors) i j) : j ∈ cluster := by
  obtain ⟨other, ho, hj⟩ := List.mem_flatten.mp
    (h.closed i (List.mem_flatten.mpr ⟨cluster, mem, hi⟩) j border)
  have back : Borders s.elements (isConductor s conductors) j i :=
    ⟨(h.each cluster mem).conducting i hi, paired.symmetric i j (borders_iff.mp border).2⟩
  obtain ⟨m, hm, rfl⟩ := List.getElem_of_mem mem
  obtain ⟨n, hn, rfl⟩ := List.getElem_of_mem ho
  have ordered := List.pairwise_iff_getElem.mp h.ordered
  rcases lt_trichotomy m n with before | rfl | after
  · exact absurd border (ordered m n hm hn before i hi j hj)
  · exact hj
  · exact absurd back (ordered n m hn hm after j hj i hi)

/-- What `conductor_clusters` has to return: the conducting elements, parted by the paths between
them. -/
structure AreComponents (s : Structure Rat) (conductors : List String)
    (clusters : List (List Nat)) : Prop where
  nonempty : ∀ cluster ∈ clusters, cluster ≠ []
  disjoint : clusters.flatten.Nodup
  covers : ∀ i, i ∈ clusters.flatten ↔ Conducts s conductors i
  together : ∀ i j, (∃ cluster ∈ clusters, i ∈ cluster ∧ j ∈ cluster) ↔ Joined s conductors i j

theorem AreClusters.components (paired : Paired s.elements) {clusters : List (List Nat)}
    (h : AreClusters s.elements (isConductor s conductors) clusters) :
    AreComponents s conductors clusters := by
  refine ⟨?_, h.nodup, ?_, ?_⟩
  · rintro cluster mem rfl
    obtain ⟨start, hs, -⟩ := (h.each [] mem).joined
    cases hs
  · intro i
    constructor
    · intro hi
      obtain ⟨cluster, mem, hi⟩ := List.mem_flatten.mp hi
      exact isConductor_iff.mp ((h.each cluster mem).conducting i hi)
    · intro conducts
      exact List.mem_flatten.mpr (h.covered i (isConductor_iff.mpr conducts))
  · intro i j
    constructor
    · rintro ⟨cluster, mem, hi, hj⟩
      obtain ⟨start, hs, joined⟩ := (h.each cluster mem).joined
      have from_start : ∀ k ∈ cluster, Joined s conductors start k := by
        intro k hk
        refine ⟨isConductor_iff.mp ((h.each cluster mem).conducting start hs), ?_⟩
        exact Relation.ReflTransGen.mono (fun _ _ border => borders_iff.mp border) _ _ (joined k hk)
      exact ((from_start i hi).symm paired).trans (from_start j hj)
    · rintro ⟨conducts, path⟩
      obtain ⟨cluster, mem, hi⟩ := h.covered i (isConductor_iff.mpr conducts)
      refine ⟨cluster, mem, hi, ?_⟩
      induction path with
      | refl => exact hi
      | tail _ last ih => exact h.closed_each paired mem ih (borders_iff.mpr last)

/-- `conductor_clusters` returns, and returns the connected components. -/
theorem conductorClusters_components (s : Structure Rat) (conductors : List String)
    (paired : Paired s.elements) :
    ∃ clusters, conductorClusters s conductors = .ok clusters ∧
      AreComponents s conductors clusters := by
  rcases conductorClusters_spec s conductors with ⟨-, clusters, found, h⟩ | ⟨⟨i, -, outside⟩, -⟩
  · exact ⟨clusters, found, h.components paired⟩
  · refine absurd ?_ outside
    intro element found neighbor mem
    exact paired.inRange element (List.mem_of_getElem? found) neighbor mem

/-- Two pieces of metal that touch, of different regions. -/
def twoPieces : Structure Rat where
  version := ""
  dimension := 2
  verticesPerElement := 3
  neighborsPerElement := 3
  coordinates := [⟨1, 0, 0⟩, ⟨2, 1, 0⟩, ⟨3, 0, 1⟩, ⟨4, 1, 1⟩]
  regions := [⟨1, 6, "aluminum"⟩, ⟨2, 6, "aluminum"⟩]
  elements := [⟨1, 1, [0, 1, 2], [1, -1022, -1022], [-1, -1]⟩,
    ⟨2, 2, [1, 3, 2], [-1022, 0, -1022], [-1, -1]⟩]
  solutions := []
  species := []
  temperature := none
  warnings := []

theorem conductorClusters_components_twoPieces : ∃ clusters,
    conductorClusters twoPieces [metal] = .ok clusters ∧
      AreComponents twoPieces [metal] clusters := by
  refine conductorClusters_components twoPieces [metal] ⟨by decide, ?_⟩
  rintro i j ⟨element, found, mem⟩
  match i with
  | 0 =>
    obtain rfl := Option.some.inj found
    have one : (j : Int) = 1 := by simpa using mem
    obtain rfl : j = 1 := by omega
    exact ⟨_, rfl, by decide⟩
  | 1 =>
    obtain rfl := Option.some.inj found
    obtain rfl : j = 0 := by simpa using mem
    exact ⟨_, rfl, by decide⟩
  | i + 2 => simp [twoPieces] at found

end Components

end TcadWebapp.Devsim
