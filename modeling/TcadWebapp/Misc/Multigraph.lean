import Mathlib.Algebra.Group.Nat.Even
import Mathlib.Data.List.Perm.Basic
import TcadWebapp.Misc.Dict

/-!
# Multigraphs as lists of neighbours

The edges of a multigraph, noted at both of their ends (`Holds`). Where every vertex has an even degree a
walk along unused edges can only end where it started: anywhere else an odd number of them is left.
-/

namespace TcadWebapp

variable {V : Type*} [DecidableEq V]

/-- How many ends of the edges are at a vertex; of a loop both. -/
def degree (edges : List (V × V)) (v : V) : Nat :=
  edges.countP (fun e => e.1 = v) + edges.countP fun e => e.2 = v

theorem degree_cons (e : V × V) (edges : List (V × V)) (v : V) : degree (e :: edges) v =
    degree edges v + ((if e.1 = v then 1 else 0) + if e.2 = v then 1 else 0) := by
  simp only [degree, List.countP_cons, decide_eq_true_eq]
  omega

theorem degree_perm {edges edges' : List (V × V)} (perm : edges.Perm edges') (v : V) :
    degree edges v = degree edges' v := by
  rw [degree, degree, perm.countP_eq, perm.countP_eq]

theorem degree_pos {edges : List (V × V)} {v : V} :
    0 < degree edges v ↔ ∃ w, (v, w) ∈ edges ∨ (w, v) ∈ edges := by
  rw [degree, Nat.add_pos_iff_pos_or_pos, List.countP_pos_iff, List.countP_pos_iff]
  constructor
  · rintro (⟨⟨a, b⟩, mem, e⟩ | ⟨⟨a, b⟩, mem, e⟩)
    · exact ⟨b, Or.inl (of_decide_eq_true e ▸ mem)⟩
    · exact ⟨a, Or.inr (of_decide_eq_true e ▸ mem)⟩
  · rintro ⟨w, mem | mem⟩
    · exact Or.inl ⟨(v, w), mem, decide_eq_true rfl⟩
    · exact Or.inr ⟨(w, v), mem, decide_eq_true rfl⟩

/-! ## Neighbours -/

/-- The neighbours noted at a vertex. -/
def near (adjacency : Dict V (List V)) (v : V) : List V := (adjacency.get? v).getD []

/-- `adjacency.setdefault(a, []).append(b)`. -/
def note (adjacency : Dict V (List V)) (a b : V) : Dict V (List V) :=
  adjacency.alter a fun old => old.getD [] ++ [b]

/-- What is left of the neighbours of a vertex; without any the vertex goes. -/
def put (adjacency : Dict V (List V)) (v : V) (left : List V) : Dict V (List V) :=
  if left = [] then adjacency.erase v else adjacency.set v left

theorem near_note (adjacency : Dict V (List V)) (a b v : V) :
    near (note adjacency a b) v = if v = a then near adjacency a ++ [b] else near adjacency v := by
  rw [near, note, Dict.get?_alter]
  by_cases same : v = a
  · rw [if_pos same, if_pos same]
    rfl
  · rw [if_neg same, if_neg same]
    rfl

theorem length_near_note (adjacency : Dict V (List V)) (a b v : V) :
    (near (note adjacency a b) v).length = (near adjacency v).length + if a = v then 1 else 0 := by
  rw [near_note]
  by_cases same : v = a
  · rw [if_pos same, if_pos same.symm, List.length_append, same]
    rfl
  · rw [if_neg same, if_neg (Ne.symm same), Nat.add_zero]

theorem near_put (adjacency : Dict V (List V)) (a : V) (left : List V) (v : V) :
    near (put adjacency a left) v = if v = a then left else near adjacency v := by
  unfold put near
  split
  · rename_i nothing
    rw [Dict.get?_erase]
    by_cases same : v = a
    · rw [if_pos same, if_pos same, nothing]
      rfl
    · rw [if_neg same, if_neg same]
  · rw [Dict.get?_set]
    by_cases same : v = a
    · rw [if_pos same, if_pos same]
      rfl
    · rw [if_neg same, if_neg same]

/-- One for a pair that is looked for, none for others. -/
theorem count_near_note (adjacency : Dict V (List V)) (a b v w : V) :
    (near (note adjacency a b) v).count w =
      (near adjacency v).count w + if v = a ∧ w = b then 1 else 0 := by
  rw [near_note]
  by_cases same : v = a
  · rw [if_pos same, List.count_append, List.count_singleton, same]
    simp only [beq_iff_eq, true_and]
    rw [if_congr eq_comm rfl rfl]
  · rw [if_neg same, if_neg fun h => same h.1, Nat.add_zero]

theorem count_near_put {adjacency : Dict V (List V)} {a b : V} {left : List V}
    (taken : (near adjacency a).Perm (b :: left)) (v w : V) :
    (near adjacency v).count w =
      (near (put adjacency a left) v).count w + if v = a ∧ w = b then 1 else 0 := by
  rw [near_put]
  by_cases same : v = a
  · rw [if_pos same, same, taken.count_eq, List.count_cons]
    simp only [beq_iff_eq, true_and]
    rw [if_congr eq_comm rfl rfl]
  · rw [if_neg same, if_neg fun h => same h.1, Nat.add_zero]

/-- Edges, each noted at both ends; no vertex is kept without any. -/
structure Holds (adjacency : Dict V (List V)) (edges : List (V × V)) : Prop where
  count : ∀ a b, (near adjacency a).count b = edges.count (a, b) + edges.count (b, a)
  nonempty : ∀ v left, adjacency.get? v = some left → left ≠ []

theorem count_cons_pair (e : V × V) (edges : List (V × V)) (v w : V) :
    (e :: edges).count (v, w) = edges.count (v, w) + if v = e.1 ∧ w = e.2 then 1 else 0 := by
  rw [List.count_cons]
  simp only [beq_iff_eq, Prod.ext_iff]
  rw [if_congr (and_congr eq_comm eq_comm) rfl rfl]

theorem note_nonempty {adjacency : Dict V (List V)} (h : ∀ v left, adjacency.get? v = some left → left ≠ [])
    (a b : V) : ∀ v left, (note adjacency a b).get? v = some left → left ≠ [] := by
  intro v left found
  rw [note, Dict.get?_alter] at found
  split at found
  · obtain rfl := Option.some.inj found
    simp
  · exact h v left found

theorem put_nonempty {adjacency : Dict V (List V)} (h : ∀ v left, adjacency.get? v = some left → left ≠ [])
    (a : V) (kept : List V) : ∀ v left, (put adjacency a kept).get? v = some left → left ≠ [] := by
  intro v left found
  unfold put at found
  split at found
  · rw [Dict.get?_erase] at found
    split at found
    · cases found
    · exact h v left found
  · rename_i something
    rw [Dict.get?_set] at found
    split at found
    · exact Option.some.inj found ▸ something
    · exact h v left found

namespace Holds

variable {adjacency : Dict V (List V)} {edges : List (V × V)}

theorem empty : Holds (∅ : Dict V (List V)) [] := ⟨fun _ _ => rfl, fun _ _ h => by cases h⟩

theorem congr {edges' : List (V × V)} (h : Holds adjacency edges) (perm : edges.Perm edges') :
    Holds adjacency edges' :=
  ⟨fun a b => by rw [h.count, perm.count_eq, perm.count_eq], h.nonempty⟩

/-- One more edge. -/
theorem note (h : Holds adjacency edges) (a b : V) :
    Holds (TcadWebapp.note (TcadWebapp.note adjacency a b) b a) ((a, b) :: edges) := by
  refine ⟨fun v w => ?_, note_nonempty (note_nonempty h.nonempty a b) b a⟩
  have swapped : (if w = a ∧ v = b then 1 else 0) = if v = b ∧ w = a then 1 else 0 :=
    if_congr and_comm rfl rfl
  rw [count_near_note, count_near_note, h.count, count_cons_pair, count_cons_pair]
  dsimp only
  omega

theorem mem_near_iff (h : Holds adjacency edges) {v w : V} :
    w ∈ near adjacency v ↔ (v, w) ∈ edges ∨ (w, v) ∈ edges := by
  rw [← List.count_pos_iff, h.count, Nat.add_pos_iff_pos_or_pos, List.count_pos_iff, List.count_pos_iff]

theorem near_ne_nil (h : Holds adjacency edges) {v : V} (pos : 0 < degree edges v) :
    near adjacency v ≠ [] := by
  obtain ⟨w, mem⟩ := degree_pos.mp pos
  exact List.ne_nil_of_mem (h.mem_near_iff.mpr mem)

/-- A vertex that is kept has an edge. -/
theorem degree_pos_of_key (h : Holds adjacency edges) {v : V} (key : v ∈ adjacency.keys) :
    0 < degree edges v := by
  obtain ⟨left, found⟩ := Dict.mem_keys.mp key
  obtain ⟨w, mem⟩ := List.exists_mem_of_ne_nil left (h.nonempty v left found)
  refine degree_pos.mpr ⟨w, h.mem_near_iff.mp ?_⟩
  rw [near, found]
  exact mem

theorem eq_nil_of_empty (h : Holds adjacency edges) (nothing : adjacency.entries = []) : edges = [] := by
  refine List.eq_nil_iff_forall_not_mem.mpr fun e mem => ?_
  have none_ : adjacency.get? e.1 = none := by simp [Dict.get?, nothing]
  have noted := h.mem_near_iff.mpr (Or.inl mem)
  rw [near, none_] at noted
  cases noted

/-- An edge is taken out at both of its ends. -/
theorem take (h : Holds adjacency edges) {c n : V} {rest : List V}
    (taken : (near adjacency c).Perm (n :: rest)) :
    c ∈ near (put adjacency c rest) n ∧ ∃ e left, (e = (c, n) ∨ e = (n, c)) ∧
      edges.Perm (e :: left) ∧
      Holds (put (put adjacency c rest) n ((near (put adjacency c rest) n).erase c)) left := by
  have edge : (c, n) ∈ edges ∨ (n, c) ∈ edges :=
    h.mem_near_iff.mp (taken.mem_iff.mpr List.mem_cons_self)
  obtain ⟨e, is, mem⟩ : ∃ e, (e = (c, n) ∨ e = (n, c)) ∧ e ∈ edges := by
    rcases edge with mem | mem
    · exact ⟨_, Or.inl rfl, mem⟩
    · exact ⟨_, Or.inr rfl, mem⟩
  have perm := List.perm_cons_erase mem
  -- What is noted and what is left differ by the edge, once for each end.
  have first := fun v w => count_near_put taken v w
  have edges_ : ∀ v w, edges.count (v, w) + edges.count (w, v) =
      (edges.erase e).count (v, w) + (edges.erase e).count (w, v) +
        ((if v = c ∧ w = n then 1 else 0) + if v = n ∧ w = c then 1 else 0) := by
    intro v w
    rw [perm.count_eq, perm.count_eq, count_cons_pair, count_cons_pair]
    have swapped : (if w = c ∧ v = n then 1 else 0) = if v = n ∧ w = c then 1 else 0 :=
      if_congr and_comm rfl rfl
    have swapped' : (if w = n ∧ v = c then 1 else 0) = if v = c ∧ w = n then 1 else 0 :=
      if_congr and_comm rfl rfl
    rcases is with rfl | rfl
    · dsimp only
      omega
    · dsimp only
      omega
  have back : c ∈ near (put adjacency c rest) n := by
    rw [← List.count_pos_iff]
    have one := first n c
    rw [h.count, edges_, if_pos (⟨rfl, rfl⟩ : n = n ∧ c = c)] at one
    omega
  refine ⟨back, e, edges.erase e, is, perm, fun v w => ?_, ?_⟩
  · have second := count_near_put (List.perm_cons_erase back) v w
    have one := first v w
    rw [h.count, edges_] at one
    omega
  · exact put_nonempty (put_nonempty h.nonempty c rest) n _

end Holds

/-! ## Walks that close -/

/-- The degrees are even, but for the two ends of a walk that is not closed yet. -/
def EvenBut (edges : List (V × V)) (start current : V) : Prop :=
  ∀ v, Even (degree edges v + ((if v = start then 1 else 0) + if v = current then 1 else 0))

theorem evenBut_self {edges : List (V × V)} (even : ∀ v, Even (degree edges v)) (start : V) :
    EvenBut edges start start := by
  intro v
  exact (even v).add ⟨_, rfl⟩

theorem even_of_evenBut {edges : List (V × V)} {start : V} (h : EvenBut edges start start) (v : V) :
    Even (degree edges v) := by
  obtain ⟨k, twice⟩ := h v
  refine ⟨k - if v = start then 1 else 0, ?_⟩
  omega

/-- A walk that is not closed can be continued. -/
theorem degree_pos_of_evenBut {edges : List (V × V)} {start current : V}
    (h : EvenBut edges start current) (ne : current ≠ start) : 0 < degree edges current := by
  obtain ⟨k, twice⟩ := h current
  rw [if_neg ne, if_pos rfl] at twice
  omega

theorem evenBut_step {edges left : List (V × V)} {start current next : V} {e : V × V}
    (h : EvenBut edges start current) (is : e = (current, next) ∨ e = (next, current))
    (perm : edges.Perm (e :: left)) : EvenBut left start next := by
  intro v
  obtain ⟨k, twice⟩ := h v
  rw [degree_perm perm, degree_cons] at twice
  have ends : ((if e.1 = v then 1 else 0) + if e.2 = v then 1 else 0 : Nat) =
      (if v = current then 1 else 0) + if v = next then 1 else 0 := by
    rcases is with rfl | rfl
    · simp only [eq_comm]
    · simp only [eq_comm]
      omega
  refine ⟨k - if v = current then 1 else 0, ?_⟩
  omega

end TcadWebapp
