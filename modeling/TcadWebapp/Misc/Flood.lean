import Mathlib.Data.Fintype.Card
import Mathlib.Data.List.Nodup
import Mathlib.Logic.Relation

/-!
# Flooding

A search with a stack that labels all that can be reached from a start without entering what has a label.
-/

namespace TcadWebapp

/-- What has a label, what is still to be visited, and what has been visited. -/
structure Flood (α κ : Type*) where
  comp : α → Option κ
  stack : List α
  memb : List α

namespace Flood

variable {α κ : Type*} [DecidableEq α]

section

variable (offers : α → List α) (edge : α → α → Bool) (label : κ)

/-- Something next to `t` is labelled and stacked, unless it has a label. -/
def offer (t : α) (s : Flood α κ) (u : α) : Flood α κ :=
  if (s.comp u).isSome then s
  else if !edge t u then s
  else { s with comp := Function.update s.comp u (some label), stack := u :: s.stack }

/-- The top of the stack is visited. -/
def visit (s : Flood α κ) (t : α) (rest : List α) : Flood α κ :=
  (offers t).foldl (offer edge label t) { s with stack := rest, memb := s.memb ++ [t] }

/-- The loop, for at most so many rounds. -/
def run : ℕ → Flood α κ → Flood α κ
  | 0, s => s
  | rounds + 1, s =>
    match s.stack with
    | [] => s
    | t :: rest => run rounds (visit offers edge label s t rest)

/-- The start has its label and is alone on the stack. -/
def start (comp : α → Option κ) (seed : α) : Flood α κ where
  comp := Function.update comp seed (some label)
  stack := [seed]
  memb := []

end

/-! ## What a search keeps -/

variable {offers : α → List α} {edge : α → α → Bool} {label : κ} {comp : α → Option κ} {seed t u : α}
  {s : Flood α κ}

/-- What can be entered from `t`. -/
def Enters (offers : α → List α) (edge : α → α → Bool) (comp : α → Option κ) (t u : α) : Prop :=
  u ∈ offers t ∧ edge t u = true ∧ comp u = none

/-- What is labelled is what has been found, and all of it can be reached. -/
structure Found (offers : α → List α) (edge : α → α → Bool) (label : κ) (comp : α → Option κ) (seed : α)
    (s : Flood α κ) : Prop where
  labels : ∀ u, s.comp u = if u ∈ s.memb ++ s.stack then some label else comp u
  fresh : ∀ u ∈ s.memb ++ s.stack, comp u = none
  reached : ∀ u ∈ s.memb ++ s.stack, Relation.ReflTransGen (Enters offers edge comp) seed u
  nodup : (s.memb ++ s.stack).Nodup
  seed_mem : seed ∈ s.memb ++ s.stack

theorem found_start (free : comp seed = none) : Found offers edge label comp seed (start label comp seed) where
  labels := by
    intro u
    by_cases same : u = seed
    · subst same
      simp [start]
    · simp [start, same]
  fresh := by
    intro u hu
    rw [List.mem_singleton.mp hu]
    exact free
  reached := by
    intro u hu
    rw [List.mem_singleton.mp hu]
  nodup := List.nodup_singleton seed
  seed_mem := List.mem_singleton_self seed

theorem Found.comp_eq_none (h : Found offers edge label comp seed s) :
    s.comp u = none ↔ u ∉ s.memb ++ s.stack ∧ comp u = none := by
  rw [h.labels u]
  split_ifs with mem
  · simp [mem]
  · simp [mem]

/-- An offer finds at most what is offered. -/
theorem Found.offer (h : Found offers edge label comp seed s) (ht : t ∈ s.memb) (hu : u ∈ offers t) :
    Found offers edge label comp seed (offer edge label t s u) := by
  unfold Flood.offer
  by_cases labelled : (s.comp u).isSome
  · rw [if_pos labelled]
    exact h
  rw [if_neg labelled]
  by_cases apart : !edge t u
  · rw [if_pos apart]
    exact h
  rw [if_neg apart]
  obtain ⟨out, free⟩ := h.comp_eq_none.mp (Option.not_isSome_iff_eq_none.mp labelled)
  have mem (v : α) : v ∈ s.memb ++ u :: s.stack ↔ v = u ∨ v ∈ s.memb ++ s.stack := by
    simp only [List.mem_append, List.mem_cons]
    tauto
  have joined : edge t u = true := by simpa using apart
  refine ⟨?_, ?_, ?_, ?_, (mem seed).mpr (Or.inr h.seed_mem)⟩
  · intro v
    dsimp only
    simp only [mem]
    by_cases same : v = u
    · subst same
      simp
    · simp [same, h.labels v]
  · intro v hv
    rcases (mem v).mp hv with rfl | hv
    · exact free
    · exact h.fresh v hv
  · intro v hv
    rcases (mem v).mp hv with rfl | hv
    · exact (h.reached t (List.mem_append_left _ ht)).tail ⟨hu, joined, free⟩
    · exact h.reached v hv
  · exact List.nodup_middle.mpr (List.nodup_cons.mpr ⟨out, h.nodup⟩)

/-- What stays of a search when something is offered. -/
structure Grows (s s' : Flood α κ) : Prop where
  memb : s'.memb = s.memb
  stack : ∀ u ∈ s.memb ++ s.stack, u ∈ s'.memb ++ s'.stack

theorem grows_offer (edge : α → α → Bool) (label : κ) (t : α) (s : Flood α κ) (u : α) : Grows s (offer edge label t s u) := by
  unfold Flood.offer
  split_ifs
  · exact ⟨rfl, fun _ h => h⟩
  · exact ⟨rfl, fun _ h => h⟩
  · refine ⟨rfl, fun v hv => ?_⟩
    rcases List.mem_append.mp hv with hv | hv
    · exact List.mem_append_left _ hv
    · exact List.mem_append_right _ (List.mem_cons_of_mem _ hv)

/-- What is offered and can be entered is found afterwards. -/
theorem Found.mem_offer (h : Found offers edge label comp seed s) (joined : edge t u = true) (free : comp u = none) :
    u ∈ (Flood.offer edge label t s u).memb ++ (Flood.offer edge label t s u).stack := by
  unfold Flood.offer
  by_cases labelled : (s.comp u).isSome
  · rw [if_pos labelled]
    by_contra out
    rw [h.comp_eq_none.mpr ⟨out, free⟩] at labelled
    cases labelled
  · rw [if_neg labelled, joined]
    exact List.mem_append_right _ List.mem_cons_self

/-- All offers of a visit. -/
theorem Found.foldl_offer (h : Found offers edge label comp seed s) (ht : t ∈ s.memb) {us : List α}
    (sub : ∀ u ∈ us, u ∈ offers t) :
    Found offers edge label comp seed (us.foldl (Flood.offer edge label t) s) ∧
      Grows s (us.foldl (Flood.offer edge label t) s) ∧
      ∀ u ∈ us, edge t u = true → comp u = none →
        u ∈ (us.foldl (Flood.offer edge label t) s).memb ++ (us.foldl (Flood.offer edge label t) s).stack := by
  induction us generalizing s with
  | nil => exact ⟨h, ⟨rfl, fun _ h => h⟩, List.forall_mem_nil _⟩
  | cons u us ih =>
    have first := h.offer ht (sub u List.mem_cons_self)
    have grows := grows_offer edge label t s u
    obtain ⟨found, grows', all⟩ := ih first (grows.memb ▸ ht) fun v hv => sub v (List.mem_cons_of_mem _ hv)
    refine ⟨found, ⟨grows'.memb.trans grows.memb, fun v hv => grows'.stack v (grows.stack v hv)⟩, ?_⟩
    intro v hv joined free
    rcases List.mem_cons.mp hv with rfl | hv
    · exact grows'.stack v (h.mem_offer joined free)
    · exact all v hv joined free

/-- Beside what is found, all neighbours of what has been visited are. -/
structure Searched (offers : α → List α) (edge : α → α → Bool) (label : κ) (comp : α → Option κ) (seed : α)
    (s : Flood α κ) : Prop extends Found offers edge label comp seed s where
  closed : ∀ t ∈ s.memb, ∀ u, Enters offers edge comp t u → u ∈ s.memb ++ s.stack

theorem Searched.visit {rest : List α} (h : Searched offers edge label comp seed s) (top : s.stack = t :: rest) :
    Searched offers edge label comp seed (Flood.visit offers edge label s t rest) ∧
      (Flood.visit offers edge label s t rest).memb = s.memb ++ [t] := by
  have moved : s.memb ++ [t] ++ rest = s.memb ++ s.stack := by
    rw [top, List.append_assoc, List.singleton_append]
  have found : Found offers edge label comp seed { s with stack := rest, memb := s.memb ++ [t] } := by
    refine ⟨?_, ?_, ?_, ?_, ?_⟩
    · intro u
      rw [moved]
      exact h.labels u
    · rw [moved]
      exact h.fresh
    · rw [moved]
      exact h.reached
    · rw [moved]
      exact h.nodup
    · rw [moved]
      exact h.seed_mem
  have own : t ∈ s.memb ++ [t] := List.mem_append_right _ (List.mem_singleton_self t)
  have offered : ∀ u ∈ offers t, u ∈ offers t := fun _ hu => hu
  obtain ⟨found', grows, all⟩ := found.foldl_offer own offered
  refine ⟨⟨found', ?_⟩, grows.memb⟩
  intro v hv u enters
  unfold Flood.visit at hv
  rw [grows.memb, List.mem_append, List.mem_singleton] at hv
  rcases hv with hv | rfl
  · apply grows.stack
    rw [moved]
    exact h.closed v hv u enters
  · exact all u enters.1 enters.2.1 enters.2.2

theorem Searched.run (h : Searched offers edge label comp seed s) (rounds : ℕ) :
    Searched offers edge label comp seed (Flood.run offers edge label rounds s) ∧
      ((Flood.run offers edge label rounds s).stack = [] ∨
        (Flood.run offers edge label rounds s).memb.length = s.memb.length + rounds) := by
  induction rounds generalizing s with
  | zero => exact ⟨h, Or.inr rfl⟩
  | succ rounds ih =>
    cases top : s.stack with
    | nil =>
      rw [Flood.run, top]
      exact ⟨h, Or.inl top⟩
    | cons t rest =>
      obtain ⟨visited, memb⟩ := h.visit top
      obtain ⟨searched, ends⟩ := ih visited
      rw [Flood.run, top]
      refine ⟨searched, ends.imp_right fun length => ?_⟩
      rw [length, memb, List.length_append, List.length_singleton]
      omega

/-- With a round for each thing there is the search ends, and it visits what can be reached. -/
theorem run_spec [Fintype α] (offers : α → List α) (edge : α → α → Bool) (label : κ) {rounds : ℕ} (enough : Fintype.card α ≤ rounds) (free : comp seed = none) :
    (∀ u, u ∈ (Flood.run offers edge label rounds (start label comp seed)).memb ↔
      Relation.ReflTransGen (Enters offers edge comp) seed u) ∧
    ∀ u, (Flood.run offers edge label rounds (start label comp seed)).comp u =
      if u ∈ (Flood.run offers edge label rounds (start label comp seed)).memb then some label else comp u := by
  have begun : Searched offers edge label comp seed (start label comp seed) :=
    ⟨found_start free, List.forall_mem_nil _⟩
  obtain ⟨searched, ends⟩ := begun.run rounds
  generalize Flood.run offers edge label rounds (start label comp seed) = s at searched ends ⊢
  have empty : s.stack = [] := by
    rcases ends with empty | length
    · exact empty
    · have bound := searched.nodup.length_le_card
      rw [List.length_append, length] at bound
      exact List.length_eq_zero_iff.mp (by omega)
  have all : s.memb ++ s.stack = s.memb := by rw [empty, List.append_nil]
  refine ⟨fun u => ⟨fun hu => searched.reached u (List.mem_append_left _ hu), fun path => ?_⟩, fun u => ?_⟩
  · induction path with
    | refl => exact all ▸ searched.seed_mem
    | tail _ enters ih => exact all ▸ searched.closed _ ih _ enters
  · rw [searched.labels u, all]

end Flood

end TcadWebapp
