import Mathlib.Algebra.BigOperators.Group.Finset.Basic
import Mathlib.Data.Fintype.BigOperators
import Mathlib.Tactic.Tauto
import TcadWebapp.Suprem.SplitRegions

/-!
# The pieces of the regions

After `split_disc_reg` two triangles are of one region exactly when they were and are joined within it
(`splitDiscReg_spec`).
-/

namespace TcadWebapp.Suprem

variable {ne : ℕ} {m : Mesh ne} {s : Split ne} {r c : ℕ} {t u seed : Fin ne}

/-! ## Neighbours -/

def Tri.nodes (tri : Tri) : Finset ℕ := Finset.univ.image tri.nd

theorem mem_nodes {tri : Tri} {n : ℕ} : n ∈ tri.nodes ↔ ∃ i, tri.nd i = n := by
  simp [Tri.nodes]

/-- The pairs of corners are the nodes in common. -/
theorem shared_eq (a b : Tri) : shared a b = (a.nodes ∩ b.nodes).card := by
  have one (j : Fin 3) : (∑ m, if a.nd j = b.nd m then 1 else 0) = if a.nd j ∈ b.nodes then 1 else 0 := by
    by_cases mem : a.nd j ∈ b.nodes
    · obtain ⟨k, same⟩ := mem_nodes.mp mem
      rw [if_pos mem, Finset.sum_eq_single k]
      · rw [if_pos same.symm]
      · intro i _ ne
        exact if_neg fun same' => ne (b.distinct (same'.symm.trans same.symm))
      · intro out
        exact absurd (Finset.mem_univ k) out
    · rw [if_neg mem]
      exact Finset.sum_eq_zero fun i _ => if_neg fun same => mem (mem_nodes.mpr ⟨i, same.symm⟩)
  have image : a.nodes ∩ b.nodes = (Finset.univ.filter fun j => a.nd j ∈ b.nodes).image a.nd := by
    ext n
    simp only [Finset.mem_inter, mem_nodes, Finset.mem_image, Finset.mem_filter, Finset.mem_univ, true_and]
    constructor
    · rintro ⟨⟨j, rfl⟩, other⟩
      exact ⟨j, other, rfl⟩
    · rintro ⟨j, other, rfl⟩
      exact ⟨⟨j, rfl⟩, other⟩
  rw [image, Finset.card_image_of_injective _ a.distinct, Finset.card_filter]
  exact Finset.sum_congr rfl fun j _ => one j

section

variable [Header]

theorem mem_enter (tri : Fin ne → Tri) (head : ℕ → List (Fin ne)) (t : Fin ne) (n : ℕ) :
    u ∈ enter tri head t n ↔ u ∈ head n ∨ (u = t ∧ (tri t).dead = false ∧ n ∈ (tri t).nodes) := by
  unfold enter
  by_cases dead : (tri t).dead
  · simp [dead]
  have corners (is : List (Fin 3)) (head : ℕ → List (Fin ne)) :
      u ∈ is.foldl (fun head i => Function.update head ((tri t).nd i) (t :: head ((tri t).nd i))) head n ↔
        u ∈ head n ∨ (u = t ∧ ∃ i ∈ is, (tri t).nd i = n) := by
    induction is generalizing head with
    | nil => simp
    | cons i is ih =>
      rw [List.foldl_cons, ih, Function.update_apply]
      by_cases same : n = (tri t).nd i
      · rw [if_pos same, ← same]
        simp only [List.mem_cons, exists_eq_or_imp, ← same]
        tauto
      · rw [if_neg same]
        simp only [List.mem_cons, exists_eq_or_imp, Ne.symm same, false_or]
  rw [if_neg dead, corners, mem_nodes]
  simp [dead]

/-- The chain of a node has the live triangles at it. -/
theorem mem_chains (tri : Fin ne → Tri) (n : ℕ) : u ∈ chains tri n ↔ (tri u).dead = false ∧ n ∈ (tri u).nodes := by
  have all (ts : List (Fin ne)) (head : ℕ → List (Fin ne)) : u ∈ ts.foldl (enter tri) head n ↔
      u ∈ head n ∨ (u ∈ ts ∧ (tri u).dead = false ∧ n ∈ (tri u).nodes) := by
    induction ts generalizing head with
    | nil => simp
    | cons t ts ih =>
      rw [List.foldl_cons, ih, mem_enter, List.mem_cons]
      constructor
      · rintro ((h | ⟨rfl, h⟩) | ⟨mem, h⟩)
        · exact Or.inl h
        · exact Or.inr ⟨Or.inl rfl, h⟩
        · exact Or.inr ⟨Or.inr mem, h⟩
      · rintro (h | ⟨rfl | mem, h⟩)
        · exact Or.inl (Or.inl h)
        · exact Or.inl (Or.inr ⟨rfl, h⟩)
        · exact Or.inr ⟨mem, h⟩
  rw [chains, all]
  simp

theorem mem_offers (tri tri' : Fin ne → Tri) (same : (tri' t).nd = (tri t).nd) :
    u ∈ offers (chains tri) tri' t ↔ (tri u).dead = false ∧ ((tri t).nodes ∩ (tri u).nodes).Nonempty := by
  simp only [offers, List.mem_flatMap, List.mem_finRange, true_and, mem_chains, same]
  constructor
  · rintro ⟨i, live, mem⟩
    exact ⟨live, (tri t).nd i, Finset.mem_inter.mpr ⟨mem_nodes.mpr ⟨i, rfl⟩, mem⟩⟩
  · rintro ⟨live, n, mem⟩
    obtain ⟨own, other⟩ := Finset.mem_inter.mp mem
    obtain ⟨i, rfl⟩ := mem_nodes.mp own
    exact ⟨i, live, other⟩

/-- Two live triangles of one region that share two nodes. -/
structure Mesh.Adjacent (m : Mesh ne) (t u : Fin ne) : Prop where
  live : (m.tri t).dead = false
  live' : (m.tri u).dead = false
  region : (m.tri u).regnum = (m.tri t).regnum
  shared : 2 ≤ ((m.tri t).nodes ∩ (m.tri u).nodes).card

/-- A chain of such pairs. -/
def Mesh.Joined (m : Mesh ne) : Fin ne → Fin ne → Prop := Relation.ReflTransGen m.Adjacent

theorem Mesh.Adjacent.symm (h : m.Adjacent t u) : m.Adjacent u t where
  live := h.live'
  live' := h.live
  region := h.region.symm
  shared := by
    rw [Finset.inter_comm]
    exact h.shared

theorem Mesh.Joined.symm (h : m.Joined t u) : m.Joined u t := by
  induction h with
  | refl => exact Relation.ReflTransGen.refl
  | tail _ adjacent ih => exact Relation.ReflTransGen.head adjacent.symm ih

theorem Mesh.Joined.region (h : m.Joined t u) : (m.tri u).regnum = (m.tri t).regnum := by
  induction h with
  | refl => rfl
  | tail _ adjacent ih => exact adjacent.region.trans ih

theorem Mesh.Joined.live (h : m.Joined t u) (live : (m.tri t).dead = false) : (m.tri u).dead = false := by
  cases h with
  | refl => exact live
  | tail _ adjacent => exact adjacent.live'

/-! ## What the loops keep -/

/-- The live triangles are of live regions. -/
def Mesh.WellFormed (m : Mesh ne) : Prop :=
  ∀ t, (m.tri t).dead = false → ∃ region, m.reg[(m.tri t).regnum]? = some region ∧ region.dead = false

/-- The triangles that have been visited are divided as they are to be; the others are as they were. -/
structure Inv (m : Mesh ne) (s : Split ne) : Prop where
  shape : ∀ t, s.tri t = { m.tri t with regnum := (s.tri t).regnum }
  untouched : ∀ t, s.comp t = none → (s.tri t).regnum = (m.tri t).regnum
  live : ∀ t, s.comp t ≠ none → (m.tri t).dead = false
  closed : ∀ t u, s.comp t ≠ none → m.Joined t u → s.comp u ≠ none
  parted : ∀ t u, s.comp t ≠ none → s.comp u ≠ none →
    ((s.tri t).regnum = (s.tri u).regnum ↔ (m.tri t).regnum = (m.tri u).regnum ∧ m.Joined t u)
  kept : ∀ t, s.comp t ≠ none → (s.tri t).regnum = (m.tri t).regnum ∨ m.reg.length ≤ (s.tri t).regnum
  region : ∀ t, s.comp t ≠ none → s.reg[(s.tri t).regnum]? = m.reg[(m.tri t).regnum]?
  added : ∃ more, s.reg = m.reg ++ more ∧ more.length = s.made
  used : ∀ n, m.reg.length ≤ n → n < s.reg.length → ∃ t, s.comp t ≠ none ∧ (s.tri t).regnum = n
  first : ∀ t, s.comp t ≠ none → ∃ u, s.comp u ≠ none ∧ (m.tri u).regnum = (m.tri t).regnum ∧
    (s.tri u).regnum = (m.tri t).regnum

theorem Inv.dead (h : Inv m s) (t : Fin ne) : (s.tri t).dead = (m.tri t).dead := by
  rw [h.shape t]
  rfl

theorem Inv.nd (h : Inv m s) (t : Fin ne) : (s.tri t).nd = (m.tri t).nd := by
  rw [h.shape t]

theorem Inv.nodes (h : Inv m s) (t : Fin ne) : (s.tri t).nodes = (m.tri t).nodes := by
  rw [h.shape t]
  rfl

/-- A number of a region that is in use. -/
theorem Inv.region_lt (h : Inv m s) (wf : m.WellFormed) (ht : s.comp t ≠ none) :
    (s.tri t).regnum < s.reg.length := by
  obtain ⟨region, found, -⟩ := wf t (h.live t ht)
  exact (List.getElem?_eq_some_iff.mp ((h.region t ht).trans found)).1

/-- The search of a piece finds what is joined with its seed. -/
theorem Inv.reaches_iff (h : Inv m s) (free : s.comp seed = none) (live : (m.tri seed).dead = false)
    (ofRegion : (m.tri seed).regnum = r) :
    Relation.ReflTransGen (Flood.Enters (offers (chains m.tri) s.tri) (joins s.tri r) s.comp) seed u ↔
      m.Joined seed u := by
  constructor
  · intro path
    induction path with
    | refl => exact Relation.ReflTransGen.refl
    | @tail t u _ enters joined =>
      obtain ⟨offered, edge, untouched⟩ := enters
      rw [mem_offers _ _ (h.nd t)] at offered
      simp only [joins, Bool.and_eq_true, decide_eq_true_eq] at edge
      rw [h.untouched u untouched, shared_eq, h.nodes, h.nodes] at edge
      refine joined.tail ⟨joined.live live, offered.1, ?_, edge.2⟩
      rw [edge.1, joined.region, ofRegion]
  · intro joined
    induction joined with
    | refl => exact Relation.ReflTransGen.refl
    | @tail t u joined adjacent path =>
      have whole : m.Joined seed u := joined.tail adjacent
      have untouched : s.comp u = none := by
        by_contra visited
        exact h.closed u seed visited whole.symm free
      have offered : ((m.tri t).nodes ∩ (m.tri u).nodes).Nonempty :=
        Finset.card_pos.mp (Nat.lt_of_lt_of_le Nat.two_pos adjacent.shared)
      refine path.tail ⟨(mem_offers _ _ (h.nd t)).mpr ⟨adjacent.live', offered⟩, ?_, untouched⟩
      simp only [joins, Bool.and_eq_true, decide_eq_true_eq]
      rw [h.untouched u untouched, shared_eq, h.nodes, h.nodes]
      exact ⟨whole.region.trans ofRegion, adjacent.shared⟩

/-- A state with a further piece, of the triangles joined with a seed that was not visited. -/
structure Piece (m : Mesh ne) (s s' : Split ne) (seed : Fin ne) : Prop where
  free : s.comp seed = none
  live : (m.tri seed).dead = false
  comp : ∀ u, s'.comp u = none ↔ s.comp u = none ∧ ¬ m.Joined seed u

theorem Piece.visited_iff {s' : Split ne} (piece : Piece m s s' seed) (u : Fin ne) :
    s'.comp u ≠ none ↔ s.comp u ≠ none ∨ m.Joined seed u := by
  rw [Ne, piece.comp, not_and_or, not_not]

variable {s' : Split ne}

theorem Piece.closed (h : Inv m s) (piece : Piece m s s' seed) (t u : Fin ne) (visited : s'.comp t ≠ none)
    (joined : m.Joined t u) : s'.comp u ≠ none := by
  rw [piece.visited_iff] at visited ⊢
  rcases visited with visited | inside
  · exact Or.inl (h.closed t u visited joined)
  · exact Or.inr (Relation.ReflTransGen.trans inside joined)

theorem Piece.live_of_visited (h : Inv m s) (piece : Piece m s s' seed) (t : Fin ne) (visited : s'.comp t ≠ none) :
    (m.tri t).dead = false := by
  rcases (piece.visited_iff t).mp visited with visited | inside
  · exact h.live t visited
  · exact inside.live piece.live

/-- What has been visited before is not joined with the piece. -/
theorem Piece.apart (h : Inv m s) (piece : Piece m s s' seed) (visited : s.comp t ≠ none) : ¬ m.Joined seed t :=
  fun joined => h.closed t seed visited joined.symm piece.free

theorem Piece.untouched (h : Inv m s) (piece : Piece m s s' seed) (inside : m.Joined seed t) : s.comp t = none := by
  by_contra visited
  exact piece.apart h visited inside

/-- The first piece of a region keeps its number. -/
theorem Inv.first_piece (h : Inv m s) (wf : m.WellFormed) (piece : Piece m s s' seed) (tri : s'.tri = s.tri)
    (reg : s'.reg = s.reg) (made : s'.made = s.made)
    (none_ : ∀ t, s.comp t ≠ none → (m.tri t).regnum ≠ (m.tri seed).regnum) : Inv m s' := by
  have inRange : (m.tri seed).regnum < m.reg.length := by
    obtain ⟨region, found, -⟩ := wf seed piece.live
    exact (List.getElem?_eq_some_iff.mp found).1
  have number {t : Fin ne} (inside : m.Joined seed t) : (s.tri t).regnum = (m.tri seed).regnum :=
    (h.untouched t (piece.untouched h inside)).trans inside.region
  -- a triangle that was visited before has another number than the piece
  have other {t : Fin ne} (visited : s.comp t ≠ none) : (s.tri t).regnum ≠ (m.tri seed).regnum := by
    intro same
    rcases h.kept t visited with kept | new
    · exact none_ t visited (kept.symm.trans same)
    · omega
  refine ⟨?_, ?_, piece.live_of_visited h, piece.closed h, ?_, ?_, ?_, ?_, ?_, ?_⟩
  · rw [tri]
    exact h.shape
  · intro t untouched
    rw [tri]
    exact h.untouched t ((piece.comp t).mp untouched).1
  · intro t u ht hu
    rw [tri]
    rcases (piece.visited_iff t).mp ht with ht | ht
    · rcases (piece.visited_iff u).mp hu with hu | hu
      · exact h.parted t u ht hu
      · rw [number hu, hu.region]
        exact ⟨fun same => absurd same (other ht), fun both => absurd both.1 (none_ t ht)⟩
    · rcases (piece.visited_iff u).mp hu with hu | hu
      · rw [number ht, ht.region]
        exact ⟨fun same => absurd same.symm (other hu), fun both => absurd both.1.symm (none_ u hu)⟩
      · rw [number ht, number hu, ht.region, hu.region]
        exact ⟨fun _ => ⟨rfl, Relation.ReflTransGen.trans ht.symm hu⟩, fun _ => rfl⟩
  · intro t ht
    rw [tri]
    rcases (piece.visited_iff t).mp ht with ht | ht
    · exact h.kept t ht
    · exact Or.inl ((number ht).trans ht.region.symm)
  · intro t ht
    rw [tri, reg]
    rcases (piece.visited_iff t).mp ht with ht | ht
    · exact h.region t ht
    · obtain ⟨more, same, -⟩ := h.added
      rw [number ht, ht.region, same, List.getElem?_append_left inRange]
  · rw [reg, made]
    exact h.added
  · rw [reg, tri]
    intro n low high
    obtain ⟨t, ht, same⟩ := h.used n low high
    exact ⟨t, (piece.visited_iff t).mpr (Or.inl ht), same⟩
  · intro t ht
    rw [tri]
    rcases (piece.visited_iff t).mp ht with ht | ht
    · obtain ⟨u, hu, region, same⟩ := h.first t ht
      exact ⟨u, (piece.visited_iff u).mpr (Or.inl hu), region, same⟩
    · exact ⟨t, (piece.visited_iff t).mpr (Or.inr ht), rfl, (number ht).trans ht.region.symm⟩

/-- A further piece has a number of its own. -/
theorem Inv.next_piece (h : Inv m s) (wf : m.WellFormed) (piece : Piece m s s' seed)
    (inside : ∀ t, m.Joined seed t → s'.tri t = { s.tri t with regnum := s.reg.length })
    (outside : ∀ t, ¬ m.Joined seed t → s'.tri t = s.tri t) {region : Region}
    (found : m.reg[(m.tri seed).regnum]? = some region) (reg : s'.reg = s.reg ++ [region])
    (made : s'.made = s.made + 1)
    (some_ : ∃ t, s.comp t ≠ none ∧ (m.tri t).regnum = (m.tri seed).regnum) : Inv m s' := by
  have longer : m.reg.length ≤ s.reg.length := by
    obtain ⟨more, same, -⟩ := h.added
    rw [same, List.length_append]
    omega
  have number {t : Fin ne} (ht : m.Joined seed t) : (s'.tri t).regnum = s.reg.length := by rw [inside t ht]
  have before {t : Fin ne} (ht : s.comp t ≠ none) : s'.tri t = s.tri t := outside t (piece.apart h ht)
  have lower {t : Fin ne} (ht : s.comp t ≠ none) : (s'.tri t).regnum < s.reg.length := by
    rw [before ht]
    exact h.region_lt wf ht
  refine ⟨?_, ?_, piece.live_of_visited h, piece.closed h, ?_, ?_, ?_, ?_, ?_, ?_⟩
  · intro t
    by_cases ht : m.Joined seed t
    · rw [inside t ht, h.shape t]
    · rw [outside t ht]
      exact h.shape t
  · intro t untouched
    obtain ⟨untouched, ht⟩ := (piece.comp t).mp untouched
    rw [outside t ht]
    exact h.untouched t untouched
  · intro t u ht hu
    rcases (piece.visited_iff t).mp ht with ht | ht
    · rcases (piece.visited_iff u).mp hu with hu | hu
      · rw [before ht, before hu]
        exact h.parted t u ht hu
      · refine ⟨fun same => ?_, fun both => absurd (Relation.ReflTransGen.trans hu both.2.symm) (piece.apart h ht)⟩
        have := lower ht
        rw [same, number hu] at this
        omega
    · rcases (piece.visited_iff u).mp hu with hu | hu
      · refine ⟨fun same => ?_, fun both => absurd (Relation.ReflTransGen.trans ht both.2) (piece.apart h hu)⟩
        have := lower hu
        rw [← same, number ht] at this
        omega
      · rw [number ht, number hu, ht.region, hu.region]
        exact ⟨fun _ => ⟨rfl, Relation.ReflTransGen.trans ht.symm hu⟩, fun _ => rfl⟩
  · intro t ht
    rcases (piece.visited_iff t).mp ht with ht | ht
    · rw [before ht]
      exact h.kept t ht
    · exact Or.inr (longer.trans (number ht).ge)
  · intro t ht
    rw [reg]
    rcases (piece.visited_iff t).mp ht with ht | ht
    · rw [List.getElem?_append_left (lower ht), before ht]
      exact h.region t ht
    · rw [number ht, List.getElem?_concat_length, ht.region, found]
  · obtain ⟨more, same, count⟩ := h.added
    refine ⟨more ++ [region], ?_, ?_⟩
    · rw [reg, same, List.append_assoc]
    · rw [List.length_append, count, made, List.length_singleton]
  · intro n low high
    rw [reg, List.length_append, List.length_singleton] at high
    rcases Nat.lt_succ_iff_lt_or_eq.mp high with lt | rfl
    · obtain ⟨t, ht, same⟩ := h.used n low lt
      exact ⟨t, (piece.visited_iff t).mpr (Or.inl ht), by rw [before ht, same]⟩
    · exact ⟨seed, (piece.visited_iff seed).mpr (Or.inr Relation.ReflTransGen.refl), number Relation.ReflTransGen.refl⟩
  · intro t ht
    have old {t : Fin ne} (ht : s.comp t ≠ none) : ∃ u, s'.comp u ≠ none ∧ (m.tri u).regnum = (m.tri t).regnum ∧
        (s'.tri u).regnum = (m.tri t).regnum := by
      obtain ⟨u, hu, region, same⟩ := h.first t ht
      exact ⟨u, (piece.visited_iff u).mpr (Or.inl hu), region, by rw [before hu, same]⟩
    rcases (piece.visited_iff t).mp ht with ht | ht
    · exact old ht
    · obtain ⟨u, hu, same⟩ := some_
      obtain ⟨v, hv, region, number⟩ := old hu
      rw [ht.region, ← same]
      exact ⟨v, hv, region, number⟩

/-! ## The loops -/

theorem Inv.getD_reg (h : Inv m s) {region : Region} (found : m.reg[r]? = some region) :
    s.reg.getD r ⟨0, 0⟩ = region := by
  obtain ⟨more, same, -⟩ := h.added
  rw [List.getD_eq_getElem?_getD, same, List.getElem?_append_left (List.getElem?_eq_some_iff.mp found).1, found]
  rfl

omit [Header] in
theorem modify_mkReg (reg : List Region) (region : Region) :
    (mkReg reg region.mater).modify reg.length (fun new => { new with flags := region.flags }) = reg ++ [region] := by
  rw [List.modify_eq_take_cons_drop (by simp [mkReg])]
  simp [mkReg]

/-- Within the loop over the seeds of a region. -/
structure Loop (m : Mesh ne) (r : ℕ) (s : Split ne) (c : ℕ) : Prop where
  inv : Inv m s
  count : c = 0 ↔ ∀ t, s.comp t ≠ none → (m.tri t).regnum ≠ r
  upTo : ∀ t, s.comp t ≠ none → (m.tri t).regnum ≤ r

/-- One seed: what was visited stays so, and the seed is, if it is of the region. -/
theorem splitSeed_spec (wf : m.WellFormed) (h : Loop m r s c) (seed : Fin ne) {after : Split ne × ℕ}
    (is : splitSeed (chains m.tri) r (s, c) seed = after) (unwarned : after.1.warned = false) :
    Loop m r after.1 after.2 ∧ (∀ t, s.comp t ≠ none → after.1.comp t ≠ none) ∧
      ((m.tri seed).dead = false → (m.tri seed).regnum = r → after.1.comp seed ≠ none) := by
  unfold splitSeed at is
  dsimp only at is
  by_cases skip : (s.tri seed).dead = true ∨ (s.comp seed).isSome = true
  · rw [if_pos skip] at is
    subst is
    refine ⟨h, fun _ visited => visited, fun live _ => ?_⟩
    rcases skip with dead | visited
    · rw [h.inv.dead, live] at dead
      cases dead
    · exact Option.isSome_iff_ne_none.mp visited
  rw [if_neg skip] at is
  obtain ⟨live, free⟩ := not_or.mp skip
  have live : (m.tri seed).dead = false := by
    rw [h.inv.dead] at live
    simpa using live
  have free : s.comp seed = none := Option.not_isSome_iff_eq_none.mp free
  by_cases other : (s.tri seed).regnum ≠ r
  · rw [if_pos other] at is
    subst is
    exact ⟨h, fun _ visited => visited, fun _ same => absurd ((h.inv.untouched seed free).trans same) other⟩
  rw [if_neg other] at is
  have ofRegion : (m.tri seed).regnum = r := (h.inv.untouched seed free).symm.trans (not_not.mp other)
  obtain ⟨members, labels⟩ := Flood.run_spec (offers (chains m.tri) s.tri) (joins s.tri r) c (Fintype.card_fin ne).le free
  generalize Flood.run (offers (chains m.tri) s.tri) (joins s.tri r) c ne (Flood.start c s.comp seed) = flood
    at is members labels
  have members (u : Fin ne) : u ∈ flood.memb ↔ m.Joined seed u :=
    (members u).trans (h.inv.reaches_iff free live ofRegion)
  have comp (u : Fin ne) : flood.comp u = none ↔ s.comp u = none ∧ ¬ m.Joined seed u := by
    rw [labels u]
    split_ifs with mem
    · simp [(members u).mp mem]
    · simp [(members u).not.mp mem]
  -- in either case the piece is what has been visited besides
  have finish {s' : Split ne} (same : s'.comp = flood.comp) (inv : Inv m s') (eq : after = (s', c + 1)) :
      Loop m r after.1 after.2 ∧ (∀ t, s.comp t ≠ none → after.1.comp t ≠ none) ∧
        ((m.tri seed).dead = false → (m.tri seed).regnum = r → after.1.comp seed ≠ none) := by
    have piece : Piece m s s' seed := ⟨free, live, fun u => by rw [same, comp]⟩
    have itself : s'.comp seed ≠ none := (piece.visited_iff seed).mpr (Or.inr Relation.ReflTransGen.refl)
    subst eq
    refine ⟨⟨inv, ?_, ?_⟩, fun t visited => (piece.visited_iff t).mpr (Or.inl visited), fun _ _ => itself⟩
    · dsimp only
      exact iff_of_false (Nat.succ_ne_zero c) fun others => others seed itself ofRegion
    · intro t visited
      rcases (piece.visited_iff t).mp visited with visited | inside
      · exact h.upTo t visited
      · exact (inside.region.trans ofRegion).le
  obtain ⟨region, found, -⟩ := wf seed live
  by_cases some_ : 0 < c
  · rw [if_pos some_, Split.part] at is
    by_cases full : Header.maxReg < s.reg.length + 1
    · rw [if_pos full] at is
      subst is
      cases unwarned
    · rw [if_neg full] at is
      dsimp only at is
      rw [h.inv.getD_reg (ofRegion ▸ found), modify_mkReg] at is
      refine finish rfl ?_ is.symm
      have visited : ∃ t, s.comp t ≠ none ∧ (m.tri t).regnum = (m.tri seed).regnum := by
        by_contra none
        push Not at none
        have := h.count.mpr fun t visited same => none t visited (same.trans ofRegion.symm)
        omega
      refine h.inv.next_piece wf ⟨free, live, comp⟩ ?_ ?_ found rfl rfl visited
      · intro t ht
        exact if_pos ((members t).mpr ht)
      · intro t ht
        exact if_neg fun mem => ht ((members t).mp mem)
  · rw [if_neg some_] at is
    refine @finish { s with comp := flood.comp } rfl ?_ is.symm
    refine h.inv.first_piece wf ⟨free, live, comp⟩ rfl rfl rfl ?_
    rw [ofRegion]
    exact h.count.mp (by omega)

/-- A warning stays. -/
theorem warned_splitSeed (head : ℕ → List (Fin ne)) (r : ℕ) (state : Split ne × ℕ) (seed : Fin ne)
    (unwarned : (splitSeed head r state seed).1.warned = false) : state.1.warned = false := by
  unfold splitSeed Split.part at unwarned
  dsimp only at unwarned
  split_ifs at unwarned <;> exact unwarned

theorem splitSeeds_spec (wf : m.WellFormed) (seeds : List (Fin ne)) (state : Split ne × ℕ)
    (h : state.1.warned = false → Loop m r state.1 state.2)
    (unwarned : (seeds.foldl (splitSeed (chains m.tri) r) state).1.warned = false) :
    state.1.warned = false ∧
      Loop m r (seeds.foldl (splitSeed (chains m.tri) r) state).1 (seeds.foldl (splitSeed (chains m.tri) r) state).2 ∧
      (∀ t, state.1.comp t ≠ none → (seeds.foldl (splitSeed (chains m.tri) r) state).1.comp t ≠ none) ∧
      ∀ t ∈ seeds, (m.tri t).dead = false → (m.tri t).regnum = r →
        (seeds.foldl (splitSeed (chains m.tri) r) state).1.comp t ≠ none := by
  induction seeds generalizing state with
  | nil => exact ⟨unwarned, h unwarned, fun _ visited => visited, List.forall_mem_nil _⟩
  | cons seed seeds ih =>
    rw [List.foldl_cons] at unwarned ⊢
    have step (unwarned : (splitSeed (chains m.tri) r state seed).1.warned = false) :=
      splitSeed_spec wf (h (warned_splitSeed _ _ _ _ unwarned)) seed rfl unwarned
    obtain ⟨first, loop, more, all⟩ := ih _ (fun unwarned => (step unwarned).1) unwarned
    obtain ⟨-, stay, itself⟩ := step first
    refine ⟨warned_splitSeed _ _ _ _ first, loop, fun t visited => more t (stay t visited), ?_⟩
    exact List.forall_mem_cons.mpr ⟨fun live same => more seed (itself live same), all⟩

/-- Between two regions: all live triangles of the regions before have been visited, and no others. -/
structure Between (m : Mesh ne) (r : ℕ) (s : Split ne) : Prop where
  inv : Inv m s
  visited_iff : ∀ t, s.comp t ≠ none ↔ (m.tri t).dead = false ∧ (m.tri t).regnum < r

theorem splitRegion_spec (wf : m.WellFormed) (inRange : r < m.reg.length) (h : s.warned = false → Between m r s)
    (unwarned : (splitRegion (chains m.tri) s r).warned = false) :
    s.warned = false ∧ Between m (r + 1) (splitRegion (chains m.tri) s r) := by
  unfold splitRegion at unwarned ⊢
  have found : m.reg[r]? = some m.reg[r] := List.getElem?_eq_getElem inRange
  by_cases dead : (s.reg.getD r ⟨0, 0⟩).dead
  · rw [if_pos dead] at unwarned ⊢
    have h := h unwarned
    refine ⟨unwarned, h.inv, fun t => (h.visited_iff t).trans (and_congr_right fun live => ?_)⟩
    -- a dead region has no live triangles
    have ne : (m.tri t).regnum ≠ r := by
      intro same
      obtain ⟨region, found', alive⟩ := wf t live
      rw [same, found] at found'
      cases found'
      rw [h.inv.getD_reg found, alive] at dead
      cases dead
    omega
  · rw [if_neg dead] at unwarned ⊢
    have begin_ (unwarned : s.warned = false) : Loop m r s 0 := by
      have h := h unwarned
      refine ⟨h.inv, ⟨fun _ t visited => ?_, fun _ => rfl⟩, fun t visited => ((h.visited_iff t).mp visited).2.le⟩
      exact ((h.visited_iff t).mp visited).2.ne
    obtain ⟨first, loop, stay, all⟩ := splitSeeds_spec wf (List.finRange ne) (s, 0) begin_ unwarned
    refine ⟨first, loop.inv, fun t => ⟨fun visited => ⟨loop.inv.live t visited, Nat.lt_succ_of_le (loop.upTo t visited)⟩, ?_⟩⟩
    rintro ⟨live, lt⟩
    rcases Nat.lt_succ_iff_lt_or_eq.mp lt with lt | same
    · exact stay t (((h first).visited_iff t).mpr ⟨live, lt⟩)
    · exact all t (List.mem_finRange t) live same

/-- Before the first region. -/
theorem between_start (m : Mesh ne) :
    Between m 0 { tri := m.tri, reg := m.reg, comp := fun _ => none, made := 0, warned := false } := by
  have never (t : Fin ne) {p : Prop} (visited : (none : Option ℕ) ≠ none) : p := absurd rfl visited
  refine ⟨⟨fun _ => rfl, fun _ _ => rfl, fun t => never t, fun t _ h => never t h, fun t _ h => never t h,
    fun t => never t, fun t => never t, ⟨[], (List.append_nil _).symm, rfl⟩, ?_, fun t => never t⟩, ?_⟩
  · intro n low high
    exact absurd high (Nat.not_lt.mpr low)
  · intro t
    exact iff_of_false (fun visited => never t visited) fun both => Nat.not_lt_zero _ both.2

theorem splitRegions_spec (wf : m.WellFormed) {s : Split ne} (h : Between m 0 s) {n : ℕ} (le : n ≤ m.reg.length)
    (unwarned : ((List.range n).foldl (splitRegion (chains m.tri)) s).warned = false) :
    Between m n ((List.range n).foldl (splitRegion (chains m.tri)) s) := by
  induction n with
  | zero => exact h
  | succ n ih =>
    rw [List.range_succ, List.foldl_append] at unwarned ⊢
    exact (splitRegion_spec wf le (fun unwarned => ih (Nat.le_of_succ_le le) unwarned) unwarned).2

/-! ## The mesh that is left -/

/-- The live triangles of each region of `m` are divided into the pieces it has. -/
structure Mesh.SplitsTo (m m' : Mesh ne) (made : ℕ) : Prop where
  parted : ∀ t u, (m.tri t).dead = false → (m.tri u).dead = false →
    ((m'.tri t).regnum = (m'.tri u).regnum ↔ (m.tri t).regnum = (m.tri u).regnum ∧ m.Joined t u)
  /-- The material and the flags of each triangle's region stay, also where the region is a new one. -/
  region : ∀ t, (m.tri t).dead = false → m'.reg[(m'.tri t).regnum]? = m.reg[(m.tri t).regnum]?
  added : ∃ more, m'.reg = m.reg ++ more ∧ more.length = made
  used : ∀ n, m.reg.length ≤ n → n < m'.reg.length → ∃ t, (m.tri t).dead = false ∧ (m'.tri t).regnum = n
  connected : ∀ r, (∀ t u, (m.tri t).dead = false → (m.tri u).dead = false → (m.tri t).regnum = r →
    (m.tri u).regnum = r → m.Joined t u) → ∀ t, (m.tri t).dead = false → (m.tri t).regnum = r → (m'.tri t).regnum = r
  mode : m'.mode = m.mode
  shape : ∀ t, m'.tri t = { m.tri t with regnum := (m'.tri t).regnum }
  dead : ∀ t, (m.tri t).dead = true → m'.tri t = m.tri t

theorem splitDiscReg_spec (two : m.mode = .twoD) (wf : m.WellFormed) (unwarned : (splitDiscReg m).2.2 = false) :
    m.SplitsTo (splitDiscReg m).1 (splitDiscReg m).2.1 := by
  unfold splitDiscReg at unwarned ⊢
  rw [if_neg (not_not.mpr two)] at unwarned ⊢
  dsimp only at unwarned ⊢
  have done := splitRegions_spec wf (between_start m) le_rfl unwarned
  generalize (List.range m.reg.length).foldl (splitRegion (chains m.tri))
    { tri := m.tri, reg := m.reg, comp := fun _ => none, made := 0, warned := false } = s at done ⊢
  have inv := done.inv
  have visited {t : Fin ne} (live : (m.tri t).dead = false) : s.comp t ≠ none := by
    obtain ⟨region, found, -⟩ := wf t live
    exact (done.visited_iff t).mpr ⟨live, (List.getElem?_eq_some_iff.mp found).1⟩
  refine ⟨?_, fun t live => inv.region t (visited live), inv.added, ?_, ?_, rfl, inv.shape, ?_⟩
  · intro t u ht hu
    exact inv.parted t u (visited ht) (visited hu)
  · intro n low high
    obtain ⟨t, ht, same⟩ := inv.used n low high
    exact ⟨t, inv.live t ht, same⟩
  · intro r whole t live ofRegion
    -- some triangle of the region has kept the number
    obtain ⟨u, hu, region, same⟩ := inv.first t (visited live)
    rw [ofRegion] at region same
    have both := whole t u live (inv.live u hu) ofRegion region
    exact ((inv.parted t u (visited live) hu).mpr ⟨ofRegion.trans region.symm, both⟩).trans same
  · intro t dead
    have unvisited : s.comp t = none := by
      by_contra ht
      rw [inv.live t ht] at dead
      cases dead
    dsimp only
    rw [inv.shape t, inv.untouched t unvisited]

end

section BowTie

local instance small : Header where
  maxReg := 2
  killMe := 7

/-- Two triangles of a region that share one node. -/
def bowTie : Mesh 2 where
  mode := .twoD
  tri t :=
    if t = 0 then { nd := ![0, 1, 2], distinct := by decide, regnum := 0, flags := 0 }
    else { nd := ![2, 3, 4], distinct := by decide, regnum := 0, flags := 0 }
  reg := [⟨1, 2⟩]

theorem splitDiscReg_spec_bowTie : bowTie.SplitsTo (splitDiscReg bowTie).1 1 ∧
    ((splitDiscReg bowTie).1.tri 0).regnum ≠ ((splitDiscReg bowTie).1.tri 1).regnum := by
  have wf : bowTie.WellFormed := by
    intro t _
    exact ⟨⟨1, 2⟩, by revert t; decide, by decide⟩
  have made : (splitDiscReg bowTie).2.1 = 1 := by decide
  have splits := splitDiscReg_spec (m := bowTie) rfl wf (by decide)
  exact ⟨made ▸ splits, by decide⟩

end BowTie

end TcadWebapp.Suprem
