import Mathlib
import TcadWebapp.Misc.Jordan
import TcadWebapp.Remesh.Geo

/-!
# Nested loops

`nest_loops` asks for each loop in which others its first point lies. Where that is an order in which
what is around a loop forms a chain, the groups are surfaces: a loop at an even depth with the loops
right below it as holes. Simple polygons that keep apart are so ordered, by what contains what.
-/

namespace TcadWebapp.Remesh

/-- A loop by its points, of which there are some. -/
structure Polygon where
  points : List (Rat × Rat)
  nonempty : points ≠ []

namespace Polygon

def first (polygon : Polygon) : Rat × Rat := polygon.points.head polygon.nonempty

/-- The first point of the one polygon is inside the other. -/
def Within (polygons : List Polygon) (i j : Nat) : Prop :=
  i ≠ j ∧ ∃ P ∈ polygons[i]?, ∃ Q ∈ polygons[j]?, inside P.first Q.points = true

instance (polygons : List Polygon) (i j : Nat) : Decidable (Within polygons i j) := by
  unfold Within
  infer_instance

/-- The polygons around one, in order. -/
def around (polygons : List Polygon) (i : Nat) : List Nat :=
  (List.range polygons.length).filter fun j => Within polygons i j

def depth (polygons : List Polygon) (i : Nat) : Nat := (around polygons i).length

/-- The immediate container: all others are around it. -/
def Immediate (polygons : List Polygon) (i j : Nat) : Prop :=
  Within polygons i j ∧ ∀ k, Within polygons i k → k = j ∨ Within polygons j k

/-- An order in which what is around a polygon forms a chain. -/
structure Forest (polygons : List Polygon) : Prop where
  trans : ∀ i j k, Within polygons i j → Within polygons j k → Within polygons i k
  chain : ∀ i j k, Within polygons i j → Within polygons i k → j = k ∨ Within polygons j k ∨ Within polygons k j

variable {polygons : List Polygon} {i j k : Nat}

theorem Within.lt (h : Within polygons i j) : i < polygons.length ∧ j < polygons.length := by
  obtain ⟨-, P, hP, Q, hQ, -⟩ := h
  exact ⟨(List.getElem?_eq_some_iff.mp hP).1, (List.getElem?_eq_some_iff.mp hQ).1⟩

theorem mem_around : j ∈ around polygons i ↔ Within polygons i j := by
  unfold around
  rw [List.mem_filter, List.mem_range, decide_eq_true_eq]
  exact ⟨fun h => h.2, fun h => ⟨h.lt.2, h⟩⟩

theorem nodup_around (polygons : List Polygon) (i : Nat) : (around polygons i).Nodup :=
  List.nodup_range.filter _

/-! ## What the program computes -/

theorem insideTest_eq {P Q : Polygon} (hi : polygons[i]? = some P) (hj : polygons[j]? = some Q) :
    insideTest (polygons.map points) i j = .ok (j, inside P.first Q.points) := by
  have there {k : Nat} {R : Polygon} (h : polygons[k]? = some R) :
      index (polygons.map points) (k : Nat) = .ok R.points := by
    rw [index_natCast, List.getElem?_map, h]
    rfl
  have head : index P.points 0 = .ok P.first := by
    obtain ⟨points, nonempty⟩ := P
    cases points with
    | nil => exact absurd rfl nonempty
    | cons first rest => rfl
  unfold insideTest
  rw [there hi]
  dsimp only [bind, Except.bind]
  rw [head]
  dsimp only
  rw [there hj]

theorem containers_eq (h : i < polygons.length) :
    containers (polygons.map points) i = .ok (around polygons i) := by
  have tests : ((List.range polygons.length).filter fun j => j ≠ i).mapM (insideTest (polygons.map points) i) =
      .ok (((List.range polygons.length).filter fun j => j ≠ i).map fun j => (j, decide (Within polygons i j))) := by
    refine (mapM_ok_iff ?_).mpr rfl
    intro j mem
    obtain ⟨mem, other⟩ := List.mem_filter.mp mem
    have hi := List.getElem?_eq_getElem h
    have hj := List.getElem?_eq_getElem (List.mem_range.mp mem)
    rw [insideTest_eq hi hj]
    congr 2
    rw [Bool.eq_iff_iff, decide_eq_true_eq]
    constructor
    · intro test
      exact ⟨(of_decide_eq_true other).symm, _, hi, _, hj, test⟩
    · rintro ⟨-, P, hP, Q, hQ, test⟩
      obtain rfl := Option.some.inj (hi.symm.trans hP)
      obtain rfl := Option.some.inj (hj.symm.trans hQ)
      exact test
  unfold containers
  rw [List.length_map, tests]
  dsimp only [bind, Except.bind]
  rw [List.filter_map, List.map_map, List.filter_filter]
  unfold around
  congr 1
  refine (List.map_id _).trans (List.filter_congr ?_)
  intro j _
  show (decide (Within polygons i j) && decide (j ≠ i)) = decide (Within polygons i j)
  rw [Bool.eq_iff_iff, Bool.and_eq_true, decide_eq_true_eq, decide_eq_true_eq]
  exact ⟨fun h => h.1, fun h => ⟨h, h.1.symm⟩⟩

/-- The depths are known by place. -/
theorem getD_around (polygons : List Polygon) (i : Nat) :
    ((List.range polygons.length).map (around polygons)).getD i [] = around polygons i := by
  rw [List.getD_eq_getElem?_getD, List.getElem?_map]
  rcases lt_or_ge i polygons.length with lt | ge
  · rw [List.getElem?_range lt]
    rfl
  · rw [List.getElem?_eq_none (by simpa using ge)]
    symm
    exact List.eq_nil_iff_forall_not_mem.mpr fun j mem => absurd (mem_around.mp mem).lt.1 (not_lt.mpr ge)

/-- Putting an item at the end of the group it belongs to, if there is that group. -/
theorem get?_foldl_append {parent : Nat → Option Nat} (l : List Nat) (groups : Dict Nat (List Nat)) (k : Nat) :
    (l.foldl (fun groups i => match parent i with
      | none => groups
      | some parent => match groups.get? parent with
        | none => groups
        | some group => groups.set parent (group ++ [i])) groups).get? k =
      (groups.get? k).map fun group => group ++ l.filter fun i => parent i = some k := by
  induction l generalizing groups with
  | nil =>
    rw [List.foldl_nil, List.filter_nil]
    simp
  | cons i l ih =>
    rw [List.foldl_cons, ih]
    cases above : parent i with
    | none => rw [List.filter_cons_of_neg (by simp [above])]
    | some p =>
      dsimp only
      cases found : groups.get? p with
      | none =>
        dsimp only
        by_cases own : p = k
        · subst own
          rw [found]
          rfl
        · rw [List.filter_cons_of_neg (by simpa [above] using own)]
      | some group =>
        dsimp only
        rw [Dict.get?_set]
        by_cases own : k = p
        · subst own
          rw [if_pos rfl, found, List.filter_cons_of_pos (by simp [above]), Option.map_some, Option.map_some,
            List.append_assoc]
          rfl
        · rw [if_neg own, List.filter_cons_of_neg (by simpa [above] using Ne.symm own)]

/-- The one that the program takes for the immediate container. -/
def parent (polygons : List Polygon) (i : Nat) : Option Nat := deepest (depth polygons) (around polygons i)

/-- The groups by their heads. -/
theorem nestLoops_eq (polygons : List Polygon) : ∃ groups : Dict Nat (List Nat),
    nestLoops (polygons.map points) = .ok (groups.entries.map Prod.snd) ∧
      ∀ k group, groups.get? k = some group ↔ (k < polygons.length ∧ depth polygons k % 2 = 0) ∧
        group = k :: (List.range polygons.length).filter fun i =>
          depth polygons i % 2 = 1 ∧ parent polygons i = some k := by
  have all : (List.range polygons.length).mapM (containers (polygons.map points)) =
      .ok ((List.range polygons.length).map (around polygons)) :=
    (mapM_ok_iff fun i mem => containers_eq (List.mem_range.mp mem)).mpr rfl
  let evens := (List.range polygons.length).filter fun i => depth polygons i % 2 = 0
  let odds := (List.range polygons.length).filter fun i => depth polygons i % 2 = 1
  have heads (k : Nat) : (evens.foldl (fun groups i => groups.set i [i]) (∅ : Dict Nat (List Nat))).get? k =
      if k ∈ evens then some [k] else none := by
    have same : evens.foldl (fun groups i => groups.set i [i]) (∅ : Dict Nat (List Nat)) =
        Dict.ofList (evens.map fun i => (i, [i])) := by
      rw [Dict.ofList, Dict.update, List.foldl_map]
    rw [same]
    split
    · rename_i mem
      exact @Dict.get?_ofList_map _ _ _ _ id (fun i => [i]) evens 
        (fun a _ b _ same => congrArg (fun i => [i]) (show a = b from same)) k mem
    · rename_i missing
      exact Dict.get?_ofList_map_eq_none fun i mem same => missing (same ▸ mem)
  unfold nestLoops
  rw [List.length_map, all]
  dsimp only [bind, Except.bind]
  simp only [getD_around]
  refine ⟨_, rfl, ?_⟩
  intro k group
  have got := @get?_foldl_append (parent polygons) odds
    (evens.foldl (fun groups i => groups.set i [i]) (∅ : Dict Nat (List Nat))) k
  refine (iff_of_eq (congrArg (fun found => found = some group) got)).trans ?_
  have rest : (odds.filter fun i => parent polygons i = some k) = (List.range polygons.length).filter fun i =>
      depth polygons i % 2 = 1 ∧ parent polygons i = some k := by
    rw [List.filter_filter]
    apply List.filter_congr
    intro i _
    rw [Bool.and_comm, Bool.decide_and]
  have inEvens : k ∈ evens ↔ k < polygons.length ∧ depth polygons k % 2 = 0 := by
    rw [List.mem_filter, List.mem_range, decide_eq_true_eq]
  rw [heads, rest, ← inEvens]
  split
  · rename_i mem
    rw [Option.map_some, Option.some.injEq]
    exact ⟨fun same => ⟨mem, same.symm⟩, fun h => h.2.symm⟩
  · rename_i missing
    exact ⟨nofun, fun h => absurd h.1 missing⟩

/-! ## In a forest -/

theorem deepest_spec {depth : Nat → Nat} {l : List Nat} :
    (deepest depth l = none ↔ l = []) ∧ ∀ j, deepest depth l = some j → j ∈ l ∧ ∀ k ∈ l, depth k ≤ depth j := by
  cases l with
  | nil => exact ⟨⟨fun _ => rfl, fun _ => rfl⟩, nofun⟩
  | cons j rest =>
    refine ⟨⟨nofun, nofun⟩, ?_⟩
    intro best same
    obtain rfl := Option.some.inj same
    suffices all : ∀ (seen : List Nat) (best : Nat), best ∈ seen → (∀ k ∈ seen, depth k ≤ depth best) →
        ∀ rest : List Nat, rest.foldl (fun best k => if depth best < depth k then k else best) best ∈ seen ++ rest ∧
          ∀ k ∈ seen ++ rest, depth k ≤
            depth (rest.foldl (fun best k => if depth best < depth k then k else best) best) by
      exact all [j] j (by simp) (by simp) rest
    intro seen best mem most rest
    induction rest generalizing seen best with
    | nil =>
      rw [List.append_nil]
      exact ⟨mem, most⟩
    | cons k rest ih =>
      rw [List.append_cons, List.foldl_cons]
      split
      · rename_i deeper
        apply ih
        · simp
        · intro m hm
          rcases List.mem_append.mp hm with hm | hm
          · exact (most m hm).trans deeper.le
          · rw [List.mem_singleton.mp hm]
      · rename_i shallower
        apply ih
        · exact List.mem_append_left _ mem
        · intro m hm
          rcases List.mem_append.mp hm with hm | hm
          · exact most m hm
          · rw [List.mem_singleton.mp hm]
            exact not_lt.mp shallower

namespace Forest

variable (forest : Forest polygons)

include forest

/-- Below its immediate container a polygon is one deeper. -/
theorem depth_eq (h : Immediate polygons i j) : depth polygons i = depth polygons j + 1 := by
  have perm : (around polygons i).Perm (j :: around polygons j) := by
    refine (List.perm_ext_iff_of_nodup (nodup_around _ _) ?_).mpr ?_
    · exact List.nodup_cons.mpr ⟨fun mem => (mem_around.mp mem).1 rfl, nodup_around _ _⟩
    · intro k
      rw [List.mem_cons, mem_around, mem_around]
      constructor
      · exact h.2 k
      · rintro (rfl | above)
        · exact h.1
        · exact forest.trans i j k h.1 above
  unfold depth
  rw [perm.length_eq, List.length_cons]

theorem lt_depth (h : Within polygons i j) : depth polygons j < depth polygons i := by
  have subset : (j :: around polygons j).Subperm (around polygons i) := by
    apply List.subperm_of_subset
    · exact List.nodup_cons.mpr ⟨fun mem => (mem_around.mp mem).1 rfl, nodup_around _ _⟩
    · intro k mem
      rcases List.mem_cons.mp mem with rfl | mem
      · exact mem_around.mpr h
      · exact mem_around.mpr (forest.trans i j k h (mem_around.mp mem))
  exact subset.length_le

theorem parent_eq_some : parent polygons i = some j ↔ Immediate polygons i j := by
  have immediate {j : Nat} (h : parent polygons i = some j) : Immediate polygons i j := by
    obtain ⟨mem, most⟩ := deepest_spec.2 j h
    refine ⟨mem_around.mp mem, ?_⟩
    intro k above
    rcases forest.chain i j k (mem_around.mp mem) above with rfl | down | up
    · exact Or.inl rfl
    · exact Or.inr down
    · exact absurd (most k (mem_around.mpr above)) (not_le.mpr (forest.lt_depth up))
  constructor
  · exact immediate
  · intro h
    cases found : parent polygons i with
    | none =>
      have := deepest_spec.1.mp found
      have mem := mem_around.mpr h.1
      rw [this] at mem
      cases mem
    | some k =>
      rcases h.2 k (immediate found).1 with rfl | down
      · rfl
      · rcases (immediate found).2 j h.1 with rfl | up
        · exact absurd rfl down.1
        · exact absurd (forest.lt_depth down) (forest.lt_depth up).not_gt

/-- Each polygon is in one group, a head at an even depth with those right below it. -/
theorem exists_groups : ∃ groups, nestLoops (polygons.map points) = .ok groups ∧
    groups.flatten.Perm (List.range polygons.length) ∧ ∀ group ∈ groups, ∃ head rest, group = head :: rest ∧
      Even (depth polygons head) ∧ ∀ i, i ∈ rest ↔ Immediate polygons i head := by
  obtain ⟨groups, made, spec⟩ := nestLoops_eq polygons
  have entry {k : Nat} {group : List Nat} (mem : (k, group) ∈ groups.entries) :=
    (spec k group).mp (Dict.get?_eq_some.mpr mem)
  have member {k i : Nat} : (i ∈ (List.range polygons.length).filter fun i =>
      depth polygons i % 2 = 1 ∧ parent polygons i = some k) ↔
      i < polygons.length ∧ depth polygons i % 2 = 1 ∧ parent polygons i = some k := by
    rw [List.mem_filter, List.mem_range, decide_eq_true_eq]
  refine ⟨_, made, ?_, ?_⟩
  · refine (List.perm_ext_iff_of_nodup ?_ List.nodup_range).mpr ?_
    · rw [List.nodup_flatten]
      constructor
      · intro group mem
        obtain ⟨⟨k, _⟩, placed, rfl⟩ := List.mem_map.mp mem
        obtain ⟨⟨-, even⟩, rfl⟩ := entry placed
        refine List.nodup_cons.mpr ⟨?_, List.nodup_range.filter _⟩
        intro mem
        have := (member.mp mem).2.1
        omega
      · rw [List.pairwise_map]
        refine (List.pairwise_map.mp groups.nodup).imp_of_mem ?_
        rintro ⟨k, group⟩ ⟨k', group'⟩ placed placed' other
        obtain ⟨⟨-, even⟩, rfl⟩ := entry placed
        obtain ⟨⟨-, even'⟩, rfl⟩ := entry placed'
        intro i mem mem'
        rcases List.mem_cons.mp mem with rfl | mem
        · rcases List.mem_cons.mp mem' with rfl | mem'
          · exact other rfl
          · have := (member.mp mem').2.1
            omega
        · rcases List.mem_cons.mp mem' with rfl | mem'
          · have := (member.mp mem).2.1
            omega
          · exact other (Option.some.inj ((member.mp mem).2.2.symm.trans (member.mp mem').2.2))
    · intro i
      rw [List.mem_flatten, List.mem_range]
      have group {k : Nat} (lt : k < polygons.length) (even : depth polygons k % 2 = 0) :=
        List.mem_map_of_mem (f := Prod.snd) (Dict.get?_eq_some.mp ((spec k _).mpr ⟨⟨lt, even⟩, rfl⟩))
      constructor
      · rintro ⟨_, mem, within⟩
        obtain ⟨⟨k, _⟩, placed, rfl⟩ := List.mem_map.mp mem
        obtain ⟨⟨lt, -⟩, rfl⟩ := entry placed
        rcases List.mem_cons.mp within with rfl | within
        · exact lt
        · exact (member.mp within).1
      · intro lt
        rcases Nat.mod_two_eq_zero_or_one (depth polygons i) with even | odd
        · exact ⟨_, group lt even, List.mem_cons_self⟩
        · cases found : parent polygons i with
          | none =>
            have := deepest_spec.1.mp found
            rw [depth, this] at odd
            cases odd
          | some k =>
            have above := forest.parent_eq_some.mp found
            have := forest.depth_eq above
            exact ⟨_, group above.1.lt.2 (by omega), List.mem_cons_of_mem _ (member.mpr ⟨lt, odd, found⟩)⟩
  · intro group mem
    obtain ⟨⟨k, _⟩, placed, rfl⟩ := List.mem_map.mp mem
    obtain ⟨⟨lt, even⟩, same⟩ := entry placed
    refine ⟨k, _, same, Nat.even_iff.mpr even, ?_⟩
    intro i
    rw [member, forest.parent_eq_some]
    constructor
    · exact fun h => h.2.2
    · intro h
      refine ⟨h.1.lt.1, ?_, h⟩
      have := forest.depth_eq h
      omega

end Forest

/-! ## Real containment -/

/-- A point of the program as a point of the plane. -/
def real (p : Rat × Rat) : ℝ × ℝ := (p.1, p.2)

instance (P : Polygon) : NeZero P.points.length := ⟨mt List.length_eq_zero_iff.mp P.nonempty⟩

def corner (P : Polygon) (i : Fin P.points.length) : ℝ × ℝ := real (P.points.get i)

def outline (P : Polygon) : Set (ℝ × ℝ) := Plane.outline P.corner

/-- The bounded part beside the outline. -/
def interior (P : Polygon) : Set (ℝ × ℝ) := Plane.inside P.corner

/-- All that the polygon encloses, with its outline. -/
def region (P : Polygon) : Set (ℝ × ℝ) := P.outline ∪ P.interior

/-- The one polygon lies in the other. -/
def Contained (polygons : List Polygon) (i j : Nat) : Prop :=
  i ≠ j ∧ ∃ P ∈ polygons[i]?, ∃ Q ∈ polygons[j]?, P.region ⊆ Q.region

/-- Simple polygons without a common point, of which any two are disjoint or nested. -/
structure Separate (polygons : List Polygon) : Prop where
  simple : ∀ P ∈ polygons, Plane.Simple P.corner
  apart : ∀ (i j : Nat) (P Q : Polygon), i ≠ j → polygons[i]? = some P → polygons[j]? = some Q →
    Disjoint P.outline Q.outline
  nested : ∀ (i j : Nat) (P Q : Polygon), i ≠ j → polygons[i]? = some P → polygons[j]? = some Q →
    Disjoint P.region Q.region ∨ P.region ⊆ Q.region ∨ Q.region ⊆ P.region

/-- A test that is turned by each item with a property is true at last if their number is odd. -/
theorem foldl_not {α : Type*} {test : α → Prop} [DecidablePred test] (l : List α) (b : Bool) :
    l.foldl (fun b a => if test a then !b else b) b = true ↔
      (if b then 1 else 0 : ZMod 2) + (l.map fun a => if test a then (1 : ZMod 2) else 0).sum = 1 := by
  induction l generalizing b with
  | nil => cases b <;> simp
  | cons a l ih =>
    rw [List.foldl_cons, ih, List.map_cons, List.sum_cons, ← add_assoc]
    by_cases h : test a
    · rw [if_pos h, if_pos h]
      cases b
      · simp
      · simp only [Bool.not_true, Bool.false_eq_true, if_false, if_true]
        rw [show (1 + 1 : ZMod 2) = 0 from rfl]
    · rw [if_neg h, if_neg h, add_zero]

/-- The edges of the program, from each corner to the one after it. -/
theorem edges_eq (P : Polygon) : (P.points.getLast?.toList ++ P.points).zip P.points =
    List.ofFn fun i : Fin P.points.length => (P.points.get (i - 1), P.points.get i) := by
  rw [List.getLast?_eq_some_getLast P.nonempty, Option.toList_some, List.singleton_append]
  apply List.ext_getElem
  · rw [List.length_zip, List.length_cons, List.length_ofFn]
    omega
  · intro k lt lt'
    rw [List.length_ofFn] at lt'
    rw [List.getElem_zip, List.getElem_ofFn]
    refine Prod.ext ?_ rfl
    -- the corner before, of the first one the last
    have before : ((⟨k, lt'⟩ : Fin P.points.length) - 1).val = if k = 0 then P.points.length - 1 else k - 1 := by
      rw [Fin.sub_def, Fin.val_one']
      dsimp only
      split
      · subst k
        rcases (Nat.succ_le_of_lt lt').lt_or_eq with more | one
        · rw [Nat.mod_eq_of_lt more, add_zero, Nat.mod_eq_of_lt (by omega)]
        · rw [← one]
      · rw [Nat.mod_eq_of_lt (a := 1) (by omega), show P.points.length - 1 + k = k - 1 + P.points.length by omega,
          Nat.add_mod_right, Nat.mod_eq_of_lt (by omega)]
    dsimp only
    rw [List.get_eq_getElem]
    cases k with
    | zero =>
      rw [List.getElem_cons_zero, List.getLast_eq_getElem]
      simp only [before, if_true]
    | succ k =>
      rw [List.getElem_cons_succ]
      simp only [before, Nat.succ_ne_zero, if_false, Nat.add_sub_cancel]

theorem crosses_real {p a b : Rat × Rat} : Plane.Crosses (real p) (real a) (real b) ↔ Plane.Crosses p a b := by
  unfold Plane.Crosses Plane.passes real
  dsimp only
  norm_cast

theorem inside_iff (p : Rat × Rat) (P : Polygon) :
    inside p P.points = true ↔ Plane.parity P.corner (real p) = 1 := by
  have same : inside p P.points = ((P.points.getLast?.toList ++ P.points).zip P.points).foldl
      (fun inside edge => if Plane.Crosses p edge.1 edge.2 then !inside else inside) false := by
    unfold inside
    congr 1
    funext inside edge
    apply if_congr _ rfl rfl
    unfold Plane.Crosses
    rw [ne_eq, decide_eq_decide]
    exact and_congr_left fun _ => by tauto
  have turned : ∑ i : Fin P.points.length, (if Plane.Crosses p (P.points.get (i - 1)) (P.points.get i) then 1 else 0 : ZMod 2) =
      ∑ i : Fin P.points.length, if Plane.Crosses p (P.points.get i) (P.points.get (i + 1)) then 1 else 0 := by
    rw [← Equiv.sum_comp (Equiv.addRight (1 : Fin P.points.length))]
    refine Finset.sum_congr rfl fun i _ => ?_
    rw [Equiv.coe_addRight, add_sub_cancel_right]
  rw [same, foldl_not, edges_eq, List.map_ofFn, List.sum_ofFn]
  have crossings : Plane.parity P.corner (real p) =
      ∑ i : Fin P.points.length, if Plane.Crosses p (P.points.get i) (P.points.get (i + 1)) then 1 else 0 :=
    Finset.sum_congr rfl fun i _ => if_congr crosses_real rfl rfl
  rw [crossings, ← turned, if_neg Bool.false_ne_true, zero_add]
  exact Iff.rfl

theorem first_mem_outline (P : Polygon) : real P.first ∈ P.outline := by
  refine ⟨0, 0, ⟨le_rfl, zero_le_one⟩, ?_⟩
  have same : P.corner 0 = real P.first := by
    unfold corner first
    rw [List.get_eq_getElem, List.head_eq_getElem]
    rfl
  rw [same]
  simp

/-- A polygon in another is not around that. -/
theorem not_mem_interior {P Q : Polygon} (simple : Plane.Simple P.corner) (nested : Q.region ⊆ P.region)
    {x : ℝ × ℝ} (on : x ∈ P.outline) : x ∉ Q.interior := by
  intro mem
  obtain ⟨z, near, off, out⟩ := simple.exists_outside on Plane.isOpen_inside mem
  rcases nested (Or.inr near) with h | h
  · exact off h
  · exact out h

namespace Separate

variable (separate : Separate polygons)

include separate

/-- The test of the program tells containment. -/
theorem inside_iff {P Q : Polygon} (other : i ≠ j) (hi : polygons[i]? = some P) (hj : polygons[j]? = some Q) :
    inside P.first Q.points = true ↔ P.region ⊆ Q.region := by
  have onP := P.first_mem_outline
  have offQ : real P.first ∉ Q.outline := fun onQ => (separate.apart i j P Q other hi hj).le_bot ⟨onP, onQ⟩
  have simpleQ := separate.simple Q (List.mem_of_getElem? hj)
  rw [Polygon.inside_iff, ← simpleQ.mem_inside_iff offQ]
  constructor
  · intro within
    rcases separate.nested i j P Q other hi hj with disjoint | nested | around
    · exact (disjoint.le_bot ⟨Or.inl onP, Or.inr within⟩).elim
    · exact nested
    · exact absurd within (not_mem_interior (separate.simple P (List.mem_of_getElem? hi)) around onP)
  · intro nested
    exact (nested (Or.inl onP)).resolve_left offQ

theorem within_iff : Within polygons i j ↔ Contained polygons i j := by
  constructor
  · rintro ⟨other, P, hP, Q, hQ, test⟩
    exact ⟨other, P, hP, Q, hQ, (separate.inside_iff other hP hQ).mp test⟩
  · rintro ⟨other, P, hP, Q, hQ, nested⟩
    exact ⟨other, P, hP, Q, hQ, (separate.inside_iff other hP hQ).mpr nested⟩

theorem forest : Forest polygons where
  trans := by
    intro i j k above above'
    rw [separate.within_iff] at above above' ⊢
    obtain ⟨other, P, hP, Q, hQ, nested⟩ := above
    obtain ⟨other', Q', hQ', R, hR, nested'⟩ := above'
    obtain rfl := Option.some.inj (hQ.symm.trans hQ')
    refine ⟨?_, P, hP, R, hR, nested.trans nested'⟩
    -- two polygons that lie in each other would share their outlines
    rintro rfl
    obtain rfl := Option.some.inj (hP.symm.trans hR)
    have within : real P.first ∈ Q.interior :=
      (nested (Or.inl P.first_mem_outline)).resolve_left fun onQ =>
        (separate.apart i j P Q other hP hQ).le_bot ⟨P.first_mem_outline, onQ⟩
    exact not_mem_interior (separate.simple P (List.mem_of_getElem? hP)) nested' P.first_mem_outline within
  chain := by
    intro i j k above above'
    rw [separate.within_iff] at above above'
    obtain ⟨-, P, hP, Q, hQ, nested⟩ := above
    obtain ⟨-, P', hP', R, hR, nested'⟩ := above'
    obtain rfl := Option.some.inj (hP.symm.trans hP')
    by_cases same : j = k
    · exact Or.inl same
    · right
      rw [separate.within_iff, separate.within_iff]
      rcases separate.nested j k Q R same hQ hR with disjoint | inner | outer
      · have on := P.first_mem_outline
        exact (disjoint.le_bot ⟨nested (Or.inl on), nested' (Or.inl on)⟩).elim
      · exact Or.inl ⟨same, Q, hQ, R, hR, inner⟩
      · exact Or.inr ⟨Ne.symm same, R, hR, Q, hQ, outer⟩

end Separate

/-- Where the test is an order of chains, the groups are surfaces; where the polygons are simple and keep apart,
it is such an order, and that of what contains what. -/
theorem nestLoops_groups (polygons : List Polygon) :
    (Forest polygons → ∃ groups, nestLoops (polygons.map points) = .ok groups ∧
      groups.flatten.Perm (List.range polygons.length) ∧ ∀ group ∈ groups, ∃ head rest, group = head :: rest ∧
        Even (depth polygons head) ∧ ∀ i, i ∈ rest ↔ Immediate polygons i head) ∧
    (Separate polygons → (∀ i j, Within polygons i j ↔ Contained polygons i j) ∧ Forest polygons) :=
  ⟨fun forest => forest.exists_groups, fun separate => ⟨fun _ _ => separate.within_iff, separate.forest⟩⟩

def triangle (a b c : Rat × Rat) : Polygon := ⟨[a, b, c], by simp⟩

theorem simple_triangle {a b c : Rat × Rat} (wide : Plane.area (real a) (real b) (real c) ≠ 0) :
    Plane.Simple (triangle a b c).corner := Plane.simple_of_area wide

theorem onSide_of_outline {a b c : Rat × Rat} {p : ℝ × ℝ} (h : p ∈ (triangle a b c).outline) :
    Plane.OnSide (real a) (real b) (real c) p := Plane.onSide_of_outline h

def outerTriangle : Polygon := triangle (0, 0) (6, 0) (0, 6)

def innerTriangle : Polygon := triangle (1, 1) (2, 1) (1, 2)

theorem simple_outer : Plane.Simple outerTriangle.corner := by
  apply simple_triangle
  norm_num [Plane.area, real]

theorem simple_inner : Plane.Simple innerTriangle.corner := by
  apply simple_triangle
  norm_num [Plane.area, real]

/-- What the inner triangle encloses lies in a square that the outer triangle does not meet. -/
theorem inner_subset : innerTriangle.region ⊆ outerTriangle.interior := by
  let square : Set (ℝ × ℝ) := Set.Icc 1 2 ×ˢ Set.Icc 1 2
  have beside : square ⊆ outerTriangle.outlineᶜ := by
    rintro p ⟨⟨left, right⟩, below, above⟩ on
    rcases onSide_of_outline on with ⟨t, ⟨low, high⟩, rfl⟩ | ⟨t, ⟨low, high⟩, rfl⟩ | ⟨t, ⟨low, high⟩, rfl⟩
    · norm_num [real] at below
    · norm_num [real] at right above
      linarith
    · norm_num [real] at left
  have within : real (1, 1) ∈ square := by
    constructor <;> norm_num [real]
  have start : real (1, 1) ∈ outerTriangle.interior :=
    (simple_outer.mem_inside_iff (beside within)).mpr ((inside_iff _ _).mp (by decide +kernel))
  refine Set.Subset.trans ?_ (Plane.subset_inside (isPreconnected_Icc.prod isPreconnected_Icc) beside within start)
  intro p mem
  have box : Plane.InBox innerTriangle.corner p := by
    rcases mem with on | inside
    · exact Plane.OnOutline.inBox on
    · exact Plane.inBox_of_mem_inside simple_inner inside
  have corners (i : Fin 3) : (1 ≤ (innerTriangle.corner i).1 ∧ (innerTriangle.corner i).1 ≤ 2) ∧
      1 ≤ (innerTriangle.corner i).2 ∧ (innerTriangle.corner i).2 ≤ 2 := by
    match i with
    | 0 =>
      show (1 ≤ (real (1, 1)).1 ∧ (real (1, 1)).1 ≤ 2) ∧ 1 ≤ (real (1, 1)).2 ∧ (real (1, 1)).2 ≤ 2
      norm_num [real]
    | 1 =>
      show (1 ≤ (real (2, 1)).1 ∧ (real (2, 1)).1 ≤ 2) ∧ 1 ≤ (real (2, 1)).2 ∧ (real (2, 1)).2 ≤ 2
      norm_num [real]
    | 2 =>
      show (1 ≤ (real (1, 2)).1 ∧ (real (1, 2)).1 ≤ 2) ∧ 1 ≤ (real (1, 2)).2 ∧ (real (1, 2)).2 ≤ 2
      norm_num [real]
  obtain ⟨⟨i, left⟩, ⟨j, right⟩, ⟨k, below⟩, ⟨l, above⟩⟩ := box
  exact ⟨⟨(corners i).1.1.trans left, right.trans (corners j).1.2⟩, (corners k).2.1.trans below,
    above.trans (corners l).2.2⟩

theorem separate_triangles : Separate [outerTriangle, innerTriangle] := by
  have apart : Disjoint innerTriangle.outline outerTriangle.outline := by
    rw [Set.disjoint_left]
    exact fun p on on' => (inner_subset (Or.inl on)).1 on'
  have nested : innerTriangle.region ⊆ outerTriangle.region := inner_subset.trans Set.subset_union_right
  refine ⟨?_, ?_, ?_⟩
  · intro P mem
    rcases List.mem_cons.mp mem with rfl | mem
    · exact simple_outer
    · rw [List.mem_singleton.mp mem]
      exact simple_inner
  · intro i j P Q other hi hj
    match i, j with
    | 0, 0 | 1, 1 => exact absurd rfl other
    | 0, 1 =>
      obtain rfl := Option.some.inj hi
      obtain rfl := Option.some.inj hj
      exact apart.symm
    | 1, 0 =>
      obtain rfl := Option.some.inj hi
      obtain rfl := Option.some.inj hj
      exact apart
    | i + 2, _ => cases hi
    | _, j + 2 => cases hj
  · intro i j P Q other hi hj
    match i, j with
    | 0, 0 | 1, 1 => exact absurd rfl other
    | 0, 1 =>
      obtain rfl := Option.some.inj hi
      obtain rfl := Option.some.inj hj
      exact Or.inr (Or.inr nested)
    | 1, 0 =>
      obtain rfl := Option.some.inj hi
      obtain rfl := Option.some.inj hj
      exact Or.inr (Or.inl nested)
    | i + 2, _ => cases hi
    | _, j + 2 => cases hj

theorem nestLoops_groups_triangles : (∃ groups, nestLoops ([outerTriangle, innerTriangle].map points) = .ok groups ∧
      groups.flatten.Perm (List.range 2) ∧ ∀ group ∈ groups, ∃ head rest, group = head :: rest ∧
        Even (depth [outerTriangle, innerTriangle] head) ∧
          ∀ i, i ∈ rest ↔ Immediate [outerTriangle, innerTriangle] i head) ∧
    ∀ i j, Within [outerTriangle, innerTriangle] i j ↔ Contained [outerTriangle, innerTriangle] i j := by
  obtain ⟨groups, order⟩ := nestLoops_groups [outerTriangle, innerTriangle]
  obtain ⟨same, forest⟩ := order separate_triangles
  exact ⟨groups forest, same⟩

end Polygon

end TcadWebapp.Remesh
