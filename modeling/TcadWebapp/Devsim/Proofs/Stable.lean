import TcadWebapp.Devsim.Proofs.Renumbering

/-!
# When interface names are stable

A name says the role of a contact and its rank among those of its role by the middle of its extent. Contacts
of one role with one middle are ranked as their clusters were found, which the order of the elements
decides: the names are stable exactly if such contacts are in the same places (`NoTies`).
-/

namespace TcadWebapp.Devsim

open StrParser

variable {place point : Nat → Nat} {s s' : Structure Rat} {gateModel : GateModel}
  {candidates candidates' : List Candidate}

/-! ## Names by role and rank -/

/-- The candidates of a role. -/
def ofRole (gate : Bool) (candidates : List Candidate) : List Candidate :=
  candidates.filter fun c => c.looksLikeGate = gate

theorem mem_ofRole {gate : Bool} {c : Candidate} :
    c ∈ ofRole gate candidates ↔ c ∈ candidates ∧ c.looksLikeGate = gate := by
  rw [ofRole, List.mem_filter, decide_eq_true_eq]

/-- The `k`-th name of a role. -/
def roleName (gates plain : Nat) (gate : Bool) (k : Nat) : String :=
  if gate then gateName gates k else plainName plain k

/-- The electrode of a candidate that is named. -/
def Candidate.named (c : Candidate) (name : String) : Electrode :=
  ⟨name, c.kind, c.materials, c.edges, c.extent, "metal"⟩

theorem nameFrom_cons (gates plain : Nat) (c : Candidate) (rest : List Candidate) (n : Bool → Nat) :
    nameFrom gates plain (c :: rest) (n true) (n false) =
      c.named (roleName gates plain c.looksLikeGate (n c.looksLikeGate + 1)) ::
        nameFrom gates plain rest (Function.update n c.looksLikeGate (n c.looksLikeGate + 1) true)
          (Function.update n c.looksLikeGate (n c.looksLikeGate + 1) false) := by
  rw [nameFrom]
  cases role : c.looksLikeGate <;> simp [Candidate.named, roleName]

theorem getElem?_ofRole_cons (gate : Bool) (c : Candidate) (rest : List Candidate) (k : Nat) :
    (ofRole gate (c :: rest))[k]? =
      if c.looksLikeGate = gate then (c :: ofRole gate rest)[k]? else (ofRole gate rest)[k]? := by
  rw [ofRole, List.filter_cons, ofRole]
  by_cases role : c.looksLikeGate = gate <;> simp [role]

/-- The names go through the candidates of each role, in their order. -/
theorem mem_nameFrom_iff {gates plain : Nat} {n : Bool → Nat} {one : Electrode} :
    one ∈ nameFrom gates plain candidates (n true) (n false) ↔ ∃ (gate : Bool) (k : Nat) (c : Candidate),
      (ofRole gate candidates)[k]? = some c ∧
        one = c.named (roleName gates plain gate (n gate + k + 1)) := by
  induction candidates generalizing n with
  | nil => simp [nameFrom, ofRole]
  | cons c rest ih =>
    rw [nameFrom_cons, List.mem_cons, ih]
    constructor
    · rintro (rfl | ⟨gate, k, d, found, rfl⟩)
      · refine ⟨c.looksLikeGate, 0, c, ?_, rfl⟩
        rw [getElem?_ofRole_cons, if_pos rfl]
        rfl
      · by_cases role : c.looksLikeGate = gate
        · refine ⟨gate, k + 1, d, ?_, ?_⟩
          · rw [getElem?_ofRole_cons, if_pos role]
            exact found
          · rw [role, Function.update_self, Nat.add_right_comm (n gate) 1 k, Nat.add_assoc (n gate) k 1]
        · refine ⟨gate, k, d, ?_, ?_⟩
          · rw [getElem?_ofRole_cons, if_neg role]
            exact found
          · rw [Function.update_of_ne (Ne.symm role)]
    · rintro ⟨gate, k, d, found, rfl⟩
      rw [getElem?_ofRole_cons] at found
      by_cases role : c.looksLikeGate = gate
      · rw [if_pos role] at found
        cases k with
        | zero =>
          obtain rfl := Option.some.inj found
          exact Or.inl (by rw [role])
        | succ k =>
          refine Or.inr ⟨gate, k, d, found, ?_⟩
          rw [role, Function.update_self, Nat.add_right_comm (n gate) 1 k, Nat.add_assoc (n gate) k 1]
      · rw [if_neg role] at found
        refine Or.inr ⟨gate, k, d, found, ?_⟩
        rw [Function.update_of_ne (Ne.symm role)]

/-- The candidates from left to right. -/
def fromLeft (candidates : List Candidate) : List Candidate :=
  candidates.insertionSort fun a b => a.center ≤ b.center

theorem perm_fromLeft (candidates : List Candidate) : (fromLeft candidates).Perm candidates :=
  List.perm_insertionSort _ candidates

/-- How many candidates have a role. -/
def countRole (candidates : List Candidate) (gate : Bool) : Nat :=
  candidates.countP fun c => c.looksLikeGate = gate

theorem length_ofRole_fromLeft (gate : Bool) (candidates : List Candidate) :
    (ofRole gate (fromLeft candidates)).length = countRole candidates gate := by
  rw [ofRole, ← List.countP_eq_length_filter, countRole]
  exact (perm_fromLeft candidates).countP_eq _

/-- The electrodes by role and rank. -/
theorem mem_nameElectrodes_iff {one : Electrode} : one ∈ nameElectrodes candidates ↔
    ∃ (gate : Bool) (k : Nat) (c : Candidate), (ofRole gate (fromLeft candidates))[k]? = some c ∧
      one = c.named (roleName (countRole candidates true) (countRole candidates false) gate (k + 1)) := by
  have gates : (fromLeft candidates).countP Candidate.looksLikeGate = countRole candidates true := by
    rw [(perm_fromLeft candidates).countP_eq, countRole]
    exact List.countP_congr fun c _ => by simp
  have plain : (fromLeft candidates).countP (fun c => !c.looksLikeGate) = countRole candidates false := by
    rw [(perm_fromLeft candidates).countP_eq, countRole]
    exact List.countP_congr fun c _ => by simp
  have names := @mem_nameFrom_iff (fromLeft candidates) (countRole candidates true)
    (countRole candidates false) (fun _ => 0) one
  simp only [Nat.zero_add] at names
  rw [← names, nameElectrodes]
  change one ∈ nameFrom ((fromLeft candidates).countP Candidate.looksLikeGate)
    ((fromLeft candidates).countP fun c => !c.looksLikeGate) (fromLeft candidates) 0 0 ↔ _
  rw [gates, plain]

/-- A name says the role and the rank. -/
theorem roleName_inj {gates plain : Nat} {gate gate' : Bool} {j k : Nat}
    (hj : 0 < j ∧ j ≤ if gate then gates else plain) (hk : 0 < k ∧ k ≤ if gate' then gates else plain)
    (h : roleName gates plain gate j = roleName gates plain gate' k) : gate = gate' ∧ j = k := by
  cases gate with
  | true =>
    cases gate' with
    | true => exact ⟨rfl, gateName_inj hj hk h⟩
    | false => exact absurd h (gateName_ne_plainName _ _ _ _)
  | false =>
    cases gate' with
    | true => exact absurd h.symm (gateName_ne_plainName _ _ _ _)
    | false => exact ⟨rfl, plainName_inj hj hk h⟩

/-! ## Candidates that differ in their order -/

section Order

variable (perm : (candidates'.map (Candidate.view s')).Perm (candidates.map (Candidate.view s)))

include perm

theorem countRole_eq (gate : Bool) : countRole candidates' gate = countRole candidates gate := by
  have count : ∀ (s : Structure Rat) (candidates : List Candidate), countRole candidates gate =
      (candidates.map (Candidate.view s)).countP fun view => view.1 = gate := by
    intro s candidates
    rw [List.countP_map]
    rfl
  rw [count s', count s, perm.countP_eq]

/-- The middles of the candidates of a role, without the order. -/
theorem perm_centers (gate : Bool) : ((ofRole gate candidates').map Candidate.center).Perm
    ((ofRole gate candidates).map Candidate.center) := by
  have centers : ∀ (s : Structure Rat) (candidates : List Candidate),
      (ofRole gate candidates).map Candidate.center =
        ((candidates.map (Candidate.view s)).filter fun view => view.1 = gate).map
          fun view => view.2.1 := by
    intro s candidates
    rw [List.filter_map, List.map_map]
    rfl
  rw [centers s', centers s]
  exact (perm.filter _).map _

omit perm in
theorem sorted_ofRole (gate : Bool) (candidates : List Candidate) :
    (ofRole gate (fromLeft candidates)).Pairwise fun a b => a.center ≤ b.center :=
  (pairwise_sort_key candidates).filter _

omit perm in
theorem perm_ofRole (gate : Bool) (candidates : List Candidate) :
    (ofRole gate (fromLeft candidates)).Perm (ofRole gate candidates) :=
  (perm_fromLeft candidates).filter _

/-- The candidates of one role and rank have one middle. -/
theorem centers_eq (gate : Bool) : (ofRole gate (fromLeft candidates')).map Candidate.center =
    (ofRole gate (fromLeft candidates)).map Candidate.center := by
  refine map_key_eq (sorted_ofRole gate _) (sorted_ofRole gate _) ?_
  exact ((perm_ofRole gate candidates').map _).trans
    ((perm_centers perm gate).trans ((perm_ofRole gate candidates).map _).symm)

theorem roleName_eq (gate : Bool) (k : Nat) :
    roleName (countRole candidates' true) (countRole candidates' false) gate k =
      roleName (countRole candidates true) (countRole candidates false) gate k := by
  rw [countRole_eq perm, countRole_eq perm]

/-- The names are the same. -/
theorem exists_named {one : Electrode} (mem : one ∈ nameElectrodes candidates) :
    ∃ one' ∈ nameElectrodes candidates', one'.name = one.name := by
  obtain ⟨gate, k, c, found, rfl⟩ := mem_nameElectrodes_iff.mp mem
  have lt : k < (ofRole gate (fromLeft candidates')).length := by
    rw [length_ofRole_fromLeft, countRole_eq perm, ← length_ofRole_fromLeft]
    exact (List.getElem?_eq_some_iff.mp found).1
  exact ⟨_, mem_nameElectrodes_iff.mpr ⟨gate, k, _, List.getElem?_eq_getElem lt, rfl⟩,
    roleName_eq perm gate (k + 1)⟩

/-- Electrodes of one name are of candidates of one role with one middle. -/
theorem exists_of_name {one one' : Electrode} (mem : one ∈ nameElectrodes candidates)
    (mem' : one' ∈ nameElectrodes candidates') (name : one.name = one'.name) :
    ∃ c ∈ candidates, ∃ c' ∈ candidates', one.edges = c.edges ∧ one'.edges = c'.edges ∧
      c'.looksLikeGate = c.looksLikeGate ∧ c'.center = c.center := by
  obtain ⟨gate, k, c, found, rfl⟩ := mem_nameElectrodes_iff.mp mem
  obtain ⟨gate', k', c', found', rfl⟩ := mem_nameElectrodes_iff.mp mem'
  have rank : ∀ {gate : Bool} {k : Nat} {c : Candidate},
      (ofRole gate (fromLeft candidates))[k]? = some c →
      k + 1 ≤ if gate then countRole candidates true else countRole candidates false := by
    intro gate k c found
    have lt := (List.getElem?_eq_some_iff.mp found).1
    rw [length_ofRole_fromLeft] at lt
    cases gate <;> exact lt
  have lt' := (List.getElem?_eq_some_iff.mp found').1
  rw [length_ofRole_fromLeft, countRole_eq perm] at lt'
  have rank' : k' + 1 ≤ if gate' then countRole candidates true else countRole candidates false := by
    cases gate' <;> exact lt'
  obtain ⟨rfl, e⟩ := roleName_inj ⟨Nat.succ_pos k, rank found⟩ ⟨Nat.succ_pos k', rank'⟩
    (name.trans (roleName_eq perm gate' (k' + 1)))
  obtain rfl := Nat.succ.inj e
  obtain ⟨hc, role⟩ := mem_ofRole.mp ((perm_ofRole gate candidates).subset (List.mem_of_getElem? found))
  obtain ⟨hc', role'⟩ :=
    mem_ofRole.mp ((perm_ofRole gate candidates').subset (List.mem_of_getElem? found'))
  refine ⟨c, hc, c', hc', rfl, rfl, role'.trans role.symm, ?_⟩
  have centers := congrArg (fun l : List Rat => l[k]?) (centers_eq perm gate)
  rw [List.getElem?_map, List.getElem?_map, found, found'] at centers
  exact Option.some.inj centers

/-- Without ties, electrodes of one name are in the same places. -/
theorem places_of_noTies (noTies : ∀ c ∈ candidates, ∀ d ∈ candidates,
    c.looksLikeGate = d.looksLikeGate → c.center = d.center → places s c.edges = places s d.edges)
    {one one' : Electrode} (mem : one ∈ nameElectrodes candidates)
    (mem' : one' ∈ nameElectrodes candidates') (name : one.name = one'.name) :
    places s one.edges = places s' one'.edges := by
  obtain ⟨c, hc, c', hc', edges, edges', role, center⟩ := exists_of_name perm mem mem' name
  obtain ⟨d, hd, view⟩ := List.mem_map.mp (perm.subset (List.mem_map_of_mem hc'))
  obtain ⟨role', center', here⟩ := by
    simpa only [Candidate.view, Prod.mk.injEq] using view
  rw [edges, edges', ← here]
  exact noTies c hc d hd (role.symm.trans role'.symm) (center.symm.trans center'.symm)

/-- The first candidates of a role with a middle get one name. -/
theorem exists_first {gate : Bool} {x : Rat} {c c' : Candidate} {rest rest' : List Candidate}
    (first : (ofRole gate candidates).filter (fun d => d.center = x) = c :: rest)
    (first' : (ofRole gate candidates').filter (fun d => d.center = x) = c' :: rest') :
    ∃ one ∈ nameElectrodes candidates, ∃ one' ∈ nameElectrodes candidates',
      one.name = one'.name ∧ one.edges = c.edges ∧ one'.edges = c'.edges := by
  have entry : ∀ {candidates : List Candidate} {c : Candidate} {rest : List Candidate},
      (ofRole gate candidates).filter (fun d => d.center = x) = c :: rest →
      (ofRole gate (fromLeft candidates))[(ofRole gate candidates).countP fun d => d.center < x]? =
        some c := by
    intro candidates c rest first
    rw [← (perm_ofRole gate candidates).countP_eq]
    have sorted : (ofRole gate (fromLeft candidates)).filter (fun d => d.center = x) = c :: rest := by
      rw [← first, ofRole, List.filter_comm, fromLeft, filter_sort_key, List.filter_comm]
      rfl
    exact getElem?_countP_key (sorted_ofRole gate candidates) sorted
  have ranks : (ofRole gate candidates').countP (fun d => d.center < x) =
      (ofRole gate candidates).countP fun d => d.center < x := by
    have counts := (perm_centers perm gate).countP_eq fun y => y < x
    rwa [List.countP_map, List.countP_map] at counts
  refine ⟨_, mem_nameElectrodes_iff.mpr ⟨gate, _, c, entry first, rfl⟩, _,
    mem_nameElectrodes_iff.mpr ⟨gate, _, c', entry first', rfl⟩, ?_, rfl, rfl⟩
  dsimp only [Candidate.named]
  rw [roleName_eq perm, ranks]

end Order

/-! ## The back side -/

theorem perm_meshSides (h : Renumbers place point s s') :
    ((meshSides s.elements).map (Side.move place point)).Perm (meshSides s'.elements) := by
  have moved : ∀ side ∈ meshSides s.elements, side.move place point ∈ meshSides s'.elements := by
    intro side mem
    obtain ⟨element, found, lt, made⟩ := mem_meshSides.mp mem
    obtain ⟨element', found', moved⟩ := h.element _ _ found
    refine mem_meshSides.mpr ⟨element', found', lt, ?_⟩
    exact (moved.side _ _).trans (made ▸ rfl)
  refine (List.perm_ext_iff_of_nodup ?_ (nodup_meshSides _)).mpr fun side' => ?_
  · refine (nodup_meshSides _).map_on fun x hx y hy e => eq_of_place hx hy ?_ ?_
    · obtain ⟨element, found, -⟩ := mem_meshSides.mp hx
      obtain ⟨other, found', -⟩ := mem_meshSides.mp hy
      exact h.place_inj _ (List.getElem?_eq_some_iff.mp found).1 _
        (List.getElem?_eq_some_iff.mp found').1 (congrArg Side.element e)
    · exact (Side.mk.inj e).2.1
  · constructor
    · intro mem
      obtain ⟨side, hside, rfl⟩ := List.mem_map.mp mem
      exact moved side hside
    · intro mem
      obtain ⟨element', found', lt, made⟩ := mem_meshSides.mp mem
      obtain ⟨t, element, e, found, changed⟩ := h.exists_element found'
      rw [e, changed.side] at made
      obtain ⟨side, hside, rfl⟩ := Option.map_eq_some_iff.mp made
      obtain ⟨rfl, slot, -⟩ := Element.side_eq_some.mp hside
      exact List.mem_map_of_mem (mem_meshSides.mpr ⟨element, found, slot ▸ lt, by rw [slot]; exact hside⟩)

theorem backTouch_move (well : WellPlaced s) (h : Renumbers place point s s') {side : Side}
    (mem : side ∈ meshSides s.elements) :
    (backTouch s' (side.move place point)).map (ContactEdge.spot s') =
      (backTouch s side).map (ContactEdge.spot s) := by
  obtain ⟨element, found, -, made⟩ := mem_meshSides.mp mem
  obtain ⟨-, -, first, second, -, -⟩ := Element.side_eq_some.mp made
  obtain ⟨element', found', -⟩ := h.element _ _ found
  have inMesh := List.mem_of_getElem? found
  have ha := well.inside element inMesh side.a (List.mem_of_getElem? first)
  have hb := well.inside element inMesh side.b (List.mem_of_getElem? second)
  have back : (side.move place point).code = backside ↔ side.code = backside := by
    change moveEntry place side.code = backside ↔ _
    unfold moveEntry backside
    split <;> omega
  have spot : (⟨element'.id, side.regionId, (moveEntry point side.a, moveEntry point side.b)⟩ :
      ContactEdge).spot s' = (⟨element.id, side.regionId, (side.a, side.b)⟩ : ContactEdge).spot s := by
    simp only [ContactEdge.spot, position_moveEntry h ha.1 ha.2, position_moveEntry h hb.1 hb.2]
  have both : (ofMaterial s' semiconductors (side.move place point).regionId = true ∧
      (side.move place point).code = backside) ↔
      ofMaterial s semiconductors side.regionId = true ∧ side.code = backside := by
    rw [ofMaterial_place h, back]
    rfl
  have there : s'.elements[(side.move place point).element]? = some element' := found'
  unfold backTouch
  rw [if_congr both rfl rfl, found, there]
  split
  · exact congrArg some spot
  · rfl

/-- The interface of the back is in the same places. -/
theorem places_back (well : WellPlaced s) (h : Renumbers place point s s') {body body' : Option Electrode}
    (found : backsideCandidate s = .ok body) (found' : backsideCandidate s' = .ok body') :
    (body'.isSome ↔ body.isSome) ∧ ∀ one ∈ body, ∀ one' ∈ body',
      places s one.edges = places s' one'.edges := by
  obtain ⟨edges, nonempty⟩ := backsideCandidate_eq well.triangles found
  obtain ⟨edges', nonempty'⟩ := backsideCandidate_eq (wellPlaced_place well h).triangles found'
  have spots : (((body'.map Electrode.edges).getD []).map (ContactEdge.spot s')).Perm
      (((body.map Electrode.edges).getD []).map (ContactEdge.spot s)) := by
    rw [edges, edges', List.map_filterMap, List.map_filterMap]
    refine ((perm_meshSides h).symm.filterMap _).trans (List.Perm.of_eq ?_)
    rw [List.filterMap_map]
    exact List.filterMap_congr fun side mem => backTouch_move well h mem
  refine ⟨?_, ?_⟩
  · cases body with
    | none =>
      cases body' with
      | none => rfl
      | some one' => exact absurd (List.map_eq_nil_iff.mp spots.eq_nil) (nonempty' one' rfl).1
    | some one =>
      cases body' with
      | none => exact absurd (List.map_eq_nil_iff.mp spots.symm.eq_nil) (nonempty one rfl).1
      | some one' => rfl
  · rintro one rfl one' rfl
    exact (places_subset spots.symm.subset).antisymm (places_subset spots.subset)

/-! ## A cluster in front -/

theorem flood_seen {elements : List Element} {conducts : List Bool} (fuel : Nat) {seen seen' : List Bool}
    {queue group group' : List Nat}
    (h : flood elements conducts fuel seen queue group = .ok (seen', group')) : group <+: group' := by
  induction fuel generalizing seen queue group with
  | zero =>
    rw [flood] at h
    · exact (Prod.mk.inj (Except.ok.inj h)).2 ▸ List.prefix_rfl
    · simp
  | succ fuel ih =>
    cases queue with
    | nil =>
      rw [flood] at h
      · exact (Prod.mk.inj (Except.ok.inj h)).2 ▸ List.prefix_rfl
      · simp
    | cons i queue =>
      rw [flood] at h
      obtain ⟨element, -, h⟩ := bind_eq_ok.mp h
      obtain ⟨⟨marked, queued⟩, -, h⟩ := bind_eq_ok.mp h
      exact (List.prefix_append group [i]).trans (ih h)

theorem clustersFrom_prefix {elements : List Element} {conducts : List Bool} {starts : List Nat}
    {seen : List Bool} {clusters clusters' : List (List Nat)}
    (h : clustersFrom elements conducts starts seen clusters = .ok clusters') :
    clusters <+: clusters' := by
  induction starts generalizing seen clusters with
  | nil =>
    rw [clustersFrom] at h
    exact Except.ok.inj h ▸ List.prefix_rfl
  | cons start rest ih =>
    rw [clustersFrom] at h
    split at h
    · exact ih h
    · obtain ⟨⟨marked, group⟩, -, h⟩ := bind_eq_ok.mp h
      exact (List.prefix_append clusters _).trans (ih h)

/-- The cluster of the first element, if that conducts, is found first. -/
theorem first_of_conductorClusters {conductors : List String} {clusters : List (List Nat)}
    (found : conductorClusters s conductors = .ok clusters) (conducts : Conducts s conductors 0) :
    ∃ first rest, clusters = first :: rest ∧ 0 ∈ first := by
  have lt := lt_of_conducts conducts
  obtain ⟨n, length⟩ := Nat.exists_eq_succ_of_ne_zero (Nat.pos_iff_ne_zero.mp lt)
  have starts : List.range s.elements.length = 0 :: (List.range n).map Nat.succ := by
    rw [length, List.range_succ_eq_map]
  rw [conductorClusters, starts, clustersFrom, if_neg] at found
  · obtain ⟨⟨marked, group⟩, flooded, found⟩ := bind_eq_ok.mp found
    obtain ⟨rest, rfl⟩ := clustersFrom_prefix found
    refine ⟨_, rest, rfl, (List.perm_insertionSort _ group).mem_iff.mpr ?_⟩
    rw [length, flood] at flooded
    obtain ⟨element, -, flooded⟩ := bind_eq_ok.mp flooded
    obtain ⟨⟨spreaded, queued⟩, -, flooded⟩ := bind_eq_ok.mp flooded
    exact (flood_seen n flooded).subset (by simp)
  · rw [isConductor_iff.mpr conducts, length]
    simp [List.replicate_succ]

/-- The positions of some elements, and then those of the others. -/
def inFront (n : Nat) (cluster : List Nat) : List Nat :=
  cluster ++ (List.range n).filter fun t => t ∉ cluster

theorem perm_inFront {n : Nat} {cluster : List Nat} (nodup : cluster.Nodup) (lt : ∀ t ∈ cluster, t < n) :
    (inFront n cluster).Perm (List.range n) := by
  refine (List.perm_ext_iff_of_nodup ?_ List.nodup_range).mpr fun t => ?_
  · refine List.nodup_append.mpr ⟨nodup, List.nodup_range.filter _, fun t ht u hu e => ?_⟩
    obtain ⟨-, out⟩ := List.mem_filter.mp hu
    exact of_decide_eq_true out (e ▸ ht)
  · simp only [inFront, List.mem_append, List.mem_filter, List.mem_range, decide_eq_true_eq]
    constructor
    · rintro (ht | ht)
      · exact lt t ht
      · exact ht.1
    · intro ht
      by_cases mem : t ∈ cluster
      · exact Or.inl mem
      · exact Or.inr ⟨ht, mem⟩

/-! ## Stable names -/

/-- Interfaces of two structures have the same names, and those of one name are in the same places. -/
structure SameInterfaces (s s' : Structure Rat) (found found' : List Electrode) : Prop where
  names : ∀ name, name ∈ found.map Electrode.name ↔ name ∈ found'.map Electrode.name
  places : ∀ one ∈ found, ∀ one' ∈ found', one.name = one'.name →
    places s one.edges = places s' one'.edges

/-- However a structure is numbered, its interfaces have the same names in the same places. -/
def NamesStable (s : Structure Rat) (gateModel : GateModel) : Prop :=
  ∀ place point s', Renumbers place point s s' → ∃ found found',
    detectInterfaces s gateModel = .ok found ∧ detectInterfaces s' gateModel = .ok found' ∧
      SameInterfaces s s' found found'

/-- Clusters whose contacts have one role and one middle touch what is solved in the same places. -/
def NoTies (s : Structure Rat) (gateModel : GateModel) : Prop :=
  ∀ clusters, conductorClusters s gateModel.conductors = .ok clusters →
    ∀ cluster ∈ clusters, ∀ other ∈ clusters, ∀ c d,
      candidateOf s gateModel.conductors cluster = .ok (some c) →
      candidateOf s gateModel.conductors other = .ok (some d) →
      c.looksLikeGate = d.looksLikeGate → c.center = d.center → places s c.edges = places s d.edges

/-- The steps of the search on a mesh on which nothing raises. -/
structure Search (s : Structure Rat) (gateModel : GateModel) (clusters : List (List Nat))
    (candidates : List (Option Candidate)) (body : Option Electrode) : Prop where
  clustered : conductorClusters s gateModel.conductors = .ok clusters
  are : AreComponents s gateModel.conductors clusters
  made : List.Forall₂ (fun cluster c => candidateOf s gateModel.conductors cluster = .ok c) clusters
    candidates
  back : backsideCandidate s = .ok body
  found : detectInterfaces s gateModel = .ok (nameElectrodes (candidates.filterMap id) ++ body.toList)

theorem WellPlaced.exists_search (well : WellPlaced s) (gateModel : GateModel) :
    ∃ clusters candidates body, Search s gateModel clusters candidates body := by
  obtain ⟨metal, detected⟩ := (detectElectrodes_raisesUnless s gateModel).ok_iff.mpr
    (well.indicesInRange gateModel.conductors)
  obtain ⟨body, back⟩ := backsideCandidate_ok well.triangles well.inside
  have interfaces : detectInterfaces s gateModel = .ok (metal ++ body.toList) := by
    rw [detectInterfaces, detected, back]
    rfl
  obtain ⟨clusters, clustered, detected⟩ := bind_eq_ok.mp detected
  obtain ⟨candidates, collected, detected⟩ := bind_eq_ok.mp detected
  obtain rfl := Except.ok.inj detected
  obtain ⟨clusters', clustered', are⟩ := conductorClusters_components s gateModel.conductors well.paired
  obtain rfl := Except.ok.inj (clustered.symm.trans clustered')
  exact ⟨clusters, candidates, body, clustered, are, mapM_eq_ok.mp collected, back, interfaces⟩

theorem name_of_back {body : Option Electrode} (back : backsideCandidate s = .ok body) {one : Electrode}
    (mem : one ∈ body.toList) : one.name = "body" :=
  (backsideCandidate_edges back).2 one (Option.mem_toList.mp mem)

theorem name_of_metal {one : Electrode} (mem : one ∈ nameElectrodes candidates) : one.name ≠ "body" :=
  (mem_nameFrom mem).1

/-- Without ties, the interfaces of a renumbered structure are those of the structure. -/
theorem sameInterfaces_of_noTies (well : WellPlaced s) (h : Renumbers place point s s')
    {clusters clusters' : List (List Nat)} {found found' : List (Option Candidate)}
    {body body' : Option Electrode} (search : Search s gateModel clusters found body)
    (search' : Search s' gateModel clusters' found' body') (noTies : NoTies s gateModel) :
    SameInterfaces s s' (nameElectrodes (found.filterMap id) ++ body.toList)
      (nameElectrodes (found'.filterMap id) ++ body'.toList) := by
  have perm := perm_candidates well h search.are search'.are search.made search'.made
  obtain ⟨both, back⟩ := places_back well h search.back search'.back
  refine ⟨?_, ?_⟩
  · intro name
    simp only [List.map_append, List.mem_append, List.mem_map]
    refine or_congr ⟨?_, ?_⟩ ⟨?_, ?_⟩
    · rintro ⟨one, mem, rfl⟩
      exact exists_named perm mem
    · rintro ⟨one', mem', rfl⟩
      exact exists_named perm.symm mem'
    · rintro ⟨one, mem, rfl⟩
      obtain ⟨one', there⟩ := Option.isSome_iff_exists.mp (both.mpr (Option.isSome_of_mem
        (Option.mem_toList.mp mem)))
      have mem' := Option.mem_toList.mpr there
      exact ⟨one', mem', (name_of_back search'.back mem').trans (name_of_back search.back mem).symm⟩
    · rintro ⟨one', mem', rfl⟩
      obtain ⟨one, there⟩ := Option.isSome_iff_exists.mp (both.mp (Option.isSome_of_mem
        (Option.mem_toList.mp mem')))
      have mem := Option.mem_toList.mpr there
      exact ⟨one, mem, (name_of_back search.back mem).trans (name_of_back search'.back mem').symm⟩
  · intro one mem one' mem' name
    rcases List.mem_append.mp mem with metal | behind
    · rcases List.mem_append.mp mem' with metal' | behind'
      · refine places_of_noTies perm ?_ metal metal' name
        intro c hc d hd role center
        obtain ⟨candidate, hcandidate, is⟩ := List.mem_filterMap.mp hc
        obtain ⟨candidate', hcandidate', is'⟩ := List.mem_filterMap.mp hd
        obtain rfl : candidate = some c := is
        obtain rfl : candidate' = some d := is'
        obtain ⟨cluster, hcluster, made⟩ := exists_of_mem_right search.made hcandidate
        obtain ⟨other, hother, made'⟩ := exists_of_mem_right search.made hcandidate'
        exact noTies clusters search.clustered cluster hcluster other hother c d made made' role center
      · exact absurd (name.trans (name_of_back search'.back behind')) (name_of_metal metal)
    · rcases List.mem_append.mp mem' with metal' | behind'
      · exact absurd (name.symm.trans (name_of_back search.back behind)) (name_of_metal metal')
      · exact back one (Option.mem_toList.mp behind) one' (Option.mem_toList.mp behind')

/-- Where names are stable, the candidate of a cluster is where the first of its role and middle is. -/
theorem places_first (well : WellPlaced s) (stable : NamesStable s gateModel)
    {clusters : List (List Nat)} {found : List (Option Candidate)} {body : Option Electrode}
    (search : Search s gateModel clusters found body) {cluster : List Nat} (mem : cluster ∈ clusters)
    {c first : Candidate} {rest : List Candidate}
    (made : candidateOf s gateModel.conductors cluster = .ok (some c))
    (isFirst : (ofRole c.looksLikeGate (found.filterMap id)).filter (fun d => d.center = c.center) =
      first :: rest) : places s c.edges = places s first.edges := by
  -- The structure with the elements of the cluster in front.
  obtain ⟨t, behind, rfl⟩ := List.exists_cons_of_ne_nil (search.are.nonempty cluster mem)
  have h := renumbers_reorder (s := s) (perm_inFront (search.are.nodup.2 _ mem)
    fun u hu => search.are.lt mem hu)
  have head : (inFront s.elements.length (t :: behind)).idxOf t = 0 := List.idxOf_cons_self
  obtain ⟨clusters', found', body', search'⟩ := (wellPlaced_place well h).exists_search gateModel
  have lt := search.are.lt mem List.mem_cons_self
  have conducts := (conducts_place (s := s) h lt).mpr
    ((search.are.covers t).mp (List.mem_flatten.mpr ⟨_, mem, List.mem_cons_self⟩))
  rw [head] at conducts
  obtain ⟨front, others, rfl, zero⟩ := first_of_conductorClusters search'.clustered conducts
  have rel := corresponds_of_mem well h search.are search'.are mem List.mem_cons_self
    List.mem_cons_self (head ▸ zero)
  obtain ⟨candidate, later, made', -, rfl⟩ := List.forall₂_cons_left_iff.mp search'.made
  have alike := candidateOf_alike well h (fun u hu => search.are.lt mem hu)
    (perm_of_corresponds h search.are search'.are mem List.mem_cons_self rel) rel made made'
  obtain ⟨c', rfl, view⟩ := Option.map_eq_some_iff.mp alike
  obtain ⟨role, center, here⟩ := by simpa only [Candidate.view, Prod.mk.injEq] using view
  have isFirst' : (ofRole c.looksLikeGate ((some c' :: later).filterMap id)).filter
      (fun d => d.center = c.center) =
      c' :: (ofRole c.looksLikeGate (later.filterMap id)).filter fun d => d.center = c.center := by
    change (ofRole c.looksLikeGate (c' :: later.filterMap id)).filter _ = _
    rw [ofRole, List.filter_cons_of_pos (by simpa using role),
      List.filter_cons_of_pos (by simpa using center)]
    rfl
  have perm := perm_candidates well h search.are search'.are search.made search'.made
  obtain ⟨one, hone, one', hone', name, edges, edges'⟩ := exists_first perm isFirst isFirst'
  obtain ⟨all, all', detected, detected', same⟩ := stable _ _ _ h
  obtain rfl := Except.ok.inj (search.found.symm.trans detected)
  obtain rfl := Except.ok.inj (search'.found.symm.trans detected')
  have there := same.places one (List.mem_append_left _ hone) one' (List.mem_append_left _ hone') name
  rw [← here, ← edges', ← there, edges]

/-- On a mesh that conforms, the names are stable exactly if there are no ties. -/
theorem namesStable_iff (conforming : ConformingMesh s.elements ByPosition)
    (enclosed : Enclosed s.elements) (inside : VerticesIn s) (gateModel : GateModel) :
    NamesStable s gateModel ↔ NoTies s gateModel := by
  have well := WellPlaced.of_conforming conforming enclosed inside
  obtain ⟨clusters, found, body, search⟩ := well.exists_search gateModel
  constructor
  · intro stable clusters' clustered cluster mem other mem' c d made made' role center
    obtain rfl := Except.ok.inj (search.clustered.symm.trans clustered)
    have hc : c ∈ (ofRole c.looksLikeGate (found.filterMap id)).filter
        fun d => d.center = c.center := by
      obtain ⟨candidate, hcandidate, e⟩ := exists_of_mem_left search.made mem
      obtain rfl := Except.ok.inj (e.symm.trans made)
      rw [List.mem_filter, mem_ofRole, List.mem_filterMap]
      exact ⟨⟨⟨some c, hcandidate, rfl⟩, rfl⟩, decide_eq_true rfl⟩
    obtain ⟨first, rest, isFirst⟩ := List.exists_cons_of_ne_nil (List.ne_nil_of_mem hc)
    rw [places_first well stable search mem made isFirst]
    rw [role, center] at isFirst
    exact (places_first well stable search mem' made' isFirst).symm
  · intro noTies place point s' h
    obtain ⟨clusters', found', body', search'⟩ := (wellPlaced_place well h).exists_search gateModel
    exact ⟨_, _, search.found, search'.found, sameInterfaces_of_noTies well h search search' noTies⟩

/-- Silicon between two pads, whose contacts have one middle. -/
def twoPads : Structure Rat where
  version := ""
  dimension := 2
  verticesPerElement := 3
  neighborsPerElement := 3
  coordinates := [⟨1, 0, 0⟩, ⟨2, 1, 0⟩, ⟨3, 1, 1⟩, ⟨4, 0, -1⟩, ⟨5, 0, 1⟩]
  regions := [⟨1, 3, "silicon"⟩, ⟨2, 6, "aluminum"⟩]
  elements := [⟨1, 1, [0, 1, 2], [-1022, 2, 1], [-1, -1]⟩,
    ⟨2, 2, [1, 0, 3], [-1022, -1022, 0], [-1, -1]⟩, ⟨3, 2, [0, 2, 4], [-1022, -1022, 0], [-1, -1]⟩]
  solutions := []
  species := []
  temperature := none
  warnings := []

/-- With the elements of the second pad first, the pads change their names. -/
theorem not_namesStable : ConformingMesh twoPads.elements ByPosition ∧ Enclosed twoPads.elements ∧
    VerticesIn twoPads ∧ ¬ NamesStable twoPads .semiconductor := by
  refine ⟨⟨by decide, by decide, by decide⟩, by unfold Enclosed; decide, by unfold VerticesIn; decide, ?_⟩
  intro stable
  have detected : detectInterfaces twoPads .semiconductor = .ok
      [⟨"source", .semiconductor, ["silicon"], [⟨1, 1, (0, 1)⟩], ⟨0, 1, 0, 0⟩, "metal"⟩,
        ⟨"drain", .semiconductor, ["silicon"], [⟨1, 1, (2, 0)⟩], ⟨0, 1, 0, 1⟩, "metal"⟩] := by
    decide +kernel
  have detected' : detectInterfaces (twoPads.reorder [0, 2, 1]) .semiconductor = .ok
      [⟨"source", .semiconductor, ["silicon"], [⟨1, 1, (2, 0)⟩], ⟨0, 1, 0, 1⟩, "metal"⟩,
        ⟨"drain", .semiconductor, ["silicon"], [⟨1, 1, (0, 1)⟩], ⟨0, 1, 0, 0⟩, "metal"⟩] := by
    decide +kernel
  obtain ⟨found, found', h, h', same⟩ := stable _ _ _ (renumbers_reorder (s := twoPads)
    (by decide : [0, 2, 1].Perm (List.range 3)))
  obtain rfl := Except.ok.inj (detected.symm.trans h)
  obtain rfl := Except.ok.inj (detected'.symm.trans h')
  have source := same.places _ List.mem_cons_self _ List.mem_cons_self rfl
  have below : Sym2.mk ((0 : Rat), (0 : Rat)) (1, 0) ∈ places twoPads [⟨1, 1, (0, 1)⟩] :=
    ⟨_, List.mem_cons_self, _, _, rfl, rfl, rfl⟩
  obtain ⟨edge, mem, a, b, ha, hb, e⟩ := (source ▸ below :
    Sym2.mk ((0 : Rat), (0 : Rat)) (1, 0) ∈ places (twoPads.reorder [0, 2, 1]) [⟨1, 1, (2, 0)⟩])
  obtain rfl := List.mem_singleton.mp mem
  obtain rfl : ((1 : Rat), (1 : Rat)) = a := Option.some.inj ha
  obtain rfl : ((0 : Rat), (0 : Rat)) = b := Option.some.inj hb
  simp at e

theorem namesStable_iff_padOnSilicon :
    NamesStable padOnSilicon .semiconductor ↔ NoTies padOnSilicon .semiconductor :=
  namesStable_iff ⟨by decide, by decide, by decide⟩ (by unfold Enclosed; decide)
    (by unfold VerticesIn; decide) .semiconductor

end TcadWebapp.Devsim
