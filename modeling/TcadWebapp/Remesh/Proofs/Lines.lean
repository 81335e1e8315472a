import TcadWebapp.Remesh.Geo
import TcadWebapp.Remesh.Proofs.Simplify

/-!
# The lines for gmsh

`_relink` gives a segment for each edge of the loops, `_refs` finds them again, and every loop of a surface is
one of the loops of a region (`buildGeo_spec`).
-/

namespace TcadWebapp.Remesh

open StrParser

variable {s : Structure Rat} {segments : List Segment}

/-! ## Segments for the edges of loops -/

/-- The segments are those of steps, one for each edge. -/
structure AreLines (walked : List (Int × Int)) (lines : List Segment) : Prop where
  once : (lines.map Segment.pair).Nodup
  ofStep : ∀ g ∈ lines, g.ends ∈ walked
  each : ∀ step ∈ walked, ∃ g ∈ lines, g.pair = pairOf step

theorem templateOf_ok {at_ : Dict Int (List Segment)} {a : Int} {found : List Segment}
    (there : at_.get? a = some found) (some_ : found ≠ []) (b : Int) : ∃ g, templateOf at_ a b = .ok g := by
  unfold templateOf
  rw [there]
  dsimp only
  split
  · exact ⟨_, rfl⟩
  · rename_i given
    obtain rfl := Option.some.inj given
    obtain ⟨g, rest, rfl⟩ := List.exists_cons_of_ne_nil some_
    exact ⟨g, rfl⟩
  · rename_i given
    cases given

theorem mem_segmentsAt {segments : List Segment} {v : Int} {g : Segment} (mem : g ∈ segments) (at_ : g.At v) :
    ∃ found, (segmentsAt segments).get? v = some found ∧ found ≠ [] := by
  have all : ∀ noted : Dict Int (List Segment), (∃ found, noted.get? v = some found ∧ found ≠ []) ∨
      (∃ g ∈ segments, g.At v) → ∃ found, (segments.foldl (fun at_ s => (at_.alter s.a fun old =>
        old.getD [] ++ [s]).alter s.b fun old => old.getD [] ++ [s]) noted).get? v = some found ∧ found ≠ [] := by
    clear mem at_ g
    induction segments with
    | nil => exact fun noted h => h.resolve_right (by simp)
    | cons g segments ih =>
      intro noted h
      refine ih _ ?_
      rw [Dict.get?_alter]
      by_cases b : v = g.b
      · rw [if_pos b]
        exact Or.inl ⟨_, rfl, by simp⟩
      rw [if_neg b, Dict.get?_alter]
      by_cases a : v = g.a
      · rw [if_pos a]
        exact Or.inl ⟨_, rfl, by simp⟩
      rw [if_neg a]
      refine h.imp_right ?_
      rintro ⟨other, mem, at_⟩
      rcases List.mem_cons.mp mem with rfl | mem
      · rcases at_ with rfl | rfl
        · exact absurd rfl a
        · exact absurd rfl b
      · exact ⟨other, mem, at_⟩
  exact all ∅ (Or.inr ⟨g, mem, at_⟩)

/-- What `out` has after some steps. -/
structure Relinked (walked : List (Int × Int)) (out : Dict (Int × Int) Segment) : Prop where
  each : ∀ key g, out.get? key = some g → g.pair = key ∧ g.ends ∈ walked
  done : ∀ step ∈ walked, (out.get? (pairOf step)).isSome

theorem relinkStep_spec {original : Dict (Int × Int) Segment} {at_ : Dict Int (List Segment)}
    {walked : List (Int × Int)} {out : Dict (Int × Int) Segment} (h : Relinked walked out) {step : Int × Int}
    (there : ∃ found, at_.get? step.1 = some found ∧ found ≠ []) :
    ∃ out', relinkStep original at_ out step = .ok out' ∧ Relinked (walked ++ [step]) out' := by
  have keep_ : ∀ key g, out.get? key = some g → g.pair = key ∧ g.ends ∈ walked ++ [step] := fun key g found =>
    (h.each key g found).imp_right fun mem => List.mem_append_left _ mem
  unfold relinkStep
  dsimp only
  split
  · rename_i known
    refine ⟨out, rfl, keep_, fun other mem => ?_⟩
    rcases List.mem_append.mp mem with mem | mem
    · exact h.done other mem
    · obtain rfl := List.mem_singleton.mp mem
      exact known
  · obtain ⟨kept, found⟩ : ∃ kept, keptFor original at_ step.1 step.2 = .ok kept := by
      obtain ⟨noted, given, some_⟩ := there
      unfold keptFor
      split
      · exact ⟨_, rfl⟩
      · exact templateOf_ok given some_ _
    rw [found]
    refine ⟨_, rfl, fun key g there => ?_, fun other mem => ?_⟩
    · rw [Dict.get?_set] at there
      split at there
      · rename_i same
        obtain rfl := Option.some.inj there
        exact ⟨same.symm, List.mem_append_right _ (List.mem_singleton.mpr rfl)⟩
      · exact keep_ key g there
    · rw [Dict.get?_set]
      split
      · rfl
      · rename_i other_
        refine h.done other ((List.mem_append.mp mem).resolve_right fun here => ?_)
        obtain rfl := List.mem_singleton.mp here
        exact other_ rfl

theorem foldlM_relinkStep {original : Dict (Int × Int) Segment} {at_ : Dict Int (List Segment)}
    (todo : List (Int × Int)) {walked : List (Int × Int)} {out : Dict (Int × Int) Segment}
    (h : Relinked walked out) (there : ∀ step ∈ todo, ∃ found, at_.get? step.1 = some found ∧ found ≠ []) :
    ∃ out', todo.foldlM (relinkStep original at_) out = .ok out' ∧ Relinked (walked ++ todo) out' := by
  induction todo generalizing walked out with
  | nil => exact ⟨out, rfl, by rwa [List.append_nil]⟩
  | cons step todo ih =>
    obtain ⟨next, turn, h'⟩ := relinkStep_spec h (there step List.mem_cons_self)
    obtain ⟨out', all, h''⟩ := ih h' fun other mem => there other (List.mem_cons_of_mem _ mem)
    refine ⟨out', ?_, ?_⟩
    · rw [List.foldlM_cons, turn]
      exact all
    · rwa [List.append_assoc] at h''

theorem relink_spec (found : constrainedSegments s = .ok segments) (nodup : (segments.map Segment.pair).Nodup)
    {loops : List (Int × List (List Int))} (onSegments : ∀ step ∈ (loops.flatMap Prod.snd).flatMap steps,
      ∃ g ∈ segments, g.At step.1) :
    ∃ lines, relink loops s = .ok lines ∧ AreLines ((loops.flatMap Prod.snd).flatMap steps) lines := by
  have original : ∀ g ∈ segments, g ∈ (Dict.ofList (segments.map fun s =>
      ((min s.a s.b, max s.a s.b), s))).entries.map Prod.snd := by
    intro g mem
    have there := @Dict.get?_ofList_map _ _ _ _ Segment.pair id segments (fun a ha b hb same =>
      List.inj_on_of_nodup_map nodup ha hb same) g mem
    exact List.mem_map.mpr ⟨_, Dict.get?_eq_some.mp there, rfl⟩
  obtain ⟨out, all, h⟩ := @foldlM_relinkStep (Dict.ofList (segments.map fun s =>
    ((min s.a s.b, max s.a s.b), s))) (segmentsAt ((Dict.ofList (segments.map fun s =>
      ((min s.a s.b, max s.a s.b), s))).entries.map Prod.snd))
    ((loops.flatMap Prod.snd).flatMap steps) [] ∅ ⟨by simp, by simp⟩ (by
      intro step mem
      obtain ⟨g, hg, at_⟩ := onSegments step mem
      exact mem_segmentsAt (original g hg) at_)
  rw [List.nil_append] at h
  have keys : out.entries.map (Segment.pair ∘ Prod.snd) = out.keys :=
    List.map_congr_left fun entry mem => (h.each _ _ (Dict.get?_eq_some.mpr mem)).1
  refine ⟨out.entries.map Prod.snd, ?_, ?_, ?_, ?_⟩
  · rw [relink, found]
    dsimp only [bind, Except.bind]
    rw [all]
  · rw [List.map_map, keys]
    exact out.nodup
  · intro g mem
    obtain ⟨⟨key, _⟩, entry, rfl⟩ := List.mem_map.mp mem
    exact (h.each key _ (Dict.get?_eq_some.mpr entry)).2
  · intro step mem
    obtain ⟨g, there⟩ := Option.isSome_iff_exists.mp (h.done step mem)
    exact ⟨g, List.mem_map.mpr ⟨_, Dict.get?_eq_some.mp there, rfl⟩, (h.each _ _ there).1⟩

/-! ## References -/

/-- The number of the line of a step, negative where it is walked backwards. -/
def Refers (lines : List Segment) (step : Int × Int) (n : Int) : Prop :=
  ∃ (i : Nat) (g : Segment), lines[i]? = some g ∧
    ((g.ends = step ∧ n = i + 1) ∨ (g.ends = step.swap ∧ n = -(i + 1)))

theorem pairOf_swap (step : Int × Int) : pairOf step.swap = pairOf step := edgePair_comm _ _

theorem get?_linesOf {lines : List Segment} (once : (lines.map Segment.pair).Nodup) {i : Nat} {g : Segment}
    (found : lines[i]? = some g) : (linesOf lines).get? g.ends = some (i + 1) := by
  have mem : (g, i) ∈ lines.zipIdx := List.mem_zipIdx_iff_getElem?.mpr found
  refine @Dict.get?_ofList_map _ _ _ _ (fun entry : Segment × Nat => entry.1.ends) (fun entry => entry.2 + 1)
    lines.zipIdx ?_ _ mem
  -- Lines with the same ends are at the same place.
  rintro ⟨a, i⟩ ha ⟨b, j⟩ hb same
  have hi := List.mem_zipIdx_iff_getElem?.mp ha
  have hj := List.mem_zipIdx_iff_getElem?.mp hb
  have pair : (lines.map Segment.pair)[i]? = (lines.map Segment.pair)[j]? := by
    rw [List.getElem?_map, List.getElem?_map, hi, hj]
    exact congrArg (fun e => some (pairOf e)) same
  have lt := (List.getElem?_eq_some_iff.mp hi).1
  rw [(List.getElem?_inj (by rwa [List.length_map]) once).mp pair]

theorem refs_spec {walked : List (Int × Int)} {lines : List Segment} (are : AreLines walked lines)
    {loop : List Int} (mem : ∀ step ∈ steps loop, step ∈ walked) :
    ∃ numbers, refs (linesOf lines) loop = .ok numbers ∧ List.Forall₂ (Refers lines) (steps loop) numbers := by
  -- The number of the line under these ends, or under the others with the other sign.
  have each : ∀ step ∈ steps loop, ∃ n : Int, ((∃ m : Nat, (linesOf lines).get? step = some m ∧ n = m) ∨
      (linesOf lines).get? step = none ∧ ∃ m : Nat, (linesOf lines).get? step.swap = some m ∧ n = -m) ∧
        Refers lines step n := by
    intro step hstep
    obtain ⟨g, hg, pair⟩ := are.each step (mem step hstep)
    obtain ⟨i, found⟩ := List.mem_iff_getElem?.mp hg
    have ends : g.ends = step ∨ g.ends = step.swap := by
      rcases edgePair_eq_iff.mp pair with ⟨a, b⟩ | ⟨a, b⟩
      · exact Or.inl (Prod.ext a b)
      · exact Or.inr (Prod.ext a b)
    rcases ends with same | same
    · rw [← same]
      exact ⟨_, Or.inl ⟨_, get?_linesOf are.once found, rfl⟩, i, g, found, Or.inl ⟨rfl, by simp⟩⟩
    · by_cases loop_ : step = step.swap
      · rw [loop_, ← same]
        exact ⟨_, Or.inl ⟨_, get?_linesOf are.once found, rfl⟩, i, g, found, Or.inl ⟨rfl, by simp⟩⟩
      · -- No other line has the ends the other way around.
        have none_ : (linesOf lines).get? step = none := by
          refine @Dict.get?_ofList_map_eq_none _ _ _ _ (fun entry : Segment × Nat => entry.1.ends)
            (fun entry => entry.2 + 1) lines.zipIdx step ?_
          rintro ⟨other, j⟩ hother again
          have there := List.mem_zipIdx_iff_getElem?.mp hother
          have both : other = g := List.inj_on_of_nodup_map are.once (List.mem_of_getElem? there) hg
            ((congrArg pairOf again).trans pair.symm)
          rw [both, same] at again
          exact loop_ again.symm
        have swapped : (linesOf lines).get? step.swap = some (i + 1) := same ▸ get?_linesOf are.once found
        exact ⟨_, Or.inr ⟨none_, _, swapped, rfl⟩, i, g, found, Or.inr ⟨same, by simp⟩⟩
  obtain ⟨numbers, all⟩ := exists_forall₂ each
  refine ⟨numbers, mapM_eq_ok.mpr (all.imp fun step n h => ?_), all.imp fun _ _ h => h.2⟩
  rcases h.1 with ⟨m, found, rfl⟩ | ⟨none_, m, found, rfl⟩
  · rw [found]
  · rw [none_, found]

/-! ## Surfaces -/

theorem containers_ok {polygons : List (List (Rat × Rat))} (some_ : ∀ polygon ∈ polygons, polygon ≠ [])
    {i : Nat} (lt : i < polygons.length) : ∃ around, containers polygons i = .ok around ∧
      ∀ j ∈ around, j < polygons.length := by
  have get : ∀ j : Nat, j < polygons.length → ∃ polygon ∈ polygons, index polygons (j : Int) = .ok polygon := by
    intro j inside
    obtain ⟨polygon, mem, found⟩ := index_of_inRange (l := polygons) (i := (j : Int)) ⟨by omega, by omega⟩
    exact ⟨polygon, mem, found⟩
  have each : ∀ j ∈ (List.range polygons.length).filter (fun j => j ≠ i), ∃ test : Nat × Bool,
      insideTest polygons i j = .ok test ∧ test.1 < polygons.length := by
    intro j mem
    have inside := List.mem_range.mp (List.mem_filter.mp mem).1
    obtain ⟨polygon, hpolygon, found⟩ := get i lt
    obtain ⟨other, -, found'⟩ := get j inside
    have length := List.length_pos_of_ne_nil (some_ polygon hpolygon)
    obtain ⟨first, -, head⟩ := index_of_inRange (l := polygon) (i := 0) ⟨by omega, by omega⟩
    refine ⟨(j, TcadWebapp.Remesh.inside first other), ?_, inside⟩
    rw [insideTest, found]
    dsimp only [bind, Except.bind]
    rw [head]
    dsimp only
    rw [found']
  obtain ⟨tests, all⟩ := exists_forall₂ each
  refine ⟨_, by rw [containers, mapM_eq_ok.mpr (all.imp fun _ _ h => h.1)]; rfl, fun j mem => ?_⟩
  obtain ⟨test, htest, rfl⟩ := List.mem_map.mp mem
  obtain ⟨-, -, -, lt⟩ := exists_of_mem_right all (List.mem_filter.mp htest).1
  exact lt

/-- Nesting gives places of polygons. -/
theorem nestLoops_spec {polygons : List (List (Rat × Rat))} (some_ : ∀ polygon ∈ polygons, polygon ≠ []) :
    ∃ groups, nestLoops polygons = .ok groups ∧ ∀ group ∈ groups, ∀ i ∈ group, i < polygons.length := by
  obtain ⟨around, all⟩ := exists_forall₂ fun i (mem : i ∈ List.range polygons.length) =>
    containers_ok some_ (List.mem_range.mp mem)
  have found := mapM_eq_ok.mpr (all.imp fun _ _ h => h.1)
  -- Whatever the depths are, only places of polygons get into groups.
  have keeps : ∀ (places : List Nat) (f : Dict Nat (List Nat) → Nat → Dict Nat (List Nat)),
      (∀ i ∈ places, ∀ groups : Dict Nat (List Nat), (∀ k group, groups.get? k = some group →
        ∀ i ∈ group, i < polygons.length) → ∀ k group, (f groups i).get? k = some group →
        ∀ i ∈ group, i < polygons.length) →
      ∀ groups : Dict Nat (List Nat), (∀ k group, groups.get? k = some group →
        ∀ i ∈ group, i < polygons.length) → ∀ k group, (places.foldl f groups).get? k = some group →
        ∀ i ∈ group, i < polygons.length := by
    intro places f step
    induction places with
    | nil => exact fun _ h => h
    | cons i places ih =>
      intro groups h
      exact ih (fun j mem => step j (List.mem_cons_of_mem _ mem)) _ (step i List.mem_cons_self groups h)
  refine ⟨_, by rw [nestLoops, found]; rfl, fun group mem => ?_⟩
  obtain ⟨⟨k, _⟩, entry, rfl⟩ := List.mem_map.mp mem
  refine keeps _ _ ?_ _ (keeps _ _ ?_ ∅ (by simp)) k _ (Dict.get?_eq_some.mpr entry)
  · intro i hi groups h k group there
    have inside := List.mem_range.mp (List.mem_filter.mp hi).1
    split at there
    · exact h k group there
    · split at there
      · exact h k group there
      · rename_i parent _ members given
        rw [Dict.get?_set] at there
        split at there
        · obtain rfl := Option.some.inj there
          intro j hj
          rcases List.mem_append.mp hj with hj | hj
          · exact h _ _ given j hj
          · rwa [List.mem_singleton.mp hj]
        · exact h k group there
  · intro i hi groups h k group there
    have inside := List.mem_range.mp (List.mem_filter.mp hi).1
    rw [Dict.get?_set] at there
    split at there
    · obtain rfl := Option.some.inj there
      intro j hj
      rwa [List.mem_singleton.mp hj]
    · exact h k group there

/-- The place of a loop that gets into a surface. -/
def Placed (coords : List (Coordinate Rat)) (loops : List (List Int)) (i : Nat) : Prop :=
  ∃ polygons groups, (loops.mapM fun loop => loop.dropLast.mapM fun i => do
      let point ← index coords i
      .ok (point.x, point.y)) = Except.ok polygons ∧
    nestLoops polygons = .ok groups ∧ ∃ group ∈ groups, i ∈ group

/-- The loops of the surfaces of a region are those whose places are in groups. -/
theorem orientedLoops_spec {loops : List (List Int)} {lineOf : Dict (Int × Int) Nat}
    {coords : List (Coordinate Rat)} (some_ : ∀ loop ∈ loops, loop.dropLast ≠ [])
    (inside : ∀ loop ∈ loops, ∀ v ∈ loop.dropLast, InRange coords v)
    (found : ∀ loop ∈ loops, ∃ numbers, refs lineOf loop = .ok numbers) :
    ∃ groups, orientedLoops loops lineOf coords = .ok groups ∧ ∀ numbers,
      (∃ group ∈ groups, numbers ∈ group) ↔ ∃ (i : Nat) (loop : List Int), Placed coords loops i ∧
        loops[i]? = some loop ∧ refs lineOf loop = .ok numbers := by
  obtain ⟨polygons, all⟩ := exists_forall₂ fun loop (mem : loop ∈ loops) =>
    (show ∃ polygon : List (Rat × Rat), (loop.dropLast.mapM fun i => do
        let point ← index coords i
        .ok (point.x, point.y)) = Except.ok polygon ∧ polygon ≠ [] by
      obtain ⟨polygon, points⟩ := exists_forall₂ fun v (hv : v ∈ loop.dropLast) =>
        (show ∃ p : Rat × Rat, (do
            let point ← index coords v
            .ok (point.x, point.y)) = Except.ok p by
          obtain ⟨point, -, there⟩ := index_of_inRange (inside loop mem v hv)
          exact ⟨_, by rw [there]; rfl⟩)
      refine ⟨polygon, mapM_eq_ok.mpr points, ?_⟩
      rintro rfl
      exact some_ loop mem (List.forall₂_nil_right_iff.mp points))
  obtain ⟨groups, nested, places⟩ := @nestLoops_spec polygons fun polygon mem => by
    obtain ⟨-, -, -, nonempty⟩ := exists_of_mem_right all mem
    exact nonempty
  have length := all.length_eq
  have drawn := mapM_eq_ok.mpr (all.imp fun _ _ h => h.1)
  obtain ⟨result, made⟩ := exists_forall₂ fun group (mem : group ∈ groups) =>
    (show ∃ out : List (List Int), (group.mapM fun i => do
        let loop ← index loops (i : Int)
        refs lineOf loop) = Except.ok out by
      obtain ⟨out, each⟩ := exists_forall₂ fun i (hi : i ∈ group) =>
        (show ∃ numbers, (do
            let loop ← index loops (i : Int)
            refs lineOf loop) = Except.ok numbers by
          have lt := places group mem i hi
          obtain ⟨loop, hloop, there⟩ := index_of_inRange (l := loops) (i := (i : Int)) ⟨by omega, by omega⟩
          obtain ⟨numbers, given⟩ := found loop hloop
          exact ⟨numbers, by rw [there]; exact given⟩)
      exact ⟨out, mapM_eq_ok.mpr each⟩)
  refine ⟨result, ?_, fun numbers => ⟨?_, ?_⟩⟩
  · rw [orientedLoops, drawn]
    dsimp only [bind, Except.bind]
    rw [nested]
    exact mapM_eq_ok.mpr made
  · intro h
    obtain ⟨out, hout, hnumbers⟩ := h
    obtain ⟨group, hgroup, each⟩ := exists_of_mem_right made hout
    obtain ⟨i, hi, given⟩ := exists_of_mem_mapM each hnumbers
    obtain ⟨loop, there, given⟩ := bind_eq_ok.mp given
    exact ⟨i, loop, ⟨polygons, groups, drawn, nested, group, hgroup, hi⟩,
      index_natCast_eq_ok.mp there, given⟩
  · intro h
    obtain ⟨i, loop, placed, there, given⟩ := h
    obtain ⟨polygons', groups', drawn', nested', group, hgroup, hi⟩ := placed
    obtain rfl := Except.ok.inj (drawn.symm.trans drawn')
    obtain rfl := Except.ok.inj (nested.symm.trans nested')
    obtain ⟨out, hout, each⟩ := exists_of_mem_left made hgroup
    obtain ⟨numbers', hnumbers, given'⟩ := exists_mem_of_mapM each hi
    obtain ⟨loop', there', given'⟩ := bind_eq_ok.mp given'
    obtain rfl := Option.some.inj (there.symm.trans (index_natCast_eq_ok.mp there'))
    obtain rfl := Except.ok.inj (given.symm.trans given')
    exact ⟨out, hout, hnumbers⟩

/-- The loops of all regions, thinned. -/
def thinnedLoops (keep : List Int) (found : List (Int × List (List Int))) : List (Int × List (List Int)) :=
  found.map fun entry => (entry.1, entry.2.map (thin keep))

/-- The steps of all loops. -/
def walked (loops : List (Int × List (List Int))) : List (Int × Int) := (loops.flatMap Prod.snd).flatMap steps

/-- The lines of a model are those of segments, and its points their ends. -/
structure Drawn (lines : List Segment) (model : GeoModel) : Prop where
  nodup : model.origin.Nodup
  origin : ∀ v, v ∈ model.origin ↔ ∃ g ∈ lines, g.At v
  lines : model.lines = lines.map fun g => (model.origin.idxOf g.a + 1, model.origin.idxOf g.b + 1)

/-- `used`. -/
def usedBy (lines : List Segment) : List Int := (lines.flatMap fun s => [s.a, s.b]).dedup.insertionSort (· ≤ ·)

theorem mem_usedBy {lines : List Segment} {v : Int} : v ∈ usedBy lines ↔ ∃ g ∈ lines, g.At v := by
  rw [usedBy, (List.perm_insertionSort _ _).mem_iff, List.mem_dedup, List.mem_flatMap]
  refine exists_congr fun g => and_congr_right fun _ => ?_
  rw [List.mem_cons, List.mem_singleton, Segment.At, eq_comm, @eq_comm _ v]

theorem buildGeo_spec {tolerance : Rat} (pos : 0 < tolerance) {found : List (Int × List (List Int))}
    {keep : List Int} {lines : List Segment} (kept : constrainedSegments s = .ok segments)
    (loops : regionLoops s = .ok found) (simplified : simplifyBoundary s tolerance = .ok keep)
    (relinked : relink (thinnedLoops keep found) s = .ok lines)
    (are : AreLines (walked (thinnedLoops keep found)) lines)
    (some_ : ∀ entry ∈ thinnedLoops keep found, ∀ loop ∈ entry.2, loop.dropLast ≠ [])
    (inside : ∀ entry ∈ thinnedLoops keep found, ∀ loop ∈ entry.2, ∀ v ∈ loop, InRange s.coordinates v) :
    ∃ model, buildGeo s tolerance = .ok model ∧ Drawn lines model ∧ ∀ numbers,
      (∃ surface ∈ model.surfaces, numbers ∈ surface.loops) ↔ ∃ entry ∈ thinnedLoops keep found,
        ∃ (i : Nat) (loop : List Int), Placed s.coordinates entry.2 i ∧ entry.2[i]? = some loop ∧
          refs (linesOf lines) loop = .ok numbers := by
  have onWalk : ∀ entry ∈ thinnedLoops keep found, ∀ loop ∈ entry.2, ∀ step ∈ steps loop,
      step ∈ walked (thinnedLoops keep found) := fun entry hentry loop hloop step hstep =>
    List.mem_flatMap.mpr ⟨loop, List.mem_flatMap.mpr ⟨entry, hentry, hloop⟩, hstep⟩
  obtain ⟨points, all⟩ := exists_forall₂ fun v (mem : v ∈ usedBy lines) =>
    (show ∃ p : Rat × Rat, (do
        let point ← index s.coordinates v
        .ok (point.x, point.y)) = Except.ok p by
      obtain ⟨g, hg, at_⟩ := mem_usedBy.mp mem
      obtain ⟨loop, hloop, step⟩ := List.mem_flatMap.mp (are.ofStep g hg)
      obtain ⟨entry, hentry, hloop⟩ := List.mem_flatMap.mp hloop
      obtain ⟨k, ha, hb⟩ := mem_steps.mp step
      have there : v ∈ loop := by
        rcases at_ with rfl | rfl
        · exact List.mem_of_getElem? ha
        · exact List.mem_of_getElem? hb
      obtain ⟨point, -, value⟩ := index_of_inRange (inside entry hentry loop hloop v there)
      exact ⟨_, by rw [value]; rfl⟩)
  obtain ⟨surfaces, drawn⟩ := exists_forall₂ fun entry
      (mem : entry ∈ (thinnedLoops keep found).insertionSort fun a b => a.1 ≤ b.1) =>
    (show ∃ out : List Surface, (do
        let groups ← orientedLoops entry.2 (linesOf lines) s.coordinates
        .ok (groups.map fun group => Surface.mk entry.1 group)) = Except.ok out ∧ ∀ numbers,
        (∃ surface ∈ out, numbers ∈ surface.loops) ↔ ∃ (i : Nat) (loop : List Int),
          Placed s.coordinates entry.2 i ∧ entry.2[i]? = some loop ∧
            refs (linesOf lines) loop = .ok numbers by
      have hentry := (List.perm_insertionSort _ _).mem_iff.mp mem
      obtain ⟨groups, oriented, each⟩ := @orientedLoops_spec entry.2 (linesOf lines) s.coordinates
        (some_ entry hentry)
        (fun loop hloop v hv => inside entry hentry loop hloop v (List.mem_of_mem_dropLast hv))
        (fun loop hloop => (refs_spec are (onWalk entry hentry loop hloop)).imp fun _ h => h.1)
      refine ⟨_, by rw [oriented]; rfl, fun numbers => ?_⟩
      rw [← each]
      constructor
      · intro h
        obtain ⟨surface, hsurface, hnumbers⟩ := h
        obtain ⟨group, hgroup, rfl⟩ := List.mem_map.mp hsurface
        exact ⟨group, hgroup, hnumbers⟩
      · intro h
        obtain ⟨group, hgroup, hnumbers⟩ := h
        exact ⟨_, List.mem_map_of_mem hgroup, hnumbers⟩)
  refine ⟨⟨points, lines.map fun g => ((usedBy lines).idxOf g.a + 1, (usedBy lines).idxOf g.b + 1),
    surfaces.flatten, usedBy lines⟩, ?_, ⟨?_, fun _ => mem_usedBy, rfl⟩, fun numbers => ⟨?_, ?_⟩⟩
  · rw [buildGeo, kept]
    dsimp only [bind, Except.bind]
    rw [loops]
    dsimp only
    rw [simplified]
    dsimp only
    rw [if_pos pos]
    rw [show found.map (fun entry => (entry.1, entry.2.map (thin keep))) = thinnedLoops keep found from rfl,
      relinked]
    dsimp only
    rw [show (lines.flatMap fun s => [s.a, s.b]).dedup.insertionSort (· ≤ ·) = usedBy lines from rfl]
    have looked := mapM_eq_ok.mpr all
    have made := mapM_eq_ok.mpr (drawn.imp fun _ _ h => h.1)
    dsimp only [bind, Except.bind] at looked made
    rw [looked]
    dsimp only
    rw [made]
  · exact (List.perm_insertionSort _ _).nodup_iff.mpr (List.nodup_dedup _)
  · intro h
    obtain ⟨surface, hsurface, hnumbers⟩ := h
    obtain ⟨out, hout, hsurface⟩ := List.mem_flatten.mp hsurface
    obtain ⟨entry, hentry, -, each⟩ := exists_of_mem_right drawn hout
    exact ⟨entry, (List.perm_insertionSort _ _).mem_iff.mp hentry,
      (each numbers).mp ⟨surface, hsurface, hnumbers⟩⟩
  · intro h
    obtain ⟨entry, hentry, placed⟩ := h
    obtain ⟨out, hout, -, each⟩ :=
      exists_of_mem_left drawn ((List.perm_insertionSort _ _).mem_iff.mpr hentry)
    obtain ⟨surface, hsurface, hnumbers⟩ := (each numbers).mpr placed
    exact ⟨surface, List.mem_flatten.mpr ⟨out, hout, hsurface⟩, hnumbers⟩

end TcadWebapp.Remesh
