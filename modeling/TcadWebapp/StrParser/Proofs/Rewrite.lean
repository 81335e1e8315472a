import TcadWebapp.StrParser.Proofs.Records

/-!
# Reading what was written

`parse_structure` after `write_structure`: which structures can be read back from their text, and
as what (`parse_write`). From this, when rewriting a file keeps its meaning.
-/

namespace TcadWebapp.StrParser

open Text

variable {F : Type} {reader : Reader F} {printer : Printer F}

/-! ## Lines of the records that are written anew -/

/-- What is read of a written number. -/
def reread (reader : Reader F) (text : Text) : F := (reader.float text).getD reader.zero

theorem readFloat_of_projects {format : F → Text} (h : Projects reader.float format) (x : F) :
    readFloat reader (format x) = .ok (reread reader (format x)) := by
  obtain ⟨y, back, -⟩ := h.back x
  simp [readFloat, reread, back]

theorem format_reread {format : F → Text} (h : Projects reader.float format) (x : F) :
    format (reread reader (format x)) = format x := by
  obtain ⟨y, back, same⟩ := h.back x
  simpa [reread, back] using same

theorem readInt_intText (laws : Laws reader printer) (i : Int) :
    readInt reader (intText i) = .ok i := by
  simp [readInt, laws.int]

theorem mapM_readInt (laws : Laws reader printer) (is : List Int) :
    (is.map intText).mapM (readInt reader) = .ok is := by
  rw [mapM_eq_ok, List.forall₂_map_left_iff, List.forall₂_same]
  exact fun i _ => readInt_intText laws i

theorem slice_pair {α : Type} (x y : α) (dimension : Int) : slice [x, y] 0 dimension =
    if 2 ≤ dimension then [x, y] else if dimension = 1 ∨ dimension = -1 then [x] else [] := by
  have start : sliceBound [x, y].length 0 = 0 := rfl
  rw [slice, start, List.drop_zero]
  by_cases two : 2 ≤ dimension
  · have bound : sliceBound [x, y].length dimension = 2 := by
      simp only [sliceBound, List.length_cons, List.length_nil]
      split <;> omega
    rw [if_pos two, bound]
    rfl
  · by_cases one : dimension = 1 ∨ dimension = -1
    · have bound : sliceBound [x, y].length dimension = 1 := by
        simp only [sliceBound, List.length_cons, List.length_nil]
        split <;> omega
      rw [if_neg two, if_pos one, bound]
      rfl
    · have bound : sliceBound [x, y].length dimension = 0 := by
        simp only [sliceBound, List.length_cons, List.length_nil]
        split <;> omega
      rw [if_neg two, if_neg one, bound]
      rfl

/-- The fields of a `c` line. -/
theorem tag_coordinateLine (laws : Laws reader printer) (dimension : Int) (c : Coordinate F) :
    tagOf (coordinateLine printer dimension c) = ['c'] ∧
      fieldsOf (coordinateLine printer dimension c) =
        intText c.id :: (slice [c.x, c.y] 0 dimension).map printer.g ++ [['0']] := by
  have line : coordinateLine printer dimension c = 'c' :: ' ' :: (intText c.id ++
      (slice [c.x, c.y] 0 dimension).flatMap (fun v => ' ' :: printer.g v) ++ ' ' :: [' ', '0']) := by
    simp [coordinateLine]
  have zero : Text.split [' ', '0'] = [['0']] := rfl
  rw [line, (tag_blank (by decide) _).1, (tag_blank (by decide) _).2,
    split_flatMap laws.g.word _ (isWord_intText c.id), zero]
  exact ⟨rfl, rfl⟩

/-- A coordinate, as it is read back. -/
def Coordinate.rewritten (reader : Reader F) (printer : Printer F) (dimension : Int)
    (c : Coordinate F) : Coordinate F :=
  ⟨c.id, reread reader (printer.g c.x),
    if 2 ≤ dimension then reread reader (printer.g c.y) else reader.zero⟩

theorem step_coordinateLine (laws : Laws reader printer) (dimension : Int) (c : Coordinate F)
    {acc acc' : Accumulator F} :
    step reader acc (coordinateLine printer dimension c) = .ok acc' ↔
      (1 ≤ dimension ∨ dimension = -1) ∧ acc' = { acc with
        coordinates := acc.coordinates ++ [c.rewritten reader printer dimension] } := by
  obtain ⟨tag, fields⟩ := tag_coordinateLine laws dimension c
  rw [step_of_tag tag, fields, slice_pair]
  change acc.handleCoordinate reader _ = _ ↔ _
  unfold Accumulator.handleCoordinate
  by_cases two : 2 ≤ dimension
  · rw [if_pos two]
    simp [intField, floatField, field, bind, Except.bind, readInt_intText laws,
      readFloat_of_projects laws.g, Coordinate.rewritten, two, eq_comm]
    omega
  · by_cases one : dimension = 1 ∨ dimension = -1
    · rw [if_neg two, if_pos one]
      simp [intField, floatField, field, bind, Except.bind, readInt_intText laws,
        readFloat_of_projects laws.g, Coordinate.rewritten, two, eq_comm]
      omega
    · rw [if_neg two, if_neg one]
      simp
      omega

theorem tag_regionLine (r : Region) : tagOf (regionLine r) = ['r'] ∧
    fieldsOf (regionLine r) = [intText r.id, intText r.materialId] := by
  have line : regionLine r =
      'r' :: ' ' :: (intText r.id ++ ' ' :: ' ' :: ' ' :: intText r.materialId) := by
    simp [regionLine]
  rw [line, (tag_blank (by decide) _).1, (tag_blank (by decide) _).2,
    (isWord_intText _).split_append, split_blank, split_blank, (isWord_intText _).split]
  exact ⟨rfl, rfl⟩

/-- A region, as it is read back. -/
def Region.rewritten (r : Region) : Region := { r with material := resolveMaterial r.materialId }

theorem step_regionLine (laws : Laws reader printer) (r : Region) (acc : Accumulator F) :
    step reader acc (regionLine r) = .ok { acc with
      warnings := acc.warnings ++ materialWarnings r.materialId
      regions := acc.regions ++ [r.rewritten] } := by
  obtain ⟨tag, fields⟩ := tag_regionLine r
  rw [step_of_tag tag, fields]
  change acc.handleRegion reader _ = _
  simp [Accumulator.handleRegion, intField, field, bind, Except.bind, readInt_intText laws,
    Region.rewritten]

/-- The numbers of a `t` line. -/
def Element.entries (e : Element) : List Int :=
  e.id :: e.regionId :: e.vertices.map (· + 1) ++
    e.neighbors.map (fun n => if n ≥ 0 then n + 1 else n) ++ e.extra

theorem elementLine_eq (e : Element) : elementLine e = 't' :: ' ' ::
    (intText e.id ++ e.entries.tail.flatMap (fun i => ' ' :: intText i) ++ [' ']) := by
  have fields : [intText e.id, intText e.regionId] ++ e.vertices.map (fun v => intText (v + 1)) ++
      e.neighbors.map (fun n => intText (if n ≥ 0 then n + 1 else n)) ++ e.extra.map intText =
        (e.id :: e.entries.tail).map intText := by
    simp [Element.entries, Function.comp_def]
  rw [elementLine, fields, intercalate_blank]
  rfl

theorem tag_elementLine (e : Element) : tagOf (elementLine e) = ['t'] ∧
    fieldsOf (elementLine e) = e.entries.map intText := by
  rw [elementLine_eq, (tag_blank (by decide) _).1, (tag_blank (by decide) _).2,
    split_flatMap isWord_intText _ (isWord_intText e.id)]
  exact ⟨rfl, by simp [Text.split, splitFrom, Element.entries]⟩

/-- An element, as it is read back where a `D` line says these numbers. -/
def Element.recut (vertices neighbors : Int) (e : Element) : Element where
  id := e.id
  regionId := e.regionId
  vertices := (slice e.entries 2 (2 + vertices)).map (· - 1)
  neighbors := (slice e.entries (2 + vertices) (2 + vertices + neighbors)).map Accumulator.neighborOf
  extra := slice e.entries (2 + vertices + neighbors) e.entries.length

theorem step_elementLine (laws : Laws reader printer) (e : Element) {acc acc' : Accumulator F} :
    step reader acc (elementLine e) = .ok acc' ↔
      (e.entries.length : Int) = 2 + acc.verticesPerElement + acc.neighborsPerElement + 2 ∧
      acc' = { acc with elements :=
        acc.elements ++ [e.recut acc.verticesPerElement acc.neighborsPerElement] } := by
  obtain ⟨tag, fields⟩ := tag_elementLine e
  rw [step_of_tag tag, fields]
  change acc.handleElement reader _ = _ ↔ _
  simp only [Accumulator.handleElement, List.length_map]
  by_cases expected : (e.entries.length : Int) =
      2 + acc.verticesPerElement + acc.neighborsPerElement + 2
  · rw [if_neg (not_not.mpr expected), mapM_readInt laws]
    constructor
    · intro h
      exact ⟨expected, (Except.ok.inj h).symm⟩
    · intro h
      obtain ⟨-, rfl⟩ := h
      rfl
  · rw [if_pos expected]
    exact ⟨nofun, fun h => absurd h.1 expected⟩

theorem tag_nodeLine (laws : Laws reader printer) (n : NodeSolution F) :
    tagOf (nodeLine printer n) = ['n'] ∧ fieldsOf (nodeLine printer n) =
      intText n.coordinateIndex :: intText n.materialId :: n.values.map printer.e := by
  have line : nodeLine printer n = 'n' :: ' ' :: (intText n.coordinateIndex ++ ' ' :: ' ' :: ' ' ::
      (intText n.materialId ++ ' ' :: ' ' :: n.values.flatMap fun v => ' ' :: printer.e v)) := by
    simp [nodeLine]
  rw [line, (tag_blank (by decide) _).1, (tag_blank (by decide) _).2,
    (isWord_intText _).split_append, split_blank, split_blank, (isWord_intText _).split_append,
    split_blank, split_words laws.e.word]
  exact ⟨rfl, rfl⟩

/-- The row of a node, as it is read back. -/
def NodeSolution.row (reader : Reader F) (printer : Printer F) (n : NodeSolution F) :
    Int × Int × List F :=
  (n.coordinateIndex, n.materialId, n.values.map fun v => reread reader (printer.e v))

theorem step_nodeLine (laws : Laws reader printer) (n : NodeSolution F) {table : List Int}
    {acc acc' : Accumulator F} (found : acc.table = some table) :
    step reader acc (nodeLine printer n) = .ok acc' ↔ n.values.length = table.length ∧
      acc' = { acc with
        warnings := acc.warnings ++ materialWarnings n.materialId
        solutionRows := acc.solutionRows ++ [n.row reader printer] } := by
  obtain ⟨tag, fields⟩ := tag_nodeLine laws n
  have values : (n.values.map printer.e).mapM (readFloat reader) =
      .ok (n.values.map fun v => reread reader (printer.e v)) := by
    rw [mapM_eq_ok, List.forall₂_map_left_iff, List.forall₂_map_right_iff, List.forall₂_same]
    exact fun v _ => readFloat_of_projects laws.e v
  rw [step_of_tag tag, fields]
  change acc.handleNode reader _ = _ ↔ _
  simp only [Accumulator.handleNode, found, List.drop_succ_cons, List.drop_zero, values]
  by_cases fits : n.values.length = table.length
  · simp [fits, intField, field, bind, Except.bind, readInt_intText laws, NodeSolution.row, eq_comm]
  · simp [fits, bind, Except.bind]

/-! ## All lines -/

theorem parseStructure_eq_ok {source : Text} {read : Structure F} :
    parseStructure reader source = .ok read ↔ ∃ acc : Accumulator F,
      source.splitlines.foldlM (step reader) .init = .ok acc ∧ acc.finalize = .ok read := by
  unfold parseStructure
  rw [bind_eq_ok]
  simp only [parseLines_eq_ok]

theorem finalize_eq_ok {acc : Accumulator F} {read : Structure F} : acc.finalize = .ok read ↔
    acc.table = some read.species ∧ read = {
      version := acc.version
      dimension := acc.dimension
      verticesPerElement := acc.verticesPerElement
      neighborsPerElement := acc.neighborsPerElement
      coordinates := acc.coordinates
      regions := acc.regions
      elements := acc.elements
      solutions := acc.solutionRows.map fun row => ⟨row.1, row.2.1, resolveMaterial row.2.1, row.2.2⟩
      species := read.species
      temperature := acc.temperature
      warnings := acc.warnings } := by
  unfold Accumulator.finalize
  cases acc.table with
  | none => exact ⟨nofun, nofun⟩
  | some table =>
    constructor
    · intro h
      obtain rfl := Except.ok.inj h
      exact ⟨rfl, rfl⟩
    · intro h
      obtain ⟨same, read_eq⟩ := h
      rw [Option.some.inj same, read_eq]

/-- A record for each item, each read if it is one of some kind. -/
theorem steps_items {α : Type} {line : α → Text} {P : α → Prop} {I : Accumulator F → Prop}
    (all : Accumulator F → List α → Accumulator F) (none : ∀ acc, all acc [] = acc)
    (more : ∀ acc a as, all (all acc [a]) as = all acc (a :: as))
    (keep : ∀ acc a, I acc → I (all acc [a]))
    (one : ∀ acc acc' a, I acc →
      (step reader acc (line a) = .ok acc' ↔ P a ∧ acc' = all acc [a]))
    {items : List α} {acc acc' : Accumulator F} (inv : I acc) :
    (items.map line).foldlM (step reader) acc = .ok acc' ↔
      (∀ a ∈ items, P a) ∧ acc' = all acc items := by
  induction items generalizing acc with
  | nil =>
    rw [none]
    exact ⟨fun h => ⟨by simp, (Except.ok.inj h).symm⟩, fun h => h.2 ▸ rfl⟩
  | cons a items ih =>
    rw [List.map_cons, List.foldlM_cons, bind_eq_ok, List.forall_mem_cons]
    constructor
    · intro h
      obtain ⟨next, first, h⟩ := h
      obtain ⟨fits, rfl⟩ := (one _ _ _ inv).mp first
      obtain ⟨rest, rfl⟩ := (ih (keep _ _ inv)).mp h
      exact ⟨⟨fits, rest⟩, more _ _ _⟩
    · intro h
      obtain ⟨⟨fits, rest⟩, rfl⟩ := h
      exact ⟨_, (one _ _ _ inv).mpr ⟨fits, rfl⟩, (ih (keep _ _ inv)).mpr ⟨rest, (more _ _ _).symm⟩⟩

/-- No line breaks within the lines. -/
theorem oneLine_of_mem_writtenLines (laws : Laws reader printer) {s : Structure F} {source line : Text}
    (h : line ∈ writtenLines printer s source) : OneLine line := by
  obtain ⟨tag, -, h⟩ := List.mem_flatMap.mp h
  have int : ∀ i, OneLine (intText i) := fun i => (isWord_intText i).oneLine
  split at h
  · unfold ownLines at h
    split at h
    · obtain ⟨c, -, rfl⟩ := List.mem_map.mp h
      have g : ∀ x, OneLine (printer.g x) := fun x => (laws.g.word x).oneLine
      simp [coordinateLine, int, g, isLineBreak]
    · split at h
      · obtain ⟨r, -, rfl⟩ := List.mem_map.mp h
        simp [regionLine, int, isLineBreak]
      · split at h
        · obtain ⟨e, -, rfl⟩ := List.mem_map.mp h
          simp [elementLine_eq, int, isLineBreak]
        · obtain ⟨n, -, rfl⟩ := List.mem_map.mp h
          have e : ∀ x, OneLine (printer.e x) := fun x => (laws.e.word x).oneLine
          simp [nodeLine, int, e, isLineBreak]
  · exact oneLine_of_mem_splitlines (List.mem_filter.mp h).1

/-! ## Reading the text back -/

/-- The `D` line that a text written over the source has last. -/
def keptDimension (reader : Reader F) (source : Text) : Int × Int × Int :=
  lastSaid (dimensionOf reader) (1, 2, 2) (keptLines source 'D')

/-- The text of a structure can be read back, with these columns. -/
structure ReadsBack (reader : Reader F) (s : Structure F) (source : Text) (codes : List Int) :
    Prop where
  coordinates : ∀ c ∈ s.coordinates, 1 ≤ s.dimension ∨ s.dimension = -1
  elements : ∀ e ∈ s.elements, (e.entries.length : Int) =
    2 + (keptDimension reader source).2.1 + (keptDimension reader source).2.2 + 2
  table : lastSaid (fun line => (codesOf reader line).map some) none (keptLines source 's') =
    some codes
  solutions : ∀ n ∈ s.solutions, n.values.length = codes.length

/-- A solution, as it is read back. -/
def NodeSolution.rewritten (reader : Reader F) (printer : Printer F) (n : NodeSolution F) :
    NodeSolution F :=
  ⟨n.coordinateIndex, n.materialId, resolveMaterial n.materialId,
    n.values.map fun v => reread reader (printer.e v)⟩

/-- A structure, as it is read back from its text. -/
def Structure.rewritten (reader : Reader F) (printer : Printer F) (source : Text) (codes : List Int)
    (s : Structure F) : Structure F where
  version := lastSaid versionOf "" (keptLines source 'v')
  dimension := (keptDimension reader source).1
  verticesPerElement := (keptDimension reader source).2.1
  neighborsPerElement := (keptDimension reader source).2.2
  coordinates := s.coordinates.map (·.rewritten reader printer s.dimension)
  regions := s.regions.map (·.rewritten)
  elements := s.elements.map
    (·.recut (keptDimension reader source).2.1 (keptDimension reader source).2.2)
  solutions := s.solutions.map (·.rewritten reader printer)
  species := codes
  temperature := lastSaid (fun line => (temperatureOf reader line).map some) none
    (keptLines source 'M')
  warnings := s.regions.flatMap (fun r => materialWarnings r.materialId) ++
    (keptLines source 's').flatMap (codeWarnings reader) ++
    s.solutions.flatMap fun n => materialWarnings n.materialId

/-- The lines that are kept were read once. -/
theorem reads_of_accepted {source : Text} {parsed : Structure F}
    (accepted : parseStructure reader source = .ok parsed) :
    (∀ line ∈ keptLines source 'D', ∃ d, dimensionOf reader line = some d) ∧
      (∀ line ∈ keptLines source 'M', ∃ t, temperatureOf reader line = some t) ∧
      ∀ line ∈ keptLines source 's', ∃ codes, codesOf reader line = some codes := by
  obtain ⟨acc, steps, -⟩ := parseStructure_eq_ok.mp accepted
  have each := exists_step_of_foldlM steps
  refine ⟨fun line h => ?_, fun line h => ?_, fun line h => ?_⟩
  · obtain ⟨mem, tag⟩ := mem_keptLines (by decide) h
    obtain ⟨before, after, stepped⟩ := each line mem
    rw [step_of_tag tag] at stepped
    obtain ⟨d, said, -⟩ := Accumulator.handleDimension_eq_ok.mp stepped
    exact ⟨d, said⟩
  · obtain ⟨mem, tag⟩ := mem_keptLines (by decide) h
    obtain ⟨before, after, stepped⟩ := each line mem
    rw [step_of_tag tag] at stepped
    obtain ⟨t, said, -⟩ := Accumulator.handleTemperature_eq_ok.mp stepped
    exact ⟨t, said⟩
  · obtain ⟨mem, tag⟩ := mem_keptLines (by decide) h
    obtain ⟨before, after, stepped⟩ := each line mem
    rw [step_of_tag tag] at stepped
    obtain ⟨codes, said, -⟩ := Accumulator.handleSpecies_eq_ok.mp stepped
    exact ⟨codes, said⟩

theorem writtenLines_eq (s : Structure F) (source : Text) : writtenLines printer s source =
    keptLines source 'v' ++ (keptLines source 'D' ++
      (s.coordinates.map (coordinateLine printer s.dimension) ++ (s.regions.map regionLine ++
        (s.elements.map elementLine ++ (keptLines source 'M' ++ (keptLines source 's' ++
          (s.solutions.map (nodeLine printer) ++ keptLines source 'I'))))))) := by
  simp [writtenLines, order, owned, ownLines]

section Segments

variable {s : Structure F} {acc acc' : Accumulator F}

theorem steps_coordinates (laws : Laws reader printer) (dimension : Int)
    (coordinates : List (Coordinate F)) :
    (coordinates.map (coordinateLine printer dimension)).foldlM (step reader) acc = .ok acc' ↔
      (∀ c ∈ coordinates, 1 ≤ dimension ∨ dimension = -1) ∧ acc' = { acc with
        coordinates :=
          acc.coordinates ++ coordinates.map (·.rewritten reader printer dimension) } :=
  steps_items (fun acc (cs : List (Coordinate F)) => { acc with
      coordinates := acc.coordinates ++ cs.map (·.rewritten reader printer dimension) })
    (by simp) (by simp) (I := fun _ => True) (fun _ _ _ => trivial)
    (fun _ _ c _ => by simpa using step_coordinateLine laws dimension c) trivial

theorem steps_regions (laws : Laws reader printer) (regions : List Region) :
    (regions.map regionLine).foldlM (step reader) acc = .ok acc' ↔ acc' = { acc with
      warnings := acc.warnings ++ regions.flatMap fun r => materialWarnings r.materialId
      regions := acc.regions ++ regions.map (·.rewritten) } := by
  have steps : (regions.map regionLine).foldlM (step reader) acc = .ok acc' ↔
      (∀ r ∈ regions, True) ∧ acc' = { acc with
        warnings := acc.warnings ++ regions.flatMap fun r => materialWarnings r.materialId
        regions := acc.regions ++ regions.map (·.rewritten) } :=
    steps_items (fun acc (rs : List Region) => { acc with
        warnings := acc.warnings ++ rs.flatMap fun r => materialWarnings r.materialId
        regions := acc.regions ++ rs.map (·.rewritten) })
      (by simp) (by simp) (I := fun _ => True) (fun _ _ _ => trivial)
      (fun _ _ r _ => by simp [step_regionLine laws r, eq_comm]) trivial
  simpa using steps

theorem steps_elements (laws : Laws reader printer) (elements : List Element) :
    (elements.map elementLine).foldlM (step reader) acc = .ok acc' ↔
      (∀ e ∈ elements, (e.entries.length : Int) =
        2 + acc.verticesPerElement + acc.neighborsPerElement + 2) ∧ acc' = { acc with
          elements := acc.elements ++
            elements.map (·.recut acc.verticesPerElement acc.neighborsPerElement) } := by
  refine steps_items (fun acc' (es : List Element) => { acc' with
      elements := acc'.elements ++
        es.map (·.recut acc.verticesPerElement acc.neighborsPerElement) })
    (by simp) (by simp) (I := fun acc' => acc'.verticesPerElement = acc.verticesPerElement ∧
      acc'.neighborsPerElement = acc.neighborsPerElement) (fun _ _ same => same)
    (fun now next e same => ?_) ⟨rfl, rfl⟩
  rw [step_elementLine laws, same.1, same.2]
  rfl

theorem steps_solutions (laws : Laws reader printer) {table : List Int}
    (found : acc.table = some table) (solutions : List (NodeSolution F)) :
    (solutions.map (nodeLine printer)).foldlM (step reader) acc = .ok acc' ↔
      (∀ n ∈ solutions, n.values.length = table.length) ∧ acc' = { acc with
        warnings := acc.warnings ++ solutions.flatMap fun n => materialWarnings n.materialId
        solutionRows := acc.solutionRows ++ solutions.map (·.row reader printer) } :=
  steps_items (fun acc (ns : List (NodeSolution F)) => { acc with
      warnings := acc.warnings ++ ns.flatMap fun n => materialWarnings n.materialId
      solutionRows := acc.solutionRows ++ ns.map (·.row reader printer) })
    (by simp) (by simp) (I := fun acc => acc.table = some table) (fun _ _ same => same)
    (fun _ _ n same => by simpa using step_nodeLine laws n same) found

end Segments

theorem table_solutions (laws : Laws reader printer) {solutions : List (NodeSolution F)}
    {acc acc' : Accumulator F}
    (h : (solutions.map (nodeLine printer)).foldlM (step reader) acc = .ok acc') :
    acc'.table = acc.table := by
  have none : (solutions.map (nodeLine printer)).filter (fun line => tagOf line = ['s']) = [] := by
    refine List.filter_eq_nil_iff.mpr fun line mem => ?_
    obtain ⟨n, -, rfl⟩ := List.mem_map.mp mem
    simp [(tag_nodeLine laws n).1]
  rw [(said_of_steps h).table, none]
  rfl

/-- Which structures can be read back from their text over a source, and as what. -/
theorem parse_write (laws : Laws reader printer) {source : Text} {parsed read s : Structure F}
    (accepted : parseStructure reader source = .ok parsed) :
    parseStructure reader (writeStructure printer s source) = .ok read ↔ ∃ codes,
      ReadsBack reader s source codes ∧ read = s.rewritten reader printer source codes := by
  obtain ⟨dimensions, temperatures, species⟩ := reads_of_accepted accepted
  have tags (tag : Char) (glyph : isSpace tag = false) : ∀ line ∈ keptLines source tag,
      tagOf line = [tag] := fun line mem => (mem_keptLines glyph mem).2
  have lines : (writeStructure printer s source).splitlines = writtenLines printer s source :=
    splitlines_flatMap fun line mem => oneLine_of_mem_writtenLines laws mem
  rw [parseStructure_eq_ok, lines, writtenLines_eq]
  simp only [List.foldlM_append, bind_eq_ok, steps_versions (tags 'v' (by decide)),
    steps_dimensions (tags 'D' (by decide)) dimensions,
    steps_temperatures (tags 'M' (by decide)) temperatures,
    steps_species (tags 's' (by decide)) species, steps_interfaces (tags 'I' (by decide)),
    Except.ok.injEq, exists_eq_left', steps_coordinates laws, steps_regions laws, exists_eq_left,
    steps_elements laws, finalize_eq_ok]
  constructor
  · intro h
    obtain ⟨acc, ⟨first, ⟨coordinates, rfl⟩, second, ⟨elements, rfl⟩, third, nodes, rfl⟩, table,
      read_eq⟩ := h
    have kept := (table_solutions laws nodes).symm.trans table
    obtain ⟨solutions, rfl⟩ := (steps_solutions laws kept _).mp nodes
    refine ⟨read.species, ⟨coordinates, elements, kept, solutions⟩, ?_⟩
    rw [read_eq]
    simp [Structure.rewritten, keptDimension, Accumulator.init, NodeSolution.row,
      NodeSolution.rewritten, Function.comp_def]
  · intro h
    obtain ⟨codes, back, rfl⟩ := h
    refine ⟨_, ⟨_, ⟨back.coordinates, rfl⟩, _, ⟨back.elements, rfl⟩, _,
      (steps_solutions laws back.table _).mpr ⟨back.solutions, rfl⟩, rfl⟩, back.table, ?_⟩
    simp [Structure.rewritten, keptDimension, Accumulator.init, NodeSolution.row,
      NodeSolution.rewritten, Function.comp_def]

end TcadWebapp.StrParser
