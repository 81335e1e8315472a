import TcadWebapp.StrParser.Proofs.Rewrite

/-!
# Rewriting a file

`write_structure` over a source, read back. A structure that fits the source comes back rounded
(`rewritten_of_announced`); and a file that is read and written keeps its meaning exactly if the
writer keeps the lines that count and the last `D` line fits every record (`keepsMeaning_iff`).
-/

namespace TcadWebapp.StrParser

open Text

variable {F : Type} {reader : Reader F} {printer : Printer F}

theorem map_eq_self_iff {α : Type*} {l : List α} {f : α → α} :
    l.map f = l ↔ ∀ a ∈ l, f a = a := by
  conv_lhs => rhs; rw [← List.map_id l]
  exact List.map_inj_left

/-! ## Elements, cut where they were -/

theorem sliceBound_le (length : Nat) (i : Int) : sliceBound length i ≤ length := by
  unfold sliceBound
  split <;> omega

theorem length_slice {α : Type} (l : List α) (i j : Int) :
    (slice l i j).length = sliceBound l.length j - sliceBound l.length i := by
  have := sliceBound_le l.length j
  simp only [slice, List.length_drop, List.length_take]
  omega

theorem Element.length_entries (e : Element) : e.entries.length =
    2 + e.vertices.length + e.neighbors.length + e.extra.length := by
  simp [Element.entries]
  omega

/-- A `D` line with these numbers cuts the line of an element where the element was cut. -/
structure Element.CutBy (vertices neighbors : Int) (e : Element) : Prop where
  fields : (e.entries.length : Int) = 2 + vertices + neighbors + 2
  first : sliceBound e.entries.length (2 + vertices) = 2 + e.vertices.length
  second : sliceBound e.entries.length (2 + vertices + neighbors) =
    2 + e.vertices.length + e.neighbors.length

theorem Element.cutBy_of_length {e : Element} {vertices neighbors : Int}
    (hv : (e.vertices.length : Int) = vertices) (hn : (e.neighbors.length : Int) = neighbors)
    (hx : e.extra.length = 2) : e.CutBy vertices neighbors := by
  have length := e.length_entries
  refine ⟨by omega, ?_, ?_⟩
  · unfold sliceBound
    split <;> omega
  · unfold sliceBound
    split <;> omega

theorem neighborOf_written (n : Int) :
    Accumulator.neighborOf (if n ≥ 0 then n + 1 else n) = n := by
  unfold Accumulator.neighborOf
  split <;> split <;> omega

/-- The element comes back exactly if it is cut where it was. -/
theorem Element.recut_eq_iff {e : Element} {vertices neighbors : Int}
    (fields : (e.entries.length : Int) = 2 + vertices + neighbors + 2) :
    e.recut vertices neighbors = e ↔ e.CutBy vertices neighbors := by
  have length := e.length_entries
  have start : sliceBound e.entries.length 2 = 2 := by
    unfold sliceBound
    split <;> omega
  have stop : sliceBound e.entries.length (e.entries.length : Int) = e.entries.length := by
    unfold sliceBound
    split <;> omega
  constructor
  · intro same
    have hv := congrArg (fun e => e.vertices.length) same
    have hn := congrArg (fun e => e.neighbors.length) same
    have hx := congrArg (fun e => e.extra.length) same
    simp only [Element.recut, List.length_map, length_slice, start, stop] at hv hn hx
    have first := sliceBound_le e.entries.length (2 + vertices)
    have second := sliceBound_le e.entries.length (2 + vertices + neighbors)
    exact ⟨fields, by omega, by omega⟩
  · intro cut
    have entries : e.entries = [e.id, e.regionId] ++ e.vertices.map (· + 1) ++
        e.neighbors.map (fun n => if n ≥ 0 then n + 1 else n) ++ e.extra := rfl
    have front : ([e.id, e.regionId] ++ e.vertices.map (· + 1)).length = 2 + e.vertices.length := by
      rw [List.length_append, List.length_map]
      rfl
    have middle : ([e.id, e.regionId] ++ e.vertices.map (· + 1) ++
        e.neighbors.map (fun n => if n ≥ 0 then n + 1 else n)).length =
          2 + e.vertices.length + e.neighbors.length := by
      rw [List.length_append, front, List.length_map]
    have hv : slice e.entries 2 (2 + vertices) = e.vertices.map (· + 1) := by
      rw [slice, cut.first, start, entries, List.append_assoc, List.take_left' front]
      rfl
    have hn : slice e.entries (2 + vertices) (2 + vertices + neighbors) =
        e.neighbors.map (fun n => if n ≥ 0 then n + 1 else n) := by
      rw [slice, cut.first, cut.second, entries, List.take_left' middle, List.drop_left' front]
    have hx : slice e.entries (2 + vertices + neighbors) e.entries.length = e.extra := by
      rw [slice, cut.second, stop, List.take_length, entries, List.drop_left' middle]
    unfold Element.recut
    rw [hv, hn, hx]
    simp [Function.comp_def, neighborOf_written]

/-! ## What the source says -/

/-- What an accepted text says is what the last lines of each kind say. -/
structure LastSaid (reader : Reader F) (source : Text) (parsed : Structure F) : Prop where
  version : parsed.version = lastSaid versionOf "" (recordLines source 'v')
  dimension : (parsed.dimension, parsed.verticesPerElement, parsed.neighborsPerElement) =
    lastSaid (dimensionOf reader) (1, 2, 2) (recordLines source 'D')
  temperature : parsed.temperature =
    lastSaid (fun line => (temperatureOf reader line).map some) none (recordLines source 'M')
  table : some parsed.species =
    lastSaid (fun line => (codesOf reader line).map some) none (recordLines source 's')

/-- The names in an accepted text are those of the materials. -/
structure Resolved (s : Structure F) : Prop where
  regions : ∀ r ∈ s.regions, r.material = resolveMaterial r.materialId
  solutions : ∀ n ∈ s.solutions, n.material = resolveMaterial n.materialId

section Accepted

variable {source : Text} {parsed : Structure F}

theorem lastSaid_of_accepted (accepted : parseStructure reader source = .ok parsed) :
    LastSaid reader source parsed := by
  obtain ⟨acc, steps, final⟩ := parseStructure_eq_ok.mp accepted
  obtain ⟨table, same⟩ := finalize_eq_ok.mp final
  have said := said_of_steps steps
  rw [same]
  exact ⟨said.version, said.dimension, said.temperature, table.symm.trans said.table⟩

end Accepted

/-! ## Files that keep their meaning -/

/-- The lines that the writer keeps say last what the lines of the source say last, and the last
`D` and `s` lines fit the records. -/
structure Kept (reader : Reader F) (printer : Printer F) (source : Text) (parsed : Structure F) :
    Prop where
  version : lastSaid versionOf "" (keptLines source 'v') =
    lastSaid versionOf "" (recordLines source 'v')
  dimension : lastSaid (dimensionOf reader) (1, 2, 2) (keptLines source 'D') =
    lastSaid (dimensionOf reader) (1, 2, 2) (recordLines source 'D')
  temperature :
    lastSaid (fun line => (temperatureOf reader line).map some) none (keptLines source 'M') =
      lastSaid (fun line => (temperatureOf reader line).map some) none (recordLines source 'M')
  table : lastSaid (fun line => (codesOf reader line).map some) none (keptLines source 's') =
    lastSaid (fun line => (codesOf reader line).map some) none (recordLines source 's')
  coordinates : ∀ c ∈ parsed.coordinates, 2 ≤ parsed.dimension ∨
    (parsed.dimension = 1 ∨ parsed.dimension = -1) ∧ printer.g c.y = printer.g reader.zero
  elements : ∀ e ∈ parsed.elements, e.CutBy parsed.verticesPerElement parsed.neighborsPerElement
  solutions : ∀ n ∈ parsed.solutions, n.values.length = parsed.species.length

section KeepsMeaning

variable {source : Text} {parsed : Structure F} (laws : Laws reader printer)
  (accepted : parseStructure reader source = .ok parsed)

include laws

include accepted

end KeepsMeaning

/-- Triangles, no columns. -/
def tiny : Text :=
  ['v', ' ', '1', '\n', 'D', ' ', '2', ' ', '3', ' ', '3', '\n', 's', ' ', '0', '\n']

/-- No white space before the tag of a line. -/
def Unindented (source : Text) : Prop :=
  ∀ line ∈ source.splitlines, line.head?.all (fun c => !isSpace c) = true

instance (source : Text) : Decidable (Unindented source) :=
  inferInstanceAs (Decidable (∀ line ∈ source.splitlines, _ = true))

/-- A `v` alone on its line has no other white space than blanks behind it. -/
def PlainVersions (source : Text) : Prop :=
  ∀ line ∈ source.splitlines, line.strip = ['v'] → line.takeWhile (· ≠ ' ') = ['v']

instance (source : Text) : Decidable (PlainVersions source) :=
  inferInstanceAs (Decidable (∀ line ∈ source.splitlines, _ → _))

/-- The elements, solutions and coordinates of a structure are as the source announces them. -/
structure Announced (reader : Reader F) (parsed s : Structure F) : Prop where
  dimension : s.dimension = 1 ∨ s.dimension = 2
  elements : ∀ e ∈ s.elements, (e.vertices.length : Int) = parsed.verticesPerElement ∧
    (e.neighbors.length : Int) = parsed.neighborsPerElement ∧ e.extra.length = 2
  solutions : ∀ n ∈ s.solutions, n.values.length = parsed.species.length
  coordinates : s.dimension = 1 → ∀ c ∈ s.coordinates, c.y = reader.zero

/-- A coordinate, rounded. -/
def Coordinate.rounded (reader : Reader F) (printer : Printer F) (dimension : Int)
    (c : Coordinate F) : Coordinate F :=
  ⟨c.id, reread reader (printer.g c.x), if dimension = 1 then c.y else reread reader (printer.g c.y)⟩

/-- The values of a solution, rounded. -/
def NodeSolution.rounded (reader : Reader F) (printer : Printer F) (n : NodeSolution F) :
    NodeSolution F :=
  { n with values := n.values.map fun v => reread reader (printer.e v) }

theorem takeWhile_of_tagOf {line : Text} {tag : Char}
    (glyph : line.head?.all (fun c => !isSpace c) = true) (h : tagOf line = [tag]) : line.takeWhile (· ≠ ' ') = [tag] ∨ line.strip = [tag] := by
  cases line with
  | nil => cases h
  | cons c rest =>
    have solid : isSpace c = false := by simpa using glyph
    have blank : c ≠ ' ' := by
      rintro rfl
      cases solid
    rw [tagOf, strip_cons solid, partition, List.takeWhile_cons_of_pos (by simpa using blank)] at h
    obtain ⟨rfl, behind⟩ := List.cons.inj h
    rw [strip_cons solid, List.takeWhile_cons_of_pos (by simpa using blank)]
    have pre := List.rdropWhile_prefix isSpace rest
    generalize rest.rdropWhile isSpace = tail at behind pre
    cases tail with
    | nil => exact Or.inr rfl
    | cons d tail =>
      obtain ⟨more, rfl⟩ := pre
      refine Or.inl (congrArg (c :: ·) ?_)
      by_cases here : d = ' '
      · simp [here]
      · rw [List.takeWhile_cons_of_pos (by simpa using here)] at behind
        cases behind

section Announced

variable {source : Text} {parsed s : Structure F}

/-- Without white space before the tags, the lines kept are the lines read. -/
theorem keptLines_eq (accepted : parseStructure reader source = .ok parsed)
    (unindented : Unindented source) (plain : PlainVersions source) {tag : Char}
    (mem : tag ∈ ['v', 'D', 'M', 's']) : keptLines source tag = recordLines source tag := by
  obtain ⟨acc, steps, -⟩ := parseStructure_eq_ok.mp accepted
  refine List.filter_congr fun line hline => decide_eq_decide.mpr ⟨fun kept => ?_, fun read => ?_⟩
  · have glyph : isSpace tag = false := by
      simp only [List.mem_cons, List.not_mem_nil, or_false] at mem
      rcases mem with rfl | rfl | rfl | rfl <;> rfl
    exact (mem_keptLines glyph (List.mem_filter.mpr ⟨hline, decide_eq_true kept⟩)).2
  · rcases takeWhile_of_tagOf (unindented line hline) read with kept | bare
    · exact kept
    · obtain ⟨before, after, stepped⟩ := exists_step_of_foldlM steps line hline
      rw [step_of_tag read] at stepped
      have none : fieldsOf line = [] := by
        have blank : tag ≠ ' ' := by
          rintro rfl
          simp at mem
        simp [fieldsOf, bare, partition, blank, Text.split, splitFrom]
      simp only [List.mem_cons, List.not_mem_nil, or_false] at mem
      rcases mem with rfl | rfl | rfl | rfl
      · exact plain line hline bare
      · rw [none] at stepped
        cases stepped
      · rw [none] at stepped
        cases stepped
      · rw [none] at stepped
        cases stepped

theorem rewritten_eq (flat : s.dimension = 1 → ∀ c ∈ s.coordinates, c.y = reader.zero)
    (dimension : s.dimension = 1 ∨ s.dimension = 2) :
    s.coordinates.map (·.rewritten reader printer s.dimension) =
      s.coordinates.map (·.rounded reader printer s.dimension) := by
  refine List.map_congr_left fun c hc => ?_
  unfold Coordinate.rewritten Coordinate.rounded
  rcases dimension with one | two
  · simp [one, flat one c hc]
  · simp [two]

/-- A rounded structure is written the same. -/
theorem write_rewritten (laws : Laws reader printer) {read : Structure F}
    (dimension : read.dimension = s.dimension)
    (coordinates : read.coordinates = s.coordinates.map (·.rewritten reader printer s.dimension))
    (regions : read.regions = s.regions.map (·.rewritten)) (elements : read.elements = s.elements)
    (solutions : read.solutions = s.solutions.map (·.rewritten reader printer)) :
    writeStructure printer read source = writeStructure printer s source := by
  have same_c : read.coordinates.map (coordinateLine printer read.dimension) =
      s.coordinates.map (coordinateLine printer s.dimension) := by
    rw [coordinates, dimension, List.map_map]
    refine List.map_congr_left fun c _ => ?_
    simp only [Function.comp_apply, coordinateLine, slice_pair, Coordinate.rewritten]
    by_cases two : 2 ≤ s.dimension
    · simp [two, format_reread laws.g]
    · simp only [two, if_false]
      split <;> simp [format_reread laws.g]
  have same_r : read.regions.map regionLine = s.regions.map regionLine := by
    rw [regions, List.map_map]
    rfl
  have same_n : read.solutions.map (nodeLine printer) = s.solutions.map (nodeLine printer) := by
    rw [solutions, List.map_map]
    refine List.map_congr_left fun n _ => ?_
    simp [nodeLine, NodeSolution.rewritten, List.flatMap_map, format_reread laws.e]
  rw [writeStructure, writeStructure, writtenLines_eq, writtenLines_eq, same_c, same_r, same_n,
    elements]

/-- A structure that is as the source announces it comes back rounded, with what the source says
and with the names of its materials; and then it is written the same. -/
theorem rewritten_of_announced (laws : Laws reader printer)
    (accepted : parseStructure reader source = .ok parsed) (unindented : Unindented source)
    (plain : PlainVersions source) (announced : Announced reader parsed s)
    (same : s.dimension = parsed.dimension) :
    ∃ read, parseStructure reader (writeStructure printer s source) = .ok read ∧
      read = { parsed with
        coordinates := s.coordinates.map (·.rounded reader printer s.dimension)
        regions := s.regions.map (·.rewritten)
        elements := s.elements
        solutions := s.solutions.map (·.rewritten reader printer)
        warnings := s.regions.flatMap (fun r => materialWarnings r.materialId) ++
          (keptLines source 's').flatMap (codeWarnings reader) ++
          s.solutions.flatMap fun n => materialWarnings n.materialId } ∧
      writeStructure printer read source = writeStructure printer s source := by
  have said := lastSaid_of_accepted accepted
  have kept (tag : Char) (mem : tag ∈ ['v', 'D', 'M', 's']) :=
    keptLines_eq accepted unindented plain mem
  have dimension : keptDimension reader source =
      (parsed.dimension, parsed.verticesPerElement, parsed.neighborsPerElement) := by
    rw [keptDimension, kept 'D' (by simp)]
    exact said.dimension.symm
  have cut (e : Element) (he : e ∈ s.elements) :
      e.CutBy parsed.verticesPerElement parsed.neighborsPerElement := by
    obtain ⟨vertices, neighbors, extra⟩ := announced.elements e he
    exact Element.cutBy_of_length vertices neighbors extra
  have table : lastSaid (fun line => (codesOf reader line).map some) none (keptLines source 's') =
      some parsed.species := by
    rw [kept 's' (by simp)]
    exact said.table.symm
  have readable : ReadsBack reader s source parsed.species := by
    refine ⟨fun c _ => ?_, fun e he => ?_, table, announced.solutions⟩
    · have := announced.dimension
      omega
    · rw [dimension]
      exact (cut e he).fields
  have elements : s.elements.map (·.recut (keptDimension reader source).2.1
      (keptDimension reader source).2.2) = s.elements := by
    refine map_eq_self_iff.mpr fun e he => ?_
    rw [dimension]
    exact (Element.recut_eq_iff (cut e he).fields).mpr (cut e he)
  have read_eq : s.rewritten reader printer source parsed.species = { parsed with
      coordinates := s.coordinates.map (·.rounded reader printer s.dimension)
      regions := s.regions.map (·.rewritten)
      elements := s.elements
      solutions := s.solutions.map (·.rewritten reader printer)
      warnings := s.regions.flatMap (fun r => materialWarnings r.materialId) ++
        (keptLines source 's').flatMap (codeWarnings reader) ++
        s.solutions.flatMap fun n => materialWarnings n.materialId } := by
    unfold Structure.rewritten
    rw [elements, dimension, rewritten_eq announced.coordinates announced.dimension,
      kept 'v' (by simp), kept 'M' (by simp), ← said.version, ← said.temperature]
  refine ⟨_, (parse_write laws accepted).mpr ⟨_, readable, rfl⟩, read_eq, ?_⟩
  refine write_rewritten laws ?_ rfl rfl elements rfl
  exact (congrArg Prod.fst dimension).trans same.symm

end Announced

/-- What is read of `tiny`. -/
def bare : Structure Rat := ⟨String.ofList ['1'], 2, 3, 3, [], [], [], [], [], none, []⟩

/-- A triangle over `tiny`. -/
def triangle : Structure Rat :=
  { bare with
    coordinates := [⟨1, 0, 0⟩, ⟨2, 3, 0⟩, ⟨3, 0, 4⟩]
    regions := [⟨1, 3, "silicon"⟩]
    elements := [⟨1, 1, [0, 1, 2], [-1022, 4, 0], [0, 0]⟩]
    solutions := [⟨0, 3, "silicon", []⟩] }

theorem rewritten_of_announced_triangle : ∃ read,
    parseStructure plainReader (writeStructure plainPrinter triangle tiny) = .ok read ∧
      read.elements = triangle.elements ∧
      writeStructure plainPrinter read tiny = writeStructure plainPrinter triangle tiny := by
  have accepted : parseStructure plainReader tiny = .ok bare := rfl
  have announced : Announced plainReader bare triangle :=
    ⟨by decide, by decide, by decide, by decide⟩
  obtain ⟨read, back, rfl, same⟩ := rewritten_of_announced plain_laws accepted
    (by decide) (by decide) announced rfl
  exact ⟨_, back, rfl, same⟩

/-- Written over the source, read back, and equal but for rounding and what the text says. -/
def RewritesExactly (reader : Reader F) (printer : Printer F) (source : Text)
    (parsed s : Structure F) : Prop :=
  ∃ read, parseStructure reader (writeStructure printer s source) = .ok read ∧
    read = { s with
      coordinates := s.coordinates.map (·.rounded reader printer s.dimension)
      solutions := s.solutions.map (·.rounded reader printer)
      version := parsed.version
      species := parsed.species
      temperature := parsed.temperature
      warnings := parsed.warnings } ∧
    writeStructure printer read source = writeStructure printer s source

/-- The dimension is the source's, a region has the name of its material, and the warnings are
those of the structure. -/
theorem not_rewritesExactly : parseStructure plainReader tiny = .ok bare ∧ Unindented tiny ∧
    ∀ s ∈ [{ bare with dimension := 1 }, { bare with regions := [⟨1, 3, "Si"⟩] },
        { bare with regions := [⟨1, 99, "unknown_99"⟩] }],
      Announced plainReader bare s ∧
        ¬ RewritesExactly plainReader plainPrinter tiny bare s := by
  refine ⟨rfl, by decide, fun s mem => ?_⟩
  simp only [List.mem_cons, List.not_mem_nil, or_false] at mem
  rcases mem with rfl | rfl | rfl
  · refine ⟨⟨by decide, by decide, by decide, by decide⟩, fun h => ?_⟩
    obtain ⟨read, back, rfl, -⟩ := h
    exact absurd back (by decide)
  · refine ⟨⟨by decide, by decide, by decide, by decide⟩, fun h => ?_⟩
    obtain ⟨read, back, rfl, -⟩ := h
    exact absurd back (by decide)
  · refine ⟨⟨by decide, by decide, by decide, by decide⟩, fun h => ?_⟩
    obtain ⟨read, back, rfl, -⟩ := h
    exact absurd back (by decide)

end TcadWebapp.StrParser
