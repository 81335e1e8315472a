import TcadWebapp.StrParser.Numbers

/-!
# Records on lines

What the records of a structure file say, apart from what was read before them; and the lines
that are written, read back one kind after the other.
-/

namespace TcadWebapp.StrParser

open Text

variable {F : Type} {reader : Reader F} {printer : Printer F}

/-! ## Reading line by line -/

/-- A line of the loop. -/
def step (reader : Reader F) (acc : Accumulator F) (line : Text) :
    Except LineError (Accumulator F) :=
  if line.strip = [] then .ok acc else acc.consumeLine reader line.strip

theorem parseLines_eq_ok {n : Nat} {acc acc' : Accumulator F} {lines : List Text} :
    parseLines reader n acc lines = .ok acc' ↔ lines.foldlM (step reader) acc = .ok acc' := by
  induction lines generalizing n acc with
  | nil => exact ⟨fun h => congrArg _ (Except.ok.inj h), fun h => congrArg _ (Except.ok.inj h)⟩
  | cons line lines ih =>
    rw [parseLines, List.foldlM_cons, step]
    split
    · exact ih
    · cases acc.consumeLine reader line.strip with
      | ok next => exact ih
      | error e => cases e <;> exact ⟨nofun, nofun⟩

theorem step_of_tag {acc : Accumulator F} {line : Text} {tag : Char} (h : tagOf line = [tag]) :
    step reader acc line = acc.handle reader [tag] (fieldsOf line) := by
  have some : line.strip ≠ [] := by
    intro none
    simp [tagOf, none, partition] at h
  rw [step, if_neg some, Accumulator.consumeLine, ← h]
  rfl

/-! ## What the records say -/

/-- The version on a `v` line. -/
def versionOf (line : Text) : Option String :=
  some (String.ofList ([' '].intercalate (fieldsOf line)))

/-- The three numbers on a `D` line. -/
def dimensionOf (reader : Reader F) (line : Text) : Option (Int × Int × Int) := do
  let dimension ← (intField reader (fieldsOf line) 0).toOption
  let vertices ← (intField reader (fieldsOf line) 1).toOption
  let neighbors ← (intField reader (fieldsOf line) 2).toOption
  some (dimension, vertices, neighbors)

/-- The temperature on an `M` line. -/
def temperatureOf (reader : Reader F) (line : Text) : Option F :=
  (floatField reader (fieldsOf line) 1).toOption

/-- The codes on an `s` line. -/
def codesOf (reader : Reader F) (line : Text) : Option (List Int) := do
  let declared ← (intField reader (fieldsOf line) 0).toOption
  let codes ← ((fieldsOf line).tail.mapM (readInt reader)).toOption
  if declared ≠ codes.length then none else some codes

/-- What the last line says, and `start` if there is none. -/
def lastSaid {α : Type} (read : Text → Option α) (start : α) (lines : List Text) : α :=
  lines.foldl (fun said line => (read line).getD said) start

/-- The lines that are read as records of a kind. -/
def recordLines (source : Text) (tag : Char) : List Text :=
  source.splitlines.filter fun line => tagOf line = [tag]

namespace Accumulator

variable {acc acc' : Accumulator F} {line : Text}

theorem handleDimension_eq_ok : acc.handleDimension reader (fieldsOf line) = .ok acc' ↔
    ∃ d, dimensionOf reader line = some d ∧ acc' = { acc with
      dimension := d.1, verticesPerElement := d.2.1, neighborsPerElement := d.2.2 } := by
  unfold handleDimension dimensionOf
  cases intField reader (fieldsOf line) 0 with
  | error e => exact ⟨nofun, nofun⟩
  | ok dimension =>
    cases intField reader (fieldsOf line) 1 with
    | error e => exact ⟨nofun, nofun⟩
    | ok vertices =>
      cases intField reader (fieldsOf line) 2 with
      | error e => exact ⟨nofun, nofun⟩
      | ok neighbors =>
        constructor
        · intro h
          exact ⟨_, rfl, (Except.ok.inj h).symm⟩
        · intro h
          obtain ⟨d, same, rfl⟩ := h
          obtain rfl : (dimension, vertices, neighbors) = d := Option.some.inj same
          rfl

theorem handleTemperature_eq_ok : acc.handleTemperature reader (fieldsOf line) = .ok acc' ↔
    ∃ t, temperatureOf reader line = some t ∧ acc' = { acc with temperature := some t } := by
  unfold handleTemperature temperatureOf
  cases floatField reader (fieldsOf line) 1 with
  | error e => exact ⟨nofun, nofun⟩
  | ok temperature =>
    constructor
    · intro h
      exact ⟨_, rfl, (Except.ok.inj h).symm⟩
    · intro h
      obtain ⟨t, same, rfl⟩ := h
      obtain rfl : temperature = t := Option.some.inj same
      rfl

theorem handleSpecies_eq_ok : acc.handleSpecies reader (fieldsOf line) = .ok acc' ↔
    ∃ codes, codesOf reader line = some codes ∧ acc' = { acc with
      table := some codes, warnings := acc.warnings ++ speciesWarnings codes } := by
  unfold handleSpecies codesOf
  cases intField reader (fieldsOf line) 0 with
  | error e => exact ⟨nofun, nofun⟩
  | ok declared =>
    cases (fieldsOf line).tail.mapM (readInt reader) with
    | error e => exact ⟨nofun, nofun⟩
    | ok codes =>
      by_cases same : declared = codes.length
      · simp [bind, Except.bind, same, Except.toOption, eq_comm]
      · simp [bind, Except.bind, same, Except.toOption]

end Accumulator

/-! ## What a text says last -/

/-- After these lines, what the records of the source say is what the last of each kind said. -/
structure Said (reader : Reader F) (lines : List Text) (acc acc' : Accumulator F) : Prop where
  version : acc'.version =
    lastSaid versionOf acc.version (lines.filter fun line => tagOf line = ['v'])
  dimension : (acc'.dimension, acc'.verticesPerElement, acc'.neighborsPerElement) =
    lastSaid (dimensionOf reader)
      (acc.dimension, acc.verticesPerElement, acc.neighborsPerElement)
      (lines.filter fun line => tagOf line = ['D'])
  temperature : acc'.temperature =
    lastSaid (fun line => (temperatureOf reader line).map some) acc.temperature
      (lines.filter fun line => tagOf line = ['M'])
  table : acc'.table = lastSaid (fun line => (codesOf reader line).map some) acc.table
    (lines.filter fun line => tagOf line = ['s'])

/-- The two agree on what the records of the source say. -/
structure Agree (acc acc' : Accumulator F) : Prop where
  version : acc'.version = acc.version
  dimension : (acc'.dimension, acc'.verticesPerElement, acc'.neighborsPerElement) =
    (acc.dimension, acc.verticesPerElement, acc.neighborsPerElement)
  temperature : acc'.temperature = acc.temperature
  table : acc'.table = acc.table

theorem Said.of_agree {acc acc' : Accumulator F} {line : Text}
    (other : ∀ tag ∈ ['v', 'D', 'M', 's'], tagOf line ≠ [tag]) (same : Agree acc acc') :
    Said reader [line] acc acc' := by
  have none : ∀ tag ∈ ['v', 'D', 'M', 's'], [line].filter (fun line => tagOf line = [tag]) = [] := by
    intro tag mem
    simp [other tag mem]
  constructor
  · rw [none 'v' (by simp)]
    exact same.version
  · rw [none 'D' (by simp)]
    exact same.dimension
  · rw [none 'M' (by simp)]
    exact same.temperature
  · rw [none 's' (by simp)]
    exact same.table

theorem Said.append {acc acc' acc'' : Accumulator F} {lines lines' : List Text}
    (h : Said reader lines acc acc') (h' : Said reader lines' acc' acc'') :
    Said reader (lines ++ lines') acc acc'' := by
  constructor
  · rw [h'.version, h.version, List.filter_append, lastSaid, lastSaid, lastSaid, List.foldl_append]
  · rw [h'.dimension, h.dimension, List.filter_append, lastSaid, lastSaid, lastSaid,
      List.foldl_append]
  · rw [h'.temperature, h.temperature, List.filter_append, lastSaid, lastSaid, lastSaid,
      List.foldl_append]
  · rw [h'.table, h.table, List.filter_append, lastSaid, lastSaid, lastSaid, List.foldl_append]

namespace Accumulator

variable {acc acc' : Accumulator F} {fields : List Text}

theorem exists_of_handleCoordinate (h : acc.handleCoordinate reader fields = .ok acc') :
    ∃ c, acc' = { acc with coordinates := acc.coordinates ++ [c] } := by
  unfold handleCoordinate at h
  split at h
  · obtain ⟨id, -, h⟩ := bind_eq_ok.mp h
    obtain ⟨x, -, h⟩ := bind_eq_ok.mp h
    obtain ⟨y, -, h⟩ := bind_eq_ok.mp h
    exact ⟨_, (Except.ok.inj h).symm⟩
  · split at h
    · obtain ⟨id, -, h⟩ := bind_eq_ok.mp h
      obtain ⟨x, -, h⟩ := bind_eq_ok.mp h
      exact ⟨_, (Except.ok.inj h).symm⟩
    · cases h

theorem exists_of_handleRegion (h : acc.handleRegion reader fields = .ok acc') :
    ∃ id materialId, acc' = { acc with
      warnings := acc.warnings ++ materialWarnings materialId
      regions := acc.regions ++ [⟨id, materialId, resolveMaterial materialId⟩] } := by
  obtain ⟨materialId, -, h⟩ := bind_eq_ok.mp h
  obtain ⟨id, -, h⟩ := bind_eq_ok.mp h
  exact ⟨id, materialId, (Except.ok.inj h).symm⟩

theorem exists_of_handleElement (h : acc.handleElement reader fields = .ok acc') :
    ∃ e, acc' = { acc with elements := acc.elements ++ [e] } := by
  unfold handleElement at h
  dsimp only at h
  split at h
  · cases h
  · obtain ⟨values, -, h⟩ := bind_eq_ok.mp h
    split at h
    · exact ⟨_, (Except.ok.inj h).symm⟩
    · cases h

theorem exists_of_handleNode (h : acc.handleNode reader fields = .ok acc') :
    ∃ id materialId values, acc' = { acc with
      warnings := acc.warnings ++ materialWarnings materialId
      solutionRows := acc.solutionRows ++ [(id, materialId, values)] } := by
  unfold handleNode at h
  split at h
  · cases h
  · obtain ⟨values, -, h⟩ := bind_eq_ok.mp h
    split at h
    · cases h
    · obtain ⟨materialId, -, h⟩ := bind_eq_ok.mp h
      obtain ⟨id, -, h⟩ := bind_eq_ok.mp h
      exact ⟨id, materialId, values, (Except.ok.inj h).symm⟩

end Accumulator

theorem said_of_step {acc acc' : Accumulator F} {line : Text} (h : step reader acc line = .ok acc') :
    Said reader [line] acc acc' := by
  unfold step at h
  split at h
  · rename_i blank
    obtain rfl := Except.ok.inj h
    refine Said.of_agree (fun tag _ => ?_) ⟨rfl, rfl, rfl, rfl⟩
    simp [tagOf, blank, partition]
  · change acc.handle reader (tagOf line) (fieldsOf line) = .ok acc' at h
    generalize tag : tagOf line = t at h
    unfold Accumulator.handle at h
    split at h
    · obtain rfl := Except.ok.inj h
      constructor <;> simp [tag, lastSaid, versionOf, Accumulator.handleVersion]
    · obtain ⟨d, said, rfl⟩ := Accumulator.handleDimension_eq_ok.mp h
      constructor <;> simp [tag, lastSaid, said]
    · obtain ⟨c, rfl⟩ := Accumulator.exists_of_handleCoordinate h
      exact Said.of_agree (by simp [tag]) ⟨rfl, rfl, rfl, rfl⟩
    · obtain ⟨id, materialId, rfl⟩ := Accumulator.exists_of_handleRegion h
      exact Said.of_agree (by simp [tag]) ⟨rfl, rfl, rfl, rfl⟩
    · obtain ⟨e, rfl⟩ := Accumulator.exists_of_handleElement h
      exact Said.of_agree (by simp [tag]) ⟨rfl, rfl, rfl, rfl⟩
    · obtain ⟨temperature, said, rfl⟩ := Accumulator.handleTemperature_eq_ok.mp h
      constructor <;> simp [tag, lastSaid, said]
    · obtain ⟨codes, said, rfl⟩ := Accumulator.handleSpecies_eq_ok.mp h
      constructor <;> simp [tag, lastSaid, said]
    · obtain ⟨id, materialId, values, rfl⟩ := Accumulator.exists_of_handleNode h
      exact Said.of_agree (by simp [tag]) ⟨rfl, rfl, rfl, rfl⟩
    · obtain rfl := Except.ok.inj h
      exact Said.of_agree (by simp [tag]) ⟨rfl, rfl, rfl, rfl⟩
    · rename_i noV noD _ _ _ noM noS _ _
      obtain rfl := Except.ok.inj h
      refine Said.of_agree ?_ ⟨rfl, rfl, rfl, rfl⟩
      simp only [List.forall_mem_cons, List.not_mem_nil, false_implies, implies_true, and_true]
      exact ⟨tag ▸ noV, tag ▸ noD, tag ▸ noM, tag ▸ noS⟩

theorem said_of_steps {acc acc' : Accumulator F} {lines : List Text}
    (h : lines.foldlM (step reader) acc = .ok acc') : Said reader lines acc acc' := by
  induction lines generalizing acc with
  | nil =>
    obtain rfl := Except.ok.inj h
    exact ⟨rfl, rfl, rfl, rfl⟩
  | cons line lines ih =>
    rw [List.foldlM_cons] at h
    obtain ⟨next, first, h⟩ := bind_eq_ok.mp h
    exact (said_of_step first).append (ih h)

/-- A line leaves the regions alone, or it is an `r` line with the material that its region has. -/
theorem regions_of_step {acc acc' : Accumulator F} {line : Text}
    (h : step reader acc line = .ok acc') :
    acc'.regions = acc.regions ∨ tagOf line = ['r'] ∧ ∃ r : Region,
      intField reader (fieldsOf line) 1 = .ok r.materialId ∧
        r.material = resolveMaterial r.materialId ∧ acc'.regions = acc.regions ++ [r] := by
  unfold step at h
  split at h
  · obtain rfl := Except.ok.inj h
    exact Or.inl rfl
  · change acc.handle reader (tagOf line) (fieldsOf line) = .ok acc' at h
    generalize tagOf line = tag at h
    unfold Accumulator.handle at h
    split at h
    · obtain rfl := Except.ok.inj h
      exact Or.inl rfl
    · obtain ⟨d, -, rfl⟩ := Accumulator.handleDimension_eq_ok.mp h
      exact Or.inl rfl
    · obtain ⟨c, rfl⟩ := Accumulator.exists_of_handleCoordinate h
      exact Or.inl rfl
    · obtain ⟨materialId, material, h⟩ := bind_eq_ok.mp h
      obtain ⟨id, -, h⟩ := bind_eq_ok.mp h
      obtain rfl := Except.ok.inj h
      exact Or.inr ⟨rfl, _, material, rfl, rfl⟩
    · obtain ⟨e, rfl⟩ := Accumulator.exists_of_handleElement h
      exact Or.inl rfl
    · obtain ⟨temperature, -, rfl⟩ := Accumulator.handleTemperature_eq_ok.mp h
      exact Or.inl rfl
    · obtain ⟨codes, -, rfl⟩ := Accumulator.handleSpecies_eq_ok.mp h
      exact Or.inl rfl
    · obtain ⟨id, materialId, values, rfl⟩ := Accumulator.exists_of_handleNode h
      exact Or.inl rfl
    · obtain rfl := Except.ok.inj h
      exact Or.inl rfl
    · obtain rfl := Except.ok.inj h
      exact Or.inl rfl

/-- The regions have the names of their materials. -/
def Accumulator.Named (acc : Accumulator F) : Prop :=
  ∀ r ∈ acc.regions, r.material = resolveMaterial r.materialId

/-- Each region stands on an `r` line. -/
def Accumulator.Declared (reader : Reader F) (lines : List Text) (acc : Accumulator F) : Prop :=
  ∀ r ∈ acc.regions, r.material = resolveMaterial r.materialId ∧ ∃ line ∈ lines,
    tagOf line = ['r'] ∧ intField reader (fieldsOf line) 1 = .ok r.materialId

theorem declared_of_steps {lines : List Text} {acc acc' : Accumulator F}
    (h : lines.foldlM (step reader) acc = .ok acc') {before : List Text}
    (inv : acc.Declared reader before) : acc'.Declared reader (before ++ lines) := by
  induction lines generalizing acc before with
  | nil =>
    obtain rfl := Except.ok.inj h
    rwa [List.append_nil]
  | cons line lines ih =>
    rw [List.foldlM_cons] at h
    obtain ⟨next, first, h⟩ := bind_eq_ok.mp h
    rw [List.append_cons]
    refine ih h ?_
    have kept : ∀ r ∈ acc.regions, r.material = resolveMaterial r.materialId ∧
        ∃ line' ∈ before ++ [line], tagOf line' = ['r'] ∧
          intField reader (fieldsOf line') 1 = .ok r.materialId := by
      intro r hr
      obtain ⟨named, line', mem, said⟩ := inv r hr
      exact ⟨named, line', List.mem_append_left _ mem, said⟩
    unfold Accumulator.Declared
    rcases regions_of_step first with same | ⟨tag, r, material, named, added⟩
    · rw [same]
      exact kept
    · rw [added]
      intro r' hr
      rcases List.mem_append.mp hr with hr | hr
      · exact kept r' hr
      · rw [List.mem_singleton.mp hr]
        exact ⟨named, line, by simp, tag, material⟩

/-! ## Lines kept -/

theorem mem_keptLines {source line : Text} {tag : Char} (glyph : isSpace tag = false)
    (h : line ∈ keptLines source tag) : line ∈ source.splitlines ∧ tagOf line = [tag] := by
  obtain ⟨mem, before⟩ := List.mem_filter.mp h
  rw [decide_eq_true_eq] at before
  refine ⟨mem, ?_⟩
  cases line with
  | nil => cases before
  | cons c line =>
    rw [List.takeWhile_cons] at before
    split at before
    · obtain ⟨rfl, rest⟩ := List.cons.inj before
      cases line with
      | nil => exact tag_alone glyph
      | cons d line =>
        by_cases blank : d = ' '
        · subst blank
          exact (tag_blank glyph line).1
        · rw [List.takeWhile_cons_of_pos (by simpa using blank)] at rest
          cases rest
    · cases before

theorem lastSaid_cons {α : Type} (read : Text → Option α) (start : α) (line : Text)
    (lines : List Text) :
    lastSaid read start (line :: lines) = lastSaid read ((read line).getD start) lines := rfl

section Kept

variable {lines : List Text} {acc : Accumulator F}

theorem steps_versions (tags : ∀ line ∈ lines, tagOf line = ['v']) :
    lines.foldlM (step reader) acc =
      .ok { acc with version := lastSaid versionOf acc.version lines } := by
  induction lines generalizing acc with
  | nil => rfl
  | cons line lines ih =>
    rw [List.foldlM_cons, step_of_tag (tags line List.mem_cons_self)]
    exact ih fun line mem => tags line (List.mem_cons_of_mem _ mem)

theorem steps_dimensions (tags : ∀ line ∈ lines, tagOf line = ['D'])
    (reads : ∀ line ∈ lines, ∃ d, dimensionOf reader line = some d) :
    lines.foldlM (step reader) acc =
      let d := lastSaid (dimensionOf reader)
        (acc.dimension, acc.verticesPerElement, acc.neighborsPerElement) lines
      .ok { acc with
        dimension := d.1, verticesPerElement := d.2.1, neighborsPerElement := d.2.2 } := by
  induction lines generalizing acc with
  | nil => rfl
  | cons line lines ih =>
    obtain ⟨d, said⟩ := reads line List.mem_cons_self
    rw [List.foldlM_cons, step_of_tag (tags line List.mem_cons_self), lastSaid_cons, said]
    refine bind_eq_ok.mpr ⟨_, Accumulator.handleDimension_eq_ok.mpr ⟨d, said, rfl⟩, ?_⟩
    exact ih (fun line mem => tags line (List.mem_cons_of_mem _ mem))
      fun line mem => reads line (List.mem_cons_of_mem _ mem)

theorem steps_temperatures (tags : ∀ line ∈ lines, tagOf line = ['M'])
    (reads : ∀ line ∈ lines, ∃ t, temperatureOf reader line = some t) :
    lines.foldlM (step reader) acc = .ok { acc with
      temperature := lastSaid (fun line => (temperatureOf reader line).map some)
        acc.temperature lines } := by
  induction lines generalizing acc with
  | nil => rfl
  | cons line lines ih =>
    obtain ⟨t, said⟩ := reads line List.mem_cons_self
    rw [List.foldlM_cons, step_of_tag (tags line List.mem_cons_self), lastSaid_cons, said]
    refine bind_eq_ok.mpr ⟨_, Accumulator.handleTemperature_eq_ok.mpr ⟨t, said, rfl⟩, ?_⟩
    exact ih (fun line mem => tags line (List.mem_cons_of_mem _ mem))
      fun line mem => reads line (List.mem_cons_of_mem _ mem)

/-- The warnings of an `s` line. -/
def codeWarnings (reader : Reader F) (line : Text) : List String :=
  ((codesOf reader line).map Accumulator.speciesWarnings).getD []

theorem steps_species (tags : ∀ line ∈ lines, tagOf line = ['s'])
    (reads : ∀ line ∈ lines, ∃ codes, codesOf reader line = some codes) :
    lines.foldlM (step reader) acc = .ok { acc with
      table := lastSaid (fun line => (codesOf reader line).map some) acc.table lines
      warnings := acc.warnings ++ lines.flatMap (codeWarnings reader) } := by
  induction lines generalizing acc with
  | nil => simp [lastSaid, pure, Except.pure]
  | cons line lines ih =>
    obtain ⟨codes, said⟩ := reads line List.mem_cons_self
    have rest (acc : Accumulator F) := @ih acc
      (fun line mem => tags line (List.mem_cons_of_mem _ mem))
      fun line mem => reads line (List.mem_cons_of_mem _ mem)
    rw [List.foldlM_cons, step_of_tag (tags line List.mem_cons_self), lastSaid_cons, said,
      List.flatMap_cons, codeWarnings, said]
    refine bind_eq_ok.mpr ⟨_, Accumulator.handleSpecies_eq_ok.mpr ⟨codes, said, rfl⟩, ?_⟩
    rw [rest]
    simp

theorem steps_interfaces (tags : ∀ line ∈ lines, tagOf line = ['I']) :
    lines.foldlM (step reader) acc = .ok acc := by
  induction lines with
  | nil => rfl
  | cons line lines ih =>
    rw [List.foldlM_cons, step_of_tag (tags line List.mem_cons_self)]
    exact ih fun line mem => tags line (List.mem_cons_of_mem _ mem)

end Kept

end TcadWebapp.StrParser
