import TcadWebapp.Devsim.Stream
import TcadWebapp.Devsim.Proofs.Points

/-!
# What is left of a run that was killed

`iv.jsonl` cut anywhere: both readers find the lines whose text is complete, in order. One
lemma says what a reader does with a complete line, one what it does with a torn one.
-/

namespace TcadWebapp.Devsim

variable {json : Json.Library}

/-- The lines whose text is complete in a stream that was cut. -/
def completeLines (json : Json.Library) : List Line → Text → List Line
  | [], _ => []
  | line :: rest, cut =>
    if json.dumps line.json <+: cut then
      line :: completeLines json rest (cut.drop ((json.dumps line.json).length + 1))
    else []

theorem streamText_cons (json : Json.Library) (line : Line) (lines : List Line) :
    streamText json (line :: lines) =
      json.dumps line.json ++ '\n' :: streamText json lines := by
  simp [streamText]

/-- The three ways in which a cut meets the first line: it has nothing more than a torn piece
of it, just the line without its newline, or the line and something of the rest. -/
theorem cut_cases {line : Line} {lines : List Line} {cut : Text}
    (faithful : json.Faithful ((line :: lines).map Line.json))
    (h : cut <+: streamText json (line :: lines)) :
    (cut <+: json.dumps line.json ∧ cut ≠ json.dumps line.json ∧
      completeLines json (line :: lines) cut = [] ∧
      cut.splitlines = if cut = [] then [] else [cut]) ∨
    ∃ cut' : Text, cut' <+: streamText json lines ∧
      completeLines json (line :: lines) cut = line :: completeLines json lines cut' ∧
      cut.splitlines = json.dumps line.json :: cut'.splitlines := by
  have mem : line.json ∈ (line :: lines).map Line.json := by simp
  have oneLine := faithful.oneLine line.json mem
  rw [streamText_cons] at h
  rcases Text.prefix_line h with pre | ⟨cut', rfl, pre⟩
  · by_cases whole : cut = json.dumps line.json
    · refine Or.inr ⟨[], List.nil_prefix, ?_, ?_⟩
      · rw [completeLines, if_pos (whole ▸ List.prefix_refl _), whole, List.drop_eq_nil_of_le (by simp)]
      · rw [whole, Text.splitlines_oneLine oneLine,
          if_neg (faithful.trimmed line.json mem).ne_nil]
        rfl
    · have torn : ¬ json.dumps line.json <+: cut := fun pre' =>
        whole (pre.eq_of_length_le pre'.length_le)
      refine Or.inl ⟨pre, whole, ?_, Text.splitlines_oneLine (oneLine.of_prefix pre)⟩
      rw [completeLines, if_neg torn]
  · refine Or.inr ⟨cut', pre, ?_, Text.splitlines_line oneLine cut'⟩
    rw [completeLines, if_pos (List.prefix_append _ _)]
    congr 2
    simp

/-! ## `_read_dataset` -/

theorem readLines_line {line : Line} {values : List Json} (faithful : json.Faithful values)
    (mem : line.json ∈ values) (rest : List Text) (rows failures : List Json) :
    readLines json (json.dumps line.json :: rest) rows failures =
      readLines json rest (rows ++ line.row?.toList.map Row.json)
        (failures ++ line.failure?.toList.map Failure.json) := by
  have trimmed := faithful.trimmed line.json mem
  rw [readLines, Text.strip_of_trimmed trimmed, if_neg trimmed.ne_nil,
    faithful.loads_dumps line.json mem]
  cases line with
  | moving steps => simp [Line.json, Json.entries?, Json.get?, Json.isText, Line.row?, Line.failure?]
  | row r =>
    by_cases voltages : r.voltages.entries = [] <;>
      simp [Line.json, Row.json, voltages, Json.entries?, Json.get?, Json.isFalse, Line.row?,
        Line.failure?]
  | failure f =>
    simp [Line.json, Failure.json, Failure.entries, Json.entries?, Json.get?, Json.isFalse,
      Line.row?, Line.failure?]

theorem filterMap_cons_toList {α β : Type*} (f : α → Option β) (a : α) (l : List α) :
    (a :: l).filterMap f = (f a).toList ++ l.filterMap f := by
  cases h : f a <;> simp [h]

/-- The rows and failures read from a cut stream are those of its complete lines. -/
theorem readLines_cut {lines : List Line} {cut : Text}
    (faithful : json.Faithful (lines.map Line.json)) (h : cut <+: streamText json lines)
    (rows failures : List Json) : readLines json cut.splitlines rows failures =
      some (rows ++ ((completeLines json lines cut).filterMap Line.row?).map Row.json,
        failures ++ ((completeLines json lines cut).filterMap Line.failure?).map Failure.json) := by
  induction lines generalizing cut rows failures with
  | nil =>
    obtain rfl := List.prefix_nil.mp h
    simp [Text.splitlines, Text.splitlinesFrom, readLines, completeLines]
  | cons line lines ih =>
    have mem : line.json ∈ (line :: lines).map Line.json := by simp
    rcases cut_cases faithful h with ⟨pre, torn, none, split⟩ | ⟨cut', pre, complete, split⟩
    · rw [none, split]
      have refused := faithful.torn line.json mem cut pre torn
      by_cases empty : cut = []
      · simp [empty, readLines]
      · by_cases blank : cut.strip = []
        · simp [empty, readLines, blank]
        · simp [empty, readLines, blank, refused]
    · rw [split, readLines_line faithful mem, ih (faithful.of_cons) pre, complete,
        filterMap_cons_toList, filterMap_cons_toList]
      simp

/-! ## `scan_devsim_progress` -/

theorem mapM_eq_some {α β : Type*} {f : α → Option β} {l : List α}
    (h : ∀ a ∈ l, ∃ b, f a = some b) : ∃ bs, l.mapM f = some bs := by
  induction l with
  | nil => exact ⟨[], rfl⟩
  | cons a l ih =>
    obtain ⟨b, hb⟩ := h a (by simp)
    obtain ⟨bs, hbs⟩ := ih fun a ha => h a (List.mem_cons_of_mem _ ha)
    exact ⟨b :: bs, by rw [List.mapM_cons, hb, hbs]; rfl⟩

/-- A row whose steps are voltages and whose sweep is one, or missing, can be described. -/
theorem describe_numbers (py : Python) {row : List (String × Json)} {steps : Dict String Volt}
    (hsteps : Json.get? row "steps" = some (numbers steps))
    (hsweep : Json.get? row "sweep" = none ∨ ∃ v, Json.get? row "sweep" = some (.num v)) :
    ∃ text, describe py row = some text := by
  obtain ⟨parts, hparts⟩ : ∃ parts, ((steps.entries.map fun entry =>
      (entry.1, Json.num entry.2)).insertionSort fun a b => a.1 ≤ b.1).mapM (fun step =>
        (formatValue py step.2).map fun value => step.1 ++ "=" ++ value ++ "V") = some parts := by
    apply mapM_eq_some
    intro step hs
    rw [(List.perm_insertionSort _ _).mem_iff] at hs
    obtain ⟨entry, -, rfl⟩ := List.mem_map.mp hs
    exact ⟨_, rfl⟩
  unfold describe
  simp only [hsteps, numbers, Json.entries?, Option.bind_eq_bind, Option.bind_some, hparts]
  rcases hsweep with none | ⟨v, some⟩
  · simp [none]
  · simp [some, formatValue]

/-- What the progress reader sees of a line. -/
theorem line_entries (line : Line) : ∃ entries, line.json = .obj entries ∧
    (∃ steps, Json.get? entries "steps" = some (numbers steps)) ∧
    (Json.get? entries "sweep" = none ∨ ∃ v, Json.get? entries "sweep" = some (.num v)) ∧
    (Json.get? entries "phase").any (Json.isText "moving") = line.point?.isNone := by
  cases line with
  | moving steps =>
    exact ⟨_, rfl, ⟨steps, by simp [Json.get?]⟩, Or.inl (by simp [Json.get?]),
      by simp [Json.get?, Json.isText, Line.point?]⟩
  | row r =>
    refine ⟨_, rfl, ⟨r.steps, by simp [Json.get?]⟩, Or.inr ⟨r.sweep, by simp [Json.get?]⟩, ?_⟩
    by_cases voltages : r.voltages.entries = [] <;> simp [voltages, Json.get?, Line.point?]
  | failure f =>
    exact ⟨_, rfl, ⟨f.steps, by simp [Json.get?, Failure.entries]⟩,
      Or.inr ⟨f.sweep, by simp [Json.get?, Failure.entries]⟩,
      by simp [Json.get?, Failure.entries, Line.point?]⟩

theorem countLines_line (py : Python) {line : Line} {values : List Json}
    (faithful : json.Faithful values) (mem : line.json ∈ values) (rest : List Text) (done : Nat)
    (latest : Option String) : ∃ latest',
      countLines json py (json.dumps line.json :: rest) done latest =
        countLines json py rest (done + line.point?.toList.length) latest' := by
  have trimmed := faithful.trimmed line.json mem
  obtain ⟨entries, object, ⟨steps, hsteps⟩, sweep, moving⟩ := line_entries line
  obtain ⟨text, ht⟩ := describe_numbers py hsteps sweep
  rw [countLines, Text.strip_of_trimmed trimmed, if_neg trimmed.ne_nil,
    faithful.loads_dumps line.json mem]
  simp only [object, Json.entries?, ht, moving]
  cases line.point? with
  | none => exact ⟨_, rfl⟩
  | some point => exact ⟨_, rfl⟩

/-- The progress counted in a cut stream is the number of points among its complete lines. -/
theorem countLines_cut (py : Python) {lines : List Line} {cut : Text}
    (faithful : json.Faithful (lines.map Line.json)) (h : cut <+: streamText json lines)
    (done : Nat) (latest : Option String) : ∃ latest',
      countLines json py cut.splitlines done latest =
        some (done + ((completeLines json lines cut).filterMap Line.point?).length, latest') := by
  induction lines generalizing cut done latest with
  | nil =>
    obtain rfl := List.prefix_nil.mp h
    exact ⟨latest, by simp [Text.splitlines, Text.splitlinesFrom, countLines, completeLines]⟩
  | cons line lines ih =>
    have mem : line.json ∈ (line :: lines).map Line.json := by simp
    rcases cut_cases faithful h with ⟨pre, torn, none, split⟩ | ⟨cut', pre, complete, split⟩
    · rw [none, split]
      by_cases empty : cut = []
      · exact ⟨latest, by simp [empty, countLines]⟩
      · by_cases blank : cut.strip = []
        · exact ⟨latest, by simp [empty, countLines, blank]⟩
        · -- the stripped piece is torn as well
          have shorter := Text.strip_prefix (faithful.trimmed line.json mem) pre
          have refused := faithful.torn line.json mem cut.strip (shorter.trans pre) fun e =>
            torn (pre.eq_of_length_le (e ▸ shorter.length_le))
          exact ⟨latest, by simp [empty, countLines, blank, refused]⟩
    · obtain ⟨latest₁, one⟩ := countLines_line py faithful mem cut'.splitlines done latest
      obtain ⟨latest₂, rest⟩ := ih (faithful.of_cons) pre
        (done + line.point?.toList.length) latest₁
      refine ⟨latest₂, ?_⟩
      rw [split, one, rest, complete, filterMap_cons_toList, List.length_append, Nat.add_assoc]

/-! ## Both readers on what a killed run left -/

theorem biasesOf_rows (rows : List Row) : ∃ biases, biasesOf (rows.map Row.json) = some biases := by
  cases rows with
  | nil => exact ⟨[], rfl⟩
  | cons row rows =>
    refine ⟨row.currents.keys.insertionSort (· ≤ ·), ?_⟩
    simp [biasesOf, Row.json, Json.entries?, Json.get?, numbers, Dict.keys, Function.comp_def]

/-- What `_read_dataset` makes of a cut stream. -/
theorem readStream_cut {lines : List Line} {cut : Text}
    (faithful : json.Faithful (lines.map Line.json)) (h : cut <+: streamText json lines)
    (total : Int) :
    let rows := ((completeLines json lines cut).filterMap Line.row?).map Row.json
    let failures := ((completeLines json lines cut).filterMap Line.failure?).map Failure.json
    ∃ dataset, readStream json (.content cut) total = some dataset ∧
      (dataset = none ↔ rows = [] ∧ failures = []) ∧
      ∀ found, dataset = some found → ∃ biases, found = recovered biases rows failures total := by
  have read := readLines_cut faithful h [] []
  rw [List.nil_append, List.nil_append] at read
  obtain ⟨biases, hb⟩ := biasesOf_rows ((completeLines json lines cut).filterMap Line.row?)
  intro rows failures
  unfold readStream
  simp only [read]
  split
  · rename_i e
    cases e
  · rename_i e
    obtain ⟨hr, hf⟩ := Prod.mk.inj (Option.some.inj e)
    exact ⟨none, rfl, by simp [rows, failures, hr, hf], by simp⟩
  · rename_i rows' failures' nonempty e
    obtain ⟨hr, hf⟩ := Prod.mk.inj (Option.some.inj e)
    refine ⟨some (recovered biases rows failures total), ?_, ?_, ?_⟩
    · rw [← hr, hb, ← hf]
      rfl
    · simp only [reduceCtorEq, false_iff, not_and]
      intro noRows noFailures
      exact nonempty (hr.symm.trans noRows) (hf.symm.trans noFailures)
    · intro found e
      exact ⟨biases, (Option.some.inj e).symm⟩

/-- A run that was killed at any character of `iv.jsonl`, with `iv.json` missing or cut short:
the dataset has exactly the rows and the failures among the complete lines, and there is none
exactly when there are no such lines; the progress counts the same points. -/
theorem recovered_of_cut (json : Json.Library) (ds : Simulator) (py : Python) (payload : Payload)
    (cut : Text) (result : File) (total : Int)
    (faithful : json.Faithful ((run ds py payload).1.result payload ::
      (run ds py payload).1.stream.map Line.json))
    (hcut : cut <+: streamText json (run ds py payload).1.stream)
    (hresult : result = .missing ∨ ∃ text, result = .content text ∧
      text <+: json.dumps ((run ds py payload).1.result payload) ∧
      text ≠ json.dumps ((run ds py payload).1.result payload)) :
    let complete := completeLines json (run ds py payload).1.stream cut
    let rows := (complete.filterMap Line.row?).map Row.json
    let failures := (complete.filterMap Line.failure?).map Failure.json
    (∃ dataset, readDataset json ⟨result, .content cut⟩ total = some dataset ∧
      (dataset = none ↔ rows = [] ∧ failures = []) ∧
      ∀ found, dataset = some found → ∃ biases, found = recovered biases rows failures total) ∧
    (0 < total → ∃ latest, scanDevsimProgress json py (some ⟨result, .content cut⟩) total =
      some (some ⟨rows.length + failures.length, total, latest⟩)) := by
  have lines : json.Faithful ((run ds py payload).1.stream.map Line.json) := faithful.of_cons
  intro complete rows failures
  refine ⟨?_, ?_⟩
  · have stream : readDataset json ⟨result, .content cut⟩ total =
        readStream json (.content cut) total := by
      rcases hresult with rfl | ⟨text, rfl, pre, ne⟩
      · rfl
      · simp [readDataset, faithful.torn _ (by simp) text pre ne]
    rw [stream]
    exact readStream_cut lines hcut total
  · intro pos
    obtain ⟨latest, counted⟩ := countLines_cut py lines hcut 0 none
    refine ⟨latest, ?_⟩
    unfold scanDevsimProgress
    rw [if_neg (not_le.mpr pos)]
    simp only [counted, Option.map_some, Nat.zero_add, length_points, rows, failures, complete,
      List.length_map]

/-- A run over 0 V and 1 V that does not reach 1 V. -/
def shortRun : State := (run (convergingUpTo 3) plain (drainSwept [0, 1])).1

def shortLibrary : Json.Library :=
  Json.tableLibrary (shortRun.result (drainSwept [0, 1]) :: shortRun.stream.map Line.json)

theorem shortLibrary_faithful : shortLibrary.Faithful
    (shortRun.result (drainSwept [0, 1]) :: shortRun.stream.map Line.json) :=
  Json.tableLibrary_faithful (by decide +kernel) (by decide +kernel) (by decide +kernel)

/-- Killed within its second line, and within `iv.json`. -/
theorem recovered_of_cut_shortRun :
    let cut := (streamText shortLibrary shortRun.stream).take 125
    let result := File.content ((shortLibrary.dumps (shortRun.result (drainSwept [0, 1]))).take 40)
    let complete := completeLines shortLibrary shortRun.stream cut
    let rows := (complete.filterMap Line.row?).map Row.json
    let failures := (complete.filterMap Line.failure?).map Failure.json
    (∃ dataset, readDataset shortLibrary ⟨result, .content cut⟩ 2 = some dataset ∧
      (dataset = none ↔ rows = [] ∧ failures = []) ∧
      ∀ found, dataset = some found → ∃ biases, found = recovered biases rows failures 2) ∧
    (0 < (2 : Int) → ∃ latest,
      scanDevsimProgress shortLibrary plain (some ⟨result, .content cut⟩) 2 =
        some (some ⟨rows.length + failures.length, 2, latest⟩)) :=
  recovered_of_cut shortLibrary (convergingUpTo 3) plain (drainSwept [0, 1]) _ _ 2
    shortLibrary_faithful (List.take_prefix _ _)
    (Or.inr ⟨_, rfl, List.take_prefix _ _, by decide +kernel⟩)

end TcadWebapp.Devsim
