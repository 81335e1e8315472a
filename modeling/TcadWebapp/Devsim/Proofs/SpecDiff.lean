import TcadWebapp.Devsim.Build
import TcadWebapp.Devsim.Proofs.SpecText

/-!
# What a comparison shows

Two runs have a row to tell them apart just if they differ in what is shown of them. What is not:
the voltages of a sweep given as a list, and a source behind which another has the same name.
-/

namespace TcadWebapp.Devsim

variable {py : Python} {numbers : NumberText}

/-! ## Runs that are shown alike -/

/-- The same electrodes, made of the same interfaces. -/
structure SameElectrodes (a b : ClientSpec) : Prop where
  labels : ∀ label, label ∈ a.electrodes.map ElectrodeChoice.label ↔
    label ∈ b.electrodes.map ElectrodeChoice.label
  interfaces : ∀ choice ∈ a.electrodes, ∀ other ∈ b.electrodes, choice.label = other.label →
    ∀ key, key ∈ choice.interfaces ↔ key ∈ other.interfaces

/-- What is shown of two specifications is the same; of the sources of one name it is the last. -/
structure ShownAlike (a b : ClientSpec) : Prop where
  gateModel : a.gateModel = .value .conductor ↔ b.gateModel = .value .conductor
  temperature : a.temperatureK.toOption.getD 300 = b.temperatureK.toOption.getD 300
  electrodes : SameElectrodes a b
  sources : ∀ name, ((a.lastSource name).map fun bias => (bias.electrode, bias.told)) =
    (b.lastSource name).map fun bias => (bias.electrode, bias.told)

namespace ClientSpec

variable {a b : ClientSpec}

theorem Sane.lastElectrode_eq_some (sane : a.Sane) {label : String} {choice : ElectrodeChoice} :
    a.lastElectrode label = some choice ↔ choice ∈ a.electrodes ∧ choice.label = label := by
  constructor
  · intro found
    exact ⟨List.mem_reverse.mp (List.mem_of_find?_eq_some found),
      by simpa using List.find?_some found⟩
  · intro h
    obtain ⟨mem, rfl⟩ := h
    cases found : a.lastElectrode choice.label with
    | none =>
      have := List.find?_eq_none.mp found choice (List.mem_reverse.mpr mem)
      simp at this
    | some other =>
      have there := List.mem_reverse.mp (List.mem_of_find?_eq_some found)
      have label : other.label = choice.label := by simpa using List.find?_some found
      rw [List.inj_on_of_nodup_map sane.labels there mem label]

theorem lastElectrode_eq_none {label : String} :
    a.lastElectrode label = none ↔ label ∉ a.electrodes.map ElectrodeChoice.label := by
  unfold lastElectrode
  rw [List.find?_eq_none]
  simp [eq_comm]

theorem electrodes_eq_iff (ha : a.Sane) (hb : b.Sane) :
    (∀ label, (a.lastElectrode label).map formatInterfaces =
      (b.lastElectrode label).map formatInterfaces) ↔ SameElectrodes a b := by
  have same {choice other : ElectrodeChoice} (mem : choice ∈ a.electrodes)
      (mem' : other ∈ b.electrodes) :
      formatInterfaces choice = formatInterfaces other ↔
        ∀ key, key ∈ choice.interfaces ↔ key ∈ other.interfaces := by
    rw [ElectrodeChoice.formatInterfaces_eq_iff (ha.keys _ mem) (hb.keys _ mem'),
      ElectrodeChoice.words_eq_iff (ha.once _ mem) (hb.once _ mem')]
  constructor
  · intro shown
    refine ⟨?_, ?_⟩
    · intro label
      rw [← not_iff_not, ← lastElectrode_eq_none, ← lastElectrode_eq_none,
        ← Option.map_eq_none_iff (f := formatInterfaces), shown, Option.map_eq_none_iff]
    · intro choice mem other mem' label
      have both := shown choice.label
      rw [ha.lastElectrode_eq_some.mpr ⟨mem, rfl⟩,
        hb.lastElectrode_eq_some.mpr ⟨mem', label.symm⟩] at both
      exact (same mem mem').mp (Option.some.inj both)
  · intro alike label
    cases found : a.lastElectrode label with
    | none =>
      rw [lastElectrode_eq_none, alike.labels, ← lastElectrode_eq_none] at found
      rw [found]
    | some choice =>
      obtain ⟨mem, rfl⟩ := ha.lastElectrode_eq_some.mp found
      obtain ⟨other, mem', label⟩ := List.mem_map.mp ((alike.labels _).mp (List.mem_map_of_mem mem))
      rw [hb.lastElectrode_eq_some.mpr ⟨mem', label⟩, Option.map_some, Option.map_some,
        (same mem mem').mpr (alike.interfaces choice mem other mem' label.symm)]

theorem mem_of_lastSource {name : String} {bias : ClientBias} (h : a.lastSource name = some bias) :
    bias ∈ a.biases ∧ bias.name = name :=
  ⟨List.mem_reverse.mp (List.mem_of_find?_eq_some h), by simpa using List.find?_some h⟩

theorem sources_eq_iff (ha : a.Sane) (hb : b.Sane) (name : String) :
    (a.lastSource name).map (ClientBias.text numbers) =
        (b.lastSource name).map (ClientBias.text numbers) ↔
      ((a.lastSource name).map fun bias => (bias.electrode, bias.told)) =
        (b.lastSource name).map fun bias => (bias.electrode, bias.told) := by
  cases found : a.lastSource name with
  | none => cases b.lastSource name <;> simp
  | some bias =>
    cases found' : b.lastSource name with
    | none => simp
    | some other =>
      have given := ha.given bias (mem_of_lastSource found).1
      have given' := hb.given other (mem_of_lastSource found').1
      rw [Option.map_some, Option.map_some, Option.map_some, Option.map_some, Option.some.injEq,
        Option.some.injEq, Prod.mk.injEq, ClientBias.text_eq_iff given given']

variable (numbers) in
/-- The fields have the same texts just if what is shown is the same. -/
theorem textAt_eq_iff (ha : a.Sane) (hb : b.Sane) :
    (∀ field, a.textAt numbers field = b.textAt numbers field) ↔ ShownAlike a b := by
  constructor
  · intro same
    refine ⟨?_, ?_, (electrodes_eq_iff ha hb).mp fun label => same (.electrode label),
      fun name => (sources_eq_iff ha hb name).mp (same (.source name))⟩
    · have gates := Option.some.inj (same .gateModel)
      split at gates <;> split at gates
      · simp_all
      · simp at gates
      · simp at gates
      · simp_all
    · exact numbers.text_inj _ _ (List.append_cancel_right (Option.some.inj (same .temperature)))
  · intro alike field
    cases field with
    | gateModel =>
      unfold textAt
      simp only [alike.gateModel]
    | temperature =>
      unfold textAt
      simp only [alike.temperature]
    | electrode label => exact (electrodes_eq_iff ha hb).mpr alike.electrodes label
    | source name => exact (sources_eq_iff ha hb name).mpr (alike.sources name)

variable (numbers) in
/-- No field has the text of one that is missing. -/
theorem textAt_ne (ha : a.Sane) (field : Field) : a.textAt numbers field ≠ some "—".toList := by
  intro missing
  unfold textAt at missing
  cases field with
  | gateModel =>
    have text := Option.some.inj missing
    split at text <;> simp at text
  | temperature =>
    have last := congrArg List.getLast? (Option.some.inj missing)
    rw [List.getLast?_append_of_ne_nil _ (by simp)] at last
    simp at last
  | electrode label =>
    obtain ⟨choice, found, text⟩ := Option.map_eq_some_iff.mp missing
    have mem := (ha.lastElectrode_eq_some.mp found).1
    rcases ElectrodeChoice.formatInterfaces_spec (ha.keys choice mem) with
      ⟨-, shown⟩ | ⟨-, -, c, head, hc⟩
    · rw [shown] at text
      simp at text
    · rw [text] at head
      simp only [String.reduceToList, List.head?_cons, Option.some.injEq] at head
      exact absurd (head ▸ hc) (by decide)
  | source name =>
    obtain ⟨bias, -, text⟩ := Option.map_eq_some_iff.mp missing
    have dot : '·' ∈ "—".toList := text ▸ by simp
    simp at dot

end ClientSpec

/-! ## Rows -/

theorem one_lt_length_eraseDups {α : Type} [BEq α] [LawfulBEq α] {l : List α} :
    1 < l.eraseDups.length ↔ ∃ a ∈ l, ∃ b ∈ l, a ≠ b := by
  cases l with
  | nil => simp
  | cons a l =>
    rw [List.eraseDups_cons, List.length_cons, Nat.lt_add_left_iff_pos,
      List.length_pos_iff_exists_mem]
    simp only [List.mem_eraseDups, List.mem_filter, Bool.not_eq_true', beq_eq_false_iff_ne]
    constructor
    · intro h
      obtain ⟨b, mem, differ⟩ := h
      exact ⟨b, List.mem_cons_of_mem _ mem, a, List.mem_cons_self, differ⟩
    · intro h
      obtain ⟨b, hb, c, hc, differ⟩ := h
      by_cases first : b = a
      · subst first
        exact ⟨c, (List.mem_cons.mp hc).resolve_left differ.symm, differ.symm⟩
      · exact ⟨b, (List.mem_cons.mp hb).resolve_left first, first⟩

theorem length_eraseDups_eq_one {α : Type} [BEq α] [LawfulBEq α] {l : List α} (some : l ≠ []) :
    l.eraseDups.length = 1 ↔ ¬ ∃ a ∈ l, ∃ b ∈ l, a ≠ b := by
  obtain ⟨a, l, rfl⟩ := List.exists_cons_of_ne_nil some
  rw [← one_lt_length_eraseDups, List.eraseDups_cons, List.length_cons]
  omega

variable (numbers) in
/-- What the page shows under a field. -/
def shownAt (text : Text) (run : Compared) : Text :=
  ((run.spec.describe numbers).get? text).getD "—".toList

variable {runs : List Compared}

/-- A field of which the texts differ is one that some run has. -/
theorem mem_fields {text : Text} (differ : ∃ u ∈ runs.map (shownAt numbers text),
    ∃ v ∈ runs.map (shownAt numbers text), u ≠ v) :
    text ∈ ((runs.map fun run => run.spec.describe numbers).flatMap Dict.keys).eraseDups := by
  by_contra missing
  rw [List.mem_eraseDups, List.flatMap_map, List.mem_flatMap] at missing
  have all : ∀ u ∈ runs.map (shownAt numbers text), u = "—".toList := by
    intro u mem
    obtain ⟨run, there, rfl⟩ := List.mem_map.mp mem
    unfold shownAt
    rw [Dict.get?_eq_none.mpr fun key => missing ⟨run, there, key⟩]
    exact Option.getD_none
  obtain ⟨u, hu, v, hv, differ⟩ := differ
  exact differ ((all u hu).trans (all v hv).symm)

/-- The rows are those of which the values are not all the same. -/
theorem mem_diffOf {row : DiffRow} : row ∈ diffOf numbers runs ↔
    2 ≤ runs.length ∧ (∃ u ∈ row.values, ∃ v ∈ row.values, u ≠ v) ∧
      (row = ⟨"구조".toList, runs.map fun run => run.structureName.toList⟩ ∨
        ∃ text, row = ⟨text, runs.map (shownAt numbers text)⟩) := by
  unfold diffOf
  split
  · rename_i few
    exact iff_of_false List.not_mem_nil fun h => absurd h.1 (by omega)
  · rename_i many
    have values (text : Text) : (runs.map fun run => run.spec.describe numbers).map
        (fun one => (one.get? text).getD "—".toList) = runs.map (shownAt numbers text) := by
      rw [List.map_map]
      rfl
    have nonempty (text : Text) : runs.map (shownAt numbers text) ≠ [] := by
      intro none
      rw [List.map_eq_nil_iff.mp none] at many
      exact many Nat.two_pos
    have fields : row ∈ ((runs.map fun run => run.spec.describe numbers).flatMap
        Dict.keys).eraseDups.filterMap (fun field =>
          let values := (runs.map fun run => run.spec.describe numbers).map fun one =>
            (one.get? field).getD "—".toList
          if values.eraseDups.length = 1 then none else some (DiffRow.mk field values)) ↔
        (∃ u ∈ row.values, ∃ v ∈ row.values, u ≠ v) ∧
          ∃ text, row = ⟨text, runs.map (shownAt numbers text)⟩ := by
      simp only [List.mem_filterMap, values]
      constructor
      · intro h
        obtain ⟨text, -, made⟩ := h
        split at made
        · cases made
        · rename_i several
          rw [length_eraseDups_eq_one (nonempty text), not_not] at several
          cases made
          exact ⟨several, text, rfl⟩
      · intro h
        obtain ⟨differ, text, rfl⟩ := h
        refine ⟨text, mem_fields differ, if_neg ?_⟩
        rw [length_eraseDups_eq_one (nonempty text), not_not]
        exact differ
    have structures := one_lt_length_eraseDups (l := runs.map fun run => run.structureName.toList)
    dsimp only
    split
    · rename_i several
      rw [List.mem_cons, fields]
      constructor
      · intro h
        rcases h with rfl | h
        · exact ⟨by omega, structures.mp several, Or.inl rfl⟩
        · exact ⟨by omega, h.1, Or.inr h.2⟩
      · intro h
        obtain ⟨-, differ, rfl | made⟩ := h
        · exact Or.inl rfl
        · exact Or.inr ⟨differ, made⟩
    · rename_i one
      rw [fields]
      constructor
      · exact fun h => ⟨by omega, h.1, Or.inr h.2⟩
      · intro h
        obtain ⟨-, differ, rfl | made⟩ := h
        · exact absurd (structures.mpr differ) one
        · exact ⟨differ, made⟩

/-- Two runs have different values in a row just if they differ in the structure or in a text. -/
theorem exists_row_iff {i j : Nat} {a b : Compared} (ha : runs[i]? = some a)
    (hb : runs[j]? = some b) :
    (∃ row ∈ diffOf numbers runs, row.values[i]? ≠ row.values[j]?) ↔
      a.structureName ≠ b.structureName ∨
        ∃ text, shownAt numbers text a ≠ shownAt numbers text b := by
  have at_i (f : Compared → Text) : (runs.map f)[i]? = some (f a) := by
    rw [List.getElem?_map, ha, Option.map_some]
  have at_j (f : Compared → Text) : (runs.map f)[j]? = some (f b) := by
    rw [List.getElem?_map, hb, Option.map_some]
  have two (f : Compared → Text) (differ : f a ≠ f b) : 2 ≤ runs.length ∧
      ∃ u ∈ runs.map f, ∃ v ∈ runs.map f, u ≠ v := by
    have apart : i ≠ j := by
      rintro rfl
      rw [ha] at hb
      exact differ (congrArg f (Option.some.inj hb))
    have hi := (List.getElem?_eq_some_iff.mp ha).1
    have hj := (List.getElem?_eq_some_iff.mp hb).1
    refine ⟨by omega, f a, List.mem_map_of_mem (List.mem_of_getElem? ha), f b,
      List.mem_map_of_mem (List.mem_of_getElem? hb), differ⟩
  constructor
  · intro h
    obtain ⟨row, mem, differ⟩ := h
    obtain ⟨-, -, rfl | ⟨text, rfl⟩⟩ := mem_diffOf.mp mem
    · rw [at_i, at_j] at differ
      exact Or.inl fun same => differ (by rw [same])
    · rw [at_i, at_j] at differ
      exact Or.inr ⟨text, fun same => differ (by rw [same])⟩
  · intro h
    rcases h with differ | ⟨text, differ⟩
    · have texts : a.structureName.toList ≠ b.structureName.toList := fun same =>
        differ (String.toList_inj.mp same)
      obtain ⟨many, several⟩ := two (fun run => run.structureName.toList) texts
      refine ⟨_, mem_diffOf.mpr ⟨many, several, Or.inl rfl⟩, ?_⟩
      rw [at_i, at_j]
      exact fun same => texts (Option.some.inj same)
    · obtain ⟨many, several⟩ := two (shownAt numbers text) differ
      refine ⟨_, mem_diffOf.mpr ⟨many, several, Or.inr ⟨text, rfl⟩⟩, ?_⟩
      rw [at_i, at_j]
      exact fun same => differ (Option.some.inj same)

variable (numbers) in
theorem shownAt_eq_iff {a b : Compared} (ha : a.spec.Sane) (hb : b.spec.Sane) :
    (∀ text, shownAt numbers text a = shownAt numbers text b) ↔ ShownAlike a.spec b.spec := by
  rw [← ClientSpec.textAt_eq_iff numbers ha hb]
  constructor
  · intro same field
    have texts := same field.text
    have hna := ClientSpec.textAt_ne numbers ha field
    have hnb := ClientSpec.textAt_ne numbers hb field
    unfold shownAt at texts
    rw [ClientSpec.get?_describe_text, ClientSpec.get?_describe_text] at texts
    cases found : a.spec.textAt numbers field <;> cases found' : b.spec.textAt numbers field <;>
      simp_all
  · intro same text
    unfold shownAt
    by_cases field : ∃ field : Field, field.text = text
    · obtain ⟨field, rfl⟩ := field
      rw [ClientSpec.get?_describe_text, ClientSpec.get?_describe_text, same]
    · rw [ClientSpec.get?_describe_eq_none _ (not_exists.mp field),
        ClientSpec.get?_describe_eq_none _ (not_exists.mp field)]

/-! ## What the rows show -/

/-- Two runs that differ in nothing that their curves depend on. -/
structure Compared.Alike (a b : Compared) : Prop where
  structureName : a.structureName = b.structureName
  gateModel : a.spec.gateModel = .value .conductor ↔ b.spec.gateModel = .value .conductor
  temperature : a.spec.temperatureK.toOption.getD 300 = b.spec.temperatureK.toOption.getD 300
  electrodes : SameElectrodes a.spec b.spec
  biases : ∀ bias ∈ a.spec.biases, ∀ other ∈ b.spec.biases, bias.electrode = other.electrode →
    bias.role = other.role ∧ bias.pointsOf = other.pointsOf

/-- Runs that differ have a row in which they do, and there is no row without a difference. -/
structure ShowsDifferences (numbers : NumberText) (runs : List Compared) : Prop where
  shown : ∀ (i j : Nat) (a b : Compared), runs[i]? = some a → runs[j]? = some b → ¬ a.Alike b →
    ∃ row ∈ diffOf numbers runs, row.values[i]? ≠ row.values[j]?
  differ : ∀ row ∈ diffOf numbers runs, ∃ u ∈ row.values, ∃ v ∈ row.values, u ≠ v

/-- A source of which no voltages are shown: it has a later namesake, or no range to sweep. -/
def ClientSpec.Hides (spec : ClientSpec) (bias : ClientBias) : Prop :=
  spec.lastSource bias.name ≠ some bias ∨ bias.told = .nothing

/-- Sources on one electrode of which one is hidden are the same. -/
def HiddenAlike (a b : ClientSpec) : Prop :=
  ∀ bias ∈ a.biases, ∀ other ∈ b.biases, bias.electrode = other.electrode →
    a.Hides bias ∨ b.Hides other → bias.role = other.role ∧ bias.pointsOf = other.pointsOf

/-- The role and the voltages that a text stands for. -/
def Told.source : Told → Option (BiasRole × List Volt)
  | .const value => some (.const, [value])
  | .steps values => some (.step, values)
  | .range sweep => some (.sweep, Client.sweepValues sweep.start sweep.stop sweep.points)
  | .nothing => none

theorem ClientBias.Given.source_told {bias : ClientBias} (given : bias.Given)
    (told : bias.told ≠ .nothing) : bias.told.source = some (bias.role, bias.pointsOf) := by
  unfold ClientBias.told at told ⊢
  unfold pointsOf
  cases role : bias.role with
  | const => rfl
  | step => rfl
  | float =>
    rw [role, given.float role] at told
    exact absurd rfl told
  | sweep =>
    cases range : bias.sweep.toOption with
    | none =>
      rw [role, range] at told
      exact absurd rfl told
    | some sweep =>
      have unlisted : bias.given = [] := by
        by_contra listed
        rw [(given.sweep role).mpr listed] at range
        cases range
      simp only [unlisted, ne_eq, not_true_eq_false, if_false, Told.source]

/-- Of runs that are shown alike, those differ in nothing of which what is hidden is the same. -/
theorem ShownAlike.alike_iff {a b : Compared} (ha : a.spec.Sane) (hb : b.spec.Sane)
    (name : a.structureName = b.structureName) (alike : ShownAlike a.spec b.spec) :
    a.Alike b ↔ HiddenAlike a.spec b.spec := by
  constructor
  · exact fun h bias mem other mem' electrode _ => h.biases bias mem other mem' electrode
  · intro hidden
    refine ⟨name, alike.gateModel, alike.temperature, alike.electrodes, ?_⟩
    intro bias mem other mem' electrode
    by_cases hides : a.spec.Hides bias ∨ b.spec.Hides other
    · exact hidden bias mem other mem' electrode hides
    · rw [not_or] at hides
      obtain ⟨last, told⟩ := not_or.mp hides.1
      rw [not_not] at last
      have source := alike.sources bias.name
      rw [last, Option.map_some, eq_comm, Option.map_eq_some_iff] at source
      obtain ⟨namesake, found, same⟩ := source
      rw [Prod.mk.injEq] at same
      have there := (ClientSpec.mem_of_lastSource found).1
      obtain rfl : namesake = other :=
        List.inj_on_of_nodup_map hb.owners there mem' (same.1.trans electrode)
      have both := (hb.given namesake there).source_told fun nothing =>
        told (same.2.symm.trans nothing)
      rw [same.2, (ha.given bias mem).source_told told, Option.some.injEq, Prod.mk.injEq] at both
      exact both

/-- The rows show all that differs just if runs that are shown alike are so in what is hidden. -/
theorem showsDifferences_iff (numbers : NumberText) (runs : List Compared)
    (ran : ∀ run ∈ runs, Ran py run) : ShowsDifferences numbers runs ↔
      ∀ a ∈ runs, ∀ b ∈ runs, a.structureName = b.structureName → ShownAlike a.spec b.spec →
        HiddenAlike a.spec b.spec := by
  have row_iff {i j : Nat} {a b : Compared} (ha : runs[i]? = some a) (hb : runs[j]? = some b) :
      (∃ row ∈ diffOf numbers runs, row.values[i]? ≠ row.values[j]?) ↔
        ¬ (a.structureName = b.structureName ∧ ShownAlike a.spec b.spec) := by
    have saneA := (ran a (List.mem_of_getElem? ha)).sane
    have saneB := (ran b (List.mem_of_getElem? hb)).sane
    rw [exists_row_iff ha hb, ← shownAt_eq_iff numbers saneA saneB, not_and_or, not_forall]
  constructor
  · intro h a memA b memB name shown
    obtain ⟨i, hi⟩ := List.mem_iff_getElem?.mp memA
    obtain ⟨j, hj⟩ := List.mem_iff_getElem?.mp memB
    rw [← shown.alike_iff (ran a memA).sane (ran b memB).sane name]
    by_contra differ
    exact (row_iff hi hj).mp (h.shown i j a b hi hj differ) ⟨name, shown⟩
  · intro h
    refine ⟨?_, fun row mem => (mem_diffOf.mp mem).2.1⟩
    intro i j a b hi hj differ
    rw [row_iff hi hj]
    intro same
    have memA := List.mem_of_getElem? hi
    have memB := List.mem_of_getElem? hj
    exact differ ((same.2.alike_iff (ran a memA).sane (ran b memB).sane same.1).mpr
      (h a memA b memB same.1 same.2))

/-- A text for every number, that of the page for whole ones. -/
def wholeText (v : Rat) : Text :=
  (toString v.num).toList ++ if v.den = 1 then [] else 'e' :: (toString (v.den : Int)).toList

theorem mem_toString_int {c : Char} {i : Int} (h : c ∈ (toString i).toList) :
    c.isDigit ∨ c = '-' := by
  by_cases digit : c.isDigit
  · exact Or.inl digit
  · by_cases minus : c = '-'
    · exact Or.inr minus
    · exact absurd h (notMem_toString (by simpa using digit) minus i)

theorem wholeText_inj (u v : Rat) (same : wholeText u = wholeText v) : u = v := by
  have e : ∀ i : Int, 'e' ∉ (toString i).toList := notMem_toString (by decide) (by decide)
  unfold wholeText at same
  split at same <;> split at same
  · rename_i hu hv
    rw [List.append_nil, List.append_nil, String.toList_inj, toString_int_inj] at same
    exact Rat.ext same (hu.trans hv.symm)
  · rw [List.append_nil] at same
    exact absurd (same ▸ by simp) (e u.num)
  · rw [List.append_nil] at same
    exact absurd (same ▸ by simp) (e v.num)
  · obtain ⟨num, den⟩ := append_cons_inj_of_first (e u.num) (e v.num) same
    rw [String.toList_inj, toString_int_inj] at num den
    exact Rat.ext num (by omega)

def pageNumbers : NumberText where
  text := wholeText
  toPrecision := id
  text_inj := wholeText_inj
  text_plain := by
    intro v c mem
    unfold wholeText at mem
    rcases List.mem_append.mp mem with mem | mem
    · exact (mem_toString_int mem).imp_right fun minus => by simp [minus]
    · split at mem
      · cases mem
      · rcases List.mem_cons.mp mem with rfl | mem
        · exact Or.inr (by decide)
        · exact (mem_toString_int mem).imp_right fun minus => by simp [minus]

/-- The drain is swept over a list of voltages. -/
def listedRun (temperatureK : Rat) (values : List Volt) : StoredSpec where
  electrodes := (steppedBody "Vs" "Vb").electrodes
  biases := [⟨"Vs", "source", .const, some 1, none, none⟩,
    ⟨"Vb", "body", .step, none, some [2], none⟩, ⟨"Vd", "drain", .sweep, none, some values, none⟩]
  gateModel := .semiconductor
  temperatureK := temperatureK
  label := "run"
  structureName := "chip"
  interfaceNames := ∅

def listed (temperatureK : Rat) (values : List Volt) : Compared :=
  ⟨"chip", (listedRun temperatureK values).sendBack⟩

theorem ran_listed {temperatureK : Rat} {values : List Volt}
    (accepted : (listedRun temperatureK values).Accepted plain) :
    Ran plain (listed temperatureK values) := by
  obtain ⟨electrodes, resolved⟩ : ∃ electrodes,
      resolveElectrodes plain chip (steppedBody "Vs" "Vb") = .ok electrodes :=
    exists_ok (by decide +kernel)
  exact ⟨chip, _, electrodes, accepted, resolved, rfl⟩

theorem showsDifferences_iff_listed :
    ShowsDifferences pageNumbers [listed 300 [0], listed 400 [1]] ↔
      ∀ a ∈ [listed 300 [0], listed 400 [1]], ∀ b ∈ [listed 300 [0], listed 400 [1]],
        a.structureName = b.structureName → ShownAlike a.spec b.spec →
          HiddenAlike a.spec b.spec := by
  refine @showsDifferences_iff plain pageNumbers _ ?_
  simp only [List.forall_mem_cons, List.not_mem_nil, false_implies, implies_true, and_true]
  exact ⟨ran_listed (by decide), ran_listed (by decide)⟩

/-- Two lists of voltages to sweep look the same. -/
theorem not_showsDifferences : ¬ ∀ (py : Python) (numbers : NumberText) (runs : List Compared),
    (∀ run ∈ runs, Ran py run) → ShowsDifferences numbers runs := by
  intro h
  have ran : ∀ run ∈ [listed 300 [0], listed 300 [1]], Ran plain run := by
    simp only [List.forall_mem_cons, List.not_mem_nil, false_implies, implies_true, and_true]
    exact ⟨ran_listed (by decide), ran_listed (by decide)⟩
  have differ : ¬ (listed 300 [0]).Alike (listed 300 [1]) := by
    intro alike
    have drains := alike.biases ⟨"Vd", "drain", .sweep, .null, .value [0], .null⟩
      (by decide) ⟨"Vd", "drain", .sweep, .null, .value [1], .null⟩ (by decide) rfl
    exact absurd drains.2 (by decide)
  have row := (h plain pageNumbers _ ran).shown 0 1 _ _ rfl rfl differ
  rw [exists_row_iff rfl rfl] at row
  rcases row with name | ⟨text, shown⟩
  · exact name rfl
  · exact shown rfl

end TcadWebapp.Devsim
