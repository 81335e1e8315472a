import TcadWebapp.Devsim.Proofs.Page
import TcadWebapp.Devsim.SpecDiff
import TcadWebapp.Misc.Decimal

/-!
# The texts of a specification

A specification that has run is shown in fields, and what a text tells can be read off it: of a
source its electrode, its role and its voltages (`Told`), of an electrode its interfaces.
-/

namespace TcadWebapp.Devsim

open StrParser

variable {py : Python} {numbers : NumberText}

/-! ## Keys -/

/-- A text of letters and digits. -/
def IsKey (text : Text) : Prop := text ≠ [] ∧ ∀ c ∈ text, c.isAlphanum

theorem isKey_append {word : Text} (h : IsKey word) (k : Nat) :
    IsKey (word ++ (toString k).toList) := by
  refine ⟨by simp [h.1], ?_⟩
  intro c hc
  rcases List.mem_append.mp hc with hc | hc
  · exact h.2 c hc
  · have digit := isDigit_of_mem_toDigits (n := k) (c := c) (by simpa using hc)
    simp [Char.isAlphanum, digit]

theorem isKey_gateName (gates k : Nat) : IsKey (gateName gates k).toList := by
  unfold gateName
  split
  · simp [IsKey]
  · rw [String.toList_append]
    exact isKey_append (by simp [IsKey]) k

theorem isKey_plainName (plain k : Nat) : IsKey (plainName plain k).toList := by
  unfold plainName
  split
  · split <;> simp [IsKey]
  · rw [String.toList_append]
    exact isKey_append (by simp [IsKey]) k

theorem Denotes.isKey {s : Structure Rat} {gateModel : GateModel} {key : String} {one : Electrode}
    (h : Denotes s gateModel key one) : IsKey key.toList := by
  obtain ⟨found, detected, mem, rfl⟩ := h
  obtain ⟨metal, hmetal, detected⟩ := bind_eq_ok.mp detected
  obtain ⟨body, hbody, detected⟩ := bind_eq_ok.mp detected
  obtain rfl := Except.ok.inj detected
  rcases List.mem_append.mp mem with mem | mem
  · obtain ⟨clusters, -, hmetal⟩ := bind_eq_ok.mp hmetal
    obtain ⟨candidates, -, hmetal⟩ := bind_eq_ok.mp hmetal
    obtain rfl := Except.ok.inj hmetal
    rcases name_mem_nameFrom (List.mem_map_of_mem mem) with ⟨k, -, -, e⟩ | ⟨k, -, -, e⟩
    · exact e ▸ isKey_gateName _ k
    · exact e ▸ isKey_plainName _ k
  · rw [(backsideCandidate_edges hbody).2 one (Option.mem_toList.mp mem)]
    simp [IsKey]

/-! ## The texts of numbers -/

namespace NumberText

theorem notMem_text (numbers : NumberText) {c : Char} (digit : c.isDigit = false)
    (other : c ∉ ['.', '-', '+', 'e']) (v : Rat) : c ∉ numbers.text v := by
  intro mem
  rcases numbers.text_plain v c mem with h | h
  · exact Bool.false_ne_true (digit.symm.trans h)
  · exact other h

end NumberText

/-! ## What is told of a source -/

/-- What the text of a source tells of its voltages. -/
inductive Told where
  | const (value : Volt)
  | steps (values : List Volt)
  | range (sweep : ClientSweep)
  | nothing
  deriving DecidableEq

def ClientBias.told (bias : ClientBias) : Told :=
  match bias.role with
  | .const => .const (bias.value.toOption.getD 0)
  | .step => .steps bias.given
  | _ => match bias.sweep.toOption with
    | none => .nothing
    | some sweep => .range sweep

namespace Told

variable (numbers) in
def text : Told → Text
  | .const value => numbers.text value ++ " V 고정".toList
  | .steps values => ", ".toList.intercalate (values.map numbers.text) ++ " V 단계".toList
  | .range sweep => numbers.text sweep.start ++ " → ".toList ++ numbers.text sweep.stop ++
      " V, ".toList ++ numbers.text sweep.points ++ "점 (".toList ++
      numbers.text (numbers.toPrecision |sweepGap sweep.start sweep.stop sweep.points|) ++
      "V 간격)".toList
  | .nothing => "스윕".toList

/-- The character that a text ends with. -/
def mark : Told → Char
  | .const _ => '정'
  | .steps _ => '계'
  | .range _ => ')'
  | .nothing => '윕'

theorem getLast?_text (told : Told) : (told.text numbers).getLast? = some told.mark := by
  cases told with
  | const value =>
    rw [text, List.getLast?_append_of_ne_nil _ (by simp)]
    simp [mark]
  | steps values =>
    rw [text, List.getLast?_append_of_ne_nil _ (by simp)]
    simp [mark]
  | range sweep =>
    rw [text, List.getLast?_append_of_ne_nil _ (by simp)]
    simp [mark]
  | nothing => simp [text, mark]

theorem steps_text_inj {values values' : List Volt} (some : values ≠ []) (some' : values' ≠ [])
    (same : (steps values).text numbers = (steps values').text numbers) : values = values' := by
  have joined := List.append_cancel_right same
  have comma : ∀ values : List Volt, ∀ word ∈ values.map numbers.text, ',' ∉ word := by
    intro values word mem
    obtain ⟨v, -, rfl⟩ := List.mem_map.mp mem
    exact numbers.notMem_text (by decide) (by decide) v
  have words : values.map numbers.text = values'.map numbers.text :=
    intercalate_inj (by simpa using some) (by simpa using some') (comma values) (comma values')
      (by simpa using joined)
  exact List.map_injective_iff.mpr (fun u v => numbers.text_inj u v) words

theorem range_text_inj {sweep sweep' : ClientSweep}
    (same : (range sweep).text numbers = (range sweep').text numbers) : sweep = sweep' := by
  obtain ⟨start, stop, points⟩ := sweep
  obtain ⟨start', stop', points'⟩ := sweep'
  have blank := numbers.notMem_text (c := ' ') (by decide) (by decide)
  have dot := numbers.notMem_text (c := '점') (by decide) (by decide)
  simp only [text, String.reduceToList, List.append_assoc, List.cons_append,
    List.nil_append] at same
  obtain ⟨hstart, same⟩ := append_cons_inj_of_first (blank start) (blank start') same
  simp only [List.cons.injEq, true_and] at same
  obtain ⟨hstop, same⟩ := append_cons_inj_of_first (blank stop) (blank stop') same
  simp only [List.cons.injEq, true_and] at same
  obtain ⟨hpoints, -⟩ := append_cons_inj_of_first (dot points) (dot points') same
  rw [numbers.text_inj _ _ hstart, numbers.text_inj _ _ hstop, numbers.text_inj _ _ hpoints]

/-- The text of a source tells its role and its voltages apart from others. -/
theorem text_inj {told told' : Told} (some : told ≠ .steps []) (some' : told' ≠ .steps [])
    (same : told.text numbers = told'.text numbers) : told = told' := by
  have marks : told.mark = told'.mark := by
    simpa only [getLast?_text, Option.some.injEq] using congrArg List.getLast? same
  cases told with
  | const value =>
    cases told' with
    | const value' => rw [numbers.text_inj _ _ (List.append_cancel_right same)]
    | steps _ | range _ | nothing => simp [mark] at marks
  | steps values =>
    cases told' with
    | steps values' => rw [steps_text_inj (fun e => some (e ▸ rfl)) (fun e => some' (e ▸ rfl)) same]
    | const _ | range _ | nothing => simp [mark] at marks
  | range sweep =>
    cases told' with
    | range sweep' => rw [range_text_inj same]
    | const _ | steps _ | nothing => simp [mark] at marks
  | nothing =>
    cases told' with
    | nothing => rfl
    | const _ | steps _ | range _ => simp [mark] at marks

end Told

theorem formatSweep_eq (bias : ClientBias) : formatSweep numbers bias = bias.told.text numbers := by
  obtain ⟨name, electrode, role, value, values, sweep⟩ := bias
  cases role with
  | const | step => rfl
  | sweep | float => cases sweep <;> rfl

/-! ## Fields -/

/-- What a row is about. -/
inductive Field where
  | gateModel
  | temperature
  | electrode (label : String)
  | source (name : String)
  deriving DecidableEq

def Field.text : Field → Text
  | .gateModel => "폴리 게이트".toList
  | .temperature => "온도".toList
  | .electrode label => "전극 ".toList ++ label.toList
  | .source name => "전압원 ".toList ++ name.toList

theorem Field.text_inj {field field' : Field} (same : field.text = field'.text) :
    field = field' := by
  unfold Field.text at same
  cases field with
  | gateModel =>
    cases field' with
    | gateModel => rfl
    | temperature | electrode _ | source _ => simp at same
  | temperature =>
    cases field' with
    | temperature => rfl
    | gateModel | electrode _ | source _ => simp at same
  | electrode label =>
    cases field' with
    | electrode label' => rw [String.toList_inj.mp (List.append_cancel_left same)]
    | gateModel | temperature | source _ => simp at same
  | source name =>
    cases field' with
    | source name' => rw [String.toList_inj.mp (List.append_cancel_left same)]
    | gateModel | temperature | electrode _ => simp at same

@[simp] theorem Field.text_eq_iff {field field' : Field} :
    field.text = field'.text ↔ field = field' :=
  ⟨Field.text_inj, fun e => e ▸ rfl⟩

namespace ClientSpec

variable (spec : ClientSpec)

/-- The last of the electrodes with a label. -/
def lastElectrode (label : String) : Option ElectrodeChoice :=
  spec.electrodes.reverse.find? (·.label = label)

/-- The last of the sources with a name. -/
def lastSource (name : String) : Option ClientBias := spec.biases.reverse.find? (·.name = name)

variable (numbers) in
/-- The text of a field. -/
def textAt : Field → Option Text
  | .gateModel =>
    some (if spec.gateModel = .value .conductor then "이상 도체".toList else "반도체".toList)
  | .temperature => some (numbers.text (spec.temperatureK.toOption.getD 300) ++ " K".toList)
  | .electrode label => (spec.lastElectrode label).map formatInterfaces
  | .source name => (spec.lastSource name).map fun bias =>
    bias.electrode.toList ++ " · ".toList ++ formatSweep numbers bias

/-- The fields are set in turn, and the last text of each stands. -/
theorem get?_describe (text : Text) : (spec.describe numbers).get? text =
    ((spec.biases.reverse.find? fun bias => (Field.source bias.name).text = text).map fun bias =>
      bias.electrode.toList ++ " · ".toList ++ formatSweep numbers bias).or
    (((spec.electrodes.reverse.find? fun electrode =>
      (Field.electrode electrode.label).text = text).map formatInterfaces).or
    (if text = Field.temperature.text then
      some (numbers.text (spec.temperatureK.toOption.getD 300) ++ " K".toList)
    else if text = Field.gateModel.text then
      some (if spec.gateModel = .value .conductor then "이상 도체".toList else "반도체".toList)
    else none)) := by
  rw [describe, Dict.get?_ofList_append, Dict.get?_ofList_append, Dict.get?_ofList_map_eq,
    Dict.get?_ofList_map_eq, Dict.ofList, Dict.update_cons, Dict.update_cons, Dict.update_nil,
    Dict.get?_set, Dict.get?_set, Dict.get?_empty]
  rfl

theorem get?_describe_text (field : Field) :
    (spec.describe numbers).get? field.text = spec.textAt numbers field := by
  have none {α : Type} (l : List α) : l.find? (fun _ => false) = none :=
    List.find?_eq_none.mpr fun _ _ => Bool.false_ne_true
  rw [get?_describe]
  simp only [Field.text_eq_iff]
  unfold textAt
  cases field with
  | gateModel =>
    simp only [reduceCtorEq, decide_false, none, Option.map_none, Option.none_or, if_true, if_false]
  | temperature =>
    simp only [reduceCtorEq, decide_false, none, Option.map_none, Option.none_or, if_true]
  | electrode label =>
    simp only [reduceCtorEq, decide_false, none, Option.map_none, Option.none_or, if_false,
      Option.or_none, Field.electrode.injEq, lastElectrode]
  | source name =>
    simp only [reduceCtorEq, decide_false, none, Option.map_none, if_false, Option.or_none,
      Field.source.injEq, lastSource]

/-- No more than the fields is shown. -/
theorem get?_describe_eq_none {text : Text} (h : ∀ field : Field, field.text ≠ text) :
    (spec.describe numbers).get? text = none := by
  have none {α : Type} (l : List α) : l.find? (fun _ => false) = none :=
    List.find?_eq_none.mpr fun _ _ => Bool.false_ne_true
  rw [get?_describe]
  simp only [h, decide_false, none, Option.map_none, Option.none_or, (h _).symm, if_false]

end ClientSpec

/-! ## Runs -/

/-- The specification of a run is one that the server has accepted, and whose electrodes it has
    found in the structure of the run. -/
def Ran (py : Python) (run : Compared) : Prop :=
  ∃ (s : Structure Rat) (stored : StoredSpec) (electrodes : List Electrode), stored.Accepted py ∧
    resolveElectrodes py s stored.toDeviceSpec = .ok electrodes ∧ run.spec = stored.sendBack

/-- What is relied on of the voltages of a source. -/
structure ClientBias.Given (bias : ClientBias) : Prop where
  step : bias.role = .step → bias.given ≠ []
  sweep : bias.role = .sweep → (bias.sweep.toOption = none ↔ bias.given ≠ [])
  float : bias.role = .float → bias.sweep.toOption = none

/-- What is relied on of the specification of a run. -/
structure ClientSpec.Sane (spec : ClientSpec) : Prop where
  labels : (spec.electrodes.map ElectrodeChoice.label).Nodup
  once : ∀ choice ∈ spec.electrodes, choice.interfaces.Nodup
  keys : ∀ choice ∈ spec.electrodes, ∀ key ∈ choice.interfaces, IsKey key.toList
  owners : (spec.biases.map ClientBias.electrode).Nodup
  given : ∀ bias ∈ spec.biases, bias.Given

theorem Bias.given_sendBack {bias : Bias} (fits : bias.Fits) : bias.sendBack.Given := by
  have sends := bias.sends_sendBack
  refine ⟨?_, ?_, ?_⟩
  · intro role
    rw [sends.given_eq]
    exact (fits.step role).1
  · intro role
    rw [sends.given_eq, sends.swept_iff]
    exact fits.sweep role
  · intro role
    rw [sends.swept_iff]
    exact (fits.float role).2.2

theorem isKey_of_resolved {s : Structure Rat} {spec : DeviceSpec} {electrodes : List Electrode}
    (resolved : resolveElectrodes py s spec = .ok electrodes) {choice : ElectrodeChoice}
    (mem : choice ∈ spec.electrodes) {key : String} (hk : key ∈ choice.interfaces) :
    IsKey key.toList := by
  obtain ⟨found, detected, h⟩ := bind_eq_ok.mp resolved
  dsimp only at h
  split at h
  · cases h
  · obtain ⟨electrode, -, made⟩ := exists_mem_of_mapM h mem
    obtain ⟨ones, looked, -⟩ := bind_eq_ok.mp made
    obtain ⟨one, -, taken⟩ := exists_mem_of_mapM looked hk
    exact ((findInterface_eq_ok_iff detected).mp taken).isKey

theorem Ran.sane {run : Compared} (ran : Ran py run) : run.spec.Sane := by
  obtain ⟨s, stored, electrodes, accepted, resolved, e⟩ := ran
  have consistent := accepted.device.isConsistent
  have owners : stored.sendBack.biases.map ClientBias.electrode =
      stored.biases.map Bias.electrode := by
    rw [StoredSpec.sendBack, List.map_map]
    rfl
  rw [e]
  refine ⟨consistent.labels, ?_, fun _ mem _ hk => isKey_of_resolved resolved mem hk,
    owners ▸ consistent.electrodes, ?_⟩
  · intro choice mem
    exact (List.nodup_flatMap.mp (consistent_eq_ok.mp accepted.device.consistent).2.1).1 choice mem
  · intro bias mem
    obtain ⟨own, there, rfl⟩ := List.mem_map.mp mem
    have matched := (accepted.device.biasFields own there).2
    exact Bias.given_sendBack (Bias.matchesItsRole_eq_ok.mp matched)

/-! ## The text of an electrode -/

theorem exists_head_of_words {sep : Text} {words : List Text} (some : words ≠ [])
    (keys : ∀ word ∈ words, IsKey word) :
    ∃ c, (sep.intercalate words).head? = Option.some c ∧ c.isAlphanum := by
  obtain ⟨word, words, rfl⟩ := List.exists_cons_of_ne_nil some
  obtain ⟨nonempty, alphanum⟩ := keys word List.mem_cons_self
  obtain ⟨c, rest, rfl⟩ := List.exists_cons_of_ne_nil nonempty
  have hc := alphanum c List.mem_cons_self
  by_cases last : words = []
  · subst last
    exact ⟨c, by rw [List.intercalate_singleton]; rfl, hc⟩
  · rw [List.intercalate_cons_of_ne_nil last]
    exact ⟨c, rfl, hc⟩

/-- The sorted names of the interfaces. -/
def ElectrodeChoice.words (choice : ElectrodeChoice) : List Text :=
  (choice.interfaces.insertionSort (· ≤ ·)).map String.toList

namespace ElectrodeChoice

variable {choice other : ElectrodeChoice}

theorem isKey_words (keys : ∀ key ∈ choice.interfaces, IsKey key.toList) :
    ∀ word ∈ choice.words, IsKey word := by
  intro word mem
  obtain ⟨key, hk, rfl⟩ := List.mem_map.mp mem
  exact keys key ((List.perm_insertionSort _ _).mem_iff.mp hk)

theorem words_eq_iff (once : choice.interfaces.Nodup) (once' : other.interfaces.Nodup) :
    choice.words = other.words ↔ ∀ key, key ∈ choice.interfaces ↔ key ∈ other.interfaces := by
  have perm := List.perm_insertionSort (· ≤ ·) choice.interfaces
  have perm' := List.perm_insertionSort (· ≤ ·) other.interfaces
  constructor
  · intro same key
    have same := List.map_injective_iff.mpr (fun _ _ => String.toList_inj.mp) same
    rw [← perm.mem_iff, same, perm'.mem_iff]
  · intro same
    have sorted : choice.interfaces.insertionSort (· ≤ ·) =
        other.interfaces.insertionSort (· ≤ ·) := by
      refine List.Perm.eq_of_pairwise' (List.pairwise_insertionSort _ _)
        (List.pairwise_insertionSort _ _) ?_
      exact (perm.trans ((List.perm_ext_iff_of_nodup once once').mpr same)).trans perm'.symm
    rw [words, words, sorted]

/-- An electrode without interfaces is told in words that are no keys. -/
theorem formatInterfaces_spec (keys : ∀ key ∈ choice.interfaces, IsKey key.toList) :
    (choice.words = [] ∧ formatInterfaces choice = "계면 없음".toList) ∨
      (choice.words ≠ [] ∧ formatInterfaces choice = " + ".toList.intercalate choice.words ∧
        ∃ c, (formatInterfaces choice).head? = some c ∧ c.isAlphanum) := by
  by_cases none : choice.words = []
  · refine Or.inl ⟨none, ?_⟩
    unfold formatInterfaces
    rw [← words, none]
    rfl
  · obtain ⟨c, head, hc⟩ := exists_head_of_words none (isKey_words keys)
    have shown : formatInterfaces choice = " + ".toList.intercalate choice.words := by
      refine if_neg ?_
      intro empty
      rw [words, empty] at head
      cases head
    exact Or.inr ⟨none, shown, c, shown ▸ head, hc⟩

theorem formatInterfaces_eq_iff (keys : ∀ key ∈ choice.interfaces, IsKey key.toList)
    (keys' : ∀ key ∈ other.interfaces, IsKey key.toList) :
    formatInterfaces choice = formatInterfaces other ↔ choice.words = other.words := by
  have blank : ∀ one : ElectrodeChoice, (∀ key ∈ one.interfaces, IsKey key.toList) →
      ∀ word ∈ one.words, ' ' ∉ word := by
    intro one keys word mem hc
    exact absurd ((isKey_words keys word mem).2 ' ' hc) (by decide)
  constructor
  · intro same
    have other_head {c : Char} (h : "계면 없음".toList.head? = Option.some c) :
        c.isAlphanum = false := by
      simp only [String.reduceToList, List.head?_cons, Option.some.injEq] at h
      exact h ▸ rfl
    rcases formatInterfaces_spec keys with ⟨none, shown⟩ | ⟨some, shown, c, head, hc⟩
    · rcases formatInterfaces_spec keys' with ⟨none', -⟩ | ⟨-, -, c, head, hc⟩
      · rw [none, none']
      · rw [← same, shown] at head
        exact absurd hc (by rw [other_head head]; exact Bool.false_ne_true)
    · rcases formatInterfaces_spec keys' with ⟨none', shown'⟩ | ⟨some', shown', -⟩
      · rw [same, shown'] at head
        exact absurd hc (by rw [other_head head]; exact Bool.false_ne_true)
      · exact intercalate_inj some some' (blank _ keys) (blank _ keys')
          (shown.symm.trans (same.trans shown'))
  · intro same
    unfold formatInterfaces
    rw [← words, ← words, same]

end ElectrodeChoice

/-! ## The text of a source -/

variable (numbers) in
def ClientBias.text (bias : ClientBias) : Text :=
  bias.electrode.toList ++ " · ".toList ++ formatSweep numbers bias

theorem Told.dot_notMem_text (told : Told) : '·' ∉ told.text numbers := by
  have number := numbers.notMem_text (c := '·') (by decide) (by decide)
  cases told with
  | const value => simp [text, number]
  | steps values =>
    have joined : '·' ∉ ", ".toList.intercalate (values.map numbers.text) := by
      apply notMem_intercalate (by simp)
      intro word mem
      obtain ⟨v, -, rfl⟩ := List.mem_map.mp mem
      exact number v
    rw [text, List.mem_append, not_or]
    exact ⟨joined, by simp⟩
  | range sweep => simp [text, number]
  | nothing => simp [text]

theorem ClientBias.Given.told_ne {bias : ClientBias} (given : bias.Given) :
    bias.told ≠ .steps [] := by
  intro empty
  unfold told at empty
  split at empty
  · cases empty
  · rename_i role
    exact given.step role (Told.steps.inj empty)
  · split at empty <;> cases empty

theorem ClientBias.text_eq_iff {bias other : ClientBias} (given : bias.Given)
    (given' : other.Given) :
    bias.text numbers = other.text numbers ↔
      bias.electrode = other.electrode ∧ bias.told = other.told := by
  unfold text
  rw [formatSweep_eq, formatSweep_eq]
  constructor
  · intro same
    have split : ∀ front rest : Text,
        front ++ " · ".toList ++ rest = (front ++ [' ']) ++ '·' :: ' ' :: rest := by
      intro front rest
      simp
    rw [split, split, append_cons_inj_of_last (by simp [Told.dot_notMem_text])
      (by simp [Told.dot_notMem_text])] at same
    obtain ⟨front, back⟩ := same
    exact ⟨String.toList_inj.mp (List.append_cancel_right front),
      Told.text_inj given.told_ne given'.told_ne (List.cons.inj back).2⟩
  · intro same
    rw [same.1, same.2]

end TcadWebapp.Devsim
