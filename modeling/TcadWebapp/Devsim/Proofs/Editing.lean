import Mathlib.Data.List.Perm.Subperm
import Mathlib.Data.List.Pairwise
import TcadWebapp.Devsim.Proofs.Page

/-!
# Editing a specification

The five operations keep labels, interfaces and the pairing of electrodes with biases. The names of biases they
keep apart only while no new electrode is given a label that an older bias is named after (`oneToOne_of_run`).
-/

namespace TcadWebapp.Devsim

variable {spec : ClientSpec} {key label : String}

/-- Electrodes and biases belong together one by one, and nothing is named or taken twice. -/
structure OneToOne (spec : ClientSpec) : Prop where
  labels : (spec.electrodes.map ElectrodeChoice.label).Nodup
  /-- An interface is in one electrode at most, and in it once. -/
  interfaces : spec.keys.Nodup
  driven : ∀ electrode ∈ spec.electrodes,
    (spec.biases.filter (·.electrode = electrode.label)).length = 1
  known : ∀ bias ∈ spec.biases, ∃ electrode ∈ spec.electrodes, electrode.label = bias.electrode
  names : (spec.biases.map ClientBias.name).Nodup

/-- The label that a new electrode is to have, if one is added. -/
def Operation.adds : Operation → Option (Option String)
  | .addElectrode label => some label
  | _ => none

/-- No bias has the name that belongs to the new electrode. -/
def NameUnused (x : Taken ClientSpec Operation) : Prop :=
  ∀ label ∈ x.label.adds,
    "V" ++ freeLabel (x.pre.electrodes.map ElectrodeChoice.label) label ∉ x.pre.biases.map ClientBias.name

instance (x : Taken ClientSpec Operation) : Decidable (NameUnused x) :=
  inferInstanceAs (Decidable (∀ label ∈ x.label.adds, _))

/-! ## Labels -/

/-- One of the names that are counted up is free. -/
theorem exists_free (labels : List String) (start : Nat) :
    ∃ k ≤ labels.length, "전극" ++ toString (start + k) ∉ labels := by
  by_contra all
  push Not at all
  have subset : (List.range (labels.length + 1)).map (fun k => "전극" ++ toString (start + k)) ⊆ labels := by
    intro name mem
    obtain ⟨k, hk, rfl⟩ := List.mem_map.mp mem
    exact all k (by have := List.mem_range.mp hk; omega)
  have nodup : ((List.range (labels.length + 1)).map fun k => "전극" ++ toString (start + k)).Nodup := by
    refine List.Nodup.map_on (fun i _ j _ same => ?_) List.nodup_range
    have := toString_nat_inj.mp ((String.append_right_inj _).mp same)
    omega
  have length := (List.subperm_of_subset nodup subset).length_le
  rw [List.length_map, List.length_range] at length
  omega

theorem freeLabel_notMem (labels : List String) (label : Option String) :
    freeLabel labels label ∉ labels := by
  obtain ⟨k, le, free⟩ := exists_free labels (labels.length + 2)
  unfold freeLabel
  dsimp only
  cases found : List.find? (· ∉ labels) (label.getD ("전극" ++ toString (labels.length + 1)) ::
      (List.range (labels.length + 1)).map fun k => "전극" ++ toString (labels.length + 2 + k)) with
  | none =>
    have taken := List.find?_eq_none.mp found ("전극" ++ toString (labels.length + 2 + k))
      (List.mem_cons_of_mem _ (List.mem_map.mpr ⟨k, List.mem_range.mpr (by omega), rfl⟩))
    rw [decide_eq_true_eq] at taken
    exact absurd free taken
  | some name => simpa using List.find?_some found

/-- The page asks for no label. -/
theorem addElectrode_eq (spec : ClientSpec) : spec.addElectrode = spec.addElectrodeAs none := by
  have same : ∀ labels, ClientSpec.newLabel labels = freeLabel labels none := by
    intro labels
    obtain ⟨k, le, free⟩ := exists_free labels (labels.length + 1)
    have longer : ("전극" ++ toString (labels.length + 1)) ::
        (List.range (labels.length + 1)).map (fun k => "전극" ++ toString (labels.length + 2 + k)) =
        (List.range (labels.length + 1 + 1)).map fun k => "전극" ++ toString (labels.length + 1 + k) := by
      rw [@List.range_succ_eq_map (labels.length + 1), List.map_cons, List.map_map]
      refine congrArg (List.cons _) (List.map_congr_left fun k _ => ?_)
      rw [Function.comp_apply, show labels.length + 1 + k.succ = labels.length + 2 + k by omega]
    unfold ClientSpec.newLabel freeLabel
    dsimp only
    rw [Option.getD_none, longer, @List.range_succ (labels.length + 1), List.map_append, List.find?_append]
    cases found : List.find? (· ∉ labels)
        ((List.range (labels.length + 1)).map fun k => "전극" ++ toString (labels.length + 1 + k)) with
    | none =>
      have taken := List.find?_eq_none.mp found ("전극" ++ toString (labels.length + 1 + k))
        (List.mem_map.mpr ⟨k, List.mem_range.mpr (by omega), rfl⟩)
      rw [decide_eq_true_eq] at taken
      exact absurd free taken
    | some name => rfl
  unfold ClientSpec.addElectrode ClientSpec.addElectrodeAs
  rw [same]

/-! ## One operation -/

/-- What all operations keep; each bias is that of the electrode at its place. -/
structure WellPaired (spec : ClientSpec) : Prop where
  labels : (spec.electrodes.map ElectrodeChoice.label).Nodup
  interfaces : spec.keys.Nodup
  paired : spec.biases.map ClientBias.electrode = spec.electrodes.map ElectrodeChoice.label

theorem keys_nodup_iff : spec.keys.Nodup ↔ (∀ electrode ∈ spec.electrodes, electrode.interfaces.Nodup) ∧
    spec.electrodes.Pairwise fun a b => a.interfaces.Disjoint b.interfaces := List.nodup_flatMap

namespace WellPaired

/-- An electrode is the only one with its interfaces. -/
theorem eq_of_interface (kept : WellPaired spec) {a b : ElectrodeChoice} (ha : a ∈ spec.electrodes)
    (hb : b ∈ spec.electrodes) (mem : key ∈ a.interfaces) (mem' : key ∈ b.interfaces) : a = b := by
  have : Std.Symm fun a b : ElectrodeChoice => a.interfaces.Disjoint b.interfaces := ⟨fun _ _ => List.Disjoint.symm⟩
  by_contra ne
  exact (keys_nodup_iff.mp kept.interfaces).2.forall ha hb ne mem mem'

theorem ownerOf_eq (kept : WellPaired spec) {electrode : ElectrodeChoice} (mem : electrode ∈ spec.electrodes)
    (has : key ∈ electrode.interfaces) : spec.ownerOf key = some electrode.label := by
  unfold ClientSpec.ownerOf
  cases found : spec.electrodes.find? fun electrode => key ∈ electrode.interfaces with
  | none => exact absurd has (by simpa using List.find?_eq_none.mp found electrode mem)
  | some other =>
    have has' : key ∈ other.interfaces := by simpa using List.find?_some found
    rw [kept.eq_of_interface (List.mem_of_find?_eq_some found) mem has' has]
    rfl

theorem start {interfaces : List Electrode} (apart : (interfaces.map Electrode.name).Nodup) :
    WellPaired (defaultSpec interfaces) := by
  refine ⟨?_, ?_, ?_⟩
  · show ((interfaces.map fun one => ElectrodeChoice.mk one.name [one.name]).map ElectrodeChoice.label).Nodup
    rwa [List.map_map]
  · rwa [keys_defaultSpec]
  · show (interfaces.map (defaultBias (sweptOf interfaces))).map ClientBias.electrode =
      (interfaces.map fun one => ElectrodeChoice.mk one.name [one.name]).map ElectrodeChoice.label
    rw [List.map_map, List.map_map]
    refine List.map_congr_left fun one _ => ?_
    show (defaultBias (sweptOf interfaces) one).electrode = one.name
    unfold defaultBias
    split
    · rfl
    · split <;> rfl

theorem assignInterface (kept : WellPaired spec) (key label : String) : WellPaired (spec.assignInterface key label) := by
  unfold ClientSpec.assignInterface
  split
  · exact kept
  split
  · exact kept
  rename_i notOwner
  have same : (spec.electrodes.map fun electrode =>
      if electrode.label = label then { electrode with interfaces := electrode.interfaces ++ [key] }
      else { electrode with interfaces := electrode.interfaces.filter (· ≠ key) }).map ElectrodeChoice.label =
      spec.electrodes.map ElectrodeChoice.label := by
    rw [List.map_map]
    refine List.map_congr_left fun electrode _ => ?_
    rw [Function.comp_apply]
    split <;> rfl
  obtain ⟨each, apart⟩ := keys_nodup_iff.mp kept.interfaces
  refine ⟨same ▸ kept.labels, keys_nodup_iff.mpr ⟨?_, ?_⟩, kept.paired.trans same.symm⟩
  · intro electrode mem
    obtain ⟨before, hb, rfl⟩ := List.mem_map.mp mem
    split
    · rename_i here
      -- The key is not there yet, since it has another owner or none.
      refine List.nodup_append.mpr ⟨each before hb, List.nodup_singleton key, ?_⟩
      rintro other has _ is rfl
      obtain rfl := List.mem_singleton.mp is
      exact notOwner (here ▸ kept.ownerOf_eq hb has)
    · exact (each before hb).filter _
  · refine List.pairwise_map.mpr ((apart.and (List.pairwise_map.mp kept.labels)).imp ?_)
    rintro a b ⟨disjoint, ne⟩ other hasa hasb
    have old : ∀ {e : ElectrodeChoice}, other ∈ (if e.label = label then
        { e with interfaces := e.interfaces ++ [key] }
        else { e with interfaces := e.interfaces.filter (· ≠ key) } : ElectrodeChoice).interfaces →
        (other ∈ e.interfaces ∧ other ≠ key) ∨ (e.label = label ∧ (other ∈ e.interfaces ∨ other = key)) := by
      intro e has
      split at has
      · rename_i here
        exact Or.inr ⟨here, by simpa using has⟩
      · exact Or.inl (by simpa using has)
    rcases old hasa with ⟨ina, notKey⟩ | ⟨herea, ina⟩
    · rcases old hasb with ⟨inb, -⟩ | ⟨-, inb⟩
      · exact disjoint ina inb
      · exact disjoint ina (inb.resolve_right notKey)
    · rcases old hasb with ⟨inb, notKey⟩ | ⟨hereb, -⟩
      · exact disjoint (ina.resolve_right notKey) inb
      · exact ne (herea.trans hereb.symm)

theorem unassignInterface (kept : WellPaired spec) (key : String) : WellPaired (spec.unassignInterface key) := by
  have same : (spec.unassignInterface key).electrodes.map ElectrodeChoice.label =
      spec.electrodes.map ElectrodeChoice.label := by
    unfold ClientSpec.unassignInterface
    rw [List.map_map]
    rfl
  obtain ⟨each, apart⟩ := keys_nodup_iff.mp kept.interfaces
  refine ⟨same ▸ kept.labels, keys_nodup_iff.mpr ⟨?_, ?_⟩, kept.paired.trans same.symm⟩
  · intro electrode mem
    obtain ⟨before, hb, rfl⟩ := List.mem_map.mp mem
    exact (each before hb).filter _
  · refine List.pairwise_map.mpr (apart.imp ?_)
    intro a b disjoint other hasa hasb
    exact disjoint (List.mem_of_mem_filter hasa) (List.mem_of_mem_filter hasb)

theorem addElectrodeAs (kept : WellPaired spec) (label : Option String) : WellPaired (spec.addElectrodeAs label) := by
  refine ⟨?_, ?_, ?_⟩
  · show ((spec.electrodes ++ [_]).map ElectrodeChoice.label).Nodup
    rw [List.map_append, List.map_singleton, ← List.concat_eq_append]
    exact kept.labels.concat (freeLabel_notMem _ label)
  · show ((spec.electrodes ++ [_]).flatMap ElectrodeChoice.interfaces).Nodup
    rw [List.flatMap_append, List.flatMap_singleton, List.append_nil]
    exact kept.interfaces
  · show (spec.biases ++ [_]).map ClientBias.electrode = (spec.electrodes ++ [_]).map ElectrodeChoice.label
    rw [List.map_append, List.map_append, kept.paired]
    rfl

theorem removeElectrode (kept : WellPaired spec) (label : String) : WellPaired (spec.removeElectrode label) := by
  obtain ⟨each, apart⟩ := keys_nodup_iff.mp kept.interfaces
  refine ⟨kept.labels.sublist (List.filter_sublist.map _), keys_nodup_iff.mpr ⟨?_, ?_⟩, ?_⟩
  · exact fun electrode mem => each electrode (List.mem_of_mem_filter mem)
  · exact apart.sublist List.filter_sublist
  · have filtered := congrArg (List.filter (· ≠ label)) kept.paired
    rwa [List.filter_map, List.filter_map] at filtered

theorem renameElectrode (kept : WellPaired spec) (src dst : String) : WellPaired (spec.renameElectrode src dst) := by
  have interfaces : (spec.renameElectrode src dst).keys.Nodup := by
    rw [ClientSpec.keys_renameElectrode]
    exact kept.interfaces
  revert interfaces
  unfold ClientSpec.renameElectrode
  split
  · exact fun _ => kept
  rename_i free
  intro interfaces
  have notMem : dst ∉ spec.electrodes.map ElectrodeChoice.label := by
    intro mem
    obtain ⟨electrode, he, is⟩ := List.mem_map.mp mem
    exact free (Or.inr (List.any_eq_true.mpr ⟨electrode, he, decide_eq_true is⟩))
  have labels : (spec.electrodes.map fun electrode =>
      if electrode.label = src then { electrode with label := dst } else electrode).map ElectrodeChoice.label =
      (spec.electrodes.map ElectrodeChoice.label).map fun l => if l = src then dst else l := by
    rw [List.map_map, List.map_map]
    refine List.map_congr_left fun electrode _ => ?_
    rw [Function.comp_apply, Function.comp_apply]
    split <;> rfl
  refine ⟨?_, interfaces, ?_⟩
  · rw [labels]
    refine List.Nodup.map_on (fun a ha b hb same => ?_) kept.labels
    split at same
    · rename_i isa
      split at same
      · rename_i isb
        exact isa.trans isb.symm
      · exact absurd (same ▸ hb) notMem
    · split at same
      · exact absurd (same ▸ ha) notMem
      · exact same
  · show (spec.biases.map fun bias => _).map ClientBias.electrode = _
    rw [labels, ← kept.paired, List.map_map, List.map_map]
    refine List.map_congr_left fun bias _ => ?_
    rw [Function.comp_apply, Function.comp_apply]
    split <;> rfl

theorem apply (kept : WellPaired spec) (operation : Operation) : WellPaired (operation.apply spec) := by
  cases operation with
  | assignInterface key label => exact kept.assignInterface key label
  | unassignInterface key => exact kept.unassignInterface key
  | addElectrode label => exact kept.addElectrodeAs label
  | removeElectrode label => exact kept.removeElectrode label
  | renameElectrode src dst => exact kept.renameElectrode src dst

end WellPaired

/-! ## The names of biases -/

/-- The names of biases are their own after an operation if they were before, and a new one is. -/
theorem names_apply {operation : Operation} (names : (spec.biases.map ClientBias.name).Nodup)
    (fresh : ∀ label ∈ operation.adds,
      "V" ++ freeLabel (spec.electrodes.map ElectrodeChoice.label) label ∉ spec.biases.map ClientBias.name) :
    ((operation.apply spec).biases.map ClientBias.name).Nodup := by
  cases operation with
  | assignInterface key label =>
    show ((spec.assignInterface key label).biases.map ClientBias.name).Nodup
    unfold ClientSpec.assignInterface
    split
    · exact names
    · split <;> exact names
  | unassignInterface key => exact names
  | addElectrode label =>
    show ((spec.biases ++ [_]).map ClientBias.name).Nodup
    rw [List.map_append, List.map_singleton, ← List.concat_eq_append]
    exact names.concat (fresh label rfl)
  | removeElectrode label => exact names.sublist (List.filter_sublist.map _)
  | renameElectrode src dst =>
    show ((spec.renameElectrode src dst).biases.map ClientBias.name).Nodup
    unfold ClientSpec.renameElectrode
    split
    · exact names
    · show ((spec.biases.map fun bias => _).map ClientBias.name).Nodup
      rw [List.map_map]
      refine (List.map_congr_left fun bias _ => ?_).symm ▸ names
      rw [Function.comp_apply]
      split <;> rfl

/-! ## Runs -/

theorem WellPaired.oneToOne (kept : WellPaired spec) (names : (spec.biases.map ClientBias.name).Nodup) : OneToOne spec where
  labels := kept.labels
  interfaces := kept.interfaces
  driven := by
    intro electrode mem
    have once := List.count_eq_one_of_mem kept.labels (List.mem_map_of_mem mem)
    rw [← kept.paired, List.count, List.countP_map, List.countP_eq_length_filter] at once
    refine (congrArg List.length (List.filter_congr fun bias _ => ?_)).trans once
    rw [Function.comp_apply, beq_eq_decide]
  known := by
    intro bias mem
    have there := List.mem_map_of_mem (f := ClientBias.electrode) mem
    rw [kept.paired] at there
    exact List.mem_map.mp there
  names := names

theorem names_defaultSpec {interfaces : List Electrode} (apart : (interfaces.map Electrode.name).Nodup) :
    ((defaultSpec interfaces).biases.map ClientBias.name).Nodup := by
  have named : (defaultSpec interfaces).biases.map ClientBias.name =
      (interfaces.map Electrode.name).map fun name => "V" ++ name := by
    show (interfaces.map (defaultBias (sweptOf interfaces))).map ClientBias.name = _
    rw [List.map_map, List.map_map]
    refine List.map_congr_left fun one _ => ?_
    show (defaultBias (sweptOf interfaces) one).name = "V" ++ one.name
    unfold defaultBias
    split
    · rfl
    · split <;> rfl
  rw [named]
  exact apart.map fun a b same => (String.append_right_inj _).mp same

/-- In every run in which no new electrode shares the name of its bias, electrodes and biases belong
together one by one. -/
theorem oneToOne_of_run {h : List (Taken ClientSpec Operation)} (run : editing.Run h spec)
    (fresh : ∀ x ∈ h, NameUnused x) : OneToOne spec := by
  have both := @Lts.Run.invariant_of_guard _ _ editing
    (fun spec => WellPaired spec ∧ (spec.biases.map ClientBias.name).Nodup) NameUnused ?_ ?_ h spec run fresh
  · exact both.1.oneToOne both.2
  · rintro spec ⟨interfaces, apart, rfl⟩
    exact ⟨WellPaired.start apart, names_defaultSpec apart⟩
  · rintro spec operation next ⟨kept, names⟩ step fresh
    obtain rfl := Option.some.inj step
    exact ⟨kept.apply operation, names_apply names fresh⟩

/-- A gate without edges. -/
def gateAlone : Electrode := ⟨"gate", .insulator, ["oxide"], [], ⟨0, 1, 0, 1⟩, "metal"⟩

/-- An output is added to the gate, and another electrode to both. -/
theorem oneToOne_of_run_output : ∃ h spec, editing.exec (defaultSpec [gateAlone])
    [.addElectrode none, .renameElectrode "전극2" "출력", .addElectrode none] = some (h, spec) ∧
      OneToOne spec := by
  have possible : ∃ r ∈ editing.exec (defaultSpec [gateAlone])
      [.addElectrode none, .renameElectrode "전극2" "출력", .addElectrode none], ∀ x ∈ r.1, NameUnused x := by
    decide
  obtain ⟨r, ran, fresh⟩ := possible
  exact ⟨r.1, r.2, ran, oneToOne_of_run (Lts.Run.of_exec ⟨[gateAlone], by decide, rfl⟩ ran) fresh⟩

/-- With the gate removed, the next electrode is given the label that the output had, and the bias of the output
is still named after it. -/
theorem not_oneToOne_of_run : ¬ ∀ (h : List (Taken ClientSpec Operation)) (spec : ClientSpec),
    editing.Run h spec → OneToOne spec := by
  intro all
  have twice : ∃ r ∈ editing.exec (defaultSpec [gateAlone]) [.addElectrode none, .renameElectrode "전극2" "출력",
      .removeElectrode "gate", .addElectrode none], ¬ (r.2.biases.map ClientBias.name).Nodup := by
    decide
  obtain ⟨r, ran, twice⟩ := twice
  exact twice (all r.1 r.2 (Lts.Run.of_exec ⟨[gateAlone], by decide, rfl⟩ ran)).names

end TcadWebapp.Devsim
