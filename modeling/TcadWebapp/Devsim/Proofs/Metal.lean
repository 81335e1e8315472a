import TcadWebapp.Devsim.Proofs.Screening
import TcadWebapp.StrParser.Proofs.Rewrite

/-!
# The search for metal and the parser

Screening searches the bytes of a file before it has them parsed. The search knows one spelling
of a line that declares a region of aluminum (`Spelled`), the parser reads others too.
-/

namespace TcadWebapp.Devsim

open StrParser Text

/-! ## What the search finds -/

section Search

variable {raw rest run : Bytes} {p : UInt8 → Bool}

end Search

/-! ## What the parser finds -/

section Parsed

variable {reader : Reader Rat} {text : Text} {raw : Bytes} {s : Structure Rat}

theorem exists_conducts {gateModel : GateModel} {electrodes : List Electrode}
    (h : detectElectrodes s gateModel = .ok electrodes) (some : electrodes ≠ []) :
    ∃ i, Conducts s gateModel.conductors i := by
  obtain ⟨clusters, clustered, h⟩ := bind_eq_ok.mp h
  obtain ⟨candidates, collected, h⟩ := bind_eq_ok.mp h
  obtain rfl := Except.ok.inj h
  rcases conductorClusters_spec s gateModel.conductors with ⟨-, clusters', found, are⟩ | ⟨-, raised⟩
  · obtain rfl := Except.ok.inj (clustered.symm.trans found)
    cases clusters with
    | nil =>
      obtain rfl := Except.ok.inj collected
      exact absurd rfl some
    | cons cluster rest =>
      obtain ⟨start, mem, -⟩ := (are.each cluster List.mem_cons_self).joined
      exact ⟨start, isConductor_iff.mp ((are.each cluster List.mem_cons_self).conducting start mem)⟩
  · rw [clustered] at raised
    cases raised

theorem exists_region_of_conducts {conductors : List String} {i : Nat} (h : Conducts s conductors i) :
    ∃ r ∈ s.regions, r.material ∈ conductors := by
  obtain ⟨element, -, conducting⟩ := h
  obtain ⟨material, found, mem⟩ := exists_of_any conducting
  obtain ⟨r, hr, e⟩ := List.mem_map.mp (Dict.mem_of_get?_ofList found)
  obtain ⟨-, rfl⟩ := Prod.mk.inj e
  exact ⟨r, hr, mem⟩

theorem eq_of_resolveMaterial {id : Int} (h : resolveMaterial id = metal) : id = 6 := by
  unfold resolveMaterial metal at h
  cases known : materialNames.lookup id with
  | none =>
    rw [known] at h
    have first := congrArg (fun name => name.toList.head?) h
    rw [Option.getD_none, String.toList_append] at first
    cases first
  | some name =>
    rw [known] at h
    obtain rfl := h
    obtain ⟨before, after, split, -⟩ := List.lookup_eq_some_iff.mp known
    have mem : (id, "aluminum") ∈ materialNames := split ▸ by simp
    simpa [materialNames] using mem

/-- Where a contact can be driven, the parser has read a line that declares a region of aluminum. -/
theorem exists_region_line (parsed : parseStructure reader text = .ok s)
    (driveable : hasDriveableContact s = .ok true) :
    ∃ line ∈ text.splitlines, tagOf line = ['r'] ∧ intField reader (fieldsOf line) 1 = .ok 6 := by
  obtain ⟨electrodes, detected, any⟩ := bind_eq_ok.mp driveable
  have some : electrodes ≠ [] := by
    rintro rfl
    cases any
  obtain ⟨i, conducts⟩ := exists_conducts detected some
  obtain ⟨r, hr, isMetal⟩ := exists_region_of_conducts conducts
  obtain ⟨acc, steps, final⟩ := parseStructure_eq_ok.mp parsed
  have declared : acc.Declared reader ([] ++ text.splitlines) :=
    declared_of_steps steps (by simp [Accumulator.Declared, Accumulator.init])
  have same : s.regions = acc.regions := congrArg Structure.regions (finalize_eq_ok.mp final).2
  obtain ⟨named, line, mem, tag, said⟩ := declared r (same ▸ hr)
  rw [List.mem_singleton.mp isMetal] at named
  exact ⟨line, mem, tag, eq_of_resolveMaterial named.symm ▸ said⟩

end Parsed

end TcadWebapp.Devsim
