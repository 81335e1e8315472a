import TcadWebapp.Devsim.Page
import TcadWebapp.Devsim.Proofs.ClientSpec
import TcadWebapp.Devsim.Proofs.Contacts
import TcadWebapp.Misc.Decimal

/-!
# What is drawn and what is solved

The names of the interfaces are unique, so that each key stands for one set of edges under one
gate model. What the page draws for a key is what the server solves if both use the same one.
-/

namespace TcadWebapp.Devsim

open StrParser

variable {py : Python} {s : Structure Rat}

/-! ## Unique names -/

theorem gateName_inj {gates j k : Nat} (hj : 0 < j ∧ j ≤ gates) (hk : 0 < k ∧ k ≤ gates)
    (h : gateName gates j = gateName gates k) : j = k := by
  unfold gateName at h
  split at h
  · omega
  · exact toString_nat_inj.mp ((String.append_right_inj _).mp h)

theorem plainName_inj {plain j k : Nat} (hj : 0 < j ∧ j ≤ plain) (hk : 0 < k ∧ k ≤ plain)
    (h : plainName plain j = plainName plain k) : j = k := by
  unfold plainName at h
  split at h
  · split at h <;> split at h
    · omega
    · simp at h
    · simp at h
    · omega
  · exact toString_nat_inj.mp ((String.append_right_inj _).mp h)

theorem gateName_ne_plainName (gates plain j k : Nat) : gateName gates j ≠ plainName plain k := by
  intro same
  have heads := congrArg (fun text => text.toList.head?) same
  unfold gateName plainName at heads
  split at heads <;> split at heads
  · split at heads <;> simp at heads
  · simp at heads
  · split at heads <;> simp at heads
  · simp at heads

/-- What the names are, counted on from `g` gates and `p` others. -/
theorem name_mem_nameFrom {gates plain : Nat} {candidates : List Candidate} {g p : Nat} {name : String}
    (h : name ∈ (nameFrom gates plain candidates g p).map Electrode.name) :
    (∃ k, g < k ∧ k ≤ g + candidates.countP Candidate.looksLikeGate ∧ name = gateName gates k) ∨
      ∃ k, p < k ∧ k ≤ p + candidates.countP (fun c => !c.looksLikeGate) ∧ name = plainName plain k := by
  induction candidates generalizing g p with
  | nil => cases h
  | cons c rest ih =>
    unfold nameFrom at h
    split at h
    · rename_i gate
      rw [List.countP_cons_of_pos gate, List.countP_cons_of_neg (by simp [gate])]
      rcases List.mem_cons.mp h with rfl | h
      · exact Or.inl ⟨g + 1, by omega, by omega, rfl⟩
      · rcases ih h with ⟨k, low, high, e⟩ | ⟨k, low, high, e⟩
        · exact Or.inl ⟨k, by omega, by omega, e⟩
        · exact Or.inr ⟨k, low, high, e⟩
    · rename_i gate
      rw [List.countP_cons_of_neg gate, List.countP_cons_of_pos (by simp [gate])]
      rcases List.mem_cons.mp h with rfl | h
      · exact Or.inr ⟨p + 1, by omega, by omega, rfl⟩
      · rcases ih h with ⟨k, low, high, e⟩ | ⟨k, low, high, e⟩
        · exact Or.inl ⟨k, low, high, e⟩
        · exact Or.inr ⟨k, by omega, by omega, e⟩

theorem nodup_nameFrom {gates plain : Nat} {candidates : List Candidate} {g p : Nat}
    (hg : g + candidates.countP Candidate.looksLikeGate ≤ gates)
    (hp : p + candidates.countP (fun c => !c.looksLikeGate) ≤ plain) :
    ((nameFrom gates plain candidates g p).map Electrode.name).Nodup := by
  induction candidates generalizing g p with
  | nil => exact List.nodup_nil
  | cons c rest ih =>
    unfold nameFrom
    split
    · rename_i gate
      rw [List.countP_cons_of_pos gate] at hg
      rw [List.countP_cons_of_neg (by simp [gate])] at hp
      rw [List.map_cons, List.nodup_cons]
      refine ⟨?_, ih (by omega) hp⟩
      intro again
      rcases name_mem_nameFrom again with ⟨k, low, high, e⟩ | ⟨k, -, -, e⟩
      · have := gateName_inj (by omega) (by omega) e
        omega
      · exact gateName_ne_plainName _ _ _ _ e
    · rename_i gate
      rw [List.countP_cons_of_neg gate] at hg
      rw [List.countP_cons_of_pos (by simp [gate])] at hp
      rw [List.map_cons, List.nodup_cons]
      refine ⟨?_, ih hg (by omega)⟩
      intro again
      rcases name_mem_nameFrom again with ⟨k, -, -, e⟩ | ⟨k, low, high, e⟩
      · exact gateName_ne_plainName _ _ _ _ e.symm
      · have := plainName_inj (by omega) (by omega) e
        omega

theorem nodup_nameElectrodes (candidates : List Candidate) :
    ((nameElectrodes candidates).map Electrode.name).Nodup :=
  nodup_nameFrom (by omega) (by omega)

/-- No two interfaces of a structure have one name. -/
theorem nodup_detectInterfaces {gateModel : GateModel} {found : List Electrode}
    (h : detectInterfaces s gateModel = .ok found) : (found.map Electrode.name).Nodup := by
  obtain ⟨metal, hmetal, h⟩ := bind_eq_ok.mp h
  obtain ⟨body, hbody, h⟩ := bind_eq_ok.mp h
  obtain rfl := Except.ok.inj h
  have nodup : (metal.map Electrode.name).Nodup := by
    obtain ⟨clusters, -, h⟩ := bind_eq_ok.mp hmetal
    obtain ⟨candidates, -, h⟩ := bind_eq_ok.mp h
    obtain rfl := Except.ok.inj h
    exact nodup_nameElectrodes _
  rw [List.map_append, List.nodup_append]
  refine ⟨nodup, ?_, ?_⟩
  · cases body <;> simp
  · intro name hname name' hname' same
    obtain ⟨electrode, he, rfl⟩ := List.mem_map.mp hname
    obtain ⟨back, hb, rfl⟩ := List.mem_map.mp hname'
    have back' : body = some back := by simpa using hb
    have called := (backsideCandidate_edges hbody).2 back back'
    exact (detectElectrodes_edges hmetal he).1 (same.trans called)

/-! ## The interface of a key -/

variable {gateModel : GateModel} {found : List Electrode} {one : Electrode} {key : String}

/-- The interface that a key stands for under a gate model. -/
def Denotes (s : Structure Rat) (gateModel : GateModel) (key : String) (one : Electrode) : Prop :=
  ∃ found, detectInterfaces s gateModel = .ok found ∧ one ∈ found ∧ one.name = key

theorem Denotes.unique {other : Electrode} (h : Denotes s gateModel key one)
    (h' : Denotes s gateModel key other) : one = other := by
  obtain ⟨found, detected, mem, rfl⟩ := h
  obtain ⟨found', detected', mem', name⟩ := h'
  obtain rfl := Except.ok.inj (detected.symm.trans detected')
  exact (List.inj_on_of_nodup_map (nodup_detectInterfaces detected) mem' mem name).symm

theorem get?_availableOf_iff (detected : detectInterfaces s gateModel = .ok found) :
    (availableOf found).get? key = some one ↔ one ∈ found ∧ one.name = key := by
  refine ⟨get?_availableOf, ?_⟩
  rintro ⟨mem, rfl⟩
  exact Dict.get?_ofList_map (fun _ ha _ hb name =>
    List.inj_on_of_nodup_map (nodup_detectInterfaces detected) ha hb name) mem

/-- What the server finds for a key, if it finds anything. -/
theorem findInterface_eq_ok_iff (detected : detectInterfaces s gateModel = .ok found) :
    findInterface py (availableOf found) key = .ok one ↔ Denotes s gateModel key one := by
  have denotes : Denotes s gateModel key one ↔ one ∈ found ∧ one.name = key := by
    constructor
    · rintro ⟨found', detected', h⟩
      exact Except.ok.inj (detected.symm.trans detected') ▸ h
    · exact fun h => ⟨found, detected, h⟩
  rw [denotes, ← get?_availableOf_iff detected]
  unfold findInterface
  cases (availableOf found).get? key <;> simp

/-- The names are there under `available`, each once; the check in `resolve_electrodes` finds
    nothing. -/
theorem length_keys_availableOf (detected : detectInterfaces s gateModel = .ok found) :
    (availableOf found).keys.length = found.length := by
  rw [← List.length_map Electrode.name]
  apply List.Perm.length_eq
  refine (List.perm_ext_iff_of_nodup (availableOf found).nodup (nodup_detectInterfaces detected)).mpr ?_
  intro name
  refine Dict.mem_keys.trans ?_
  rw [List.mem_map]
  exact exists_congr fun one => get?_availableOf_iff detected

/-! ## The keys of a specification -/

namespace ClientSpec

variable {spec : ClientSpec}

theorem keys_assignInterface {key label other : String}
    (h : other ∈ (spec.assignInterface key label).keys) : other ∈ spec.keys ∨ other = key := by
  unfold assignInterface at h
  split at h
  · exact Or.inl h
  · split at h
    · exact Or.inl h
    · obtain ⟨choice, hc, mem⟩ := List.mem_flatMap.mp h
      obtain ⟨before, hb, rfl⟩ := List.mem_map.mp hc
      split at mem
      · rcases List.mem_append.mp mem with mem | mem
        · exact Or.inl (List.mem_flatMap.mpr ⟨before, hb, mem⟩)
        · exact Or.inr (List.mem_singleton.mp mem)
      · exact Or.inl (List.mem_flatMap.mpr ⟨before, hb, List.mem_of_mem_filter mem⟩)

theorem keys_addElectrode (spec : ClientSpec) : spec.addElectrode.keys = spec.keys := by
  simp [addElectrode, keys]

theorem keys_createFor {key other : String} (h : other ∈ (spec.createFor key).keys) :
    other ∈ spec.keys ∨ other = key := by
  unfold createFor at h
  dsimp only at h
  split at h
  · rw [← keys_addElectrode]
    exact keys_assignInterface h
  · rw [keys_addElectrode] at h
    exact Or.inl h

theorem keys_renameElectrode (spec : ClientSpec) (src dst : String) : (spec.renameElectrode src dst).keys = spec.keys := by
  unfold renameElectrode
  split
  · rfl
  · rw [keys, keys, List.flatMap_map]
    congr 1
    funext electrode
    split <;> rfl

end ClientSpec

/-- An edit takes no interfaces but those that are drawn. -/
theorem Edit.keys_apply {interfaces : List Electrode} {spec : ClientSpec} {edit : Edit}
    (picks : edit.picks interfaces) {key : String} (h : key ∈ (edit.apply spec).keys) :
    key ∈ spec.keys ∨ key ∈ interfaces.map Electrode.name := by
  have drawn : ∀ key, interfaces.any (·.name = key) → key ∈ interfaces.map Electrode.name := by
    intro key any
    obtain ⟨one, mem, name⟩ := List.any_eq_true.mp any
    exact List.mem_map.mpr ⟨one, mem, of_decide_eq_true name⟩
  cases edit with
  | assign picked label =>
    rcases ClientSpec.keys_assignInterface h with h | rfl
    · exact Or.inl h
    · exact Or.inr (drawn key picks)
  | unassign picked =>
    obtain ⟨choice, hc, mem⟩ := List.mem_flatMap.mp h
    obtain ⟨before, hb, rfl⟩ := List.mem_map.mp hc
    exact Or.inl (List.mem_flatMap.mpr ⟨before, hb, List.mem_of_mem_filter mem⟩)
  | create picked =>
    rcases ClientSpec.keys_createFor h with h | rfl
    · exact Or.inl h
    · exact Or.inr (drawn key picks)
  | add => exact Or.inl (spec.keys_addElectrode ▸ h)
  | remove label =>
    obtain ⟨choice, hc, mem⟩ := List.mem_flatMap.mp h
    exact Or.inl (List.mem_flatMap.mpr ⟨choice, List.mem_of_mem_filter hc, mem⟩)
  | rename src dst => exact Or.inl (spec.keys_renameElectrode src dst ▸ h)
  | name names => exact Or.inl h
  | bias place one => exact Or.inl h

/-- And it leaves the gate model. -/
theorem Edit.gateModel_apply (spec : ClientSpec) (edit : Edit) :
    (edit.apply spec).gateModel = spec.gateModel := by
  have assign : ∀ (spec : ClientSpec) (key label : String),
      (spec.assignInterface key label).gateModel = spec.gateModel := by
    intro spec key label
    unfold ClientSpec.assignInterface
    split
    · rfl
    · split <;> rfl
  cases edit with
  | assign key label => exact assign spec key label
  | unassign key => rfl
  | create key =>
    unfold Edit.apply ClientSpec.createFor
    dsimp only
    split
    · exact assign _ _ _
    · rfl
  | add => rfl
  | remove label => rfl
  | rename src dst =>
    unfold Edit.apply ClientSpec.renameElectrode
    dsimp only
    split <;> rfl
  | name names => rfl
  | bias place one => rfl

/-! ## A page that has loaded -/

/-- What is known of a specification on the page: the interfaces are drawn under the gate model
    that is chosen, and each key is drawn or was there when the specification was kept. -/
structure Page.Loaded (page : Page) (spec : ClientSpec) : Prop where
  drawn : detectInterfaces page.selected page.gateModel = .ok page.interfaces
  keys : ∀ key ∈ spec.keys, key ∈ page.interfaces.map Electrode.name ∨
    ∃ gateModel one, spec.gateModel = .value gateModel ∧ Denotes page.selected gateModel key one

structure Page.Sound (page : Page) : Prop where
  awaited : ∀ queried, page.awaited = some queried → queried = page.gateModel
  spec : ∀ spec, page.spec = some spec → page.Loaded spec

theorem keys_defaultSpec (interfaces : List Electrode) :
    (defaultSpec interfaces).keys = interfaces.map Electrode.name := by
  rw [ClientSpec.keys, defaultSpec, List.flatMap_map, List.map_eq_flatMap]

theorem denotes_of_restorable {stored : DeviceSpec} (h : restorable py s stored = .ok ())
    {choice : ElectrodeChoice} (hc : choice ∈ stored.electrodes) {key : String}
    (hk : key ∈ choice.interfaces) : ∃ one, Denotes s stored.gateModel key one := by
  obtain ⟨found, detected, h⟩ := bind_eq_ok.mp h
  obtain ⟨all, looked, -⟩ := bind_eq_ok.mp h
  obtain ⟨one, -, each⟩ := exists_mem_of_mapM looked hc
  obtain ⟨one, -, taken⟩ := exists_mem_of_mapM each hk
  exact ⟨one, (findInterface_eq_ok_iff detected).mp taken⟩

theorem Page.sound_load (page : Page) : page.load.Sound := by
  refine ⟨?_, ?_⟩
  · intro queried same
    exact (Option.some.inj same).symm
  · intro spec held
    cases held

theorem Page.Sound.settled {page : Page} (sound : page.Sound) : { page with awaited := none }.Sound := by
  refine ⟨fun _ same => absurd same (by simp), ?_⟩
  intro spec held
  exact ⟨(sound.spec spec held).drawn, (sound.spec spec held).keys⟩

/-- One step of the page keeps it sound. -/
theorem Page.sound_step {page page' : Page} {action : PageAction} (sound : page.Sound)
    (h : page.step py action = some page') : page'.Sound := by
  cases action with
  | select s =>
    obtain rfl := Option.some.inj h
    exact Page.sound_load _
  | choose gateModel =>
    unfold Page.step at h
    dsimp only at h
    split at h
    · cases h
    · obtain rfl := Option.some.inj h
      exact Page.sound_load _
  | arrive stored =>
    unfold Page.step at h
    dsimp only at h
    split at h
    · cases h
    · rename_i queried awaited
      have query := sound.awaited queried awaited
      split at h
      · rename_i restores
        split at h
        · obtain rfl := Option.some.inj h
          exact sound.settled
        · rename_i found detected
          obtain rfl := Option.some.inj h
          refine ⟨fun _ same => absurd same (by simp), ?_⟩
          intro spec held
          obtain rfl := Option.some.inj held
          rw [query] at detected
          refine ⟨detected, ?_⟩
          intro key mem
          cases stored with
          | none =>
            rw [Option.map_none, Option.getD_none, keys_defaultSpec] at mem
            exact Or.inl mem
          | some stored =>
            obtain ⟨choice, hc, hk⟩ := List.mem_flatMap.mp mem
            obtain ⟨one, denotes⟩ := denotes_of_restorable (restores stored rfl).2 hc hk
            exact Or.inr ⟨stored.gateModel, one, rfl, denotes⟩
      · cases h
  | fail =>
    obtain ⟨queried, -, rfl⟩ := Option.map_eq_some_iff.mp h
    exact sound.settled
  | edit edit =>
    unfold Page.step at h
    dsimp only at h
    split at h
    · cases h
    · rename_i spec held
      split at h
      · rename_i picks
        obtain rfl := Option.some.inj h
        refine ⟨sound.awaited, ?_⟩
        intro spec' held'
        obtain rfl := Option.some.inj held'
        have loaded := sound.spec spec held
        refine ⟨loaded.drawn, ?_⟩
        intro key mem
        rcases Edit.keys_apply picks mem with mem | mem
        · rw [Edit.gateModel_apply]
          exact loaded.keys key mem
        · exact Or.inl mem
      · cases h

theorem Page.inductive_sound (py : Python) : (Page.lts py).Inductive Page.Sound where
  start page start := by
    obtain ⟨model, awaited, -, none⟩ := start
    refine ⟨?_, ?_⟩
    · intro queried same
      rw [awaited] at same
      exact (Option.some.inj same).symm.trans model.symm
    · intro spec held
      rw [none] at held
      cases held
  step _ _ _ := Page.sound_step

/-! ## Drawn and solved -/

/-- The edges that are drawn for a key. -/
def Page.Draws (page : Page) (key : String) (edge : ContactEdge) : Prop :=
  ∃ shown ∈ page.interfaces, shown.name = key ∧ edge ∈ shown.edges

/-- Each key of a specification is resolved, to the edges that are drawn for it, and so each
    electrode that `resolve_electrodes` makes has the edges that are drawn for its keys. -/
structure ShownIsSolved (py : Python) (page : Page) (spec : DeviceSpec) : Prop where
  keys : ∀ choice ∈ spec.electrodes, ∀ key ∈ choice.interfaces,
    key ∈ page.interfaces.map Electrode.name ∧
    ∃ found solved, detectInterfaces page.selected spec.gateModel = .ok found ∧
      (availableOf found).keys.length = found.length ∧
      findInterface py (availableOf found) key = .ok solved ∧
      ∀ edge, edge ∈ solved.edges ↔ page.Draws key edge
  electrodes : ∀ electrodes, resolveElectrodes py page.selected spec = .ok electrodes →
    List.Forall₂ (fun choice electrode => ∀ edge, edge ∈ electrode.edges ↔
      ∃ key ∈ choice.interfaces, page.Draws key edge) spec.electrodes electrodes

/-- The two gate models find the same edges for each key of a specification. -/
def SameUnderBoth (s : Structure Rat) (spec : DeviceSpec) : Prop :=
  ∀ choice ∈ spec.electrodes, ∀ key ∈ choice.interfaces, ∃ plain poly,
    Denotes s .semiconductor key plain ∧ Denotes s .conductor key poly ∧
      ∀ edge, edge ∈ plain.edges ↔ edge ∈ poly.edges

section Loaded

variable {page : Page} {sent : ClientSpec} {received : StoredSpec}

theorem Page.draws_iff (drawn : detectInterfaces page.selected page.gateModel = .ok page.interfaces)
    (h : Denotes page.selected page.gateModel key one) {edge : ContactEdge} :
    page.Draws key edge ↔ edge ∈ one.edges := by
  constructor
  · rintro ⟨shown, mem, name, he⟩
    rw [h.unique ⟨_, drawn, mem, name⟩]
    exact he
  · intro he
    obtain ⟨found, detected, mem, name⟩ := h
    rw [Except.ok.inj (detected.symm.trans drawn)] at mem
    exact ⟨one, mem, name, he⟩

/-- What a resolved electrode is made of. -/
theorem edges_of_resolveElectrodes {spec : DeviceSpec} {electrodes : List Electrode}
    (h : resolveElectrodes py s spec = .ok electrodes) :
    List.Forall₂ (fun choice electrode => ∀ edge, edge ∈ electrode.edges ↔
      ∃ key ∈ choice.interfaces, ∃ one, Denotes s spec.gateModel key one ∧ edge ∈ one.edges)
      spec.electrodes electrodes := by
  obtain ⟨found, detected, h⟩ := bind_eq_ok.mp h
  dsimp only at h
  split at h
  · cases h
  · refine (mapM_eq_ok.mp h).imp fun choice electrode made => ?_
    obtain ⟨ones, looked, made⟩ := bind_eq_ok.mp made
    dsimp only at made
    split at made
    · cases made
    · obtain ⟨extent, -, made⟩ := bind_eq_ok.mp made
      obtain rfl := Except.ok.inj made
      intro edge
      rw [List.mem_flatMap]
      constructor
      · rintro ⟨one, mem, he⟩
        obtain ⟨key, hk, taken⟩ := exists_of_mem_mapM looked mem
        exact ⟨key, hk, one, (findInterface_eq_ok_iff detected).mp taken, he⟩
      · rintro ⟨key, hk, one, denotes, he⟩
        obtain ⟨taken, mem, h⟩ := exists_mem_of_mapM looked hk
        rw [denotes.unique ((findInterface_eq_ok_iff detected).mp h)] at he
        exact ⟨taken, mem, he⟩

/-- What is drawn is solved just if each key is drawn and denotes the edges that are drawn. -/
theorem shownIsSolved_iff_denotes {spec : DeviceSpec}
    (drawn : detectInterfaces page.selected page.gateModel = .ok page.interfaces) :
    ShownIsSolved py page spec ↔ ∀ choice ∈ spec.electrodes, ∀ key ∈ choice.interfaces, ∃ shown solved,
      Denotes page.selected page.gateModel key shown ∧ Denotes page.selected spec.gateModel key solved ∧
        ∀ edge, edge ∈ solved.edges ↔ edge ∈ shown.edges := by
  constructor
  · intro h choice hc key hk
    obtain ⟨there, found, solved, detected, -, taken, same⟩ := h.keys choice hc key hk
    obtain ⟨shown, mem, name⟩ := List.mem_map.mp there
    have denotes : Denotes page.selected page.gateModel key shown := ⟨_, drawn, mem, name⟩
    refine ⟨shown, solved, denotes, (findInterface_eq_ok_iff detected).mp taken, ?_⟩
    intro edge
    rw [same, Page.draws_iff drawn denotes]
  · intro h
    refine ⟨?_, ?_⟩
    · intro choice hc key hk
      obtain ⟨shown, solved, hshown, hsolved, same⟩ := h choice hc key hk
      obtain ⟨found, detected, mem, name⟩ := id hsolved
      refine ⟨?_, found, solved, detected, length_keys_availableOf detected,
        (findInterface_eq_ok_iff detected).mpr hsolved, ?_⟩
      · obtain ⟨found', detected', mem', name'⟩ := hshown
        rw [Except.ok.inj (detected'.symm.trans drawn)] at mem'
        exact List.mem_map.mpr ⟨shown, mem', name'⟩
      · intro edge
        rw [same, Page.draws_iff drawn hshown]
    · intro electrodes resolved
      have pairs := edges_of_resolveElectrodes resolved
      have mem : ∀ choice ∈ spec.electrodes, ∀ key ∈ choice.interfaces, ∀ edge,
          (∃ one, Denotes page.selected spec.gateModel key one ∧ edge ∈ one.edges) ↔ page.Draws key edge := by
        intro choice hc key hk edge
        obtain ⟨shown, solved, hshown, hsolved, same⟩ := h choice hc key hk
        rw [Page.draws_iff drawn hshown, ← same]
        constructor
        · rintro ⟨one, denotes, he⟩
          exact hsolved.unique denotes ▸ he
        · exact fun he => ⟨solved, hsolved, he⟩
      refine (forall₂_imp_of_mem pairs.flip ?_).flip
      intro electrode choice hc made edge
      rw [made]
      apply exists_congr
      intro key
      rw [and_congr_right_iff]
      exact fun hk => mem choice hc key hk edge

/-- A key that is sent is known under the gate model that is chosen or under the one that is sent. -/
theorem Page.Loaded.denotes (loaded : page.Loaded sent) (sends : sent.Sends received)
    {choice : ElectrodeChoice} (hc : choice ∈ received.electrodes) (hk : key ∈ choice.interfaces) :
    ∃ one, Denotes page.selected page.gateModel key one ∨ Denotes page.selected received.gateModel key one := by
  have mem : key ∈ sent.keys := List.mem_flatMap.mpr ⟨choice, sends.electrodes ▸ hc, hk⟩
  rcases loaded.keys key mem with drawn | ⟨gateModel, one, model, denotes⟩
  · obtain ⟨one, mem, name⟩ := List.mem_map.mp drawn
    exact ⟨one, Or.inl ⟨_, loaded.drawn, mem, name⟩⟩
  · have kept := sends.gateModel
    rw [model] at kept
    obtain rfl := Option.some.inj kept
    exact ⟨one, Or.inr denotes⟩

/-- In every run of the page, a specification that is sent is solved as it is drawn just if its
    gate model is the one that is chosen, or the two find the same edges for its keys. -/
theorem shownIsSolved_iff {h : List (Taken Page PageAction)} (run : (Page.lts py).Run h page)
    (held : page.spec = some sent) (sends : sent.receive = some received) :
    ShownIsSolved py page received.toDeviceSpec ↔
      received.gateModel = page.gateModel ∨ SameUnderBoth page.selected received.toDeviceSpec := by
  have loaded := (run.invariant (Page.inductive_sound py)).spec sent held
  have sends := ClientSpec.receive_eq_some_iff.mp sends
  rw [shownIsSolved_iff_denotes loaded.drawn]
  constructor
  · intro solved
    by_cases same : received.gateModel = page.gateModel
    · exact Or.inl same
    · refine Or.inr fun choice hc key hk => ?_
      obtain ⟨shown, solved, hshown, hsolved, edges⟩ := solved choice hc key hk
      cases chosen : page.gateModel <;> cases kept : received.gateModel
      · exact absurd (kept.trans chosen.symm) same
      · exact ⟨shown, solved, chosen ▸ hshown, kept ▸ hsolved, fun edge => (edges edge).symm⟩
      · exact ⟨solved, shown, kept ▸ hsolved, chosen ▸ hshown, edges⟩
      · exact absurd (kept.trans chosen.symm) same
  · intro agree choice hc key hk
    rcases agree with same | both
    · obtain ⟨one, denotes | denotes⟩ := loaded.denotes sends hc hk
      · exact ⟨one, one, denotes, same ▸ denotes, fun _ => Iff.rfl⟩
      · exact ⟨one, one, same ▸ denotes, denotes, fun _ => Iff.rfl⟩
    · obtain ⟨plain, poly, hplain, hpoly, edges⟩ := both choice hc key hk
      have denotes : ∀ gateModel, ∃ one, Denotes page.selected gateModel key one ∧
          ∀ edge, edge ∈ one.edges ↔ edge ∈ plain.edges := by
        intro gateModel
        cases gateModel with
        | semiconductor => exact ⟨plain, hplain, fun _ => Iff.rfl⟩
        | conductor => exact ⟨poly, hpoly, fun edge => (edges edge).symm⟩
      obtain ⟨shown, hshown, e⟩ := denotes page.gateModel
      obtain ⟨solved, hsolved, e'⟩ := denotes received.gateModel
      exact ⟨shown, solved, hshown, hsolved, fun edge => (e' edge).trans (e edge).symm⟩

end Loaded

/-! ## Structures without poly -/

/-- No element is of poly. -/
def NoPoly (s : Structure Rat) : Prop :=
  ∀ element ∈ s.elements, s.materialOfRegion.get? element.regionId ≠ some "poly"

theorem NoPoly.conducts_iff (h : NoPoly s) {element : Element} (mem : element ∈ s.elements) :
    (s.materialOfRegion.get? element.regionId).any (· ∈ GateModel.conductor.conductors) =
      (s.materialOfRegion.get? element.regionId).any (· ∈ GateModel.semiconductor.conductors) := by
  have apart := h element mem
  cases found : s.materialOfRegion.get? element.regionId with
  | none => rfl
  | some material =>
    rw [found, ne_eq, Option.some_inj] at apart
    simp [GateModel.conductors, apart]

theorem NoPoly.isConductor_eq (h : NoPoly s) :
    isConductor s GateModel.conductor.conductors = isConductor s GateModel.semiconductor.conductors :=
  List.map_congr_left fun _ mem => h.conducts_iff mem

theorem NoPoly.touchesOf_eq (h : NoPoly s) (cluster : List Nat) (element : Element) (slots : List (Nat × Int)) :
    touchesOf s GateModel.conductor.conductors cluster element slots =
      touchesOf s GateModel.semiconductor.conductors cluster element slots := by
  induction slots with
  | nil => rfl
  | cons slot slots ih =>
    obtain ⟨slot, neighbor⟩ := slot
    unfold touchesOf
    rw [ih]
    split
    · rfl
    · cases reached : index s.elements neighbor with
      | error e => rfl
      | ok other =>
        have same := h.conducts_iff (mem_of_index reached)
        simp only [bind, Except.bind, same]

theorem NoPoly.candidateOf_eq (h : NoPoly s) :
    candidateOf s GateModel.conductor.conductors = candidateOf s GateModel.semiconductor.conductors := by
  funext cluster
  unfold candidateOf contactEdgesOfCluster
  simp only [h.touchesOf_eq]

/-- Without poly the gate model makes no difference. -/
theorem NoPoly.detectInterfaces_eq (h : NoPoly s) :
    detectInterfaces s .conductor = detectInterfaces s .semiconductor := by
  unfold detectInterfaces detectElectrodes conductorClusters
  rw [h.isConductor_eq, h.candidateOf_eq]

/-- So that all that the page sends of such a structure is solved as it is drawn. -/
theorem shownIsSolved_of_noPoly {page : Page} {sent : ClientSpec} {received : StoredSpec}
    {h : List (Taken Page PageAction)} (run : (Page.lts py).Run h page) (held : page.spec = some sent)
    (sends : sent.receive = some received) (noPoly : NoPoly page.selected) :
    ShownIsSolved py page received.toDeviceSpec := by
  have loaded := (run.invariant (Page.inductive_sound py)).spec sent held
  have sends := ClientSpec.receive_eq_some_iff.mp sends
  have any : ∀ model model' one key, Denotes page.selected model key one → Denotes page.selected model' key one := by
    rintro model model' one key ⟨found, detected, there⟩
    refine ⟨found, ?_, there⟩
    cases model <;> cases model'
    · exact detected
    · exact noPoly.detectInterfaces_eq.trans detected
    · exact noPoly.detectInterfaces_eq.symm.trans detected
    · exact detected
  rw [shownIsSolved_iff_denotes loaded.drawn]
  intro choice hc key hk
  obtain ⟨one, denotes | denotes⟩ := loaded.denotes sends hc hk
  · exact ⟨one, one, denotes, any _ _ _ _ denotes, fun _ => Iff.rfl⟩
  · exact ⟨one, one, any _ _ _ _ denotes, denotes, fun _ => Iff.rfl⟩

/-- The page is opened, the gate model is chosen and the answers arrive; nothing was kept. -/
theorem Page.run_default (py : Python) (detected : detectInterfaces s gateModel = .ok found) :
    ∃ h, (Page.lts py).Run h ⟨s, gateModel, none, found, some (defaultSpec found)⟩ := by
  have opened : (Page.lts py).Run [] ⟨s, .semiconductor, some .semiconductor, [], none⟩ :=
    .start ⟨rfl, rfl, rfl, rfl⟩
  have arrives : (Page.lts py).step ⟨s, gateModel, some gateModel, [], none⟩ (.arrive none) =
      some ⟨s, gateModel, none, found, some (defaultSpec found)⟩ := by
    unfold Page.lts Page.step
    dsimp only
    rw [if_pos (by simp), detected]
    rfl
  cases gateModel with
  | semiconductor => exact ⟨_, opened.next arrives⟩
  | conductor =>
    have chosen : (Page.lts py).step ⟨s, .semiconductor, some .semiconductor, [], none⟩ (.choose .conductor) =
        some ⟨s, .conductor, some .conductor, [], none⟩ := rfl
    exact ⟨_, (opened.next chosen).next arrives⟩

/-- Aluminum on poly on oxide on silicon, and aluminum on the silicon. -/
def polyGate : Structure Rat :=
  { chip with
    coordinates := [⟨1, 0, 0⟩, ⟨2, 1, 1⟩, ⟨3, 2, 0⟩, ⟨4, 3, 1⟩, ⟨5, 4, 0⟩, ⟨6, 5, 1⟩, ⟨7, 6, 0⟩]
    regions := [⟨1, 3, "silicon"⟩, ⟨2, 6, "aluminum"⟩, ⟨3, 4, "poly"⟩, ⟨4, 1, "oxide"⟩]
    elements := [⟨1, 2, [0, 1, 2], [1, -1022, -1022], [0, 0]⟩, ⟨2, 3, [1, 2, 3], [2, -1022, 0], [0, 0]⟩,
      ⟨3, 4, [2, 3, 4], [3, -1022, 1], [0, 0]⟩, ⟨4, 1, [3, 4, 5], [4, -1022, 2], [0, 0]⟩,
      ⟨5, 2, [4, 5, 6], [-1022, -1022, 3], [0, 0]⟩] }

theorem shownIsSolved_iff_polyGate : ∃ found received,
    detectInterfaces polyGate .semiconductor = .ok found ∧ (defaultSpec found).receive = some received ∧
      ShownIsSolved plain ⟨polyGate, .semiconductor, none, found, some (defaultSpec found)⟩
        received.toDeviceSpec := by
  obtain ⟨found, detected, received, sends, model⟩ : ∃ found,
      detectInterfaces polyGate .semiconductor = .ok found ∧
        ∃ received ∈ (defaultSpec found).receive, received.gateModel = .semiconductor :=
    exists_ok_and (by decide +kernel)
  obtain ⟨h, run⟩ := Page.run_default plain detected
  exact ⟨found, received, detected, sends, (shownIsSolved_iff run rfl sends).mpr (Or.inl model)⟩

/-- With the poly chosen to conduct, its edge on the oxide is drawn as the gate; the first
    specification is solved with the gate where the aluminum meets the poly. -/
theorem not_shownIsSolved : ¬ ∀ (py : Python) (h : List (Taken Page PageAction)) (page : Page)
    (sent : ClientSpec) (received : StoredSpec), (Page.lts py).Run h page → page.spec = some sent →
      sent.problemsOf = [] → sent.receive = some received → received.Accepted py →
        ShownIsSolved py page received.toDeviceSpec := by
  intro all
  obtain ⟨found, detected, clear, received, sends, accepted, model, choice, hc, hk⟩ : ∃ found,
      detectInterfaces polyGate .conductor = .ok found ∧ (defaultSpec found).problemsOf = [] ∧
        ∃ received ∈ (defaultSpec found).receive, received.Accepted plain ∧
          received.gateModel = .semiconductor ∧
          ∃ choice ∈ received.electrodes, "gate" ∈ choice.interfaces :=
    exists_ok_and (by decide +kernel)
  obtain ⟨h, run⟩ := Page.run_default plain detected
  have solved := (shownIsSolved_iff_denotes detected).mp (all plain h _ _ received run rfl clear sends accepted)
  obtain ⟨shown, solved, hshown, hsolved, same⟩ := solved choice hc "gate" hk
  rw [model] at hsolved
  have edges : ∀ gateModel one, Denotes polyGate gateModel "gate" one → one.edges =
      [if gateModel = .conductor then ⟨3, 4, (3, 2)⟩ else ⟨2, 3, (2, 1)⟩] := by
    rintro gateModel one ⟨found, detected, mem, name⟩
    have each : ∃ found, detectInterfaces polyGate gateModel = .ok found ∧ ∀ one ∈ found, one.name = "gate" →
        one.edges = [if gateModel = .conductor then ⟨3, 4, (3, 2)⟩ else ⟨2, 3, (2, 1)⟩] := by
      cases gateModel <;> exact exists_ok_and (by decide +kernel)
    obtain ⟨found', detected', each⟩ := each
    obtain rfl := Except.ok.inj (detected.symm.trans detected')
    exact each one mem name
  have drawn : (⟨2, 3, (2, 1)⟩ : ContactEdge) ∈ shown.edges := by
    rw [← same, edges .semiconductor solved hsolved]
    exact List.mem_singleton_self _
  rw [edges .conductor shown hshown] at drawn
  exact absurd drawn (by decide)

end TcadWebapp.Devsim
