import TcadWebapp.Devsim.Proofs.Solver

/-!
# The books of the solver

`applied` against the contact voltages that are set (`Agrees`), through every method: a step
that fails, a ramp that is taken back, a reset to a dictionary kept aside. Agreement needs
that no contact belongs to two biases (`Apart`); that the solver knows a voltage for each of
its biases (`Keyed`) does not, and carries the absence of a KeyError.
-/

namespace TcadWebapp.Devsim

/-- The biases' voltages in `applied` are those set on their contacts. -/
def Agrees (groups : Dict String (List String)) (applied parameter : Dict String Volt) : Prop :=
  ∀ bias contacts, groups.get? bias = some contacts → ∀ contact ∈ contacts,
    parameter.get? contact = applied.get? bias

/-- No contact belongs to two biases. -/
def Apart (groups : Dict String (List String)) : Prop :=
  ∀ bias bias' contacts contacts', groups.get? bias = some contacts →
    groups.get? bias' = some contacts' → ∀ contact ∈ contacts, contact ∈ contacts' → bias = bias'

theorem Agrees.congr {groups : Dict String (List String)} {applied applied' parameter : Dict String Volt}
    (h : Agrees groups applied parameter)
    (e : ∀ bias ∈ groups.keys, applied'.get? bias = applied.get? bias) :
    Agrees groups applied' parameter := by
  intro bias contacts hg contact hc
  rw [e bias (Dict.mem_keys.mpr ⟨contacts, hg⟩)]
  exact h bias contacts hg contact hc

/-- `_set` keeps the books when `applied` is set along with it. -/
theorem Agrees.set {groups : Dict String (List String)} {applied parameter : Dict String Volt}
    (h : Agrees groups applied parameter) (apart : Apart groups) {bias : String}
    {contacts : List String} (hg : groups.get? bias = some contacts) (value : Volt) :
    Agrees groups (applied.set bias value)
      (parameter.update (contacts.map fun contact => (contact, value))) := by
  intro bias' contacts' hg' contact hc
  by_cases same : bias' = bias
  · subst same
    obtain rfl : contacts' = contacts := Option.some.inj (hg'.symm.trans hg)
    rw [Dict.get?_set_self]
    exact Dict.get?_update_map parameter hc value
  · have other : contact ∉ contacts := fun hc' =>
      same (apart bias' bias contacts' contacts hg' hg contact hc hc')
    rw [Dict.get?_set_of_ne _ _ same, Dict.get?_update_of_notMem]
    · exact h bias' contacts' hg' contact hc
    · simpa using other

/-- A bias stands at a voltage. -/
def Stands (applied : Dict String Volt) (bias : String) (value : Volt) : Prop :=
  ∃ current, applied.get? bias = some current ∧ |current - value| ≤ tolerance

theorem Stands.congr {applied applied' : Dict String Volt} {bias : String} {value : Volt}
    (h : Stands applied bias value) (e : applied'.get? bias = applied.get? bias) :
    Stands applied' bias value := by
  obtain ⟨current, hc, near⟩ := h
  exact ⟨current, e.trans hc, near⟩

/-- The books are in order, and were at every moment. -/
structure Solver.Sound (s : Solver) : Prop where
  keyed : s.Keyed
  agrees : Apart s.groups → Agrees s.groups s.applied s.device.parameter
  moments : Apart s.groups → ∀ moment ∈ s.moments, Agrees s.groups moment.1 moment.2

namespace Solver

variable {ds : Simulator}

theorem Sound.mark {s : Solver} (h : s.Sound) : s.mark.Sound := by
  refine ⟨h.keyed, h.agrees, ?_⟩
  intro apart moment hm
  rcases List.mem_cons.mp hm with rfl | hm
  · exact h.agrees apart
  · exact h.moments apart moment hm

theorem Sound.same {s s' : Solver} (h : s.Sound) (same : SameSetting s s') : s'.Sound := by
  refine ⟨?_, ?_, ?_⟩
  · unfold Keyed
    rw [same.applied, same.groups]
    exact h.keyed
  · rw [same.groups, same.applied, same.parameter]
    exact h.agrees
  · rw [same.groups, same.moments]
    exact h.moments

theorem Sound.restore {s : Solver} (h : s.Sound) (state : Provenance) : (s.restore state).Sound :=
  ⟨h.keyed, h.agrees, h.moments⟩

/-! ## Tries and ramps -/

theorem Tried.agrees {s s' : Solver} {bias : String} {value : Volt} {ok : Bool}
    (tried : Tried s bias value ok s') (apart : Apart s.groups)
    (h : Agrees s.groups s.applied s.device.parameter) :
    Agrees s.groups s'.applied s'.device.parameter := by
  obtain ⟨contacts, current, hg, hc, hp⟩ := tried.parameter
  rw [tried.applied, hp]
  have forward := h.set apart hg value
  cases ok with
  | true => exact forward
  | false =>
    -- taking the step back sets the old voltage once more
    refine (forward.set apart hg current).congr ?_
    intro name _
    rw [Dict.get?_set, Dict.get?_set]
    by_cases e : name = bias
    · simp [e, hc]
    · simp [e]

theorem Sound.tried {s s' : Solver} {bias : String} {value : Volt} {ok : Bool} (h : s.Sound)
    (tried : Tried s bias value ok s') : s'.Sound := by
  refine ⟨tried.keyed h.keyed, ?_, ?_⟩
  · intro apart
    rw [tried.groups] at apart ⊢
    exact tried.agrees apart (h.agrees apart)
  · intro apart moment hm
    rw [tried.groups] at apart ⊢
    rw [tried.moments] at hm
    rcases List.mem_cons.mp hm with rfl | hm
    · exact tried.agrees apart (h.agrees apart)
    · exact h.moments apart moment hm

theorem Sound.tries {s s' : Solver} {bias : String} {last : Option Bool} (h : s.Sound)
    (tries : Tries ds bias s last s') : s'.Sound := by
  induction tries with
  | refl => exact h
  | snoc _ tried ih => exact ih.tried tried

/-- Setting a bias and its entry of `applied` together. -/
theorem Sound.set {s : Solver} (h : s.Sound) {bias : String} {contacts : List String}
    (hg : s.groups.get? bias = some contacts) (value : Volt) :
    { s.setContacts contacts value with applied := s.applied.set bias value }.mark.Sound := by
  have mem : bias ∈ s.applied.keys := (h.keyed bias).mpr (Dict.mem_keys.mpr ⟨contacts, hg⟩)
  refine Sound.mark ⟨?_, fun apart => (h.agrees apart).set apart hg value, h.moments⟩
  intro name
  refine (Dict.mem_keys_set.trans ⟨?_, Or.inr⟩).trans (h.keyed name)
  rintro (rfl | hn)
  · exact mem
  · exact hn

/-- How a ramp leaves the solver: at the target, or with an error and every bias where it was. -/
structure Ramped (s : Solver) (bias : String) (target : Volt) (s' : Solver)
    (error : Option SolverError) : Prop where
  sound : s'.Sound
  groups : s'.groups = s.groups
  get?_of_ne : ∀ name, name ≠ bias → s'.applied.get? name = s.applied.get? name
  stands : error = none → Stands s'.applied bias target
  solved : error = none → s' = s ∨ s'.Solved
  back : error ≠ none → ∀ name, s'.applied.get? name = s.applied.get? name

theorem rampTo_spec (ds : Simulator) {s : Solver} (sound : s.Sound) (bias : String)
    (target : Volt) : Ramped s bias target (s.rampTo ds bias target).1 (s.rampTo ds bias target).2 := by
  unfold rampTo
  cases hc : s.applied.get? bias with
  | none => exact ⟨sound, rfl, fun _ _ => rfl, by simp, by simp, fun _ _ => rfl⟩
  | some current =>
    obtain ⟨landed, last, s', hr, arrived, -⟩ := reached_spec ds sound.keyed hc target
    have sound' := sound.tries arrived.tries
    have groups := arrived.tries.groups
    simp only [hr]
    by_cases far : |landed - target| > tolerance
    · rw [if_pos far]
      obtain ⟨s₁, hset⟩ := set_isSome sound'.keyed arrived.stands current
      obtain ⟨contacts, hg, rfl⟩ := set_eq_some hset
      simp only [hset]
      have back : ∀ name, (s'.applied.set bias current).get? name = s.applied.get? name := by
        intro name
        by_cases e : name = bias
        · rw [e, Dict.get?_set_self, hc]
        · rw [Dict.get?_set_of_ne _ _ e, arrived.tries.get?_of_ne e]
      exact ⟨sound'.set hg current, groups, fun name _ => back name, by simp, by simp,
        fun _ => back⟩
    · rw [if_neg far]
      exact ⟨sound', groups, fun name hn => arrived.tries.get?_of_ne hn,
        fun _ => ⟨landed, arrived.stands, not_lt.mp far⟩,
        fun _ => arrived.eq_or_solved (not_lt.mp far), by simp⟩

/-- How a loop of ramps leaves the solver. -/
structure AllRamped (s : Solver) (entries : List (String × Volt)) (s' : Solver)
    (error : Option SolverError) : Prop where
  sound : s'.Sound
  groups : s'.groups = s.groups
  get?_of_notMem : ∀ name, name ∉ entries.map Prod.fst →
    s'.applied.get? name = s.applied.get? name
  stands : error = none → ∀ entry ∈ entries, Stands s'.applied entry.1 entry.2
  solved : error = none → s' = s ∨ s'.Solved

theorem rampAll_spec (ds : Simulator) {s : Solver} (sound : s.Sound)
    {entries : List (String × Volt)} (nodup : (entries.map Prod.fst).Nodup) :
    AllRamped s entries (s.rampAll ds entries).1 (s.rampAll ds entries).2 := by
  induction entries generalizing s with
  | nil => exact ⟨sound, rfl, fun _ _ => rfl, by simp, fun _ => Or.inl rfl⟩
  | cons entry entries ih =>
    obtain ⟨bias, target⟩ := entry
    rw [List.map_cons, List.nodup_cons] at nodup
    have ramped := rampTo_spec ds sound bias target
    unfold rampAll
    cases hr : s.rampTo ds bias target with
    | mk s₁ error =>
      rw [hr] at ramped
      cases error with
      | some error =>
        refine ⟨ramped.sound, ramped.groups, ?_, by simp, by simp⟩
        intro name _
        exact ramped.back (by simp) name
      | none =>
        have rest := ih ramped.sound nodup.2
        refine ⟨rest.sound, rest.groups.trans ramped.groups, ?_, ?_, ?_⟩
        · intro name hn
          rw [List.map_cons, List.mem_cons, not_or] at hn
          exact (rest.get?_of_notMem name hn.2).trans (ramped.get?_of_ne name hn.1)
        · intro none e he
          rcases List.mem_cons.mp he with rfl | he
          · exact (ramped.stands rfl).congr (rest.get?_of_notMem bias nodup.1)
          · exact rest.stands none e he
        · intro none
          rcases rest.solved none with same | solved
          · show (s₁.rampAll ds entries).1 = s ∨ _
            rw [same]
            exact ramped.solved rfl
          · exact Or.inr solved

/-! ## `reset_to` -/

theorem setAll_spec {s : Solver} {entries : List (String × Volt)}
    (known : ∀ name ∈ entries.map Prod.fst, name ∈ s.groups.keys) :
    ∃ s', s.setAll entries = (s', none) ∧ s'.groups = s.groups ∧ s'.moments = s.moments ∧
      s'.device.regions = s.device.regions ∧ ∀ applied, Apart s.groups → Agrees s.groups applied s.device.parameter →
        Agrees s.groups (applied.update entries) s'.device.parameter := by
  induction entries generalizing s with
  | nil => exact ⟨s, rfl, rfl, rfl, rfl, fun _ _ h => h⟩
  | cons entry entries ih =>
    obtain ⟨bias, value⟩ := entry
    obtain ⟨contacts, hg⟩ := Dict.mem_keys.mp (known bias (by simp))
    obtain ⟨s', hs', groups, moments, regions, agrees⟩ :=
      ih (s := s.setContacts contacts value) fun name hn => known name (List.mem_cons_of_mem _ hn)
    refine ⟨s', ?_, groups, moments, regions, ?_⟩
    · rw [setAll, set, hg, Option.map_some]
      exact hs'
    · intro applied apart h
      exact agrees _ apart (h.set apart hg value)

/-- A reset to a dictionary with the solver's biases has no error and leaves exactly it. -/
theorem resetTo_spec {s : Solver} (sound : s.Sound) {applied : Dict String Volt}
    (keyed : ∀ bias, bias ∈ applied.keys ↔ bias ∈ s.groups.keys) :
    ∃ s', s.resetTo applied = (s', none) ∧ s'.Sound ∧ s'.groups = s.groups ∧
      s'.applied = applied ∧ s'.device.regions = s.device.regions := by
  have known : ∀ name ∈ applied.entries.map Prod.fst, name ∈ s.groups.keys :=
    fun name hn => (keyed name).mp hn
  obtain ⟨s₁, hs₁, groups, moments, regions, agrees⟩ := setAll_spec known
  refine ⟨{ s₁ with applied := applied }.mark, by rw [resetTo, hs₁], Sound.mark ⟨?_, ?_, ?_⟩,
    groups, rfl, regions⟩
  · intro bias
    exact (keyed bias).trans (by rw [← groups])
  · intro apart
    rw [groups] at apart ⊢
    refine (agrees s.applied apart (sound.agrees apart)).congr ?_
    intro bias hb
    obtain ⟨value, hv⟩ := Dict.mem_keys.mp ((keyed bias).mpr hb)
    refine hv.trans (Eq.symm (Dict.get?_update ?_ (Dict.get?_eq_some.mp hv)))
    intro k v v' hk hk'
    exact Option.some.inj ((Dict.get?_eq_some.mpr hk).symm.trans (Dict.get?_eq_some.mpr hk'))
  · intro apart moment hm
    rw [groups] at apart ⊢
    exact sound.moments apart moment (moments ▸ hm)

/-! ## The start -/

/-- The contacts driven by a bias are those that name it, if it does not float. -/
theorem get?_contactBiasNames (payload : Payload) (bias : String) :
    (contactBiasNames payload).get? bias =
      let driven := payload.contacts.filter fun contact =>
        contact.bias = bias ∧ contact.bias ∉ payload.plan.floating
      if driven = [] then none else some (driven.map Contact.name) := by
  have e : contactBiasNames payload =
      (payload.contacts.filter fun contact => contact.bias ∉ payload.plan.floating).foldl
        (fun grouped contact => grouped.alter contact.bias fun names =>
          names.getD [] ++ [contact.name]) ∅ := by
    rw [contactBiasNames, List.foldl_filter]
    congr 1
    funext grouped contact
    by_cases h : contact.bias ∈ payload.plan.floating <;> simp [h]
  rw [e, Dict.get?_foldl_group, List.filter_filter]
  simp

/-- Every contact that does not float starts at 0 V. -/
theorem get?_initialParameters {payload : Payload} {contact : Contact}
    (mem : contact ∈ payload.contacts) (driven : contact.bias ∉ payload.plan.floating) :
    (initialParameters payload).get? contact.name = some 0 := by
  have e : initialParameters payload = (∅ : Dict String Volt).update
      (((payload.contacts.filter fun contact => contact.bias ∉ payload.plan.floating).map
        Contact.name).map fun name => (name, 0)) := by
    rw [initialParameters, Dict.update, List.foldl_map, List.foldl_map]
  rw [e]
  exact Dict.get?_update_map ∅
    (List.mem_map.mpr ⟨contact, List.mem_filter.mpr ⟨mem, by simpa⟩, rfl⟩) 0

theorem sound_init (payload : Payload) : (init payload).Sound := by
  refine ⟨keyed_init payload, ?_, by simp [init]⟩
  intro _ bias contacts hg name hc
  have mem : bias ∈ (contactBiasNames payload).keys := Dict.mem_keys.mpr ⟨contacts, hg⟩
  have zero : (init payload).applied.get? bias = some 0 := by
    exact Dict.get?_update_map ∅ mem 0
  rw [zero]
  replace hg : (contactBiasNames payload).get? bias = some contacts := hg
  rw [get?_contactBiasNames] at hg
  dsimp only at hg
  split at hg
  · cases hg
  · obtain rfl := Option.some.inj hg
    obtain ⟨contact, hm, rfl⟩ := List.mem_map.mp hc
    obtain ⟨hm, hd⟩ := List.mem_filter.mp hm
    simp only [decide_eq_true_eq] at hd
    exact get?_initialParameters hm hd.2

end Solver

end TcadWebapp.Devsim
