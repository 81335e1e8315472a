import Mathlib.Tactic.Linarith
import Mathlib.Tactic.Ring
import Mathlib.Tactic.FieldSimp
import TcadWebapp.Devsim.Solver

/-!
# What the methods of the solver do

One lemma for each method. `reached` is described by the tries it makes (`Tries`), with the
outcome of the last one; everything a run does to the solver is a sequence of `Change`s, so
that an invariant is proved once, for one change.
-/

namespace TcadWebapp.Devsim.Solver

variable {ds : Simulator}

/-- The solver knows a voltage for exactly the biases that have contacts. -/
def Keyed (s : Solver) : Prop := ∀ bias, bias ∈ s.applied.keys ↔ bias ∈ s.groups.keys

theorem mem_keys_ofList {κ ν : Type*} [DecidableEq κ] (l : List (κ × ν)) (k : κ) :
    k ∈ (Dict.ofList l).keys ↔ k ∈ l.map Prod.fst := by
  by_cases h : k ∈ l.map Prod.fst
  · obtain ⟨v, -, hv⟩ := Dict.get?_update_of_mem ∅ h
    simp [Dict.mem_keys, Dict.ofList, hv, h]
  · have := Dict.get?_update_of_notMem (ν := ν) ∅ h
    simp [Dict.mem_keys, Dict.ofList, this, h]

theorem keyed_init (payload : Payload) : (init payload).Keyed := by
  intro bias
  simp [init, mem_keys_ofList, Function.comp_def]

section Fields

variable (s : Solver) (contacts : List String) (value : Volt)

@[simp] theorem setContacts_groups : (s.setContacts contacts value).groups = s.groups := rfl

@[simp] theorem setContacts_applied : (s.setContacts contacts value).applied = s.applied := rfl

@[simp] theorem setContacts_moments : (s.setContacts contacts value).moments = s.moments := rfl

@[simp] theorem setContacts_parameter : (s.setContacts contacts value).device.parameter =
    s.device.parameter.update (contacts.map fun contact => (contact, value)) := rfl

@[simp] theorem mark_groups : s.mark.groups = s.groups := rfl

@[simp] theorem mark_applied : s.mark.applied = s.applied := rfl

@[simp] theorem mark_device : s.mark.device = s.device := rfl

@[simp] theorem mark_moments : s.mark.moments = (s.applied, s.device.parameter) :: s.moments := rfl

end Fields

/-! ## `_set` and `solve` -/

theorem set_eq_some {s s' : Solver} {bias : String} {value : Volt}
    (h : s.set bias value = some s') :
    ∃ contacts, s.groups.get? bias = some contacts ∧ s' = s.setContacts contacts value := by
  obtain ⟨contacts, hg, rfl⟩ := Option.map_eq_some_iff.mp h
  exact ⟨contacts, hg, rfl⟩

theorem set_isSome {s : Solver} (keyed : s.Keyed) {bias : String} {current : Volt}
    (h : s.applied.get? bias = some current) (value : Volt) : ∃ s', s.set bias value = some s' := by
  have : bias ∈ s.groups.keys := (keyed bias).mp (Dict.mem_keys.mpr ⟨current, h⟩)
  obtain ⟨contacts, hg⟩ := Dict.mem_keys.mp this
  exact ⟨_, by rw [set, hg, Option.map_some]⟩

/-- What a solve leaves alone. -/
structure SameSetting (s s' : Solver) : Prop where
  groups : s'.groups = s.groups
  applied : s'.applied = s.applied
  parameter : s'.device.parameter = s.device.parameter
  moments : s'.moments = s.moments

theorem SameSetting.trans {s s' s'' : Solver} (h : SameSetting s s') (h' : SameSetting s' s'') :
    SameSetting s s'' :=
  ⟨h'.groups.trans h.groups, h'.applied.trans h.applied, h'.parameter.trans h.parameter,
    h'.moments.trans h.moments⟩

/-- Both parts of the solution are those of one converged solve, at the voltages set. -/
def Solved (s : Solver) : Prop :=
  ∃ call, s.device.regions = .solved call s.device.parameter ∧
    s.device.circuit = .solved call s.device.parameter

/-- The regions hold what a solve left that did not converge. -/
def Astray (s : Solver) : Prop := ∃ call, s.device.regions = .stray call

theorem dsSolve_spec (ds : Simulator) (s : Solver) : SameSetting s (s.dsSolve ds).2 ∧
    (s.dsSolve ds).1 = ds.solve s.calls ∧
    (∀ n, ds.solve s.calls = .returned true n → (s.dsSolve ds).2.Solved) ∧
    ((∀ n, ds.solve s.calls ≠ .returned true n) → (s.dsSolve ds).2.Astray) := by
  refine ⟨⟨rfl, rfl, rfl, rfl⟩, rfl, ?_, ?_⟩
  · intro n h
    exact ⟨s.calls, by simp [dsSolve, h], by simp [dsSolve, h]⟩
  · intro h
    refine ⟨s.calls, ?_⟩
    unfold dsSolve
    dsimp only
    split
    · rename_i n e
      exact absurd e (h n)
    · rfl

theorem solveOnce_spec (ds : Simulator) (s : Solver) : SameSetting s (s.solveOnce ds).2 ∧
    ((s.solveOnce ds).1 = true → (s.solveOnce ds).2.Solved) ∧
    ((s.solveOnce ds).1 = false → (s.solveOnce ds).2.Astray) := by
  obtain ⟨same, hout, solved, astray⟩ := dsSolve_spec ds s
  unfold solveOnce
  cases hs : s.dsSolve ds with
  | mk outcome s₁ =>
    rw [hs] at same hout solved astray
    cases outcome with
    | raised => exact ⟨same, by simp, fun _ => astray (by simp [← hout])⟩
    | returned converged iterations =>
      refine ⟨⟨same.groups, same.applied, same.parameter, same.moments⟩, ?_, ?_⟩
      · rintro rfl
        exact solved iterations hout.symm
      · rintro rfl
        exact astray (by simp [← hout])

theorem solve_spec (ds : Simulator) (s : Solver) : SameSetting s (s.solve ds).2 ∧
    ((s.solve ds).1 = true → (s.solve ds).2.Solved) ∧
    ((s.solve ds).1 = false → (s.solve ds).2.Astray) := by
  obtain ⟨same, solved, -⟩ := solveOnce_spec ds s
  unfold solve
  cases h : s.solveOnce ds with
  | mk ok s₁ =>
    rw [h] at same solved
    cases ok with
    | true => exact ⟨same, solved, by simp⟩
    | false =>
      obtain ⟨same', solved', astray'⟩ := solveOnce_spec ds s₁
      dsimp only
      cases h' : s₁.solveOnce ds with
      | mk ok' s₂ =>
        rw [h'] at same' solved' astray'
        have both := same.trans same'
        cases ok' with
        | true =>
          exact ⟨⟨both.groups, both.applied, both.parameter, both.moments⟩, solved', by simp⟩
        | false => exact ⟨both, by simp, astray'⟩

/-! ## `_try` -/

/-- What a try leaves, by its outcome. -/
structure Tried (s : Solver) (bias : String) (value : Volt) (ok : Bool) (s' : Solver) : Prop where
  groups : s'.groups = s.groups
  applied : s'.applied = if ok then s.applied.set bias value else s.applied
  parameter : ∃ contacts current, s.groups.get? bias = some contacts ∧
    s.applied.get? bias = some current ∧ s'.device.parameter =
      (let tried := s.device.parameter.update (contacts.map fun contact => (contact, value))
       if ok then tried else tried.update (contacts.map fun contact => (contact, current)))
  solved : ok = true → s'.Solved
  astray : ok = false → s'.Astray
  moments : s'.moments = (s'.applied, s'.device.parameter) :: s.moments

theorem tryStep_spec {s s' : Solver} {bias : String} {value current : Volt} {ok : Bool}
    (hc : s.applied.get? bias = some current) (h : s.tryStep ds bias value = some (ok, s')) :
    Tried s bias value ok s' := by
  unfold tryStep at h
  cases hset : s.set bias value with
  | none => simp [hset] at h
  | some s₁ =>
    obtain ⟨contacts, hg, rfl⟩ := set_eq_some hset
    simp only [hset] at h
    obtain ⟨same, solved, astray⟩ := solve_spec ds (s.setContacts contacts value)
    cases hsolve : (s.setContacts contacts value).solve ds with
    | mk ok' s₂ =>
      rw [hsolve] at same solved astray h
      dsimp only at same solved astray
      cases ok' with
      | true =>
        simp only [Option.some.injEq, Prod.mk.injEq] at h
        obtain ⟨rfl, rfl⟩ := h
        refine ⟨same.groups, ?_, ⟨contacts, current, hg, hc, ?_⟩, ?_, by simp, ?_⟩
        · simp [same.applied]
        · simpa using same.parameter
        · intro _
          exact solved rfl
        · simp [same.moments]
      | false =>
        have happ : s₂.applied.get? bias = some current := by rw [same.applied]; exact hc
        simp only [happ] at h
        obtain ⟨s₃, hset', h⟩ := Option.map_eq_some_iff.mp h
        simp only [Prod.mk.injEq] at h
        obtain ⟨rfl, rfl⟩ := h
        obtain ⟨contacts', hg', rfl⟩ := set_eq_some hset'
        have hg' : s.groups.get? bias = some contacts' := by
          rw [← hg', same.groups, setContacts_groups]
        obtain rfl : contacts' = contacts := Option.some.inj (hg'.symm.trans hg)
        refine ⟨same.groups, ?_, ⟨contacts', current, hg, hc, ?_⟩, by simp, ?_, ?_⟩
        · simp [same.applied]
        · simp [same.parameter]
        · intro _
          exact astray rfl
        · simp [same.moments]

theorem tryStep_isSome (ds : Simulator) {s : Solver} (keyed : s.Keyed) {bias : String} {current : Volt}
    (hc : s.applied.get? bias = some current) (value : Volt) :
    ∃ ok s', s.tryStep ds bias value = some (ok, s') := by
  obtain ⟨s₁, hset⟩ := set_isSome keyed hc value
  obtain ⟨contacts, hg, rfl⟩ := set_eq_some hset
  obtain ⟨same, -⟩ := solve_spec ds (s.setContacts contacts value)
  unfold tryStep
  simp only [hset]
  cases hsolve : (s.setContacts contacts value).solve ds with
  | mk ok s₂ =>
    rw [hsolve] at same
    dsimp only at same
    cases ok with
    | true => exact ⟨true, _, rfl⟩
    | false =>
      have happ : s₂.applied.get? bias = some current := by rw [same.applied]; exact hc
      have hg₂ : s₂.groups.get? bias = some contacts := by rw [same.groups]; exact hg
      simp only [happ, set, hg₂, Option.map_some]
      exact ⟨false, _, rfl⟩

namespace Tried

variable {s s' : Solver} {bias : String} {value : Volt} {ok : Bool}

theorem get?_of_ne (h : Tried s bias value ok s') {name : String} (hne : name ≠ bias) :
    s'.applied.get? name = s.applied.get? name := by
  rw [h.applied]
  split
  · exact Dict.get?_set_of_ne _ _ hne
  · rfl

theorem get?_self (h : Tried s bias value ok s') {current : Volt}
    (hc : s.applied.get? bias = some current) :
    s'.applied.get? bias = some (if ok then value else current) := by
  rw [h.applied]
  cases ok with
  | true => exact Dict.get?_set_self _ _ _
  | false => exact hc

theorem mem_keys (h : Tried s bias value ok s') (name : String) :
    name ∈ s'.applied.keys ↔ name ∈ s.applied.keys := by
  obtain ⟨contacts, current, -, hc, -⟩ := h.parameter
  have mem : bias ∈ s.applied.keys := Dict.mem_keys.mpr ⟨current, hc⟩
  rw [h.applied]
  split
  · rw [Dict.mem_keys_set]
    constructor
    · rintro (rfl | hn)
      · exact mem
      · exact hn
    · exact Or.inr
  · rfl

theorem keyed (h : Tried s bias value ok s') (keyed : s.Keyed) : s'.Keyed := by
  intro name
  rw [h.mem_keys, h.groups]
  exact keyed name

end Tried

/-! ## `reached` -/

/-- The tries of one bias from `s` on, and the outcome of the last one. -/
inductive Tries (ds : Simulator) (bias : String) (s : Solver) : Option Bool → Solver → Prop
  | refl : Tries ds bias s none s
  | snoc {last : Option Bool} {s₁ s' : Solver} {value : Volt} {ok : Bool} :
      Tries ds bias s last s₁ → Tried s₁ bias value ok s' → Tries ds bias s (some ok) s'

theorem Tries.keyed {s s' : Solver} {bias : String} {last : Option Bool}
    (h : Tries ds bias s last s') (keyed : s.Keyed) : s'.Keyed := by
  induction h with
  | refl => exact keyed
  | snoc _ tried ih => exact tried.keyed ih

theorem Tries.groups {s s' : Solver} {bias : String} {last : Option Bool}
    (h : Tries ds bias s last s') : s'.groups = s.groups := by
  induction h with
  | refl => rfl
  | snoc _ tried ih => exact tried.groups.trans ih

theorem Tries.get?_of_ne {s s' : Solver} {bias name : String} {last : Option Bool}
    (h : Tries ds bias s last s') (hne : name ≠ bias) :
    s'.applied.get? name = s.applied.get? name := by
  induction h with
  | refl => rfl
  | snoc _ tried ih => exact (tried.get?_of_ne hne).trans ih

/-- After a try that converged the solution is that of a converged solve. -/
theorem Tries.solved {s s' : Solver} {bias : String} (h : Tries ds bias s (some true) s') :
    s'.Solved := by
  cases h with
  | snoc _ tried => exact tried.solved rfl

theorem Tries.astray {s s' : Solver} {bias : String} (h : Tries ds bias s (some false) s') :
    s'.Astray := by
  cases h with
  | snoc _ tried => exact tried.astray rfl

theorem Tries.eq_of_none {s s' : Solver} {bias : String} (h : Tries ds bias s none s') :
    s' = s := by
  cases h
  rfl

/-- A step towards the target leaves the rest of the way. -/
theorem abs_sub_step {target current : Volt} (step : Volt) (hr : target - current ≠ 0) :
    |target - (current + min step |target - current| * (if target - current > 0 then 1 else -1))| =
      |(|target - current| - min step |target - current|)| := by
  by_cases hpos : target - current > 0
  · rw [if_pos hpos, abs_of_pos hpos]
    congr 1
    ring
  · have hneg : target - current < 0 := lt_of_le_of_ne (not_lt.mp hpos) hr
    rw [if_neg hpos, abs_of_neg hneg, ← abs_neg]
    congr 1
    ring

/-- The shortest step that `reached` makes before it gives up. -/
def minStep : Volt := maxBiasStep / 2 ^ maxBisections

theorem minStep_pos : 0 < minStep := by
  norm_num [minStep, maxBiasStep, maxBisections]

/-- A step that converged leaves fewer steps to go. -/
theorem ceil_step {rest step : Volt} (hrest : 0 < rest) (hstep : minStep ≤ step) :
    ⌈|rest - min step rest| / minStep⌉₊ + 1 ≤ ⌈rest / minStep⌉₊ := by
  have pos : 0 < rest / minStep := div_pos hrest minStep_pos
  have one : 1 ≤ ⌈rest / minStep⌉₊ := Nat.ceil_pos.mpr pos
  have le : |rest - min step rest| / minStep ≤ ((⌈rest / minStep⌉₊ - 1 : Nat) : Volt) := by
    rw [abs_of_nonneg (sub_nonneg.mpr (min_le_right _ _)), Nat.cast_sub one, Nat.cast_one]
    rcases le_total step rest with h | h
    · rw [min_eq_left h]
      have : (rest - step) / minStep ≤ rest / minStep - 1 := by
        rw [div_le_iff₀ minStep_pos, sub_mul, div_mul_cancel₀ _ minStep_pos.ne']
        linarith
      linarith [Nat.le_ceil (rest / minStep)]
    · rw [min_eq_right h, sub_self, zero_div, sub_nonneg]
      exact_mod_cast one
  have := Nat.ceil_le.mpr le
  omega

/-- How `reached` ends: at the target, with no try made or the last one converged, or short of
it with the last one failed. -/
structure Arrived (ds : Simulator) (s : Solver) (bias : String) (target landed : Volt)
    (last : Option Bool) (s' : Solver) : Prop where
  tries : Tries ds bias s last s'
  stands : s'.applied.get? bias = some landed
  stuck : last = some false ↔ tolerance < |target - landed|

/-- At the target the solver is as it was or on a converged solution. -/
theorem Arrived.eq_or_solved {s s' : Solver} {bias : String} {target landed : Volt}
    {last : Option Bool} (h : Arrived ds s bias target landed last s')
    (near : |landed - target| ≤ tolerance) : s' = s ∨ s'.Solved := by
  rw [abs_sub_comm] at near
  match last, h.tries, h.stuck with
  | none, tries, _ => exact Or.inl tries.eq_of_none
  | some true, tries, _ => exact Or.inr tries.solved
  | some false, _, stuck => exact absurd (stuck.mp rfl) (not_lt.mpr near)

/-- The loop ends before its fuel does: each step that converges leaves fewer of the
shortest steps to go, each failure one bisection less. -/
theorem reachedLoop_spec {s₀ : Solver} {bias : String} {target : Volt} (fuel : Nat) {s : Solver}
    {step current : Volt} {shrinks : Nat} {last : Option Bool} (tries : Tries ds bias s₀ last s)
    (keyed : s.Keyed) (hc : s.applied.get? bias = some current)
    (hlast : last = some false → tolerance < |target - current|)
    (hshrinks : shrinks ≤ maxBisections)
    (hstep : minStep * 2 ^ (maxBisections - shrinks) ≤ step)
    (hfuel : ⌈|target - current| / minStep⌉₊ + (maxBisections - shrinks) + 2 ≤ fuel) :
    ∃ landed last' s', reachedLoop ds bias target fuel s step shrinks = some (landed, s') ∧
      Arrived ds s₀ bias target landed last' s' := by
  induction fuel generalizing s step current shrinks last with
  | zero => omega
  | succ fuel ih =>
    unfold reachedLoop
    simp only [hc]
    by_cases near : |target - current| ≤ tolerance
    · rw [if_pos near]
      refine ⟨current, last, s, rfl, tries, hc, ?_⟩
      exact ⟨hlast, fun far => absurd near (not_le.mpr far)⟩
    · rw [if_neg near]
      have far : tolerance < |target - current| := not_le.mp near
      have pos : 0 < |target - current| := lt_trans (by norm_num [tolerance]) far
      have short : minStep ≤ step := by
        refine le_trans ?_ hstep
        have : (1 : Volt) ≤ 2 ^ (maxBisections - shrinks) := one_le_pow₀ (by norm_num)
        nlinarith [minStep_pos]
      obtain ⟨ok, s₁, hs₁⟩ := tryStep_isSome ds keyed hc
        (current + min step |target - current| * (if target - current > 0 then 1 else -1))
      have tried := tryStep_spec hc hs₁
      have hc₁ := tried.get?_self hc
      simp only [hs₁]
      cases ok with
      | true =>
        have way := abs_sub_step step (abs_pos.mp pos)
        have fewer := ceil_step pos short
        refine ih (.snoc tries tried) (tried.keyed keyed) hc₁ (by simp) hshrinks hstep ?_
        rw [if_pos rfl, way]
        omega
      | false =>
        have hc₁ : s₁.applied.get? bias = some current := hc₁
        dsimp only
        by_cases last : shrinks ≥ maxBisections
        · rw [if_pos last, hc₁]
          exact ⟨current, some false, s₁, rfl, .snoc tries tried, hc₁, by simpa using far⟩
        · rw [if_neg last]
          have split : maxBisections - shrinks = maxBisections - (shrinks + 1) + 1 := by omega
          refine ih (.snoc tries tried) (tried.keyed keyed) hc₁ (fun _ => far) (by omega) ?_ ?_
          · rw [split, pow_succ] at hstep
            linarith
          · omega

/-- Where the bias already stands within the tolerance, `reached` does nothing. -/
theorem reached_of_near {s : Solver} {bias : String} {target current : Volt}
    (hc : s.applied.get? bias = some current) (near : |target - current| ≤ tolerance) :
    s.reached ds bias target = some (current, s) := by
  unfold reached
  simp only [hc]
  split
  · rfl
  · simp only [fuelFor, reachedLoop, hc, if_pos near]

/-- `reached` always comes to an end. -/
theorem reached_spec (ds : Simulator) {s : Solver} (keyed : s.Keyed) {bias : String} {current : Volt}
    (hc : s.applied.get? bias = some current) (target : Volt) :
    ∃ landed last s', s.reached ds bias target = some (landed, s') ∧
      Arrived ds s bias target landed last s' ∧
      (last = none ↔ |target - current| ≤ tolerance) := by
  by_cases near : |target - current| ≤ tolerance
  · refine ⟨current, none, s, reached_of_near hc near, ⟨.refl, hc, ?_⟩, by simpa using near⟩
    simpa using near
  · have span : ¬ target - current = 0 := by
      intro h
      rw [h, abs_zero] at near
      exact near (by norm_num [tolerance])
    have fuel : ⌈|target - current| / minStep⌉₊ + (maxBisections - 0) + 2 ≤
        fuelFor (target - current) := by
      simp only [fuelFor, minStep, maxBisections]
      omega
    have first : minStep * 2 ^ (maxBisections - 0) ≤ maxBiasStep := by
      norm_num [minStep, maxBiasStep, maxBisections]
    obtain ⟨landed, last, s', hl, arrived⟩ := reachedLoop_spec (fuelFor (target - current)) (.refl : Tries ds bias s none s) keyed hc
      (by simp) (Nat.zero_le _) first fuel
    refine ⟨landed, last, s', ?_, arrived, ?_⟩
    · unfold reached
      simp only [hc, if_neg span]
      exact hl
    · constructor
      · rintro rfl
        -- with no try made the solver stands where it stood
        cases arrived.tries
        have e : landed = current := Option.some.inj (arrived.stands.symm.trans hc)
        have := arrived.stuck.not.mp (by simp)
        rw [e] at this
        exact absurd (not_lt.mp this) near
      · exact fun h => absurd h near

end TcadWebapp.Devsim.Solver
