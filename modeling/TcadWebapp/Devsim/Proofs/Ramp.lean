import TcadWebapp.Devsim.Proofs.Solver
import TcadWebapp.Devsim.Run

/-!
# The way of a ramp

Every voltage that `reached` tries is on the way from where the bias stands to the target, and no more than a
step away (`reached_spec` says that it ends). A ramp that raises leaves the bias where it was
(`ramp_safe`).
-/

namespace TcadWebapp.Devsim

/-- A call of `_try`: where the bias stood, the voltage that was tried, and whether it was solved. -/
structure Attempt where
  stood : Volt
  value : Volt
  ok : Bool
  deriving DecidableEq, Repr

/-- A voltage on the way from another one to the target. -/
def Towards (target from_ value : Volt) : Prop :=
  (from_ ≤ value ∧ value ≤ target) ∨ (target ≤ value ∧ value ≤ from_)

theorem Towards.trans {u v w : Volt} (h : Towards target u v) (h' : Towards target v w) : Towards target u w := by
  unfold Towards at *
  rcases h with ⟨uv, vt⟩ | ⟨tv, vu⟩
  · rcases h' with ⟨vw, wt⟩ | ⟨tw, wv⟩
    · exact Or.inl ⟨uv.trans vw, wt⟩
    · exact Or.inl ⟨by linarith, by linarith⟩
  · rcases h' with ⟨vw, wt⟩ | ⟨tw, wv⟩
    · exact Or.inr ⟨by linarith, by linarith⟩
    · exact Or.inr ⟨tw, wv.trans vu⟩

/-- An attempt that goes towards the target by no more than a step. -/
structure Attempt.Sensible (target : Volt) (attempt : Attempt) : Prop where
  towards : Towards target attempt.stood attempt.value
  stride : |attempt.value - attempt.stood| ≤ maxBiasStep

namespace Solver

variable {ds : Simulator} {bias : String} {target : Volt}

/-- The calls of `_try` that the loop of `reached` makes. -/
def attemptsLoop (ds : Simulator) (bias : String) (target : Volt) : Nat → Solver → Volt → Nat → List Attempt
  | 0, _, _, _ => []
  | fuel + 1, s, step, shrinks =>
    match s.applied.get? bias with
    | none => []
    | some current =>
      let remaining := target - current
      if |remaining| ≤ tolerance then []
      else
        let reach := min step |remaining|
        let value := current + reach * (if remaining > 0 then 1 else -1)
        match s.tryStep ds bias value with
        | none => []
        | some (true, s) => ⟨current, value, true⟩ :: attemptsLoop ds bias target fuel s step shrinks
        | some (false, s) => ⟨current, value, false⟩ ::
          (if shrinks ≥ maxBisections then [] else attemptsLoop ds bias target fuel s (step / 2) (shrinks + 1))

/-- The calls of `_try` that `reached` makes, the first one first. -/
def attempts (ds : Simulator) (s : Solver) (bias : String) (target : Volt) : List Attempt :=
  match s.applied.get? bias with
  | none => []
  | some current =>
    let span := target - current
    if span = 0 then [] else attemptsLoop ds bias target (fuelFor span) s maxBiasStep 0

/-- Attempts made one after the other, each from where the bias stands by then. -/
inductive Walk (ds : Simulator) (bias : String) : Solver → List Attempt → Solver → Prop
  | nil (s : Solver) : Walk ds bias s [] s
  | cons {s s₁ s' : Solver} {attempt : Attempt} {rest : List Attempt} :
      s.applied.get? bias = some attempt.stood → s.tryStep ds bias attempt.value = some (attempt.ok, s₁) →
      Walk ds bias s₁ rest s' → Walk ds bias s (attempt :: rest) s'

/-- The voltages that a bias takes on. -/
def accepted (attempts : List Attempt) : List Volt := (attempts.filter Attempt.ok).map Attempt.value

/-- What is accepted goes towards the target and never back. -/
theorem Walk.pairwise {s s' : Solver} {attempts : List Attempt} (walk : Walk ds bias s attempts s')
    (sensible : ∀ attempt ∈ attempts, attempt.Sensible target) {start : Volt}
    (hc : s.applied.get? bias = some start) : (start :: accepted attempts).Pairwise (Towards target) := by
  induction walk generalizing start with
  | nil => exact List.pairwise_singleton _ _
  | @cons s s₁ s' attempt rest stood try_ walk ih =>
    obtain rfl : start = attempt.stood := Option.some.inj (hc.symm.trans stood)
    have tried := tryStep_spec hc try_
    have later := ih (fun other mem => sensible other (List.mem_cons_of_mem _ mem)) (tried.get?_self hc)
    unfold accepted at *
    cases ok : attempt.ok with
    | true =>
      rw [ok, if_pos rfl] at later
      rw [List.filter_cons_of_pos ok, List.map_cons]
      have first := (sensible attempt List.mem_cons_self).towards
      refine List.pairwise_cons.mpr ⟨fun value mem => ?_, later⟩
      rcases List.mem_cons.mp mem with rfl | mem
      · exact first
      · exact first.trans (List.rel_of_pairwise_cons later mem)
    | false =>
      rw [ok, if_neg Bool.false_ne_true] at later
      rwa [List.filter_cons_of_neg (by simp [ok])]

/-- A step towards the target is no longer than what is left. -/
theorem towards_step {current step : Volt} (pos : 0 ≤ step) (short : step ≤ maxBiasStep) (ok : Bool) :
    Attempt.Sensible target ⟨current,
      current + min step |target - current| * (if target - current > 0 then 1 else -1), ok⟩ := by
  have reach : 0 ≤ min step |target - current| := le_min pos (abs_nonneg _)
  have left := min_le_left step |target - current|
  have right := min_le_right step |target - current|
  by_cases up : target - current > 0
  · rw [if_pos up, mul_one]
    rw [abs_of_pos up] at *
    refine ⟨Or.inl ⟨?_, ?_⟩, ?_⟩
    · show current ≤ current + _
      linarith
    · show current + _ ≤ target
      linarith
    · show |current + _ - current| ≤ _
      rw [add_sub_cancel_left, abs_of_nonneg reach]
      linarith
  · rw [if_neg up, mul_neg_one]
    rw [abs_of_nonpos (not_lt.mp up)] at *
    refine ⟨Or.inr ⟨?_, ?_⟩, ?_⟩
    · show target ≤ current + _
      linarith
    · show current + _ ≤ current
      linarith
    · show |current + _ - current| ≤ _
      rw [add_sub_cancel_left, abs_neg, abs_of_nonneg reach]
      linarith

/-- How many attempts were not solved. -/
def failures (attempts : List Attempt) : Nat := attempts.countP fun attempt => !attempt.ok

@[simp] theorem failures_nil : failures [] = 0 := rfl

@[simp] theorem failures_cons (attempt : Attempt) (rest : List Attempt) :
    failures (attempt :: rest) = failures rest + if attempt.ok then 0 else 1 := by
  unfold failures
  rw [List.countP_cons]
  cases attempt.ok <;> rfl

/-- How a loop of attempts ends. -/
structure Walked (ds : Simulator) (s : Solver) (bias : String) (target : Volt) (shrinks : Nat)
    (attempts : List Attempt) (landed : Volt) (s' : Solver) : Prop where
  walk : Walk ds bias s attempts s'
  sensible : ∀ attempt ∈ attempts, attempt.Sensible target
  few : failures attempts + shrinks ≤ maxBisections + 1
  stands : s'.applied.get? bias = some landed
  arrived : |target - landed| ≤ tolerance ∨ failures attempts + shrinks = maxBisections + 1

theorem walked_of_near {s : Solver} {current : Volt} {shrinks : Nat} (hc : s.applied.get? bias = some current)
    (le : shrinks ≤ maxBisections) (near : |target - current| ≤ tolerance) :
    Walked ds s bias target shrinks [] current s :=
  ⟨.nil s, by simp, by simpa using Nat.le_succ_of_le le, hc, Or.inl near⟩

theorem attemptsLoop_spec (fuel : Nat) {s s' : Solver} {step landed : Volt} {shrinks : Nat} (pos : 0 ≤ step)
    (short : step ≤ maxBiasStep) (le : shrinks ≤ maxBisections)
    (done : reachedLoop ds bias target fuel s step shrinks = some (landed, s')) :
    Walked ds s bias target shrinks (attemptsLoop ds bias target fuel s step shrinks) landed s' := by
  induction fuel generalizing s step shrinks with
  | zero => cases done
  | succ fuel ih =>
    unfold reachedLoop at done
    unfold attemptsLoop
    cases hc : s.applied.get? bias with
    | none =>
      rw [hc] at done
      cases done
    | some current =>
      simp only [hc] at done ⊢
      by_cases near : |target - current| ≤ tolerance
      · rw [if_pos near] at done ⊢
        obtain ⟨rfl, rfl⟩ := Prod.mk.inj (Option.some.inj done)
        exact walked_of_near hc le near
      · rw [if_neg near] at done ⊢
        have sensible := @towards_step target current step pos short
        revert done sensible
        generalize current + min step |target - current| * (if target - current > 0 then 1 else -1) = value
        intro done sensible
        cases try_ : s.tryStep ds bias value with
        | none =>
          rw [try_] at done
          cases done
        | some result =>
          obtain ⟨ok, s₁⟩ := result
          rw [try_] at done
          have tried := tryStep_spec hc try_
          cases ok with
          | true =>
            obtain ⟨walk, each, few, stands, arrived⟩ := ih pos short le done
            refine ⟨.cons hc try_ walk, List.forall_mem_cons.mpr ⟨sensible true, each⟩, ?_, stands, ?_⟩
            · simpa using few
            · simpa using arrived
          | false =>
            dsimp only at done ⊢
            by_cases last : shrinks ≥ maxBisections
            · rw [if_pos last] at done ⊢
              rw [tried.get?_self hc] at done
              obtain ⟨rfl, rfl⟩ := Prod.mk.inj (Option.some.inj done)
              refine ⟨.cons hc try_ (.nil _), ?_, ?_, tried.get?_self hc, Or.inr ?_⟩
              · exact List.forall_mem_cons.mpr ⟨sensible false, by simp⟩
              · simp
                omega
              · simp
                omega
            · rw [if_neg last] at done ⊢
              obtain ⟨walk, each, few, stands, arrived⟩ :=
                ih (by linarith) (by linarith) (by omega) done
              refine ⟨.cons hc try_ walk, List.forall_mem_cons.mpr ⟨sensible false, each⟩, ?_, stands, ?_⟩
              · simp
                omega
              · refine arrived.imp_right fun all => ?_
                simp
                omega

theorem attempts_spec (ds : Simulator) {s : Solver} (keyed : s.Keyed) {start : Volt}
    (hc : s.applied.get? bias = some start) (target : Volt) : ∃ landed s', s.reached ds bias target = some (landed, s') ∧
      Walked ds s bias target 0 (s.attempts ds bias target) landed s' := by
  obtain ⟨landed, -, s', done, -, -⟩ := reached_spec ds keyed hc target
  refine ⟨landed, s', done, ?_⟩
  unfold reached at done
  unfold attempts
  simp only [hc] at done ⊢
  by_cases stays : target - start = 0
  · rw [if_pos stays] at done ⊢
    obtain ⟨rfl, rfl⟩ := Prod.mk.inj (Option.some.inj done)
    refine walked_of_near hc (Nat.zero_le _) ?_
    rw [stays, abs_zero]
    norm_num [tolerance]
  · rw [if_neg stays] at done ⊢
    exact attemptsLoop_spec _ (by norm_num [maxBiasStep]) le_rfl (Nat.zero_le _) done

/-- A ramp that raises sets everything back. -/
theorem rampTo_back (ds : Simulator) {s : Solver} (keyed : s.Keyed) {start : Volt}
    (hc : s.applied.get? bias = some start) (target : Volt) {error : SolverError}
    (raised : (s.rampTo ds bias target).2 = some error) :
    (∀ name, (s.rampTo ds bias target).1.applied.get? name = s.applied.get? name) ∧
      ∀ contacts, s.groups.get? bias = some contacts → ∀ contact ∈ contacts,
        (s.rampTo ds bias target).1.device.parameter.get? contact = some start := by
  obtain ⟨landed, last, s', hr, arrived, -⟩ := reached_spec ds keyed hc target
  unfold rampTo at raised ⊢
  simp only [hc, hr] at raised ⊢
  by_cases far : |landed - target| > tolerance
  · rw [if_pos far] at raised ⊢
    obtain ⟨s₁, hset⟩ := set_isSome (arrived.tries.keyed keyed) arrived.stands start
    obtain ⟨driven, hg, rfl⟩ := set_eq_some hset
    simp only [hset]
    constructor
    · intro name
      show (s'.applied.set bias start).get? name = _
      by_cases e : name = bias
      · rw [e, Dict.get?_set_self, hc]
      · rw [Dict.get?_set_of_ne _ _ e, arrived.tries.get?_of_ne e]
    · intro contacts hg' contact mem
      rw [arrived.tries.groups, hg'] at hg
      obtain rfl := Option.some.inj hg
      exact Dict.get?_update_map _ mem start
  · rw [if_neg far] at raised
    cases raised

/-- From a bias that stands at `start`, `reached` ends; its attempts go towards the target by no more than a step
each, few of them fail, and it returns where the bias stands, which is at the target unless too many failed. A
`ramp_to` that raises leaves every voltage as it was. -/
theorem ramp_safe (ds : Simulator) {s : Solver} (keyed : s.Keyed) {bias : String} {start : Volt}
    (hc : s.applied.get? bias = some start) (hp : ∀ contacts, s.groups.get? bias = some contacts →
      ∀ contact ∈ contacts, s.device.parameter.get? contact = some start) (target : Volt) :
    (∃ landed s', s.reached ds bias target = some (landed, s') ∧ Walk ds bias s (s.attempts ds bias target) s' ∧
      (∀ attempt ∈ s.attempts ds bias target, Towards target attempt.stood attempt.value ∧
        |attempt.value - attempt.stood| ≤ maxBiasStep) ∧
      (start :: accepted (s.attempts ds bias target)).Pairwise (Towards target) ∧
      failures (s.attempts ds bias target) ≤ maxBisections + 1 ∧ s'.applied.get? bias = some landed ∧
      (|target - landed| ≤ tolerance ∨ failures (s.attempts ds bias target) = maxBisections + 1)) ∧
    ∀ error, (s.rampTo ds bias target).2 = some error →
      (∀ name, (s.rampTo ds bias target).1.applied.get? name = s.applied.get? name) ∧
      ∀ contacts, s.groups.get? bias = some contacts → ∀ contact ∈ contacts,
        (s.rampTo ds bias target).1.device.parameter.get? contact = s.device.parameter.get? contact := by
  constructor
  · obtain ⟨landed, s', done, walked⟩ := attempts_spec ds keyed hc target
    refine ⟨landed, s', done, walked.walk, fun attempt mem => ?_, walked.walk.pairwise walked.sensible hc,
      walked.few, walked.stands, walked.arrived⟩
    exact ⟨(walked.sensible attempt mem).towards, (walked.sensible attempt mem).stride⟩
  · intro error raised
    obtain ⟨applied, parameter⟩ := rampTo_back ds keyed hc target raised
    refine ⟨applied, fun contacts hg contact mem => ?_⟩
    rw [parameter contacts hg contact mem, hp contacts hg contact mem]

/-- A simulator that never converges. -/
def deaf : Simulator where
  solve _ := .raised
  contactCurrent _ _ _ := none
  circuitNodeValue _ _ := none

theorem ramp_safe_deaf : ∃ landed s', (init (drainSwept [1])).reached deaf "Vd" 1 = some (landed, s') ∧
    failures ((init (drainSwept [1])).attempts deaf "Vd" 1) ≤ maxBisections + 1 := by
  have stands : ∀ contacts, (init (drainSwept [1])).groups.get? "Vd" = some contacts →
      ∀ contact ∈ contacts, (init (drainSwept [1])).device.parameter.get? contact = some 0 := by
    intro contacts hg contact mem
    obtain rfl : ["drain"] = contacts := Option.some.inj hg
    rw [List.mem_singleton.mp mem]
    rfl
  obtain ⟨⟨landed, s', done, -, -, -, few, -⟩, -⟩ :=
    @ramp_safe deaf _ (keyed_init (drainSwept [1])) "Vd" 0 rfl stands 1
  exact ⟨landed, s', done, few⟩

example : ((init (drainSwept [1])).attempts deaf "Vd" 1).map Attempt.value = [1 / 4, 1 / 8, 1 / 16, 1 / 32] := by
  decide +kernel

end Solver

end TcadWebapp.Devsim
