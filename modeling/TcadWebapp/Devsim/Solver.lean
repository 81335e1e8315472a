import Mathlib.Algebra.Order.Floor.Defs
import Mathlib.Data.Rat.Floor
import TcadWebapp.Devsim.Payload

/-!
# The solver of the runner

`docker/devsim/run.py:250-499`: `snapshot`, `restore`, `contact_bias_names` and the class
`Solver`, over DevSim as a parameter (`Simulator`). What DevSim computes is open: every call
of `ds.solve` may converge, fail to, or raise. Of the solution only its provenance is kept:
which call of `ds.solve` left it, and at which contact voltages if that call converged.

`moments` is not in the source: it collects the pair of `applied` and the contact voltages
each time a method that changes them has come to its end, so that a statement about every
moment of a run can be made about its result.
-/

namespace TcadWebapp.Devsim

/-- `MAX_BIAS_STEP` (`run.py:59`). -/
def maxBiasStep : Volt := 1 / 4

/-- `MAX_BISECTIONS` (`run.py:65`). -/
def maxBisections : Nat := 3

/-- `1e-12`, within which a voltage counts as reached. -/
def tolerance : Volt := 1 / 10 ^ 12

/-- `PER_CM_TO_MICRO_PER_UM` (`run.py:56`). -/
def perCmToMicroPerUm : Volt := 100

/-- Where the values of a solution come from. -/
inductive Provenance where
  /-- The `call`-th `ds.solve` converged to them at these contact voltages. -/
  | solved (call : Nat) (parameter : Dict String Volt)
  /-- The `call`-th `ds.solve` left them without converging, or nothing was solved yet. -/
  | stray (call : Nat)
  deriving DecidableEq

/-- The state of DevSim: the contact voltages set, and the two parts of the solution. -/
structure Device where
  parameter : Dict String Volt
  /-- The node models of the regions. -/
  regions : Provenance
  /-- The potentials of the circuit nodes. -/
  circuit : Provenance
  deriving DecidableEq

/-- How a call of `ds.solve` with `info=True` ends. -/
inductive Outcome where
  | returned (converged : Bool) (iterations : Nat)
  | raised
  deriving DecidableEq, Repr

inductive Carrier where
  | electrons
  | holes
  deriving DecidableEq, Repr

/-- The `devsim` package; where `none` is returned, the call raises. -/
structure Simulator where
  /-- The outcome of the n-th call of `ds.solve`. -/
  solve : Nat → Outcome
  contactCurrent : Device → String → Carrier → Option Volt
  circuitNodeValue : Device → String → Option Volt

/-- What the `try` blocks of `run` catch. -/
inductive SolverError where
  | keyError (key : String)
  | indexError
  /-- `ramp_to` gave up. -/
  | stuck (bias : String) (target landed : Volt)
  deriving DecidableEq, Repr

/-- `Solver` together with the state of DevSim it works on. -/
structure Solver where
  groups : Dict String (List String)
  applied : Dict String Volt
  device : Device
  /-- Calls of `ds.solve` so far. -/
  calls : Nat
  relaxed : Nat
  solves : Nat
  newton : Nat
  moments : List (Dict String Volt × Dict String Volt)
  deriving DecidableEq

/-- `contact_bias_names` (`run.py:279-293`): the contacts of each bias that does not
float. -/
def contactBiasNames (payload : Payload) : Dict String (List String) :=
  payload.contacts.foldl (fun grouped contact =>
    if contact.bias ∈ payload.plan.floating then grouped
    else grouped.alter contact.bias fun names => names.getD [] ++ [contact.name]) ∅

/-- The contact voltages after `setup_physics` (`run.py:189-202`). -/
def initialParameters (payload : Payload) : Dict String Volt :=
  (payload.contacts.filter fun contact => contact.bias ∉ payload.plan.floating).foldl
    (fun parameter contact => parameter.set contact.name 0) ∅

namespace Solver

/-- `Solver.__init__`, on the device as `setup_physics` leaves it. -/
def init (payload : Payload) : Solver where
  groups := contactBiasNames payload
  applied := Dict.ofList ((contactBiasNames payload).keys.map fun name => (name, 0))
  device := ⟨initialParameters payload, .stray 0, .stray 0⟩
  calls := 0
  relaxed := 0
  solves := 0
  newton := 0
  moments := []

/-- Notes the present pair of `applied` and contact voltages. -/
def mark (s : Solver) : Solver :=
  { s with moments := (s.applied, s.device.parameter) :: s.moments }

/-- `snapshot` (`run.py:250-268`): the node models of the regions, and nothing else. -/
def snapshot (s : Solver) : Provenance := s.device.regions

/-- `restore` (`run.py:271-276`). -/
def restore (s : Solver) (state : Provenance) : Solver :=
  { s with device := { s.device with regions := state } }

/-- The loop of `Solver._set`. -/
def setContacts (s : Solver) (contacts : List String) (value : Volt) : Solver :=
  let parameter := s.device.parameter.update (contacts.map fun contact => (contact, value))
  { s with device := { s.device with parameter := parameter } }

/-- `Solver._set`; `none` is a KeyError of `groups`. -/
def set (s : Solver) (bias : String) (value : Volt) : Option Solver :=
  (s.groups.get? bias).map fun contacts => s.setContacts contacts value

/-- A call of `ds.solve`. -/
def dsSolve (ds : Simulator) (s : Solver) : Outcome × Solver :=
  let left := match ds.solve s.calls with
    | .returned true _ => Provenance.solved s.calls s.device.parameter
    | _ => .stray s.calls
  (ds.solve s.calls, { s with
    calls := s.calls + 1, device := { s.device with regions := left, circuit := left } })

/-- `Solver._solve_once`: whether it converged. -/
def solveOnce (ds : Simulator) (s : Solver) : Bool × Solver :=
  match s.dsSolve ds with
  | (.raised, s) => (false, s)
  | (.returned converged iterations, s) =>
    (converged, { s with solves := s.solves + 1, newton := s.newton + iterations })

/-- `Solver.solve`: strictly, then once more with the relaxed criteria; `false` raises. -/
def solve (ds : Simulator) (s : Solver) : Bool × Solver :=
  match s.solveOnce ds with
  | (true, s) => (true, s)
  | (false, s) =>
    match s.solveOnce ds with
    | (true, s) => (true, { s with relaxed := s.relaxed + 1 })
    | (false, s) => (false, s)

/-- `Solver._try`. -/
def tryStep (ds : Simulator) (s : Solver) (bias : String) (value : Volt) :
    Option (Bool × Solver) :=
  match s.set bias value with
  | none => none
  | some s =>
    match s.solve ds with
    | (true, s) => some (true, { s with applied := s.applied.set bias value }.mark)
    | (false, s) =>
      match s.applied.get? bias with
      | none => none
      | some current => (s.set bias current).map fun s => (false, s.mark)

/-- The loop of `Solver.reached`. The fuel is more than the loop can use (`reached_spec`). -/
def reachedLoop (ds : Simulator) (bias : String) (target : Volt) :
    Nat → Solver → Volt → Nat → Option (Volt × Solver)
  | 0, _, _, _ => none
  | fuel + 1, s, step, shrinks =>
    match s.applied.get? bias with
    | none => none
    | some current =>
      let remaining := target - current
      if |remaining| ≤ tolerance then some (current, s)
      else
        let reach := min step |remaining|
        let value := current + reach * (if remaining > 0 then 1 else -1)
        match s.tryStep ds bias value with
        | none => none
        | some (true, s) => reachedLoop ds bias target fuel s step shrinks
        | some (false, s) =>
          if shrinks ≥ maxBisections then (s.applied.get? bias).map fun landed => (landed, s)
          else reachedLoop ds bias target fuel s (step / 2) (shrinks + 1)

/-- Enough for a way of `span`: the steps that succeed are no shorter than the third
bisection leaves them, and at most four fail. -/
def fuelFor (span : Volt) : Nat := ⌈|span| / (maxBiasStep / 2 ^ maxBisections)⌉₊ + 6

/-- `Solver.reached`; `none` is a KeyError. -/
def reached (ds : Simulator) (s : Solver) (bias : String) (target : Volt) :
    Option (Volt × Solver) :=
  match s.applied.get? bias with
  | none => none
  | some current =>
    let span := target - current
    if span = 0 then some (current, s)
    else reachedLoop ds bias target (fuelFor span) s maxBiasStep 0

/-- `Solver.ramp_to`: the solver as it is left, and the error if it raises. -/
def rampTo (ds : Simulator) (s : Solver) (bias : String) (target : Volt) :
    Solver × Option SolverError :=
  match s.applied.get? bias, s.reached ds bias target with
  | some current, some (landed, s) =>
    if |landed - target| > tolerance then
      match s.set bias current with
      | none => (s, some (.keyError bias))
      | some s =>
        ({ s with applied := s.applied.set bias current }.mark, some (.stuck bias target landed))
    else (s, none)
  | _, _ => (s, some (.keyError bias))

/-- A loop of `ramp_to` over the items of a dictionary, up to the first error. -/
def rampAll (ds : Simulator) : Solver → List (String × Volt) → Solver × Option SolverError
  | s, [] => (s, none)
  | s, (name, value) :: rest =>
    match s.rampTo ds name value with
    | (s, some error) => (s, some error)
    | (s, none) => rampAll ds s rest

/-- The loop of `Solver.reset_to`, up to the first error. -/
def setAll : Solver → List (String × Volt) → Solver × Option SolverError
  | s, [] => (s, none)
  | s, (bias, value) :: rest =>
    match s.set bias value with
    | none => (s, some (.keyError bias))
    | some s => setAll s rest

/-- `Solver.reset_to`. -/
def resetTo (s : Solver) (applied : Dict String Volt) : Solver × Option SolverError :=
  match s.setAll applied.entries with
  | (s, some error) => (s, some error)
  | (s, none) => ({ s with applied := applied }.mark, none)

/-- `Solver.voltages`. -/
def voltages (ds : Simulator) (payload : Payload) (s : Solver) : Option (Dict String Volt) :=
  (payload.plan.floating.mapM fun node =>
    (ds.circuitNodeValue s.device node).map fun value => (node, value)).map Dict.ofList

/-- `Solver.currents`. -/
def currents (ds : Simulator) (payload : Payload) (s : Solver) : Option (Dict String Volt) :=
  let semiconductors := (payload.regions.filter Region.isSemiconductor).map Region.name
  payload.contacts.foldlM (fun totals contact =>
    if contact.region ∉ semiconductors then
      some (totals.alter contact.bias fun total => total.getD 0)
    else do
      let electrons ← ds.contactCurrent s.device contact.name .electrons
      let holes ← ds.contactCurrent s.device contact.name .holes
      some (totals.alter contact.bias fun total =>
        total.getD 0 + (electrons + holes) * perCmToMicroPerUm)) ∅

end Solver

end TcadWebapp.Devsim
