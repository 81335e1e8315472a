import Mathlib.Data.List.Sort
import TcadWebapp.Devsim.Solver

/-!
# The run over the bias plan

`run` of `docker/devsim/run.py:502-691`: the equilibrium, the warm-up and the constants, the
walk over the sweep values, and the loop over the curves with its records. `visits` is not in
the source: it collects each visit of a sweep value with the solver before and after it.
-/

namespace TcadWebapp.Devsim

/-- An entry of `rows`. -/
structure Row where
  sweep : Volt
  steps : Dict String Volt
  currents : Dict String Volt
  voltages : Dict String Volt
  newton : Nat
  deriving DecidableEq

/-- An entry of `failures`. -/
structure Failure where
  sweep : Volt
  steps : Dict String Volt
  reason : String
  newton : Nat
  deriving DecidableEq

/-- A line of `iv.jsonl`. -/
inductive Line where
  | moving (steps : Dict String Volt)
  | row (row : Row)
  | failure (failure : Failure)
  deriving DecidableEq

/-- Python's `f"{x:g}"`, `repr` of a string and `str.strip`. -/
structure Python where
  formatG : Volt → String
  repr : String → String
  strip : String → String

/-- `str(error)`. -/
def SolverError.str (py : Python) : SolverError → String
  | .keyError key => py.repr key
  | .indexError => "list index out of range"
  | .stuck bias target landed => bias ++ " 를 " ++ py.formatG target ++ " V 까지 올리지 못했습니다 (" ++
      py.formatG landed ++ " V 에서 막힘)"

/-- `error.__class__.__name__`. -/
def SolverError.className : SolverError → String
  | .keyError _ => "KeyError"
  | .indexError => "IndexError"
  | .stuck _ _ _ => "RuntimeError"

/-- The text of the failure of a point that was not reached. -/
def blockedText (py : Python) (landed : Volt) : String := py.formatG landed ++ " V 에서 막혔습니다"

/-- `str(error).strip() or error.__class__.__name__`. -/
def reasonOf (py : Python) (text className : String) : String :=
  let stripped := py.strip text
  if stripped = "" then className else stripped

/-- A visit of a sweep value, from a curve's start or the point before. -/
structure Visit where
  combination : Dict String Volt
  value : Volt
  before : Solver
  after : Solver
  row : Option Row
  deriving DecidableEq

/-- The variables of the loop over the curves. -/
structure State where
  solver : Solver
  stream : List Line
  rows : List Row
  failures : List Failure
  curveStart : Option (Provenance × Dict String Volt)
  visits : List Visit
  deriving DecidableEq

/-- Why a run ends with an exception. -/
inductive Abort where
  /-- The equilibrium or the first drift-diffusion solve. -/
  | notSolved
  /-- The warm-up or a constant. -/
  | ramp (error : SolverError)
  /-- Reading a current or a node potential raised. -/
  | reading
  deriving DecidableEq

/-- `walk` and `turn`: the order in which the sweep values are visited, and where the walk
goes back to the start of the curve. -/
structure Walk where
  values : List Volt
  turn : Nat
  deriving DecidableEq, Repr

/-- `warm` (`run.py:527-529`). -/
def Plan.warm (plan : Plan) : Option Volt :=
  match plan.floating, plan.sweepValues with
  | [], _ => none
  | _, [] => none
  | _, v :: rest => some (1 / 2 * (rest.foldl min v + rest.foldl max v))

/-- `run.py:546-552`. -/
def Plan.walk (plan : Plan) : Walk :=
  match plan.warm with
  | none => ⟨plan.sweepValues, 0⟩
  | some warm =>
    let upper := (plan.sweepValues.filter fun v => v ≥ warm).insertionSort (· ≤ ·)
    let lower := (plan.sweepValues.filter fun v => v < warm).insertionSort (· ≥ ·)
    ⟨upper ++ lower, upper.length⟩

/-- A solve of the equilibrium stage; `false` raises. Its solution is not yet one of the
full equations. -/
def equilibrium (ds : Simulator) (s : Solver) : Bool × Solver :=
  match s.dsSolve ds with
  | (.returned true _, s) => (true, { s with device :=
      { s.device with regions := .stray s.calls, circuit := .stray s.calls } })
  | (_, s) => (false, s)

/-- The warm-up: the sweep bias goes to the middle of its values (`run.py:527-531`). -/
def warmUp (ds : Simulator) (plan : Plan) (s : Solver) : Solver × Option SolverError :=
  match plan.warm with
  | none => (s, none)
  | some warm =>
    if s.applied.get? plan.sweepBias = some warm then (s, none)
    else s.rampTo ds plan.sweepBias warm

/-- Everything before the curves (`run.py:507-534`). -/
def prepare (ds : Simulator) (payload : Payload) : Solver × Option Abort :=
  match equilibrium ds (Solver.init payload).mark with
  | (false, s) => (s, some .notSolved)
  | (true, s) =>
    match equilibrium ds s with
    | (false, s) => (s, some .notSolved)
    | (true, s) =>
      match s.solve ds with
      | (false, s) => (s, some .notSolved)
      | (true, s) =>
        match warmUp ds payload.plan s with
        | (s, some error) => (s, some (.ramp error))
        | (s, none) =>
          match s.rampAll ds payload.plan.constants.entries with
          | (s, some error) => (s, some (.ramp error))
          | (s, none) => (s, none)

namespace State

/-- `record` of a line. -/
def record (st : State) (line : Line) : State := { st with stream := st.stream ++ [line] }

/-- `give_up`. -/
def giveUp (py : Python) (st : State) (combination : Dict String Volt) (value : Volt)
    (text className : String) (newton : Nat) : State :=
  let entry : Failure := ⟨value, combination, reasonOf py text className, newton⟩
  { st with failures := st.failures ++ [entry] }.record (.failure entry)

/-- Back to the start of the previous curve, where there is one (`run.py:604-616`). -/
def backToStart (st : State) : Solver × Option SolverError :=
  match st.curveStart with
  | none => (st.solver, none)
  | some (state, applied) => (st.solver.restore state).resetTo applied

/-- From there the steps of this curve and the first value of the walk (`run.py:617-619`). -/
def enterCurve (ds : Simulator) (plan : Plan) (combination : Dict String Volt) (st : State) :
    Solver × Option SolverError :=
  match st.backToStart with
  | (s, some error) => (s, some error)
  | (s, none) =>
    match s.rampAll ds combination.entries with
    | (s, some error) => (s, some error)
    | (s, none) =>
      match plan.walk.values.head? with
      | none => (s, some .indexError)
      | some value => s.rampTo ds plan.sweepBias value

/-- The solver with which the walk goes on at `index`: at the turn it goes back to the start
of the curve (`run.py:633-636`). -/
def turned (plan : Plan) (start : Provenance × Dict String Volt) (s : Solver) (index : Nat) :
    Solver × Option SolverError :=
  if plan.walk.turn ≠ 0 ∧ index = plan.walk.turn then (s.restore start.1).resetTo start.2
  else (s, none)

/-- One value of the walk (`run.py:633-669`). -/
def visit (ds : Simulator) (py : Python) (payload : Payload) (combination : Dict String Volt)
    (start : Provenance × Dict String Volt) (st : State) (index : Nat) (value : Volt) :
    State × Option Abort :=
  match turned payload.plan start st.solver index with
  | (s, some error) => ({ st with solver := s }, some (.ramp error))
  | (s, none) =>
    match s.reached ds payload.plan.sweepBias value with
    | none => ({ st with solver := s }, some (.ramp (.keyError payload.plan.sweepBias)))
    | some (landed, s') =>
      let spent := s'.newton - s.newton
      if |landed - value| > tolerance then
        let seen : Visit := ⟨combination, value, s, s', none⟩
        ({ st with solver := s', visits := st.visits ++ [seen] }.giveUp py combination value
          (blockedText py landed) "RuntimeError" spent, none)
      else
        match s'.voltages ds payload, s'.currents ds payload with
        | some solved, some currents =>
          let row : Row := ⟨value, combination, currents, solved, spent⟩
          let seen : Visit := ⟨combination, value, s, s', some row⟩
          ({ st with
            solver := s', rows := st.rows ++ [row], visits := st.visits ++ [seen] }.record
              (.row row), none)
        | _, _ => ({ st with solver := s' }, some .reading)

/-- The walk over a curve, from the value at `index` on. -/
def visitAll (ds : Simulator) (py : Python) (payload : Payload)
    (combination : Dict String Volt) (start : Provenance × Dict String Volt) :
    State → Nat → List Volt → State × Option Abort
  | st, _, [] => (st, none)
  | st, index, value :: rest =>
    match st.visit ds py payload combination start index value with
    | (st, some abort) => (st, some abort)
    | (st, none) => visitAll ds py payload combination start st (index + 1) rest

/-- A curve that could not be entered: back to the baseline, all its points given up
(`run.py:620-627`). -/
def giveUpCurve (py : Python) (plan : Plan) (combination : Dict String Volt)
    (baseline : Provenance × Dict String Volt) (error : SolverError) (st : State) :
    State × Option Abort :=
  match (st.solver.restore baseline.1).resetTo baseline.2 with
  | (s, some error) => ({ st with solver := s }, some (.ramp error))
  | (s, none) =>
    (plan.sweepValues.foldl (fun (st : State) value =>
      st.giveUp py combination value (error.str py) error.className 0)
      { st with solver := s, curveStart := none }, none)

/-- One curve (`run.py:597-669`). -/
def curve (ds : Simulator) (py : Python) (payload : Payload)
    (baseline : Provenance × Dict String Volt) (st : State) (combination : Dict String Volt) :
    State × Option Abort :=
  let st := if combination.entries ≠ [] ∨ st.curveStart ≠ none then
    st.record (.moving combination) else st
  match st.enterCurve ds payload.plan combination with
  | (s, some error) =>
    { st with solver := s }.giveUpCurve py payload.plan combination baseline error
  | (s, none) =>
    let start := (s.snapshot, s.applied)
    { st with solver := s, curveStart := some start }.visitAll ds py payload combination start 0
      payload.plan.walk.values

/-- The loop over the curves. -/
def curves (ds : Simulator) (py : Python) (payload : Payload)
    (baseline : Provenance × Dict String Volt) :
    State → List (Dict String Volt) → State × Option Abort
  | st, [] => (st, none)
  | st, combination :: rest =>
    match st.curve ds py payload baseline combination with
    | (st, some abort) => (st, some abort)
    | (st, none) => curves ds py payload baseline st rest

end State

/-- `run`: the state it ends in, and the exception if it ends with one. -/
def run (ds : Simulator) (py : Python) (payload : Payload) : State × Option Abort :=
  match prepare ds payload with
  | (s, some abort) => (⟨s, [], [], [], none, []⟩, some abort)
  | (s, none) =>
    State.curves ds py payload (s.snapshot, s.applied) ⟨s, [], [], [], none, []⟩
      payload.plan.steps

/-! ## Small runs -/

/-- A device on which every solve converges at once. -/
def converging : Simulator where
  solve _ := .returned true 1
  contactCurrent _ _ _ := some 0
  circuitNodeValue _ _ := some 0

/-- A device whose solves converge up to the `n`-th and fail from then on. -/
def convergingUpTo (n : Nat) : Simulator :=
  { converging with solve := fun call => .returned (call < n) 1 }

/-- Whole voltages as Python prints them; texts left as they are. -/
def plain : Python where
  formatG v := if v.den = 1 then toString v.num else toString v.num ++ "/" ++ toString v.den
  repr := id
  strip := id

/-- Source, gate and drain over one region. -/
def threeContacts (source gate drain : String) : List Contact :=
  [⟨"source", "source", "silicon", source⟩, ⟨"gate", "gate", "silicon", gate⟩,
    ⟨"drain", "drain", "silicon", drain⟩]

/-- The source at 1 V, the gate stepped to 2 V, the drain swept over 0 V; the first two biases
are named by the caller. -/
def steppedGate (source gate : String) : Payload where
  regions := [⟨"silicon", true⟩]
  contacts := threeContacts source gate "Vd"
  plan := {
    sweepBias := "Vd"
    sweepValues := [0]
    steps := [Dict.ofList [(gate, 2)]]
    constants := Dict.ofList [(source, 1)]
    floating := []
    total := 1
    total_eq := rfl }

/-- The drain swept over the given values, source and gate at 0 V. -/
def drainSwept (values : List Volt) : Payload where
  regions := [⟨"silicon", true⟩]
  contacts := threeContacts "Vs" "Vg" "Vd"
  plan := {
    sweepBias := "Vd"
    sweepValues := values
    steps := [∅]
    constants := Dict.ofList [("Vs", 0), ("Vg", 0)]
    floating := []
    total := 1 * values.length
    total_eq := rfl }

end TcadWebapp.Devsim
