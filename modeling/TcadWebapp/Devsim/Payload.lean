import Mathlib.Data.Rat.Defs
import TcadWebapp.Misc.Dict

/-!
# What crosses over into the container

The parts of `device.json` (`devsim/payload.py:70-129`) that the runner's solver reads: the
contacts, the regions' kinds and the bias plan. Mesh, doping and material names go to DevSim
alone and are left out. Voltages are exact: a float of the source is the rational it
denotes, and the rounding of sums is not modelled.
-/

namespace TcadWebapp.Devsim

abbrev Volt := Rat

/-- An entry of `contacts`. -/
structure Contact where
  name : String
  electrode : String
  region : String
  bias : String
  deriving DecidableEq, Repr

/-- An entry of `regions`. -/
structure Region where
  name : String
  isSemiconductor : Bool
  deriving DecidableEq, Repr

/-- `plan`. `total` is what the progress bar counts against. -/
structure Plan where
  sweepBias : String
  sweepValues : List Volt
  steps : List (Dict String Volt)
  constants : Dict String Volt
  floating : List String
  total : Nat
  total_eq : total = steps.length * sweepValues.length

structure Payload where
  regions : List Region
  contacts : List Contact
  plan : Plan

end TcadWebapp.Devsim
