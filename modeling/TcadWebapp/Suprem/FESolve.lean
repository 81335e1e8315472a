import Mathlib.Data.List.Sort
import TcadWebapp.Suprem.MinFill

/-!
# The matrix maps of the finite elements

`FEsymb` of `finel/FEsolve.c` with the minimum fill ordering, as `oxide/viscous.c` asks for it, and what it calls.
-/

namespace TcadWebapp.Suprem

/-- `FEelt`: the nodes of an element, and whether what it is described by has coefficients. -/
structure Element where
  coeff : Bool
  nd : List ℕ

/-- A number that is stored as a `short`. -/
def short (x : ℕ) : ℤ := (x : ℤ).bmod 65536

end TcadWebapp.Suprem
