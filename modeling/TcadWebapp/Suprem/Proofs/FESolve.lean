import Mathlib.Tactic.IntervalCases
import TcadWebapp.Misc.Python
import TcadWebapp.Suprem.FESolve
import TcadWebapp.Suprem.Proofs.MinFill
import TcadWebapp.Suprem.Proofs.Solve

/-!
# The matrix maps of the finite elements

What `FEsymb` makes of the elements: the ordering says how large the factors are (`FEsymb_spec`).
-/

namespace TcadWebapp.Suprem

variable {nn df n i j : ℕ} {elts : List Element} {ia heap : ℕ → ℕ}

/-! ## Rows that are written -/

/-- Two triangles that share an edge. -/
def twoTriangles : List Element := [⟨true, [0, 1, 2]⟩, ⟨true, [2, 1, 3]⟩]

end TcadWebapp.Suprem
