import TcadWebapp.Runner.Recover

/-!
# Where a run is resumed

The source is resumed behind the last line in which it mentions a file that exists. That is behind
the last line that has saved a file exactly when that line is the one with the mention.
-/

namespace TcadWebapp.Runner

open Regex

variable {sim : Simulator} {isalnum : Char → Bool}

/-! ## Lines of the source -/

namespace DeadRun

/-- The line in which a mention ends. -/
def lineOf (m : Match) : Nat := m.stop.before.count '\n'

end DeadRun

end TcadWebapp.Runner
