import Mathlib.Data.List.SplitOn
import TcadWebapp.Misc.Text

/-!
# The names of tabs

`frontend/src/features/files/tabLabels.ts`: a tab shows the last component of its path, and more of them only
where the paths of other tabs end in the same ones.
-/

namespace TcadWebapp.Editor

/-- `path.split('/')`. -/
def components (path : Text) : List Text := path.splitOn '/'

/-- `split('/').slice(-depth)`, which is all of them if there are fewer. -/
def lastComponents (path : Text) (depth : Nat) : List Text :=
  (components path).drop ((components path).length - depth)

/-- `tail`. -/
def tail (path : Text) (depth : Nat) : Text := ['/'].intercalate (lastComponents path depth)

/-- `collides`. -/
def collides (paths : List Text) (path : Text) (take : Nat) : Bool :=
  paths.any fun other => other ≠ path ∧ tail other take = tail path take

/-- The loop over `take`. -/
def labelFrom (paths : List Text) (path : Text) : List Nat → Text
  | [] => path
  | take :: rest => if collides paths path take then labelFrom paths path rest else tail path take

def tabLabels (paths : List Text) : List Text :=
  paths.map fun path => labelFrom paths path (List.range' 1 (components path).length)

end TcadWebapp.Editor
