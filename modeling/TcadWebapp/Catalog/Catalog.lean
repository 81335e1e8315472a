import TcadWebapp.Misc.Text

/-!
# The catalog of commands

`backend/app/catalog/models.py`, `resolution.py` and what `catalog.py` looks up: commands with their parameters, and
the names that a word stands for.
-/

namespace TcadWebapp.Catalog

/-! ## Records -/

/-- `RUNTIME_NAME_LIMIT`. -/
def runtimeNameLimit : ℕ := 11

inductive ParameterType where
  | integer
  | float
  | string
  | boolean
  deriving DecidableEq, Repr

/-- `runtime_name`. -/
def runtimeName (name : Text) : Text := name.take runtimeNameLimit

structure Parameter where
  name : Text
  type : ParameterType
  sourceName : Text
  default : Option Text := none
  units : Option Text := none
  description : Option Text := none
  error : Option Text := none
  message : Option Text := none
  group : Option Text := none
  groupMessage : Option Text := none
  unreachable : Bool := false
  deriving DecidableEq, Repr

structure Command where
  name : Text
  sourceName : Text
  description : Option Text := none
  parameters : List Parameter := []
  deriving DecidableEq, Repr

/-- `Command.parameter_names`. -/
def Command.parameterNames (command : Command) : List Text := command.parameters.map fun p => p.name

/-! ## What a word stands for -/

inductive Resolution where
  | resolved
  | ambiguous
  | unknown
  deriving DecidableEq, Repr

structure Match where
  status : Resolution
  name : Option Text := none
  candidates : List Text := []
  deriving DecidableEq, Repr

def resolve (token : Text) (names : List Text) : Match :=
  match names.filter fun name => token.isPrefixOf name with
  | [] => { status := .unknown }
  | [name] => { status := .resolved, name := some name }
  | candidates => { status := .ambiguous, candidates }

/-- `is_unreachable`. -/
def isUnreachable (name : Text) (names : List Text) : Bool :=
  names.any fun other => other ≠ name && name.isPrefixOf other

/-! ## Lookups -/

/-- `Catalog.resolve_parameter`. -/
def resolveParameter (command : Command) (token : Text) : Match := resolve token command.parameterNames

/-- `Catalog.complete_parameters`. -/
def completeParameters (command : Command) (pre : Text) : List Parameter :=
  command.parameters.filter fun parameter => pre.isPrefixOf parameter.name && !parameter.unreachable

end TcadWebapp.Catalog
