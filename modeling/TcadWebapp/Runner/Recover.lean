import TcadWebapp.Runner.Results

/-!
# Resuming a run that died

`find_checkpoint` infers from the files in the working directory and from the source how far the
simulator came. The simulator itself, and what a command line does to the directory, are
parameters.
-/

namespace TcadWebapp.Runner

open Regex

/-- Lines, each with its newline. -/
def sourceOf (lines : List Text) : Text := lines.flatMap fun line => line ++ ['\n']

/-- Where the container finds the working directory. -/
def sandboxWorkdir : Text := "work".toList

/-- The simulator, by what its commands do to the names in the working directory. -/
structure Simulator where
  /-- The file that a save command writes, by the parts of its path in the container. -/
  saves : Text → Option (List Text)
  /-- What another command makes of the names. -/
  others : Text → List Text → List Text

namespace Simulator

/-- What the execution of a line makes of the names. -/
def step (sim : Simulator) (names : List Text) (line : Text) : List Text :=
  match sim.saves line with
  | some (directory :: name :: _) => if directory = sandboxWorkdir then name :: names else names
  | some _ => names
  | none => sim.others line names

end Simulator

/-- A run that died after some of the lines of its source, begun in a directory without structure
files. -/
structure DeadRun where
  lines : List Text
  oneLine : ∀ line ∈ lines, '\n' ∉ line
  executed : Nat
  start : List Text
  fresh : ∀ name ∈ start, ¬ ".str".toList <:+ name

namespace DeadRun

/-- The names in the working directory when the run has died. -/
def names (run : DeadRun) (sim : Simulator) : List Text :=
  (run.lines.take run.executed).foldl sim.step run.start

/-- `(workdir / name).exists()`, where the directory itself and the one above it exist. -/
def present (run : DeadRun) (sim : Simulator) (name : Text) : Bool :=
  name = [] ∨ name = ['.', '.'] ∨ name ∈ run.names sim

/-- What is left of the source behind a line. -/
def behind (run : DeadRun) (line : Nat) : Text := sourceOf (run.lines.drop (line + 1))

end DeadRun

end TcadWebapp.Runner
