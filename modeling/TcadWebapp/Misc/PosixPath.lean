import Mathlib.Data.List.DropRight
import Mathlib.Data.List.Infix
import TcadWebapp.Misc.Text

/-!
# Paths by their parts

`pathlib.PurePosixPath`: a text is split at its slashes, empty parts and single dots are left out,
double dots stay.
-/

namespace TcadWebapp

/-- A POSIX path, by its parts. -/
structure PosixPath where
  absolute : Bool
  parts : List Text
  deriving DecidableEq, Repr

/-- A name that something can have. -/
def IsName (name : Text) : Prop :=
  name ≠ [] ∧ name ≠ ['.'] ∧ name ≠ ['.', '.'] ∧ '/' ∉ name

instance (name : Text) : Decidable (IsName name) := inferInstanceAs (Decidable (_ ∧ _))

namespace PosixPath

/-- `PurePosixPath(text)`. -/
def parse (text : Text) : PosixPath where
  absolute := text.head? = some '/'
  parts := (text.splitOn '/').filter fun part => part ≠ [] ∧ part ≠ ['.']

/-- `str(path)`. -/
def str (path : PosixPath) : Text :=
  if path.absolute then '/' :: ['/'].intercalate path.parts
  else if path.parts = [] then ['.']
  else ['/'].intercalate path.parts

/-- `path.joinpath(*names)`, for names that are one part each. -/
def join (path : PosixPath) (names : List Text) : PosixPath :=
  { path with parts := path.parts ++ names }

@[simp] theorem join_parts (path : PosixPath) (names : List Text) :
    (path.join names).parts = path.parts ++ names := rfl

@[simp] theorem join_absolute (path : PosixPath) (names : List Text) :
    (path.join names).absolute = path.absolute := rfl

@[simp] theorem join_nil (path : PosixPath) : path.join [] = path := by simp [join]

theorem join_join (path : PosixPath) (names more : List Text) :
    (path.join names).join more = path.join (names ++ more) := by simp [join]

theorem join_inj {path : PosixPath} {names names' : List Text}
    (h : path.join names = path.join names') : names = names' := by
  have parts := congrArg PosixPath.parts h
  exact List.append_cancel_left parts

/-- `path.name`. -/
def name (path : PosixPath) : Text := path.parts.getLast?.getD []

theorem name_join (path : PosixPath) (above : List Text) (last : Text) :
    (path.join (above ++ [last])).name = last := by
  simp [name, join]

/-- `path.parent`. -/
def parent (path : PosixPath) : PosixPath := { path with parts := path.parts.dropLast }

theorem parent_join (path : PosixPath) (above : List Text) (last : Text) :
    (path.join (above ++ [last])).parent = path.join above := by
  simp [parent, join, ← List.append_assoc]

/-- `path.parents`. -/
def parents (path : PosixPath) : List PosixPath :=
  (List.range path.parts.length).map fun n => { path with parts := path.parts.take n }

theorem mem_parents {path above : PosixPath} :
    above ∈ path.parents ↔ above.absolute = path.absolute ∧ above.parts <+: path.parts ∧
      above.parts ≠ path.parts := by
  simp only [parents, List.mem_map, List.mem_range]
  constructor
  · rintro ⟨n, lt, rfl⟩
    refine ⟨rfl, List.take_prefix _ _, fun same => ?_⟩
    have length := congrArg List.length same
    simp only [List.length_take] at length
    omega
  · rintro ⟨absolute, pre, ne⟩
    refine ⟨above.parts.length, ?_, ?_⟩
    · refine lt_of_le_of_ne pre.length_le fun same => ne ?_
      exact pre.eq_of_length same
    · rw [← List.prefix_iff_eq_take.mp pre, ← absolute]

/-- `name.suffix`: from the last dot on, if there is something on both sides of it. -/
def suffixOf (name : Text) : Text :=
  let last := name.rtakeWhile (· ≠ '.')
  let stem := (name.rdropWhile (· ≠ '.')).dropLast
  if '.' ∈ name ∧ stem ≠ [] ∧ last ≠ [] then '.' :: last else []

example : suffixOf "a.b.IN".toList = ".IN".toList := by decide
example : suffixOf ".in".toList = [] := by decide

/-- What is parsed of the parts that a path shows is the parts. -/
theorem parts_parse_intercalate {names : List Text} (h : ∀ name ∈ names, IsName name) :
    (parse (['/'].intercalate names)).parts = names := by
  by_cases none : names = []
  · subst none
    rfl
  · have split := List.splitOn_intercalate '/' (fun name mem => (h name mem).2.2.2) none
    simp only [parse, split, List.filter_eq_self, decide_eq_true_eq]
    exact fun name mem => ⟨(h name mem).1, (h name mem).2.1⟩

end PosixPath

end TcadWebapp
