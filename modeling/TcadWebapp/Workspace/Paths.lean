import TcadWebapp.Misc.Lookup
import TcadWebapp.Misc.Python

/-!
# Paths in a workspace

`backend/app/workspace/paths.py`. The path of a user is read against the root of a workspace: its
double dots are undone in the text, and its links are followed as far as there is something.
-/

namespace TcadWebapp.Workspace

/-- What the operations of a workspace raise. -/
inductive Error where
  | invalidPath (text : String)
  | notFound (path : Text)
  | conflict (path : Text)
  | quotaExceeded (path : Text)
  | osError (errno : Errno)
  /-- `Path.resolve` met a loop of links. -/
  | runtimeError
  /-- `Path.relative_to` of a path that is not below the other. -/
  | valueError
  deriving DecidableEq, Repr

/-- `OUTSIDE_ROOT`. -/
def outsideRoot : String := "허용되지 않는 경로입니다"

/-- `SOURCE_SUFFIX`. -/
def sourceSuffix : Text := ['.', 'i', 'n']

/-- `MAX_NAME`. -/
def maxName : Nat := 255

/-- The loop over the parts of a path, past the parts that are kept so far; `none` if it leads out
of the root. -/
def normalise : List Text → List Text → Option (List Text)
  | parts, [] => some parts
  | parts, part :: rest =>
    if part = [] ∨ part = ['.'] then normalise parts rest
    else if part = ['.', '.'] then
      if parts = [] then none else normalise parts.dropLast rest
    else normalise (parts ++ [part]) rest

/-- The parts below the root that a path names, if it may be followed. -/
def partsOf (path : Text) : Option (List Text) :=
  if Char.ofNat 0 ∈ path then none
  else if (PosixPath.parse path).absolute then none
  else normalise [] (PosixPath.parse path).parts

variable (fs : Files)

/-- The loop that goes up to what is there, on the parts in reverse. -/
def probeFrom (root : PosixPath) : List Text → PosixPath
  | [] => root
  | name :: above =>
    let probe := root.join (name :: above).reverse
    if fs.pathExists probe then probe else probeFrom root above

/-- `path.resolve(strict=False)` in the `try` of `resolve_in_root`: a loop is not an `OSError`. -/
def resolved (path : PosixPath) : Except Error Location :=
  match fs.resolve path with
  | .ok place => .ok place
  | .error _ => .error .runtimeError

/-- `resolve_in_root`. -/
def resolveInRoot (root : PosixPath) (path : Text) : Except Error PosixPath := do
  match partsOf path with
  | none => .error (.invalidPath outsideRoot)
  | some parts =>
    let probe := probeFrom fs root parts.reverse
    let place ← resolved fs probe
    let rootPlace ← resolved fs root
    if place ≠ rootPlace ∧ ⟨true, rootPlace⟩ ∉ PosixPath.parents ⟨true, place⟩ then
      .error (.invalidPath outsideRoot)
    else .ok (root.join parts)

/-- `relative_to_root`. -/
def relativeToRoot (root path : PosixPath) : Except Error Text :=
  if path = root then .ok []
  else if path.absolute = root.absolute ∧ root.parts <+: path.parts then
    .ok (['/'].intercalate (path.parts.drop root.parts.length))
  else .error .valueError

/-- `text.encode()`. -/
def encode (text : Text) : List UInt8 := text.flatMap String.utf8EncodeChar

/-- `validate_name`. -/
def validateName (name : Text) : Except Error Unit :=
  if name = [] ∨ name.strip = [] then .error (.invalidPath "이름을 입력해 주세요")
  else if maxName < (encode name).length then .error (.invalidPath "이름이 너무 깁니다")
  else if name = ['.'] ∨ name = ['.', '.'] then .error (.invalidPath "쓸 수 없는 이름입니다")
  else if '/' ∈ name ∨ '\\' ∈ name ∨ Char.ofNat 0 ∈ name then
    .error (.invalidPath "이름에 경로 구분자를 넣을 수 없습니다")
  else if name.head? = some '.' then
    .error (.invalidPath "점으로 시작하는 이름은 쓸 수 없습니다")
  else .ok ()

/-- `is_source_file`. Of all characters only the capital and the small letter have these small
letters. -/
def isSourceFile (path : Text) : Bool :=
  (PosixPath.suffixOf (PosixPath.parse path).name).map Char.toLower = sourceSuffix

/-! ## Where a path leads -/

/-- The file that is opened at the path, with the file created if it is missing, is in the root. -/
def Confined (root : PosixPath) (path : Text) : Prop :=
  ∀ candidate, resolveInRoot fs root path = .ok candidate →
    ∀ place, fs.locate .openCreate candidate = .ok place →
      ∃ rootPlace, fs.resolve root = .ok rootPlace ∧ rootPlace <+: place

/-- The path ends at a link, in a folder within the root, to something that is missing and would be
created outside. -/
def LinksOut (root : PosixPath) (path : Text) : Prop :=
  ∃ above name folder target rootPlace place,
    partsOf path = some (above ++ [name]) ∧ fs.resolve root = .ok rootPlace ∧
      fs.locate .stat (root.join above) = .ok folder ∧ rootPlace <+: folder ∧
      fs.get? (folder ++ [name]) = some (.link target) ∧
      fs.stat (root.join (above ++ [name])) = none ∧
      fs.locate .openCreate (root.join (above ++ [name])) = .ok place ∧ ¬ rootPlace <+: place

end TcadWebapp.Workspace
