import Mathlib
import TcadWebapp.Misc.Lts
import TcadWebapp.Workspace.Paths

/-!
# The workspace of a user

`backend/app/workspace/service.py`. An operation reads and changes the file system and returns or
raises; what it had changed before it raised stays.
-/

namespace TcadWebapp.Workspace

/-- A method of `Workspace`. -/
def Op (α : Type) : Type := Files → Except Error α × Files

namespace Op

instance : Monad Op where
  pure a fs := (.ok a, fs)
  bind op next fs :=
    match op fs with
    | (.ok a, fs') => next a fs'
    | (.error e, fs') => (.error e, fs')

/-- Something is read. -/
def look {α : Type} (f : Files → α) : Op α := fun fs => (.ok (f fs), fs)

/-- Something is read, or raises. -/
def check {α : Type} (f : Files → Except Error α) : Op α := fun fs => (f fs, fs)

def raise {α : Type} (e : Error) : Op α := fun fs => (.error e, fs)

/-- A system call that changes something, or raises. -/
def call (f : Files → Except Errno Files) : Op Unit := fun fs =>
  match f fs with
  | .ok fs' => (.ok (), fs')
  | .error e => (.error (.osError e), fs)

end Op

/-- `Entry`. -/
structure Entry where
  path : Text
  name : Text
  isDir : Bool
  sizeBytes : Nat
  deriving DecidableEq, Repr

/-- `Usage`. -/
structure Usage where
  usedBytes : Nat
  quotaBytes : Int
  deriving DecidableEq, Repr

/-- What `os` raises is an `OSError`. -/
def osError {α : Type} : Except Errno α → Except Error α
  | .ok a => .ok a
  | .error e => .error (.osError e)

-- the folder of the user, what the examples that it begins with hold, and `str.lower`
variable (root : PosixPath) (seedFiles : List (Text × List UInt8)) (lower : Text → Text)

/-- `seed`: a file that cannot be written is left out. -/
def seed (fs : Files) : Files :=
  seedFiles.foldl (fun fs file =>
    let target := root.join [file.1]
    if fs.pathExists target then fs
    else
      match fs.writeBytes target file.2 with
      | .ok fs' => fs'
      | .error _ => fs) fs

/-- `Workspace._ensure_root`. -/
def ensureRoot : Op Unit := fun fs =>
  match Files.mkdirParents root.absolute false root.parts.reverse fs with
  | (.ok (), fs') => (.ok (), seed root seedFiles fs')
  | (.error .alreadyExists, fs') => (.ok (), fs')
  | (.error e, fs') => (.error (.osError e), fs')

/-- `Workspace._resolve`. -/
def resolve (path : Text) : Op PosixPath := do
  ensureRoot root seedFiles
  Op.check fun fs => resolveInRoot fs root path

/-- One item of `Workspace._entries`. -/
def entryOf (fs : Files) (item : PosixPath) : Except Error (Option Entry) :=
  if fs.isSymlink item then .ok none
  else if item.name.head? = some '.' then .ok none
  else if ¬ fs.isDir item ∧ ¬ isSourceFile item.name then .ok none
  else do
    let path ← relativeToRoot root item
    let size ← if fs.isDir item then .ok 0 else osError (fs.statSize item)
    .ok (some ⟨path, item.name, fs.isDir item, size⟩)

/-- `Workspace._entries`. -/
def entries (fs : Files) (folder : PosixPath) : Except Error (List Entry) := do
  let names ← osError (fs.listdir folder)
  let found ← names.mapM fun name => entryOf root fs (folder.join [name])
  .ok found.reduceOption

/-- The order of `_sorted`: folders first, then by the small letters of the name. -/
def comesBefore (a b : Entry) : Bool :=
  if a.isDir = b.isDir then lower a.name ≤ lower b.name else a.isDir

/-- `_sorted`. -/
def sorted (entries : List Entry) : List Entry := entries.mergeSort (comesBefore lower)

/-- `walk` of `Workspace.tree`, so many folders deep; below that Python would give up too. -/
def walkTree (fs : Files) : Nat → PosixPath → Except Error (List Entry)
  | 0, _ => .error .runtimeError
  | deep + 1, folder => do
    let here ← entries root fs folder
    let found ← (sorted lower here).mapM fun entry =>
      if entry.isDir then do
        let below ← walkTree fs deep (root.join (PosixPath.parse entry.path).parts)
        .ok (entry :: below)
      else .ok [entry]
    .ok found.flatten

/-- `Workspace.tree`. -/
def tree : Op (List Entry) := do
  ensureRoot root seedFiles
  Op.check fun fs => walkTree root lower fs (fs.depth + 1) root

/-- One item of `Workspace._used_bytes`. -/
def sizeOfItem (fs : Files) (item : PosixPath) : Except Error Nat :=
  if fs.isSymlink item ∨ ¬ fs.isFile item then .ok 0
  else if ¬ isSourceFile item.name then .ok 0
  else osError (fs.statSize item)

/-- `Workspace._used_bytes`. -/
def usedBytes : Op Nat := do
  ensureRoot root seedFiles
  Op.check fun fs => do
    let sizes ← (fs.rglob root).mapM (sizeOfItem fs)
    .ok sizes.sum

variable (quotaBytes : Int)

/-- `Workspace.usage`. -/
def usage : Op Usage := do
  let used ← usedBytes root seedFiles
  pure ⟨used, quotaBytes⟩

/-- `Workspace.write`. -/
def write (path content : Text) : Op Unit := do
  if ¬ isSourceFile path then Op.raise (.invalidPath "소스 파일(.in) 만 저장할 수 있습니다")
  else
    let target ← resolve root seedFiles path
    Op.check fun _ => validateName target.name
    if ← Op.look (·.isDir target) then Op.raise (.conflict path)
    else if ¬ (← Op.look (·.isDir target.parent)) then
      Op.raise (.notFound (PosixPath.parse path).parent.str)
    else
      let encoded := encode content
      let previous ← Op.check fun fs =>
        if fs.isFile target then osError (fs.statSize target) else .ok 0
      let used ← usedBytes root seedFiles
      if (used : Int) - previous + encoded.length > quotaBytes then Op.raise (.quotaExceeded path)
      else Op.call (·.writeBytes target encoded)

/-- `Workspace.make_folder`. -/
def makeFolder (path : Text) : Op Unit := do
  let target ← resolve root seedFiles path
  Op.check fun _ => validateName target.name
  if ← Op.look (·.pathExists target) then Op.raise (.conflict path)
  else if ¬ (← Op.look (·.isDir target.parent)) then
    Op.raise (.notFound (PosixPath.parse path).parent.str)
  else Op.call (·.mkdir target)

/-- `Workspace.rename`. -/
def rename (path destination : Text) : Op Unit := do
  let source ← resolve root seedFiles path
  if ¬ (← Op.look (·.pathExists source)) then Op.raise (.notFound path)
  else
    let target ← resolve root seedFiles destination
    Op.check fun _ => validateName target.name
    if (← Op.look (·.isFile source)) ∧ ¬ isSourceFile destination then
      Op.raise (.invalidPath "소스 파일은 .in 이름을 유지해야 합니다")
    else if ← Op.look (·.pathExists target) then Op.raise (.conflict destination)
    else if ¬ (← Op.look (·.isDir target.parent)) then
      Op.raise (.notFound (PosixPath.parse destination).parent.str)
    else if (← Op.look (·.isDir source)) ∧ source ∈ target.parents then
      Op.raise (.conflict destination)
    else Op.call (·.rename source target)

/-- `Workspace.delete`. -/
def delete (path : Text) : Op Unit := do
  if path = [] then Op.raise (.invalidPath "루트는 지울 수 없습니다")
  else
    let target ← resolve root seedFiles path
    if ¬ (← Op.look (·.pathExists target)) then Op.raise (.notFound path)
    else if ← Op.look (·.isDir target) then Op.call (·.rmtree target)
    else Op.call (·.unlink target)

/-! ## A workspace in use -/

inductive Call where
  | write (path content : Text)
  | makeFolder (path : Text)
  | rename (path destination : Text)
  | delete (path : Text)
  deriving DecidableEq, Repr

def Call.run : Call → Op Unit
  | .write path content => Workspace.write root seedFiles quotaBytes path content
  | .makeFolder path => Workspace.makeFolder root seedFiles path
  | .rename path destination => Workspace.rename root seedFiles path destination
  | .delete path => Workspace.delete root seedFiles path

/-- The call is to delete the root. -/
def Call.deletesRoot : Call → Bool
  | .delete path => partsOf path = some []
  | _ => false

/-- A location below another. -/
def Below (top place : Location) : Prop := top <+: place ∧ place ≠ top

instance (top place : Location) : Decidable (Below top place) := inferInstanceAs (Decidable (_ ∧ _))

/-- The path leads to `top`, whatever is below. -/
def LeadsTo (fs : Files) (path : PosixPath) (top : Location) : Prop :=
  ∀ fs' : Files, fs'.cwd = fs.cwd → (∀ place, ¬ Below top place → fs'.get? place = fs.get? place) →
    fs'.locate .stat path = .ok top

/-- Something that may be in a workspace, by its name: a folder or a source file, not hidden. -/
def Shown (name : Text) (node : Node) : Prop :=
  name.head? ≠ some '.' ∧
    (node = .folder ∨ (∃ bytes, node = .file bytes) ∧ isSourceFile name = true)

/-- The sizes of all files below a folder together. -/
def totalSize (fs : Files) (top : Location) : Nat :=
  fs.nodes.total fun place node => if Below top place then Files.sizeOf node else 0

/-- A folder with no links below it, but visible folders and source files, within the quota. -/
structure Tidy (fs : Files) (top : Location) : Prop where
  folder : fs.get? top = some .folder
  leads : LeadsTo fs root top
  shown : ∀ above name node, fs.get? (top ++ above ++ [name]) = some node → Shown name node
  within : (totalSize fs top : Int) ≤ quotaBytes

/-- Calls one after the other, from a tidy workspace; none deletes its root. -/
def workspace : Lts Files Call where
  start fs := ∃ top, Tidy root quotaBytes fs top
  step fs call :=
    if call.deletesRoot then none else some (call.run root seedFiles quotaBytes fs).2

/-- The entry for what is somewhere below the root. -/
def entryAt (parts : List Text) (node : Node) : Entry where
  path := ['/'].intercalate parts
  name := parts.getLast?.getD []
  isDir := node = .folder
  sizeBytes := Files.sizeOf node

/-- What holds of a workspace after a run. -/
structure Kept (h : List (Taken Files Call)) (fs : Files) (top : Location) : Prop where
  /-- The root is there. -/
  present : fs.locate .stat root = .ok top
  /-- Each file is a source file that is not hidden. -/
  files : ∀ above name bytes, fs.get? (top ++ above ++ [name]) = some (.file bytes) →
    name.head? ≠ some '.' ∧ isSourceFile name = true
  /-- `tree` lists all that there is, each once. -/
  listed : ∃ found, tree root seedFiles lower fs = (.ok found, fs) ∧ (found.map Entry.path).Nodup ∧
    ∀ entry, entry ∈ found ↔
      ∃ parts node, parts ≠ [] ∧ fs.get? (top ++ parts) = some node ∧ entry = entryAt parts node
  /-- `usage` is the sum of the sizes, within the quota. -/
  counted : usage root seedFiles quotaBytes fs = (.ok ⟨totalSize fs top, quotaBytes⟩, fs) ∧
    (totalSize fs top : Int) ≤ quotaBytes
  /-- A call that raised has changed nothing. -/
  unchanged : ∀ x ∈ h, ∀ e, (x.label.run root seedFiles quotaBytes x.pre).1 = .error e →
    x.post = x.pre

end TcadWebapp.Workspace
