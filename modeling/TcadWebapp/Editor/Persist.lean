import TcadWebapp.Editor.Operations

/-!
# Keeping the state of the editor

What is sent of a session (`editorSession.persist.ts`) and what the server does with it
(`api/routes_editor.py`): it checks the limits, stores the state as one text and gives it back
without the tabs whose files are gone.
-/

namespace TcadWebapp.Editor

open Workspace

def toPersisted (session : EditorSession) : PersistedSession where
  tabs := session.order.map fun path =>
    { path := path
      draft := if session.isDirty path then (session.buffers.get? path).bind Buffer.text else none
      cursor := (session.buffers.get? path).bind Buffer.cursor }
  active := session.active

/-- The files arrive one after the other, each with what is saved of it. -/
def EditorSession.reload (session : EditorSession) (contents : Text → Text) (paths : List Text) :
    EditorSession :=
  paths.foldl (fun session path => session.loaded path (contents path)) session

/-! ## The limits of the server -/

/-- `_MAX_TABS`. -/
def maxTabs : Nat := 20

/-- `_MAX_DRAFT_CHARS`. -/
def maxDraftChars : Nat := 200000

/-- `_MAX_PATH_CHARS`. -/
def maxPathChars : Nat := 1024

/-- `CursorPosition`. -/
def Cursor.Accepted (cursor : Cursor) : Prop := 1 ≤ cursor.line ∧ 1 ≤ cursor.column

/-- `OpenTab`. -/
def PersistedTab.Accepted (tab : PersistedTab) : Prop :=
  1 ≤ tab.path.length ∧ tab.path.length ≤ maxPathChars ∧
    (∀ draft ∈ tab.draft, draft.length ≤ maxDraftChars) ∧ ∀ cursor ∈ tab.cursor, cursor.Accepted

/-- `EditorStateBody`. -/
def PersistedSession.Accepted (state : PersistedSession) : Prop :=
  state.tabs.length ≤ maxTabs ∧ (∀ tab ∈ state.tabs, tab.Accepted) ∧
    ∀ active ∈ state.active, active.length ≤ maxPathChars

instance (cursor : Cursor) : Decidable cursor.Accepted := inferInstanceAs (Decidable (_ ∧ _))

instance (tab : PersistedTab) : Decidable tab.Accepted := inferInstanceAs (Decidable (_ ∧ _))

instance (state : PersistedSession) : Decidable state.Accepted := inferInstanceAs (Decidable (_ ∧ _))

/-! ## Storing and giving back -/

/-- `EMPTY`. -/
def PersistedSession.empty : PersistedSession := ⟨[], none⟩

/-- `_with_valid_active`. -/
def withValidActive (state : PersistedSession) : PersistedSession :=
  let paths := state.tabs.map PersistedTab.path
  if state.active.any (· ∈ paths) then state else ⟨state.tabs, paths.head?⟩

/-- `_without_missing_files`, for the entries that `tree` lists. -/
def withoutMissingFiles (entries : List Entry) (state : PersistedSession) : PersistedSession :=
  let present := (entries.filter fun entry => !entry.isDir).map Entry.path
  let alive := state.tabs.filter fun tab => tab.path ∈ present
  if alive.length = state.tabs.length then withValidActive state
  else withValidActive ⟨alive, state.active⟩

/-- `write_state`: the row afterwards; `none` is the refusal of a body. `dump` is
`model_dump_json`. -/
def writeState (dump : PersistedSession → Text) (body : PersistedSession) : Option Text :=
  if body.Accepted then some (dump (withValidActive body)) else none

/-- `read_state`. `validate` is `model_validate_json`, `none` its ValueError. -/
def readState (validate : Text → Option PersistedSession) (root : PosixPath)
    (seedFiles : List (Text × List UInt8)) (lower : Text → Text) (row : Option Text) :
    Op PersistedSession :=
  match row.bind validate with
  | none => pure .empty
  | some stored => do
    let entries ← tree root seedFiles lower
    pure (withoutMissingFiles entries stored)

/-! ## What is expected -/

/-- The same tabs, the same one shown, the same texts and cursors, the same drafts. -/
structure SameEditor (session session' : EditorSession) : Prop where
  order : session'.order = session.order
  active : session'.active = session.active
  texts : ∀ path, (session'.buffers.get? path).map Buffer.text = (session.buffers.get? path).map Buffer.text
  cursors : ∀ path,
    (session'.buffers.get? path).map Buffer.cursor = (session.buffers.get? path).map Buffer.cursor
  dirty : ∀ path, session'.isDirty path = session.isDirty path

/-- All buffers are loaded; `contents` is what is saved. -/
def AllLoaded (session : EditorSession) (contents : Text → Text) : Prop :=
  ∀ path buffer, session.buffers.get? path = some buffer →
    buffer.text.isSome ∧ buffer.saved = some (contents path)

/-- A session that the editor can come to. -/
def Reached (session : EditorSession) : Prop :=
  ∃ (start : EditorSession) (operations : List Operation),
    (start = .empty ∨ ∃ state, start = fromPersisted state) ∧ session = operations.foldl Operation.apply start

/-- The limits of the server, for a session. -/
structure Within (session : EditorSession) : Prop where
  tabs : session.order.length ≤ maxTabs
  paths : ∀ path ∈ session.order, path ≠ [] ∧ path.length ≤ maxPathChars
  drafts : ∀ path ∈ session.order, ∀ draft, session.draft path = some draft → draft.length ≤ maxDraftChars
  cursors : ∀ path ∈ session.order, ∀ buffer cursor, session.buffers.get? path = some buffer →
    buffer.cursor = some cursor → cursor.Accepted

/-- The path of a file of the workspace, as the listing shows it. -/
def IsFile (fs : Files) (top : Location) (path : Text) : Prop :=
  ∃ place bytes, place ≠ [] ∧ fs.get? (top ++ place) = some (.file bytes) ∧ path = pathOf place

open Classical in
/-- The tabs whose files exist come back, and one of them is shown: the same if its file exists. -/
structure ComesBack (fs : Files) (top : Location) (session : EditorSession) (returned : PersistedSession) :
    Prop where
  tabs : returned.tabs = (toPersisted session).tabs.filter fun tab => IsFile fs top tab.path
  noneShown : returned.active = none ↔ returned.tabs = []
  shown : ∀ path, returned.active = some path → path ∈ returned.tabs.map PersistedTab.path
  same : ∀ path, session.active = some path → IsFile fs top path → returned.active = some path

end TcadWebapp.Editor
