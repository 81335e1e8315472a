import TcadWebapp.Editor.Browser
import TcadWebapp.Misc.Lts

/-!
# The operations of the editor session

All that can be done to a session, in any order and with any paths, and what it is expected to keep:
the tabs, their buffers and the tab shown fit together, and drafts stay.
-/

namespace TcadWebapp.Editor

open EditorSession

inductive Operation where
  | openTab (path : Text)
  | closeTab (path : Text)
  | activate (path : Text)
  | edit (path text : Text)
  | loaded (path content : Text)
  | markSaved (path text : Text)
  | moveCursor (path : Text) (cursor : Cursor)
  | renamePath (src dst : Text)
  deriving DecidableEq, Repr

namespace Operation

def apply (session : EditorSession) : Operation → EditorSession
  | .openTab path => session.openTab path
  | .closeTab path => session.closeTab path
  | .activate path => session.activate path
  | .edit path text => session.edit path text
  | .loaded path content => session.loaded path content
  | .markSaved path text => session.markSaved path text
  | .moveCursor path cursor => session.moveCursor path cursor
  | .renamePath src dst => session.renamePath src dst

/-- The paths among the arguments. -/
def arguments : Operation → List Text
  | .openTab path => [path]
  | .closeTab path => [path]
  | .activate path => [path]
  | .edit path _ => [path]
  | .loaded path _ => [path]
  | .markSaved path _ => [path]
  | .moveCursor path _ => [path]
  | .renamePath src dst => [src, dst]

/-- The path under which a tab is known afterwards. -/
def carry : Operation → Text → Text
  | .renamePath src dst, path => if path = src then dst else path
  | _, path => path

end Operation

/-- A session goes on from an empty one, or from one that was restored from different tabs. -/
def sessionLts : Lts EditorSession Operation where
  start session := session = .empty ∨
    ∃ state : PersistedSession, (state.tabs.map PersistedTab.path).Nodup ∧ session = fromPersisted state
  step session operation := some (operation.apply session)

/-- The tab shown is one of the tabs, and one is shown if there is any. -/
structure Shows (session : EditorSession) : Prop where
  shown : ∀ path, session.active = some path → path ∈ session.order
  noneShown : session.active = none ↔ session.order = []

/-- The tabs, the buffers and the tab shown fit together. -/
structure Sound (session : EditorSession) : Prop extends Shows session where
  nodup : session.order.Nodup
  tabbed : Tabbed session

/-- The text of a tab that differs from what is saved. -/
def EditorSession.draft (session : EditorSession) (path : Text) : Option Text :=
  if session.isDirty path then (session.buffers.get? path).bind Buffer.text else none

/-- The buffers of other paths are the same afterwards. -/
def LeavesOthers (session : EditorSession) (operation : Operation) : Prop :=
  ∀ path ∉ operation.arguments,
    (operation.apply session).buffers.get? path = session.buffers.get? path

/-- A draft is there afterwards, unless its tab is closed or it is edited. -/
def KeepsDrafts (session : EditorSession) (operation : Operation) : Prop :=
  ∀ path draft, session.draft path = some draft → operation = .closeTab path ∨
    (∃ text, operation = .edit path text) ∨
    ∃ buffer, (operation.apply session).buffers.get? (operation.carry path) = some buffer ∧
      buffer.text = some draft

/-- What is expected of a run of operations. -/
structure KeptSession (h : List (Taken EditorSession Operation)) (session : EditorSession) : Prop where
  sound : ∀ s ∈ Lts.visited h session, Sound s
  others : ∀ x ∈ h, LeavesOthers x.pre x.label
  drafts : ∀ x ∈ h, KeepsDrafts x.pre x.label

/-- A tab is not renamed to a path that is open, and what is marked as saved is the draft, if there is
one. -/
def Operation.Apart (session : EditorSession) : Operation → Prop
  | .renamePath src dst => src ∈ session.order → dst ∉ session.order
  | .markSaved path text => ∀ draft, session.draft path = some draft → draft = text
  | _ => True

end TcadWebapp.Editor
