import TcadWebapp.Misc.Dict
import TcadWebapp.Misc.Text

/-!
# The editor session

What is open in the editor (`features/workspace/editorSession.ts`): the tabs in the order
they were opened, the one shown, and for each the text under edit, the text last agreed on
with the server and the cursor. A tab whose file has not been read yet has no text (`null`),
and a draft that was restored has a text but nothing to compare it with.
-/

namespace TcadWebapp.Editor

structure Cursor where
  line : Nat
  column : Nat
  deriving DecidableEq, Repr

structure Buffer where
  text : Option Text
  saved : Option Text
  cursor : Option Cursor
  deriving DecidableEq, Repr

structure EditorSession where
  order : List Text
  active : Option Text
  buffers : Dict Text Buffer
  deriving DecidableEq

/-- `EMPTY_SESSION`. -/
def EditorSession.empty : EditorSession := ⟨[], none, ∅⟩

namespace EditorSession

/-- A buffer whose file has not been read yet. -/
def needsLoad (session : EditorSession) (path : Text) : Bool :=
  match session.buffers.get? path with
  | none => false
  | some buffer => buffer.saved.isNone

/-- Is there an edit that has not been saved? -/
def isDirty (session : EditorSession) (path : Text) : Bool :=
  match session.buffers.get? path with
  | none => false
  | some buffer => if buffer.text.isNone then false else buffer.text ≠ buffer.saved

/-- The buffer of the tab that is shown; an empty path counts as none. -/
def activeBuffer (session : EditorSession) : Option Buffer :=
  match session.active with
  | none => none
  | some path => if path = [] then none else session.buffers.get? path

def openTab (session : EditorSession) (path : Text) : EditorSession where
  order := if path ∈ session.order then session.order else session.order ++ [path]
  active := some path
  buffers :=
    if (session.buffers.get? path).isSome then session.buffers
    else session.buffers.set path ⟨none, none, none⟩

def closeTab (session : EditorSession) (path : Text) : EditorSession where
  order := session.order.filter (· ≠ path)
  active :=
    if session.active = some path then (session.order.filter (· ≠ path)).getLast?
    else session.active
  buffers := session.buffers.erase path

def activate (session : EditorSession) (path : Text) : EditorSession :=
  if path ∈ session.order then { session with active := some path } else session

/-- The buffer of `path`, where there is one, becomes what `f` makes of it. -/
def update (session : EditorSession) (path : Text) (f : Buffer → Buffer) : EditorSession :=
  match session.buffers.get? path with
  | none => session
  | some buffer => { session with buffers := session.buffers.set path (f buffer) }

def edit (session : EditorSession) (path text : Text) : EditorSession :=
  session.update path fun buffer => { buffer with text := some text }

/-- The file was read: a draft is kept, only what it is compared with is filled in. -/
def loaded (session : EditorSession) (path content : Text) : EditorSession :=
  session.update path fun buffer =>
    { buffer with text := some (buffer.text.getD content), saved := some content }

/-- The save is over: the text it sent becomes the text of the buffer and the one it is
compared with. -/
def markSaved (session : EditorSession) (path text : Text) : EditorSession :=
  session.update path fun buffer => { buffer with text := some text, saved := some text }

def moveCursor (session : EditorSession) (path : Text) (cursor : Cursor) : EditorSession :=
  session.update path fun buffer => { buffer with cursor := some cursor }

/-- The tab of a file that was renamed keeps its place and its buffer. -/
def renamePath (session : EditorSession) (src dst : Text) : EditorSession :=
  match session.buffers.get? src with
  | none => session
  | some buffer =>
    { order := session.order.map fun path => if path = src then dst else path
      active := if session.active = some src then some dst else session.active
      buffers := (session.buffers.set dst buffer).erase src }

end EditorSession

/-! ## What is kept of a session -/

structure PersistedTab where
  path : Text
  draft : Option Text
  cursor : Option Cursor
  deriving DecidableEq, Repr

structure PersistedSession where
  tabs : List PersistedTab
  active : Option Text
  deriving DecidableEq, Repr

/-- The session that is restored: drafts are shown at once, the files are still to be read. -/
def fromPersisted (state : PersistedSession) : EditorSession :=
  let order := state.tabs.map PersistedTab.path
  let active :=
    match state.active with
    | none => order.head?
    | some path => if path ≠ [] ∧ path ∈ order then some path else order.head?
  if order = [] then .empty
  else
    { order := order
      active := active
      buffers := Dict.ofList (state.tabs.map fun tab => (tab.path, ⟨tab.draft, none, tab.cursor⟩)) }

namespace EditorSession

/-! ## What the operations do to one buffer -/

@[simp] theorem get?_openTab (session : EditorSession) (path path' : Text) :
    (session.openTab path).buffers.get? path' =
      if path' = path then some ((session.buffers.get? path).getD ⟨none, none, none⟩)
      else session.buffers.get? path' := by
  by_cases same : path' = path
  · subst same
    cases found : session.buffers.get? path' <;> simp [openTab, found]
  · cases found : session.buffers.get? path <;>
      simp [openTab, found, same, Dict.get?_set_of_ne]

@[simp] theorem get?_closeTab (session : EditorSession) (path path' : Text) :
    (session.closeTab path).buffers.get? path' =
      if path' = path then none else session.buffers.get? path' :=
  Dict.get?_erase ..

@[simp] theorem buffers_activate (session : EditorSession) (path : Text) :
    (session.activate path).buffers = session.buffers := by
  unfold activate
  split <;> rfl

@[simp] theorem get?_update (session : EditorSession) (path : Text) (f : Buffer → Buffer)
    (path' : Text) :
    (session.update path f).buffers.get? path' =
      if path' = path then (session.buffers.get? path).map f
      else session.buffers.get? path' := by
  unfold update
  by_cases same : path' = path
  · subst same
    cases found : session.buffers.get? path' <;> simp [found]
  · cases found : session.buffers.get? path <;> simp [same, Dict.get?_set_of_ne]

@[simp] theorem order_update (session : EditorSession) (path : Text) (f : Buffer → Buffer) :
    (session.update path f).order = session.order := by
  unfold update
  split <;> rfl

@[simp] theorem active_update (session : EditorSession) (path : Text) (f : Buffer → Buffer) :
    (session.update path f).active = session.active := by
  unfold update
  split <;> rfl

end EditorSession

end TcadWebapp.Editor
