import TcadWebapp.Editor.Session
import TcadWebapp.Misc.Lts

/-!
# Saves in flight

The page around the session (`WorkspacePage.tsx`, `useEditorSession.ts`): a save captures
the text of the tab that is shown, sends it, and writes it back into the session when the
answer arrives; a tab that has never been read is read when it is shown. The user goes on
while requests are under way, and requests and answers may overtake each other.
-/

namespace TcadWebapp.Editor

open EditorSession

/-- A save that has been sent; `stored` once the server has written the file. -/
structure Save where
  path : Text
  text : Text
  stored : Bool
  deriving DecidableEq, Repr

/-- A file on its way to the session; `content` once the server has read it. -/
structure Reading where
  path : Text
  content : Option Text
  deriving DecidableEq, Repr

/-- The session, the files as the server has them, and the requests under way. -/
structure Page where
  session : EditorSession
  server : Dict Text Text
  saves : List Save
  reading : Option Reading
  deriving DecidableEq

inductive Act where
  | change (path text : Text)
  | switchTo (path : Text)
  | openTab (path : Text)
  | close (path : Text)
  | setCursor (path : Text) (cursor : Cursor)
  | serveRead
  | deliverRead
  | failRead
  | save
  | store (i : Nat)
  | complete (i : Nat)
  | fail (i : Nat)
  deriving DecidableEq, Repr

/-- The path the page wants to read: that of the tab shown, when it has not been read. -/
def wants (session : EditorSession) : Option Text := session.active.filter session.needsLoad

namespace Page

/-- The session changes. When the tab shown, or whether it is wanted, changes with it, the
request under way is cancelled and a new one is sent if the new tab is wanted. -/
def setSession (page : Page) (session : EditorSession) : Page :=
  { page with
    session := session
    reading :=
      if session.active = page.session.active ∧ wants session = wants page.session then
        page.reading
      else (wants session).map fun path => ⟨path, none⟩ }

/-- `save`: refused with a message while the tab shown has no text. -/
def save (page : Page) : Option Page :=
  match page.session.active, page.session.activeBuffer with
  | some active, some ⟨some text, _, _⟩ =>
    some { page with saves := page.saves ++ [⟨active, text, false⟩] }
  | _, _ => none

/-- The server writes the text of the `i`-th save. -/
def store (page : Page) (i : Nat) : Option Page :=
  match page.saves[i]? with
  | some ⟨path, text, false⟩ =>
    some { page with
      server := page.server.set path text
      saves := page.saves.set i ⟨path, text, true⟩ }
  | _ => none

/-- The answer to the `i`-th save arrives: `applySaved` with the path and text it captured. -/
def complete (page : Page) (i : Nat) : Option Page :=
  match page.saves[i]? with
  | some ⟨path, text, true⟩ =>
    some ({ page with saves := page.saves.eraseIdx i }.setSession
      (page.session.markSaved path text))
  | _ => none

/-- The `i`-th save fails, before the server has written the file or after. -/
def fail (page : Page) (i : Nat) : Option Page :=
  match page.saves[i]? with
  | some _ => some { page with saves := page.saves.eraseIdx i }
  | none => none

def serveRead (page : Page) : Option Page :=
  match page.reading with
  | some ⟨path, none⟩ =>
    (page.server.get? path).map fun content =>
      { page with reading := some ⟨path, some content⟩ }
  | _ => none

def deliverRead (page : Page) : Option Page :=
  match page.reading with
  | some ⟨path, some content⟩ =>
    some ({ page with reading := none }.setSession (page.session.loaded path content))
  | _ => none

def step (page : Page) : Act → Option Page
  | .change path text => some (page.setSession (page.session.edit path text))
  | .switchTo path => some (page.setSession (page.session.activate path))
  | .openTab path => some (page.setSession (page.session.openTab path))
  | .close path => some (page.setSession (page.session.closeTab path))
  | .setCursor path cursor => some (page.setSession (page.session.moveCursor path cursor))
  | .serveRead => page.serveRead
  | .deliverRead => page.deliverRead
  | .failRead => page.reading.map fun _ => { page with reading := none }
  | .save => page.save
  | .store i => page.store i
  | .complete i => page.complete i
  | .fail i => page.fail i

end Page

/-- The text of the last change that was made to `path` since its tab was opened. -/
def lastEdit (path : Text) : List (Taken Page Act) → Option Text
  | [] => none
  | x :: earlier =>
    match x.label with
    | .change path' text =>
      if path' = path ∧ (x.pre.session.buffers.get? path).isSome then some text
      else lastEdit path earlier
    | .close path' => if path' = path then none else lastEdit path earlier
    | _ => lastEdit path earlier

/-- `P` of every save that was completed in a run: of the steps before its completion, the
completion itself and the save. -/
def OfCompletions (P : List (Taken Page Act) → Taken Page Act → Save → Prop)
    (h : List (Taken Page Act)) : Prop :=
  ∀ later x earlier i save, h = later ++ x :: earlier → x.label = .complete i →
    x.pre.saves[i]? = some save → P earlier x save

/-- After the completion an open tab of the file has the text of its last edit, and it is
marked as changed exactly when its text is not what the server stored last. -/
structure Kept (earlier : List (Taken Page Act)) (x : Taken Page Act) (save : Save) : Prop where
  edit : ∀ buffer, x.post.session.buffers.get? save.path = some buffer →
    ∀ text, lastEdit save.path earlier = some text → buffer.text = some text
  dirty : ∀ buffer, x.post.session.buffers.get? save.path = some buffer →
    (x.post.session.isDirty save.path = true ↔
      buffer.text ≠ x.post.server.get? save.path)

end TcadWebapp.Editor
