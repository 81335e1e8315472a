import TcadWebapp.Editor.Session
import TcadWebapp.Misc.Utf8

/-!
# Running what is on the screen

The run button of the page (`WorkspacePage.tsx`) and what the server makes of its request
(`routes_files.py`): a tab with edits is saved first, then the job is submitted by the path of
the file, and the server takes the text of the file as the source of the job. Both functions hold
the session as it was at the click, whatever happens to it while they wait.
-/

namespace TcadWebapp.Editor

open EditorSession

/-- What happens to the session while a request is under way. -/
inductive Event where
  | change (path text : Text)
  | switchTo (path : Text)
  | openTab (path : Text)
  | close (path : Text)
  | setCursor (path : Text) (cursor : Cursor)
  | loaded (path content : Text)
  | renamed (src dst : Text)
  deriving DecidableEq, Repr

def Event.apply (session : EditorSession) : Event → EditorSession
  | .change path text => session.edit path text
  | .switchTo path => session.activate path
  | .openTab path => session.openTab path
  | .close path => session.closeTab path
  | .setCursor path cursor => session.moveCursor path cursor
  | .loaded path content => session.loaded path content
  | .renamed src dst => session.renamePath src dst

/-- What becomes of the request of a save. -/
inductive SaveOutcome where
  | answered
  /-- An error is answered: the name, the quota, too many requests. Nothing is written. -/
  | refused
  /-- The network fails before the file is written. -/
  | lost
  /-- The file is written and the network fails before the answer arrives. -/
  | unanswered
  deriving DecidableEq, Repr

def SaveOutcome.writes : SaveOutcome → Bool
  | .answered | .unanswered => true
  | .refused | .lost => false

/-- All that a click on the run button meets with. -/
structure Circumstances where
  save : SaveOutcome
  during : List Event
  /-- The request to run arrives, is not throttled, and its job can be queued. -/
  queues : Bool
  after : List Event

/-- A job that was queued. -/
structure Submitted where
  sourcePath : Text
  source : Text
  deriving DecidableEq, Repr

structure AfterRun where
  session : EditorSession
  /-- The files that can be read, by their paths. -/
  files : Dict Text Text
  job : Option Submitted

/-- `save`. What `fileApi.write` throws is reported, and nothing else follows from it. -/
def save (session : EditorSession) (files : Dict Text Text) (outcome : SaveOutcome) (during : List Event) :
    EditorSession × Dict Text Text :=
  match session.active, session.activeBuffer with
  | some active, some ⟨some text, _, _⟩ =>
    let session := during.foldl Event.apply session
    (if outcome = .answered then session.markSaved active text else session,
      if outcome.writes then files.set active text else files)
  | _, _ => (during.foldl Event.apply session, files)

/-- `POST /jobs`: `Workspace.read` translates the line ends. -/
def submit (files : Dict Text Text) (path : Text) : Option Submitted :=
  -- `min_length=1`
  if path = [] then none
  else (files.get? path).map fun text => ⟨path, Utf8.universalNewlines text⟩

/-- `run`. -/
def run (session : EditorSession) (files : Dict Text Text) (o : Circumstances) : AfterRun :=
  match session.active with
  | none => ⟨session, files, none⟩
  | some active =>
    let saved := if session.isDirty active then save session files o.save o.during else (session, files)
    ⟨o.after.foldl Event.apply saved.1, saved.2, if o.queues then submit saved.2 active else none⟩

/-- The text that is shown at the click. -/
def EditorSession.shownText (session : EditorSession) : Option Text := session.activeBuffer.bind Buffer.text

/-- A job has the text that was shown for its source; if the save failed there is no job, and the
buffer is as dirty as the user has left it. -/
structure RunsWhatIsShown (session : EditorSession) (files : Dict Text Text) (o : Circumstances) : Prop where
  source : ∀ job ∈ (run session files o).job, session.shownText = some job.source
  failed : ∀ active ∈ session.active, session.isDirty active → o.save ≠ .answered →
    (run session files o).job = none ∧ (run session files o).session.isDirty active =
      ((o.during ++ o.after).foldl Event.apply session).isDirty active

/-- A save that is needed is answered, and its text has no carriage return; where none is needed, the
file that the server has is the text that is shown. Or else there is no file. -/
def CanBeRun (session : EditorSession) (files : Dict Text Text) (outcome : SaveOutcome) (active : Text) : Prop :=
  if session.isDirty active then
    if outcome = .answered then ∀ text ∈ session.shownText, '\r' ∉ text
    else outcome.writes = false ∧ files.get? active = none
  else ∀ text ∈ files.get? active, session.shownText = some (Utf8.universalNewlines text)

end TcadWebapp.Editor
