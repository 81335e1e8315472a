import TcadWebapp.Editor.Session
import TcadWebapp.Workspace.Service

/-!
# The file browser and the open tabs

`features/files/FileBrowser.tsx`: an entry of the listing is renamed, dragged into a folder or
deleted. The server is asked first; when it has answered, the session follows
(`renamePath`, `closeTab`).
-/

namespace TcadWebapp.Editor

open Workspace

/-! ## What the browser asks for -/

/-- The folder a path is in; empty for what is directly under the root. -/
def parentOf (path : Text) : Text :=
  if '/' ∈ path then (path.rdropWhile (· ≠ '/')).dropLast else []

def join (folder name : Text) : Text := if folder = [] then name else folder ++ '/' :: name

example : parentOf "a/b.in".toList = "a".toList := by decide
example : parentOf "b.in".toList = [] := by decide

/-- A request of the browser to the server. -/
inductive Request where
  | rename (path destination : Text)
  | remove (path : Text)
  deriving DecidableEq, Repr

/-- `rename`: the name is what the user typed. -/
def renameEntry (entry : Entry) (name : Text) : Option Request :=
  if name = [] ∨ name = entry.name then none
  else some (.rename entry.path (join (parentOf entry.path) name))

/-- The folder that an entry stands for when something is dropped on it. -/
def folderOf (entry : Entry) : Text := if entry.isDir then entry.path else parentOf entry.path

def moveInto (entries : List Entry) (sourcePath : Text) (target : Entry) : Option Request :=
  match entries.find? fun entry => entry.path = sourcePath with
  | none => none
  | some source =>
    if source.path = target.path then none
    else
      let folder := folderOf target
      if parentOf source.path = folder then none
      else if source.isDir ∧ (folder = source.path ∨ source.path ++ ['/'] <+: folder) then none
      else some (.rename source.path (join folder source.name))

/-- `remove`, once the user has confirmed it. -/
def removeEntry (entry : Entry) : Request := .remove entry.path

/-- The requests that can come from a browser that shows `entries`. -/
inductive Asked (entries : List Entry) : Request → Prop
  | rename {entry : Entry} {name : Text} {request : Request} :
      entry ∈ entries → renameEntry entry name = some request → Asked entries request
  | move {sourcePath : Text} {target : Entry} {request : Request} :
      target ∈ entries → moveInto entries sourcePath target = some request →
        Asked entries request
  | remove {entry : Entry} : entry ∈ entries → Asked entries (removeEntry entry)

namespace Request

/-- The path of the entry. -/
def path : Request → Text
  | .rename path _ => path
  | .remove path => path

/-- What the server does. -/
def serve (root : PosixPath) (seedFiles : List (Text × List UInt8)) : Request → Op Unit
  | .rename path destination => Workspace.rename root seedFiles path destination
  | .remove path => Workspace.delete root seedFiles path

/-- What the session does when the server has answered: `onRenamed` or `onDeleted`. -/
def follow (session : EditorSession) : Request → EditorSession
  | .rename path destination => session.renamePath path destination
  | .remove path => session.closeTab path

/-! ## Tabs that follow their files -/

/-- Where something below the root is afterwards, by the names on the way; `none` if it is
gone. -/
def carry : Request → List Text → Option (List Text)
  | .rename path destination, place =>
    match partsOf path, partsOf destination with
    | some source, some target => some (Files.moved source target place)
    | _, _ => some place
  | .remove path, place =>
    match partsOf path with
    | some source => if source <+: place then none else some place
    | none => some place

end Request

/-- The path that the listing shows for what is there. -/
def pathOf (place : List Text) : Text := ['/'].intercalate place

/-- Where the file of a tab is, if its label leads to a file. -/
def fileOf (fs : Files) (top : Location) (tab : Text) : Option (List Text) :=
  match partsOf tab with
  | none => none
  | some place =>
    match fs.get? (top ++ place) with
    | some (.file _) => some place
    | _ => none

/-- What the label of a tab should be after a request: the path of its file where that has
moved, none where it is gone, the same as before for all others. -/
def relabel (fs : Files) (top : Location) (request : Request) (tab : Text) : Option Text :=
  match fileOf fs top tab with
  | none => some tab
  | some place =>
    match request.carry place with
    | none => none
    | some place' => some (if place' = place then tab else pathOf place')

/-- The tabs are those of before under their new labels, with the same buffers. -/
structure Follows (label : Text → Option Text) (before after : EditorSession) : Prop where
  order : after.order = before.order.filterMap label
  buffers : ∀ tab ∈ before.order, ∀ tab', label tab = some tab' →
    after.buffers.get? tab' = before.buffers.get? tab

/-- The files that the request moves or deletes are open, if at all, in the tab of the entry
itself, which then is a file; if it is renamed, the new path is spelled as the listing will
show it, and no other buffer is kept under it. -/
structure Alone (fs : Files) (top : Location) (request : Request) (session : EditorSession) :
    Prop where
  others : ∀ tab ∈ session.order, ∀ place, fileOf fs top tab = some place →
    request.carry place ≠ some place → tab = request.path
  isFile : request.path ∈ session.order → (fileOf fs top request.path).isSome
  target : ∀ path destination, request = .rename path destination → path ∈ session.order →
    (∃ place, partsOf destination = some place ∧ destination = pathOf place) ∧
      (destination ∈ session.order →
        session.buffers.get? destination = session.buffers.get? path)

/-- The tabs are what there are buffers for. -/
def Tabbed (session : EditorSession) : Prop :=
  ∀ path, path ∈ session.order ↔ (session.buffers.get? path).isSome

end TcadWebapp.Editor
