import TcadWebapp.Editor.Persist
import TcadWebapp.Editor.Proofs.Operations
import TcadWebapp.Workspace.Proofs.Listing

/-!
# The editor comes back

Of a session only the drafts and the cursors are kept. When the files have arrived again, in whatever
order, the session is the one that was left. The server gives back what it accepts, but for the tabs
whose files are gone.
-/

namespace TcadWebapp.Editor

open EditorSession Workspace

variable {session : EditorSession}

/-! ## Leaving and coming back -/

section Reload

variable {contents : Text → Text}

/-- A buffer once its file has arrived. -/
def Buffer.filled (buffer : Buffer) (content : Text) : Buffer :=
  { buffer with text := some (buffer.text.getD content), saved := some content }

theorem Buffer.filled_filled (buffer : Buffer) (content : Text) :
    (buffer.filled content).filled content = buffer.filled content := rfl

theorem order_reload (session : EditorSession) (contents : Text → Text) (paths : List Text) :
    (session.reload contents paths).order = session.order ∧
      (session.reload contents paths).active = session.active := by
  induction paths generalizing session with
  | nil => exact ⟨rfl, rfl⟩
  | cons path paths ih =>
    obtain ⟨order, active⟩ := ih (session.loaded path (contents path))
    exact ⟨order.trans (order_update ..), active.trans (active_update ..)⟩

/-- A file that arrives again changes nothing more. -/
theorem get?_reload (session : EditorSession) (contents : Text → Text) (paths : List Text) (path : Text) :
    (session.reload contents paths).buffers.get? path =
      if path ∈ paths then (session.buffers.get? path).map fun buffer => buffer.filled (contents path)
      else session.buffers.get? path := by
  induction paths generalizing session with
  | nil => rfl
  | cons arrived paths ih =>
    have now : (session.loaded arrived (contents arrived)).buffers.get? path = if path = arrived then
        (session.buffers.get? arrived).map fun buffer => buffer.filled (contents arrived)
        else session.buffers.get? path := get?_update ..
    refine (ih (session.loaded arrived (contents arrived))).trans ?_
    rw [now]
    by_cases own : path = arrived
    · subst own
      rw [if_pos rfl, if_pos List.mem_cons_self]
      split
      · rw [Option.map_map]
        rfl
      · rfl
    · simp only [own, if_false, List.mem_cons, false_or]

/-- What is restored of a buffer before its file arrives. -/
theorem get?_fromPersisted (tabbed : Tabbed session) (path : Text) :
    (fromPersisted (toPersisted session)).buffers.get? path =
      (session.buffers.get? path).map fun buffer => ⟨session.draft path, none, buffer.cursor⟩ := by
  have tabs : ((toPersisted session).tabs.map fun tab =>
      (tab.path, (⟨tab.draft, none, tab.cursor⟩ : Buffer))) = session.order.map fun path =>
        (path, ⟨session.draft path, none, (session.buffers.get? path).bind Buffer.cursor⟩) := by
    rw [toPersisted, List.map_map]
    rfl
  have found : (Dict.ofList ((toPersisted session).tabs.map fun tab =>
      (tab.path, (⟨tab.draft, none, tab.cursor⟩ : Buffer)))).get? path =
        (session.buffers.get? path).map fun buffer => ⟨session.draft path, none, buffer.cursor⟩ := by
    rw [tabs]
    cases there : session.buffers.get? path with
    | none =>
      have absent : path ∉ session.order := by simp [tabbed path, there]
      apply Dict.get?_ofList_map_eq_none
      intro path' mem same
      exact absent (same ▸ mem)
    | some buffer =>
      have mem : path ∈ session.order := by simp [tabbed path, there]
      rw [Dict.get?_ofList_map (fun a _ b _ same => by rw [same]) mem, there]
      rfl
  unfold fromPersisted
  dsimp only
  split
  · rename_i noTabs
    rw [← found, List.map_eq_nil_iff.mp noTabs]
    rfl
  · exact found

theorem order_fromPersisted (session : EditorSession) :
    (fromPersisted (toPersisted session)).order = session.order := by
  have tabs : (toPersisted session).tabs.map PersistedTab.path = session.order := by
    simp [toPersisted, Function.comp_def]
  unfold fromPersisted
  dsimp only
  split
  · rename_i noTabs
    rw [← tabs, noTabs]
    rfl
  · exact tabs

theorem active_fromPersisted (shows : Shows session) (named : session.active ≠ some []) :
    (fromPersisted (toPersisted session)).active = session.active := by
  have tabs : (toPersisted session).tabs.map PersistedTab.path = session.order := by
    simp [toPersisted, Function.comp_def]
  have active : (toPersisted session).active = session.active := rfl
  unfold fromPersisted
  simp only [tabs, active]
  cases shown : session.active with
  | none =>
    rw [if_pos (shows.noneShown.mp shown)]
    rfl
  | some path =>
    have mem := shows.shown path shown
    have nonempty : path ≠ [] := by
      rintro rfl
      exact named shown
    rw [if_neg (List.ne_nil_of_mem mem)]
    exact if_pos ⟨nonempty, mem⟩

/-- Once every file has arrived, each buffer is as it was. -/
theorem get?_restored (tabbed : Tabbed session) (all : AllLoaded session contents) {paths : List Text}
    (arrive : ∀ path ∈ session.order, path ∈ paths) (path : Text) :
    ((fromPersisted (toPersisted session)).reload contents paths).buffers.get? path =
      session.buffers.get? path := by
  rw [get?_reload, get?_fromPersisted tabbed]
  cases there : session.buffers.get? path with
  | none => simp
  | some buffer =>
    obtain ⟨read, saved⟩ := all path buffer there
    obtain ⟨text, htext⟩ := Option.isSome_iff_exists.mp read
    rw [if_pos (arrive path (by simp [tabbed path, there])), Option.map_some, Option.map_some]
    obtain ⟨_, _, cursor⟩ := buffer
    obtain rfl : _ = some text := htext
    obtain rfl : _ = some (contents path) := saved
    -- a draft is kept, and where there is none the text was what is saved
    by_cases clean : text = contents path
    · simp [EditorSession.draft, EditorSession.isDirty, there, Buffer.filled, clean]
    · simp [EditorSession.draft, EditorSession.isDirty, there, Buffer.filled, clean]

/-- A session is the same after leaving and coming back. -/
theorem sameEditor_restored (session : EditorSession) (sound : Sound session) (contents : Text → Text)
    (all : AllLoaded session contents) (named : session.active ≠ some []) (paths : List Text)
    (arrive : ∀ path ∈ session.order, path ∈ paths) :
    SameEditor session ((fromPersisted (toPersisted session)).reload contents paths) := by
  have buffers := get?_restored sound.tabbed all arrive
  obtain ⟨order, active⟩ := order_reload (fromPersisted (toPersisted session)) contents paths
  constructor
  · rw [order, order_fromPersisted]
  · rw [active, active_fromPersisted sound.toShows named]
  · intro path
    rw [buffers path]
  · intro path
    rw [buffers path]
  · intro path
    unfold EditorSession.isDirty
    rw [buffers path]

/-- Two files with one letter each, one of them edited. -/
def leftSession (first second : Text) : EditorSession :=
  [.openTab first, .loaded first ['x'], .edit first [], .openTab second, .loaded second ['x']].foldl
    Operation.apply .empty

theorem allLoaded_leftSession {first second : Text} (differ : second ≠ first) :
    AllLoaded (leftSession first second) fun _ => ['x'] := by
  intro path buffer found
  have lookup : (leftSession first second).buffers.get? path =
      if path = second then some ⟨some ['x'], some ['x'], none⟩
      else if path = first then some ⟨some [], some ['x'], none⟩ else none := by
    simp only [leftSession, List.foldl_cons, List.foldl_nil, Operation.apply, EditorSession.loaded,
      EditorSession.edit, get?_update, get?_openTab, EditorSession.empty, Dict.get?_empty]
    by_cases later : path = second
    · simp [later, differ]
    · by_cases early : path = first <;> simp [later, early, differ.symm]
  rw [lookup] at found
  split at found
  · obtain rfl := Option.some.inj found
    exact ⟨rfl, rfl⟩
  · split at found
    · obtain rfl := Option.some.inj found
      exact ⟨rfl, rfl⟩
    · cases found

theorem sound_leftSession {first second : Text} : Sound (leftSession first second) := by
  unfold leftSession
  simp only [List.foldl_cons, List.foldl_nil]
  refine Sound.apply (Sound.apply (Sound.apply (Sound.apply (Sound.apply ?_ ?_) ?_) ?_) ?_) ?_
  · exact sound_of_start (Or.inl rfl)
  all_goals trivial

theorem sameEditor_restored_leftSession : SameEditor (leftSession ['a'] ['b'])
    ((fromPersisted (toPersisted (leftSession ['a'] ['b']))).reload (fun _ => ['x']) [['b'], ['a']]) :=
  sameEditor_restored _ sound_leftSession _ (allLoaded_leftSession (by decide)) (by decide) _ (by decide)

/-- An empty path counts as none: the first tab is shown in its place. -/
theorem not_sameEditor_restored : ¬ ∀ (session : EditorSession), Sound session →
    ∀ contents, AllLoaded session contents → ∀ paths : List Text, paths.Perm session.order →
      SameEditor session ((fromPersisted (toPersisted session)).reload contents paths) := by
  intro all
  have same := all (leftSession ['a'] []) sound_leftSession _ (allLoaded_leftSession (by decide))
    [['a'], []] (List.Perm.of_eq (by decide))
  exact absurd same.active (by decide)

end Reload

/-! ## The server -/

theorem draft_toPersisted : (toPersisted session).tabs = session.order.map fun path =>
    ⟨path, session.draft path, (session.buffers.get? path).bind Buffer.cursor⟩ := rfl

/-- The server accepts what is within its limits. -/
theorem accepted_of_within (shows : Shows session) (within : Within session) :
    (toPersisted session).Accepted := by
  refine ⟨?_, ?_, ?_⟩
  · rw [draft_toPersisted, List.length_map]
    exact within.tabs
  · intro tab mem
    rw [draft_toPersisted] at mem
    obtain ⟨path, hpath, rfl⟩ := List.mem_map.mp mem
    refine ⟨?_, (within.paths path hpath).2, fun draft found => within.drafts path hpath draft found, ?_⟩
    · exact List.length_pos_of_ne_nil (within.paths path hpath).1
    · intro cursor found
      obtain ⟨buffer, hbuffer, hcursor⟩ := Option.bind_eq_some_iff.mp found
      exact within.cursors path hpath buffer cursor hbuffer hcursor
  · intro active found
    exact (within.paths active (shows.shown active found)).2

theorem withValidActive_of_mem {state : PersistedSession} {path : Text} (shown : state.active = some path)
    (mem : path ∈ state.tabs.map PersistedTab.path) : withValidActive state = state := by
  unfold withValidActive
  rw [shown]
  exact if_pos (by simpa using mem)

/-- The tab shown is a tab, and there is one if there are tabs. -/
theorem withValidActive_spec (state : PersistedSession) :
    (withValidActive state).tabs = state.tabs ∧
      ((withValidActive state).active = none ↔ state.tabs = []) ∧
      ∀ path, (withValidActive state).active = some path → path ∈ state.tabs.map PersistedTab.path := by
  by_cases there : ∃ path, state.active = some path ∧ path ∈ state.tabs.map PersistedTab.path
  · obtain ⟨path, shown, mem⟩ := there
    rw [withValidActive_of_mem shown mem, shown]
    refine ⟨rfl, ⟨by simp, ?_⟩, fun path' same => Option.some.inj same ▸ mem⟩
    intro noTabs
    rw [noTabs] at mem
    cases mem
  · have first : withValidActive state =
        ⟨state.tabs, (state.tabs.map PersistedTab.path).head?⟩ := by
      unfold withValidActive
      refine if_neg fun any => there ?_
      cases shown : state.active with
      | none =>
        rw [shown] at any
        cases any
      | some path => exact ⟨path, rfl, by simpa [shown] using any⟩
    rw [first]
    refine ⟨rfl, by simp, fun path same => ?_⟩
    exact List.mem_of_head? same

/-- What is given back is the state without the tabs that are not listed. -/
theorem withoutMissingFiles_eq (entries : List Entry) (state : PersistedSession) :
    withoutMissingFiles entries state = withValidActive ⟨state.tabs.filter fun tab =>
      tab.path ∈ (entries.filter fun entry => !entry.isDir).map Entry.path, state.active⟩ := by
  unfold withoutMissingFiles
  dsimp only
  split
  · rename_i all
    rw [List.filter_sublist.eq_of_length all]
  · rfl

section Server

variable {root : PosixPath} {quotaBytes : Int} {fs : Files} {top : Location} {entries : List Entry}

/-- The paths of the files that are listed. -/
theorem mem_present (tidy : Tidy root quotaBytes fs top) (lists : Lists fs top [] entries) (path : Text) :
    path ∈ (entries.filter fun entry => !entry.isDir).map Entry.path ↔ IsFile fs top path := by
  unfold IsFile
  constructor
  · intro mem
    obtain ⟨entry, hentry, rfl⟩ := List.mem_map.mp mem
    obtain ⟨listed, isFile⟩ := List.mem_filter.mp hentry
    obtain ⟨place, node, below, there, rfl⟩ := (lists.2 entry).mp listed
    rw [List.append_nil] at there
    cases node with
    | folder => simp [entryAt] at isFile
    | link target =>
      exact absurd there (tidy.noLinks (top ++ place) (List.prefix_append _ _) target)
    | file bytes => exact ⟨place, bytes, below, there, rfl⟩
  · intro file
    obtain ⟨place, bytes, below, there, rfl⟩ := file
    refine List.mem_map.mpr ⟨entryAt place (.file bytes), List.mem_filter.mpr ⟨?_, by simp [entryAt]⟩, rfl⟩
    exact (lists.2 _).mpr ⟨place, .file bytes, below, by rwa [List.append_nil], rfl⟩

/-- A state that was accepted comes back. -/
theorem comesBack (tidy : Tidy root quotaBytes fs top) (lists : Lists fs top [] entries)
    (shows : Shows session) :
    ComesBack fs top session (withoutMissingFiles entries (withValidActive (toPersisted session))) := by
  have paths : (toPersisted session).tabs.map PersistedTab.path = session.order := by
    simp [toPersisted, Function.comp_def]
  have valid : withValidActive (toPersisted session) = toPersisted session := by
    cases shown : session.active with
    | none =>
      have noTabs := shows.noneShown.mp shown
      simp [withValidActive, toPersisted, shown, noTabs]
    | some path => exact withValidActive_of_mem shown (paths ▸ shows.shown path shown)
  rw [withoutMissingFiles_eq, valid]
  obtain ⟨tabs, noneShown, active⟩ := withValidActive_spec ⟨(toPersisted session).tabs.filter fun tab =>
    tab.path ∈ (entries.filter fun entry => !entry.isDir).map Entry.path, (toPersisted session).active⟩
  constructor
  · rw [tabs]
    exact List.filter_congr fun tab _ => decide_eq_decide.mpr (mem_present tidy lists tab.path)
  · rw [tabs]
    exact noneShown
  · rw [tabs]
    exact active
  · intro path shown file
    refine (congrArg PersistedSession.active (withValidActive_of_mem shown ?_)).trans shown
    obtain ⟨tab, mem, same⟩ := List.mem_map.mp (paths.symm ▸ shows.shown path shown)
    refine List.mem_map.mpr ⟨tab, List.mem_filter.mpr ⟨mem, decide_eq_true ?_⟩, same⟩
    exact (mem_present tidy lists tab.path).mpr (same ▸ file)

theorem shows_of_reached (reached : Reached session) : Shows session := by
  have run : ∀ (operations : List Operation) (start : EditorSession), Shows start →
      Shows (operations.foldl Operation.apply start) := by
    intro operations
    induction operations with
    | nil => exact fun _ started => started
    | cons operation operations ih => exact fun start started => ih _ (started.apply operation)
  obtain ⟨start, operations, first, rfl⟩ := reached
  refine run operations start ?_
  rcases first with rfl | ⟨state, rfl⟩
  · exact Shows.empty
  · exact Shows.fromPersisted state

/-- A session within the limits is accepted, and comes back but for the files that are gone. -/
theorem state_comesBack (session : EditorSession) (reached : Reached session) (within : Within session)
    (seedFiles : List (Text × List UInt8)) (lower : Text → Text)
    (tidy : Tidy root quotaBytes fs top) (dump : PersistedSession → Text)
    (validate : Text → Option PersistedSession)
    (readsBack : validate (dump (withValidActive (toPersisted session))) =
      some (withValidActive (toPersisted session))) :
    ∃ row returned, writeState dump (toPersisted session) = some row ∧
      readState validate root seedFiles lower (some row) fs = (.ok returned, fs) ∧
      ComesBack fs top session returned := by
  have shows := shows_of_reached reached
  obtain ⟨entries, listed, lists⟩ : ∃ entries, tree root seedFiles lower fs = (.ok entries, fs) ∧
      Lists fs top [] entries := tidy.tree
  refine ⟨_, _, if_pos (accepted_of_within shows within), ?_, comesBack tidy lists shows⟩
  unfold readState
  rw [Option.bind_some, readsBack]
  exact Op.bind_ok listed

/-- The state of `oneTab` and its text. -/
def oneTabState : PersistedSession := ⟨[⟨"d/a.in".toList, none, none⟩], some "d/a.in".toList⟩

def oneTabText : Text :=
  "\x7b\"tabs\":[\x7b\"path\":\"d/a.in\",\"draft\":null,\"cursor\":null\x7d],\"active\":\"d/a.in\"\x7d".toList

theorem state_comesBack_oneTab : ∃ fs ∈ oneFile, ∃ row returned,
    writeState (fun _ => oneTabText) (toPersisted oneTab) = some row ∧
      readState (fun text => if text = oneTabText then some oneTabState else none) ⟨true, [['w']]⟩ [] id
        (some row) fs = (.ok returned, fs) ∧ ComesBack fs [['w']] oneTab returned := by
  obtain ⟨fs, built⟩ : ∃ fs, oneFile = some fs := Option.isSome_iff_exists.mp (by decide)
  have state : withValidActive (toPersisted oneTab) = oneTabState := by decide
  have reached : Reached oneTab := ⟨.empty,
    [.openTab "d/a.in".toList, .loaded "d/a.in".toList "x".toList], Or.inl rfl, rfl⟩
  have order : oneTab.order = ["d/a.in".toList] := rfl
  have buffer : oneTab.buffers.get? "d/a.in".toList = some ⟨some ['x'], some ['x'], none⟩ := by
    decide
  have clean : oneTab.draft "d/a.in".toList = none := by decide
  have within : Within oneTab := by
    constructor <;> rw [order]
    · decide
    · decide
    · intro path mem draft found
      obtain rfl := List.mem_singleton.mp mem
      rw [clean] at found
      cases found
    · intro path mem buffer' cursor found given
      obtain rfl := List.mem_singleton.mp mem
      obtain rfl := Option.some.inj (buffer.symm.trans found)
      cases given
  obtain ⟨row, returned, written, read, back⟩ := state_comesBack oneTab reached within [] id
    (tidy_oneFile built) (fun _ => oneTabText)
    (fun text => if text = oneTabText then some oneTabState else none) (by rw [state, if_pos rfl])
  exact ⟨fs, built, row, returned, written, read, back⟩

/-- The server refuses the state of an editor with twenty-one tabs. -/
theorem not_accepted : ¬ ∀ session, Reached session → ∀ dump, ∃ row,
    writeState dump (toPersisted session) = some row := by
  intro all
  let operations := (List.range 21).map fun n => Operation.openTab (List.replicate (n + 1) 'a')
  obtain ⟨row, written⟩ := all (operations.foldl Operation.apply .empty)
    ⟨.empty, operations, Or.inl rfl, rfl⟩ fun _ => []
  unfold writeState at written
  split at written
  · rename_i accepted
    exact absurd accepted.1 (by decide)
  · cases written

end Server

end TcadWebapp.Editor
