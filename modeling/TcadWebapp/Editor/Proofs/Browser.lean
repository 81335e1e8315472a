import TcadWebapp.Editor.Browser
import TcadWebapp.Workspace.Proofs.Service

/-!
# Tabs that follow their files

A request moves or deletes all from one place down, while the session changes one label. The
two agree exactly when no other tab shows a file from that place down.
-/

namespace TcadWebapp.Editor

open Workspace

variable {root : PosixPath} {seedFiles : List (Text × List UInt8)} {lower : Text → Text}
  {quotaBytes : Int} {fs fs' : Files} {top : Location} {request : Request} {tab : Text}
  {place : List Text}

/-! ## Paths of the listing -/

theorem normalise_of_isName (kept : List Text) (isName : ∀ name ∈ place, IsName name) :
    normalise kept place = some (kept ++ place) := by
  induction place generalizing kept with
  | nil => rw [normalise, List.append_nil]
  | cons name rest ih =>
    obtain ⟨some, noDot, noDots, -⟩ := isName name List.mem_cons_self
    rw [normalise, if_neg (by simp [some, noDot]), if_neg noDots,
      ih _ fun name mem => isName name (List.mem_cons_of_mem _ mem)]
    simp

/-- A path of the listing leads where it was made. -/
theorem eq_of_partsOf_pathOf {place' : List Text} (isName : ∀ name ∈ place, IsName name)
    (leads : partsOf (pathOf place) = some place') : place' = place := by
  unfold partsOf at leads
  split at leads
  · cases leads
  · split at leads
    · cases leads
    · rw [pathOf, PosixPath.parts_parse_intercalate isName, normalise_of_isName [] isName]
        at leads
      exact (Option.some.inj leads).symm

/-- An entry of the listing is something below the root. -/
theorem place_of_listed (tidy : Tidy root quotaBytes fs top) {entries : List Entry}
    (listed : tree root seedFiles lower fs = (.ok entries, fs)) {entry : Entry}
    (mem : entry ∈ entries) :
    ∃ place, place ≠ [] ∧ (∀ name ∈ place, IsName name) ∧ entry.path = pathOf place := by
  obtain ⟨found, walked, lists⟩ : ∃ found, tree root seedFiles lower fs = (.ok found, fs) ∧
      Lists fs top [] found := tidy.tree
  rw [listed] at walked
  obtain rfl : entries = found := by simpa using walked
  obtain ⟨place, node, some, there, rfl⟩ := (lists.2 entry).mp mem
  exact ⟨place, some, Files.isName_of_mem (by rw [there]; rfl), rfl⟩

/-! ## What the server did -/

/-- The change that a request makes. -/
def Request.Did (fs : Files) (top : Location) (fs' : Files) : Request → Prop
  | .rename path destination => Renamed fs top path destination fs'
  | .remove path => Deleted fs top path fs'

/-- A request is for something below the root. -/
theorem partsOf_ne_nil (tidy : Tidy root quotaBytes fs top) {entries : List Entry}
    (listed : tree root seedFiles lower fs = (.ok entries, fs)) (asked : Asked entries request) :
    partsOf request.path ≠ some [] := by
  have notRoot : ∀ entry ∈ entries, partsOf entry.path ≠ some [] := by
    intro entry mem leads
    obtain ⟨place, below, isName, path⟩ := place_of_listed tidy listed mem
    rw [path] at leads
    exact below (eq_of_partsOf_pathOf isName leads).symm
  cases asked with
  | @rename entry name request mem made =>
    unfold renameEntry at made
    split at made
    · cases made
    · obtain rfl := Option.some.inj made
      exact notRoot entry mem
  | @move sourcePath target request _ made =>
    unfold moveInto at made
    split at made
    · cases made
    · rename_i source found
      have mem := List.mem_of_find?_eq_some found
      dsimp only at made
      split at made
      · cases made
      · split at made
        · cases made
        · split at made
          · cases made
          · obtain rfl := Option.some.inj made
            exact notRoot source mem
  | @remove entry mem => exact notRoot entry mem

theorem did_of_serve (tidy : Tidy root quotaBytes fs top)
    (notRoot : partsOf request.path ≠ some [])
    (done : request.serve root seedFiles fs = (.ok (), fs')) : request.Did fs top fs' := by
  cases request with
  | rename path destination => exact ((rename_outcome tidy path destination).of_ok done).2
  | remove path => exact ((delete_outcome tidy notRoot).of_ok done).2

theorem moved_top (source target place : List Text) :
    Files.moved (top ++ source) (top ++ target) (top ++ place) =
      top ++ Files.moved source target place := by
  by_cases inside : source <+: place
  · obtain ⟨rest, rfl⟩ := inside
    rw [← List.append_assoc, Files.moved_append, Files.moved_append, List.append_assoc]
  · rw [Files.moved_of_outside inside, Files.moved_of_outside]
    exact fun pre => inside ((List.prefix_append_right_inj top).mp pre)

/-- Afterwards all is where `carry` says. -/
theorem get?_of_did (did : request.Did fs top fs') (place : List Text) (node : Node) :
    fs'.get? (top ++ place) = some node ↔
      ∃ place₀, request.carry place₀ = some place ∧ fs.get? (top ++ place₀) = some node := by
  cases request with
  | rename path destination =>
    obtain ⟨source, above, name, leads, leads', -, moved⟩ := did
    simp only [Request.carry, leads, leads', Option.some.injEq]
    rw [Files.get?_move moved, List.append_assoc]
    constructor
    · rintro ⟨place₀, comes, there⟩
      by_cases inside : top ++ source <+: place₀
      · obtain ⟨rest, rfl⟩ := inside
        rw [List.append_assoc] at there comes
        rw [moved_top] at comes
        exact ⟨source ++ rest, List.append_cancel_left comes, there⟩
      · rw [Files.moved_of_outside inside] at comes
        subst comes
        refine ⟨place, Files.moved_of_outside ?_, there⟩
        exact fun pre => inside ((List.prefix_append_right_inj top).mpr pre)
    · rintro ⟨place₀, comes, there⟩
      exact ⟨top ++ place₀, by rw [moved_top, comes], there⟩
  | remove path =>
    obtain ⟨source, leads, -, removed⟩ := did
    rw [Files.get?_remove removed]
    have inside : top ++ source <+: top ++ place ↔ source <+: place :=
      List.prefix_append_right_inj top
    simp only [Request.carry, leads, inside]
    constructor
    · intro there
      split at there
      · cases there
      · rename_i outside
        exact ⟨place, if_neg outside, there⟩
    · rintro ⟨place₀, comes, there⟩
      split at comes
      · cases comes
      · rename_i outside
        obtain rfl := Option.some.inj comes
        rwa [if_neg outside]

/-! ## Labels -/

/-- What a request makes of the place of its entry. -/
theorem carry_source (did : request.Did fs top fs') :
    ∃ source, partsOf request.path = some source ∧ request.carry source ≠ some source ∧
      ∀ place, ¬ source <+: place → request.carry place = some place := by
  cases request with
  | rename path destination =>
    obtain ⟨source, above, name, leads, leads', there, moved⟩ := did
    have free := (Files.move_eq_some moved).1
    refine ⟨source, leads, ?_, ?_⟩
    · simp only [Request.carry, leads, leads', ne_eq, Option.some.injEq]
      intro same
      have comes := Files.moved_append source (above ++ [name]) []
      rw [List.append_nil, List.append_nil, same] at comes
      rw [comes, ← List.append_assoc, free] at there
      cases there
    · intro place outside
      simp only [Request.carry, leads, leads', Files.moved_of_outside outside]
  | remove path =>
    obtain ⟨source, leads, -, -⟩ := did
    refine ⟨source, leads, ?_, ?_⟩
    · simp [Request.carry, leads]
    · intro place outside
      simp only [Request.carry, leads, if_neg outside]

theorem fileOf_eq_some : fileOf fs top tab = some place ↔
    partsOf tab = some place ∧ ∃ bytes, fs.get? (top ++ place) = some (.file bytes) := by
  unfold fileOf
  cases leads : partsOf tab with
  | none => simp
  | some place' =>
    dsimp only
    constructor
    · intro h
      split at h
      · rename_i bytes there
        obtain rfl := Option.some.inj h
        exact ⟨rfl, bytes, there⟩
      · cases h
    · rintro ⟨same, bytes, there⟩
      obtain rfl := Option.some.inj same
      rw [there]

theorem isName_of_carry {place' : List Text} (isName : ∀ name ∈ place, IsName name)
    (comes : request.carry place = some place') : ∀ name ∈ place', IsName name := by
  cases request with
  | rename path destination =>
    simp only [Request.carry] at comes
    split at comes
    · rename_i source target _ leads'
      obtain rfl := Option.some.inj comes
      by_cases inside : source <+: place
      · obtain ⟨rest, rfl⟩ := inside
        rw [Files.moved_append]
        intro name mem
        rcases List.mem_append.mp mem with mem | mem
        · exact isName_of_partsOf leads' name mem
        · exact isName name (List.mem_append_right _ mem)
      · rwa [Files.moved_of_outside inside]
    · obtain rfl := Option.some.inj comes
      exact isName
  | remove path =>
    simp only [Request.carry] at comes
    split at comes
    · split at comes
      · cases comes
      · obtain rfl := Option.some.inj comes
        exact isName
    · obtain rfl := Option.some.inj comes
      exact isName

/-- A label stays exactly when its file does, or if it has none. -/
theorem relabel_eq_self_iff : relabel fs top request tab = some tab ↔
    ∀ place, fileOf fs top tab = some place → request.carry place = some place := by
  unfold relabel
  cases shows : fileOf fs top tab with
  | none => simp
  | some place =>
    simp only [Option.some.injEq, forall_eq']
    cases comes : request.carry place with
    | none => simp
    | some place' =>
      simp only [Option.some.injEq]
      by_cases same : place' = place
      · simp [same]
      · rw [if_neg same]
        have leads := (fileOf_eq_some.mp shows).1
        have isName := isName_of_carry (isName_of_partsOf leads) comes
        refine iff_of_false ?_ same
        rintro rfl
        exact same (eq_of_partsOf_pathOf isName leads).symm

/-- The entry's own tab, if the entry is a file. -/
theorem relabel_path (did : request.Did fs top fs')
    (isFile : (fileOf fs top request.path).isSome) :
    ∃ source, partsOf request.path = some source ∧
      relabel fs top request request.path = (request.carry source).map pathOf := by
  obtain ⟨source, leads, moves, -⟩ := carry_source did
  obtain ⟨place, shows⟩ := Option.isSome_iff_exists.mp isFile
  obtain rfl : source = place := Option.some.inj (leads.symm.trans (fileOf_eq_some.mp shows).1)
  refine ⟨source, leads, ?_⟩
  rw [relabel, shows]
  cases comes : request.carry source with
  | none => simp [comes]
  | some place' =>
    have other : place' ≠ source := fun same => moves (same ▸ comes)
    simp [comes, other]

/-! ## The session -/

theorem map_eq_filterMap_iff {α β : Type*} {f : α → β} {g : α → Option β} {l : List α}
    (total : ∀ a ∈ l, (g a).isSome) :
    l.map f = l.filterMap g ↔ ∀ a ∈ l, g a = some (f a) := by
  induction l with
  | nil => simp
  | cons a l ih =>
    obtain ⟨b, found⟩ := Option.isSome_iff_exists.mp (total a List.mem_cons_self)
    rw [List.map_cons, List.filterMap_cons_some found, List.cons.injEq,
      ih fun a' mem => total a' (List.mem_cons_of_mem _ mem), List.forall_mem_cons, found,
      Option.some.injEq, eq_comm]

theorem filter_eq_filterMap_iff {α : Type*} [DecidableEq α] {p : α → Bool} {g : α → Option α}
    {l : List α} (same : ∀ a ∈ l, ∀ b, g a = some b → b = a) :
    l.filter p = l.filterMap g ↔ ∀ a ∈ l, (p a = true ↔ g a = some a) := by
  have kept : l.filterMap g = l.filter fun a => g a = some a := by
    induction l with
    | nil => rfl
    | cons a l ih =>
      have rest := ih fun a' mem => same a' (List.mem_cons_of_mem _ mem)
      cases found : g a with
      | none => simp [found, rest]
      | some b =>
        obtain rfl := same a List.mem_cons_self b found
        simp [found, rest]
  rw [kept]
  constructor
  · intro filters a mem
    have iff := congrArg (a ∈ ·) filters
    simpa [mem] using iff
  · intro agree
    apply List.filter_congr
    intro a mem
    rw [Bool.eq_iff_iff, agree a mem, decide_eq_true_eq]

section Rename

variable {path destination : Text} {session : EditorSession}

theorem relabel_rename_isSome (did : (Request.rename path destination).Did fs top fs') :
    (relabel fs top (.rename path destination) tab).isSome := by
  obtain ⟨source, above, name, leads, leads', -, -⟩ := did
  unfold relabel
  simp only [Request.carry, leads, leads']
  split <;> rfl

/-- The old path and the new one lead to different places. -/
theorem destination_ne_path (did : (Request.rename path destination).Did fs top fs') :
    destination ≠ path := by
  rintro rfl
  obtain ⟨source, leads, moves, -⟩ := carry_source did
  have leads : partsOf destination = some source := leads
  refine moves ?_
  have stays := Files.moved_append source source []
  rw [List.append_nil] at stays
  simp only [Request.carry, leads, stays]

theorem order_rename (tabbed : Tabbed session) :
    (session.renamePath path destination).order =
      session.order.map fun tab => if tab = path then destination else tab := by
  unfold EditorSession.renamePath
  cases found : session.buffers.get? path with
  | some buffer => rfl
  | none =>
    have absent : path ∉ session.order := by simp [tabbed path, found]
    refine ((List.map_congr_left fun tab mem => ?_).trans (List.map_id _)).symm
    refine if_neg ?_
    rintro rfl
    exact absent mem

theorem get?_rename :
    (session.renamePath path destination).buffers.get? tab =
      match session.buffers.get? path with
      | none => session.buffers.get? tab
      | some buffer =>
        if tab = path then none
        else if tab = destination then some buffer else session.buffers.get? tab := by
  unfold EditorSession.renamePath
  cases found : session.buffers.get? path with
  | none => rfl
  | some buffer => simp only [Dict.get?_erase, Dict.get?_set]

theorem follows_rename_iff (did : (Request.rename path destination).Did fs top fs')
    (tabbed : Tabbed session) :
    Follows (relabel fs top (.rename path destination)) session
        (session.renamePath path destination) ↔
      Alone fs top (.rename path destination) session := by
  have ne := destination_ne_path did
  have order : (session.renamePath path destination).order =
      session.order.filterMap (relabel fs top (.rename path destination)) ↔
        ∀ tab ∈ session.order, relabel fs top (.rename path destination) tab =
          some (if tab = path then destination else tab) := by
    rw [order_rename tabbed]
    exact map_eq_filterMap_iff fun tab _ => relabel_rename_isSome did
  constructor
  · rintro ⟨labels, buffers⟩
    have labels := order.mp labels
    have isFile : path ∈ session.order → (fileOf fs top path).isSome := by
      intro mem
      by_contra noFile
      have own := labels path mem
      rw [if_pos rfl, relabel, Option.not_isSome_iff_eq_none.mp noFile] at own
      exact ne (Option.some.inj own).symm
    refine ⟨?_, isFile, ?_⟩
    · intro tab mem place shows moves
      by_contra other
      have other : ¬ tab = path := other
      have own := labels tab mem
      rw [if_neg other] at own
      exact moves (relabel_eq_self_iff.mp own place shows)
    · rintro path' destination' same mem
      obtain ⟨rfl, rfl⟩ : path = path' ∧ destination = destination' := by simpa using same
      have own := labels path mem
      rw [if_pos rfl] at own
      constructor
      · obtain ⟨source, leads, shows⟩ := relabel_path did (isFile mem)
        have shows : relabel fs top (.rename path destination) path = _ := shows
        obtain ⟨source', above, name, leads', leads'', -, -⟩ := did
        obtain rfl : source = source' := Option.some.inj (leads.symm.trans leads')
        have comes := Files.moved_append source (above ++ [name]) []
        rw [List.append_nil, List.append_nil] at comes
        rw [own] at shows
        simp only [Request.carry, leads', leads'', comes, Option.map_some,
          Option.some.injEq] at shows
        exact ⟨_, leads'', shows⟩
      · intro mem'
        obtain ⟨buffer, found⟩ := Option.isSome_iff_exists.mp ((tabbed path).mp mem)
        have stays := labels destination mem'
        rw [if_neg ne] at stays
        have kept := buffers destination mem' destination stays
        rw [get?_rename, found] at kept
        simp only [if_neg ne, if_true] at kept
        rw [← kept, found]
  · rintro ⟨others, isFile, target⟩
    have labels : ∀ tab ∈ session.order, relabel fs top (.rename path destination) tab =
        some (if tab = path then destination else tab) := by
      intro tab mem
      by_cases own : tab = path
      · subst own
        rw [if_pos rfl]
        obtain ⟨⟨place, leads'', spelled⟩, -⟩ := target tab destination rfl mem
        obtain ⟨source, leads, shows⟩ := relabel_path did (isFile mem)
        have shows : relabel fs top (.rename tab destination) tab = _ := shows
        obtain ⟨source', above, name, leads', leads''', -, -⟩ := did
        obtain rfl : source = source' := Option.some.inj (leads.symm.trans leads')
        obtain rfl : place = above ++ [name] := Option.some.inj (leads''.symm.trans leads''')
        have comes := Files.moved_append source (above ++ [name]) []
        rw [List.append_nil, List.append_nil] at comes
        rw [shows]
        simp only [Request.carry, leads', leads'', comes, Option.map_some, ← spelled]
      · rw [if_neg own, relabel_eq_self_iff]
        intro place shows
        by_contra moves
        exact own (others tab mem place shows moves)
    refine ⟨order.mpr labels, ?_⟩
    intro tab mem tab' label
    rw [labels tab mem] at label
    obtain rfl := Option.some.inj label
    rw [get?_rename]
    cases found : session.buffers.get? path with
    | none =>
      have other : tab ≠ path := by
        rintro rfl
        simp [tabbed tab, found] at mem
      simp only [if_neg other]
    | some buffer =>
      by_cases own : tab = path
      · subst own
        simp only [if_true, if_neg ne]
        exact found.symm
      · simp only [if_neg own]
        by_cases clash : tab = destination
        · subst clash
          have mem' : path ∈ session.order := (tabbed path).mpr (by rw [found]; rfl)
          rw [if_pos rfl, (target path tab rfl mem').2 mem, found]
        · rw [if_neg clash]

end Rename

theorem follows_remove_iff {path : Text} {session : EditorSession}
    (did : (Request.remove path).Did fs top fs') :
    Follows (relabel fs top (.remove path)) session (session.closeTab path) ↔
      Alone fs top (.remove path) session := by
  have same : ∀ tab tab', relabel fs top (.remove path) tab = some tab' → tab' = tab := by
    intro tab tab' label
    unfold relabel at label
    split at label
    · exact (Option.some.inj label).symm
    · rename_i place _
      simp only [Request.carry] at label
      split at label
      · cases label
      · rename_i place' comes
        have stays : place' = place := by
          split at comes
          · split at comes
            · cases comes
            · exact (Option.some.inj comes).symm
          · exact (Option.some.inj comes).symm
        rw [if_pos stays] at label
        exact (Option.some.inj label).symm
  have order : (session.closeTab path).order =
      session.order.filterMap (relabel fs top (.remove path)) ↔
        ∀ tab ∈ session.order, (tab ≠ path ↔ relabel fs top (.remove path) tab = some tab) := by
    have filters := filter_eq_filterMap_iff (p := (· ≠ path)) fun tab (_ : tab ∈ session.order) =>
      same tab
    simpa [EditorSession.closeTab] using filters
  constructor
  · rintro ⟨labels, -⟩
    have labels := order.mp labels
    refine ⟨?_, ?_, fun _ _ no => by cases no⟩
    · intro tab mem place shows moves
      by_contra other
      exact moves (relabel_eq_self_iff.mp ((labels tab mem).mp other) place shows)
    · intro mem
      have mem : path ∈ session.order := mem
      show (fileOf fs top path).isSome = true
      by_contra noFile
      refine (labels path mem).mpr ?_ rfl
      rw [relabel_eq_self_iff]
      intro place shows
      simp [shows] at noFile
  · rintro ⟨others, isFile, -⟩
    have labels : ∀ tab ∈ session.order,
        (tab ≠ path ↔ relabel fs top (.remove path) tab = some tab) := by
      intro tab mem
      rw [relabel_eq_self_iff]
      constructor
      · intro other place shows
        by_contra moves
        exact other (others tab mem place shows moves)
      · rintro stays rfl
        obtain ⟨source, leads, moves, -⟩ := carry_source did
        obtain ⟨place, shows⟩ := Option.isSome_iff_exists.mp (isFile mem)
        obtain rfl := Option.some.inj (leads.symm.trans (fileOf_eq_some.mp shows).1)
        exact moves (stays source shows)
    refine ⟨order.mpr labels, ?_⟩
    intro tab mem tab' label
    obtain rfl := same tab tab' label
    have other : tab' ≠ path := (labels tab' mem).mpr label
    rw [EditorSession.get?_closeTab, if_neg other]

/-- A request of the browser that the server has carried out: the files are where `carry`
says, and the tabs follow them exactly when no other tab than that of the entry, a file, shows
any of what was moved or deleted. -/
theorem follows_iff_alone (tidy : Tidy root quotaBytes fs top) {before : Files}
    {quotaBytes' : Int} {top' : Location} (tidy' : Tidy root quotaBytes' before top')
    {entries : List Entry} (listed : tree root seedFiles lower before = (.ok entries, before))
    (asked : Asked entries request) (done : request.serve root seedFiles fs = (.ok (), fs'))
    {session : EditorSession} (tabbed : Tabbed session) :
    (∀ place node, fs'.get? (top ++ place) = some node ↔
      ∃ place₀, request.carry place₀ = some place ∧ fs.get? (top ++ place₀) = some node) ∧
    (Follows (relabel fs top request) session (request.follow session) ↔
      Alone fs top request session) := by
  have did := did_of_serve tidy (partsOf_ne_nil tidy' listed asked) done
  refine ⟨get?_of_did did, ?_⟩
  cases request with
  | rename path destination => exact follows_rename_iff did tabbed
  | remove path => exact follows_remove_iff did

/-! ## Tabs and buffers -/

namespace Tabbed

variable {session : EditorSession} {path : Text}

theorem empty : Tabbed .empty := fun path => by simp [EditorSession.empty]

theorem fromPersisted (state : PersistedSession) : Tabbed (fromPersisted state) := by
  unfold Editor.fromPersisted
  dsimp only
  split
  · exact empty
  · intro path
    have keys : (state.tabs.map fun tab => (tab.path, (⟨tab.draft, none, tab.cursor⟩ : Buffer))).map
        Prod.fst = state.tabs.map PersistedTab.path := by
      rw [List.map_map]
      rfl
    dsimp only
    constructor
    · intro mem
      rw [← keys] at mem
      obtain ⟨buffer, -, found⟩ := Dict.get?_update_of_mem ∅ mem
      rw [Dict.ofList, found]
      rfl
    · intro found
      by_contra absent
      rw [← keys] at absent
      rw [Dict.ofList, Dict.get?_update_of_notMem ∅ absent] at found
      cases found

theorem openTab (tabbed : Tabbed session) : Tabbed (session.openTab path) := by
  intro path'
  have order : path' ∈ (session.openTab path).order ↔ path' = path ∨ path' ∈ session.order := by
    unfold EditorSession.openTab
    dsimp only
    split
    · rename_i mem
      exact ⟨Or.inr, fun h => h.elim (fun same => same ▸ mem) id⟩
    · simp [or_comm]
  rw [order, EditorSession.get?_openTab, tabbed path']
  by_cases same : path' = path <;> simp [same]

theorem closeTab (tabbed : Tabbed session) : Tabbed (session.closeTab path) := by
  intro path'
  rw [EditorSession.get?_closeTab]
  by_cases same : path' = path
  · simp [EditorSession.closeTab, same]
  · simp [EditorSession.closeTab, same, tabbed path']

theorem activate (tabbed : Tabbed session) : Tabbed (session.activate path) := by
  unfold EditorSession.activate
  split
  · exact tabbed
  · exact tabbed

/-- `edit`, `loaded`, `markSaved` and `moveCursor`. -/
theorem update (tabbed : Tabbed session) (f : Buffer → Buffer) :
    Tabbed (session.update path f) := by
  intro path'
  rw [EditorSession.order_update, EditorSession.get?_update, tabbed path']
  by_cases same : path' = path <;> simp [same]

theorem renamePath (tabbed : Tabbed session) {destination : Text} (ne : destination ≠ path) :
    Tabbed (session.renamePath path destination) := by
  intro tab
  rw [order_rename tabbed, get?_rename, List.mem_map]
  cases found : session.buffers.get? path with
  | none =>
    dsimp only
    rw [← tabbed tab]
    have absent : path ∉ session.order := by simp [tabbed path, found]
    have other : ∀ tab' ∈ session.order, tab' ≠ path := by
      rintro _ mem rfl
      exact absent mem
    constructor
    · rintro ⟨tab', mem, rfl⟩
      rwa [if_neg (other tab' mem)]
    · intro mem
      exact ⟨tab, mem, if_neg (other tab mem)⟩
  | some buffer =>
    have mem : path ∈ session.order := by simp [tabbed path, found]
    dsimp only
    constructor
    · rintro ⟨tab', mem', rfl⟩
      by_cases own : tab' = path
      · rw [if_pos own, if_neg ne, if_pos rfl]
        rfl
      · rw [if_neg own, if_neg own]
        split
        · rfl
        · exact (tabbed tab').mp mem'
    · intro there
      split at there
      · cases there
      · rename_i other
        split at there
        · rename_i same
          exact ⟨path, mem, by rw [if_pos rfl, same]⟩
        · exact ⟨tab, (tabbed tab).mpr there, if_neg other⟩

end Tabbed

/-! ## A folder that is renamed -/

/-- A workspace with the file `d/a.in`. -/
def oneFile : Option Files := emptyWorkspace.map fun fs =>
  ((Call.write "d/a.in".toList "x".toList).run ⟨true, [['w']]⟩ [] 100
    ((Call.makeFolder "d".toList).run ⟨true, [['w']]⟩ [] 100 fs).2).2

theorem tidy_oneFile (built : oneFile = some fs) : Tidy ⟨true, [['w']]⟩ 100 fs [['w']] := by
  obtain ⟨fs₀, built₀, rfl⟩ := Option.map_eq_some_iff.mp built
  refine @tidy_step _ [] _ _ _ _ (.write "d/a.in".toList "x".toList) ?_ rfl
  exact @tidy_step _ [] _ _ _ _ (.makeFolder "d".toList) (tidy_emptyWorkspace built₀) rfl

/-- The file is open. -/
def oneTab : EditorSession :=
  (EditorSession.empty.openTab "d/a.in".toList).loaded "d/a.in".toList "x".toList

theorem tabbed_oneTab : Tabbed oneTab := Tabbed.empty.openTab.update _

theorem listed_oneFile (built : oneFile = some fs) {place : List Text} {node : Node}
    (below : place ≠ []) (there : fs.get? ([['w']] ++ place) = some node) :
    ∃ entries, tree ⟨true, [['w']]⟩ [] id fs = (.ok entries, fs) ∧
      entryAt place node ∈ entries := by
  obtain ⟨entries, listed, lists⟩ : ∃ entries, tree ⟨true, [['w']]⟩ [] id fs = (.ok entries, fs) ∧
      Lists fs [['w']] [] entries := (tidy_oneFile built).tree
  refine ⟨entries, listed, (lists.2 _).mpr ⟨place, node, below, ?_, rfl⟩⟩
  rwa [List.append_nil]

/-- The tab of a file in a folder that is renamed stays under the old path. -/
theorem not_follows : ¬ ∀ (root : PosixPath) (seedFiles : List (Text × List UInt8))
    (lower : Text → Text) (quotaBytes : Int) (fs fs' : Files) (top : Location)
    (entries : List Entry) (request : Request) (session : EditorSession),
    Tidy root quotaBytes fs top → tree root seedFiles lower fs = (.ok entries, fs) →
      Asked entries request → request.serve root seedFiles fs = (.ok (), fs') →
        Tabbed session → Follows (relabel fs top request) session (request.follow session) := by
  intro all
  have possible : ∃ fs ∈ oneFile, fs.get? ([['w']] ++ [['d']]) = some .folder ∧
      ((Request.rename ['d'] ['e']).serve ⟨true, [['w']]⟩ [] fs).1.toOption = some () ∧
      relabel fs [['w']] (.rename ['d'] ['e']) "d/a.in".toList = some "e/a.in".toList := by
    decide +kernel
  obtain ⟨fs, built, there, done, label⟩ := possible
  obtain ⟨entries, listed, mem⟩ := listed_oneFile built (by simp) there
  have served : (Request.rename ['d'] ['e']).serve ⟨true, [['w']]⟩ [] fs =
      (.ok (), ((Request.rename ['d'] ['e']).serve ⟨true, [['w']]⟩ [] fs).2) := by
    generalize (Request.rename ['d'] ['e']).serve ⟨true, [['w']]⟩ [] fs = r at done
    obtain ⟨_ | _, fs'⟩ := r
    · cases done
    · rfl
  have asked : Asked entries (.rename ['d'] ['e']) := @Asked.rename _ _ ['e'] _ mem rfl
  have follows := all _ _ _ _ _ _ _ _ _ _ (tidy_oneFile built) listed asked served tabbed_oneTab
  have order := follows.order
  rw [show oneTab.order = ["d/a.in".toList] from rfl, List.filterMap_cons_some label,
    List.filterMap_nil] at order
  exact absurd order (by decide +kernel)

/-- The file itself is renamed. -/
theorem follows_iff_alone_oneFile : ∃ fs fs' entries, oneFile = some fs ∧
    Asked entries (.rename "d/a.in".toList "d/b.in".toList) ∧
    (Request.rename "d/a.in".toList "d/b.in".toList).serve ⟨true, [['w']]⟩ [] fs = (.ok (), fs') ∧
    (Follows (relabel fs [['w']] (.rename "d/a.in".toList "d/b.in".toList)) oneTab
        (oneTab.renamePath "d/a.in".toList "d/b.in".toList) ↔
      Alone fs [['w']] (.rename "d/a.in".toList "d/b.in".toList) oneTab) := by
  have possible : ∃ fs ∈ oneFile,
      fs.get? ([['w']] ++ ["d".toList, "a.in".toList]) = some (.file [120]) ∧
      ((Request.rename "d/a.in".toList "d/b.in".toList).serve ⟨true, [['w']]⟩ [] fs).1.toOption =
        some () := by
    decide +kernel
  obtain ⟨fs, built, there, done⟩ := possible
  obtain ⟨entries, listed, mem⟩ := listed_oneFile built (by simp) there
  have asked : Asked entries (.rename "d/a.in".toList "d/b.in".toList) :=
    @Asked.rename _ _ "b.in".toList _ mem (by decide +kernel)
  obtain ⟨fs', served⟩ : ∃ fs', (Request.rename "d/a.in".toList "d/b.in".toList).serve
      ⟨true, [['w']]⟩ [] fs = (.ok (), fs') := by
    generalize (Request.rename _ _).serve ⟨true, [['w']]⟩ [] fs = r at done
    obtain ⟨_ | _, fs'⟩ := r
    · cases done
    · exact ⟨fs', rfl⟩
  refine ⟨fs, fs', entries, built, asked, served, ?_⟩
  exact (follows_iff_alone (tidy_oneFile built) (tidy_oneFile built) listed asked served
    tabbed_oneTab).2

end TcadWebapp.Editor
