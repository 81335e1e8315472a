import TcadWebapp.Editor.Operations
import TcadWebapp.Editor.Proofs.Browser

/-!
# Tabs, buffers and drafts fit together

Each operation keeps the tabs, the buffers and the tab shown in step, leaves the other buffers alone
and keeps the drafts, exactly when it does not rename a tab onto an open one and does not mark another
text than the draft as saved. From one step follows the same of whole runs.
-/

namespace TcadWebapp.Editor

open EditorSession

variable {session : EditorSession} {path : Text}

/-! ## The tabs and the tab shown -/

namespace Shows

theorem of_some {order : List Text} {buffers : Dict Text Buffer} (mem : path ∈ order) :
    Shows ⟨order, some path, buffers⟩ where
  shown path' same := Option.some.inj same ▸ mem
  noneShown := by
    constructor
    · intro none
      cases none
    · rintro rfl
      cases mem

theorem empty : Shows .empty where
  shown path same := by cases same
  noneShown := by simp [EditorSession.empty]

theorem fromPersisted (state : PersistedSession) : Shows (fromPersisted state) := by
  unfold Editor.fromPersisted
  dsimp only
  split
  · exact empty
  · rename_i some
    obtain ⟨first, rest, tabs⟩ := List.exists_cons_of_ne_nil some
    have head : Shows ⟨state.tabs.map PersistedTab.path, (state.tabs.map PersistedTab.path).head?,
        Dict.ofList (state.tabs.map fun tab => (tab.path, ⟨tab.draft, none, tab.cursor⟩))⟩ := by
      rw [tabs]
      exact of_some List.mem_cons_self
    cases state.active with
    | none => exact head
    | some path =>
      dsimp only
      split
      · rename_i there
        exact of_some there.2
      · exact head

theorem openTab (path : Text) : Shows (session.openTab path) := by
  apply of_some
  split
  · assumption
  · simp

theorem closeTab (shows : Shows session) (path : Text) : Shows (session.closeTab path) := by
  unfold EditorSession.closeTab
  by_cases own : session.active = some path
  · rw [if_pos own]
    constructor
    · intro path' last
      exact List.mem_of_getLast? last
    · exact List.getLast?_eq_none_iff
  · rw [if_neg own]
    cases active : session.active with
    | none =>
      have noTabs := shows.noneShown.mp active
      rw [noTabs]
      constructor
      · intro path' same
        cases same
      · simp
    | some path' =>
      refine of_some (List.mem_filter.mpr ⟨shows.shown path' active, ?_⟩)
      rw [decide_eq_true_eq]
      rintro rfl
      exact own active

theorem activate (shows : Shows session) (path : Text) : Shows (session.activate path) := by
  unfold EditorSession.activate
  split
  · rename_i mem
    exact of_some mem
  · exact shows

theorem update (shows : Shows session) (path : Text) (f : Buffer → Buffer) :
    Shows (session.update path f) where
  shown := by simpa using shows.shown
  noneShown := by simpa using shows.noneShown

theorem renamePath (shows : Shows session) (src dst : Text) : Shows (session.renamePath src dst) := by
  unfold EditorSession.renamePath
  cases session.buffers.get? src with
  | none => exact shows
  | some buffer =>
    constructor
    · intro path same
      dsimp only at same ⊢
      rw [List.mem_map]
      by_cases own : session.active = some src
      · rw [if_pos own] at same
        exact ⟨src, shows.shown src own, by rw [if_pos rfl]; exact Option.some.inj same⟩
      · rw [if_neg own] at same
        refine ⟨path, shows.shown path same, if_neg ?_⟩
        rintro rfl
        exact own same
    · dsimp only
      rw [List.map_eq_nil_iff, ← shows.noneShown]
      by_cases own : session.active = some src
      · simp [own]
      · rw [if_neg own]

/-- Whatever is done, a tab is shown if there is one. -/
theorem apply (shows : Shows session) (operation : Operation) : Shows (operation.apply session) := by
  cases operation with
  | openTab path => exact openTab path
  | closeTab path => exact shows.closeTab path
  | activate path => exact shows.activate path
  | edit path text => exact shows.update path _
  | loaded path content => exact shows.update path _
  | markSaved path text => exact shows.update path _
  | moveCursor path cursor => exact shows.update path _
  | renamePath src dst => exact shows.renamePath src dst

end Shows

/-! ## One step -/

theorem nodup_openTab (nodup : session.order.Nodup) (path : Text) : (session.openTab path).order.Nodup := by
  unfold EditorSession.openTab
  dsimp only
  split
  · exact nodup
  · rename_i fresh
    rw [List.nodup_append]
    refine ⟨nodup, List.nodup_singleton path, fun a mem b same => ?_⟩
    rw [List.mem_singleton.mp same]
    rintro rfl
    exact fresh mem

theorem nodup_renamePath (sound : Sound session) {src dst : Text} (free : dst ∉ session.order) :
    (session.renamePath src dst).order.Nodup := by
  rw [order_rename sound.tabbed]
  refine List.Nodup.map_on (fun a ha b hb same => ?_) sound.nodup
  by_cases hsrc : a = src
  · by_cases hsrc' : b = src
    · rw [hsrc, hsrc']
    · rw [if_pos hsrc, if_neg hsrc'] at same
      exact absurd (same ▸ hb) free
  · by_cases hsrc' : b = src
    · rw [if_neg hsrc, if_pos hsrc'] at same
      exact absurd (same ▸ ha) free
    · rwa [if_neg hsrc, if_neg hsrc'] at same

/-- A path that is not open is not renamed. -/
theorem renamePath_of_notMem (tabbed : Tabbed session) {src dst : Text} (absent : src ∉ session.order) :
    session.renamePath src dst = session := by
  have none : session.buffers.get? src = none := by simpa [tabbed src] using absent
  unfold EditorSession.renamePath
  rw [none]

theorem Sound.apply (sound : Sound session) {operation : Operation} (apart : operation.Apart session) :
    Sound (operation.apply session) := by
  refine ⟨sound.toShows.apply operation, ?_, ?_⟩
  · cases operation with
    | openTab path => exact nodup_openTab sound.nodup path
    | closeTab path => exact sound.nodup.filter _
    | activate path =>
      simp only [Operation.apply, EditorSession.activate]
      split <;> exact sound.nodup
    | renamePath src dst =>
      by_cases mem : src ∈ session.order
      · exact nodup_renamePath sound (apart mem)
      · simp only [Operation.apply]
        rw [renamePath_of_notMem sound.tabbed mem]
        exact sound.nodup
    | _ => simpa [Operation.apply, EditorSession.edit, EditorSession.loaded, EditorSession.markSaved,
        EditorSession.moveCursor] using sound.nodup
  · cases operation with
    | openTab path => exact sound.tabbed.openTab
    | closeTab path => exact sound.tabbed.closeTab
    | activate path => exact sound.tabbed.activate
    | edit path text => exact sound.tabbed.update _
    | loaded path content => exact sound.tabbed.update _
    | markSaved path text => exact sound.tabbed.update _
    | moveCursor path cursor => exact sound.tabbed.update _
    | renamePath src dst =>
      by_cases mem : src ∈ session.order
      · refine sound.tabbed.renamePath ?_
        rintro rfl
        exact apart mem mem
      · simp only [Operation.apply]
        rw [renamePath_of_notMem sound.tabbed mem]
        exact sound.tabbed

theorem leavesOthers (session : EditorSession) (operation : Operation) : LeavesOthers session operation := by
  intro path other
  cases operation with
  | openTab path' => simp_all [Operation.arguments, Operation.apply]
  | closeTab path' => simp_all [Operation.arguments, Operation.apply]
  | activate path' => simp [Operation.apply]
  | renamePath src dst =>
    simp only [Operation.arguments, List.mem_cons, List.not_mem_nil, or_false, not_or] at other
    simp only [Operation.apply]
    rw [get?_rename]
    cases session.buffers.get? src with
    | none => rfl
    | some buffer =>
      dsimp only
      rw [if_neg other.1, if_neg other.2]
  | _ =>
    rw [Operation.arguments, List.mem_singleton] at other
    exact (get?_update _ _ _ _).trans (if_neg other)

theorem draft_eq_some {draft : Text} : session.draft path = some draft ↔
    ∃ buffer, session.buffers.get? path = some buffer ∧ buffer.text = some draft ∧
      buffer.saved ≠ some draft := by
  unfold EditorSession.draft EditorSession.isDirty
  cases session.buffers.get? path with
  | none => simp
  | some buffer =>
    obtain ⟨text, saved, cursor⟩ := buffer
    cases text with
    | none => simp
    | some text =>
      simp
      constructor
      · rintro ⟨differ, rfl⟩
        exact ⟨rfl, fun same => differ same.symm⟩
      · rintro ⟨rfl, differ⟩
        exact ⟨fun same => differ same.symm, rfl⟩

/-- What an update makes of a draft. -/
theorem get?_update_draft {draft path' : Text} (found : session.draft path' = some draft)
    {f : Buffer → Buffer} (keep : ∀ buffer, session.buffers.get? path = some buffer → path' = path →
      buffer.text = some draft → (f buffer).text = some draft) :
    ∃ buffer, (session.update path f).buffers.get? path' = some buffer ∧ buffer.text = some draft := by
  obtain ⟨buffer, found, text, -⟩ := draft_eq_some.1 found
  rw [get?_update]
  by_cases own : path' = path
  · rw [if_pos own, ← own, found]
    exact ⟨f buffer, rfl, keep buffer (own ▸ found) own text⟩
  · rw [if_neg own]
    exact ⟨buffer, found, text⟩

theorem keepsDrafts (sound : Sound session) {operation : Operation} (apart : operation.Apart session) :
    KeepsDrafts session operation := by
  intro path draft found
  obtain ⟨buffer, there, text, -⟩ := draft_eq_some.1 found
  cases operation with
  | openTab path' =>
    refine Or.inr (Or.inr ⟨buffer, ?_, text⟩)
    simp only [Operation.apply, Operation.carry]
    rw [get?_openTab]
    split
    · rename_i own
      rw [← own, there, Option.getD_some]
    · exact there
  | closeTab path' =>
    by_cases own : path = path'
    · exact Or.inl (own ▸ rfl)
    · refine Or.inr (Or.inr ⟨buffer, ?_, text⟩)
      simp only [Operation.apply, Operation.carry]
      rw [get?_closeTab, if_neg own, there]
  | activate path' =>
    refine Or.inr (Or.inr ⟨buffer, ?_, text⟩)
    simp only [Operation.apply, Operation.carry]
    rw [buffers_activate, there]
  | edit path' text' =>
    by_cases own : path = path'
    · exact Or.inr (Or.inl ⟨text', own ▸ rfl⟩)
    · exact Or.inr (Or.inr (get?_update_draft found fun _ _ same => absurd same own))
  | loaded path' content =>
    refine Or.inr (Or.inr (get?_update_draft found fun buffer _ _ text => ?_))
    dsimp only
    rw [text, Option.getD_some]
  | markSaved path' text' =>
    refine Or.inr (Or.inr (get?_update_draft found fun buffer _ same _ => ?_))
    exact congrArg some (apart draft (same ▸ found)).symm
  | moveCursor path' cursor =>
    exact Or.inr (Or.inr (get?_update_draft found fun buffer _ _ text => text))
  | renamePath src dst =>
    refine Or.inr (Or.inr ⟨buffer, ?_, text⟩)
    have isOpen : path ∈ session.order := by rw [sound.tabbed path, there]; rfl
    simp only [Operation.apply, Operation.carry]
    rw [get?_rename]
    by_cases own : path = src
    · have free : dst ∉ session.order := apart (own ▸ isOpen)
      have ne : dst ≠ src := by
        rintro rfl
        exact free (own ▸ isOpen)
      rw [if_pos own, ← own, there]
      dsimp only
      rw [if_neg (own ▸ ne), if_pos rfl]
    · rw [if_neg own]
      cases moved : session.buffers.get? src with
      | none => exact there
      | some buffer' =>
        have free : dst ∉ session.order := apart (by rw [sound.tabbed src, moved]; rfl)
        have other : path ≠ dst := by
          rintro rfl
          exact free isOpen
        dsimp only
        rw [if_neg own, if_neg other, there]

/-- An operation after which all fits together and the drafts are there was no rename onto an open tab
and no save of another text. -/
theorem apart_of_kept (sound : Sound session) {operation : Operation} (after : Sound (operation.apply session))
    (drafts : KeepsDrafts session operation) : operation.Apart session := by
  cases operation with
  | renamePath src dst =>
    intro mem taken
    simp only [Operation.apply] at after
    by_cases own : src = dst
    · subst own
      have lost : (session.renamePath src src).buffers.get? src = none := by
        obtain ⟨buffer, found⟩ := Option.isSome_iff_exists.mp ((sound.tabbed src).mp mem)
        rw [get?_rename, found]
        exact if_pos rfl
      have kept : src ∈ (session.renamePath src src).order := by
        rw [order_rename sound.tabbed]
        exact List.mem_map.mpr ⟨src, mem, ite_self _⟩
      have there := (after.tabbed src).mp kept
      rw [lost] at there
      cases there
    · have nodup := after.nodup
      rw [order_rename sound.tabbed] at nodup
      refine own (List.inj_on_of_nodup_map nodup mem taken ?_)
      rw [if_pos rfl, if_neg (Ne.symm own)]
  | markSaved path text =>
    intro draft found
    obtain ⟨buffer, there, -⟩ := draft_eq_some.1 found
    rcases drafts path draft found with closed | ⟨text', edited⟩ | ⟨buffer', saved, kept⟩
    · cases closed
    · cases edited
    · simp only [Operation.apply, Operation.carry, EditorSession.markSaved, get?_update, if_true, there,
        Option.map_some, Option.some.injEq] at saved
      rw [← saved] at kept
      exact (Option.some.inj kept).symm
  | _ => trivial

/-! ## Runs -/

theorem sound_fromPersisted {state : PersistedSession} (nodup : (state.tabs.map PersistedTab.path).Nodup) :
    Sound (fromPersisted state) := by
  refine ⟨Shows.fromPersisted state, ?_, Tabbed.fromPersisted state⟩
  unfold fromPersisted
  dsimp only
  split
  · exact List.nodup_nil
  · exact nodup

theorem sound_of_start (start : sessionLts.start session) : Sound session := by
  rcases start with rfl | ⟨state, nodup, rfl⟩
  · exact ⟨Shows.empty, List.nodup_nil, Tabbed.empty⟩
  · exact sound_fromPersisted nodup

theorem sound_of_run {h : List (Taken EditorSession Operation)} (run : sessionLts.Run h session)
    (apart : ∀ x ∈ h, x.label.Apart x.pre) : Sound session := by
  refine run.invariant_of_guard (fun s start => sound_of_start start) ?_ apart
  intro s operation t sound step guard
  obtain rfl := Option.some.inj step
  exact sound.apply guard

/-- A run keeps everything exactly when no step renames a tab onto an open one or marks another text than
the draft as saved. -/
theorem keptSession_iff (h : List (Taken EditorSession Operation)) (session : EditorSession)
    (run : sessionLts.Run h session) : KeptSession h session ↔ ∀ x ∈ h, x.label.Apart x.pre := by
  constructor
  · intro kept x mem
    obtain ⟨earlier, before, step, -⟩ := run.of_mem mem
    have sound := kept.sound x.pre (List.mem_cons_of_mem _ (List.mem_map_of_mem mem))
    have after := kept.sound x.post (run.post_visited mem)
    rw [← Option.some.inj step] at after
    exact apart_of_kept sound after (kept.drafts x mem)
  · intro apart
    have soundAt : ∀ s ∈ Lts.visited h session, Sound s := by
      intro s visited
      obtain ⟨earlier, before, suffix⟩ := run.of_visited visited
      exact sound_of_run before fun x mem => apart x (suffix.subset mem)
    refine ⟨soundAt, fun x _ => leavesOthers x.pre x.label, fun x mem => ?_⟩
    exact keepsDrafts (soundAt x.pre (List.mem_cons_of_mem _ (List.mem_map_of_mem mem))) (apart x mem)

/-- Two files are open; one with a draft. -/
def twoTabs : List Operation :=
  [.openTab ['a'], .openTab ['b'], .loaded ['a'] ['x'], .edit ['a'] ['y'], .loaded ['b'] ['z']]

theorem keptSession_iff_twoTabs : ∃ h session, sessionLts.exec .empty twoTabs = some (h, session) ∧
    (KeptSession h session ↔ ∀ x ∈ h, x.label.Apart x.pre) := by
  obtain ⟨h, session, exec⟩ : ∃ h session, sessionLts.exec .empty twoTabs = some (h, session) :=
    ⟨_, _, rfl⟩
  exact ⟨h, session, exec, keptSession_iff h session (Lts.Run.of_exec (Or.inl rfl) exec)⟩

/-- `b` is renamed to `a`, which is open with a draft: the draft is lost, and `a` is listed twice. -/
theorem not_keptSession : ¬ ∀ (h : List (Taken EditorSession Operation)) (session : EditorSession),
    sessionLts.Run h session → KeptSession h session := by
  intro all
  obtain ⟨h, session, exec, twice⟩ : ∃ h session, sessionLts.exec .empty
      (twoTabs ++ [.renamePath ['b'] ['a']]) = some (h, session) ∧ ¬ session.order.Nodup :=
    ⟨_, _, rfl, by decide⟩
  have kept := all h session (Lts.Run.of_exec (Or.inl rfl) exec)
  exact twice (kept.sound session List.mem_cons_self).nodup

end TcadWebapp.Editor
