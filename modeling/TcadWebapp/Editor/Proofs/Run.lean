import TcadWebapp.Editor.Run

/-!
# What a run runs

The request to run follows the save whether that has failed or not, and it names the file, not its
text (`runsWhatIsShown_iff`).
-/

namespace TcadWebapp.Editor

open EditorSession

variable {session : EditorSession} {files : Dict Text Text} {o : Circumstances} {active : Text}

/-- A tab that is dirty shows a text. -/
theorem exists_buffer_of_isDirty (shown : session.active = some active) (named : active ≠ [])
    (dirty : session.isDirty active = true) :
    ∃ text saved cursor, session.activeBuffer = some ⟨some text, saved, cursor⟩ := by
  unfold isDirty at dirty
  unfold activeBuffer
  rw [shown]
  dsimp only
  rw [if_neg named]
  cases found : session.buffers.get? active with
  | none =>
    rw [found] at dirty
    cases dirty
  | some buffer =>
    obtain ⟨text, saved, cursor⟩ := buffer
    cases text with
    | none =>
      rw [found] at dirty
      cases dirty
    | some text => exact ⟨text, saved, cursor, rfl⟩

theorem save_eq (shown : session.active = some active) {text : Text} {saved : Option Text}
    {cursor : Option Cursor} (found : session.activeBuffer = some ⟨some text, saved, cursor⟩)
    (outcome : SaveOutcome) (during : List Event) : save session files outcome during =
      (if outcome = .answered then (during.foldl Event.apply session).markSaved active text
        else during.foldl Event.apply session,
      if outcome.writes then files.set active text else files) := by
  unfold save
  rw [shown, found]

/-- A save that fails leaves the session to the user. -/
theorem session_save (failed : o.save ≠ .answered) :
    (save session files o.save o.during).1 = o.during.foldl Event.apply session := by
  unfold save
  split
  · exact if_neg failed
  · rfl

theorem session_run_of_failed (shown : session.active = some active) (dirty : session.isDirty active = true)
    (failed : o.save ≠ .answered) :
    (run session files o).session = (o.during ++ o.after).foldl Event.apply session := by
  unfold run
  rw [shown]
  dsimp only
  rw [if_pos dirty, session_save failed, List.foldl_append]

theorem job_run (shown : session.active = some active) : (run session files o).job = if o.queues then
    submit (if session.isDirty active then (save session files o.save o.during).2 else files) active
      else none := by
  unfold run
  rw [shown]
  dsimp only
  rw [apply_ite Prod.snd]

theorem submit_eq_some_iff {job : Submitted} (named : active ≠ []) : submit files active = some job ↔
    ∃ text, files.get? active = some text ∧ job = ⟨active, Utf8.universalNewlines text⟩ := by
  rw [submit, if_neg named, Option.map_eq_some_iff]
  simp only [eq_comm]

theorem submit_eq_none_iff (named : active ≠ []) : submit files active = none ↔ files.get? active = none := by
  rw [submit, if_neg named, Option.map_eq_none_iff]

/-- Where the request is taken, the click is right just if it meets with what `CanBeRun` says. -/
theorem runsWhatIsShown_of_queues (shown : session.active = some active) (named : active ≠ [])
    (queues : o.queues = true) :
    RunsWhatIsShown session files o ↔ CanBeRun session files o.save active := by
  have job := @job_run session files o active shown
  rw [if_pos queues] at job
  have same : RunsWhatIsShown session files o ↔
      (∀ job ∈ (run session files o).job, session.shownText = some job.source) ∧
        (session.isDirty active = true → o.save ≠ .answered → (run session files o).job = none) := by
    constructor
    · exact fun h => ⟨h.source, fun dirty failed => (h.failed active shown dirty failed).1⟩
    · intro h
      refine ⟨h.1, ?_⟩
      intro active' shown' dirty failed
      obtain rfl := Option.some.inj (shown.symm.trans shown')
      exact ⟨h.2 dirty failed, by rw [session_run_of_failed shown dirty failed]⟩
  rw [same, job]
  unfold CanBeRun
  by_cases dirty : session.isDirty active = true
  · obtain ⟨text, saved, cursor, found⟩ := exists_buffer_of_isDirty shown named dirty
    have text_shown : session.shownText = some text := by rw [shownText, found]; rfl
    rw [if_pos dirty, if_pos dirty, save_eq shown found, text_shown]
    by_cases answered : o.save = .answered
    · rw [if_pos answered, if_pos answered, answered]
      constructor
      · intro h text' same
        obtain rfl := Option.some.inj same
        have source := h.1 ⟨active, Utf8.universalNewlines text⟩
          ((submit_eq_some_iff named).mpr ⟨text, Dict.get?_set_self .., rfl⟩)
        exact Utf8.universalNewlines_eq_iff.mp (Option.some.inj source).symm
      · intro plain
        refine ⟨?_, fun _ failed => absurd rfl failed⟩
        intro job hjob
        obtain ⟨text', stored, rfl⟩ := (submit_eq_some_iff named).mp hjob
        obtain rfl := Option.some.inj ((Dict.get?_set_self files active text).symm.trans stored)
        rw [Utf8.universalNewlines_eq (plain text rfl)]
    · rw [if_neg answered, if_neg answered]
      constructor
      · intro h
        have none := (submit_eq_none_iff named).mp (h.2 dirty answered)
        cases writes : o.save.writes with
        | true => simp [writes] at none
        | false => exact ⟨rfl, by simpa [writes] using none⟩
      · rintro ⟨unwritten, none⟩
        have refused : submit files active = Option.none := (submit_eq_none_iff named).mpr none
        simp [unwritten, refused]
  · rw [if_neg dirty, if_neg dirty]
    constructor
    · intro h text stored
      exact h.1 ⟨active, Utf8.universalNewlines text⟩ ((submit_eq_some_iff named).mpr ⟨text, stored, rfl⟩)
    · intro same
      refine ⟨?_, fun dirty' => absurd dirty' dirty⟩
      intro job hjob
      obtain ⟨text, stored, rfl⟩ := (submit_eq_some_iff named).mp hjob
      exact same text stored

/-- A click does right just if its request is not taken, or meets with what `CanBeRun` says. -/
theorem runsWhatIsShown_iff (session : EditorSession) (files : Dict Text Text) (o : Circumstances) :
    RunsWhatIsShown session files o ↔ ∀ active ∈ session.active, active ≠ [] → o.queues = true →
      CanBeRun session files o.save active := by
  constructor
  · intro h active shown named queues
    exact (runsWhatIsShown_of_queues shown named queues).mp h
  · intro can
    cases shown : session.active with
    | none =>
      have nothing : run session files o = ⟨session, files, none⟩ := by
        unfold run
        rw [shown]
      refine ⟨?_, fun active shown' => ?_⟩
      · rw [nothing]
        nofun
      · rw [shown] at shown'
        cases shown'
    | some active =>
      by_cases taken : active ≠ [] ∧ o.queues = true
      · exact (runsWhatIsShown_of_queues shown taken.1 taken.2).mpr (can active shown taken.1 taken.2)
      · have none : (run session files o).job = Option.none := by
          rw [job_run shown]
          split
          · rename_i queues
            have unnamed : active = [] := by
              by_contra named
              exact taken ⟨named, queues⟩
            rw [submit, if_pos unnamed]
          · rfl
        refine ⟨by simp [none], ?_⟩
        intro active' shown' dirty failed
        exact ⟨none, by rw [session_run_of_failed shown' dirty failed]⟩

/-- The tab `a.in` with an edit that the server does not have. -/
def edited : EditorSession :=
  ⟨["a.in".toList], some "a.in".toList, Dict.ofList [("a.in".toList, ⟨some ['b'], some ['a'], none⟩)]⟩

/-- The save is refused, and the old text is run. -/
theorem not_runsWhatIsShown : ¬ ∀ (session : EditorSession) (files : Dict Text Text) (o : Circumstances),
    RunsWhatIsShown session files o := by
  intro all
  have source := (all edited (Dict.ofList [("a.in".toList, ['a'])]) ⟨.refused, [], true, []⟩).source
    ⟨"a.in".toList, ['a']⟩ (by decide)
  revert source
  decide

end TcadWebapp.Editor
