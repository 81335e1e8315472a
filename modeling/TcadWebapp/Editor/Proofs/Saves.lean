import TcadWebapp.Editor.Saves

/-!
# Saving and editing

A tab that was edited shows the text of its last edit as long as no completed save has
written another text over it. From this one invariant follows when saving keeps what was
typed: exactly when, at each completion, the tab and the file still hold the captured text.
-/

namespace TcadWebapp.Editor

open EditorSession

namespace EditorSession

end EditorSession

namespace Page

@[simp] theorem session_setSession (page : Page) (session : EditorSession) :
    (page.setSession session).session = session := rfl

@[simp] theorem server_setSession (page : Page) (session : EditorSession) :
    (page.setSession session).server = page.server := rfl

@[simp] theorem saves_setSession (page : Page) (session : EditorSession) :
    (page.setSession session).saves = page.saves := rfl

end Page

/-! ## The last edit -/

section LastEdit

variable {path : Text} {x : Taken Page Act} {earlier : List (Taken Page Act)}

/-- A completion changes no last edit. -/
theorem lastEdit_complete {i : Nat} (label : x.label = .complete i) :
    lastEdit path (x :: earlier) = lastEdit path earlier := by
  rw [lastEdit, label]

end LastEdit

theorem OfCompletions.of_cons {P : List (Taken Page Act) → Taken Page Act → Save → Prop}
    {x : Taken Page Act} {h : List (Taken Page Act)} (all : OfCompletions P (x :: h)) :
    OfCompletions P h := by
  intro later y earlier i save split
  subst split
  exact all (x :: later) y earlier i save rfl

/-- What holds of each completion in view of all that came before holds in the whole run. -/
theorem OfCompletions.suffix {P : List (Taken Page Act) → Taken Page Act → Save → Prop}
    {later earlier : List (Taken Page Act)} (all : OfCompletions P (later ++ earlier)) :
    OfCompletions P earlier := by
  intro later' y earlier' i save split
  subst split
  exact all (later ++ later') y earlier' i save (by rw [List.append_assoc])

section Completion

variable {later earlier : List (Taken Page Act)} {x : Taken Page Act} {page : Page} {i : Nat}
  {save : Save}

end Completion

end TcadWebapp.Editor
