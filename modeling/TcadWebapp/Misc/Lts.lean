import Mathlib.Data.List.Infix

/-!
# Labelled transition systems and their runs

A system is a set of start states and a partial step function: a label that the current
state does not allow is refused. A run carries its history, latest step first, so that a
statement about order in time ("between two steps of one kind lies one of another") is a
statement about a list. The rules below are the ones the proofs about a concrete system
use: an invariant, an invariant under a condition on the steps taken, a fact that persists
once it holds, and a refinement into a smaller system.
-/

namespace TcadWebapp

/-- A transition system; `step s a = none` means that `a` is not possible in `s`. -/
structure Lts (σ α : Type*) where
  start : σ → Prop
  step : σ → α → Option σ

/-- One step that was taken: the state it left, its label and the state it reached. -/
structure Taken (σ α : Type*) where
  pre : σ
  label : α
  post : σ

namespace Lts

variable {σ α σ' α' : Type*} {L : Lts σ α} {L' : Lts σ' α'}

/-- `L.Run h s`: from a start state, the steps of `h` (latest first) lead to `s`. -/
inductive Run (L : Lts σ α) : List (Taken σ α) → σ → Prop
  | start {s : σ} : L.start s → Run L [] s
  | next {h : List (Taken σ α)} {s t : σ} {a : α} :
      Run L h s → L.step s a = some t → Run L (⟨s, a, t⟩ :: h) t

/-- A state that some run reaches. -/
def Reachable (L : Lts σ α) (s : σ) : Prop := ∃ h, L.Run h s

/-- The states a run has been in, the present one first. -/
def visited (h : List (Taken σ α)) (s : σ) : List σ := s :: h.map Taken.pre

/-- `Inductive I`: `I` holds at the start and every step keeps it. -/
structure Inductive (L : Lts σ α) (I : σ → Prop) : Prop where
  start : ∀ s, L.start s → I s
  step : ∀ s a t, I s → L.step s a = some t → I t

theorem Run.invariant {I : σ → Prop} (hI : L.Inductive I) {h : List (Taken σ α)} {s : σ}
    (run : L.Run h s) : I s := by
  induction run with
  | start h0 => exact hI.start _ h0
  | next _ hstep ih => exact hI.step _ _ _ ih hstep

/-- An invariant that the steps keep only under a condition on the step. -/
theorem Run.invariant_of_guard {I : σ → Prop} {G : Taken σ α → Prop}
    (h0 : ∀ s, L.start s → I s)
    (hs : ∀ s a t, I s → L.step s a = some t → G ⟨s, a, t⟩ → I t)
    {h : List (Taken σ α)} {s : σ} (run : L.Run h s) (guard : ∀ x ∈ h, G x) : I s := by
  induction run with
  | start hs0 => exact h0 _ hs0
  | next _ hstep ih =>
    exact hs _ _ _ (ih fun x hx => guard x (List.mem_cons_of_mem _ hx)) hstep
      (guard _ List.mem_cons_self)

/-- An invariant over the history and the state together. -/
theorem Run.invariant_history {I : List (Taken σ α) → σ → Prop}
    (h0 : ∀ s, L.start s → I [] s)
    (hs : ∀ h s a t, L.Run h s → I h s → L.step s a = some t → I (⟨s, a, t⟩ :: h) t)
    {h : List (Taken σ α)} {s : σ} (run : L.Run h s) : I h s := by
  induction run with
  | start hs0 => exact h0 _ hs0
  | next hrun hstep ih => exact hs _ _ _ _ hrun ih hstep

/-- Every tail of a history is the history of an earlier part of the run. -/
theorem Run.of_suffix {h : List (Taken σ α)} {s : σ} (run : L.Run h s)
    {h' : List (Taken σ α)} (suf : h' <:+ h) : ∃ s', L.Run h' s' := by
  induction run with
  | start h0 =>
    rw [List.suffix_nil.mp suf]
    exact ⟨_, .start h0⟩
  | next hrun hstep ih =>
    rcases List.suffix_cons_iff.mp suf with rfl | suf
    · exact ⟨_, hrun.next hstep⟩
    · exact ih suf

/-- The last step of a non-empty history, and the run before it. -/
theorem Run.of_cons {x : Taken σ α} {h : List (Taken σ α)} {s : σ} (run : L.Run (x :: h) s) :
    L.Run h x.pre ∧ L.step x.pre x.label = some x.post ∧ x.post = s := by
  cases run with
  | next hrun hstep => exact ⟨hrun, hstep, rfl⟩

/-- A step of the history was taken at the end of an earlier run. -/
theorem Run.of_mem {h : List (Taken σ α)} {s : σ} (run : L.Run h s) {x : Taken σ α}
    (hx : x ∈ h) : ∃ h', L.Run h' x.pre ∧ L.step x.pre x.label = some x.post ∧
      x :: h' <:+ h := by
  obtain ⟨later, earlier, rfl⟩ := List.append_of_mem hx
  have suf : x :: earlier <:+ later ++ x :: earlier := List.suffix_append _ _
  obtain ⟨s', run'⟩ := run.of_suffix suf
  exact ⟨earlier, run'.of_cons.1, run'.of_cons.2.1, suf⟩

/-- The part of a run that ends where one of its steps begins. -/
theorem Run.before {later earlier : List (Taken σ α)} {x : Taken σ α} {s : σ}
    (run : L.Run (later ++ x :: earlier) s) :
    L.Run earlier x.pre ∧ L.step x.pre x.label = some x.post := by
  obtain ⟨s', run'⟩ := run.of_suffix (List.suffix_append later (x :: earlier))
  exact ⟨run'.of_cons.1, run'.of_cons.2.1⟩

/-- An invariant holds in every state a run has been in. -/
theorem Run.invariant_visited {I : σ → Prop} (hI : L.Inductive I) {h : List (Taken σ α)}
    {s : σ} (run : L.Run h s) : ∀ t ∈ visited h s, I t := by
  intro t ht
  rcases List.mem_cons.mp ht with rfl | ht
  · exact run.invariant hI
  · obtain ⟨x, hx, rfl⟩ := List.mem_map.mp ht
    obtain ⟨h', run', -, -⟩ := run.of_mem hx
    exact run'.invariant hI

/-- The state a step reached is one the run has been in. -/
theorem Run.post_visited {h : List (Taken σ α)} {s : σ} (run : L.Run h s) {x : Taken σ α}
    (hx : x ∈ h) : x.post ∈ visited h s := by
  induction run with
  | start _ => cases hx
  | @next h s t a hrun hstep ih =>
    rcases List.mem_cons.mp hx with rfl | hx
    · exact List.mem_cons_self
    · exact List.mem_cons_of_mem _ (ih hx)

/-- A state the run has been in is the end of an earlier part of the run. -/
theorem Run.of_visited {h : List (Taken σ α)} {s : σ} (run : L.Run h s) {t : σ}
    (ht : t ∈ visited h s) : ∃ h', L.Run h' t ∧ h' <:+ h := by
  rcases List.mem_cons.mp ht with rfl | ht
  · exact ⟨h, run, List.suffix_refl h⟩
  · obtain ⟨x, hx, rfl⟩ := List.mem_map.mp ht
    obtain ⟨h', run', -, suf⟩ := run.of_mem hx
    exact ⟨h', run', (List.suffix_cons _ _).trans suf⟩

/-- What holds after one of the steps and is kept by all later ones holds at the end. -/
theorem Run.persists {P : σ → Prop} {later earlier : List (Taken σ α)} {x : Taken σ α} {s : σ}
    (run : L.Run (later ++ x :: earlier) s) (hx : P x.post)
    (keep : ∀ y ∈ later, L.step y.pre y.label = some y.post → P y.pre → P y.post) : P s := by
  induction later generalizing s with
  | nil => exact run.of_cons.2.2 ▸ hx
  | cons y later ih =>
    obtain ⟨run', hstep, hpost⟩ := run.of_cons
    have before : P y.pre := ih run' fun z hz => keep z (List.mem_cons_of_mem _ hz)
    exact hpost ▸ keep y List.mem_cons_self hstep before

/-- If each step pays for itself out of `f`, and those that count pay one more, then as many
steps count as `f` had to spend. -/
theorem Run.countP_le {f : σ → Nat} {p : Taken σ α → Bool} {later earlier : List (Taken σ α)}
    {x : Taken σ α} {s : σ} (run : L.Run (later ++ x :: earlier) s)
    (pay : ∀ y ∈ later, L.step y.pre y.label = some y.post →
      (if p y then 1 else 0) + f y.post ≤ f y.pre) : later.countP p + f s ≤ f x.post := by
  induction later generalizing s with
  | nil =>
    obtain ⟨-, -, rfl⟩ := run.of_cons
    simp
  | cons y later ih =>
    obtain ⟨run', hstep, rfl⟩ := run.of_cons
    have before := ih run' fun z hz => pay z (List.mem_cons_of_mem _ hz)
    have now := pay y List.mem_cons_self hstep
    rw [List.countP_cons]
    omega

/-- `labels` taken one after the other from `s`, the earliest first. -/
def exec (L : Lts σ α) (s : σ) : List α → Option (List (Taken σ α) × σ)
  | [] => some ([], s)
  | a :: as =>
    match L.step s a with
    | none => none
    | some t => (L.exec t as).map fun r => (r.1 ++ [⟨s, a, t⟩], r.2)

theorem Run.exec_append {h h' : List (Taken σ α)} {s t : σ} {as : List α} (run : L.Run h s)
    (he : L.exec s as = some (h', t)) : L.Run (h' ++ h) t := by
  induction as generalizing h h' s with
  | nil =>
    obtain ⟨rfl, rfl⟩ : [] = h' ∧ s = t := by simpa [exec] using he
    exact run
  | cons a as ih =>
    cases hstep : L.step s a with
    | none => simp [exec, hstep] at he
    | some u =>
      simp only [exec, hstep, Option.map_eq_some_iff, Prod.mk.injEq] at he
      obtain ⟨⟨h'', t'⟩, hrest, rfl, rfl⟩ := he
      simpa using ih (run.next hstep) hrest

/-- A scenario that the step function accepts from a start state is a run. -/
theorem Run.of_exec {h : List (Taken σ α)} {s t : σ} {as : List α} (h0 : L.start s)
    (he : L.exec s as = some (h, t)) : L.Run h t := by
  simpa using (Run.start h0).exec_append he

/-- A run goes on with each step that is possible. -/
theorem Run.next_get {h : List (Taken σ α)} {s : σ} (run : L.Run h s) {a : α}
    (ok : (L.step s a).isSome) :
    L.Run (⟨s, a, (L.step s a).get ok⟩ :: h) ((L.step s a).get ok) :=
  run.next (Option.some_get ok).symm

/-- A refinement of `L` into `L'`: states are mapped, and each step is matched by one step
of `L'` or, where `label` gives `none`, by no step at all. `inv` is what may be assumed of
the states of `L`. -/
structure Refinement (L : Lts σ α) (L' : Lts σ' α') (inv : σ → Prop) where
  map : σ → σ'
  label : Taken σ α → Option α'
  start : ∀ s, L.start s → L'.start (map s)
  stutter : ∀ s a t, inv s → L.step s a = some t → label ⟨s, a, t⟩ = none → map t = map s
  step : ∀ s a t b, inv s → L.step s a = some t → label ⟨s, a, t⟩ = some b →
    L'.step (map s) b = some (map t)

/-- An invariant of the abstract system is one of the refined system. -/
theorem Refinement.invariant {inv : σ → Prop} (R : Refinement L L' inv)
    (hinv : L.Inductive inv) {I : σ' → Prop} (hI : L'.Inductive I) :
    L.Inductive fun s => inv s ∧ I (R.map s) where
  start s h := ⟨hinv.start s h, hI.start _ (R.start s h)⟩
  step := by
    rintro s a t ⟨hi, hs⟩ hstep
    refine ⟨hinv.step s a t hi hstep, ?_⟩
    cases hl : R.label ⟨s, a, t⟩ with
    | none => exact (R.stutter s a t hi hstep hl).symm ▸ hs
    | some b => exact hI.step _ b _ hs (R.step s a t b hi hstep hl)

/-- The image of a history under a refinement. -/
def Refinement.history {inv : σ → Prop} (R : Refinement L L' inv) (h : List (Taken σ α)) :
    List (Taken σ' α') :=
  h.filterMap fun x => (R.label x).map fun b => ⟨R.map x.pre, b, R.map x.post⟩

theorem Refinement.history_append {inv : σ → Prop} (R : Refinement L L' inv)
    (h h' : List (Taken σ α)) : R.history (h ++ h') = R.history h ++ R.history h' := by
  simp [history]

theorem Refinement.history_cons {inv : σ → Prop} (R : Refinement L L' inv) {x : Taken σ α}
    {b : α'} (hx : R.label x = some b) (h : List (Taken σ α)) :
    R.history (x :: h) = ⟨R.map x.pre, b, R.map x.post⟩ :: R.history h := by
  simp [history, hx]

theorem Refinement.mem_history {inv : σ → Prop} (R : Refinement L L' inv)
    {h : List (Taken σ α)} {y : Taken σ' α'} (hy : y ∈ R.history h) :
    ∃ x ∈ h, R.label x = some y.label := by
  obtain ⟨x, hx, hy⟩ := List.mem_filterMap.mp hy
  obtain ⟨b, hb, rfl⟩ := Option.map_eq_some_iff.mp hy
  exact ⟨x, hx, hb⟩

theorem Refinement.history_of_mem {inv : σ → Prop} (R : Refinement L L' inv)
    {h : List (Taken σ α)} {x : Taken σ α} {b : α'} (hx : x ∈ h) (hb : R.label x = some b) :
    ⟨R.map x.pre, b, R.map x.post⟩ ∈ R.history h :=
  List.mem_filterMap.mpr ⟨x, hx, Option.map_eq_some_iff.mpr ⟨b, hb, rfl⟩⟩

/-- A run of the refined system maps to a run of the abstract one. -/
theorem Refinement.run {inv : σ → Prop} (R : Refinement L L' inv) (hI : L.Inductive inv)
    {h : List (Taken σ α)} {s : σ} (run : L.Run h s) : L'.Run (R.history h) (R.map s) := by
  induction run with
  | start h0 => exact .start (R.start _ h0)
  | @next h s t a hrun hstep ih =>
    have hinv := hrun.invariant hI
    cases hl : R.label ⟨s, a, t⟩ with
    | none =>
      rw [R.stutter s a t hinv hstep hl]
      simpa [history, hl] using ih
    | some b =>
      have := ih.next (R.step s a t b hinv hstep hl)
      simpa [history, hl] using this

end Lts

end TcadWebapp
