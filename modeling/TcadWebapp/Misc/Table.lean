import Mathlib.Data.List.Nodup
import Mathlib.Tactic.Common

/-!
# A table under read committed

Rows found by a key, and sessions that write them in transactions. An UPDATE sees the
committed rows, takes the locks of the rows it hits and keeps their new images to its
session; they show to the others at the commit. An UPDATE that hits a row another session
has locked has to wait, so the step is not possible. Keys are unique: that is a field of the
table, and an INSERT that would break it is refused.

`Pending R` is what a session may count on between its UPDATE and its commit: each image it
holds still stands in relation `R` to the committed row it replaces, whatever the other
sessions did in between.
-/

namespace TcadWebapp

variable {κ ρ τ : Type*}

/-- Committed rows under a unique key, and which session has locked which key. -/
structure Table (key : ρ → κ) (τ : Type*) where
  rows : List ρ
  nodup : (rows.map key).Nodup
  lock : κ → Option τ

namespace Table

variable {key : ρ → κ}

/-- The empty table, with nothing locked. -/
def empty : Table key τ := ⟨[], by simp, fun _ => none⟩

/-- The committed rows a WHERE clause hits. -/
def hits (t : Table key τ) (p : ρ → Bool) : List ρ := t.rows.filter p

theorem mem_hits {t : Table key τ} {p : ρ → Bool} {r : ρ} :
    r ∈ t.hits p ↔ r ∈ t.rows ∧ p r = true := List.mem_filter

/-- A WHERE clause that fixes the key hits one row at most. -/
theorem hits_of_key {t : Table key τ} {p : ρ → Bool} {k : κ} (h : ∀ r, p r = true → key r = k) :
    t.hits p = [] ∨ ∃ r, t.hits p = [r] := by
  have nodup : ((t.hits p).map key).Nodup := t.nodup.sublist (List.filter_sublist.map key)
  have all : ∀ r ∈ t.hits p, key r = k := fun r hr => h r (mem_hits.mp hr).2
  cases hl : t.hits p with
  | nil => exact .inl rfl
  | cons r rest =>
    cases rest with
    | nil => exact .inr ⟨r, rfl⟩
    | cons r' rest =>
      rw [hl] at nodup all
      have e : key r = key r' := (all r (by simp)).trans (all r' (by simp)).symm
      simp [e] at nodup

variable [DecidableEq κ]

/-- The committed row under a key. -/
def get? (t : Table key τ) (k : κ) : Option ρ := t.rows.find? fun r => key r = k

omit [DecidableEq κ] in
theorem eq_of_key {t : Table key τ} {r r' : ρ} (hr : r ∈ t.rows) (hr' : r' ∈ t.rows)
    (h : key r = key r') : r = r' :=
  List.inj_on_of_nodup_map t.nodup hr hr' h

theorem get?_eq_some {t : Table key τ} {k : κ} {r : ρ} :
    t.get? k = some r ↔ r ∈ t.rows ∧ key r = k := by
  constructor
  · intro h
    exact ⟨List.mem_of_find?_eq_some h, by simpa using List.find?_some h⟩
  · rintro ⟨hr, rfl⟩
    cases hf : t.get? (key r) with
    | none =>
      have := List.find?_eq_none.mp hf r hr
      simp at this
    | some r' =>
      have hk : key r' = key r := by simpa using List.find?_some hf
      rw [eq_of_key (List.mem_of_find?_eq_some hf) hr hk]

theorem get?_of_mem {t : Table key τ} {r : ρ} (hr : r ∈ t.rows) : t.get? (key r) = some r :=
  get?_eq_some.mpr ⟨hr, rfl⟩

theorem get?_eq_none {t : Table key τ} {k : κ} :
    t.get? k = none ↔ k ∉ t.rows.map key := by
  simp [get?, List.find?_eq_none]

/-! ## Writing -/

/-- The row that stands for `r` once `images` are written. -/
def image (key : ρ → κ) (images : List ρ) (r : ρ) : ρ :=
  (images.find? fun i => key i = key r).getD r

theorem image_cases (key : ρ → κ) (images : List ρ) (r : ρ) :
    (image key images r = r ∧ key r ∉ images.map key) ∨
      (image key images r ∈ images ∧ key (image key images r) = key r) := by
  unfold image
  cases hf : images.find? (fun i => key i = key r) with
  | none =>
    refine .inl ⟨rfl, ?_⟩
    simpa [List.find?_eq_none] using hf
  | some i =>
    exact .inr ⟨List.mem_of_find?_eq_some hf, by simpa using List.find?_some hf⟩

theorem image_of_notMem {images : List ρ} {r : ρ} (h : key r ∉ images.map key) :
    image key images r = r := by
  rcases image_cases key images r with h' | h'
  · exact h'.1
  · exact absurd (List.mem_map.mpr ⟨_, h'.1, h'.2⟩) h

theorem image_of_mem {images : List ρ} (nodup : (images.map key).Nodup) {i r : ρ}
    (hi : i ∈ images) (hk : key r = key i) : image key images r = i := by
  rcases image_cases key images r with ⟨-, out⟩ | ⟨h, h'⟩
  · exact absurd (List.mem_map.mpr ⟨i, hi, hk.symm⟩) out
  · exact List.inj_on_of_nodup_map nodup h hi (h'.trans hk)

theorem key_image (images : List ρ) (r : ρ) : key (image key images r) = key r := by
  rcases image_cases key images r with h | h
  · rw [h.1]
  · exact h.2

/-- The committed rows with `images` in place of the rows of the same keys. -/
def write (images : List ρ) (t : Table key τ) : Table key τ where
  rows := t.rows.map (image key images)
  nodup := by
    have : (t.rows.map (image key images)).map key = t.rows.map key := by
      simp [Function.comp_def, key_image]
    rw [this]
    exact t.nodup
  lock := t.lock

theorem get?_write (images : List ρ) (t : Table key τ) (k : κ) :
    (t.write images).get? k = (t.get? k).map (image key images) := by
  simp [get?, write, List.find?_map, Function.comp_def, key_image]

/-- INSERT of a row whose key is free. -/
def insert (r : ρ) (t : Table key τ) : Option (Table key τ) :=
  if h : key r ∈ t.rows.map key then none
  else some ⟨t.rows ++ [r], by
    rw [List.map_append, List.nodup_append]
    refine ⟨t.nodup, by simp, ?_⟩
    rintro a ha b hb rfl
    simp only [List.map_cons, List.map_nil, List.mem_singleton] at hb
    exact h (hb ▸ ha), t.lock⟩

theorem insert_eq_some {r : ρ} {t t' : Table key τ} (h : t.insert r = some t') :
    key r ∉ t.rows.map key ∧ t'.rows = t.rows ++ [r] ∧ t'.lock = t.lock := by
  unfold insert at h
  split at h
  · cases h
  · rename_i hk
    cases h
    exact ⟨hk, rfl, rfl⟩

theorem insert_eq_none {r : ρ} {t : Table key τ} :
    t.insert r = none ↔ key r ∈ t.rows.map key := by
  unfold insert
  split
  · rename_i taken
    exact iff_of_true rfl taken
  · rename_i free
    exact iff_of_false (Option.some_ne_none _) free

theorem get?_insert {r : ρ} {t t' : Table key τ} (h : t.insert r = some t') (k : κ) :
    t'.get? k = if k = key r then some r else t.get? k := by
  obtain ⟨hk, hrows, -⟩ := insert_eq_some h
  by_cases e : k = key r
  · subst e
    rw [if_pos rfl]
    exact get?_eq_some.mpr ⟨by simp [hrows], rfl⟩
  · rw [if_neg e]
    simp [get?, hrows, List.find?_append, Ne.symm e]

/-! ## Sessions -/

/-- UPDATE: possible when none of the rows it hits is locked. -/
def update (me : τ) (p : ρ → Bool) (set : ρ → ρ) (t : Table key τ) :
    Option (List ρ × Table key τ) :=
  if (t.hits p).all fun r => (t.lock (key r)).isNone then
    some ((t.hits p).map set,
      { t with lock := fun k => if k ∈ (t.hits p).map key then some me else t.lock k })
  else none

variable [DecidableEq τ]

/-- The locks of `me` are given back. -/
def release (me : τ) (t : Table key τ) : Table key τ :=
  { t with lock := fun k => if t.lock k = some me then none else t.lock k }

/-- COMMIT: the images show, the locks are given back. -/
def commit (me : τ) (images : List ρ) (t : Table key τ) : Table key τ :=
  (t.write images).release me

omit [DecidableEq κ] in
@[simp] theorem release_rows (me : τ) (t : Table key τ) : (t.release me).rows = t.rows := rfl

@[simp] theorem release_get? (me : τ) (t : Table key τ) (k : κ) :
    (t.release me).get? k = t.get? k := rfl

theorem commit_get? (me : τ) (images : List ρ) (t : Table key τ) (k : κ) :
    (t.commit me images).get? k = (t.get? k).map (image key images) := by
  rw [commit, release_get?, get?_write]

omit [DecidableEq κ] in
theorem release_lock {me you : τ} (hne : you ≠ me) {t : Table key τ} {k : κ}
    (h : t.lock k = some you) : (t.release me).lock k = some you := by
  simp [release, h, hne]

omit [DecidableEq τ] in
theorem update_eq_some {me : τ} {p : ρ → Bool} {set : ρ → ρ} {t t' : Table key τ}
    {images : List ρ} (h : t.update me p set = some (images, t')) :
    images = (t.hits p).map set ∧ t'.rows = t.rows ∧
      (∀ r ∈ t.hits p, t.lock (key r) = none ∧ t'.lock (key r) = some me) ∧
      (∀ k you, t.lock k = some you → t'.lock k = some you) := by
  unfold update at h
  split at h
  · rename_i hall
    simp only [Option.some.injEq, Prod.mk.injEq] at h
    obtain ⟨rfl, rfl⟩ := h
    have free : ∀ r ∈ t.hits p, t.lock (key r) = none := by
      simpa using hall
    refine ⟨rfl, rfl, ?_, ?_⟩
    · intro r hr
      refine ⟨free r hr, ?_⟩
      have : key r ∈ (t.hits p).map key := List.mem_map.mpr ⟨r, hr, rfl⟩
      simp only [this, if_true]
    · intro k you hk
      have : k ∉ (t.hits p).map key := by
        intro hmem
        obtain ⟨r, hr, rfl⟩ := List.mem_map.mp hmem
        rw [free r hr] at hk
        cases hk
      simpa only [this, if_false] using hk
  · cases h

/-- Each image that `me` holds replaces a committed row that it stands in relation `R` to,
and that row is locked by `me`. -/
def Pending (R : ρ → ρ → Prop) (me : τ) (images : List ρ) (t : Table key τ) : Prop :=
  ∀ i ∈ images, t.lock (key i) = some me ∧ ∃ r, t.get? (key i) = some r ∧ R r i

omit [DecidableEq τ] in
theorem pending_nil {R : ρ → ρ → Prop} {me : τ} {t : Table key τ} : t.Pending R me [] := by
  simp [Pending]

omit [DecidableEq τ] in
theorem pending_of_update {me : τ} {p : ρ → Bool} {set : ρ → ρ} {t t' : Table key τ}
    {images : List ρ} (hkey : ∀ r, key (set r) = key r)
    (h : t.update me p set = some (images, t')) :
    t'.Pending (fun r i => p r = true ∧ i = set r) me images := by
  obtain ⟨rfl, hrows, hlock, -⟩ := update_eq_some h
  intro i hi
  obtain ⟨r, hr, rfl⟩ := List.mem_map.mp hi
  rw [hkey]
  refine ⟨(hlock r hr).2, r, ?_, (mem_hits.mp hr).2, rfl⟩
  exact get?_eq_some.mpr ⟨hrows ▸ (mem_hits.mp hr).1, rfl⟩

omit [DecidableEq τ] in
/-- An UPDATE that keeps the keys has one image for each row it hits. -/
theorem nodup_of_update {me : τ} {p : ρ → Bool} {set : ρ → ρ} {t t' : Table key τ}
    {images : List ρ} (hkey : ∀ r, key (set r) = key r)
    (h : t.update me p set = some (images, t')) : (images.map key).Nodup := by
  obtain ⟨rfl, -⟩ := update_eq_some h
  have : ((t.hits p).map set).map key = (t.hits p).map key := by simp [hkey]
  rw [this]
  exact t.nodup.sublist (List.filter_sublist.map key)

omit [DecidableEq τ] in
theorem Pending.mono {R R' : ρ → ρ → Prop} {me : τ} {images : List ρ} {t : Table key τ}
    (h : t.Pending R me images) (hR : ∀ r i, R r i → R' r i) : t.Pending R' me images := by
  intro i hi
  obtain ⟨hl, r, hr, hri⟩ := h i hi
  exact ⟨hl, r, hr, hR r i hri⟩

omit [DecidableEq τ] in
/-- Another session's UPDATE takes no lock away and writes nothing. -/
theorem Pending.update {R : ρ → ρ → Prop} {me you : τ} {images images' : List ρ}
    {p : ρ → Bool} {set : ρ → ρ} {t t' : Table key τ} (h : t.Pending R me images)
    (hu : t.update you p set = some (images', t')) : t'.Pending R me images := by
  obtain ⟨-, hrows, -, hlock⟩ := update_eq_some hu
  intro i hi
  obtain ⟨hl, r, hr, hri⟩ := h i hi
  refine ⟨hlock _ _ hl, r, ?_, hri⟩
  rw [get?_eq_some] at hr ⊢
  rwa [hrows]

omit [DecidableEq τ] in
theorem Pending.insert {R : ρ → ρ → Prop} {me : τ} {images : List ρ} {r₀ : ρ}
    {t t' : Table key τ} (h : t.Pending R me images) (hi : t.insert r₀ = some t') :
    t'.Pending R me images := by
  obtain ⟨-, hrows, hlock⟩ := insert_eq_some hi
  intro i himem
  obtain ⟨hl, r, hr, hri⟩ := h i himem
  refine ⟨hlock ▸ hl, r, ?_, hri⟩
  rw [get?_eq_some] at hr ⊢
  exact ⟨hrows ▸ List.mem_append_left _ hr.1, hr.2⟩

theorem Pending.release {R : ρ → ρ → Prop} {me you : τ} (hne : me ≠ you) {images : List ρ}
    {t : Table key τ} (h : t.Pending R me images) : (t.release you).Pending R me images := by
  intro i hi
  obtain ⟨hl, r, hr, hri⟩ := h i hi
  exact ⟨release_lock hne hl, r, hr, hri⟩

/-- A commit leaves alone the rows that other sessions have locked. -/
theorem Pending.commit {R R' : ρ → ρ → Prop} {me you : τ} (hne : me ≠ you)
    {images images' : List ρ} {t : Table key τ} (h : t.Pending R me images)
    (h' : t.Pending R' you images') : (t.commit you images').Pending R me images := by
  intro i hi
  obtain ⟨hl, r, hr, hri⟩ := h i hi
  refine ⟨release_lock hne hl, r, ?_, hri⟩
  have hk := (get?_eq_some.mp hr).2
  have apart : key r ∉ images'.map key := by
    rw [hk]
    intro hmem
    obtain ⟨i', hi', e⟩ := List.mem_map.mp hmem
    have hl' := (h' i' hi').1
    rw [e, hl] at hl'
    exact hne (Option.some.inj hl')
  rw [commit_get?, hr, Option.map_some, image_of_notMem apart]

omit [DecidableEq τ] in
/-- What a commit does to one row: nothing, or it puts a related image in its place. -/
theorem Pending.row {R : ρ → ρ → Prop} {me : τ} {images : List ρ} {t : Table key τ}
    (h : t.Pending R me images) {r : ρ} (hr : r ∈ t.rows) :
    (image key images r = r ∧ key r ∉ images.map key) ∨
      (image key images r ∈ images ∧ R r (image key images r)) := by
  rcases image_cases key images r with h' | ⟨hi, hk⟩
  · exact .inl h'
  · obtain ⟨-, r', hr', hri⟩ := h _ hi
    rw [hk, get?_of_mem hr, Option.some.injEq] at hr'
    exact .inr ⟨hi, hr' ▸ hri⟩

/-! ## Counting -/

theorem countP_commit_le (q : ρ → Bool) (me : τ) {images : List ρ} (t : Table key τ)
    (h : ∀ i ∈ images, q i = false) : (t.commit me images).rows.countP q ≤ t.rows.countP q := by
  show (t.rows.map (image key images)).countP q ≤ _
  rw [List.countP_map]
  apply List.countP_mono_left
  intro r _ hq
  rcases image_cases key images r with h' | ⟨hi, -⟩
  · simpa [h'.1] using hq
  · simp [h _ hi] at hq

/-- One new image that counts, for a row that did not: one more. -/
theorem countP_commit_single (q : ρ → Bool) (me : τ) {i r : ρ} (t : Table key τ)
    (hr : t.get? (key i) = some r) (hold : q r = false) (hnew : q i = true) :
    (t.commit me [i]).rows.countP q = t.rows.countP q + 1 := by
  show (t.rows.map (image key [i])).countP q = _
  obtain ⟨hmem, hk⟩ := get?_eq_some.mp hr
  obtain ⟨before, after, hrows⟩ := List.append_of_mem hmem
  have nodup := t.nodup
  rw [hrows, List.map_append, List.map_cons, List.nodup_append, List.nodup_cons] at nodup
  obtain ⟨-, ⟨hafter, -⟩, hbefore⟩ := nodup
  have other : ∀ r', key r' ≠ key i → image key [i] r' = r' := fun r' hne =>
    image_of_notMem (by simpa using hne)
  have same : ∀ l : List ρ, (∀ r' ∈ l, key r' ≠ key i) → l.map (image key [i]) = l := by
    intro l hl
    exact (List.map_congr_left fun r' hr' => other r' (hl r' hr')).trans (List.map_id l)
  have hb := same before fun r' hr' e =>
    hbefore _ (List.mem_map.mpr ⟨r', hr', rfl⟩) _ List.mem_cons_self (e.trans hk.symm)
  have ha := same after fun r' hr' e =>
    hafter (List.mem_map.mpr ⟨r', hr', e.trans hk.symm⟩)
  have hi : image key [i] r = i := by simp [image, hk]
  rw [hrows, List.map_append, List.map_cons, hb, ha, hi]
  simp [List.countP_append, hold, hnew]
  omega

end Table

end TcadWebapp
