import TcadWebapp.Workspace.Proofs.Service

/-!
# What is deleted

A path is deleted with all that is below it. The empty path is refused, but the root has other names: a dot,
or a name and a double dot (`deletesBelow_iff`).
-/

namespace TcadWebapp.Workspace

variable {root : PosixPath} {seedFiles : List (Text × List UInt8)} {fs : Files} {top : Location}
  {path : Text}

/-- The root is there, and it is not the top of all files. -/
structure Stands (fs : Files) (root : PosixPath) (top : Location) : Prop where
  leads : fs.locate .stat root = .ok top
  folder : fs.get? top = some .folder
  named : top ≠ []

/-- The entry that a path of the user denotes. -/
def Denotes (fs : Files) (root : PosixPath) (path : Text) (place : Location) : Prop :=
  ∃ parts, partsOf path = some parts ∧ fs.locate .entry (root.join parts) = .ok place ∧
    (fs.get? place).isSome = true

/-- Something at the path passes for a thing to delete: the path is not empty, it is let through, and what
it leads to is there and is not a link to a folder. -/
def Passes (fs : Files) (root : PosixPath) (path : Text) : Prop :=
  path ≠ [] ∧ ∃ target, resolveInRoot fs root path = .ok target ∧ fs.pathExists target = true ∧
    ¬ (fs.isDir target = true ∧ fs.isSymlink target = true)

/-- The entry at the path is gone with all that is below it, it was below the root, and the rest is as it
was. -/
def DeletedBelow (fs : Files) (root : PosixPath) (top : Location) (path : Text) (fs' : Files) : Prop :=
  ∃ place, Denotes fs root path place ∧ Below top place ∧ fs'.get? top = some .folder ∧
    ∀ other, fs'.get? other = if place <+: other then none else fs.get? other

/-- A location with a name in it is not the top. -/
theorem locate_entry_ne {above : List Text} {name : Text} {place : Location} (isName : IsName name)
    (h : fs.locate .entry (root.join (above ++ [name])) = .ok place) : place ≠ [] := by
  rw [locate_concat] at h
  cases walked : fs.walk .stat Files.maxLinks (fs.startOf (root.join above)) (root.join above).parts with
  | error e =>
    rw [walked] at h
    cases h
  | ok r =>
    rw [walked] at h
    cases step : fs.walk .entry r.2 r.1 [name] with
    | error e => simp [Except.bind, Except.map, step] at h
    | ok s =>
      obtain rfl : s.1 = place := by simpa [Except.bind, Except.map, step] using h
      rw [Files.walk_cons, if_neg isName.2.1, if_neg isName.2.2.1] at step
      split at step
      · split at step
        · cases step
        · rw [if_pos (by simp [Last.entry])] at step
          cases step
          simp
        · rw [Files.walk_nil] at step
          cases step
          simp
      · cases step

/-- What a path denotes is not the top of all files. -/
theorem Denotes.place_ne (stands : Stands fs root top) {place : Location} (denotes : Denotes fs root path place) :
    place ≠ [] := by
  obtain ⟨parts, named, located, -⟩ := denotes
  rintro rfl
  cases parts using List.reverseRecOn with
  | nil =>
    rw [PosixPath.join_nil] at located
    obtain ⟨left, walked⟩ := locate_eq_ok.mp located
    have followed := Files.walk_stat_of_entry walked (by simp [Files.get?_top])
    have leads := stands.leads
    rw [locate_eq_ok.mpr ⟨left, followed⟩] at leads
    exact stands.named (Except.ok.inj leads).symm
  | append_singleton above name => exact locate_entry_ne (isName_of_partsOf named name (by simp)) located rfl

theorem rmtree_eq_ok {target : PosixPath} {fs' : Files} : fs.rmtree target = .ok fs' ↔
    fs.isSymlink target = false ∧ ∃ place, fs.locate .entry target = .ok place ∧
      fs.remove place = some fs' := by
  unfold Files.rmtree
  cases fs.isSymlink target with
  | true => simp
  | false =>
    cases fs.locate .entry target with
    | error e => simp
    | ok place => cases removed : fs.remove place <;> simp [removed]

theorem unlink_eq_ok {target : PosixPath} {fs' : Files} : fs.unlink target = .ok fs' ↔
    ∃ place, fs.locate .entry target = .ok place ∧ fs.get? place ≠ some .folder ∧
      fs.remove place = some fs' := by
  unfold Files.unlink
  cases fs.locate .entry target with
  | error e => simp
  | ok place =>
    by_cases folder : fs.get? place = some .folder
    · simp [folder]
    · cases removed : fs.remove place <;> simp [folder, removed]

theorem resolve_of_stands (stands : Stands fs root top) :
    resolve root seedFiles path fs = (resolveInRoot fs root path, fs) :=
  (Op.bind_ok (ensureRoot_of_locate stands.leads stands.folder)).trans rfl

/-- What is located at a path that is let through is what it denotes. -/
theorem denotes_of_locate {target : PosixPath} {place : Location}
    (through : resolveInRoot fs root path = .ok target) (there : fs.pathExists target = true)
    (located : fs.locate .entry target = .ok place) : Denotes fs root path place := by
  obtain ⟨parts, -, -, named, -, -, -, rfl⟩ := resolveInRoot_eq_ok.mp through
  obtain ⟨left, walked⟩ := locate_eq_ok.mp located
  refine ⟨parts, named, located, ?_⟩
  rcases Files.isSome_of_walk rfl walked with ⟨none_, rfl⟩ | found
  · -- Without a name the path leads to where it begins.
    unfold Files.pathExists Files.stat Files.locate at there
    rw [none_, Files.walk_nil] at there
    exact there
  · exact found

/-- What is removed below the root leaves the root. -/
theorem deletedBelow_of_remove (stands : Stands fs root top) {place : Location} {fs' : Files}
    (denotes : Denotes fs root path place) (below : Below top place) (removed : fs.remove place = some fs') :
    DeletedBelow fs root top path fs' := by
  have get := Files.get?_remove removed
  refine ⟨place, denotes, below, ?_, get⟩
  rw [get, if_neg, stands.folder]
  exact fun pre => below.2 (pre.eq_of_length_le below.1.length_le)

/-- `delete` takes away what passes. -/
theorem delete_of_passes (stands : Stands fs root top) (passes : Passes fs root path) {place : Location}
    (denotes : Denotes fs root path place) : ∃ fs', fs.remove place = some fs' ∧
      delete root seedFiles path fs = (.ok (), fs') := by
  obtain ⟨fs', removed⟩ : ∃ fs', fs.remove place = some fs' := by
    unfold Files.remove
    rw [dif_neg (denotes.place_ne stands)]
    exact ⟨_, rfl⟩
  obtain ⟨some_, target, through, there, notLink⟩ := passes
  obtain ⟨parts, named, located, -⟩ := denotes
  obtain ⟨parts', -, -, named', -, -, -, rfl⟩ := resolveInRoot_eq_ok.mp through
  obtain rfl := Option.some.inj (named.symm.trans named')
  have resolves : resolve root seedFiles path fs = (.ok (root.join parts), fs) := by
    rw [resolve_of_stands stands, through]
  refine ⟨fs', removed, ?_⟩
  have looked : Op.look (·.pathExists (root.join parts)) fs = (.ok true, fs) := by rw [Op.look, there]
  unfold delete
  rw [if_neg some_]
  refine (Op.bind_ok resolves).trans ((Op.bind_ok looked).trans ?_)
  rw [if_neg (by simp)]
  refine (Op.bind_ok rfl).trans ?_
  cases dir : fs.isDir (root.join parts) with
  | true =>
    have called : fs.rmtree (root.join parts) = .ok fs' :=
      rmtree_eq_ok.mpr ⟨by simpa [dir] using notLink, place, located, removed⟩
    rw [if_pos dir]
    simp only [Op.call, called]
  | false =>
    have notFolder : fs.get? place ≠ some .folder := by
      intro folder
      obtain ⟨left, walked⟩ := locate_eq_ok.mp located
      have followed := Files.walk_stat_of_entry walked (by simp [folder])
      simp [Files.isDir, Files.stat, locate_eq_ok.mpr ⟨left, followed⟩, folder, Except.toOption] at dir
    have called : fs.unlink (root.join parts) = .ok fs' :=
      unlink_eq_ok.mpr ⟨place, located, notFolder, removed⟩
    rw [if_neg (by simp [dir])]
    simp only [Op.call, called]

/-- `delete` raises and changes nothing, or takes away what the path denotes and that is below the root,
just if the path does not pass for something that is not. -/
theorem deletesBelow_iff (stands : Stands fs root top) :
    Outcome (delete root seedFiles path) fs (DeletedBelow fs root top path) ↔
      (Passes fs root path → ∀ place, Denotes fs root path place → Below top place) := by
  constructor
  · intro outcome passes place denotes
    obtain ⟨fs', -, done⟩ := @delete_of_passes root seedFiles fs top path stands passes place denotes
    obtain ⟨place', ⟨parts', named', located', -⟩, below, -⟩ := outcome.of_ok done
    obtain ⟨parts, named, located, -⟩ := denotes
    obtain rfl := Option.some.inj (named.symm.trans named')
    obtain rfl := Except.ok.inj (located.symm.trans located')
    exact below
  · intro safe
    refine outcome_ite fun some_ => outcome_bind ?_
    rw [resolve_of_stands stands]
    cases through : resolveInRoot fs root path with
    | error e => exact Or.inl ⟨e, rfl⟩
    | ok target =>
      refine Or.inr ⟨target, rfl, outcome_look (outcome_ite fun there => outcome_look ?_)⟩
      rw [not_not] at there
      split
      · refine outcome_call fun fs' done => ?_
        obtain ⟨notLink, place, located, removed⟩ := rmtree_eq_ok.mp done
        have denotes := denotes_of_locate through there located
        exact deletedBelow_of_remove stands denotes
          (safe ⟨some_, target, through, there, by simp [notLink]⟩ place denotes) removed
      · rename_i notDir
        refine outcome_call fun fs' done => ?_
        obtain ⟨place, located, -, removed⟩ := unlink_eq_ok.mp done
        have denotes := denotes_of_locate through there located
        exact deletedBelow_of_remove stands denotes
          (safe ⟨some_, target, through, there, fun both => notDir both.1⟩ place denotes) removed

/-- Without links a path denotes what its names say, and the root if they cancel out. -/
theorem Tidy.below_iff {quotaBytes : Int} (h : Tidy root quotaBytes fs top) {place : Location}
    (denotes : Denotes fs root path place) (passes : Passes fs root path) :
    Below top place ↔ partsOf path ≠ some [] := by
  obtain ⟨parts, named, located, there⟩ := denotes
  rw [named, ne_eq, Option.some.injEq]
  by_cases none_ : parts = []
  · subst none_
    obtain ⟨-, target, through, -, notLink⟩ := passes
    obtain ⟨parts', -, -, named', -, -, -, rfl⟩ := resolveInRoot_eq_ok.mp through
    obtain rfl := Option.some.inj (named.symm.trans named')
    -- The root is a folder, and so its entry is not a link.
    have isDir : fs.isDir (root.join []) = true := by
      rw [h.isDir_join (by simp), List.append_nil, h.folder]
    have plain : ∀ target, fs.get? place ≠ some (.link target) := by
      intro target link
      refine notLink ⟨isDir, ?_⟩
      rw [Files.isSymlink, Files.lstat, located]
      simp [link, Except.toOption]
    obtain ⟨left, walked⟩ := locate_eq_ok.mp located
    have followed := h.locate_root
    rw [PosixPath.join_nil] at walked
    rw [locate_eq_ok.mpr ⟨left, Files.walk_stat_of_entry walked plain⟩] at followed
    obtain rfl := Except.ok.inj followed
    simp [Below]
  · obtain ⟨left, walk⟩ := h.exists_walk
    rw [walk .entry parts none_] at located
    cases walked : fs.walk .entry left top parts with
    | error e =>
      rw [walked] at located
      cases located
    | ok r =>
      rw [walked] at located
      cases located
      rw [Files.walk_plain h.noLinks (isName_of_partsOf named) walked]
      exact iff_of_true (below_append none_) none_

/-- In an empty workspace a dot deletes the root. -/
theorem not_deletesBelow : ¬ ∀ (root : PosixPath) (seedFiles : List (Text × List UInt8)) (fs : Files)
    (top : Location) (path : Text), Stands fs root top →
    Outcome (delete root seedFiles path) fs (DeletedBelow fs root top path) := by
  intro all
  have gone : ∃ fs ∈ emptyWorkspace, fs.locate .stat ⟨true, [['w']]⟩ = .ok [['w']] ∧
      fs.get? [['w']] = some .folder ∧ partsOf ['.'] = some [] ∧
      (delete ⟨true, [['w']]⟩ [] ['.'] fs).1 = .ok () ∧
      fs.locate .entry ⟨true, [['w']]⟩ = .ok [['w']] := by decide
  obtain ⟨fs, -, leads, folder, named, done, located⟩ := gone
  have outcome := all ⟨true, [['w']]⟩ [] fs [['w']] ['.'] ⟨leads, folder, by simp⟩
  obtain ⟨place, ⟨parts, named', located', -⟩, below, -⟩ := outcome.of_ok (Prod.ext done rfl)
  obtain rfl := Option.some.inj (named.symm.trans named')
  rw [PosixPath.join_nil, located] at located'
  obtain rfl := Except.ok.inj located'
  exact below.2 rfl

/-- The dot is a name of the root that passes. -/
theorem deletesBelow_iff_dot : ∃ fs ∈ emptyWorkspace,
    (Outcome (delete ⟨true, [['w']]⟩ [] ['.']) fs (DeletedBelow fs ⟨true, [['w']]⟩ [['w']] ['.']) ↔
      (Passes fs ⟨true, [['w']]⟩ ['.'] → ∀ place, Denotes fs ⟨true, [['w']]⟩ ['.'] place →
        Below [['w']] place)) := by
  have built : emptyWorkspace.isSome = true := by decide
  obtain ⟨fs, built⟩ := Option.isSome_iff_exists.mp built
  have tidy := tidy_emptyWorkspace built
  exact ⟨fs, built, deletesBelow_iff ⟨tidy.locate_root, tidy.folder, by simp⟩⟩

end TcadWebapp.Workspace
