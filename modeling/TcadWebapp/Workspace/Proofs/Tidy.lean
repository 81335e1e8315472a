import TcadWebapp.Workspace.Proofs.Paths
import TcadWebapp.Workspace.Service

/-!
# Looking things up in a tidy workspace

Below the root of a tidy workspace there are no links, so a path with names means what its names
say: each lookup of the code is one of the location (`Tidy.stat_join`).
-/

namespace TcadWebapp.Workspace

variable {root : PosixPath} {seedFiles : List (Text × List UInt8)} {lower : Text → Text}
  {quotaBytes : Int} {fs : Files} {top : Location} {path : Text}

namespace Op

variable {α β : Type} {op : Op α} {next : α → Op β} {fs' : Files}

theorem bind_ok {a : α} (h : op fs = (.ok a, fs')) : (op >>= next) fs = next a fs' := by
  simp only [bind, h]

theorem bind_error {e : Error} (h : op fs = (.error e, fs')) :
    (op >>= next) fs = (.error e, fs') := by
  simp only [bind, h]

end Op

/-! ## A root that is there -/

theorem isSome_startOf (leads : fs.locate .stat root = .ok top) (folder : fs.get? top = some .folder) :
    (fs.get? (fs.startOf root)).isSome = true := by
  obtain ⟨left, walked⟩ := locate_eq_ok.mp leads
  cases parts : root.parts with
  | nil =>
    rw [parts, Files.walk_nil] at walked
    cases walked
    rw [folder]
    rfl
  | cons name rest =>
    rw [parts] at walked
    rw [folder_of_walk walked]
    rfl

theorem ensureRoot_of_locate (leads : fs.locate .stat root = .ok top)
    (folder : fs.get? top = some .folder) : ensureRoot root seedFiles fs = (.ok (), fs) := by
  obtain ⟨left, walked⟩ := locate_eq_ok.mp leads
  obtain ⟨place, left', walked', there⟩ :=
    Files.exists_walk_newEntry (isSome_startOf leads folder) walked
  have located : fs.locate .newEntry root = .ok place := locate_eq_ok.mpr ⟨left', walked'⟩
  have taken : fs.mkdir root = .error .alreadyExists := by
    simp only [Files.mkdir, located, there, if_true]
  have parents : Files.mkdirParents root.absolute false root.parts.reverse fs =
      (.error .alreadyExists, fs) := by
    have same : (⟨root.absolute, root.parts.reverse.reverse⟩ : PosixPath) = root := by simp
    unfold Files.mkdirParents
    rw [same, taken]
    simp
  simp only [ensureRoot, parents]

namespace Tidy

theorem noLinks (h : Tidy root quotaBytes fs top) : fs.NoLinks top := by
  rintro place ⟨rest, rfl⟩ target link
  cases rest using List.reverseRecOn with
  | nil =>
    rw [List.append_nil, h.folder] at link
    cases link
  | append_singleton above name =>
    rw [← List.append_assoc] at link
    obtain ⟨-, folder | ⟨⟨bytes, file⟩, -⟩⟩ := h.shown above name _ link
    · cases folder
    · cases file

theorem locate_root (h : Tidy root quotaBytes fs top) : fs.locate .stat root = .ok top :=
  h.leads fs rfl fun _ _ => rfl

/-- Names are looked up from the root. -/
theorem exists_walk (h : Tidy root quotaBytes fs top) : ∃ left, ∀ (last : Last) (names : List Text),
    names ≠ [] → fs.locate last (root.join names) = (fs.walk last left top names).map Prod.fst := by
  obtain ⟨left, walked⟩ := locate_eq_ok.mp h.locate_root
  refine ⟨left, fun last names some => ?_⟩
  have from' : fs.startOf (root.join names) = fs.startOf root := rfl
  rw [Files.locate, PosixPath.join_parts, Files.walk_append _ _ _ _ some, from', walked]
  rfl

theorem locate_of_isSome (h : Tidy root quotaBytes fs top) (last : Last) {names : List Text}
    (some : names ≠ []) (there : (fs.get? (top ++ names)).isSome = true) :
    fs.locate last (root.join names) = .ok (top ++ names) := by
  obtain ⟨left, walk⟩ := h.exists_walk
  rw [walk last names some, Files.walk_of_isSome left h.noLinks there]
  rfl

theorem locate_new (h : Tidy root quotaBytes fs top) {last : Last} (create : last.create = true)
    {above : List Text} {name : Text} (isName : IsName name)
    (isFolder : fs.get? (top ++ above) = some .folder)
    (free : fs.get? (top ++ above ++ [name]) = none) :
    fs.locate last (root.join (above ++ [name])) = .ok (top ++ above ++ [name]) := by
  obtain ⟨left, walk⟩ := h.exists_walk
  rw [walk last _ (by simp), Files.walk_new create left h.noLinks isName isFolder free]
  rfl

/-- To look at a path is to look at the location of its names. -/
theorem stat_join (h : Tidy root quotaBytes fs top) {names : List Text}
    (isName : ∀ name ∈ names, IsName name) :
    fs.stat (root.join names) = fs.get? (top ++ names) := by
  unfold Files.stat
  by_cases some : names = []
  · subst some
    rw [PosixPath.join_nil, h.locate_root, List.append_nil]
    rfl
  · obtain ⟨left, walk⟩ := h.exists_walk
    cases there : (fs.get? (top ++ names)).isSome with
    | true =>
      rw [h.locate_of_isSome .stat some there]
      rfl
    | false =>
      rw [walk .stat names some]
      cases walked : fs.walk .stat left top names with
      | error e =>
        simp only [Except.map, Except.toOption, Option.bind_none]
        exact (Option.isNone_iff_eq_none.mp (by simpa using there)).symm
      | ok r =>
        simp only [Except.map, Except.toOption, Option.bind_some]
        rw [Files.walk_plain h.noLinks isName walked]

theorem isDir_join (h : Tidy root quotaBytes fs top) {names : List Text}
    (isName : ∀ name ∈ names, IsName name) :
    fs.isDir (root.join names) = true ↔ fs.get? (top ++ names) = some .folder := by
  rw [Files.isDir, h.stat_join isName, decide_eq_true_eq]

theorem pathExists_join (h : Tidy root quotaBytes fs top) {names : List Text}
    (isName : ∀ name ∈ names, IsName name) :
    fs.pathExists (root.join names) = (fs.get? (top ++ names)).isSome := by
  rw [Files.pathExists, h.stat_join isName]

/-- What is there is not a link. -/
theorem isSymlink_join (h : Tidy root quotaBytes fs top) {names : List Text} (some : names ≠ [])
    (there : (fs.get? (top ++ names)).isSome = true) : fs.isSymlink (root.join names) = false := by
  have found : fs.lstat (root.join names) = fs.get? (top ++ names) := by
    rw [Files.lstat, h.locate_of_isSome .entry some there]
    rfl
  rw [Files.isSymlink, found]
  cases what : fs.get? (top ++ names) with
  | none => rfl
  | some node =>
    cases node with
    | link target => exact absurd what (h.noLinks _ (List.prefix_append _ _) target)
    | folder => rfl
    | file bytes => rfl

/-! ## The root and the paths of the user -/

/-- `_ensure_root` does nothing to a root that is there. -/
theorem ensureRoot (h : Tidy root quotaBytes fs top) :
    ensureRoot root seedFiles fs = (.ok (), fs) :=
  ensureRoot_of_locate h.locate_root h.folder

/-- What is probed is the root, or is there. -/
theorem probe (h : Tidy root quotaBytes fs top) {parts : List Text}
    (isName : ∀ name ∈ parts, IsName name) :
    ∃ place, fs.resolve (probeFrom fs root parts.reverse) = .ok place ∧ top <+: place := by
  have atRoot : fs.resolve root = .ok top := resolve_of_locate rfl h.locate_root
  induction parts using List.reverseRecOn with
  | nil => exact ⟨top, atRoot, List.prefix_refl _⟩
  | append_singleton above name ih =>
    cases there : fs.pathExists (root.join (above ++ [name])) with
    | false =>
      rw [probeFrom_of_missing there]
      exact ih fun name mem => isName name (List.mem_append_left _ mem)
    | true =>
      rw [probeFrom_of_pathExists there]
      unfold Files.pathExists Files.stat at there
      cases located : fs.locate .stat (root.join (above ++ [name])) with
      | error e => simp [located, Except.toOption] at there
      | ok place =>
        refine ⟨place, resolve_of_locate rfl located, ?_⟩
        obtain ⟨left, walk⟩ := h.exists_walk
        rw [walk .stat _ (by simp)] at located
        cases walked : fs.walk .stat left top (above ++ [name]) with
        | error e => rw [walked] at located; cases located
        | ok r =>
          rw [walked] at located
          cases located
          rw [Files.walk_plain h.noLinks isName walked]
          exact List.prefix_append _ _

/-- A path is only read as text. -/
theorem resolveInRoot (h : Tidy root quotaBytes fs top) :
    resolveInRoot fs root path =
      match partsOf path with
      | none => .error (.invalidPath outsideRoot)
      | some parts => .ok (root.join parts) := by
  cases parts : partsOf path with
  | none => simp only [TcadWebapp.Workspace.resolveInRoot, parts]
  | some parts' =>
    obtain ⟨place, probed, inside⟩ := h.probe (isName_of_partsOf parts)
    exact resolveInRoot_eq_ok.mpr ⟨parts', place, top, parts, probed,
      resolve_of_locate rfl h.locate_root, inside, rfl⟩

end Tidy

end TcadWebapp.Workspace
