import TcadWebapp.Workspace.Paths

/-!
# Where a path leads

What `resolve_in_root` lets through stays in the root, but for one thing (`confined_iff`): a link
that leads to something missing is not seen as a link, and is followed when the file is written.
-/

namespace TcadWebapp.Workspace

variable {fs : Files} {root : PosixPath} {path : Text}

/-! ## Names -/

theorem notMem_of_mem_splitOn {text part : Text} {c : Char} (h : part ∈ text.splitOn c) :
    c ∉ part := by
  induction text generalizing part with
  | nil =>
    obtain rfl := List.mem_singleton.mp h
    exact List.not_mem_nil
  | cons x text ih =>
    rw [List.splitOn_cons_eq_if_modifyHead] at h
    split at h
    · rcases List.mem_cons.mp h with rfl | h
      · exact List.not_mem_nil
      · exact ih h
    · rename_i other
      cases split : text.splitOn c with
      | nil => exact absurd split (List.splitOn_ne_nil c text)
      | cons first others =>
        rw [split, List.modifyHead_cons] at h
        rcases List.mem_cons.mp h with rfl | h
        · rw [List.mem_cons, not_or]
          refine ⟨fun same => other (by simp [same]), ih ?_⟩
          rw [split]
          exact List.mem_cons_self
        · refine ih ?_
          rw [split]
          exact List.mem_cons_of_mem _ h

/-- The parts that are kept are names. -/
theorem isName_of_normalise {kept parts result : List Text} (h : normalise kept parts = some result)
    (names : ∀ name ∈ kept, IsName name) (single : ∀ part ∈ parts, '/' ∉ part) :
    ∀ name ∈ result, IsName name := by
  induction parts generalizing kept with
  | nil =>
    obtain rfl := Option.some.inj h
    exact names
  | cons part rest ih =>
    have single' := fun part mem => single part (List.mem_cons_of_mem _ mem)
    rw [normalise] at h
    split at h
    · exact ih h names single'
    · rename_i something
      split at h
      · split at h
        · cases h
        · refine ih h (fun name mem => names name ?_) single'
          exact List.mem_of_mem_dropLast mem
      · rename_i dots
        rw [not_or] at something
        refine ih h (fun name mem => ?_) single'
        rcases List.mem_append.mp mem with mem | mem
        · exact names name mem
        · obtain rfl := List.mem_singleton.mp mem
          exact ⟨something.1, something.2, dots, single _ List.mem_cons_self⟩

theorem isName_of_partsOf {parts : List Text} (h : partsOf path = some parts) :
    ∀ name ∈ parts, IsName name := by
  unfold partsOf at h
  split at h
  · cases h
  · split at h
    · cases h
    · refine isName_of_normalise h (by simp) fun part mem => ?_
      exact notMem_of_mem_splitOn (List.mem_of_mem_filter mem)

/-! ## What is probed -/

theorem mem_parents_iff {place rootPlace : Location} :
    ¬ (place ≠ rootPlace ∧ (⟨true, rootPlace⟩ : PosixPath) ∉ PosixPath.parents ⟨true, place⟩) ↔
      rootPlace <+: place := by
  rw [PosixPath.mem_parents]
  constructor
  · intro h
    by_cases same : place = rootPlace
    · exact same ▸ List.prefix_refl _
    · by_contra outside
      exact h ⟨same, fun inside => outside inside.2.1⟩
  · rintro inside ⟨ne, outside⟩
    exact outside ⟨rfl, inside, Ne.symm ne⟩

theorem resolved_eq_ok {p : PosixPath} {place : Location} :
    resolved fs p = .ok place ↔ fs.resolve p = .ok place := by
  unfold resolved
  cases fs.resolve p <;> simp

theorem resolveInRoot_eq_ok {candidate : PosixPath} :
    resolveInRoot fs root path = .ok candidate ↔
      ∃ parts place rootPlace, partsOf path = some parts ∧
        fs.resolve (probeFrom fs root parts.reverse) = .ok place ∧
        fs.resolve root = .ok rootPlace ∧ rootPlace <+: place ∧ candidate = root.join parts := by
  unfold resolveInRoot
  cases partsOf path with
  | none => simp
  | some parts =>
    simp only [bind_eq_ok, resolved_eq_ok, Option.some.injEq]
    constructor
    · rintro ⟨place, probed, rootPlace, top, h⟩
      split at h
      · cases h
      · rename_i inside
        cases h
        exact ⟨parts, place, rootPlace, rfl, probed, top, mem_parents_iff.mp inside, rfl⟩
    · rintro ⟨_, place, rootPlace, rfl, probed, top, inside, rfl⟩
      exact ⟨place, probed, rootPlace, top, if_neg (mem_parents_iff.mpr inside)⟩

/-- What is there is probed itself. -/
theorem probeFrom_of_pathExists {parts : List Text} (h : fs.pathExists (root.join parts) = true) :
    probeFrom fs root parts.reverse = root.join parts := by
  cases parts using List.reverseRecOn with
  | nil => simp [probeFrom]
  | append_singleton above name =>
    rw [List.reverse_append, List.reverse_singleton, List.singleton_append, probeFrom]
    simp [h]

/-- For what is not there, its folder is looked at. -/
theorem probeFrom_of_missing {above : List Text} {name : Text}
    (h : fs.pathExists (root.join (above ++ [name])) = false) :
    probeFrom fs root (above ++ [name]).reverse = probeFrom fs root above.reverse := by
  rw [List.reverse_append, List.reverse_singleton, List.singleton_append, probeFrom]
  simp [h]

/-! ## The one way out -/

/-- The last name of a path is looked up in the folder that the names before it lead to. -/
theorem locate_concat (last : Last) (above : List Text) (name : Text) :
    fs.locate last (root.join (above ++ [name])) =
      ((fs.walk .stat Files.maxLinks (fs.startOf (root.join above)) (root.join above).parts).bind
        fun r => fs.walk last r.2 r.1 [name]).map Prod.fst := by
  unfold Files.locate
  rw [PosixPath.join_parts, ← List.append_assoc, Files.walk_append _ _ _ _ (List.cons_ne_nil _ _)]
  rfl

theorem locate_eq_ok {last : Last} {p : PosixPath} {place : Location} :
    fs.locate last p = .ok place ↔
      ∃ left, fs.walk last Files.maxLinks (fs.startOf p) p.parts = .ok (place, left) := by
  unfold Files.locate
  cases fs.walk last Files.maxLinks (fs.startOf p) p.parts with
  | error e => simp [Except.map]
  | ok r =>
    simp only [Except.map, Except.ok.injEq]
    exact ⟨fun h => ⟨r.2, by rw [← h]⟩, fun ⟨left, h⟩ => by rw [h]⟩

theorem resolve_of_locate {last : Last} (follow : last.follow = true) {p : PosixPath}
    {place : Location} (h : fs.locate last p = .ok place) : fs.resolve p = .ok place := by
  obtain ⟨left, walked⟩ := locate_eq_ok.mp h
  exact Files.real_of_walk follow walked

/-- Something is looked up in a folder. -/
theorem folder_of_walk {last : Last} {links left : Nat} {folder place : Location} {name : Text}
    {rest : List Text} (h : fs.walk last links folder (name :: rest) = .ok (place, left)) :
    fs.get? folder = some .folder := by
  rw [Files.walk_cons] at h
  split at h
  · assumption
  · cases h

theorem pathExists_of_locate {p : PosixPath} {place : Location} {node : Node}
    (h : fs.locate .stat p = .ok place) (there : fs.get? place = some node) :
    fs.pathExists p = true := by
  simp [Files.pathExists, Files.stat, h, there, Except.toOption]

/-- A link to something missing is let through, if its folder is in the root. -/
theorem resolveInRoot_of_linksOut {above : List Text} {name : Text} {folder rootPlace : Location}
    {target : PosixPath} (parts : partsOf path = some (above ++ [name]))
    (top : fs.resolve root = .ok rootPlace)
    (found : fs.locate .stat (root.join above) = .ok folder) (inside : rootPlace <+: folder)
    (link : fs.get? (folder ++ [name]) = some (.link target))
    (missing : fs.stat (root.join (above ++ [name])) = none) :
    resolveInRoot fs root path = .ok (root.join (above ++ [name])) := by
  have there : (fs.get? (folder ++ [name])).isSome = true := by
    rw [link]
    rfl
  have isFolder := Files.folder_of_isSome there
  refine resolveInRoot_eq_ok.mpr ⟨_, folder, rootPlace, parts, ?_, top, inside, rfl⟩
  rw [probeFrom_of_missing (by simp [Files.pathExists, missing]),
    probeFrom_of_pathExists (pathExists_of_locate found isFolder)]
  exact resolve_of_locate rfl found

/-- A path that is let through is opened in the root, or at a link that leads out. -/
theorem inside_or_linksOut {above : List Text} {name : Text} {probed rootPlace place : Location}
    (parts : partsOf path = some (above ++ [name]))
    (probe : fs.resolve (probeFrom fs root (above ++ [name]).reverse) = .ok probed)
    (top : fs.resolve root = .ok rootPlace) (inside : rootPlace <+: probed)
    (opened : fs.locate .openCreate (root.join (above ++ [name])) = .ok place) :
    rootPlace <+: place ∨ LinksOut fs root path := by
  cases there : fs.pathExists (root.join (above ++ [name])) with
  | true =>
    rw [probeFrom_of_pathExists there, resolve_of_locate rfl opened] at probe
    obtain rfl := Except.ok.inj probe
    exact Or.inl inside
  | false =>
    rw [locate_concat] at opened
    cases walked : fs.walk .stat Files.maxLinks (fs.startOf (root.join above))
        (root.join above).parts with
    | error e => rw [walked] at opened; cases opened
    | ok r =>
      rw [walked] at opened
      cases step : fs.walk .openCreate r.2 r.1 [name] with
      | error e => simp [Except.bind, Except.map, step] at opened
      | ok s =>
        obtain rfl : s.1 = place := by simpa [Except.bind, Except.map, step] using opened
        have found : fs.locate .stat (root.join above) = .ok r.1 := locate_eq_ok.mpr ⟨r.2, walked⟩
        have isFolder := folder_of_walk step
        rw [probeFrom_of_missing there,
          probeFrom_of_pathExists (pathExists_of_locate found isFolder),
          resolve_of_locate rfl found] at probe
        obtain rfl := Except.ok.inj probe
        have isName : IsName name := isName_of_partsOf parts name (by simp)
        obtain ⟨place, left⟩ := s
        rcases Files.walk_openCreate isName step with ⟨-, rfl⟩ | ⟨target, link⟩ | ⟨node, found', walk⟩
        · exact Or.inl (inside.trans (List.prefix_append _ _))
        · by_cases within : rootPlace <+: place
          · exact Or.inl within
          · have missing : fs.stat (root.join (above ++ [name])) = none := by
              simpa [Files.pathExists] using there
            have opens : fs.locate .openCreate (root.join (above ++ [name])) = .ok place := by
              rw [locate_concat, walked]
              simp [Except.bind, Except.map, step]
            exact Or.inr ⟨above, name, r.1, target, rootPlace, place, parts, top, found, inside, link,
              missing, opens, within⟩
        · have stat : fs.locate .stat (root.join (above ++ [name])) = .ok (r.1 ++ [name]) := by
            rw [locate_concat, walked]
            simp [Except.bind, Except.map, walk]
          rw [pathExists_of_locate stat found'] at there
          cases there

theorem confined_iff : Confined fs root path ↔ ¬ LinksOut fs root path := by
  constructor
  · rintro confined ⟨above, name, folder, target, rootPlace, place, parts, top, found, inside, link,
      missing, opened, outside⟩
    have through := resolveInRoot_of_linksOut parts top found inside link missing
    obtain ⟨rootPlace', top', within⟩ := confined _ through place opened
    rw [top] at top'
    obtain rfl := Except.ok.inj top'
    exact outside within
  · intro none candidate through place opened
    obtain ⟨parts, probed, rootPlace, partsEq, probe, top, inside, rfl⟩ :=
      resolveInRoot_eq_ok.mp through
    refine ⟨rootPlace, top, ?_⟩
    cases parts using List.reverseRecOn with
    | nil =>
      rw [PosixPath.join_nil] at opened
      rw [resolve_of_locate rfl opened] at top
      obtain rfl := Except.ok.inj top
      exact List.prefix_refl _
    | append_singleton above name =>
      exact (inside_or_linksOut partsEq probe top inside opened).resolve_right none

/-- A workspace `w` with the link `o.in` to a file `n.in` outside that is not there. -/
def dangling : Option Files :=
  (Files.bare []).putAll [([], ['w'], .folder), ([], ['s'], .folder),
    ([['w']], "o.in".toList, .link ⟨true, [['s'], "n.in".toList]⟩)]

theorem not_confined : ¬ ∀ (fs : Files) (root : PosixPath) (path : Text),
    Confined fs root path := by
  intro all
  have leadsOut : ∃ fs ∈ dangling,
      resolveInRoot fs ⟨true, [['w']]⟩ "o.in".toList = .ok ⟨true, [['w'], "o.in".toList]⟩ ∧
        fs.locate .openCreate ⟨true, [['w'], "o.in".toList]⟩ = .ok [['s'], "n.in".toList] ∧
          fs.resolve ⟨true, [['w']]⟩ = .ok [['w']] := by decide
  obtain ⟨fs, -, through, opened, top⟩ := leadsOut
  obtain ⟨rootPlace, top', inside⟩ := all fs _ _ _ through _ opened
  rw [top] at top'
  obtain rfl := Except.ok.inj top'
  revert inside
  decide

end TcadWebapp.Workspace
