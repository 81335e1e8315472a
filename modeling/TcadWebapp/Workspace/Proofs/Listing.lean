import TcadWebapp.Workspace.Proofs.Tidy

/-!
# What a workspace shows of itself

In a tidy workspace `usage` adds up all files and `tree` lists all that there is, each once.
-/

namespace TcadWebapp.Workspace

variable {root : PosixPath} {seedFiles : List (Text × List UInt8)} {lower : Text → Text}
  {quotaBytes : Int} {fs : Files} {top : Location}

/-! ## Sizes -/

/-- What an item below the root adds to the sum. -/
theorem Tidy.sizeOfItem (h : Tidy root quotaBytes fs top) {rest : Location}
    (mem : rest ∈ fs.descendants top) :
    sizeOfItem fs (root.join rest) = .ok ((fs.get? (top ++ rest)).elim 0 Files.sizeOf) := by
  obtain ⟨below, there⟩ := Files.mem_descendants.mp mem
  have isName := Files.isName_of_mem there
  have plain := h.isSymlink_join below there
  obtain ⟨node, found⟩ := Option.isSome_iff_exists.mp there
  have stat : fs.stat (root.join rest) = some node := by rw [h.stat_join isName, found]
  induction rest using List.reverseRecOn with
  | nil => exact absurd rfl below
  | append_singleton above name _ =>
    obtain ⟨-, rfl | ⟨⟨bytes, rfl⟩, source⟩⟩ :=
      h.shown above name node (by rw [List.append_assoc, found])
    · simp [Workspace.sizeOfItem, plain, Files.isFile, stat, found, Files.sizeOf]
    · simp [Workspace.sizeOfItem, plain, Files.isFile, stat, found, PosixPath.name_join, source,
        osError, Files.statSize]

/-- The sum over what is below a folder is that over all entries below it. -/
theorem sum_descendants (fs : Files) (top : Location) :
    ((fs.descendants top).map fun rest => (fs.get? (top ++ rest)).elim 0 Files.sizeOf).sum =
      totalSize fs top := by
  unfold Files.descendants totalSize Dict.total Dict.keys
  rw [List.map_map]
  have all : ∀ e ∈ fs.nodes.entries, fs.get? e.1 = some e.2 := fun e mem =>
    Dict.get?_eq_some.mpr mem
  generalize fs.nodes.entries = l at all
  induction l with
  | nil => rfl
  | cons e l ih =>
    have rest := ih fun e mem => all e (List.mem_cons_of_mem _ mem)
    rw [List.map_cons, List.map_cons, List.sum_cons, ← rest, List.filter_cons]
    show _ = (if Below top e.1 then Files.sizeOf e.2 else 0) + _
    by_cases below : Below top e.1
    · obtain ⟨names, same⟩ := below.1
      have here := all e List.mem_cons_self
      rw [if_pos below, if_pos (by simpa [Below, List.isPrefixOf_iff_prefix] using below), List.map_cons,
        List.sum_cons]
      simp [← same, same ▸ here]
    · rw [if_neg below, if_neg (by simpa [List.isPrefixOf_iff_prefix] using fun a b => below ⟨a, b⟩),
        Nat.zero_add]

theorem Tidy.usedBytes (h : Tidy root quotaBytes fs top) :
    usedBytes root seedFiles fs = (.ok (totalSize fs top), fs) := by
  have items : fs.rglob root = (fs.descendants top).map root.join := by
    simp only [Files.rglob, h.locate_root]
  have sizes : (fs.rglob root).mapM (Workspace.sizeOfItem fs) =
      .ok ((fs.descendants top).map fun rest => (fs.get? (top ++ rest)).elim 0 Files.sizeOf) := by
    rw [items, List.mapM_map]
    exact (mapM_ok_iff fun rest mem => h.sizeOfItem mem).mpr rfl
  refine (Op.bind_ok h.ensureRoot).trans ?_
  simp only [Op.check, sizes, ← sum_descendants]
  rfl

/-! ## Entries -/

/-- The parts that an entry shows are those of its location. -/
theorem parts_entryAt {parts : List Text} (isName : ∀ name ∈ parts, IsName name) (node : Node) :
    (PosixPath.parse (entryAt parts node).path).parts = parts :=
  PosixPath.parts_parse_intercalate isName

theorem Tidy.entryOf (h : Tidy root quotaBytes fs top) {names : List Text} {name : Text} {node : Node}
    (found : fs.get? (top ++ names ++ [name]) = some node) :
    entryOf root fs (root.join (names ++ [name])) = .ok (some (entryAt (names ++ [name]) node)) := by
  have there : (fs.get? (top ++ (names ++ [name]))).isSome = true := by
    rw [← List.append_assoc, found]
    rfl
  have stat : fs.stat (root.join (names ++ [name])) = some node := by
    rw [h.stat_join (Files.isName_of_mem there), ← List.append_assoc, found]
  have plain := h.isSymlink_join (by simp) there
  obtain ⟨visible, kind⟩ := h.shown names name node found
  have isBelow : root.join (names ++ [name]) ≠ root := by
    intro same
    have parts := congrArg PosixPath.parts same
    simp at parts
  have relative : relativeToRoot root (root.join (names ++ [name])) =
      .ok (['/'].intercalate (names ++ [name])) := by
    rw [relativeToRoot, if_neg isBelow, if_pos ⟨rfl, List.prefix_append _ _⟩]
    simp
  simp only [Workspace.entryOf, plain, PosixPath.name_join, if_neg visible, relative]
  rcases kind with rfl | ⟨⟨bytes, rfl⟩, source⟩
  · simp [Files.isDir, stat, bind, Except.bind, entryAt, Files.sizeOf]
  · simp [Files.isDir, stat, source, bind, Except.bind, entryAt, Files.sizeOf, osError,
      Files.statSize]

/-- The entry under a name in a folder. -/
def entryIn (fs : Files) (top : Location) (names : List Text) (name : Text) : Entry :=
  entryAt (names ++ [name]) ((fs.get? (top ++ names ++ [name])).getD .folder)

theorem Tidy.entries (h : Tidy root quotaBytes fs top) {names : List Text}
    (isFolder : fs.get? (top ++ names) = some .folder) :
    entries root fs (root.join names) =
      .ok ((fs.children (top ++ names)).map (entryIn fs top names)) := by
  have there : (fs.get? (top ++ names)).isSome = true := by
    rw [isFolder]
    rfl
  have located : fs.locate .stat (root.join names) = .ok (top ++ names) := by
    by_cases none : names = []
    · subst none
      rw [PosixPath.join_nil, List.append_nil, h.locate_root]
    · exact h.locate_of_isSome .stat none there
  have each : ∀ name ∈ fs.children (top ++ names),
      Workspace.entryOf root fs ((root.join names).join [name]) =
        .ok (some (entryIn fs top names name)) := by
    intro name mem
    obtain ⟨node, found⟩ := Option.isSome_iff_exists.mp (Files.mem_children.mp mem)
    rw [PosixPath.join_join, h.entryOf found, entryIn, found]
    rfl
  have all := (mapM_ok_iff each).mpr rfl
  simp only [Workspace.entries, Files.listdir, located, isFolder, if_true, osError, bind, Except.bind,
    all]
  simp [List.reduceOption]

theorem mem_sorted {entry : Entry} {l : List Entry} : entry ∈ sorted lower l ↔ entry ∈ l :=
  (List.mergeSort_perm l _).mem_iff

theorem nodup_sorted {l : List Entry} (h : l.Nodup) : (sorted lower l).Nodup :=
  (List.mergeSort_perm l _).nodup_iff.mpr h

/-! ## The tree -/

/-- Two entries of locations show them apart. -/
theorem entryAt_inj {parts parts' : List Text} {node node' : Node}
    (isName : ∀ name ∈ parts, IsName name) (isName' : ∀ name ∈ parts', IsName name)
    (same : (entryAt parts node).path = (entryAt parts' node').path) : parts = parts' := by
  rw [← parts_entryAt isName node, same, parts_entryAt isName' node']

/-- The entries of what is in a folder and below it, each once. -/
def Lists (fs : Files) (top : Location) (names : List Text) (found : List Entry) : Prop :=
  found.Nodup ∧ ∀ entry, entry ∈ found ↔
    ∃ parts node, parts ≠ [] ∧ fs.get? (top ++ names ++ parts) = some node ∧
      entry = entryAt (names ++ parts) node

/-- What `walk` finds for one entry of a folder: the entry, and what is below it. -/
structure ListsUnder (fs : Files) (top : Location) (names : List Text) (name : Text)
    (found : List Entry) : Prop where
  nodup : found.Nodup
  mem : ∀ entry, entry ∈ found ↔
    ∃ rest node, fs.get? (top ++ names ++ name :: rest) = some node ∧
      entry = entryAt (names ++ name :: rest) node

theorem isName_of_found {names parts : List Text} {node : Node}
    (found : fs.get? (top ++ names ++ parts) = some node) : ∀ name ∈ names ++ parts, IsName name := by
  have there : (fs.get? (top ++ (names ++ parts))).isSome = true := by
    rw [← List.append_assoc, found]
    rfl
  exact Files.isName_of_mem there

/-- A file has nothing below it. -/
theorem listsUnder_file {names : List Text} {name : Text} {node : Node}
    (found : fs.get? (top ++ names ++ [name]) = some node) (file : node ≠ .folder) :
    ListsUnder fs top names name [entryIn fs top names name] := by
  have entry : entryIn fs top names name = entryAt (names ++ [name]) node := by
    rw [entryIn, found]
    rfl
  refine ⟨List.nodup_singleton _, fun x => ?_⟩
  rw [List.mem_singleton, entry]
  constructor
  · rintro rfl
    exact ⟨[], node, found, rfl⟩
  · rintro ⟨rest, node', found', rfl⟩
    cases rest with
    | nil =>
      rw [found] at found'
      rw [Option.some.inj found']
    | cons below rest =>
      have folder : fs.get? (top ++ names ++ [name]) = some .folder := by
        refine Files.folder_of_append (List.cons_ne_nil below rest) ?_
        rw [List.append_assoc _ [name], List.singleton_append, found']
        rfl
      rw [found] at folder
      exact absurd (Option.some.inj folder) file

/-- A folder, and what is listed of it. -/
theorem listsUnder_folder {names : List Text} {name : Text} {below : List Entry}
    (folder : fs.get? (top ++ names ++ [name]) = some .folder)
    (lists : Lists fs top (names ++ [name]) below) :
    ListsUnder fs top names name (entryIn fs top names name :: below) := by
  have entry : entryIn fs top names name = entryAt (names ++ [name]) .folder := by
    rw [entryIn, folder]
    rfl
  have assoc : ∀ rest, top ++ (names ++ [name]) ++ rest = top ++ names ++ name :: rest := by simp
  constructor
  · refine List.nodup_cons.mpr ⟨fun mem => ?_, lists.1⟩
    obtain ⟨parts, node, some, found, same⟩ := (lists.2 _).mp mem
    rw [entry] at same
    have parts := entryAt_inj (isName_of_found folder) (isName_of_found found)
      (congrArg Entry.path same)
    exact some (by simpa using parts)
  · intro x
    rw [List.mem_cons, entry, lists.2]
    constructor
    · rintro (rfl | ⟨parts, node, -, found, rfl⟩)
      · exact ⟨[], .folder, folder, rfl⟩
      · exact ⟨parts, node, by rw [← assoc, found], by simp⟩
    · rintro ⟨rest, node, found, rfl⟩
      cases rest with
      | nil =>
        rw [folder] at found
        rw [← Option.some.inj found]
        exact Or.inl rfl
      | cons first rest =>
        exact Or.inr ⟨first :: rest, node, List.cons_ne_nil _ _, by rw [assoc, found], by simp⟩

/-- The entries of a folder, each with what is below it. -/
theorem lists_of_listsUnder {names : List Text} {here : List Entry} {below : Entry → List Entry}
    (nodup : here.Nodup)
    (mem : ∀ entry, entry ∈ here ↔
      ∃ name ∈ fs.children (top ++ names), entry = entryIn fs top names name)
    (each : ∀ name ∈ fs.children (top ++ names),
      ListsUnder fs top names name (below (entryIn fs top names name))) :
    Lists fs top names (here.map below).flatten := by
  rw [← List.flatMap_def]
  constructor
  · refine List.nodup_flatMap.mpr ⟨?_, ?_⟩
    · intro entry hentry
      obtain ⟨name, child, rfl⟩ := (mem entry).mp hentry
      exact (each name child).nodup
    · refine nodup.imp_of_mem fun {entry entry'} hentry hentry' apart x hx hx' => ?_
      obtain ⟨name, child, rfl⟩ := (mem entry).mp hentry
      obtain ⟨name', child', rfl⟩ := (mem entry').mp hentry'
      obtain ⟨rest, node, found, rfl⟩ := ((each name child).mem x).mp hx
      obtain ⟨rest', node', found', same⟩ := ((each name' child').mem _).mp hx'
      have parts := entryAt_inj (isName_of_found found) (isName_of_found found')
        (congrArg Entry.path same)
      have names := List.append_cancel_left parts
      rw [List.cons.injEq] at names
      exact apart (by rw [names.1])
  · intro x
    rw [List.mem_flatMap]
    constructor
    · rintro ⟨entry, hentry, hx⟩
      obtain ⟨name, child, rfl⟩ := (mem entry).mp hentry
      obtain ⟨rest, node, found, rfl⟩ := ((each name child).mem x).mp hx
      exact ⟨name :: rest, node, List.cons_ne_nil _ _, found, rfl⟩
    · rintro ⟨parts, node, some, found, rfl⟩
      cases parts with
      | nil => exact absurd rfl some
      | cons name rest =>
        have child : name ∈ fs.children (top ++ names) := by
          have there : (fs.get? (top ++ names ++ [name] ++ rest)).isSome = true := by
            rw [List.append_assoc _ [name], List.singleton_append, found]
            rfl
          exact Files.mem_children.mpr (Files.isSome_of_append there)
        exact ⟨_, (mem _).mpr ⟨name, child, rfl⟩,
          ((each name child).mem _).mpr ⟨rest, node, found, rfl⟩⟩

/-- What one call of `walk` finds below an entry, where it returns. -/
def foundBelow (root : PosixPath) (lower : Text → Text) (fs : Files) (deep : Nat) (entry : Entry) :
    List Entry :=
  if entry.isDir then
    match walkTree root lower fs deep (root.join (PosixPath.parse entry.path).parts) with
    | .ok below => entry :: below
    | .error _ => [entry]
  else [entry]

theorem Tidy.walkTree (h : Tidy root quotaBytes fs top) {deep : Nat} {names : List Text}
    (isFolder : fs.get? (top ++ names) = some .folder)
    (deepEnough : fs.depth < (top ++ names).length + deep) :
    ∃ found, walkTree root lower fs deep (root.join names) = .ok found ∧
      Lists fs top names found := by
  induction deep generalizing names with
  | zero =>
    have there : (fs.get? (top ++ names)).isSome = true := by
      rw [isFolder]
      rfl
    have := Files.length_le_depth there
    omega
  | succ deep ih =>
    let here := sorted lower ((fs.children (top ++ names)).map (entryIn fs top names))
    have mem : ∀ entry, entry ∈ here ↔
        ∃ name ∈ fs.children (top ++ names), entry = entryIn fs top names name := by
      intro entry
      rw [mem_sorted, List.mem_map]
      simp only [eq_comm]
    have each : ∀ name ∈ fs.children (top ++ names),
        ListsUnder fs top names name (foundBelow root lower fs deep (entryIn fs top names name)) ∧
        (if (entryIn fs top names name).isDir then do
            let below ← Workspace.walkTree root lower fs deep
              (root.join (PosixPath.parse (entryIn fs top names name).path).parts)
            Except.ok (entryIn fs top names name :: below)
          else .ok [entryIn fs top names name]) =
          .ok (foundBelow root lower fs deep (entryIn fs top names name)) := by
      intro name child
      obtain ⟨node, found⟩ := Option.isSome_iff_exists.mp (Files.mem_children.mp child)
      have entry : entryIn fs top names name = entryAt (names ++ [name]) node := by
        rw [entryIn, found]
        rfl
      have isName := isName_of_found found
      by_cases folder : node = .folder
      · subst folder
        have inner : fs.get? (top ++ (names ++ [name])) = some .folder := by
          rw [← List.append_assoc, found]
        have deepEnough' : fs.depth < (top ++ (names ++ [name])).length + deep := by
          simp only [List.length_append, List.length_singleton] at deepEnough ⊢
          omega
        obtain ⟨below, walked, lists⟩ := ih inner deepEnough'
        have isDir : (entryIn fs top names name).isDir = true := by rw [entry]; rfl
        have parts : (PosixPath.parse (entryIn fs top names name).path).parts = names ++ [name] := by
          rw [entry, parts_entryAt isName]
        simp only [foundBelow, isDir, if_true, parts, walked]
        exact ⟨listsUnder_folder found lists, rfl⟩
      · have isDir : (entryIn fs top names name).isDir = false := by
          rw [entry]
          exact decide_eq_false folder
        simp only [foundBelow, isDir]
        exact ⟨listsUnder_file found folder, rfl⟩
    have nodup : here.Nodup := by
      refine nodup_sorted (List.Nodup.map_on ?_ (fs.nodup_children _))
      intro name child name' child' same
      obtain ⟨node, found⟩ := Option.isSome_iff_exists.mp (Files.mem_children.mp child)
      obtain ⟨node', found'⟩ := Option.isSome_iff_exists.mp (Files.mem_children.mp child')
      rw [entryIn, entryIn, found, found'] at same
      have parts := entryAt_inj (isName_of_found found) (isName_of_found found')
        (congrArg Entry.path same)
      simpa using parts
    let body : Entry → Except Error (List Entry) := fun entry =>
      if entry.isDir then do
        let below ← Workspace.walkTree root lower fs deep
          (root.join (PosixPath.parse entry.path).parts)
        .ok (entry :: below)
      else .ok [entry]
    have all : here.mapM body = .ok (here.map (foundBelow root lower fs deep)) := by
      refine (mapM_ok_iff fun entry hentry => ?_).mpr rfl
      obtain ⟨name, child, rfl⟩ := (mem entry).mp hentry
      exact (each name child).2
    refine ⟨(here.map (foundBelow root lower fs deep)).flatten, ?_,
      lists_of_listsUnder nodup mem fun name child => (each name child).1⟩
    rw [Workspace.walkTree, h.entries isFolder]
    show (here.mapM body >>= fun found => Except.ok found.flatten) = _
    rw [all]
    rfl

theorem Tidy.tree (h : Tidy root quotaBytes fs top) :
    ∃ found, tree root seedFiles lower fs = (.ok found, fs) ∧ Lists fs top [] found := by
  have isFolder : fs.get? (top ++ []) = some .folder := by rw [List.append_nil, h.folder]
  obtain ⟨found, walked, lists⟩ : ∃ found,
      Workspace.walkTree root lower fs (fs.depth + 1) (root.join []) = .ok found ∧
        Lists fs top [] found := h.walkTree isFolder (by rw [List.append_nil]; omega)
  refine ⟨found, ?_, lists⟩
  refine (Op.bind_ok h.ensureRoot).trans ?_
  rw [PosixPath.join_nil] at walked
  simp only [Op.check, walked]

end TcadWebapp.Workspace
