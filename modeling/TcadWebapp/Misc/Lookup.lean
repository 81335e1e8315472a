import TcadWebapp.Misc.Files

/-!
# Following a path

How a system call finds what a path means: name by name from the top or from the working folder,
on through the target of each symbolic link; and the calls of `os` and `pathlib` that do so. `real`
is the other way to read a path, that of `os.path.realpath`, which goes on where nothing is.
-/

namespace TcadWebapp

inductive Errno where
  | noEntry
  | notFolder
  | isFolder
  | alreadyExists
  | loop
  | invalid
  deriving DecidableEq, Repr

/-- What is done about the last name of a path. -/
structure Last where
  /-- If it is a link, it is followed. -/
  follow : Bool
  /-- It need not be there. -/
  create : Bool
  deriving DecidableEq, Repr

namespace Last

/-- `stat`. -/
def stat : Last := ⟨true, false⟩

/-- `lstat`, `unlink`. -/
def entry : Last := ⟨false, false⟩

/-- `open` with `O_CREAT`. -/
def openCreate : Last := ⟨true, true⟩

/-- `mkdir`, `rename`. -/
def newEntry : Last := ⟨false, true⟩

end Last

namespace Files

variable (fs : Files)

/-- The folder above; that of the top is the top. -/
def upFrom (place : Location) : Location := place.dropLast

/-- The names of a path from `here` on: where they lead, and how many links may still be followed.
`onward` goes on with what a link stands for. -/
def walkFrom (last : Last) (links : Nat)
    (onward : Location → List Text → Except Errno (Location × Nat)) :
    Location → List Text → Except Errno (Location × Nat)
  | here, [] => .ok (here, links)
  | here, name :: rest =>
    match fs.get? here with
    | some .folder =>
      if name = ['.'] then walkFrom last links onward here rest
      else if name = ['.', '.'] then walkFrom last links onward (upFrom here) rest
      else
        match fs.get? (here ++ [name]) with
        | none => if last.create ∧ rest = [] then .ok (here ++ [name], links) else .error .noEntry
        | some (.link target) =>
          if ¬ last.follow ∧ rest = [] then .ok (here ++ [name], links)
          else onward (if target.absolute then [] else here) (target.parts ++ rest)
        | some _ => walkFrom last links onward (here ++ [name]) rest
    | _ => .error .notFolder

/-- The names of a path from `here` on, through `links` links at most. -/
def walk (last : Last) : Nat → Location → List Text → Except Errno (Location × Nat)
  | 0 => fs.walkFrom last 0 fun _ _ => .error .loop
  | links + 1 => fs.walkFrom last (links + 1) (walk last links)

/-- `MAXSYMLINKS`. -/
def maxLinks : Nat := 40

/-- Where a path begins. -/
def startOf (path : PosixPath) : Location := if path.absolute then [] else fs.cwd

/-- The location that a path means to a system call. -/
def locate (last : Last) (path : PosixPath) : Except Errno Location :=
  (fs.walk last maxLinks (fs.startOf path) path.parts).map Prod.fst

/-- `os.stat(path)`. -/
def stat (path : PosixPath) : Option Node := (fs.locate .stat path).toOption.bind fs.get?

/-- `os.lstat(path)`. -/
def lstat (path : PosixPath) : Option Node := (fs.locate .entry path).toOption.bind fs.get?

/-- `path.exists()`. -/
def pathExists (path : PosixPath) : Bool := (fs.stat path).isSome

/-- `path.is_dir()`. -/
def isDir (path : PosixPath) : Bool := fs.stat path = some .folder

/-- The size of a file. -/
def sizeOf : Node → Nat
  | .file bytes => bytes.length
  | _ => 0

/-- `path.is_file()`. -/
def isFile (path : PosixPath) : Bool :=
  match fs.stat path with
  | some (.file _) => true
  | _ => false

/-- `path.is_symlink()`. -/
def isSymlink (path : PosixPath) : Bool :=
  match fs.lstat path with
  | some (.link _) => true
  | _ => false

/-- The parts of a path from `here` on, as `realpath` reads them. -/
def realFrom (onward : Location → List Text → Except Errno Location) :
    Location → List Text → Except Errno Location
  | here, [] => .ok here
  | here, name :: rest =>
    if name = ['.'] then realFrom onward here rest
    else if name = ['.', '.'] then realFrom onward (upFrom here) rest
    else
      match fs.get? (here ++ [name]) with
      | some (.link target) => onward (if target.absolute then [] else here) (target.parts ++ rest)
      | _ => realFrom onward (here ++ [name]) rest

def real : Nat → Location → List Text → Except Errno Location
  | 0 => fs.realFrom fun _ _ => .error .loop
  | links + 1 => fs.realFrom (real links)

/-- `path.resolve()`: the links are followed as far as there is something, the rest is kept; a loop
raises. -/
def resolve (path : PosixPath) : Except Errno Location :=
  fs.real maxLinks (fs.startOf path) path.parts

/-! ## System calls -/

/-- A location as a folder and a name in it. -/
def nameAt (place : Location) : Option (Location × Text) :=
  place.getLast?.map fun name => (place.dropLast, name)

/-- What a call makes of the folder and the name that it was to change. -/
def change (path : PosixPath) (last : Last)
    (act : Location → Text → Except Errno Files) : Except Errno Files :=
  match fs.locate last path with
  | .error e => .error e
  | .ok place =>
    match nameAt place with
    | none => .error .invalid
    | some (folder, name) => act folder name

/-- `path.write_bytes(bytes)`. -/
def writeBytes (path : PosixPath) (bytes : List UInt8) : Except Errno Files :=
  fs.change path .openCreate fun folder name =>
    match fs.put folder name (.file bytes) with
    | none => .error .isFolder
    | some fs' => .ok fs'

/-- `os.mkdir(path)`. -/
def mkdir (path : PosixPath) : Except Errno Files :=
  match fs.locate .newEntry path with
  | .error e => .error e
  | .ok place =>
    if (fs.get? place).isSome then .error .alreadyExists
    else
      match nameAt place with
      | none => .error .invalid
      | some (folder, name) =>
        match fs.put folder name .folder with
        | none => .error .invalid
        | some fs' => .ok fs'

/-- `path.mkdir(parents=True, exist_ok=...)`, on the parts in reverse. -/
def mkdirParents (absolute existOk : Bool) : List Text → Files → Except Errno Unit × Files
  | parts, fs =>
    match fs.mkdir ⟨absolute, parts.reverse⟩ with
    | .ok fs' => (.ok (), fs')
    | .error .noEntry =>
      match parts with
      | [] => (.error .noEntry, fs)
      | name :: above =>
        match mkdirParents absolute true above fs with
        | (.error e, fs') => (.error e, fs')
        | (.ok (), fs') =>
          match fs'.mkdir ⟨absolute, (name :: above).reverse⟩ with
          | .ok fs'' => (.ok (), fs'')
          | .error e =>
            if existOk ∧ fs'.isDir ⟨absolute, (name :: above).reverse⟩ ∧ e ≠ .noEntry then
              (.ok (), fs')
            else (.error e, fs')
    | .error e =>
      if existOk ∧ fs.isDir ⟨absolute, parts.reverse⟩ then (.ok (), fs) else (.error e, fs)

/-- `source.rename(target)`; a folder in its place is not replaced. -/
def rename (source target : PosixPath) : Except Errno Files :=
  match fs.locate .entry source with
  | .error e => .error e
  | .ok old =>
    fs.change target .newEntry fun folder name =>
      let new := folder ++ [name]
      let room : Except Errno Files :=
        match fs.get? new with
        | none => .ok fs
        | some .folder => .error .alreadyExists
        | some _ =>
          if fs.get? old = some .folder then .error .notFolder
          else
            match fs.remove new with
            | none => .error .invalid
            | some fs' => .ok fs'
      match room with
      | .error e => .error e
      | .ok fs' =>
        match fs'.move old folder name with
        | none => .error .invalid
        | some fs'' => .ok fs''

/-- `shutil.rmtree(path)`; a link is refused. -/
def rmtree (path : PosixPath) : Except Errno Files :=
  if fs.isSymlink path then .error .invalid
  else
    match fs.locate .entry path with
    | .error e => .error e
    | .ok place =>
      match fs.remove place with
      | none => .error .invalid
      | some fs' => .ok fs'

/-- `path.unlink()`. -/
def unlink (path : PosixPath) : Except Errno Files :=
  match fs.locate .entry path with
  | .error e => .error e
  | .ok place =>
    if fs.get? place = some .folder then .error .isFolder
    else
      match fs.remove place with
      | none => .error .invalid
      | some fs' => .ok fs'

/-- `path.iterdir()`, by the names. -/
def listdir (path : PosixPath) : Except Errno (List Text) :=
  match fs.locate .stat path with
  | .error e => .error e
  | .ok place => if fs.get? place = some .folder then .ok (fs.children place) else .error .notFolder

/-- `path.rglob("*")`, which does not go through links. -/
def rglob (path : PosixPath) : List PosixPath :=
  match fs.locate .stat path with
  | .error _ => []
  | .ok place => (fs.descendants place).map path.join

/-- `path.stat().st_size` of a file. -/
def statSize (path : PosixPath) : Except Errno Nat :=
  match fs.stat path with
  | none => .error .noEntry
  | some node => .ok (sizeOf node)

/-! ## Rules -/

variable {fs} {last : Last}

@[simp] theorem walk_nil (links : Nat) (here : Location) :
    fs.walk last links here [] = .ok (here, links) := by
  cases links <;> rfl

theorem walk_cons (links : Nat) (here : Location) (name : Text) (rest : List Text) :
    fs.walk last links here (name :: rest) =
      match fs.get? here with
      | some .folder =>
        if name = ['.'] then fs.walk last links here rest
        else if name = ['.', '.'] then fs.walk last links (upFrom here) rest
        else
          match fs.get? (here ++ [name]) with
          | none =>
            if last.create ∧ rest = [] then .ok (here ++ [name], links) else .error .noEntry
          | some (.link target) =>
            if ¬ last.follow ∧ rest = [] then .ok (here ++ [name], links)
            else
              match links with
              | 0 => .error .loop
              | links + 1 =>
                fs.walk last links (if target.absolute then [] else here) (target.parts ++ rest)
          | some _ => fs.walk last links (here ++ [name]) rest
      | _ => .error .notFolder := by
  cases links <;> rfl

/-- A path is followed part by part: its first part as by `stat`. -/
theorem walk_append (links : Nat) (here : Location) (above rest : List Text) (more : rest ≠ []) :
    fs.walk last links here (above ++ rest) =
      (fs.walk .stat links here above).bind fun r => fs.walk last r.2 r.1 rest := by
  induction links using Nat.strong_induction_on generalizing here above with
  | _ links outer =>
    induction above generalizing here with
    | nil => rw [walk_nil]; rfl
    | cons name above ih =>
      have open' : above ++ rest ≠ [] := by simp [more]
      simp only [List.cons_append, walk_cons, open', and_false, if_false, ih, Last.stat]
      split
      · split
        · rfl
        · split
          · rfl
          · split
            · rfl
            · -- a link: what it stands for comes before the rest
              cases links with
              | zero => rfl
              | succ links =>
                simp only [← List.append_assoc, outer links (Nat.lt_succ_self links)]
                rfl
            · rfl
      · rfl

@[simp] theorem real_nil (links : Nat) (here : Location) : fs.real links here [] = .ok here := by
  cases links <;> rfl

theorem real_cons (links : Nat) (here : Location) (name : Text) (rest : List Text) :
    fs.real links here (name :: rest) =
      if name = ['.'] then fs.real links here rest
      else if name = ['.', '.'] then fs.real links (upFrom here) rest
      else
        match fs.get? (here ++ [name]) with
        | some (.link target) =>
          match links with
          | 0 => .error .loop
          | links + 1 =>
            fs.real links (if target.absolute then [] else here) (target.parts ++ rest)
        | _ => fs.real links (here ++ [name]) rest := by
  cases links <;> rfl

/-- Where a system call ends up that follows all links, `realpath` does. -/
theorem real_of_walk (follow : last.follow = true) {links left : Nat} {here place : Location}
    {names : List Text} (h : fs.walk last links here names = .ok (place, left)) :
    fs.real links here names = .ok place := by
  induction links using Nat.strong_induction_on generalizing here names with
  | _ links outer =>
    induction names generalizing here with
    | nil =>
      rw [walk_nil] at h
      cases h
      exact real_nil _ _
    | cons name rest ih =>
      rw [walk_cons] at h
      rw [real_cons]
      split at h
      · split at h
        · rename_i dot
          rw [if_pos dot, ih h]
        · rename_i dot
          rw [if_neg dot]
          split at h
          · rename_i dots
            rw [if_pos dots, ih h]
          · rename_i dots
            rw [if_neg dots]
            split at h
            · rename_i none
              rw [none]
              split at h
              · -- nothing is there, and nothing is left of the path
                rename_i new
                cases h
                rw [new.2]
                exact real_nil _ _
              · cases h
            · rename_i target link
              rw [link]
              rw [if_neg fun no => no.1 follow] at h
              cases links with
              | zero => cases h
              | succ links => exact outer links (Nat.lt_succ_self links) h
            · rename_i node other found
              rw [found]
              cases node with
              | link target => exact absurd rfl (other target)
              | folder => exact ih h
              | file bytes => exact ih h
      · cases h

theorem isSome_upFrom {here : Location} (h : fs.get? here = some .folder) :
    (fs.get? (upFrom here)).isSome = true := by
  unfold upFrom
  induction here using List.reverseRecOn with
  | nil => rw [List.dropLast_nil, h]; rfl
  | append_singleton above name _ =>
    have there : (fs.get? (above ++ [name])).isSome = true := by
      rw [h]
      rfl
    rw [List.dropLast_concat, folder_of_isSome there]
    rfl

/-- Where a path leads that need be there, something is. -/
theorem isSome_of_walk (need : last.create = false) {links left : Nat} {here place : Location}
    {names : List Text} (h : fs.walk last links here names = .ok (place, left)) :
    (names = [] ∧ place = here) ∨ (fs.get? place).isSome = true := by
  induction links using Nat.strong_induction_on generalizing here names with
  | _ links outer =>
    induction names generalizing here with
    | nil =>
      rw [walk_nil] at h
      cases h
      exact Or.inl ⟨rfl, rfl⟩
    | cons name rest ih =>
      refine Or.inr ?_
      rw [walk_cons] at h
      split at h
      · rename_i isFolder
        split at h
        · rcases ih h with ⟨-, rfl⟩ | there
          · rw [isFolder]; rfl
          · exact there
        · split at h
          · rcases ih h with ⟨-, rfl⟩ | there
            · exact isSome_upFrom isFolder
            · exact there
          · split at h
            · rw [if_neg (by simp [need])] at h
              cases h
            · rename_i target link
              split at h
              · cases h
                rw [link]; rfl
              · cases links with
                | zero => cases h
                | succ links =>
                  rcases outer links (Nat.lt_succ_self links) h with ⟨-, rfl⟩ | there
                  · split
                    · rw [fs.get?_top]; rfl
                    · rw [isFolder]; rfl
                  · exact there
            · rename_i node other found
              rcases ih h with ⟨-, rfl⟩ | there
              · rw [found]; rfl
              · exact there
      · cases h

/-- What is found that is not a link is found with links followed, too. -/
theorem walk_stat_of_entry {links left : Nat} {here place : Location} {names : List Text}
    (h : fs.walk .entry links here names = .ok (place, left))
    (plain : ∀ target, fs.get? place ≠ some (.link target)) :
    fs.walk .stat links here names = .ok (place, left) := by
  induction links using Nat.strong_induction_on generalizing here names with
  | _ links outer =>
    induction names generalizing here with
    | nil =>
      rw [walk_nil] at h ⊢
      exact h
    | cons name rest ih =>
      rw [walk_cons] at h ⊢
      split at h
      · split at h
        · rename_i dot
          rw [if_pos dot]
          exact ih h
        · rename_i dot
          rw [if_neg dot]
          split at h
          · rename_i dots
            rw [if_pos dots]
            exact ih h
          · rename_i dots
            rw [if_neg dots]
            split at h
            · cases h
            · rename_i target link
              split at h
              · cases h
                exact absurd link (plain target)
              · rw [if_neg (by simp [Last.stat])]
                cases links with
                | zero => cases h
                | succ links => exact outer links (Nat.lt_succ_self links) h
            · rename_i node other found
              cases node with
              | link target => exact absurd rfl (other target)
              | folder => exact ih h
              | file bytes => exact ih h
      · cases h

/-- What is opened under a name: something new, the end of a link, or what is there. -/
theorem walk_openCreate {links left : Nat} {folder place : Location} {name : Text}
    (isName : IsName name) (h : fs.walk .openCreate links folder [name] = .ok (place, left)) :
    (fs.get? (folder ++ [name]) = none ∧ place = folder ++ [name]) ∨
      (∃ target, fs.get? (folder ++ [name]) = some (.link target)) ∨
      ∃ node, fs.get? (folder ++ [name]) = some node ∧
        fs.walk .stat links folder [name] = .ok (folder ++ [name], left) := by
  rw [walk_cons] at h
  split at h
  · rename_i isFolder
    rw [if_neg isName.2.1, if_neg isName.2.2.1] at h
    split at h
    · rename_i none
      cases h
      exact Or.inl ⟨none, rfl⟩
    · rename_i target link
      exact Or.inr (Or.inl ⟨target, link⟩)
    · rename_i node other found
      refine Or.inr (Or.inr ⟨node, found, ?_⟩)
      rw [walk_nil] at h
      cases h
      rw [walk_cons, isFolder]
      simp only [if_neg isName.2.1, if_neg isName.2.2.1, found]
      cases node with
      | link target => exact absurd rfl (other target)
      | folder => exact walk_nil _ _
      | file bytes => exact walk_nil _ _
  · cases h

/-! ## Where there are no links -/

/-- Neither at a location nor below it is a link. -/
def NoLinks (fs : Files) (top : Location) : Prop :=
  ∀ place, top <+: place → ∀ target, fs.get? place ≠ some (.link target)

theorem NoLinks.append {top : Location} (h : fs.NoLinks top) (names : List Text) :
    fs.NoLinks (top ++ names) :=
  fun place below => h place ((List.prefix_append _ _).trans below)

/-- What is there is found by its names. -/
theorem walk_of_isSome (links : Nat) {here : Location} {names : List Text} (plain : fs.NoLinks here)
    (there : (fs.get? (here ++ names)).isSome = true) :
    fs.walk last links here names = .ok (here ++ names, links) := by
  induction names generalizing here with
  | nil => rw [walk_nil, List.append_nil]
  | cons name rest ih =>
    have isFolder := folder_of_append (List.cons_ne_nil _ _) there
    have isName := isName_of_mem there name List.mem_cons_self
    rw [show here ++ name :: rest = (here ++ [name]) ++ rest by simp] at there ⊢
    have next := ih (plain.append [name]) there
    rw [walk_cons, isFolder]
    simp only [if_neg isName.2.1, if_neg isName.2.2.1]
    cases found : fs.get? (here ++ [name]) with
    | none =>
      have := isSome_of_append there
      rw [found] at this
      cases this
    | some node =>
      cases node with
      | link target => exact absurd found (plain _ (List.prefix_append _ _) target)
      | folder => exact next
      | file bytes => exact next

/-- Names lead nowhere else. -/
theorem walk_plain {links left : Nat} {here place : Location} {names : List Text}
    (plain : fs.NoLinks here) (isName : ∀ name ∈ names, IsName name)
    (h : fs.walk last links here names = .ok (place, left)) : place = here ++ names := by
  induction names generalizing here with
  | nil =>
    rw [walk_nil] at h
    cases h
    rw [List.append_nil]
  | cons name rest ih =>
    have name' := isName name List.mem_cons_self
    have rest' := fun name mem => isName name (List.mem_cons_of_mem _ mem)
    rw [walk_cons] at h
    split at h
    · rw [if_neg name'.2.1, if_neg name'.2.2.1] at h
      split at h
      · split at h
        · rename_i new
          cases h
          rw [new.2]
        · cases h
      · rename_i target link
        exact absurd link (plain _ (List.prefix_append _ _) target)
      · rw [ih (plain.append [name]) rest' h]
        simp
    · cases h

/-- A new name in a folder that is there. -/
theorem walk_new (create : last.create = true) (links : Nat) {here : Location} {above : List Text}
    {name : Text} (plain : fs.NoLinks here) (isName : IsName name)
    (isFolder : fs.get? (here ++ above) = some .folder)
    (free : fs.get? (here ++ above ++ [name]) = none) :
    fs.walk last links here (above ++ [name]) = .ok (here ++ above ++ [name], links) := by
  rw [walk_append _ _ _ _ (List.cons_ne_nil _ _),
    walk_of_isSome links plain (by rw [isFolder]; rfl)]
  show fs.walk last links (here ++ above) [name] = _
  rw [walk_cons, isFolder]
  simp only [if_neg isName.2.1, if_neg isName.2.2.1, free, create, and_self, if_true]

/-- A path that leads to something leads, but for its last link, to something too. -/
theorem exists_walk_newEntry {links left : Nat} {here place : Location} {names : List Text}
    (begin' : (fs.get? here).isSome = true)
    (h : fs.walk .stat links here names = .ok (place, left)) :
    ∃ place' left', fs.walk .newEntry links here names = .ok (place', left') ∧
      (fs.get? place').isSome = true := by
  induction links using Nat.strong_induction_on generalizing here names with
  | _ links outer =>
    induction names generalizing here with
    | nil => exact ⟨here, links, walk_nil _ _, begin'⟩
    | cons name rest ih =>
      rw [walk_cons] at h
      split at h
      · rename_i isFolder
        simp only [walk_cons, isFolder]
        split at h
        · rename_i dot
          rw [if_pos dot]
          exact ih begin' h
        · rename_i dot
          rw [if_neg dot]
          split at h
          · rename_i dots
            rw [if_pos dots]
            exact ih (isSome_upFrom isFolder) h
          · rename_i dots
            rw [if_neg dots]
            split at h
            · rw [if_neg (by simp [Last.stat])] at h
              cases h
            · rename_i target link
              rw [if_neg (by simp [Last.stat])] at h
              by_cases last : rest = []
              · exact ⟨here ++ [name], links, by simp [Last.newEntry, last], by rw [link]; rfl⟩
              · simp only [last, and_false, if_false]
                cases links with
                | zero => cases h
                | succ links =>
                  refine outer links (Nat.lt_succ_self links) ?_ h
                  split
                  · rw [fs.get?_top]; rfl
                  · rw [isFolder]; rfl
            · rename_i node other found
              cases node with
              | link target => exact absurd rfl (other target)
              | folder => exact ih (by rw [found]; rfl) h
              | file bytes => exact ih (by rw [found]; rfl) h
      · cases h

end Files

end TcadWebapp
