import TcadWebapp.Misc.Dict
import TcadWebapp.Misc.PosixPath

/-!
# Files, folders and symbolic links

What a file system holds, by location: the names on the way down from the top. What is somewhere is
in a folder, and has a name that can be part of a path; that are fields, so the operations below
keep it.
-/

namespace TcadWebapp

/-- What is at a location. -/
inductive Node where
  | folder
  | file (bytes : List UInt8)
  | link (target : PosixPath)
  deriving DecidableEq, Repr

abbrev Location := List Text

/-- All that there is, and the working folder. -/
structure Files where
  nodes : Dict Location Node
  top : nodes.get? [] = some .folder
  nested : ∀ folder name, (nodes.get? (folder ++ [name])).isSome = true →
    nodes.get? folder = some .folder ∧ IsName name
  cwd : Location

namespace Files

def get? (fs : Files) (place : Location) : Option Node := fs.nodes.get? place

theorem get?_top (fs : Files) : fs.get? [] = some .folder := fs.top

theorem folder_of_isSome {fs : Files} {folder : Location} {name : Text}
    (h : (fs.get? (folder ++ [name])).isSome = true) : fs.get? folder = some .folder :=
  (fs.nested folder name h).1

theorem isName_of_isSome {fs : Files} {folder : Location} {name : Text}
    (h : (fs.get? (folder ++ [name])).isSome = true) : IsName name :=
  (fs.nested folder name h).2

/-- What has something below it is a folder. -/
theorem folder_of_append {fs : Files} {place rest : Location} (below : rest ≠ [])
    (h : (fs.get? (place ++ rest)).isSome = true) : fs.get? place = some .folder := by
  induction rest using List.reverseRecOn with
  | nil => exact absurd rfl below
  | append_singleton rest name ih =>
    rw [← List.append_assoc] at h
    have folder := folder_of_isSome h
    cases rest with
    | nil => simpa using folder
    | cons _ _ => exact ih (List.cons_ne_nil _ _) (by rw [folder]; rfl)

theorem isSome_of_append {fs : Files} {place rest : Location}
    (h : (fs.get? (place ++ rest)).isSome = true) : (fs.get? place).isSome = true := by
  cases rest with
  | nil => simpa using h
  | cons name rest => rw [folder_of_append (List.cons_ne_nil _ _) h]; rfl

/-- Names on the way down are names. -/
theorem isName_of_mem {fs : Files} {place rest : Location}
    (h : (fs.get? (place ++ rest)).isSome = true) : ∀ name ∈ rest, IsName name := by
  intro name mem
  obtain ⟨above, below, rfl⟩ := List.append_of_mem mem
  rw [show place ++ (above ++ name :: below) = ((place ++ above) ++ [name]) ++ below by simp] at h
  exact isName_of_isSome (isSome_of_append h)

/-- The top alone. -/
def bare (cwd : Location) : Files where
  nodes := (∅ : Dict Location Node).set [] .folder
  top := Dict.get?_set_self _ _ _
  nested := by
    intro folder name found
    rw [Dict.get?_set, if_neg (by simp), Dict.get?_empty] at found
    cases found
  cwd := cwd

/-! ## Changes -/

/-- A file, a folder or a link with a name in a folder; in place of what was there, if that was not
a folder. -/
def put (fs : Files) (folder : Location) (name : Text) (node : Node) : Option Files :=
  if h : fs.get? folder = some .folder ∧ IsName name ∧
      fs.get? (folder ++ [name]) ≠ some .folder then
    some {
      nodes := fs.nodes.set (folder ++ [name]) node
      top := by
        rw [Dict.get?_set_of_ne _ _ (by simp)]
        exact fs.top
      nested := by
        intro above below found
        rw [Dict.get?_set] at found
        by_cases here : above ++ [below] = folder ++ [name]
        · obtain ⟨rfl, same⟩ := List.append_inj' here rfl
          obtain rfl : below = name := by simpa using same
          rw [Dict.get?_set_of_ne _ _ (by simp)]
          exact ⟨h.1, h.2.1⟩
        · rw [if_neg here] at found
          obtain ⟨isFolder, isName⟩ := fs.nested above below found
          refine ⟨?_, isName⟩
          rw [Dict.get?_set, if_neg]
          · exact isFolder
          · rintro rfl
            exact h.2.2 isFolder
      cwd := fs.cwd }
  else none

theorem put_eq_some {fs fs' : Files} {folder : Location} {name : Text} {node : Node}
    (h : fs.put folder name node = some fs') :
    fs'.nodes = fs.nodes.set (folder ++ [name]) node ∧ fs'.cwd = fs.cwd := by
  unfold put at h
  split at h
  · cases h
    exact ⟨rfl, rfl⟩
  · cases h

theorem exists_put {fs : Files} {folder : Location} {name : Text} (node : Node)
    (isFolder : fs.get? folder = some .folder) (isName : IsName name)
    (free : fs.get? (folder ++ [name]) ≠ some .folder) :
    ∃ fs', fs.put folder name node = some fs' :=
  ⟨_, dif_pos ⟨isFolder, isName, free⟩⟩

theorem get?_put {fs fs' : Files} {folder : Location} {name : Text} {node : Node}
    (h : fs.put folder name node = some fs') (place : Location) :
    fs'.get? place = if place = folder ++ [name] then some node else fs.get? place := by
  rw [get?, (put_eq_some h).1, Dict.get?_set]
  rfl

/-- Files, folders and links put one after the other. -/
def putAll (fs : Files) (l : List (Location × Text × Node)) : Option Files :=
  l.foldlM (fun fs e => fs.put e.1 e.2.1 e.2.2) fs

/-- All from a place down is removed; the top stays. -/
def remove (fs : Files) (place : Location) : Option Files :=
  if h : place = [] then none
  else some {
    nodes := fs.nodes.filterKeys fun k => !place.isPrefixOf k
    top := by
      rw [Dict.get?_filterKeys, if_pos, fs.top]
      cases place with
      | nil => exact absurd rfl h
      | cons name rest => rfl
    nested := by
      intro above below found
      rw [Dict.get?_filterKeys] at found
      split at found
      · rename_i kept
        obtain ⟨isFolder, isName⟩ := fs.nested above below found
        refine ⟨?_, isName⟩
        rw [Dict.get?_filterKeys, if_pos, isFolder]
        simp only [Bool.not_eq_true', ← Bool.not_eq_true, List.isPrefixOf_iff_prefix] at kept ⊢
        exact fun pre => kept (pre.trans (List.prefix_append _ _))
      · cases found
    cwd := fs.cwd }

theorem remove_eq_some {fs fs' : Files} {place : Location} (h : fs.remove place = some fs') :
    fs'.nodes = (fs.nodes.filterKeys fun k => !place.isPrefixOf k) ∧ fs'.cwd = fs.cwd := by
  unfold remove at h
  split at h
  · cases h
  · cases h
    exact ⟨rfl, rfl⟩

theorem get?_remove {fs fs' : Files} {place : Location} (h : fs.remove place = some fs')
    (other : Location) : fs'.get? other = if place <+: other then none else fs.get? other := by
  rw [get?, (remove_eq_some h).1, Dict.get?_filterKeys]
  by_cases below : place <+: other
  · rw [if_pos below, if_neg]
    simpa [List.isPrefixOf_iff_prefix] using below
  · rw [if_neg below, if_pos]
    · rfl
    · simpa [← Bool.not_eq_true, List.isPrefixOf_iff_prefix] using below

/-- Where a place comes to if all from `source` down goes to `target`. -/
def moved (source target place : Location) : Location :=
  if source <+: place then target ++ place.drop source.length else place

theorem moved_append (source target rest : Location) :
    moved source target (source ++ rest) = target ++ rest := by
  simp [moved]

theorem moved_of_outside {source target place : Location} (h : ¬ source <+: place) :
    moved source target place = place := if_neg h

theorem moved_inj {fs : Files} {source target : Location} (free : fs.get? target = none) :
    ∀ k ∈ fs.nodes.keys, ∀ k' ∈ fs.nodes.keys,
      moved source target k = moved source target k' → k = k' := by
  have apart : ∀ rest, ∀ k' ∈ fs.nodes.keys, target ++ rest ≠ k' := by
    rintro rest _ mem rfl
    obtain ⟨v, found⟩ := Dict.mem_keys.mp mem
    have there : (fs.get? (target ++ rest)).isSome = true := by
      rw [get?, found]
      rfl
    have above := isSome_of_append there
    rw [free] at above
    cases above
  intro k hk k' hk' same
  by_cases below : source <+: k <;> by_cases below' : source <+: k'
  · obtain ⟨rest, rfl⟩ := below
    obtain ⟨rest', rfl⟩ := below'
    rw [moved_append, moved_append] at same
    rw [List.append_cancel_left same]
  · obtain ⟨rest, rfl⟩ := below
    rw [moved_append, moved_of_outside below'] at same
    exact absurd same (apart rest k' hk')
  · obtain ⟨rest', rfl⟩ := below'
    rw [moved_append, moved_of_outside below] at same
    exact absurd same.symm (apart rest' k hk)
  · rwa [moved_of_outside below, moved_of_outside below'] at same

/-- All from `source` down goes to a free name in a folder that is not part of it; the top
stays. -/
def move (fs : Files) (source folder : Location) (name : Text) : Option Files :=
  if h : source ≠ [] ∧ fs.get? folder = some .folder ∧ IsName name ∧
      fs.get? (folder ++ [name]) = none ∧ ¬ source <+: folder ++ [name] then
    some {
      nodes := fs.nodes.mapKeys (moved source (folder ++ [name])) (moved_inj h.2.2.2.1)
      top := by
        refine (Dict.get?_mapKeys _ _ _).mpr ⟨[], moved_of_outside ?_, fs.top⟩
        rw [List.prefix_nil]
        exact h.1
      nested := by
        obtain ⟨-, isFolder, isName, -, outside⟩ := h
        intro above below found
        obtain ⟨node, found⟩ := Option.isSome_iff_exists.mp found
        obtain ⟨place, comes, there⟩ := (Dict.get?_mapKeys _ _ _).mp found
        by_cases inside : source <+: place
        · obtain ⟨rest, rfl⟩ := inside
          rw [moved_append] at comes
          induction rest using List.reverseRecOn with
          | nil =>
            rw [List.append_nil] at comes
            obtain ⟨rfl, same⟩ := List.append_inj' comes rfl
            obtain rfl : name = below := by simpa using same
            refine ⟨(Dict.get?_mapKeys _ _ _).mpr ⟨folder, moved_of_outside ?_, isFolder⟩, isName⟩
            exact fun pre => outside (pre.trans (List.prefix_append _ _))
          | append_singleton rest last _ =>
            rw [← List.append_assoc] at comes there
            obtain ⟨rfl, same⟩ := List.append_inj' comes rfl
            obtain rfl : last = below := by simpa using same
            obtain ⟨isFolder', isName'⟩ := fs.nested (source ++ rest) last (by rw [there]; rfl)
            exact ⟨(Dict.get?_mapKeys _ _ _).mpr ⟨_, moved_append _ _ _, isFolder'⟩, isName'⟩
        · rw [moved_of_outside inside] at comes
          subst comes
          obtain ⟨isFolder', isName'⟩ := fs.nested above below (by rw [there]; rfl)
          refine ⟨(Dict.get?_mapKeys _ _ _).mpr ⟨above, moved_of_outside ?_, isFolder'⟩, isName'⟩
          exact fun pre => inside (pre.trans (List.prefix_append _ _))
      cwd := fs.cwd }
  else none

theorem move_eq_some {fs fs' : Files} {source folder : Location} {name : Text}
    (h : fs.move source folder name = some fs') :
    fs.get? (folder ++ [name]) = none ∧ ¬ source <+: folder ++ [name] ∧
      (∃ apart, fs'.nodes = fs.nodes.mapKeys (moved source (folder ++ [name])) apart) ∧
      fs'.cwd = fs.cwd := by
  unfold move at h
  split at h
  · rename_i ok
    cases h
    exact ⟨ok.2.2.2.1, ok.2.2.2.2, ⟨moved_inj ok.2.2.2.1, rfl⟩, rfl⟩
  · cases h

theorem exists_move {fs : Files} {source folder : Location} {name : Text} (some' : source ≠ [])
    (isFolder : fs.get? folder = some .folder) (isName : IsName name)
    (free : fs.get? (folder ++ [name]) = none) (outside : ¬ source <+: folder ++ [name]) :
    ∃ fs', fs.move source folder name = some fs' :=
  ⟨_, dif_pos ⟨some', isFolder, isName, free, outside⟩⟩

theorem get?_move {fs fs' : Files} {source folder : Location} {name : Text}
    (h : fs.move source folder name = some fs') (place : Location) (node : Node) :
    fs'.get? place = some node ↔
      ∃ place₀, moved source (folder ++ [name]) place₀ = place ∧ fs.get? place₀ = some node := by
  obtain ⟨-, -, ⟨apart, nodes⟩, -⟩ := move_eq_some h
  rw [get?, nodes]
  exact Dict.get?_mapKeys apart place node

/-! ## What a folder holds -/

/-- The name under which `place` is directly in `folder`. -/
def nameIn (folder place : Location) : Option Text :=
  if folder <+: place then
    match place.drop folder.length with
    | [name] => some name
    | _ => none
  else none

theorem nameIn_eq_some {folder place : Location} {name : Text} :
    nameIn folder place = some name ↔ place = folder ++ [name] := by
  unfold nameIn
  constructor
  · intro h
    split at h
    · rename_i pre
      obtain ⟨rest, rfl⟩ := pre
      rw [List.drop_left] at h
      split at h
      · rw [Option.some.inj h]
      · cases h
    · cases h
  · rintro rfl
    simp

/-- The names in a folder, in some order. -/
def children (fs : Files) (folder : Location) : List Text := fs.nodes.keys.filterMap (nameIn folder)

theorem mem_children {fs : Files} {folder : Location} {name : Text} :
    name ∈ fs.children folder ↔ (fs.get? (folder ++ [name])).isSome = true := by
  rw [children, List.mem_filterMap, Option.isSome_iff_exists]
  simp only [nameIn_eq_some]
  constructor
  · rintro ⟨place, mem, rfl⟩
    exact Dict.mem_keys.mp mem
  · intro found
    exact ⟨_, Dict.mem_keys.mpr found, rfl⟩

theorem nodup_children (fs : Files) (folder : Location) : (fs.children folder).Nodup := by
  refine List.Nodup.filterMap ?_ fs.nodes.nodup
  intro place place' name mem mem'
  rw [Option.mem_def, nameIn_eq_some] at mem mem'
  rw [mem, mem']

/-- What is below a folder, as the ways down from it. -/
def descendants (fs : Files) (folder : Location) : List Location :=
  (fs.nodes.keys.filter fun place => folder.isPrefixOf place ∧ place ≠ folder).map
    (List.drop folder.length)

theorem mem_descendants {fs : Files} {folder rest : Location} :
    rest ∈ fs.descendants folder ↔ rest ≠ [] ∧ (fs.get? (folder ++ rest)).isSome = true := by
  simp only [descendants, List.mem_map, List.mem_filter, decide_eq_true_eq,
    List.isPrefixOf_iff_prefix]
  constructor
  · rintro ⟨place, ⟨mem, ⟨rest, rfl⟩, below⟩, rfl⟩
    rw [List.drop_left]
    exact ⟨fun e => below (by simp [e]), Option.isSome_iff_exists.mpr (Dict.mem_keys.mp mem)⟩
  · rintro ⟨below, found⟩
    refine ⟨folder ++ rest, ⟨Dict.mem_keys.mpr (Option.isSome_iff_exists.mp found), ?_, ?_⟩, ?_⟩
    · exact List.prefix_append _ _
    · simpa using below
    · exact List.drop_left

/-- As deep as anything is. -/
def depth (fs : Files) : Nat := (fs.nodes.keys.map List.length).foldr max 0

theorem length_le_depth {fs : Files} {place : Location} (h : (fs.get? place).isSome = true) :
    place.length ≤ fs.depth := by
  have mem : place ∈ fs.nodes.keys := Dict.mem_keys.mpr (Option.isSome_iff_exists.mp h)
  unfold depth
  generalize fs.nodes.keys = keys at mem
  induction keys with
  | nil => cases mem
  | cons key keys ih =>
    rw [List.map_cons, List.foldr_cons]
    rcases List.mem_cons.mp mem with rfl | mem
    · exact le_max_left _ _
    · exact (ih mem).trans (le_max_right _ _)

end Files

end TcadWebapp
