import TcadWebapp.Workspace.Proofs.Listing

/-!
# What the operations keep

Each operation of a workspace either raises and leaves all as it was, or makes one change below the
root: it puts a name there, takes a place away or moves one. A workspace that is tidy stays tidy
under each of these.
-/

namespace TcadWebapp.Workspace

variable {root : PosixPath} {seedFiles : List (Text × List UInt8)} {lower : Text → Text}
  {quotaBytes : Int} {fs fs' : Files} {top : Location}

/-! ## Changes below the root -/

theorem below_append {names : List Text} (some : names ≠ []) : Below top (top ++ names) :=
  ⟨List.prefix_append _ _, by simpa using some⟩

/-- The root is found after a change below it. -/
theorem Tidy.leads_of_agree (h : Tidy root quotaBytes fs top) (cwd : fs'.cwd = fs.cwd)
    (agree : ∀ place, ¬ Below top place → fs'.get? place = fs.get? place) : LeadsTo fs' root top := by
  intro fs'' cwd' agree'
  refine h.leads fs'' (cwd'.trans cwd) fun place outside => ?_
  rw [agree' place outside, agree place outside]

theorem Tidy.put (h : Tidy root quotaBytes fs top) {above : List Text} {name : Text} {node : Node}
    (shown : Shown name node)
    (within : ((totalSize fs top : Int) - (fs.get? (top ++ above ++ [name])).elim 0 Files.sizeOf +
      Files.sizeOf node) ≤ quotaBytes)
    (done : fs.put (top ++ above) name node = some fs') : Tidy root quotaBytes fs' top := by
  have get := Files.get?_put done
  have below : Below top (top ++ above ++ [name]) := by
    rw [List.append_assoc]
    exact below_append (by simp)
  have agree : ∀ place, ¬ Below top place → fs'.get? place = fs.get? place := by
    intro place outside
    rw [get, if_neg]
    rintro rfl
    exact outside below
  refine ⟨?_, h.leads_of_agree (Files.put_eq_some done).2 agree, ?_, ?_⟩
  · rw [agree top fun b => b.2 rfl, h.folder]
  · intro above' name' node' found
    rw [get] at found
    split at found
    · rename_i same
      obtain ⟨-, names⟩ := List.append_inj' same rfl
      rw [← Option.some.inj found, show name' = name by simpa using names]
      exact shown
    · exact h.shown above' name' node' found
  · have sum := Dict.total_set fs.nodes
      (fun place node => if Below top place then Files.sizeOf node else 0)
      (top ++ above ++ [name]) node
    rw [← (Files.put_eq_some done).1] at sum
    simp only [if_pos below] at sum
    have size : ((fs.get? (top ++ above ++ [name])).elim 0 Files.sizeOf : Nat) + totalSize fs' top =
        totalSize fs top + Files.sizeOf node := by
      unfold totalSize
      rw [← sum, Nat.add_comm]
      rfl
    omega

theorem Tidy.remove (h : Tidy root quotaBytes fs top) {names : List Text} (some' : names ≠ [])
    (done : fs.remove (top ++ names) = some fs') : Tidy root quotaBytes fs' top := by
  have get := Files.get?_remove done
  have agree : ∀ place, ¬ Below top place → fs'.get? place = fs.get? place := by
    intro place outside
    rw [get, if_neg]
    rintro ⟨rest, rfl⟩
    rw [List.append_assoc] at outside
    exact outside (below_append (by simp [some']))
  refine ⟨?_, h.leads_of_agree (Files.remove_eq_some done).2 agree, ?_, ?_⟩
  · rw [agree top fun b => b.2 rfl, h.folder]
  · intro above name node found
    rw [get] at found
    split at found
    · cases found
    · exact h.shown above name node found
  · have less : totalSize fs' top ≤ totalSize fs top := by
      unfold totalSize
      rw [(Files.remove_eq_some done).1]
      exact Dict.total_filterKeys_le _ _ _
    have := h.within
    omega

theorem Tidy.move (h : Tidy root quotaBytes fs top) {names above : List Text} {name : Text}
    (some' : names ≠ [])
    (shown : ∀ node, fs.get? (top ++ names) = some node → Shown name node)
    (done : fs.move (top ++ names) (top ++ above) name = some fs') :
    Tidy root quotaBytes fs' top := by
  have get := Files.get?_move done
  obtain ⟨-, -, ⟨apart, nodes⟩, cwd⟩ := Files.move_eq_some done
  have target : ∀ rest, Below top (top ++ above ++ [name] ++ rest) := by
    intro rest
    rw [List.append_assoc, List.append_assoc]
    exact below_append (by simp)
  have source : ∀ rest, Below top (top ++ names ++ rest) := by
    intro rest
    rw [List.append_assoc]
    exact below_append (by simp [some'])
  have agree : ∀ place, ¬ Below top place → fs'.get? place = fs.get? place := by
    intro place outside
    ext node
    rw [get]
    constructor
    · rintro ⟨place₀, comes, found⟩
      by_cases inside : top ++ names <+: place₀
      · obtain ⟨rest, rfl⟩ := inside
        rw [Files.moved_append] at comes
        exact absurd (comes ▸ target rest) outside
      · rw [Files.moved_of_outside inside] at comes
        exact comes ▸ found
    · intro found
      refine ⟨place, Files.moved_of_outside ?_, found⟩
      rintro ⟨rest, rfl⟩
      exact outside (source rest)
  refine ⟨?_, h.leads_of_agree cwd agree, ?_, ?_⟩
  · rw [agree top fun b => b.2 rfl, h.folder]
  · intro above' name' node found
    obtain ⟨place₀, comes, found⟩ := (get _ _).mp found
    by_cases inside : top ++ names <+: place₀
    · obtain ⟨rest, rfl⟩ := inside
      rw [Files.moved_append] at comes
      induction rest using List.reverseRecOn with
      | nil =>
        rw [List.append_nil] at comes found
        obtain ⟨-, same⟩ := List.append_inj' comes rfl
        rw [← show name = name' by simpa using same]
        exact shown node found
      | append_singleton rest last _ =>
        rw [← List.append_assoc] at comes
        obtain ⟨-, same⟩ := List.append_inj' comes rfl
        rw [← show last = name' by simpa using same]
        refine h.shown (names ++ rest) last node ?_
        rw [← found]
        simp
    · rw [Files.moved_of_outside inside] at comes
      exact h.shown above' name' node (comes ▸ found)
  · have same : totalSize fs' top = totalSize fs top := by
      unfold totalSize
      rw [nodes, Dict.total_mapKeys]
      refine Dict.total_congr fun place node found => ?_
      have stays : Below top (Files.moved (top ++ names) (top ++ above ++ [name]) place) ↔
          Below top place := by
        by_cases inside : top ++ names <+: place
        · obtain ⟨rest, rfl⟩ := inside
          rw [Files.moved_append]
          exact iff_of_true (target rest) (source rest)
        · rw [Files.moved_of_outside inside]
      simp only [stays]
    rw [same]
    exact h.within

/-! ## Names -/

/-- A name that passes is visible. -/
theorem visible_of_validateName {name : Text} (h : validateName name = .ok ()) :
    name.head? ≠ some '.' := by
  unfold validateName at h
  intro hidden
  repeat' split at h
  all_goals cases h

theorem normalise_concat (kept parts : List Text) (last : Text) :
    normalise kept (parts ++ [last]) = (normalise kept parts).bind fun kept' =>
      normalise kept' [last] := by
  induction parts generalizing kept with
  | nil => rfl
  | cons part parts ih =>
    simp only [List.cons_append, normalise]
    split
    · exact ih kept
    · split
      · split
        · rfl
        · exact ih _
      · exact ih _

theorem isSourceFile_name {name : Text} (isName : IsName name) :
    isSourceFile name = decide ((PosixPath.suffixOf name).map Char.toLower = sourceSuffix) := by
  have alone : name.splitOn '/' = [name] := List.splitOn_eq_singleton isName.2.2.2
  have parsed : (PosixPath.parse name).name = name := by
    simp [PosixPath.parse, PosixPath.name, alone, isName.1, isName.2.1]
  rw [isSourceFile, parsed]

/-- A path that is checked for its suffix as a text ends at a name with that suffix. -/
theorem source_of_path {path : Text} {parts : List Text} (source : isSourceFile path = true)
    (named : partsOf path = some parts) :
    ∃ above name, parts = above ++ [name] ∧ IsName name ∧ isSourceFile name = true := by
  have isName := isName_of_partsOf named
  have suffix : (PosixPath.suffixOf (PosixPath.parse path).name).map Char.toLower = sourceSuffix := by
    simpa [isSourceFile] using source
  unfold partsOf at named
  split at named
  · cases named
  · split at named
    · cases named
    · unfold PosixPath.name at suffix
      have kept : ∀ part ∈ (PosixPath.parse path).parts, part ≠ [] ∧ part ≠ ['.'] := by
        intro part mem
        simpa using (List.mem_filter.mp mem).2
      cases split : (PosixPath.parse path).parts using List.reverseRecOn with
      | nil =>
        rw [split] at suffix
        exact absurd suffix (by decide)
      | append_singleton above last =>
        rw [split, List.getLast?_concat, Option.getD_some] at suffix
        rw [split, normalise_concat] at named
        obtain ⟨kept', -, named⟩ := Option.bind_eq_some_iff.mp named
        have lastKept := kept last (by rw [split]; simp)
        have notDots : last ≠ ['.', '.'] := by
          rintro rfl
          exact absurd suffix (by decide)
        rw [normalise, if_neg (by simp [lastKept]), if_neg notDots] at named
        obtain rfl := Option.some.inj named
        have isName' := isName last (by simp)
        exact ⟨kept', last, rfl, isName', by rw [isSourceFile_name isName', suffix]; decide⟩

/-! ## Outcomes -/

/-- The operation raises and changes nothing, or it returns and what it leaves is as `P` says. -/
def Outcome (op : Op Unit) (fs : Files) (P : Files → Prop) : Prop :=
  (∃ e, op fs = (.error e, fs)) ∨ ∃ fs', op fs = (.ok (), fs') ∧ P fs'

section Outcomes

variable {α : Type} {P : Files → Prop}

theorem Outcome.mono {op : Op Unit} {Q : Files → Prop} (h : Outcome op fs P)
    (imp : ∀ fs', P fs' → Q fs') : Outcome op fs Q := by
  rcases h with raised | ⟨fs', returned, holds⟩
  · exact Or.inl raised
  · exact Or.inr ⟨fs', returned, imp fs' holds⟩

/-- What is so after an operation that returned. -/
theorem Outcome.of_ok {op : Op Unit} (h : Outcome op fs P) {fs' : Files}
    (returned : op fs = (.ok (), fs')) : P fs' := by
  rcases h with ⟨e, raised⟩ | ⟨fs'', same, holds⟩
  · rw [returned] at raised
    cases raised
  · rw [returned] at same
    cases same
    exact holds

theorem outcome_raise (e : Error) : Outcome (Op.raise e) fs P := Or.inl ⟨e, rfl⟩

theorem outcome_bind {op : Op α} {next : α → Op Unit}
    (h : (∃ e, op fs = (.error e, fs)) ∨ ∃ a, op fs = (.ok a, fs) ∧ Outcome (next a) fs P) :
    Outcome (op >>= next) fs P := by
  rcases h with ⟨e, raised⟩ | ⟨a, returned, outcome⟩
  · exact Or.inl ⟨e, Op.bind_error raised⟩
  · unfold Outcome
    rwa [Op.bind_ok returned]

theorem outcome_look {f : Files → α} {next : α → Op Unit} (h : Outcome (next (f fs)) fs P) :
    Outcome (Op.look f >>= next) fs P := outcome_bind (Or.inr ⟨_, rfl, h⟩)

theorem outcome_check {f : Files → Except Error α} {next : α → Op Unit}
    (h : ∀ a, f fs = .ok a → Outcome (next a) fs P) : Outcome (Op.check f >>= next) fs P := by
  apply outcome_bind
  cases checked : f fs with
  | error e => exact Or.inl ⟨e, by rw [Op.check, checked]⟩
  | ok a => exact Or.inr ⟨a, by rw [Op.check, checked], h a checked⟩

/-- A condition that raises. -/
theorem outcome_ite {p : Prop} [Decidable p] {e : Error} {op : Op Unit}
    (h : ¬ p → Outcome op fs P) : Outcome (if p then Op.raise e else op) fs P := by
  split
  · exact outcome_raise e
  · rename_i no
    exact h no

theorem outcome_call {f : Files → Except Errno Files} (h : ∀ fs', f fs = .ok fs' → P fs') :
    Outcome (Op.call f) fs P := by
  cases called : f fs with
  | error e => exact Or.inl ⟨.osError e, by simp only [Op.call, called]⟩
  | ok fs' => exact Or.inr ⟨fs', by simp only [Op.call, called], h fs' called⟩

theorem Tidy.outcome_resolve (h : Tidy root quotaBytes fs top) {path : Text}
    {next : PosixPath → Op Unit}
    (ok : ∀ parts, partsOf path = some parts → Outcome (next (root.join parts)) fs P) :
    Outcome (resolve root seedFiles path >>= next) fs P := by
  apply outcome_bind
  have resolves : resolve root seedFiles path fs = (Workspace.resolveInRoot fs root path, fs) :=
    (Op.bind_ok h.ensureRoot).trans rfl
  rw [resolves, h.resolveInRoot]
  cases parts : partsOf path with
  | none => exact Or.inl ⟨_, rfl⟩
  | some parts' => exact Or.inr ⟨_, rfl, ok parts' parts⟩

theorem Tidy.outcome_usedBytes (h : Tidy root quotaBytes fs top) {next : Nat → Op Unit}
    (ok : Outcome (next (totalSize fs top)) fs P) :
    Outcome (Workspace.usedBytes root seedFiles >>= next) fs P :=
  outcome_bind (Or.inr ⟨_, h.usedBytes, ok⟩)

end Outcomes

/-! ## The operations -/

/-- What a system call finds to change under a new name, or one that is taken. -/
theorem Tidy.locate_open (h : Tidy root quotaBytes fs top) {last : Last} (create : last.create = true)
    {above : List Text} {name : Text} (isName : IsName name)
    (isFolder : fs.get? (top ++ above) = some .folder) :
    fs.locate last (root.join (above ++ [name])) = .ok (top ++ above ++ [name]) := by
  cases there : fs.get? (top ++ above ++ [name]) with
  | none => exact h.locate_new create isName isFolder there
  | some node =>
    rw [h.locate_of_isSome last (by simp) (by rw [← List.append_assoc, there]; rfl),
      ← List.append_assoc]

theorem nameAt_append (folder : Location) (name : Text) :
    Files.nameAt (folder ++ [name]) = some (folder, name) := by
  simp [Files.nameAt]

theorem write_outcome (h : Tidy root quotaBytes fs top) (path content : Text) :
    Outcome (write root seedFiles quotaBytes path content) fs
      fun fs' => Tidy root quotaBytes fs' top := by
  refine outcome_ite fun source => h.outcome_resolve fun parts named => ?_
  obtain ⟨above, name, rfl, isName, source'⟩ := source_of_path (by simpa using source) named
  have isNames := isName_of_partsOf named
  have isAbove : ∀ name ∈ above, IsName name := fun name mem =>
    isNames name (List.mem_append_left _ mem)
  refine outcome_check fun _ valid => outcome_look (outcome_ite fun notDir => ?_)
  refine outcome_look (outcome_ite fun parent => ?_)
  refine outcome_check fun previous sized => h.outcome_usedBytes (outcome_ite fun quota => ?_)
  rw [PosixPath.name_join] at valid
  rw [PosixPath.parent_join, not_not, h.isDir_join isAbove] at parent
  rw [h.isDir_join isNames, ← List.append_assoc] at notDir
  refine outcome_call fun fs' written => ?_
  -- what is counted off is the size of what is replaced
  have size : (fs.get? (top ++ above ++ [name])).elim 0 Files.sizeOf = previous := by
    have stat := h.stat_join isNames
    rw [← List.append_assoc] at stat
    simp only [Files.isFile, Files.statSize, stat] at sized
    cases what : fs.get? (top ++ above ++ [name]) with
    | none =>
      rw [what] at sized
      exact Except.ok.inj sized
    | some node =>
      rw [what] at sized
      cases node with
      | folder => exact absurd what notDir
      | link target => exact Except.ok.inj sized
      | file bytes => exact Except.ok.inj sized
  have located := h.locate_open (rfl : Last.openCreate.create = true) isName parent
  simp only [Files.writeBytes, Files.change, located, nameAt_append] at written
  cases done : fs.put (top ++ above) name (.file (encode content)) with
  | none => simp [done] at written
  | some fs'' =>
    rw [done] at written
    obtain rfl := Except.ok.inj written
    refine h.put ⟨visible_of_validateName valid, Or.inr ⟨⟨_, rfl⟩, source'⟩⟩ ?_ done
    rw [size]
    exact not_lt.mp quota

theorem makeFolder_outcome (h : Tidy root quotaBytes fs top) (path : Text) :
    Outcome (makeFolder root seedFiles path) fs fun fs' => Tidy root quotaBytes fs' top := by
  refine h.outcome_resolve fun parts named => ?_
  have isNames := isName_of_partsOf named
  refine outcome_check fun _ valid => outcome_look (outcome_ite fun missing => ?_)
  refine outcome_look (outcome_ite fun parent => outcome_call fun fs' made => ?_)
  rw [h.pathExists_join isNames] at missing
  cases parts using List.reverseRecOn with
  | nil =>
    rw [List.append_nil, h.folder] at missing
    exact absurd rfl missing
  | append_singleton above name =>
    have isAbove : ∀ name ∈ above, IsName name := fun name mem =>
      isNames name (List.mem_append_left _ mem)
    rw [PosixPath.name_join] at valid
    rw [PosixPath.parent_join, not_not, h.isDir_join isAbove] at parent
    have located := h.locate_open (rfl : Last.newEntry.create = true) (isNames name (by simp)) parent
    simp only [Files.mkdir, located, nameAt_append] at made
    split at made
    · cases made
    · rename_i free
      cases done : fs.put (top ++ above) name .folder with
      | none => simp [done] at made
      | some fs'' =>
        rw [done] at made
        obtain rfl := Except.ok.inj made
        refine h.put ⟨visible_of_validateName valid, Or.inl rfl⟩ ?_ done
        have within := h.within
        simp only [Option.not_isSome_iff_eq_none.mp free, Option.elim_none, Files.sizeOf]
        omega

/-- What `delete` leaves: all from the place of the path down is gone. -/
def Deleted (fs : Files) (top : Location) (path : Text) (fs' : Files) : Prop :=
  ∃ names, partsOf path = some names ∧ (fs.get? (top ++ names)).isSome = true ∧
    fs.remove (top ++ names) = some fs'

theorem delete_outcome (h : Tidy root quotaBytes fs top) {path : Text}
    (notRoot : partsOf path ≠ some []) :
    Outcome (delete root seedFiles path) fs fun fs' =>
      Tidy root quotaBytes fs' top ∧ Deleted fs top path fs' := by
  refine outcome_ite fun _ => h.outcome_resolve fun parts named => ?_
  have isNames := isName_of_partsOf named
  have below : parts ≠ [] := by
    rintro rfl
    exact notRoot named
  refine outcome_look (outcome_ite fun there => outcome_look ?_)
  rw [not_not, h.pathExists_join isNames] at there
  have located := h.locate_of_isSome .entry below there
  -- both calls take away what is there
  obtain ⟨fs'', removed⟩ : ∃ fs'', fs.remove (top ++ parts) = some fs'' := by
    unfold Files.remove
    rw [dif_neg (by simp [below])]
    exact ⟨_, rfl⟩
  split
  · refine outcome_call fun fs' done => ?_
    simp only [Files.rmtree, h.isSymlink_join below there, located, Bool.false_eq_true, if_false,
      removed] at done
    obtain rfl := Except.ok.inj done
    exact ⟨h.remove below removed, parts, named, there, removed⟩
  · refine outcome_call fun fs' done => ?_
    simp only [Files.unlink, located, removed] at done
    split at done
    · cases done
    · obtain rfl := Except.ok.inj done
      exact ⟨h.remove below removed, parts, named, there, removed⟩

/-- What `rename` leaves: all from the one place down is at the other, which was free. -/
def Renamed (fs : Files) (top : Location) (path destination : Text) (fs' : Files) : Prop :=
  ∃ names above name, partsOf path = some names ∧ partsOf destination = some (above ++ [name]) ∧
    (fs.get? (top ++ names)).isSome = true ∧
    fs.move (top ++ names) (top ++ above) name = some fs'

theorem rename_outcome (h : Tidy root quotaBytes fs top) (path destination : Text) :
    Outcome (rename root seedFiles path destination) fs fun fs' =>
      Tidy root quotaBytes fs' top ∧ Renamed fs top path destination fs' := by
  refine h.outcome_resolve fun names named => outcome_look (outcome_ite fun there => ?_)
  refine h.outcome_resolve fun parts named' => outcome_check fun _ valid => ?_
  have isNames := isName_of_partsOf named
  have isNames' := isName_of_partsOf named'
  refine outcome_look (outcome_ite fun source => outcome_look (outcome_ite fun missing => ?_))
  refine outcome_look (outcome_ite fun parent => outcome_look (outcome_ite fun outside => ?_))
  refine outcome_call fun fs' renamed => ?_
  rw [not_not, h.pathExists_join isNames] at there
  rw [h.pathExists_join isNames'] at missing
  cases parts using List.reverseRecOn with
  | nil =>
    rw [List.append_nil, h.folder] at missing
    exact absurd rfl missing
  | append_singleton above name =>
    have isAbove : ∀ name ∈ above, IsName name := fun name mem =>
      isNames' name (List.mem_append_left _ mem)
    rw [PosixPath.name_join] at valid
    rw [PosixPath.parent_join, not_not, h.isDir_join isAbove] at parent
    -- the root is above each place
    have below : names ≠ [] := by
      rintro rfl
      refine outside ⟨(h.isDir_join isNames).mpr (by rw [List.append_nil, h.folder]), ?_⟩
      rw [PosixPath.mem_parents]
      exact ⟨rfl, by simp, by simp⟩
    have shown : ∀ node, fs.get? (top ++ names) = some node → Shown name node := by
      intro node found
      refine ⟨visible_of_validateName valid, ?_⟩
      cases node with
      | folder => exact Or.inl rfl
      | link target => exact absurd found (h.noLinks _ (List.prefix_append _ _) target)
      | file bytes =>
        have isFile : fs.isFile (root.join names) = true := by
          rw [Files.isFile, h.stat_join isNames, found]
        have suffix : isSourceFile destination = true := by
          by_contra no
          exact source ⟨isFile, no⟩
        obtain ⟨above', name', same, -, source'⟩ := source_of_path suffix named'
        obtain ⟨-, same⟩ := List.append_inj' same rfl
        rw [show name = name' by simpa using same]
        exact Or.inr ⟨⟨bytes, rfl⟩, source'⟩
    have old := h.locate_of_isSome .entry below there
    have new := h.locate_open (rfl : Last.newEntry.create = true) (isNames' name (by simp)) parent
    have free : fs.get? (top ++ above ++ [name]) = none := by
      rw [List.append_assoc]
      simpa using missing
    simp only [Files.rename, old, Files.change, new, nameAt_append, free] at renamed
    cases done : fs.move (top ++ names) (top ++ above) name with
    | none => simp [done] at renamed
    | some fs'' =>
      rw [done] at renamed
      obtain rfl := Except.ok.inj renamed
      exact ⟨h.move below shown done, names, above, name, named, named', there, done⟩

theorem call_outcome (h : Tidy root quotaBytes fs top) {call : Call}
    (notRoot : call.deletesRoot = false) :
    Outcome (call.run root seedFiles quotaBytes) fs fun fs' => Tidy root quotaBytes fs' top := by
  cases call with
  | write path content => exact write_outcome h path content
  | makeFolder path => exact makeFolder_outcome h path
  | rename path destination =>
    exact (rename_outcome h path destination).mono fun _ done => done.1
  | delete path =>
    have notRoot' : partsOf path ≠ some [] := by simpa [Call.deletesRoot] using notRoot
    exact (delete_outcome h notRoot').mono fun _ done => done.1

/-! ## A run -/

theorem call_of_step {s t : Files} {call : Call}
    (h : (workspace root seedFiles quotaBytes).step s call = some t) :
    call.deletesRoot = false ∧ t = (call.run root seedFiles quotaBytes s).2 := by
  simp only [workspace] at h
  split at h
  · cases h
  · rename_i notRoot
    exact ⟨by simpa using notRoot, (Option.some.inj h).symm⟩

theorem tidy_step {s t : Files} {call : Call} (h : Tidy root quotaBytes s top)
    (step : (workspace root seedFiles quotaBytes).step s call = some t) :
    Tidy root quotaBytes t top := by
  obtain ⟨notRoot, rfl⟩ := call_of_step step
  have outcome : Outcome (call.run root seedFiles quotaBytes) s
      fun fs' => Tidy root quotaBytes fs' top := call_outcome h notRoot
  rcases outcome with ⟨e, raised⟩ | ⟨fs', done, tidy⟩
  · rw [raised]
    exact h
  · rw [done]
    exact tidy

theorem tidy_of_run {h : List (Taken Files Call)} {s : Files}
    (run : (workspace root seedFiles quotaBytes).Run h s) : ∃ top, Tidy root quotaBytes s top := by
  refine run.invariant ⟨fun s start => start, ?_⟩
  rintro s call t ⟨top, tidy⟩ step
  exact ⟨top, tidy_step tidy step⟩

/-- A workspace stays as its user may expect. -/
theorem kept_of_run {h : List (Taken Files Call)} {s : Files}
    (run : (workspace root seedFiles quotaBytes).Run h s) :
    ∃ top, Kept root seedFiles lower quotaBytes h s top := by
  obtain ⟨top, tidy⟩ := tidy_of_run run
  refine ⟨top, tidy.locate_root, ?_, ?_, ?_, ?_⟩
  · intro above name bytes found
    obtain ⟨visible, folder | ⟨-, source⟩⟩ := tidy.shown above name _ found
    · cases folder
    · exact ⟨visible, source⟩
  · obtain ⟨found, listed, nodup, mem⟩ : ∃ found,
        tree root seedFiles lower s = (.ok found, s) ∧ Lists s top [] found := tidy.tree
    simp only [List.append_nil, List.nil_append] at mem
    refine ⟨found, listed, ?_, mem⟩
    · refine List.Nodup.map_on ?_ nodup
      intro entry hentry entry' hentry' same
      obtain ⟨parts, node, -, there, rfl⟩ := (mem entry).mp hentry
      obtain ⟨parts', node', -, there', rfl⟩ := (mem entry').mp hentry'
      have isName := Files.isName_of_mem (Option.isSome_of_eq_some there)
      have isName' := Files.isName_of_mem (Option.isSome_of_eq_some there')
      obtain rfl := entryAt_inj isName isName' same
      rw [Option.some.inj (there.symm.trans there')]
  · exact ⟨Op.bind_ok tidy.usedBytes, tidy.within⟩
  · intro x hx e raised
    obtain ⟨h', run', step, -⟩ := run.of_mem hx
    obtain ⟨top', tidy'⟩ := tidy_of_run run'
    obtain ⟨notRoot, done⟩ := call_of_step step
    rcases call_outcome tidy' notRoot with ⟨e', raised'⟩ | ⟨fs', returned, -⟩
    · rw [done, raised']
    · rw [returned] at raised
      cases raised

/-- A workspace `w` with nothing in it. -/
def emptyWorkspace : Option Files := (Files.bare []).putAll [([], ['w'], .folder)]

theorem tidy_emptyWorkspace (h : emptyWorkspace = some fs) : Tidy ⟨true, [['w']]⟩ 100 fs [['w']] := by
  have done : (Files.bare []).put [] ['w'] .folder = some fs := by
    simpa [emptyWorkspace, Files.putAll] using h
  have get : ∀ place, fs.get? place =
      if place = [['w']] then some .folder else (Files.bare []).get? place := Files.get?_put done
  have folder : fs.get? [['w']] = some .folder := by rw [get, if_pos rfl]
  have nothing : ∀ name rest, fs.get? (['w'] :: name :: rest) = none := by
    intro name rest
    rw [get, if_neg (by simp)]
    exact (Dict.get?_set_of_ne _ _ (by simp)).trans rfl
  refine ⟨folder, ?_, ?_, ?_⟩
  · intro fs' _ agree
    have folder' : fs'.get? [['w']] = some .folder := by
      rw [agree _ fun below => below.2 rfl, folder]
    have walked : fs'.walk .stat Files.maxLinks [] [['w']] = .ok ([['w']], Files.maxLinks) := by
      rw [Files.walk_cons, fs'.get?_top]
      simp [folder']
    exact locate_eq_ok.mpr ⟨_, walked⟩
  · intro above name node found
    have none : fs.get? ([['w']] ++ above ++ [name]) = none := by
      cases above with
      | nil => exact nothing name []
      | cons first above => exact nothing first (above ++ [name])
    rw [none] at found
    cases found
  · have sum : totalSize fs [['w']] = 0 := by
      unfold totalSize
      rw [(Files.put_eq_some done).1]
      decide
    rw [sum]
    decide

/-- A file is saved and moved into a folder, and a file of another kind is refused. -/
theorem kept_of_run_moved : ∃ fs h s, emptyWorkspace = some fs ∧
    (workspace ⟨true, [['w']]⟩ [] 100).exec fs
      [.write "a.in".toList "x".toList, .makeFolder "d".toList,
        .rename "a.in".toList "d/b.in".toList, .write "c.txt".toList []] = some (h, s) ∧
      ∃ top, Kept ⟨true, [['w']]⟩ [] id 100 h s top := by
  have possible : ∃ fs ∈ emptyWorkspace, ((workspace ⟨true, [['w']]⟩ [] 100).exec fs
      [.write "a.in".toList "x".toList, .makeFolder "d".toList,
        .rename "a.in".toList "d/b.in".toList, .write "c.txt".toList []]).isSome = true := by
    decide
  obtain ⟨fs, built, ran⟩ := possible
  obtain ⟨r, ran⟩ := Option.isSome_iff_exists.mp ran
  exact ⟨fs, r.1, r.2, built, ran, kept_of_run (Lts.Run.of_exec ⟨_, tidy_emptyWorkspace built⟩ ran)⟩

end TcadWebapp.Workspace
