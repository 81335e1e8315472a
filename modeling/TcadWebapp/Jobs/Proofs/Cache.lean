import Mathlib.Data.Prod.Lex
import TcadWebapp.Jobs.Cache

/-!
# Which jobs lose their artifacts

`enforce_storage_quota` keeps an old job that still fits after it has discarded a newer one, and
counts unfinished jobs after it has kept older ones for good. Without these two it evicts the oldest
jobs first (`oldestFirst_iff`).
-/

namespace TcadWebapp.Jobs

variable {db : Database} {ownerId : Nat} {quotaBytes : Int}

/-- What a list of jobs takes. -/
def sizes (rows : List (Job × Nat)) : Nat := (rows.map Prod.snd).sum

/-- The jobs that the loop may not discard. -/
def unfinished (rows : List (Job × Nat)) : List (Job × Nat) :=
  rows.filter fun row => !row.1.status.isTerminal

/-- Each finished job of the list fits in the quota with those before it. -/
def AllFit (quotaBytes : Int) (kept : Nat) (rows : List (Job × Nat)) : Prop :=
  ∀ before job size after, rows = before ++ (job, size) :: after → job.status.isTerminal →
    (kept + sizes before + size : Nat) ≤ quotaBytes

/-- No finished job of the list fits with the unfinished ones before it. -/
def NoneFits (quotaBytes : Int) (kept : Nat) (rows : List (Job × Nat)) : Prop :=
  ∀ before job size after, rows = before ++ (job, size) :: after → job.status.isTerminal →
    quotaBytes < (kept + sizes (unfinished before) + size : Nat)

/-! ## The loop -/

section Doomed

variable {rows : List (Job × Nat)} {kept : Nat}

@[simp] theorem sizes_nil : sizes [] = 0 := rfl

@[simp] theorem sizes_cons (row : Job × Nat) : sizes (row :: rows) = row.2 + sizes rows := rfl

@[simp] theorem sizes_append (rows' : List (Job × Nat)) :
    sizes (rows ++ rows') = sizes rows + sizes rows' := by
  simp [sizes]

/-- The part of a list in front of one of its elements begins with the head, or is empty. -/
theorem forall_split_cons {α : Type*} {P : List α → α → Prop} {a : α} {l : List α} :
    (∀ before x after, a :: l = before ++ x :: after → P before x) ↔
      P [] a ∧ ∀ before x after, l = before ++ x :: after → P (a :: before) x := by
  constructor
  · intro h
    refine ⟨h [] a l rfl, ?_⟩
    intro before x after e
    exact h (a :: before) x after (by rw [e, List.cons_append])
  · rintro ⟨head, tail⟩ before x after e
    cases before with
    | nil =>
      obtain ⟨rfl, -⟩ := List.cons.inj e
      exact head
    | cons b before =>
      obtain ⟨rfl, rest⟩ := List.cons.inj e
      exact tail before x after rest

theorem allFit_cons {job : Job} {size : Nat} : AllFit quotaBytes kept ((job, size) :: rows) ↔
    (job.status.isTerminal → ((kept + size : Nat) : Int) ≤ quotaBytes) ∧
      AllFit quotaBytes (kept + size) rows := by
  have := @forall_split_cons _ (fun before (row : Job × Nat) => row.1.status.isTerminal →
    (kept + sizes before + row.2 : Nat) ≤ quotaBytes) (job, size) rows
  simp only [Prod.forall, sizes_nil, sizes_cons, Nat.add_zero, ← Nat.add_assoc] at this
  exact this

theorem noneFits_cons {job : Job} {size : Nat} : NoneFits quotaBytes kept ((job, size) :: rows) ↔
    if job.status.isTerminal then
      quotaBytes < (kept + size : Nat) ∧ NoneFits quotaBytes kept rows
    else NoneFits quotaBytes (kept + size) rows := by
  have := @forall_split_cons _ (fun before (row : Job × Nat) => row.1.status.isTerminal →
    quotaBytes < (kept + sizes (unfinished before) + row.2 : Nat)) (job, size) rows
  simp only [Prod.forall] at this
  refine this.trans ?_
  cases finished : job.status.isTerminal with
  | true => simp [unfinished, finished, NoneFits]
  | false => simp [unfinished, finished, NoneFits, Nat.add_assoc]

theorem doomed_subset {job : Job} (h : job ∈ doomed quotaBytes rows kept) :
    job.status.isTerminal ∧ job ∈ rows.map Prod.fst := by
  fun_induction doomed quotaBytes rows kept with
  | case1 => simp at h
  | case2 job' size rest kept fits ih => exact ⟨(ih h).1, List.mem_cons_of_mem _ (ih h).2⟩
  | case3 job' size rest kept full open_ ih => exact ⟨(ih h).1, List.mem_cons_of_mem _ (ih h).2⟩
  | case4 job' size rest kept full finished ih =>
    rcases List.mem_cons.mp h with rfl | h
    · exact ⟨by simpa using finished, List.mem_cons_self⟩
    · exact ⟨(ih h).1, List.mem_cons_of_mem _ (ih h).2⟩

/-- Nothing is discarded as long as everything fits. -/
theorem doomed_eq_nil : doomed quotaBytes rows kept = [] ↔ AllFit quotaBytes kept rows := by
  fun_induction doomed quotaBytes rows kept with
  | case1 => simp [AllFit]
  | case2 job size rest kept fits ih =>
    rw [allFit_cons, ih]
    exact (and_iff_right fun _ => fits).symm
  | case3 job size rest kept full open_ ih =>
    rw [allFit_cons, ih]
    simp at open_
    simp [open_]
  | case4 job size rest kept full finished ih =>
    rw [allFit_cons]
    simp at finished
    exact iff_of_false (by simp) fun fit => full (fit.1 finished)

theorem doomed_append {rows' : List (Job × Nat)} (fit : AllFit quotaBytes kept rows) :
    doomed quotaBytes (rows ++ rows') kept = doomed quotaBytes rows' (kept + sizes rows) := by
  induction rows generalizing kept with
  | nil => rfl
  | cons row rows ih =>
    obtain ⟨job, size⟩ := row
    obtain ⟨first, rest⟩ := allFit_cons.mp fit
    rw [List.cons_append, doomed, sizes_cons, ← Nat.add_assoc, ← ih rest]
    by_cases fits : ((kept + size : Nat) : Int) ≤ quotaBytes
    · rw [if_pos fits]
    · have : ¬ job.status.isTerminal := fun finished => fits (first finished)
      rw [if_neg fits, if_pos (by simpa using this)]

/-- From a point on everything that is finished is discarded. -/
theorem mem_doomed_iff (nodup : (rows.map Prod.fst).Nodup) :
    (∀ row ∈ rows, row.1.status.isTerminal → row.1 ∈ doomed quotaBytes rows kept) ↔
      NoneFits quotaBytes kept rows := by
  induction rows generalizing kept with
  | nil => simp [NoneFits]
  | cons row rows ih =>
    obtain ⟨job, size⟩ := row
    obtain ⟨new, nodup'⟩ := List.nodup_cons.mp nodup
    have apart : ∀ row ∈ rows, row.1 ≠ job := by
      intro row mem e
      exact new (List.mem_map.mpr ⟨row, mem, e⟩)
    have out : ∀ kept, job ∉ doomed quotaBytes rows kept := fun kept h => new (doomed_subset h).2
    rw [noneFits_cons, doomed, List.forall_mem_cons]
    cases finished : job.status.isTerminal with
    | false =>
      simp only [Bool.not_false, if_true, ite_self, Bool.false_eq_true, if_false]
      rw [← ih nodup']
      exact and_iff_right (by simp)
    | true =>
      by_cases fits : ((kept + size : Nat) : Int) ≤ quotaBytes
      · rw [if_pos fits, if_pos rfl]
        exact iff_of_false (fun h => out _ (h.1 rfl)) fun h => absurd h.1 (not_lt.mpr fits)
      · have other : ∀ row ∈ rows, row.1 ∈ job :: doomed quotaBytes rows kept ↔
            row.1 ∈ doomed quotaBytes rows kept := by
          intro row mem
          rw [List.mem_cons, or_iff_right (apart row mem)]
        rw [if_neg fits, if_neg (by simp), if_pos rfl, ← ih nodup']
        refine and_congr (iff_of_true (fun _ => List.mem_cons_self) (not_le.mp fits)) ?_
        exact forall₂_congr fun row mem => imp_congr_right fun _ => other row mem

/-- The first job that is discarded. -/
theorem exists_first (some_ : doomed quotaBytes rows kept ≠ []) :
    ∃ newer job size older, rows = newer ++ (job, size) :: older ∧ AllFit quotaBytes kept newer ∧
      job ∈ doomed quotaBytes rows kept := by
  fun_induction doomed quotaBytes rows kept with
  | case1 => simp at some_
  | case2 job size rest kept fits ih =>
    obtain ⟨newer, job', size', older, e, fit, mem⟩ := ih some_
    refine ⟨(job, size) :: newer, job', size', older, by rw [e, List.cons_append], ?_, mem⟩
    exact allFit_cons.mpr ⟨fun _ => fits, fit⟩
  | case3 job size rest kept full open_ ih =>
    obtain ⟨newer, job', size', older, e, fit, mem⟩ := ih some_
    refine ⟨(job, size) :: newer, job', size', older, by rw [e, List.cons_append], ?_, mem⟩
    simp at open_
    exact allFit_cons.mpr ⟨by simp [open_], fit⟩
  | case4 job size rest kept full finished ih =>
    exact ⟨[], job, size, rest, rfl, by simp [AllFit], List.mem_cons_self⟩

end Doomed

/-! ## The jobs of a user -/

section Sized

open Queue

/-- The order of the jobs is the lexicographic one of their instants and ids. -/
theorem precedes_iff {a b : Job} : Precedes a b ↔
    toLex ((a.createdAt : Int), a.id) ≤ toLex ((b.createdAt : Int), b.id) :=
  (@Prod.Lex.toLex_le_toLex Int Nat _ _ (a.createdAt, a.id) (b.createdAt, b.id)).symm

instance : Std.Total fun a b : Job => Precedes b a := by
  refine ⟨fun a b => ?_⟩
  rw [precedes_iff, precedes_iff]
  exact le_total _ _

instance : IsTrans Job fun a b => Precedes b a := by
  refine ⟨fun a b c h h' => ?_⟩
  rw [precedes_iff] at *
  exact h'.trans h

theorem mem_sizedJobs {row : Job × Nat} : row ∈ db.sizedJobs ownerId ↔
    row.1 ∈ db.jobs ∧ row.1.ownerId = ownerId ∧ db.hasArtifacts row.1 ∧ row.2 = db.sizeOf row.1 := by
  obtain ⟨job, size⟩ := row
  simp only [Database.sizedJobs, List.mem_map, List.mem_insertionSort, List.mem_filter,
    Bool.and_eq_true, decide_eq_true_eq, Prod.mk.injEq]
  constructor
  · rintro ⟨job', ⟨mem, owned, has⟩, rfl, rfl⟩
    exact ⟨mem, owned, has, rfl⟩
  · rintro ⟨mem, owned, has, rfl⟩
    exact ⟨job, ⟨mem, owned, has⟩, rfl, rfl⟩

theorem sizedJobs_fst : (db.sizedJobs ownerId).map Prod.fst =
    (db.jobs.filter fun job => job.ownerId = ownerId && db.hasArtifacts job).insertionSort
      fun a b => Precedes b a := by
  rw [Database.sizedJobs, List.map_map]
  exact List.map_id _

/-- The newest job comes first. -/
theorem pairwise_sizedJobs :
    (db.sizedJobs ownerId).Pairwise fun a b => Precedes b.1 a.1 := by
  have := List.pairwise_insertionSort (fun a b : Job => Precedes b a)
    (db.jobs.filter fun job => job.ownerId = ownerId && db.hasArtifacts job)
  rw [← sizedJobs_fst] at this
  exact List.pairwise_map.mp this

variable (unique : (db.jobs.map Job.id).Nodup)

include unique

theorem nodup_sizedJobs : ((db.sizedJobs ownerId).map Prod.fst).Nodup := by
  rw [sizedJobs_fst, (List.perm_insertionSort _ _).nodup_iff]
  exact (unique.of_map _).filter _

theorem eq_of_id {job job' : Job} (mem : job ∈ db.jobs) (mem' : job' ∈ db.jobs)
    (e : job.id = job'.id) : job = job' :=
  List.inj_on_of_nodup_map unique mem mem' e

/-- Jobs each of which precedes the other are one. -/
theorem eq_of_precedes {job job' : Job} (mem : job ∈ db.jobs) (mem' : job' ∈ db.jobs)
    (h : Precedes job job') (h' : Precedes job' job) : job = job' := by
  refine eq_of_id unique mem mem' ?_
  rw [precedes_iff] at h h'
  exact congrArg (fun key => (ofLex key).2) (le_antisymm h h')

end Sized

/-! ## The jobs that are chosen -/

/-- `doomed` when the loop has ended. -/
def chosen (db : Database) (ownerId : Nat) (quotaBytes : Int) : List Job :=
  if (db.totalOf ownerId : Int) ≤ quotaBytes then []
  else match db.sizedJobs ownerId with
    | [] => []
    | (_, size) :: rest => doomed quotaBytes rest size

/-- The artifacts of some jobs are deleted. -/
def Database.without (db : Database) (jobs : List Job) : Database :=
  { db with artifacts := db.artifacts.filter fun a => a.jobId ∉ jobs.map Job.id }

theorem enforceStorageQuota_eq : enforceStorageQuota db ownerId quotaBytes =
    ⟨((db.artifacts.filter fun a => a.jobId ∈ (chosen db ownerId quotaBytes).map Job.id).map
        Artifact.sizeBytes).sum, db.without (chosen db ownerId quotaBytes),
      ((chosen db ownerId quotaBytes).filter fun job => job.workdir ≠ "").map Job.workdir⟩ := by
  unfold enforceStorageQuota chosen Database.without
  by_cases small : (db.totalOf ownerId : Int) ≤ quotaBytes
  · simp [small]
  · simp only [small, if_false]
    cases db.sizedJobs ownerId with
    | nil => simp
    | cons row rest =>
      dsimp only
      split
      · rename_i none_
        simp [none_]
      · rfl

theorem hasArtifacts_without {jobs : List Job} {job : Job} :
    (db.without jobs).hasArtifacts job ↔ db.hasArtifacts job ∧ job.id ∉ jobs.map Job.id := by
  simp only [Database.hasArtifacts, Database.without, List.any_eq_true, List.mem_filter,
    decide_eq_true_eq]
  constructor
  · rintro ⟨a, ⟨mem, kept⟩, e⟩
    exact ⟨⟨a, mem, e⟩, e ▸ kept⟩
  · rintro ⟨⟨a, mem, e⟩, kept⟩
    exact ⟨a, ⟨mem, e ▸ kept⟩, e⟩

theorem discards_iff {job : Job} : (enforceStorageQuota db ownerId quotaBytes).Discards db job ↔
    db.hasArtifacts job ∧ job.id ∈ (chosen db ownerId quotaBytes).map Job.id := by
  rw [Eviction.Discards, enforceStorageQuota_eq, Bool.not_eq_true', Bool.eq_false_iff, ne_eq,
    hasArtifacts_without]
  tauto

theorem chosen_subset {job : Job} (h : job ∈ chosen db ownerId quotaBytes) :
    job.status.isTerminal ∧ job ∈ ((db.sizedJobs ownerId).map Prod.fst).tail := by
  unfold chosen at h
  split at h
  · simp at h
  · cases e : db.sizedJobs ownerId with
    | nil => simp [e] at h
    | cons row rest =>
      rw [e] at h
      exact doomed_subset h

/-- What is chosen beyond the newest job. -/
theorem chosen_cons {newest : Job × Nat} {rest : List (Job × Nat)}
    (rows : db.sizedJobs ownerId = newest :: rest)
    (large : ¬ (db.totalOf ownerId : Int) ≤ quotaBytes) :
    chosen db ownerId quotaBytes = doomed quotaBytes rest newest.2 := by
  rw [chosen, if_neg large, rows]

/-- The first of the user's jobs is the newest. -/
theorem isNewest_of_head {newest : Job × Nat} {rest : List (Job × Nat)}
    (rows : db.sizedJobs ownerId = newest :: rest) : db.IsNewest newest.1 := by
  intro other mem owned has
  have head : newest ∈ db.sizedJobs ownerId := rows ▸ List.mem_cons_self
  have inRows : (other, db.sizeOf other) ∈ newest :: rest := by
    rw [← rows]
    exact mem_sizedJobs.mpr ⟨mem, owned.trans (mem_sizedJobs.mp head).2.1, has, rfl⟩
  rcases List.mem_cons.mp inRows with e | behind
  · exact Or.inr ⟨congrArg (fun row => row.1.createdAt) e, (congrArg (fun row => row.1.id) e).le⟩
  · have sorted := rows ▸ @pairwise_sizedJobs db ownerId
    exact (List.pairwise_cons.mp sorted).1 _ behind

/-! ## When the oldest go first -/

/-- Newest first, the jobs are cut in two: in the newer part each finished job but the newest fits in
the quota with those newer than it, in the older part no finished job fits beside the newer part and
the unfinished jobs newer than it, and the quota holds the newer part and the unfinished jobs of the
older one, or there is no finished job but the newest in the newer part. -/
def Cut (quotaBytes : Int) (rows : List (Job × Nat)) : Prop :=
  rows = [] ∨ ∃ newest newer older, rows = newest :: (newer ++ older) ∧
    AllFit quotaBytes newest.2 newer ∧ NoneFits quotaBytes (newest.2 + sizes newer) older ∧
    ((newest.2 + sizes newer + sizes (unfinished older) : Nat) ≤ quotaBytes ∨
      ∀ row ∈ newer, !row.1.status.isTerminal)

theorem freed_of_call : (enforceStorageQuota db ownerId quotaBytes).freed =
    ((db.artifacts.filter fun a => a ∉ (enforceStorageQuota db ownerId quotaBytes).database.artifacts).map
      Artifact.sizeBytes).sum := by
  rw [enforceStorageQuota_eq]
  refine congrArg (fun l : List Artifact => (l.map Artifact.sizeBytes).sum) ?_
  refine List.filter_congr fun a mem => ?_
  simp [Database.without, mem]

section Unique

variable (unique : (db.jobs.map Job.id).Nodup)

include unique

theorem id_mem_chosen {job : Job} (mem : job ∈ db.jobs) :
    job.id ∈ (chosen db ownerId quotaBytes).map Job.id ↔ job ∈ chosen db ownerId quotaBytes := by
  refine ⟨fun h => ?_, List.mem_map_of_mem⟩
  obtain ⟨job', mem', e⟩ := List.mem_map.mp h
  obtain ⟨row, hr, rfl⟩ := List.mem_map.mp (List.mem_of_mem_tail (chosen_subset mem').2)
  rwa [← eq_of_id unique (mem_sizedJobs.mp hr).1 mem e]

/-- What the user's artifacts take once those of the chosen jobs are gone. -/
theorem totalOf_without : (db.without (chosen db ownerId quotaBytes)).totalOf ownerId =
    sizes ((db.sizedJobs ownerId).filter fun row => row.1 ∉ chosen db ownerId quotaBytes) := by
  have perm : ((db.without (chosen db ownerId quotaBytes)).sizedJobs ownerId).Perm
      ((db.sizedJobs ownerId).filter fun row => row.1 ∉ chosen db ownerId quotaBytes) := by
    refine (List.perm_ext_iff_of_nodup ?_ ?_).mpr fun row => ?_
    · exact (@nodup_sizedJobs (db.without _) ownerId unique).of_map _
    · exact ((nodup_sizedJobs unique).of_map _).filter _
    · rw [mem_sizedJobs, List.mem_filter, mem_sizedJobs, hasArtifacts_without, decide_eq_true_eq]
      have same : row.1.id ∉ (chosen db ownerId quotaBytes).map Job.id →
          (db.without (chosen db ownerId quotaBytes)).sizeOf row.1 = db.sizeOf row.1 := by
        intro kept
        have : ∀ a : Artifact, (a.jobId = row.1.id ∧
            a.jobId ∉ (chosen db ownerId quotaBytes).map Job.id) ↔ a.jobId = row.1.id :=
          fun a => and_iff_left_of_imp fun e => e ▸ kept
        simp only [Database.sizeOf, Database.without, List.filter_filter, ← Bool.decide_and, this]
      constructor
      · rintro ⟨mem, owned, ⟨has, kept⟩, size⟩
        exact ⟨⟨mem, owned, has, size.trans (same kept)⟩, fun h =>
          kept ((id_mem_chosen unique mem).mpr h)⟩
      · rintro ⟨⟨mem, owned, has, size⟩, kept⟩
        have kept' := mt (id_mem_chosen unique mem).mp kept
        exact ⟨mem, owned, ⟨has, kept'⟩, size.trans (same kept').symm⟩
  exact (perm.map Prod.snd).sum_eq

/-- Of a cut list the finished jobs of the older part are chosen. -/
theorem mem_chosen_of_cut {newest : Job × Nat} {newer older : List (Job × Nat)}
    (rows : db.sizedJobs ownerId = newest :: (newer ++ older))
    (fit : AllFit quotaBytes newest.2 newer)
    (full : NoneFits quotaBytes (newest.2 + sizes newer) older)
    (large : ¬ (db.totalOf ownerId : Int) ≤ quotaBytes) {row : Job × Nat}
    (mem : row ∈ db.sizedJobs ownerId) :
    row.1 ∈ chosen db ownerId quotaBytes ↔ row ∈ older ∧ row.1.status.isTerminal := by
  have nodup := @nodup_sizedJobs db ownerId unique
  rw [rows, List.map_cons, List.map_append, List.nodup_cons, List.nodup_append] at nodup
  rw [chosen_cons rows large, doomed_append fit]
  constructor
  · intro h
    obtain ⟨finished, old⟩ := doomed_subset h
    obtain ⟨row', mem', e⟩ := List.mem_map.mp old
    have inRows : row' ∈ db.sizedJobs ownerId := by
      rw [rows]
      exact List.mem_cons_of_mem _ (List.mem_append_right _ mem')
    have same : row' = row := List.inj_on_of_nodup_map (nodup_sizedJobs unique) inRows mem e
    exact ⟨same ▸ mem', finished⟩
  · rintro ⟨old, finished⟩
    exact (mem_doomed_iff nodup.2.2.1).mpr full row old finished

/-- What a cut list keeps. -/
theorem kept_of_cut {newest : Job × Nat} {newer older : List (Job × Nat)}
    (rows : db.sizedJobs ownerId = newest :: (newer ++ older))
    (fit : AllFit quotaBytes newest.2 newer)
    (full : NoneFits quotaBytes (newest.2 + sizes newer) older)
    (large : ¬ (db.totalOf ownerId : Int) ≤ quotaBytes) :
    sizes ((db.sizedJobs ownerId).filter fun row => row.1 ∉ chosen db ownerId quotaBytes) =
      newest.2 + sizes newer + sizes (unfinished older) := by
  have taken := fun row (mem : row ∈ db.sizedJobs ownerId) =>
    mem_chosen_of_cut unique rows fit full large mem
  have nodup := (@nodup_sizedJobs db ownerId unique).of_map _
  have split : db.sizedJobs ownerId = (newest :: newer) ++ older := by rw [rows, List.cons_append]
  have front : ((newest :: newer).filter fun row => row.1 ∉ chosen db ownerId quotaBytes) =
      newest :: newer := by
    refine List.filter_eq_self.mpr fun row mem => decide_eq_true fun h => ?_
    have old := ((taken row (split ▸ List.mem_append_left _ mem)).mp h).1
    exact (List.nodup_append.mp (split ▸ nodup)).2.2 row mem row old rfl
  have back : (older.filter fun row => row.1 ∉ chosen db ownerId quotaBytes) = unfinished older := by
    refine List.filter_congr fun row mem => ?_
    have := taken row (split ▸ List.mem_append_right _ mem)
    simp [this, mem]
  rw [split, List.filter_append, front, back]
  simp [Nat.add_assoc]

/-- No other is. -/
theorem not_isNewest_of_mem_tail {newest : Job × Nat} {rest : List (Job × Nat)}
    (rows : db.sizedJobs ownerId = newest :: rest) {job : Job} (mem : job ∈ rest.map Prod.fst) :
    ¬ db.IsNewest job := by
  obtain ⟨row, hr, rfl⟩ := List.mem_map.mp mem
  have head : newest ∈ db.sizedJobs ownerId := rows ▸ List.mem_cons_self
  have inRows : row ∈ db.sizedJobs ownerId := rows ▸ List.mem_cons_of_mem _ hr
  obtain ⟨memJobs, owned, has, -⟩ := mem_sizedJobs.mp head
  intro newestToo
  have before := newestToo newest.1 memJobs (owned.trans (mem_sizedJobs.mp inRows).2.1.symm) has
  have sorted := rows ▸ @pairwise_sizedJobs db ownerId
  have behind := (List.pairwise_cons.mp sorted).1 row hr
  have same := eq_of_precedes unique memJobs (mem_sizedJobs.mp inRows).1 before behind
  have nodup := rows ▸ @nodup_sizedJobs db ownerId unique
  exact (List.nodup_cons.mp nodup).1 (same ▸ mem)

/-- What holds of every call. -/
theorem spared_of_call {job : Job} (mem : job ∈ db.jobs)
    (gone : (enforceStorageQuota db ownerId quotaBytes).Discards db job) :
    job.ownerId = ownerId ∧ job.status.isTerminal ∧ ¬ db.IsNewest job := by
  have taken := (id_mem_chosen unique mem).mp (discards_iff.mp gone).2
  obtain ⟨finished, behind⟩ := chosen_subset taken
  cases rows : db.sizedJobs ownerId with
  | nil => simp [rows] at behind
  | cons newest rest =>
    rw [rows] at behind
    obtain ⟨row, hr, e⟩ := List.mem_map.mp behind
    have inRows : row ∈ db.sizedJobs ownerId := rows ▸ List.mem_cons_of_mem _ hr
    refine ⟨e ▸ (mem_sizedJobs.mp inRows).2.1, finished, ?_⟩
    exact not_isNewest_of_mem_tail unique rows behind

/-- A list that is cut is evicted from its old end. -/
theorem oldestFirst_of_cut (cut : Cut quotaBytes (db.sizedJobs ownerId)) :
    OldestFirst db ownerId quotaBytes (enforceStorageQuota db ownerId quotaBytes) := by
  refine ⟨fun job mem gone => spared_of_call unique mem gone, ?_, freed_of_call, ?_⟩
  · intro job mem gone older memOlder owned before finished has
    refine discards_iff.mpr ⟨has, (id_mem_chosen unique memOlder).mpr ?_⟩
    have taken := (id_mem_chosen unique mem).mp (discards_iff.mp gone).2
    have large : ¬ (db.totalOf ownerId : Int) ≤ quotaBytes := by
      intro small
      simp [chosen, small] at taken
    have inRows : (older, db.sizeOf older) ∈ db.sizedJobs ownerId :=
      mem_sizedJobs.mpr ⟨memOlder, owned, has, rfl⟩
    have jobInRows : (job, db.sizeOf job) ∈ db.sizedJobs ownerId :=
      mem_sizedJobs.mpr ⟨mem, (spared_of_call unique mem gone).1, (discards_iff.mp gone).1, rfl⟩
    rcases cut with none_ | ⟨newest, newer, olderRows, rows, fit, full, -⟩
    · simp [none_] at inRows
    · have behind := ((mem_chosen_of_cut unique rows fit full large jobInRows).mp taken).1
      refine (mem_chosen_of_cut unique rows fit full large inRows).mpr ⟨?_, finished⟩
      have split : db.sizedJobs ownerId = (newest :: newer) ++ olderRows := by
        rw [rows, List.cons_append]
      have sorted := split ▸ @pairwise_sizedJobs db ownerId
      rcases List.mem_append.mp (split ▸ inRows) with front | back
      · -- then the two jobs are one, since each precedes the other
        have after := (List.pairwise_append.mp sorted).2.2 _ front _ behind
        obtain rfl := eq_of_precedes unique memOlder mem before after
        exact behind
      · exact back
  · rw [enforceStorageQuota_eq]
    by_cases small : (db.totalOf ownerId : Int) ≤ quotaBytes
    · refine Or.inl ?_
      have none_ : chosen db ownerId quotaBytes = [] := if_pos small
      rw [totalOf_without unique, none_]
      simpa [Database.totalOf, sizes] using small
    · rcases cut with none_ | ⟨newest, newer, older, rows, fit, full, held | idle⟩
      · refine Or.inr fun job mem owned has => ?_
        have : (job, db.sizeOf job) ∈ db.sizedJobs ownerId :=
          mem_sizedJobs.mpr ⟨mem, owned, (hasArtifacts_without.mp has).1, rfl⟩
        simp [none_] at this
      · refine Or.inl ?_
        rw [totalOf_without unique, kept_of_cut unique rows fit full small]
        exact held
      · refine Or.inr fun job mem owned has => ?_
        obtain ⟨had, kept⟩ := hasArtifacts_without.mp has
        have inRows : (job, db.sizeOf job) ∈ db.sizedJobs ownerId :=
          mem_sizedJobs.mpr ⟨mem, owned, had, rfl⟩
        have left : (job, db.sizeOf job) ∉ older ∨ ¬ job.status.isTerminal := by
          have := mt (mem_chosen_of_cut unique rows fit full small inRows).mpr
            (mt (id_mem_chosen unique mem).mpr kept)
          tauto
        rw [rows, List.mem_cons, List.mem_append] at inRows
        rcases inRows with e | near | far
        · refine Or.inl ?_
          have := isNewest_of_head rows
          rwa [← e] at this
        · exact Or.inr (idle _ near)
        · exact Or.inr (by simpa using left.resolve_left (not_not.mpr far))

/-- Where the oldest jobs go first, the first one discarded cuts the list. -/
theorem cut_of_oldestFirst
    (h : OldestFirst db ownerId quotaBytes (enforceStorageQuota db ownerId quotaBytes)) :
    Cut quotaBytes (db.sizedJobs ownerId) := by
  cases rows : db.sizedJobs ownerId with
  | nil => exact Or.inl rfl
  | cons newest rest =>
    refine Or.inr ?_
    have none_ : NoneFits quotaBytes (newest.2 + sizes rest) [] := by simp [NoneFits]
    by_cases small : (db.totalOf ownerId : Int) ≤ quotaBytes
    · have all : (newest.2 + sizes rest : Nat) ≤ quotaBytes := by
        rw [Database.totalOf, rows] at small
        simpa [sizes] using small
      refine ⟨newest, rest, [], by simp, ?_, none_, Or.inl (by simpa [unfinished] using all)⟩
      rintro before job size after rfl -
      simp only [sizes_append, sizes_cons] at all
      omega
    have taken := chosen_cons rows small
    have bound := h.bound
    rw [enforceStorageQuota_eq] at bound
    by_cases nothing : chosen db ownerId quotaBytes = []
    · refine ⟨newest, rest, [], by simp, ?_, none_, Or.inr ?_⟩
      · exact doomed_eq_nil.mp (taken ▸ nothing)
      · have all : (db.without []) = db := by simp [Database.without]
        rw [nothing, all] at bound
        intro row mem
        have inRows : row ∈ db.sizedJobs ownerId := rows ▸ List.mem_cons_of_mem _ mem
        obtain ⟨memJobs, owned, has, -⟩ := mem_sizedJobs.mp inRows
        refine (bound.resolve_left small row.1 memJobs owned has).resolve_left ?_
        exact not_isNewest_of_mem_tail unique rows (List.mem_map_of_mem mem)
    · obtain ⟨newer, job, size, older, e, fit, first⟩ := exists_first (taken ▸ nothing)
      subst e
      have full : NoneFits quotaBytes (newest.2 + sizes newer) ((job, size) :: older) := by
        have nodup := @nodup_sizedJobs db ownerId unique
        rw [rows, List.map_cons, List.map_append, List.nodup_cons, List.nodup_append] at nodup
        refine (mem_doomed_iff nodup.2.2.1).mp fun row mem finished => ?_
        rw [← doomed_append fit, ← taken]
        -- each of these rows is the first one discarded, or older
        have behind : ∀ row ∈ (job, size) :: older, row ∈ db.sizedJobs ownerId := by
          intro row mem
          rw [rows]
          exact List.mem_cons_of_mem _ (List.mem_append_right _ mem)
        obtain ⟨jobMem, -, jobHas, -⟩ := mem_sizedJobs.mp (behind _ List.mem_cons_self)
        obtain ⟨rowMem, owned, has, -⟩ := mem_sizedJobs.mp (behind _ mem)
        have before : Queue.Precedes row.1 job := by
          rcases List.mem_cons.mp mem with rfl | mem
          · exact Or.inr ⟨rfl, le_rfl⟩
          · have sorted := rows ▸ @pairwise_sizedJobs db ownerId
            have sorted' := (List.pairwise_append.mp (List.pairwise_cons.mp sorted).2).2.1
            exact (List.pairwise_cons.mp sorted').1 row mem
        have gone := discards_iff.mpr ⟨jobHas, (id_mem_chosen unique jobMem).mpr (taken ▸ first)⟩
        have goneToo := h.oldest job jobMem gone row.1 rowMem owned before finished has
        exact (id_mem_chosen unique rowMem).mp (discards_iff.mp goneToo).2
      refine ⟨newest, newer, (job, size) :: older, rfl, fit, full, ?_⟩
      rw [totalOf_without unique, kept_of_cut unique rows fit full small] at bound
      refine bound.imp_right fun left row mem => ?_
      have inRows : row ∈ db.sizedJobs ownerId := by
        rw [rows]
        exact List.mem_cons_of_mem _ (List.mem_append_left _ mem)
      obtain ⟨memJobs, owned, has, -⟩ := mem_sizedJobs.mp inRows
      have kept : row.1 ∉ chosen db ownerId quotaBytes := by
        intro gone
        have old := ((mem_chosen_of_cut unique rows fit full small inRows).mp gone).1
        have nodup := (@nodup_sizedJobs db ownerId unique).of_map _
        rw [rows, List.nodup_cons, List.nodup_append] at nodup
        exact nodup.2.2.2 row mem row old rfl
      refine (left row.1 memJobs owned (hasArtifacts_without.mpr
        ⟨has, mt (id_mem_chosen unique memJobs).mp kept⟩)).resolve_left ?_
      refine not_isNewest_of_mem_tail unique rows ?_
      exact List.mem_map_of_mem (List.mem_append_left _ mem)

theorem oldestFirst_iff :
    OldestFirst db ownerId quotaBytes (enforceStorageQuota db ownerId quotaBytes) ↔
      Cut quotaBytes (db.sizedJobs ownerId) :=
  ⟨cut_of_oldestFirst unique, oldestFirst_of_cut unique⟩

end Unique

/-- Jobs of one user with one artifact each, the newest first. -/
def shelf (jobs : List (JobStatus × Nat)) : Database where
  jobs := jobs.zipIdx.map fun (job, i) =>
    ⟨i, .suprem, 1, none, none, none, job.1, "", none, none, -i, none, none⟩
  artifacts := jobs.zipIdx.map fun (job, i) => ⟨i, "a.str", "", job.2, 1⟩
  structures := []

/-- Two jobs fit, the oldest one does not. -/
theorem oldestFirst_shelf : OldestFirst (shelf [(.succeeded, 4), (.failed, 4), (.succeeded, 8)]) 1 10
    (enforceStorageQuota (shelf [(.succeeded, 4), (.failed, 4), (.succeeded, 8)]) 1 10) := by
  refine (oldestFirst_iff (by decide)).mpr (Or.inr ⟨_, [_], [_], rfl, ?_, ?_, Or.inl ?_⟩)
  · exact allFit_cons.mpr ⟨fun _ => by decide, by simp [AllFit]⟩
  · exact noneFits_cons.mpr ⟨by decide, by simp [NoneFits]⟩
  · decide

/-- The oldest of three jobs still fits when the one before it has gone. -/
theorem not_oldestFirst : ¬ ∀ (db : Database) (ownerId : Nat) (quotaBytes : Int),
    (db.jobs.map Job.id).Nodup →
      OldestFirst db ownerId quotaBytes (enforceStorageQuota db ownerId quotaBytes) := by
  intro h
  have outcome := h (shelf [(.succeeded, 6), (.succeeded, 6), (.succeeded, 2)]) 1 10 (by decide)
  have gone := outcome.oldest
    ⟨1, .suprem, 1, none, none, none, .succeeded, "", none, none, -1, none, none⟩ (by decide)
    (by decide) ⟨2, .suprem, 1, none, none, none, .succeeded, "", none, none, -2, none, none⟩
    (by decide) rfl (by decide) rfl (by decide)
  exact absurd gone (by decide)

end TcadWebapp.Jobs
