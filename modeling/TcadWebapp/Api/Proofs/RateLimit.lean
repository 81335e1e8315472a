import Mathlib.Algebra.Order.Group.Int
import Mathlib.Algebra.Order.Sub.Basic
import TcadWebapp.Api.RateLimit
import TcadWebapp.Misc.Window

/-!
# A rate limiter counts its window

Whatever is pruned or collected lies before the window, now and later (`Trimmed`). So what is stored
of a key answers like all that was ever recorded of it.
-/

namespace TcadWebapp.Api

variable {T : Type*}

/-- What is stored of a key. -/
def Hits.stored (hits : Hits T) (key : String) : List T := (hits.get? key).getD []

@[simp] theorem Hits.stored_empty (key : String) : Hits.stored (∅ : Hits T) key = [] := rfl

@[simp] theorem Hits.stored_set (hits : Hits T) (key key' : String) (l : List T) :
    Hits.stored (Dict.set hits key l) key' = if key' = key then l else hits.stored key' := by
  by_cases same : key' = key
  · subst same
    simp [Hits.stored]
  · simp [Hits.stored, Dict.get?_set_of_ne _ _ same, same]

variable [LinearOrder T]

/-- Nothing stored is later than `now`, and all is in order. -/
structure Hits.InOrder (hits : Hits T) (now : T) : Prop where
  sorted : ∀ key, (hits.stored key).Pairwise (· ≤ ·)
  past : ∀ key, ∀ r ∈ hits.stored key, r ≤ now

variable {hits : Hits T}

theorem sorted_of_trimmed {hits' : Hits T} {cutoff : T}
    (sorted : ∀ key, (hits.stored key).Pairwise (· ≤ ·))
    (h : ∀ key, Trimmed cutoff (hits.stored key) (hits'.stored key)) :
    ∀ key, (hits'.stored key).Pairwise (· ≤ ·) :=
  fun key => (sorted key).sublist (h key).sublist

theorem Hits.InOrder.mono {now later : T} (h : hits.InOrder now) (le : now ≤ later) :
    hits.InOrder later :=
  ⟨h.sorted, fun key r hr => (h.past key r hr).trans le⟩

/-- What is trimmed stays in order, with something that is added at the end. -/
theorem Hits.InOrder.trimmed {hits' : Hits T} {now cutoff : T} (h : hits.InOrder now)
    {added : String → List T} (one : ∀ key, added key = [] ∨ added key = [now])
    (trimmed : ∀ key, Trimmed cutoff (hits.stored key ++ added key) (hits'.stored key)) :
    hits'.InOrder now := by
  constructor
  · intro key
    refine List.Pairwise.sublist (trimmed key).sublist ?_
    rcases one key with none | one
    · rw [none, List.append_nil]
      exact h.sorted key
    · rw [one]
      refine List.pairwise_append.mpr ⟨h.sorted key, List.pairwise_singleton .., ?_⟩
      intro a ha b hb
      rw [List.mem_singleton.mp hb]
      exact h.past key a ha
  · intro key r hr
    rcases List.mem_append.mp ((trimmed key).sublist.subset hr) with hr | hr
    · exact h.past key r hr
    · rcases one key with none | one
      · rw [none] at hr
        cases hr
      · rw [one] at hr
        exact (List.mem_singleton.mp hr).le

variable [AddCommGroup T]

section Primitives

variable (limiter : RateLimiter T)

theorem prune_snd (sorted : ∀ key, (hits.stored key).Pairwise (· ≤ ·)) (key : String) (now : T) :
    (limiter.prune hits key now).2 = since (limiter.cutoff now) (hits.stored key) := by
  rw [← dropWhile_eq_since (sorted key)]
  unfold RateLimiter.prune Hits.stored
  cases hits.get? key <;> rfl

theorem stored_prune (key key' : String) (now : T) :
    (limiter.prune hits key now).1.stored key' =
      if key' = key then (limiter.prune hits key now).2 else hits.stored key' := by
  unfold RateLimiter.prune
  cases found : hits.get? key with
  | none =>
    by_cases same : key' = key
    · subst same
      simp [Hits.stored, found]
    · simp [same]
  | some stored => simp

/-- Pruning takes away what no later window holds. -/
theorem trimmed_prune (sorted : ∀ key, (hits.stored key).Pairwise (· ≤ ·)) (key key' : String)
    (now : T) : Trimmed (limiter.cutoff now) (hits.stored key')
      ((limiter.prune hits key now).1.stored key') := by
  rw [stored_prune, prune_snd limiter sorted]
  by_cases same : key' = key
  · subst same
    rw [if_pos rfl]
    exact Trimmed.of_since ..
  · rw [if_neg same]
    exact Trimmed.refl ..

theorem trimmed_collectGarbage (sorted : ∀ key, (hits.stored key).Pairwise (· ≤ ·)) (key : String)
    (now : T) : Trimmed (limiter.cutoff now) (hits.stored key)
      ((limiter.collectGarbage hits now).stored key) := by
  unfold RateLimiter.collectGarbage Hits.stored
  rw [Dict.get?_filterKeys]
  split
  · exact Trimmed.refl ..
  · rename_i dropped
    apply Trimmed.of_last (sorted key)
    intro a ha
    by_contra inside
    apply dropped
    cases found : hits.get? key with
    | none => simp [Hits.stored, found] at ha
    | some l =>
      have last : l.getLast? = some a := by simpa [Hits.stored, found] using ha
      simpa [last] using inside

/-- A record is added to what is stored of its key. -/
theorem trimmed_record {now : T} (inOrder : hits.InOrder now) (key key' : String) :
    Trimmed (limiter.cutoff now) (hits.stored key' ++ if key' = key then [now] else [])
      ((limiter.record hits key now).stored key') := by
  have added : ∀ key', Trimmed (limiter.cutoff now)
      (hits.stored key' ++ if key' = key then [now] else [])
      (Hits.stored (Dict.set (limiter.prune hits key now).1 key
        ((limiter.prune hits key now).2 ++ [now])) key') := by
    intro key'
    have pruned := trimmed_prune limiter inOrder.sorted key key' now
    rw [Hits.stored_set]
    by_cases same : key' = key
    · subst same
      rw [stored_prune, if_pos rfl] at pruned
      rw [if_pos rfl, if_pos rfl]
      exact pruned.append [now]
    · rw [if_neg same, if_neg same, List.append_nil]
      exact pruned
  have sorted := (inOrder.trimmed (fun key' => by by_cases same : key' = key <;> simp [same])
    added).sorted
  exact (added key').trans (trimmed_collectGarbage limiter sorted key' now)

/-- What a call records. -/
def Call.added (limiter : RateLimiter T) (hits : Hits T) (call : Call T) (key : String) : List T :=
  if call.key = key then (call.recorded limiter hits).toList else []

theorem allow_of_blocked {key : String} {now later : T}
    (h : (limiter.blocked hits key now).2 = true) :
    limiter.allow hits key now later = ((limiter.prune hits key now).1, false) := by
  simp only [RateLimiter.allow, h, if_true]
  rfl

theorem allow_of_not_blocked {key : String} {now later : T}
    (h : (limiter.blocked hits key now).2 = false) : limiter.allow hits key now later =
      (limiter.record (limiter.prune hits key now).1 key later, true) := by
  simp only [RateLimiter.allow, h, Bool.false_eq_true, if_false]
  rfl

theorem retryAfter_fst (key : String) (now : T) :
    (limiter.retryAfter hits key now).1 = (limiter.prune hits key now).1 := by
  simp only [RateLimiter.retryAfter]
  split <;> rfl

/-- The clock does not go back in a call. -/
theorem Call.now_le_last (hits : Hits T) {call : Call T} {now : T} (begins : call.Begins now) :
    now ≤ call.now ∧ call.now ≤ call.last limiter hits := by
  cases call with
  | allow key at' later =>
    obtain ⟨start, order⟩ := begins
    refine ⟨start, ?_⟩
    simp only [Call.last, Call.recorded]
    split
    · exact order
    · exact le_rfl
  | blocked key at' => exact ⟨begins, le_rfl⟩
  | record key at' => exact ⟨begins, le_rfl⟩
  | retryAfter key at' => exact ⟨begins, le_rfl⟩

/-- What a call answers depends on what lies in its window. -/
theorem Call.answer_congr {hits' : Hits T} (sorted : ∀ key, (hits.stored key).Pairwise (· ≤ ·))
    (sorted' : ∀ key, (hits'.stored key).Pairwise (· ≤ ·)) {call : Call T}
    (same : since (limiter.cutoff call.now) (hits'.stored call.key) =
      since (limiter.cutoff call.now) (hits.stored call.key)) :
    (call.run limiter hits').2 = (call.run limiter hits).2 := by
  have pruned : (limiter.prune hits' call.key call.now).2 = (limiter.prune hits call.key call.now).2 := by
    rw [prune_snd limiter sorted, prune_snd limiter sorted', same]
  cases call with
  | allow key now later =>
    have checked : (limiter.blocked hits' key now).2 = (limiter.blocked hits key now).2 := by
      simp only [RateLimiter.blocked]
      rw [show (limiter.prune hits' key now).2 = (limiter.prune hits key now).2 from pruned]
    simp only [Call.run, RateLimiter.allow, checked]
    split <;> rfl
  | blocked key now =>
    simp only [Call.run, RateLimiter.blocked, Prod.map]
    rw [show (limiter.prune hits' key now).2 = (limiter.prune hits key now).2 from pruned]
  | record key now => rfl
  | retryAfter key now =>
    simp only [Call.run, RateLimiter.retryAfter]
    rw [show (limiter.prune hits' key now).2 = (limiter.prune hits key now).2 from pruned]
    split <;> rfl

variable [IsOrderedAddMonoid T]

theorem cutoff_le {now later : T} (le : now ≤ later) : limiter.cutoff now ≤ limiter.cutoff later :=
  sub_le_sub_right le _

/-- A call adds what it records and takes away what no later window holds. -/
theorem Call.trimmed {call : Call T} {now : T} (inOrder : hits.InOrder now)
    (begins : call.Begins now) (key : String) :
    Trimmed (limiter.cutoff (call.last limiter hits))
      (hits.stored key ++ call.added limiter hits key) ((call.run limiter hits).1.stored key) := by
  have pruned : ∀ (key' : String) (at' : T) (key : String), Trimmed (limiter.cutoff at')
      (hits.stored key ++ []) ((limiter.prune hits key' at').1.stored key) := by
    intro key' at' key
    rw [List.append_nil]
    exact trimmed_prune limiter inOrder.sorted key' key at'
  cases call with
  | allow key' at' later =>
    obtain ⟨start, order⟩ := begins
    cases refused : (limiter.blocked hits key' at').2 with
    | true =>
      simp only [Call.last, Call.added, Call.recorded, Call.run, allow_of_blocked limiter refused]
      simpa [Call.now] using pruned key' at' key
    | false =>
      simp only [Call.last, Call.added, Call.recorded, Call.run, allow_of_not_blocked limiter refused]
      have inOrder' : (limiter.prune hits key' at').1.InOrder later :=
        (inOrder.mono (start.trans order)).trimmed (fun _ => Or.inl rfl) (pruned key' at')
      have recorded := trimmed_record limiter inOrder' key' key
      have before := ((trimmed_prune limiter inOrder.sorted key' key at').mono (cutoff_le limiter order)).append
        (if key = key' then [later] else [])
      simpa [Call.key, eq_comm] using before.trans recorded
  | blocked key' at' =>
    simpa [Call.added, Call.recorded, Call.last, Call.run, Call.now, RateLimiter.blocked]
      using pruned key' at' key
  | record key' at' =>
    have recorded := trimmed_record limiter (inOrder.mono begins) key' key
    simpa [Call.added, Call.recorded, Call.last, Call.run, Call.key, eq_comm] using recorded
  | retryAfter key' at' =>
    have kept := pruned key' at' key
    rw [← retryAfter_fst] at kept
    simpa [Call.added, Call.recorded, Call.last, Call.run, Call.now] using kept

end Primitives

/-! ## Runs -/

section Runs

variable {limiter : RateLimiter T} {s : Limiting T}
  {h : List (Taken (Limiting T) (Call T))}

theorem limiting_start (limiter : RateLimiter T) (now : T) : (limiting limiter).start ⟨∅, now⟩ := rfl

theorem limiting_step {t : Limiting T} {call : Call T}
    (step : (limiting limiter).step s call = some t) :
    call.Begins s.now ∧ t = ⟨(call.run limiter s.hits).1, call.last limiter s.hits⟩ := by
  simp only [limiting] at step
  split at step
  · rename_i begins
    cases step
    exact ⟨begins, rfl⟩
  · cases step

theorem reverse_records_cons (key : String) (call : Call T) (t : Limiting T) :
    (records limiter key (⟨s, call, t⟩ :: h)).reverse =
      (records limiter key h).reverse ++ call.added limiter s.hits key := by
  unfold records Call.added
  rw [List.filterMap_cons]
  by_cases same : call.key = key
  · simp only [same, if_true]
    cases call.recorded limiter s.hits <;> simp
  · simp [same]

theorem added_cases (limiter : RateLimiter T) (call : Call T) (hits : Hits T) (key : String) :
    call.added limiter hits key = [] ∨ call.added limiter hits key = [call.last limiter hits] := by
  unfold Call.added Call.last
  by_cases same : call.key = key
  · cases call.recorded limiter hits <;> simp [same]
  · simp [same]

/-- What is stored of a key and what was ever recorded of it agree on every window to come. -/
structure Limiting.Inv (limiter : RateLimiter T) (h : List (Taken (Limiting T) (Call T)))
    (s : Limiting T) : Prop where
  inOrder : s.hits.InOrder s.now
  agrees : ∀ key c, limiter.cutoff s.now ≤ c →
    since c (s.hits.stored key) = since c (records limiter key h).reverse
  past : ∀ key, ∀ r ∈ records limiter key h, r ≤ s.now
  ordered : ∀ key, (records limiter key h).reverse.Pairwise (· ≤ ·)

theorem windowOf_append {key : String} {later : List (Taken (Limiting T) (Call T))}
    (none : records limiter key later = []) (time : T) :
    windowOf limiter key (later ++ h) time = windowOf limiter key h time := by
  unfold windowOf
  rw [records, List.filterMap_append]
  rw [show later.filterMap _ = [] from none]
  rfl

theorem now_le_of_run {later : List (Taken (Limiting T) (Call T))} {x : Taken (Limiting T) (Call T)}
    {t : Limiting T} (run : (limiting limiter).Run (later ++ x :: h) t) : x.post.now ≤ t.now := by
  apply run.persists (P := fun t => x.post.now ≤ t.now) le_rfl
  intro y _ step before
  obtain ⟨begins, post⟩ := limiting_step step
  obtain ⟨start, order⟩ := Call.now_le_last limiter y.pre.hits begins
  rw [post]
  exact before.trans (start.trans order)

variable [IsOrderedAddMonoid T]

theorem Limiting.Inv.step (inv : s.Inv limiter h) {t : Limiting T} {call : Call T}
    (step : (limiting limiter).step s call = some t) : t.Inv limiter (⟨s, call, t⟩ :: h) := by
  obtain ⟨begins, rfl⟩ := limiting_step step
  have trimmed := Call.trimmed limiter inv.inOrder begins
  obtain ⟨start, order⟩ := Call.now_le_last limiter s.hits begins
  have later := start.trans order
  constructor
  · exact (inv.inOrder.mono later).trimmed (added_cases limiter call s.hits) trimmed
  · intro key c hc
    rw [reverse_records_cons, since_append, (trimmed key).since_eq c hc, since_append,
      inv.agrees key c ((cutoff_le limiter later).trans hc)]
  · intro key r hr
    rw [← List.mem_reverse, reverse_records_cons] at hr
    rcases List.mem_append.mp hr with hr | hr
    · exact (inv.past key r (List.mem_reverse.mp hr)).trans later
    · rcases added_cases limiter call s.hits key with none | one
      · rw [none] at hr
        cases hr
      · rw [one] at hr
        exact (List.mem_singleton.mp hr).le
  · intro key
    rw [reverse_records_cons]
    rcases added_cases limiter call s.hits key with none | one
    · rw [none, List.append_nil]
      exact inv.ordered key
    · rw [one]
      refine List.pairwise_append.mpr ⟨inv.ordered key, List.pairwise_singleton .., ?_⟩
      intro a ha b hb
      rw [List.mem_singleton.mp hb]
      exact (inv.past key a (List.mem_reverse.mp ha)).trans later

theorem Limiting.inv_of_run (run : (limiting limiter).Run h s) : s.Inv limiter h := by
  apply run.invariant_history
  · intro s start
    have empty : s.hits = ∅ := start
    refine ⟨⟨?_, ?_⟩, ?_, nofun, fun _ => List.Pairwise.nil⟩
    · simp [empty]
    · simp [empty]
    · intro key c hc
      simp [empty, records]
  · intro h s call t run inv step
    exact inv.step step

/-- The window of a call holds what was recorded in it. -/
theorem prune_of_run (run : (limiting limiter).Run h s) (key : String) {now : T} (le : s.now ≤ now) :
    (limiter.prune s.hits key now).2 =
      since (limiter.cutoff now) (records limiter key h).reverse := by
  have inv := Limiting.inv_of_run run
  rw [prune_snd limiter inv.inOrder.sorted, inv.agrees key _ (cutoff_le limiter le)]

theorem plainlyLimits_of_run (run : (limiting limiter).Run h s) : PlainlyLimits limiter h s := by
  have inv := Limiting.inv_of_run run
  constructor
  · intro key now le
    have counted : (limiter.prune s.hits key now).2.length = (records limiter key h).countP
        fun r => now - limiter.windowSeconds < r ∧ r ≤ now := by
      rw [prune_of_run run key le, since, ← List.countP_eq_length_filter, List.countP_reverse]
      apply List.countP_congr
      intro r hr
      have past := (inv.past key r hr).trans le
      rw [decide_eq_true_iff, decide_eq_true_iff]
      exact (and_iff_left past).symm
    simp [RateLimiter.blocked, counted]
  · intro key now later
    cases refused : (limiter.blocked s.hits key now).2 with
    | true => rw [allow_of_blocked limiter refused]; rfl
    | false => rw [allow_of_not_blocked limiter refused]; rfl
  · intro call call' begins begins' other
    have trimmed := Call.trimmed limiter inv.inOrder begins
    obtain ⟨start, order⟩ := Call.now_le_last limiter s.hits begins
    apply Call.answer_congr limiter inv.inOrder.sorted
    · exact ((inv.inOrder.mono (start.trans order)).trimmed (added_cases limiter call s.hits) trimmed).sorted
    · have none : call.added limiter s.hits call'.key = [] := if_neg (Ne.symm other)
      have same := trimmed call'.key
      rw [none, List.append_nil] at same
      apply same.since_eq
      exact cutoff_le limiter (Call.now_le_last limiter s.hits begins').1
  · intro now le call begins
    have trimmed := fun key => trimmed_collectGarbage limiter inv.inOrder.sorted key now
    apply Call.answer_congr limiter inv.inOrder.sorted
    · exact sorted_of_trimmed inv.inOrder.sorted trimmed
    · apply (trimmed call.key).since_eq
      exact cutoff_le limiter (Call.now_le_last limiter s.hits begins).1

theorem windowOf_eq (run : (limiting limiter).Run h s) (key : String) {now : T} (le : s.now ≤ now) :
    windowOf limiter key h now = (limiter.prune s.hits key now).2 :=
  (prune_of_run run key le).symm

/-- A window that slides on over the same records. -/
theorem windowOf_slides (key : String) (h : List (Taken (Limiting T) (Call T))) {now time : T}
    (le : now ≤ time) :
    windowOf limiter key h time = since (limiter.cutoff time) (windowOf limiter key h now) :=
  (since_since (cutoff_le limiter le) _).symm

theorem pairwise_windowOf (run : (limiting limiter).Run h s) (key : String) (now : T) :
    (windowOf limiter key h now).Pairwise (· ≤ ·) :=
  ((Limiting.inv_of_run run).ordered key).sublist (since_sublist ..)

/-- A call is blocked as long as the record that is last but the limit is in the window. -/
theorem blocked_iff (run : (limiting limiter).Run h s) {key : String} {now time : T}
    (le : s.now ≤ time) (slid : now ≤ time) :
    (limiter.blocked s.hits key time).2 = true ↔
      limiter.limit ≤ (windowOf limiter key h now).length ∧
        ∀ a, (windowOf limiter key h now)[(windowOf limiter key h now).length - limiter.limit]? =
          some a → limiter.cutoff time < a := by
  rw [← le_length_since (pairwise_windowOf run key now), ← windowOf_slides key h slid,
    windowOf_eq run key le]
  simp [RateLimiter.blocked]

/-- What is told is how long the first record stays in the window. -/
theorem retryAfter_of_run (run : (limiting limiter).Run h s) (key : String) {now : T}
    (le : s.now ≤ now) : (limiter.retryAfter s.hits key now).2 =
      if (windowOf limiter key h now).length < limiter.limit then some 0
      else (windowOf limiter key h now).head?.map fun first => first + limiter.windowSeconds - now := by
  rw [windowOf_eq run key le]
  simp only [RateLimiter.retryAfter]
  split
  · rfl
  · apply Option.map_congr
    intro first hfirst
    rw [← windowOf_eq run key le] at hfirst
    have inside : now - limiter.windowSeconds < first :=
      (mem_since.mp (List.mem_of_head? hfirst)).2
    apply max_eq_right
    rw [sub_nonneg]
    exact (sub_lt_iff_lt_add.mp inside).le

/-- Two attempts are allowed in ten seconds; the third is refused, the next one after the first has
left the window is not. -/
def twoInTen : List (Call Int) :=
  [.allow "a" 0 0, .record "b" 1, .allow "a" 4 4, .allow "a" 9 9, .blocked "b" 9, .allow "a" 10 10]

theorem plainlyLimits_of_run_twoInTen : ∃ h s,
    (limiting (⟨2, 10⟩ : RateLimiter Int)).exec ⟨∅, 0⟩ twoInTen = some (h, s) ∧
      PlainlyLimits ⟨2, 10⟩ h s :=
  ⟨_, _, rfl, plainlyLimits_of_run (Lts.Run.of_exec (limiting_start _ 0)
    (show (limiting (⟨2, 10⟩ : RateLimiter Int)).exec ⟨∅, 0⟩ twoInTen = some _ from rfl))⟩

/-! ## The waiting time -/

/-- What a key without a new record is answered later on. -/
theorem blocked_later {key : String} {now time : T} {told t : Limiting T}
    {later : List (Taken (Limiting T) (Call T))}
    (run : (limiting limiter).Run (later ++ ⟨s, .retryAfter key now, told⟩ :: h) t)
    (none : records limiter key later = []) (le : t.now ≤ time) :
    (limiter.blocked t.hits key time).2 = true ↔
      limiter.limit ≤ (windowOf limiter key h now).length ∧
        ∀ a, (windowOf limiter key h now)[(windowOf limiter key h now).length - limiter.limit]? =
          some a → limiter.cutoff time < a := by
  have same : windowOf limiter key (later ++ ⟨s, .retryAfter key now, told⟩ :: h) now =
      windowOf limiter key h now := by
    rw [windowOf_append none]
    simp [windowOf, records, Call.recorded]
  obtain ⟨-, post⟩ := limiting_step run.before.2
  have now_le : now ≤ time := by
    refine le_trans ?_ ((now_le_of_run run).trans le)
    show now ≤ told.now
    rw [show told = _ from post]
    exact le_rfl
  rw [← same]
  exact blocked_iff run le now_le

theorem tellsExactly_iff (run : (limiting limiter).Run h s) (key : String) {now : T}
    (le : s.now ≤ now) : TellsExactly limiter h s key now ↔ NoSurplus limiter h key now := by
  have sorted := pairwise_windowOf run key now
  have told := retryAfter_of_run run key le
  by_cases few : (windowOf limiter key h now).length < limiter.limit
  · -- not blocked, and there is no wait
    rw [if_pos few] at told
    apply iff_of_true
    · intro wait after' hwait step later t run' none
      obtain rfl : 0 = wait := Option.some.inj (told.symm.trans hwait)
      obtain ⟨-, post⟩ := limiting_step step
      have clock : now ≤ t.now := by
        have := now_le_of_run run'
        rw [show after' = _ from post] at this
        exact this
      refine ⟨?_, ?_⟩
      · intro hle
        by_contra refused
        rw [Bool.not_eq_false, blocked_later run' none hle] at refused
        omega
      · intro time hle short
        rw [add_zero] at short
        exact absurd (clock.trans hle) (not_le.mpr short)
    · show _ = _
      rw [show (windowOf limiter key h now).length - limiter.limit = 0 by omega,
        List.head?_eq_getElem?]
  · rw [if_neg few] at told
    cases found : windowOf limiter key h now with
    | nil =>
      -- the limit is zero, and the call has failed
      rw [found] at told few
      have zero : limiter.limit = 0 := by simpa using few
      apply iff_of_true
      · intro wait after' hwait
        rw [told] at hwait
        cases hwait
      · simp [NoSurplus, found, zero]
    | cons first rest =>
      rw [found, List.head?_cons, Option.map_some] at told
      rw [found] at sorted few
      have least : ∀ a ∈ first :: rest, first ≤ a := by
        intro a ha
        rcases List.mem_cons.mp ha with rfl | ha
        · exact le_rfl
        · exact (List.pairwise_cons.mp sorted).1 a ha
      have ends : limiter.cutoff (now + (first + limiter.windowSeconds - now)) = first := by
        simp [RateLimiter.cutoff]
      have inside : now < first + limiter.windowSeconds := by
        have mem : first ∈ windowOf limiter key h now := found ▸ List.mem_cons_self
        exact sub_lt_iff_lt_add.mp (mem_since.mp mem).2
      have reached : now + (first + limiter.windowSeconds - now) = first + limiter.windowSeconds :=
        add_sub_cancel ..
      constructor
      · intro tells
        have step : (limiting limiter).step s (.retryAfter key now) = some _ := if_pos le
        have run' : (limiting limiter).Run ([] ++ _ :: h) _ := run.next step
        have clock : now ≤ now + (first + limiter.windowSeconds - now) := by
          rw [reached]
          exact inside.le
        have free := (tells _ _ told step [] _ run' rfl).1 clock
        have later := blocked_later run' rfl clock
        rw [← Bool.not_eq_true, later, found, ends] at free
        push Not at free
        obtain ⟨a, at', out⟩ := free (not_lt.mp few)
        have same : a = first := le_antisymm out (least a (List.mem_of_getElem? at'))
        simp only [NoSurplus, found]
        rw [at', same, List.head?_cons]
      · intro level wait after' hwait step later t run' none
        simp only [NoSurplus, found, List.head?_cons] at level
        obtain rfl := Option.some.inj (told.symm.trans hwait)
        refine ⟨?_, ?_⟩
        · intro hle
          rw [← Bool.not_eq_true, blocked_later run' none hle, found, ends]
          rintro ⟨-, all⟩
          exact lt_irrefl first (all first level)
        · intro time hle short
          rw [blocked_later run' none hle, found]
          refine ⟨not_lt.mp few, ?_⟩
          intro a ha
          rw [reached] at short
          exact (sub_lt_iff_lt_add.mpr short).trans_le (least a (List.mem_of_getElem? ha))

theorem tellsExactly_iff_allow : ∃ h s,
    (limiting (⟨1, 10⟩ : RateLimiter Int)).exec ⟨∅, 0⟩ [.allow "a" 0 0] = some (h, s) ∧
      TellsExactly ⟨1, 10⟩ h s "a" 6 :=
  ⟨_, _, rfl, (tellsExactly_iff (Lts.Run.of_exec (limiting_start _ 0)
    (show (limiting (⟨1, 10⟩ : RateLimiter Int)).exec ⟨∅, 0⟩ [.allow "a" 0 0] = some _ from rfl))
      "a" (by decide)).mpr (by decide)⟩

/-- With two records in the window of a limiter for one, the time that is told is that of the first,
and the second still blocks when it is over. -/
theorem not_tellsExactly : ¬ ∀ limiter : RateLimiter Int, 0 < limiter.limit →
    0 < limiter.windowSeconds → ∀ (h : List (Taken (Limiting Int) (Call Int))) (s : Limiting Int),
      (limiting limiter).Run h s → ∀ key now, s.now ≤ now → TellsExactly limiter h s key now := by
  intro all
  have run : (limiting (⟨1, 10⟩ : RateLimiter Int)).Run _ _ := Lts.Run.of_exec (limiting_start _ 0)
    (show (limiting (⟨1, 10⟩ : RateLimiter Int)).exec ⟨∅, 0⟩ [.record "a" 0, .record "a" 5] =
      some _ from rfl)
  have tells := all _ (by decide) (by decide) _ _ run "a" 6 (by decide)
  have run' : (limiting (⟨1, 10⟩ : RateLimiter Int)).Run ([] ++ _ :: _) _ :=
    run.next (show (limiting (⟨1, 10⟩ : RateLimiter Int)).step _ (.retryAfter "a" 6) = some _ from rfl)
  exact absurd ((tells 4 _ rfl rfl [] _ run' rfl).1 (by decide)) (by decide)

end Runs

end TcadWebapp.Api
