import TcadWebapp.Suprem.Sparse

/-!
# The rows that are wanted

While `symfac` and `numfac` go over the columns, the rows before column `k` that still have a place from `k` on are
each on the list of the first such place (`Threaded`). So the list of `k` has the rows in which `k` is (`mem_chain`),
and the loop over it does each of them once (`subtract_eq`).
-/

namespace TcadWebapp.Suprem

variable {n k i j : ℕ} {il il' : ℕ → ℕ}

theorem mem_spanOf {p : ℕ} : p ∈ spanOf il i ↔ il i ≤ p ∧ p < il (i + 1) := by
  rw [spanOf, List.mem_range'_1]
  omega

theorem mem_rowOf : j ∈ rowOf il i ↔ ∃ p, il i ≤ p ∧ p < il (i + 1) ∧ il p = j := by
  simp only [rowOf, List.mem_map, mem_spanOf, and_assoc]

/-- The heads of the first `k` of `n` rows are in place. -/
structure Headed (n : ℕ) (il : ℕ → ℕ) (k : ℕ) : Prop where
  start : il 0 = n + 1
  mono : ∀ i < k, il i ≤ il (i + 1)

namespace Headed

theorem le (headed : Headed n il k) {i j : ℕ} (le : i ≤ j) (top : j ≤ k) : il i ≤ il j := by
  induction j, le using Nat.le_induction with
  | base => exact le_rfl
  | succ j _ ih => exact (ih (Nat.le_of_succ_le top)).trans (headed.mono j top)

theorem head_le (headed : Headed n il k) (le : i ≤ k) : n + 1 ≤ il i :=
  headed.start ▸ headed.le (Nat.zero_le i) le

theorem headed_of_le (headed : Headed n il k) {m : ℕ} (le : m ≤ k) : Headed n il m where
  start := headed.start
  mono i lt := headed.mono i (lt.trans_le le)

end Headed

/-- Each of the rows has its columns in order, right of the diagonal. -/
structure Mapped (n : ℕ) (il : ℕ → ℕ) (k : ℕ) : Prop extends Headed n il k where
  sorted : ∀ i < k, ∀ p q, il i ≤ p → p < q → q < il (i + 1) → il p < il q
  above : ∀ i < k, ∀ p, il i ≤ p → p < il (i + 1) → i < il p ∧ il p < n

namespace Mapped

theorem of_le (mapped : Mapped n il k) {m : ℕ} (le : m ≤ k) : Mapped n il m where
  toHeaded := mapped.headed_of_le le
  sorted i lt := mapped.sorted i (lt.trans_le le)
  above i lt := mapped.above i (lt.trans_le le)

/-- A column is once in a row. -/
theorem place_unique (mapped : Mapped n il k) (lt : i < k) {p q : ℕ} (le_p : il i ≤ p) (lt_p : p < il (i + 1))
    (le_q : il i ≤ q) (lt_q : q < il (i + 1)) (same : il p = il q) : p = q := by
  rcases Nat.lt_trichotomy p q with less | same_place | less
  · exact absurd same (mapped.sorted i lt p q le_p less lt_q).ne
  · exact same_place
  · exact absurd same (mapped.sorted i lt q p le_q less lt_p).ne'

theorem row_above (mapped : Mapped n il k) (lt : i < k) (mem : j ∈ rowOf il i) : i < j ∧ j < n := by
  obtain ⟨p, le_p, lt_p, rfl⟩ := mem_rowOf.mp mem
  exact mapped.above i lt p le_p lt_p

theorem row_nodup (mapped : Mapped n il k) (lt : i < k) : (rowOf il i).Nodup := by
  rw [rowOf, spanOf, List.nodup_map_iff_inj_on List.nodup_range']
  intro p mem_p q mem_q same
  rw [← spanOf, mem_spanOf] at mem_p mem_q
  exact mapped.place_unique lt mem_p.1 mem_p.2 mem_q.1 mem_q.2 same

end Mapped

/-- Another map with the same rows before `k`. -/
structure SameRows (n k : ℕ) (il il' : ℕ → ℕ) : Prop where
  heads : ∀ i ≤ k, il' i = il i
  places : ∀ p, n + 1 ≤ p → p < il k → il' p = il p

namespace SameRows

variable (same : SameRows n k il il')

include same

theorem place (headed : Headed n il k) (lt : i < k) {p : ℕ} (le_p : il i ≤ p) (lt_p : p < il (i + 1)) :
    il' p = il p := by
  apply same.places
  · exact (headed.head_le lt.le).trans le_p
  · exact lt_p.trans_le (headed.le lt le_rfl)

theorem headed (headed : Headed n il k) : Headed n il' k where
  start := (same.heads 0 (Nat.zero_le k)).trans headed.start
  mono i lt := by
    rw [same.heads i lt.le, same.heads (i + 1) lt]
    exact headed.mono i lt

theorem row (headed : Headed n il k) (lt : i < k) : rowOf il' i = rowOf il i := by
  rw [rowOf, rowOf, spanOf, spanOf, same.heads i lt.le, same.heads (i + 1) lt]
  apply List.map_congr_left
  intro p mem
  have := mem_spanOf.mp mem
  exact same.place headed lt this.1 this.2

theorem mapped (mapped : Mapped n il k) : Mapped n il' k where
  toHeaded := same.headed mapped.toHeaded
  sorted i lt p q le_p less lt_q := by
    rw [same.heads i lt.le] at le_p
    rw [same.heads (i + 1) lt] at lt_q
    rw [same.place mapped.toHeaded lt le_p (less.trans lt_q), same.place mapped.toHeaded lt (le_p.trans less.le) lt_q]
    exact mapped.sorted i lt p q le_p less lt_q
  above i lt p le_p lt_p := by
    rw [same.heads i lt.le] at le_p
    rw [same.heads (i + 1) lt] at lt_p
    rw [same.place mapped.toHeaded lt le_p lt_p]
    exact mapped.above i lt p le_p lt_p

end SameRows

/-! ## The lists -/

/-- Row `i` is at the first of its places from column `b` on, the one at `c`. -/
structure PlacedAt (il : ℕ → ℕ) (b i p c : ℕ) : Prop where
  le : il i ≤ p
  lt : p < il (i + 1)
  col : il p = c
  first : ∀ q, il i ≤ q → q < p → il q < b

/-- The rows before `m` that have places from column `b` on are each on the list of the first of them, but for those of
`rest`. -/
structure Threaded (il : ℕ → ℕ) (m b : ℕ) (rest : List ℕ) (links : Links) (chain : ℕ → List ℕ) : Prop where
  chained : Chained links.lrow b chain
  rows : ∀ c, b ≤ c → ∀ i ∈ chain c, i < m ∧ PlacedAt il b i (links.lstr i) c
  complete : ∀ i < m, i ∉ rest → ∀ p, il i ≤ p → p < il (i + 1) → b ≤ il p → ∃ c, b ≤ c ∧ i ∈ chain c
  free : ∀ i ∈ rest, ∀ c, b ≤ c → i ∉ chain c

namespace Threaded

variable {links : Links} {chain : ℕ → List ℕ}

/-- The list of `k` has the rows that `k` is in. -/
theorem mem_chain (threaded : Threaded il k k [] links chain) (mapped : Mapped n il k) :
    i ∈ chain k ↔ i < k ∧ k ∈ rowOf il i := by
  constructor
  · intro mem
    obtain ⟨lt, placed⟩ := threaded.rows k le_rfl i mem
    exact ⟨lt, mem_rowOf.mpr ⟨_, placed.le, placed.lt, placed.col⟩⟩
  · intro both
    obtain ⟨lt, mem⟩ := both
    obtain ⟨p, le_p, lt_p, rfl⟩ := mem_rowOf.mp mem
    obtain ⟨c, le_c, on⟩ := threaded.complete i lt List.not_mem_nil p le_p lt_p le_rfl
    obtain ⟨-, placed⟩ := threaded.rows c le_c i on
    -- the first place from `k` on is that of `k`
    have not_less : ¬p < links.lstr i := fun less => lt_irrefl _ (placed.first p le_p less)
    rcases Nat.lt_or_eq_of_le (Nat.not_lt.mp not_less) with less | same
    · have := mapped.sorted i lt _ p placed.le less lt_p
      rw [placed.col] at this
      omega
    · have : il p = c := same ▸ placed.col
      rwa [this]

theorem start (il : ℕ → ℕ) (lstr : ℕ → ℕ) : Threaded il 0 0 [] { lrow := fun _ => none, lstr } fun _ => [] where
  chained := Chained.empty
  rows _ _ _ mem := by cases mem
  complete i lt := absurd lt (Nat.not_lt_zero i)
  free _ mem := by cases mem

/-- The list of `k` is taken off to be walked. -/
theorem take (threaded : Threaded il k k [] links chain) : Threaded il k (k + 1) (chain k) links chain where
  chained := threaded.chained.later
  rows c le i mem := by
    obtain ⟨lt, placed⟩ := threaded.rows c (Nat.le_of_succ_le le) i mem
    exact ⟨lt, placed.le, placed.lt, placed.col, fun q le_q lt_q => Nat.lt_succ_of_lt (placed.first q le_q lt_q)⟩
  complete i lt away p le_p lt_p le := by
    obtain ⟨c, le_c, mem⟩ := threaded.complete i lt List.not_mem_nil p le_p lt_p (Nat.le_of_succ_le le)
    have ne : c ≠ k := fun eq => away (eq ▸ mem)
    exact ⟨c, by omega, mem⟩
  free i mem c le on := by
    have := threaded.chained.apart k c le_rfl (Nat.le_of_succ_le le) i mem on
    omega

/-- A row goes on the list of the first place that it has left. -/
theorem push {m b p : ℕ} {rest : List ℕ} (threaded : Threaded il m b (i :: rest) links chain) (lt : i < m) (le : i < b)
    (nodup : i ∉ rest) (ahead : b ≤ il p) (placed : PlacedAt il b i p (il p)) :
    Threaded il m b rest (links.push il i p) (Function.update chain (il p) (i :: chain (il p))) where
  chained := threaded.chained.push le ahead fun d => threaded.free i List.mem_cons_self d
  rows c le_c j mem := by
    have other (mem : j ∈ chain c) : j < m ∧ PlacedAt il b j ((links.push il i p).lstr j) c := by
      have ne : j ≠ i := fun eq => threaded.free i List.mem_cons_self c le_c (eq ▸ mem)
      simp only [Links.push, Function.update_of_ne ne]
      exact threaded.rows c le_c j mem
    by_cases same : c = il p
    · subst same
      rw [Function.update_self, List.mem_cons] at mem
      rcases mem with rfl | mem
      · simp only [Links.push, Function.update_self]
        exact ⟨lt, placed⟩
      · exact other mem
    · rw [Function.update_of_ne same] at mem
      exact other mem
  complete j lt_j away q le_q lt_q ahead_q := by
    by_cases same : j = i
    · subst same
      exact ⟨il p, ahead, by simp⟩
    · obtain ⟨c, le_c, mem⟩ := threaded.complete j lt_j (by simp [same, away]) q le_q lt_q ahead_q
      refine ⟨c, le_c, ?_⟩
      by_cases there : c = il p
      · subst there
        simp [mem]
      · rw [Function.update_of_ne there]
        exact mem
  free j mem c le_c on := by
    have free := threaded.free j (List.mem_cons_of_mem i mem) c le_c
    by_cases same : c = il p
    · subst same
      rw [Function.update_self, List.mem_cons] at on
      rcases on with rfl | on
      · exact nodup mem
      · exact free on
    · rw [Function.update_of_ne same] at on
      exact free on

/-- A row that has no place left goes on no list. -/
theorem drop {m b : ℕ} {rest : List ℕ} (threaded : Threaded il m b (i :: rest) links chain)
    (passed : ∀ p, il i ≤ p → p < il (i + 1) → il p < b) : Threaded il m b rest links chain where
  chained := threaded.chained
  rows := threaded.rows
  complete j lt away p le_p lt_p ahead := by
    by_cases same : j = i
    · subst same
      exact absurd (passed p le_p lt_p) (Nat.not_lt.mpr ahead)
    · exact threaded.complete j lt (by simp [same, away]) p le_p lt_p ahead
  free j mem := threaded.free j (List.mem_cons_of_mem i mem)

/-- Row `k` comes to the rows. -/
theorem add {b : ℕ} (threaded : Threaded il k b [] links chain) (lt : k < b) :
    Threaded il (k + 1) b [k] links chain where
  chained := threaded.chained
  rows c le i mem := by
    obtain ⟨lt, placed⟩ := threaded.rows c le i mem
    exact ⟨Nat.lt_succ_of_lt lt, placed⟩
  complete i lt away := by
    have ne : i ≠ k := fun eq => away (eq ▸ List.mem_singleton_self k)
    exact threaded.complete i (by omega) List.not_mem_nil
  free i mem c le on := by
    obtain rfl := List.mem_singleton.mp mem
    exact absurd (threaded.rows c le i on).1 (lt_irrefl _)

/-- The lists do not depend on what is behind the rows. -/
theorem congr {b : ℕ} (same : SameRows n k il il') (mapped : Mapped n il k)
    (threaded : Threaded il k b [] links chain) : Threaded il' k b [] links chain where
  chained := threaded.chained
  rows c le i mem := by
    obtain ⟨lt, placed⟩ := threaded.rows c le i mem
    refine ⟨lt, ?_, ?_, ?_, ?_⟩
    · rw [same.heads i lt.le]
      exact placed.le
    · rw [same.heads (i + 1) lt]
      exact placed.lt
    · rw [same.place mapped.toHeaded lt placed.le placed.lt]
      exact placed.col
    · intro q le_q lt_q
      rw [same.heads i lt.le] at le_q
      rw [same.place mapped.toHeaded lt le_q (lt_q.trans placed.lt)]
      exact placed.first q le_q lt_q
  complete i lt away p le_p lt_p ahead := by
    rw [same.heads i lt.le] at le_p
    rw [same.heads (i + 1) lt] at lt_p
    rw [same.place mapped.toHeaded lt le_p lt_p] at ahead
    exact threaded.complete i lt away p le_p lt_p ahead
  free := threaded.free

/-- `k` is added to the list of its first neighbor. -/
theorem enter (threaded : Threaded il k (k + 1) [] links chain) (mapped : Mapped n il (k + 1)) :
    ∃ chain, Threaded il (k + 1) (k + 1) [] (links.enter il k (il (k + 1))) chain := by
  have added := threaded.add (Nat.lt_succ_self k)
  by_cases some_ : il k < il (k + 1)
  · rw [Links.enter, if_pos some_]
    have above := mapped.above k (Nat.lt_succ_self k) (il k) le_rfl some_
    refine ⟨_, added.push (Nat.lt_succ_self k) (Nat.lt_succ_self k) List.not_mem_nil above.1 ?_⟩
    exact ⟨le_rfl, some_, rfl, fun q le_q lt_q => absurd lt_q (Nat.not_lt.mpr le_q)⟩
  · rw [Links.enter, if_neg some_]
    have dropped := added.drop fun p le_p lt_p => absurd (le_p.trans_lt lt_p) some_
    refine ⟨chain, dropped.chained, ?_, dropped.complete, dropped.free⟩
    intro c le i mem
    obtain ⟨lt, placed⟩ := threaded.rows c le i mem
    have ne : i ≠ k := lt.ne
    simp only [Function.update_of_ne ne]
    exact ⟨Nat.lt_succ_of_lt lt, placed⟩

end Threaded

/-! ## The loop over a list -/

theorem foldlM_congr {σ : Type} {visit visit' : σ → ℕ → Option σ} {rest : List ℕ}
    (same : ∀ i ∈ rest, ∀ x, visit x i = visit' x i) (x : σ) : rest.foldlM visit x = rest.foldlM visit' x := by
  induction rest generalizing x with
  | nil => rfl
  | cons i rest ih =>
    rw [List.foldlM_cons, List.foldlM_cons, same i List.mem_cons_self]
    congr
    funext x
    exact ih (fun j mem => same j (List.mem_cons_of_mem i mem)) x

/-- The loop over the list of `k` does the rows of the list, and leaves each on the list of its next place. -/
theorem subtract_eq {σ : Type} (visit : ℕ → ℕ → σ → Option σ) {m fuel : ℕ} {rest : List ℕ} {nxti : Option ℕ}
    {links : Links} {chain : ℕ → List ℕ} (mapped : Mapped n il k) (top : m ≤ k)
    (threaded : Threaded il m (k + 1) rest links chain) (linked : Linked links.lrow nxti rest) (nodup : rest.Nodup)
    (rows : ∀ i ∈ rest, i < m ∧ PlacedAt il k i (links.lstr i) k) (long : rest.length ≤ fuel) (x : σ) :
    ∃ links' chain', Threaded il m (k + 1) [] links' chain' ∧
      subtract il visit fuel nxti links x =
        (rest.foldlM (fun x i => visit i (links.lstr i) x) x).map fun x => (links', x) := by
  induction rest generalizing nxti links chain fuel x with
  | nil =>
    obtain rfl : nxti = none := linked
    refine ⟨links, chain, threaded, ?_⟩
    cases fuel <;> rfl
  | cons i rest ih =>
    obtain ⟨rfl, linked⟩ := linked
    obtain ⟨fuel, rfl⟩ : ∃ f, fuel = f + 1 := Nat.exists_eq_add_one_of_ne_zero (by simp at long; omega)
    obtain ⟨lt, placed⟩ := rows i List.mem_cons_self
    have long : rest.length ≤ fuel := by simpa using long
    have out := (List.nodup_cons.mp nodup).1
    have lt_k : i < k := lt.trans_le top
    rw [subtract]
    by_cases last : il (i + 1) ≤ links.lstr i + 1
    · -- this was the last place of the row
      have dropped := threaded.drop (i := i) fun p le_p lt_p => by
        rcases Nat.lt_or_eq_of_le (show p ≤ links.lstr i by omega) with less | same
        · exact Nat.lt_succ_of_lt (placed.first p le_p less)
        · rw [same, placed.col]
          exact Nat.lt_succ_self k
      simp only [last, if_true, List.foldlM_cons]
      cases visit i (links.lstr i) x with
      | none =>
        obtain ⟨links', chain', threaded', -⟩ := ih dropped linked (List.nodup_cons.mp nodup).2
          (fun j mem => rows j (List.mem_cons_of_mem i mem)) long x
        exact ⟨links', chain', threaded', rfl⟩
      | some x =>
        exact ih dropped linked (List.nodup_cons.mp nodup).2 (fun j mem => rows j (List.mem_cons_of_mem i mem)) long x
    · have next_lt : links.lstr i + 1 < il (i + 1) := Nat.lt_of_not_le last
      have ahead : k + 1 ≤ il (links.lstr i + 1) := by
        have := mapped.sorted i lt_k _ _ placed.le (Nat.lt_succ_self _) next_lt
        rw [placed.col] at this
        exact this
      have placed' : PlacedAt il (k + 1) i (links.lstr i + 1) (il (links.lstr i + 1)) := by
        refine ⟨placed.le.trans (Nat.le_succ _), next_lt, rfl, fun q le_q lt_q => ?_⟩
        rcases Nat.lt_succ_iff_lt_or_eq.mp lt_q with less | rfl
        · exact Nat.lt_succ_of_lt (placed.first q le_q less)
        · rw [placed.col]
          exact Nat.lt_succ_self k
      have pushed := threaded.push lt (lt_k.trans (Nat.lt_succ_self k)) out ahead placed'
      have linked' : Linked (links.push il i (links.lstr i + 1)).lrow (links.lrow i) rest := by
        apply linked.congr
        intro j mem
        have lt_j := (rows j (List.mem_cons_of_mem i mem)).1.trans_le top
        have ne : j ≠ i := fun eq => out (eq ▸ mem)
        exact pushLink_other ne (by omega)
      have kept (j : ℕ) (mem : j ∈ rest) : (links.push il i (links.lstr i + 1)).lstr j = links.lstr j := by
        have ne : j ≠ i := fun eq => out (eq ▸ mem)
        exact Function.update_of_ne ne _ _
      have rows' (j : ℕ) (mem : j ∈ rest) :
          j < m ∧ PlacedAt il k j ((links.push il i (links.lstr i + 1)).lstr j) k := by
        rw [kept j mem]
        exact rows j (List.mem_cons_of_mem i mem)
      simp only [last, if_false, List.foldlM_cons]
      cases visit i (links.lstr i) x with
      | none =>
        obtain ⟨links', chain', threaded', -⟩ := ih pushed linked' (List.nodup_cons.mp nodup).2 rows' long x
        exact ⟨links', chain', threaded', rfl⟩
      | some x =>
        obtain ⟨links', chain', threaded', run⟩ := ih pushed linked' (List.nodup_cons.mp nodup).2 rows' long x
        refine ⟨links', chain', threaded', run.trans ?_⟩
        have same : rest.foldlM (fun x j => visit j ((links.push il i (links.lstr i + 1)).lstr j) x) x =
            rest.foldlM (fun x j => visit j (links.lstr j) x) x := by
          apply foldlM_congr
          intro j mem x
          rw [kept j mem]
        rw [same]
        rfl

end TcadWebapp.Suprem
