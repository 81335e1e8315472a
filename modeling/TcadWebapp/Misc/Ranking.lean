import Mathlib.Data.List.Perm.Basic
import Mathlib.Data.List.Sort

/-!
# Sorting by a key

The place of an item in a list that is sorted by a key, where several items may have one key. A stable
sort leaves them in the order of the list it was given, so that the first of them comes where the
smaller keys end.
-/

namespace TcadWebapp

variable {α β : Type*} [LinearOrder β] {key : α → β}

theorem total_of_key (key : α → β) : Std.Total fun a b => key a ≤ key b :=
  ⟨fun a b => le_total (key a) (key b)⟩

theorem trans_of_key (key : α → β) : IsTrans α fun a b => key a ≤ key b :=
  ⟨fun _ _ _ => le_trans⟩

theorem pairwise_sort_key (l : List α) :
    (l.insertionSort fun a b => key a ≤ key b).Pairwise fun a b => key a ≤ key b :=
  have := total_of_key key
  have := trans_of_key key
  List.pairwise_insertionSort _ l

/-- The sort is stable. -/
theorem filter_sort_key (l : List α) (x : β) :
    (l.insertionSort fun a b => key a ≤ key b).filter (fun a => key a = x) =
      l.filter fun a => key a = x := by
  have := total_of_key key
  have := trans_of_key key
  have tied : (l.filter fun a => key a = x).Pairwise fun a b => key a ≤ key b := by
    refine List.pairwise_iff_forall_sublist.mpr fun {a b} sub => ?_
    have ha := List.of_mem_filter (sub.subset List.mem_cons_self)
    have hb := List.of_mem_filter (sub.subset (List.mem_cons_of_mem _ List.mem_cons_self))
    exact ((of_decide_eq_true ha).trans (of_decide_eq_true hb).symm).le
  have sub := (List.sublist_insertionSort tied List.filter_sublist).filter fun a => key a = x
  simp only [List.filter_filter, Bool.and_self] at sub
  exact (sub.eq_of_length (((List.perm_insertionSort _ l).filter _).length_eq.symm)).symm

/-- In a sorted list the first item with a key comes where the smaller keys end. -/
theorem getElem?_countP_key {l : List α} (sorted : l.Pairwise fun a b => key a ≤ key b) {x : β} {a : α}
    {rest : List α} (first : l.filter (fun b => key b = x) = a :: rest) :
    l[l.countP fun b => key b < x]? = some a := by
  induction l with
  | nil => cases first
  | cons b l ih =>
    obtain ⟨le, sorted⟩ := List.pairwise_cons.mp sorted
    rcases lt_trichotomy (key b) x with lt | eq | gt
    · rw [List.countP_cons_of_pos (by simpa using lt), List.getElem?_cons_succ]
      refine ih sorted ?_
      rwa [List.filter_cons_of_neg (by simpa using lt.ne)] at first
    · rw [List.filter_cons_of_pos (by simpa using eq)] at first
      have none_ : (b :: l).countP (fun c => key c < x) = 0 := by
        rw [List.countP_eq_zero]
        intro c hc
        rcases List.mem_cons.mp hc with rfl | hc
        · simpa using eq.ge
        · simpa using eq.ge.trans (le c hc)
      rw [none_, List.getElem?_cons_zero, (List.cons.inj first).1]
    · have hit : a ∈ (b :: l).filter fun c => key c = x := first ▸ List.mem_cons_self
      obtain ⟨mem, same⟩ := List.mem_filter.mp hit
      have same : key a = x := of_decide_eq_true same
      rcases List.mem_cons.mp mem with rfl | mem
      · exact absurd same gt.ne'
      · exact absurd (le a mem) (not_le.mpr (same ▸ gt))

/-- Two sorted lists that have the same keys have them in the same places. -/
theorem map_key_eq {α' : Type*} {key' : α' → β} {l : List α} {l' : List α'}
    (sorted : l.Pairwise fun a b => key a ≤ key b) (sorted' : l'.Pairwise fun a b => key' a ≤ key' b)
    (perm : (l.map key).Perm (l'.map key')) : l.map key = l'.map key' :=
  perm.eq_of_pairwise' (List.pairwise_map.mpr sorted) (List.pairwise_map.mpr sorted')

/-! ## Groups of one key -/

/-- What has another key is in none of the groups. -/
theorem flatMap_filter_of_notMem {α κ : Type*} [DecidableEq κ] {key : α → κ} {ks : List κ} {k : κ}
    (fresh : k ∉ ks) (l : List α) :
    (ks.flatMap fun k' => (l.filter fun a => !decide (key a = k)).filter fun a => key a = k') =
      ks.flatMap fun k' => l.filter fun a => key a = k' := by
  refine List.flatMap_congr fun k' mem => ?_
  rw [List.filter_filter]
  refine List.filter_congr fun a _ => ?_
  by_cases same : key a = k'
  · simp [same, ne_of_mem_of_not_mem mem fresh]
  · simp [same]

/-- The groups of all keys make up the list. -/
theorem perm_flatMap_filter {α κ : Type*} [DecidableEq κ] {key : α → κ} {l : List α} {ks : List κ}
    (nodup : ks.Nodup) (all : ∀ a ∈ l, key a ∈ ks) :
    (ks.flatMap fun k => l.filter fun a => key a = k).Perm l := by
  induction ks generalizing l with
  | nil =>
    obtain rfl : l = [] := List.eq_nil_iff_forall_not_mem.mpr fun a mem => by simpa using all a mem
    exact List.Perm.refl _
  | cons k ks ih =>
    obtain ⟨fresh, nodup⟩ := List.nodup_cons.mp nodup
    rw [List.flatMap_cons, ← flatMap_filter_of_notMem fresh l]
    refine ((ih nodup fun a mem => ?_).append_left _).trans
      (List.filter_append_perm _ l)
    have other : key a ≠ k := by simpa using List.of_mem_filter mem
    exact (List.mem_cons.mp (all a (List.mem_of_mem_filter mem))).resolve_left other

/-- The items with the least key come first in a sorted list. -/
theorem filter_append_of_least {l : List α} (sorted : l.Pairwise fun a b => key a ≤ key b) {k : β}
    (least : ∀ a ∈ l, k ≤ key a) :
    (l.filter fun a => key a = k) ++ l.filter (fun a => !decide (key a = k)) = l := by
  induction l with
  | nil => rfl
  | cons a l ih =>
    obtain ⟨le, sorted⟩ := List.pairwise_cons.mp sorted
    by_cases same : key a = k
    · simpa [same] using ih sorted fun b mem => least b (List.mem_cons_of_mem _ mem)
    · have later : ∀ b ∈ l, key b ≠ k := fun b mem =>
        (((least a List.mem_cons_self).lt_of_ne' same).trans_le (le b mem)).ne'
      simp only [List.filter_cons, same, decide_false, Bool.not_false, if_true]
      rw [List.filter_eq_nil_iff.mpr (by simpa using later),
        List.filter_eq_self.mpr (by simpa using later)]
      rfl

/-- A sorted list is its groups one after the other. -/
theorem flatMap_filter_of_sorted {l : List α} (sorted : l.Pairwise fun a b => key a ≤ key b) {ks : List β}
    (rising : ks.Pairwise (· < ·)) (all : ∀ a ∈ l, key a ∈ ks) :
    (ks.flatMap fun k => l.filter fun a => key a = k) = l := by
  induction ks generalizing l with
  | nil =>
    obtain rfl : l = [] := List.eq_nil_iff_forall_not_mem.mpr fun a mem => by simpa using all a mem
    rfl
  | cons k ks ih =>
    obtain ⟨first, rising⟩ := List.pairwise_cons.mp rising
    have fresh : k ∉ ks := fun mem => lt_irrefl k (first k mem)
    rw [List.flatMap_cons, ← flatMap_filter_of_notMem fresh l, ih (sorted.filter _) rising]
    · refine filter_append_of_least sorted fun a mem => ?_
      rcases List.mem_cons.mp (all a mem) with same | later
      · exact same.ge
      · exact (first _ later).le
    · intro a mem
      have other : key a ≠ k := by simpa using List.of_mem_filter mem
      exact (List.mem_cons.mp (all a (List.mem_of_mem_filter mem))).resolve_left other

/-! ## Lists that correspond -/

/-- Where the items of two lists without duplicates correspond one to one, what is the same of items that
correspond is the same of the lists, but for the order. -/
theorem perm_map_of_correspond {α' γ : Type*} {R : α → α' → Prop} {l : List α} {l' : List α'}
    (nodup : l.Nodup) (nodup' : l'.Nodup) (every : ∀ a ∈ l, ∃ b ∈ l', R a b)
    (onto : ∀ b ∈ l', ∃ a ∈ l, R a b) (unique : ∀ a ∈ l, ∀ b ∈ l', ∀ b' ∈ l', R a b → R a b' → b = b')
    (unique' : ∀ b ∈ l', ∀ a ∈ l, ∀ a' ∈ l, R a b → R a' b → a = a') {f : α → γ} {f' : α' → γ}
    (same : ∀ a ∈ l, ∀ b ∈ l', R a b → f a = f' b) : (l.map f).Perm (l'.map f') := by
  rcases isEmpty_or_nonempty α' with void | inhabited
  · obtain rfl : l = [] := List.eq_nil_iff_forall_not_mem.mpr fun a ha => by
      obtain ⟨b, -⟩ := every a ha
      exact void.false b
    obtain rfl : l' = [] := List.eq_nil_iff_forall_not_mem.mpr fun b _ => void.false b
    exact List.Perm.refl _
  choose! image image_mem image_rel using every
  have perm : (l.map image).Perm l' := by
    refine (List.perm_ext_iff_of_nodup (nodup.map_on ?_) nodup').mpr fun b => ?_
    · intro a ha a' ha' e
      exact unique' _ (image_mem a ha) a ha a' ha' (image_rel a ha) (e ▸ image_rel a' ha')
    · constructor
      · intro mem
        obtain ⟨a, ha, rfl⟩ := List.mem_map.mp mem
        exact image_mem a ha
      · intro mem
        obtain ⟨a, ha, rel⟩ := onto b mem
        exact List.mem_map.mpr ⟨a, ha, unique a ha _ (image_mem a ha) b mem (image_rel a ha) rel⟩
  have values : l.map f = (l.map image).map f' := by
    rw [List.map_map]
    exact List.map_congr_left fun a ha => same a ha _ (image_mem a ha) (image_rel a ha)
  rw [values]
  exact perm.map f'

end TcadWebapp
