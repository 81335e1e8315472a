import Mathlib.Data.List.Induction
import Mathlib.Order.Basic
import Mathlib.Order.Lattice
import Mathlib.Tactic.Common

/-!
# What is left of a list that has grown in order

Instants are recorded as they come, so a list of them ascends, and what lies after an instant is
what is left when the front is dropped. A window that slides over such a list only ever drops from
the front.
-/

namespace TcadWebapp

variable {T : Type*} [LinearOrder T]

/-- The instants of a list that lie after `cutoff`. -/
def since (cutoff : T) (l : List T) : List T := l.filter (cutoff < ·)

@[simp] theorem since_nil (cutoff : T) : since cutoff [] = [] := rfl

theorem mem_since {cutoff a : T} {l : List T} : a ∈ since cutoff l ↔ a ∈ l ∧ cutoff < a := by
  simp [since]

theorem since_append (cutoff : T) (l l' : List T) :
    since cutoff (l ++ l') = since cutoff l ++ since cutoff l' := List.filter_append ..

theorem since_sublist (cutoff : T) (l : List T) : (since cutoff l).Sublist l :=
  List.filter_sublist

theorem since_eq_nil {cutoff : T} {l : List T} : since cutoff l = [] ↔ ∀ a ∈ l, a ≤ cutoff := by
  simp [since, List.filter_eq_nil_iff]

theorem since_eq_self {cutoff : T} {l : List T} : since cutoff l = l ↔ ∀ a ∈ l, cutoff < a := by
  simp [since, List.filter_eq_self]

/-- The later cutoff is the one that counts. -/
theorem since_since {early late : T} (h : early ≤ late) (l : List T) :
    since late (since early l) = since late l := by
  rw [since, since, List.filter_filter]
  apply List.filter_congr
  intro a ha
  by_cases inside : late < a
  · simp [inside, h.trans_lt inside]
  · simp [inside]

/-- Dropping from the front is enough. -/
theorem dropWhile_eq_since {cutoff : T} {l : List T} (sorted : l.Pairwise (· ≤ ·)) :
    l.dropWhile (· ≤ cutoff) = since cutoff l := by
  induction l with
  | nil => rfl
  | cons a l ih =>
    obtain ⟨first, rest⟩ := List.pairwise_cons.mp sorted
    by_cases gone : a ≤ cutoff
    · rw [List.dropWhile_cons_of_pos (by simpa using gone), ih rest, since, since,
        List.filter_cons_of_neg (by simpa using gone)]
    · rw [List.dropWhile_cons_of_neg (by simpa using gone)]
      symm
      apply since_eq_self.mpr
      intro b hb
      rcases List.mem_cons.mp hb with rfl | hb
      · exact not_le.mp gone
      · exact (not_le.mp gone).trans_le (first b hb)

/-- Of an ascending list `n` are after the cutoff if the last but `n` is. -/
theorem le_length_since {cutoff : T} {l : List T} (sorted : l.Pairwise (· ≤ ·)) {n : Nat} :
    n ≤ (since cutoff l).length ↔ n ≤ l.length ∧ ∀ a, l[l.length - n]? = some a → cutoff < a := by
  induction l with
  | nil => simp
  | cons a l ih =>
    obtain ⟨first, rest⟩ := List.pairwise_cons.mp sorted
    by_cases gone : a ≤ cutoff
    · have same : since cutoff (a :: l) = since cutoff l :=
        List.filter_cons_of_neg (by simpa using gone)
      rw [same, ih rest, List.length_cons]
      constructor
      · rintro ⟨enough, inside⟩
        refine ⟨by omega, ?_⟩
        rwa [show l.length + 1 - n = (l.length - n) + 1 by omega, List.getElem?_cons_succ]
      · rintro ⟨enough, inside⟩
        have fewer : n ≤ l.length := by
          by_contra more
          have head := inside a (by simp [show l.length + 1 - n = 0 by omega])
          exact absurd head (not_lt.mpr gone)
        refine ⟨fewer, ?_⟩
        rwa [show l.length + 1 - n = (l.length - n) + 1 by omega, List.getElem?_cons_succ] at inside
    · have all : since cutoff (a :: l) = a :: l := by
        apply since_eq_self.mpr
        intro b hb
        rcases List.mem_cons.mp hb with rfl | hb
        · exact not_le.mp gone
        · exact (not_le.mp gone).trans_le (first b hb)
      rw [all]
      constructor
      · intro enough
        refine ⟨enough, ?_⟩
        intro b hb
        exact (mem_since.mp (all.symm ▸ List.mem_of_getElem? hb)).2
      · exact fun h => h.1

/-! ## What may be dropped -/

/-- `l'` is `l` without some of what does not lie after the cutoff. -/
structure Trimmed (cutoff : T) (l l' : List T) : Prop where
  sublist : l'.Sublist l
  since_eq : ∀ c, cutoff ≤ c → since c l' = since c l

namespace Trimmed

variable {cutoff : T} {l l' l'' : List T}

theorem refl (cutoff : T) (l : List T) : Trimmed cutoff l l := ⟨List.Sublist.refl l, fun _ _ => rfl⟩

theorem trans (h : Trimmed cutoff l l') (h' : Trimmed cutoff l' l'') : Trimmed cutoff l l'' := by
  refine ⟨h'.sublist.trans h.sublist, ?_⟩
  intro c hc
  rw [h'.since_eq c hc, h.since_eq c hc]

theorem mono (h : Trimmed cutoff l l') {late : T} (later : cutoff ≤ late) : Trimmed late l l' :=
  ⟨h.sublist, fun c hc => h.since_eq c (later.trans hc)⟩

theorem append (h : Trimmed cutoff l l') (more : List T) :
    Trimmed cutoff (l ++ more) (l' ++ more) := by
  refine ⟨h.sublist.append_right more, ?_⟩
  intro c hc
  rw [since_append, since_append, h.since_eq c hc]

theorem of_since (cutoff : T) (l : List T) : Trimmed cutoff l (since cutoff l) :=
  ⟨since_sublist cutoff l, fun _ hc => since_since hc l⟩

/-- A list whose last instant is out may be dropped. -/
theorem of_last (sorted : l.Pairwise (· ≤ ·)) (out : ∀ a, l.getLast? = some a → a ≤ cutoff) :
    Trimmed cutoff l [] := by
  refine ⟨List.nil_sublist l, ?_⟩
  intro c hc
  symm
  apply since_eq_nil.mpr
  intro a ha
  induction l using List.reverseRecOn with
  | nil => cases ha
  | append_singleton l last ih =>
    have gone : last ≤ cutoff := out last List.getLast?_concat
    rcases List.mem_append.mp ha with ha | ha
    · have below := (List.pairwise_append.mp sorted).2.2 a ha last List.mem_cons_self
      exact (below.trans gone).trans hc
    · obtain rfl := List.mem_singleton.mp ha
      exact gone.trans hc

end Trimmed

end TcadWebapp
