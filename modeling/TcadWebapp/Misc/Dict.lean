import Mathlib.Algebra.GroupWithZero.Nat
import Mathlib.Algebra.Order.BigOperators.Group.List
import Mathlib.Algebra.Order.Group.Nat
import Mathlib.Data.List.Nodup
import Mathlib.Tactic.Common

/-!
# Dictionaries in insertion order

A finite map as the list of its entries: a key is found where it was first set, setting it
again replaces the value in place, a new key goes to the end. Keys are unique: that is a
field, so a lookup says all there is to know about a key.
-/

namespace TcadWebapp

variable {κ ν : Type*}

/-- A finite map with its entries in the order of insertion. -/
structure Dict (κ ν : Type*) where
  entries : List (κ × ν)
  nodup : (entries.map Prod.fst).Nodup

namespace Dict

instance [DecidableEq κ] [DecidableEq ν] : DecidableEq (Dict κ ν) := fun d d' =>
  decidable_of_iff (d.entries = d'.entries) (by cases d; cases d'; simp)

def empty : Dict κ ν := ⟨[], by simp⟩

instance : EmptyCollection (Dict κ ν) := ⟨empty⟩

def keys (d : Dict κ ν) : List κ := d.entries.map Prod.fst

variable [DecidableEq κ]

def get? (d : Dict κ ν) (k : κ) : Option ν := (d.entries.find? fun e => e.1 = k).map Prod.snd

theorem get?_eq_some {d : Dict κ ν} {k : κ} {v : ν} : d.get? k = some v ↔ (k, v) ∈ d.entries := by
  unfold get?
  constructor
  · intro h
    obtain ⟨⟨k', v'⟩, he, rfl⟩ := Option.map_eq_some_iff.mp h
    have hk : k' = k := by simpa using List.find?_some he
    exact hk ▸ List.mem_of_find?_eq_some he
  · intro h
    cases hf : d.entries.find? (fun e => e.1 = k) with
    | none =>
      have := List.find?_eq_none.mp hf (k, v) h
      simp at this
    | some e =>
      have hk : e.1 = k := by simpa using List.find?_some hf
      have : e = (k, v) :=
        List.inj_on_of_nodup_map d.nodup (List.mem_of_find?_eq_some hf) h hk
      simp [this]

theorem get?_eq_none {d : Dict κ ν} {k : κ} : d.get? k = none ↔ k ∉ d.keys := by
  unfold get? keys
  rw [Option.map_eq_none_iff, List.find?_eq_none]
  constructor
  · intro h hk
    obtain ⟨e, he, rfl⟩ := List.mem_map.mp hk
    simpa using h e he
  · intro h e he
    simpa using fun hk : e.1 = k => h (List.mem_map.mpr ⟨e, he, hk⟩)

theorem mem_keys {d : Dict κ ν} {k : κ} : k ∈ d.keys ↔ ∃ v, d.get? k = some v := by
  rw [← not_iff_not, ← get?_eq_none]
  cases d.get? k <;> simp

@[simp] theorem get?_empty (k : κ) : (∅ : Dict κ ν).get? k = none := rfl

theorem notMem_keys_empty (k : κ) : k ∉ (∅ : Dict κ ν).keys := get?_eq_none.mp rfl

/-- The value under `k` becomes what `f` makes of the present one. -/
def alter (d : Dict κ ν) (k : κ) (f : Option ν → ν) : Dict κ ν :=
  if h : k ∈ d.keys then
    ⟨d.entries.map fun e => if e.1 = k then (k, f (some e.2)) else e, by
      have : (d.entries.map fun e => if e.1 = k then (k, f (some e.2)) else e).map Prod.fst =
          d.entries.map Prod.fst := by
        rw [List.map_map]
        apply List.map_congr_left
        intro e _
        by_cases hk : e.1 = k <;> simp [hk]
      rw [this]
      exact d.nodup⟩
  else
    ⟨d.entries ++ [(k, f none)], by
      rw [List.map_append, List.nodup_append]
      refine ⟨d.nodup, by simp, ?_⟩
      intro a ha b hb
      simp only [List.map_cons, List.map_nil, List.mem_singleton] at hb
      rw [hb]
      exact fun e => h (e ▸ ha)⟩

theorem get?_alter (d : Dict κ ν) (k : κ) (f : Option ν → ν) (k' : κ) :
    (d.alter k f).get? k' = if k' = k then some (f (d.get? k)) else d.get? k' := by
  unfold alter
  split
  · rename_i hk
    obtain ⟨v, hv⟩ := mem_keys.mp hk
    by_cases e : k' = k
    · subst e
      rw [if_pos rfl, hv, get?_eq_some]
      exact List.mem_map.mpr ⟨(k', v), get?_eq_some.mp hv, by simp⟩
    · rw [if_neg e]
      ext v'
      rw [get?_eq_some, get?_eq_some]
      constructor
      · intro h
        obtain ⟨⟨k₀, v₀⟩, h₀, he⟩ := List.mem_map.mp h
        by_cases hk₀ : k₀ = k
        · simp only [hk₀, if_true, Prod.mk.injEq] at he
          exact absurd he.1.symm e
        · simp only [hk₀, if_false] at he
          exact he ▸ h₀
      · intro h
        exact List.mem_map.mpr ⟨(k', v'), h, by simp [e]⟩
  · rename_i hk
    by_cases e : k' = k
    · subst e
      rw [if_pos rfl, get?_eq_none.mpr hk, get?_eq_some]
      simp
    · rw [if_neg e]
      ext v'
      rw [get?_eq_some, get?_eq_some]
      simp [e]

/-- `d[k] = v`. -/
def set (d : Dict κ ν) (k : κ) (v : ν) : Dict κ ν := d.alter k fun _ => v

theorem get?_set (d : Dict κ ν) (k : κ) (v : ν) (k' : κ) :
    (d.set k v).get? k' = if k' = k then some v else d.get? k' := get?_alter d k _ k'

/-- A new key goes to the end. -/
theorem entries_set {d : Dict κ ν} {k : κ} (h : k ∉ d.keys) (v : ν) :
    (d.set k v).entries = d.entries ++ [(k, v)] := by
  unfold set alter
  rw [dif_neg h]

@[simp] theorem get?_set_self (d : Dict κ ν) (k : κ) (v : ν) : (d.set k v).get? k = some v := by
  rw [get?_set, if_pos rfl]

theorem get?_set_of_ne (d : Dict κ ν) {k k' : κ} (v : ν) (h : k' ≠ k) :
    (d.set k v).get? k' = d.get? k' := by
  rw [get?_set, if_neg h]

/-- The entries of `l` set one after the other; a later one of the same key wins. -/
def update (d : Dict κ ν) (l : List (κ × ν)) : Dict κ ν := l.foldl (fun d e => d.set e.1 e.2) d

/-- `dict(l)`. -/
def ofList (l : List (κ × ν)) : Dict κ ν := update ∅ l

theorem update_nil (d : Dict κ ν) : d.update [] = d := rfl

theorem update_cons (d : Dict κ ν) (e : κ × ν) (l : List (κ × ν)) :
    d.update (e :: l) = (d.set e.1 e.2).update l := rfl

theorem get?_update_of_notMem (d : Dict κ ν) {l : List (κ × ν)} {k : κ}
    (h : k ∉ l.map Prod.fst) : (d.update l).get? k = d.get? k := by
  induction l generalizing d with
  | nil => rfl
  | cons e l ih =>
    simp only [List.map_cons, List.mem_cons, not_or] at h
    rw [update_cons, ih _ h.2, get?_set_of_ne _ _ h.1]

/-- What `update` leaves under a key is one of the values given for it, or the old value. -/
theorem get?_update_of_mem (d : Dict κ ν) {l : List (κ × ν)} {k : κ}
    (h : k ∈ l.map Prod.fst) : ∃ v, (k, v) ∈ l ∧ (d.update l).get? k = some v := by
  induction l generalizing d with
  | nil => simp at h
  | cons e l ih =>
    rw [update_cons]
    by_cases hl : k ∈ l.map Prod.fst
    · obtain ⟨v, hv, hg⟩ := ih (d.set e.1 e.2) hl
      exact ⟨v, List.mem_cons_of_mem _ hv, hg⟩
    · have hk : k = e.1 := by
        simp only [List.map_cons, List.mem_cons] at h
        exact h.resolve_right hl
      refine ⟨e.2, by simp [hk], ?_⟩
      rw [get?_update_of_notMem _ hl, hk, get?_set_self]

/-- With one value for each key, `update` sets exactly the given entries. -/
theorem get?_update {d : Dict κ ν} {l : List (κ × ν)} (unique : ∀ k v v', (k, v) ∈ l →
    (k, v') ∈ l → v = v') {k : κ} {v : ν} (h : (k, v) ∈ l) : (d.update l).get? k = some v := by
  obtain ⟨v', hv', hg⟩ := d.get?_update_of_mem (List.mem_map.mpr ⟨(k, v), h, rfl⟩)
  rw [hg, unique k v' v hv' h]

/-- The last of the values given for a key stands. -/
theorem get?_update_eq (d : Dict κ ν) (l : List (κ × ν)) (k : κ) :
    (d.update l).get? k = ((l.reverse.find? (·.1 = k)).map Prod.snd).or (d.get? k) := by
  induction l generalizing d with
  | nil => rfl
  | cons e l ih =>
    rw [update_cons, ih, get?_set, List.reverse_cons, List.find?_append]
    cases List.find? (fun x => decide (x.1 = k)) l.reverse with
    | some last => rfl
    | none => by_cases h : k = e.1 <;> simp [h, eq_comm]

theorem get?_ofList (l : List (κ × ν)) (k : κ) :
    (ofList l).get? k = (l.reverse.find? (·.1 = k)).map Prod.snd := by
  rw [ofList, get?_update_eq, get?_empty, Option.or_none]

theorem get?_ofList_append (l l' : List (κ × ν)) (k : κ) :
    (ofList (l ++ l')).get? k = ((ofList l').get? k).or ((ofList l).get? k) := by
  simp only [get?_ofList, List.reverse_append, List.find?_append, Option.map_or]

/-- A dictionary made of items: the last item of a key stands. -/
theorem get?_ofList_map_eq {α : Type*} (key : α → κ) (value : α → ν) (l : List α) (k : κ) :
    (ofList (l.map fun a => (key a, value a))).get? k =
      (l.reverse.find? (key · = k)).map value := by
  rw [get?_ofList, ← List.map_reverse, List.find?_map, Option.map_map]
  rfl

theorem mem_of_get?_ofList {l : List (κ × ν)} {k : κ} {v : ν} (h : (ofList l).get? k = some v) : (k, v) ∈ l := by
  rw [get?_ofList] at h
  obtain ⟨entry, found, rfl⟩ := Option.map_eq_some_iff.mp h
  have key := List.find?_some found
  rw [decide_eq_true_eq] at key
  exact key ▸ List.mem_reverse.mp (List.mem_of_find?_eq_some found)

/-- `dict.fromkeys`-like updates: each of the keys gets the one value. -/
theorem get?_update_map (d : Dict κ ν) {l : List κ} {k : κ} (h : k ∈ l) (v : ν) :
    (d.update (l.map fun k => (k, v))).get? k = some v := by
  refine get?_update ?_ (List.mem_map.mpr ⟨k, h, rfl⟩)
  simp only [List.mem_map, Prod.mk.injEq]
  rintro _ v v' ⟨_, _, -, rfl⟩ ⟨_, _, -, rfl⟩
  rfl

/-- A dictionary made of items, of which those with one key have one value. -/
theorem get?_ofList_map {α : Type*} {key : α → κ} {value : α → ν} {l : List α}
    (unique : ∀ a ∈ l, ∀ b ∈ l, key a = key b → value a = value b) {a : α} (h : a ∈ l) :
    (ofList (l.map fun a => (key a, value a))).get? (key a) = some (value a) := by
  refine get?_update ?_ (List.mem_map.mpr ⟨a, h, rfl⟩)
  intro k v v' hv hv'
  obtain ⟨b, hb, e⟩ := List.mem_map.mp hv
  obtain ⟨b', hb', e'⟩ := List.mem_map.mp hv'
  rw [Prod.mk.injEq] at e e'
  rw [← e.2, ← e'.2]
  exact unique b hb b' hb' (e.1.trans e'.1.symm)

theorem get?_ofList_map_eq_none {α : Type*} {key : α → κ} {value : α → ν} {l : List α} {k : κ}
    (h : ∀ a ∈ l, key a ≠ k) : (ofList (l.map fun a => (key a, value a))).get? k = none := by
  rw [ofList, get?_update_of_notMem _ (by simpa using h), get?_empty]

/-- A list taken in item by item, each under its key: what is under a key comes from its items. -/
theorem get?_foldl_alter {α : Type*} (key : α → κ) (f : α → Option ν → ν) (l : List α) (d : Dict κ ν)
    (k : κ) : (l.foldl (fun d a => d.alter (key a) (f a)) d).get? k =
      (l.filter (key · = k)).foldl (fun there a => some (f a there)) (d.get? k) := by
  induction l generalizing d with
  | nil => rfl
  | cons a l ih =>
    rw [List.foldl_cons, ih, get?_alter]
    by_cases ha : key a = k
    · rw [List.filter_cons_of_pos (by simpa using ha), if_pos ha.symm, ha, List.foldl_cons]
    · rw [List.filter_cons_of_neg (by simpa using ha), if_neg (Ne.symm ha)]

/-- Grouping a list by a key: each group has its values in the order of the list. -/
theorem get?_foldl_group {α : Type*} (key : α → κ) (value : α → ν) (l : List α)
    (d : Dict κ (List ν)) (k : κ) :
    (l.foldl (fun d a => d.alter (key a) fun group => group.getD [] ++ [value a]) d).get? k =
      if l.filter (key · = k) = [] then d.get? k
      else some ((d.get? k).getD [] ++ (l.filter (key · = k)).map value) := by
  refine (get?_foldl_alter key (fun a group => group.getD [] ++ [value a]) l d k).trans ?_
  generalize d.get? k = there
  induction l.filter (key · = k) generalizing there with
  | nil => rfl
  | cons a group ih =>
    rw [List.foldl_cons, ih]
    cases group <;> simp

/-- What is in the group of a key. -/
theorem mem_group {α : Type*} {key : α → κ} {value : α → ν} {l : List α} {k : κ} {v : ν} :
    v ∈ ((l.foldl (fun d a => d.alter (key a) fun group => group.getD [] ++ [value a])
      (∅ : Dict κ (List ν))).get? k).getD [] ↔ ∃ a ∈ l, key a = k ∧ value a = v := by
  rw [get?_foldl_group, get?_empty]
  split
  · rename_i none
    rw [List.filter_eq_nil_iff] at none
    constructor
    · intro mem
      cases mem
    · rintro ⟨a, mem, same, -⟩
      exact absurd (decide_eq_true same) (none a mem)
  · simp [and_assoc]

/-- `setdefault` for one item after the other: the first of a key stays. -/
theorem get?_foldl_setdefault {α : Type*} (key : α → κ) (value : α → ν) (l : List α) (d : Dict κ ν) (k : κ) :
    (l.foldl (fun d a => d.alter (key a) fun there => there.getD (value a)) d).get? k =
      (d.get? k).or ((l.find? fun a => key a = k).map value) := by
  refine (get?_foldl_alter key (fun a there => there.getD (value a)) l d k).trans ?_
  rw [← List.head?_filter]
  have stays : ∀ (group : List α) (v : ν),
      group.foldl (fun there a => some (there.getD (value a))) (some v) = some v := by
    intro group v
    induction group with
    | nil => rfl
    | cons a group ih => exact ih
  cases l.filter (key · = k) with
  | nil => simp
  | cons a group =>
    rw [List.foldl_cons, stays]
    cases d.get? k <;> rfl

theorem mem_keys_set {d : Dict κ ν} {k k' : κ} {v : ν} :
    k' ∈ (d.set k v).keys ↔ k' = k ∨ k' ∈ d.keys := by
  rw [mem_keys, mem_keys, get?_set]
  by_cases h : k' = k <;> simp [h]

/-- `d.pop(k, None)`. -/
def erase (d : Dict κ ν) (k : κ) : Dict κ ν where
  entries := d.entries.filter fun e => e.1 ≠ k
  nodup := d.nodup.sublist (List.filter_sublist.map _)

theorem get?_erase (d : Dict κ ν) (k k' : κ) :
    (d.erase k).get? k' = if k' = k then none else d.get? k' := by
  by_cases same : k' = k
  · rw [if_pos same, get?_eq_none, keys, List.mem_map]
    intro h
    obtain ⟨e, he, rfl⟩ := h
    have other := (List.mem_filter.mp he).2
    rw [decide_eq_true_eq] at other
    exact other same
  · rw [if_neg same]
    ext v
    rw [get?_eq_some, get?_eq_some]
    simp [erase, same]

/-- The entries whose keys `p` keeps. -/
def filterKeys (d : Dict κ ν) (p : κ → Bool) : Dict κ ν where
  entries := d.entries.filter fun e => p e.1
  nodup := d.nodup.sublist (List.filter_sublist.map _)

theorem get?_filterKeys (d : Dict κ ν) (p : κ → Bool) (k : κ) :
    (d.filterKeys p).get? k = if p k then d.get? k else none := by
  ext v
  rw [get?_eq_some]
  by_cases h : p k = true
  · rw [if_pos h, get?_eq_some]
    simp [filterKeys, h]
  · rw [if_neg h]
    simp [filterKeys, h]

/-- The entries under new keys, which `f` keeps apart. -/
def mapKeys (d : Dict κ ν) (f : κ → κ) (apart : ∀ k ∈ d.keys, ∀ k' ∈ d.keys, f k = f k' → k = k') :
    Dict κ ν where
  entries := d.entries.map fun e => (f e.1, e.2)
  nodup := by
    have keys : (d.entries.map fun e => (f e.1, e.2)).map Prod.fst = d.keys.map f := by
      simp [Dict.keys]
    rw [keys]
    exact List.Nodup.map_on apart d.nodup

theorem get?_mapKeys {d : Dict κ ν} {f : κ → κ}
    (apart : ∀ k ∈ d.keys, ∀ k' ∈ d.keys, f k = f k' → k = k') (k : κ) (v : ν) :
    (d.mapKeys f apart).get? k = some v ↔ ∃ k₀, f k₀ = k ∧ d.get? k₀ = some v := by
  rw [get?_eq_some]
  simp only [mapKeys, List.mem_map, Prod.mk.injEq]
  constructor
  · rintro ⟨⟨k₀, v₀⟩, mem, rfl, rfl⟩
    exact ⟨k₀, rfl, get?_eq_some.mpr mem⟩
  · rintro ⟨k₀, rfl, found⟩
    exact ⟨(k₀, v), get?_eq_some.mp found, rfl, rfl⟩

/-! ## Sums over the entries -/

/-- What the entries come to. -/
def total (d : Dict κ ν) (f : κ → ν → Nat) : Nat := (d.entries.map fun e => f e.1 e.2).sum

/-- An entry that is set comes in place of the old one. -/
theorem total_set (d : Dict κ ν) (f : κ → ν → Nat) (k : κ) (v : ν) :
    (d.set k v).total f + (d.get? k).elim 0 (f k) = d.total f + f k v := by
  cases found : d.get? k with
  | none =>
    have fresh := get?_eq_none.mp found
    simp [total, entries_set fresh]
  | some old =>
    have present : k ∈ d.keys := mem_keys.mpr ⟨old, found⟩
    obtain ⟨before, after, split⟩ := List.append_of_mem (get?_eq_some.mp found)
    have nodup := d.nodup
    rw [split, List.map_append, List.map_cons, List.nodup_append, List.nodup_cons] at nodup
    obtain ⟨-, ⟨notAfter, -⟩, apart⟩ := nodup
    have same : ∀ l : List (κ × ν), k ∉ l.map Prod.fst →
        l.map (fun e => if e.1 = k then (k, v) else e) = l := by
      intro l other
      refine (List.map_congr_left fun e mem => ?_).trans (List.map_id l)
      exact if_neg fun hit => other (List.mem_map.mpr ⟨e, mem, hit⟩)
    have notBefore : k ∉ before.map Prod.fst := fun mem =>
      apart k mem k List.mem_cons_self rfl
    have entries : (d.set k v).entries = before ++ (k, v) :: after := by
      unfold set alter
      rw [dif_pos present]
      simp only [split, List.map_append, List.map_cons, if_true]
      rw [same before notBefore, same after notAfter]
    simp only [total, entries, split, List.map_append, List.map_cons, List.sum_append,
      List.sum_cons, Option.elim_some]
    omega

omit [DecidableEq κ] in
theorem total_filterKeys_le (d : Dict κ ν) (f : κ → ν → Nat) (p : κ → Bool) :
    (d.filterKeys p).total f ≤ d.total f :=
  (List.filter_sublist.map _).sum_le_sum fun _ _ => Nat.zero_le _

omit [DecidableEq κ] in
theorem total_mapKeys {d : Dict κ ν} {g : κ → κ}
    (apart : ∀ k ∈ d.keys, ∀ k' ∈ d.keys, g k = g k' → k = k') (f : κ → ν → Nat) :
    (d.mapKeys g apart).total f = d.total fun k => f (g k) := by
  simp [total, mapKeys, Function.comp_def]

theorem total_congr {d : Dict κ ν} {f g : κ → ν → Nat}
    (h : ∀ k v, d.get? k = some v → f k v = g k v) : d.total f = d.total g := by
  unfold total
  rw [List.map_congr_left fun e mem => h e.1 e.2 (get?_eq_some.mpr mem)]

end Dict

end TcadWebapp
