import Mathlib.Data.Int.Basic
import Mathlib.Data.List.Forall2
import Mathlib.Tactic.Common

/-!
# Exceptions and indexing of Python

The exceptions that the modelled code can raise, by class, and list indexing with its
negative indices.
-/

namespace TcadWebapp

/-- An exception, by the class an `except` clause sees. -/
inductive Exn where
  | attributeError
  | indexError
  | keyError
  | osError
  | stopIteration
  | typeError
  /-- A ValueError or a subclass of it. -/
  | valueError (text : String)
  deriving DecidableEq, Repr

/-- `l[i]` does not raise. -/
def InRange {α : Type*} (l : List α) (i : Int) : Prop := -(l.length : Int) ≤ i ∧ i < l.length

instance {α : Type*} (l : List α) (i : Int) : Decidable (InRange l i) :=
  inferInstanceAs (Decidable (_ ∧ _))

/-- `l[i]`. -/
def index {α : Type*} (l : List α) (i : Int) : Except Exn α :=
  if 0 ≤ i then
    match l[i.toNat]? with
    | some a => .ok a
    | none => .error .indexError
  else if 0 ≤ i + l.length then
    match l[(i + l.length).toNat]? with
    | some a => .ok a
    | none => .error .indexError
  else .error .indexError

theorem index_of_inRange {α : Type*} {l : List α} {i : Int} (h : InRange l i) :
    ∃ a ∈ l, index l i = .ok a := by
  obtain ⟨low, high⟩ := h
  unfold index
  by_cases pos : 0 ≤ i
  · have lt : i.toNat < l.length := by omega
    rw [if_pos pos, List.getElem?_eq_getElem lt]
    exact ⟨_, List.getElem_mem lt, rfl⟩
  · have lt : (i + l.length).toNat < l.length := by omega
    rw [if_neg pos, if_pos (by omega), List.getElem?_eq_getElem lt]
    exact ⟨_, List.getElem_mem lt, rfl⟩

theorem mem_of_index {α : Type*} {l : List α} {i : Int} {a : α} (h : index l i = .ok a) : a ∈ l := by
  unfold index at h
  split at h
  · split at h
    · rename_i found
      exact Except.ok.inj h ▸ List.mem_of_getElem? found
    · cases h
  · split at h
    · split at h
      · rename_i found
        exact Except.ok.inj h ▸ List.mem_of_getElem? found
      · cases h
    · cases h

theorem index_of_not_inRange {α : Type*} {l : List α} {i : Int} (h : ¬ InRange l i) :
    index l i = .error .indexError := by
  unfold InRange at h
  unfold index
  by_cases pos : 0 ≤ i
  · rw [if_pos pos, List.getElem?_eq_none (by omega)]
  · rw [if_neg pos, if_neg (by omega)]

theorem index_natCast {α : Type*} (l : List α) (n : Nat) :
    index l (n : Int) = match l[n]? with
      | some a => .ok a
      | none => .error .indexError := by
  simp [index]

theorem index_natCast_eq_ok {α : Type*} {l : List α} {n : Nat} {a : α} :
    index l (n : Int) = .ok a ↔ l[n]? = some a := by
  rw [index_natCast]
  cases l[n]? <;> simp

theorem getElem?_of_forall₂ {α β : Type*} {R : α → β → Prop} {l : List α} {r : List β} (h : List.Forall₂ R l r)
    {i : Nat} {a : α} {b : β} (ha : l[i]? = some a) (hb : r[i]? = some b) : R a b := by
  induction h generalizing i with
  | nil => cases ha
  | cons first _ ih =>
    cases i with
    | zero =>
      cases ha
      cases hb
      exact first
    | succ i => exact ih ha hb

/-- A bound of a slice, counted from the end if it is negative. -/
def sliceBound (length : Nat) (i : Int) : Nat :=
  if i < 0 then (i + length).toNat else min i.toNat length

/-- `l[i:j]`. -/
def slice {α : Type*} (l : List α) (i j : Int) : List α :=
  (l.take (sliceBound l.length j)).drop (sliceBound l.length i)

theorem bind_eq_ok {ε : Type*} {α β : Type} {x : Except ε α} {f : α → Except ε β} {b : β} :
    (x >>= f) = .ok b ↔ ∃ a, x = .ok a ∧ f a = .ok b := by
  cases x <;> simp [bind, Except.bind]

/-- A run goes through if each of its steps does. -/
theorem exists_ok_bind {ε : Type*} {α β : Type} {x : Except ε α} {f : α → Except ε β} (first : ∃ a, x = .ok a)
    (rest : ∀ a, x = .ok a → ∃ b, f a = .ok b) : ∃ b, (x >>= f) = .ok b := by
  obtain ⟨a, ha⟩ := first
  obtain ⟨b, hb⟩ := rest a ha
  exact ⟨b, bind_eq_ok.2 ⟨a, ha, hb⟩⟩

theorem exists_ok {ε : Type*} {α : Type*} {x : Except ε α} (h : x.isOk = true) : ∃ a, x = .ok a := by
  cases x with
  | error e => cases h
  | ok a => exact ⟨a, rfl⟩

theorem exists_ok_and {ε : Type*} {α : Type*} {x : Except ε α} {p : α → Prop}
    (h : ∃ a ∈ x.toOption, p a) : ∃ a, x = .ok a ∧ p a := by
  obtain ⟨a, ha, hp⟩ := h
  cases x with
  | error e => cases ha
  | ok b =>
    obtain rfl := Option.some.inj ha
    exact ⟨b, rfl, hp⟩

theorem exists_of_mem_right {α β : Type*} {R : α → β → Prop} {l : List α} {r : List β}
    (h : List.Forall₂ R l r) {b : β} (hb : b ∈ r) : ∃ a ∈ l, R a b := by
  induction h with
  | nil => simp at hb
  | @cons a b' _ _ hab _ ih =>
    rcases List.mem_cons.mp hb with rfl | hb
    · exact ⟨a, List.mem_cons_self, hab⟩
    · obtain ⟨a, ha, hab⟩ := ih hb
      exact ⟨a, List.mem_cons_of_mem _ ha, hab⟩

theorem exists_of_mem_left {α β : Type*} {R : α → β → Prop} {l : List α} {r : List β}
    (h : List.Forall₂ R l r) {a : α} (ha : a ∈ l) : ∃ b ∈ r, R a b :=
  exists_of_mem_right h.flip ha

theorem exists_forall₂ {α β : Type*} {R : α → β → Prop} {l : List α} (h : ∀ a ∈ l, ∃ b, R a b) :
    ∃ r, List.Forall₂ R l r := by
  induction l with
  | nil => exact ⟨[], List.Forall₂.nil⟩
  | cons a l ih =>
    obtain ⟨b, hb⟩ := h a List.mem_cons_self
    obtain ⟨r, hr⟩ := ih fun c hc => h c (List.mem_cons_of_mem _ hc)
    exact ⟨b :: r, List.Forall₂.cons hb hr⟩

theorem forall₂_imp_of_mem {α β : Type*} {R S : α → β → Prop} {l : List α} {r : List β}
    (h : List.Forall₂ R l r) (imp : ∀ a, ∀ b ∈ r, R a b → S a b) : List.Forall₂ S l r := by
  induction h with
  | nil => exact List.Forall₂.nil
  | cons hab _ ih =>
    exact List.Forall₂.cons (imp _ _ List.mem_cons_self hab)
      (ih fun a b hb => imp a b (List.mem_cons_of_mem _ hb))

/-- A comprehension that may raise has one result an item. -/
theorem mapM_eq_ok {ε : Type*} {α β : Type} {f : α → Except ε β} {l : List α} {r : List β} :
    l.mapM f = .ok r ↔ List.Forall₂ (fun a b => f a = .ok b) l r := by
  induction l generalizing r with
  | nil =>
    rw [List.mapM_nil, List.forall₂_nil_left_iff]
    exact ⟨fun h => (Except.ok.inj h).symm, fun h => h ▸ rfl⟩
  | cons a l ih =>
    rw [List.mapM_cons, bind_eq_ok, List.forall₂_cons_left_iff]
    constructor
    · intro h
      obtain ⟨b, hb, h⟩ := h
      obtain ⟨bs, hbs, h⟩ := bind_eq_ok.1 h
      exact ⟨b, bs, hb, ih.mp hbs, (Except.ok.inj h).symm⟩
    · intro h
      obtain ⟨b, bs, hb, hbs, rfl⟩ := h
      exact ⟨b, hb, bind_eq_ok.2 ⟨bs, ih.mpr hbs, rfl⟩⟩

theorem exists_mapM {ε : Type*} {α β : Type} {f : α → Except ε β} {l : List α} (h : ∀ a ∈ l, ∃ b, f a = .ok b) :
    ∃ r, l.mapM f = .ok r := by
  obtain ⟨r, pairs⟩ := exists_forall₂ h
  exact ⟨r, mapM_eq_ok.2 pairs⟩

/-- The same of items that may be absent. -/
theorem mapM_eq_some_iff {α β : Type} {f : α → Option β} {l : List α} {r : List β} :
    l.mapM f = some r ↔ List.Forall₂ (fun a b => f a = some b) l r := by
  induction l generalizing r with
  | nil =>
    rw [List.mapM_nil, List.forall₂_nil_left_iff]
    exact ⟨fun h => (Option.some.inj h).symm, fun h => h ▸ rfl⟩
  | cons a l ih =>
    rw [List.mapM_cons, List.forall₂_cons_left_iff]
    constructor
    · intro h
      obtain ⟨b, hb, h⟩ := Option.bind_eq_some_iff.mp h
      obtain ⟨bs, hbs, h⟩ := Option.bind_eq_some_iff.mp h
      exact ⟨b, bs, hb, ih.mp hbs, (Option.some.inj h).symm⟩
    · intro h
      obtain ⟨b, bs, hb, hbs, rfl⟩ := h
      exact Option.bind_eq_some_iff.mpr ⟨b, hb, Option.bind_eq_some_iff.mpr ⟨bs, ih.mpr hbs, rfl⟩⟩

section MapM

variable {ε : Type*} {α β : Type} {f : α → Except ε β} {l : List α} {r : List β}

theorem exists_of_mem_mapM (h : l.mapM f = .ok r) {b : β} (hb : b ∈ r) : ∃ a ∈ l, f a = .ok b :=
  exists_of_mem_right (mapM_eq_ok.1 h) hb

theorem exists_mem_of_mapM (h : l.mapM f = .ok r) {a : α} (ha : a ∈ l) : ∃ b ∈ r, f a = .ok b :=
  exists_of_mem_left (mapM_eq_ok.1 h) ha

/-- What each step of a loop keeps, the loop keeps. -/
theorem foldlM_keeps {σ : Type} {g : σ → α → Except ε σ} {P : σ → Prop}
    (step : ∀ state a state', P state → g state a = .ok state' → P state') {state state' : σ}
    (start : P state) (h : l.foldlM g state = .ok state') : P state' := by
  induction l generalizing state with
  | nil =>
    obtain rfl := Except.ok.inj h
    exact start
  | cons a l ih =>
    rw [List.foldlM_cons] at h
    obtain ⟨next, hnext, h⟩ := bind_eq_ok.1 h
    exact ih (step state a next start hnext) h

/-- A loop that returns has returned from each step. -/
theorem exists_step_of_foldlM {σ : Type} {g : σ → α → Except ε σ} {state state' : σ}
    (h : l.foldlM g state = .ok state') : ∀ a ∈ l, ∃ before after, g before a = .ok after := by
  induction l generalizing state with
  | nil => simp
  | cons a l ih =>
    rw [List.foldlM_cons] at h
    obtain ⟨next, hnext, h⟩ := bind_eq_ok.1 h
    exact List.forall_mem_cons.mpr ⟨⟨state, next, hnext⟩, ih h⟩

/-- A comprehension whose items do not raise. -/
theorem mapM_ok_iff {g : α → β} (h : ∀ a ∈ l, f a = .ok (g a)) : l.mapM f = .ok r ↔ r = l.map g := by
  have total : l.mapM f = .ok (l.map g) := by
    rw [mapM_eq_ok, List.forall₂_map_right_iff, List.forall₂_same]
    exact h
  rw [total]
  exact ⟨fun e => (Except.ok.inj e).symm, fun e => e ▸ rfl⟩

end MapM

/-! ## Calls that raise one exception -/

/-- The call returns if `P`, and raises `e` otherwise. -/
def RaisesUnless {ε : Type*} {α : Type} (e : ε) (P : Prop) (x : Except ε α) : Prop :=
  (P ∧ ∃ a, x = .ok a) ∨ (¬ P ∧ x = .error e)

namespace RaisesUnless

variable {ε : Type*} {e : ε} {α β : Type} {P Q : Prop} {x : Except ε α}

theorem of_ok {a : α} (h : P) : RaisesUnless e P (.ok a) := Or.inl ⟨h, a, rfl⟩

theorem congr (h : RaisesUnless e P x) (iff : P ↔ Q) : RaisesUnless e Q x := by
  rcases h with ⟨p, returned⟩ | ⟨p, raised⟩
  · exact Or.inl ⟨iff.mp p, returned⟩
  · exact Or.inr ⟨fun q => p (iff.mpr q), raised⟩

theorem ok_iff (h : RaisesUnless e P x) : (∃ a, x = .ok a) ↔ P := by
  rcases h with ⟨p, returned⟩ | ⟨p, raised⟩
  · exact ⟨fun _ => p, fun _ => returned⟩
  · constructor
    · intro returned
      obtain ⟨a, h⟩ := returned
      rw [raised] at h
      cases h
    · exact fun q => absurd q p

theorem bind {f : α → Except ε β} {R : α → Prop} (h : RaisesUnless e P x)
    (hf : ∀ a, x = .ok a → RaisesUnless e (R a) (f a)) :
    RaisesUnless e (P ∧ ∀ a, x = .ok a → R a) (x >>= f) := by
  rcases h with ⟨p, a, rfl⟩ | ⟨p, rfl⟩
  · refine (hf a rfl).congr ?_
    constructor
    · intro r
      refine ⟨p, fun a' same => ?_⟩
      obtain rfl := Except.ok.inj same
      exact r
    · exact fun r => r.2 a rfl
  · exact Or.inr ⟨fun both => p both.1, rfl⟩

theorem mapM {f : α → Except ε β} {R : α → Prop} {l : List α}
    (h : ∀ a ∈ l, RaisesUnless e (R a) (f a)) : RaisesUnless e (∀ a ∈ l, R a) (l.mapM f) := by
  induction l with
  | nil => exact of_ok (by simp)
  | cons a l ih =>
    rw [List.mapM_cons]
    have rest := ih fun a ha => h a (List.mem_cons_of_mem _ ha)
    refine ((h a List.mem_cons_self).bind fun b _ => rest.bind fun bs _ => of_ok trivial).congr ?_
    rw [List.forall_mem_cons]
    constructor
    · intro both
      refine ⟨both.1, ?_⟩
      obtain ⟨b, hb⟩ := (h a List.mem_cons_self).ok_iff.mpr both.1
      exact (both.2 b hb).1
    · exact fun both => ⟨both.1, fun _ _ => ⟨both.2, fun _ _ => trivial⟩⟩

end RaisesUnless

theorem index_raisesUnless {α : Type} (l : List α) (i : Int) :
    RaisesUnless .indexError (InRange l i) (index l i) := by
  by_cases h : InRange l i
  · obtain ⟨a, -, found⟩ := index_of_inRange h
    exact Or.inl ⟨h, a, found⟩
  · exact Or.inr ⟨h, index_of_not_inRange h⟩

end TcadWebapp
