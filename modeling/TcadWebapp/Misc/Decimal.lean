import Mathlib.Data.List.Basic
import Mathlib.Tactic.Tauto

/-!
# Decimal numerals

How `str` writes an integer: the digits, behind a sign if it is negative. Different integers
are written differently, also behind other text that a character sets off; `int` reads one back.
-/

namespace TcadWebapp

theorem toList_toString_int (i : Int) : (toString i).toList =
    if 0 ≤ i then Nat.toDigits 10 i.toNat else '-' :: Nat.toDigits 10 (-i).toNat := by
  rw [Int.toString_eq_repr, Int.repr_eq_if]
  split <;> simp

theorem toDigits_inj {m n : Nat} : Nat.toDigits 10 m = Nat.toDigits 10 n ↔ m = n := by
  constructor
  · intro h
    rw [← Nat.ofDigitChars_ten_toDigits (n := m), h, Nat.ofDigitChars_ten_toDigits]
  · exact fun h => h ▸ rfl

theorem isDigit_of_mem_toDigits {n : Nat} {c : Char} (h : c ∈ Nat.toDigits 10 n) : c.isDigit :=
  Nat.isDigit_of_mem_toDigits (by decide) (by decide) h

theorem minus_notMem_toDigits (n : Nat) : '-' ∉ Nat.toDigits 10 n := by
  intro h
  simpa using isDigit_of_mem_toDigits h

theorem notMem_toString {c : Char} (digit : c.isDigit = false) (minus : c ≠ '-') (i : Int) :
    c ∉ (toString i).toList := by
  have notDigit : ∀ n, c ∉ Nat.toDigits 10 n := fun n mem =>
    Bool.false_ne_true (digit.symm.trans (isDigit_of_mem_toDigits mem))
  rw [toList_toString_int]
  split
  · exact notDigit _
  · simp [minus, notDigit]

theorem underscore_notMem_toString (i : Int) : '_' ∉ (toString i).toList :=
  notMem_toString (by decide) (by decide) i

theorem toString_int_inj {i j : Int} : toString i = toString j ↔ i = j := by
  constructor
  · intro h
    have e := congrArg String.toList h
    rw [toList_toString_int, toList_toString_int] at e
    split at e <;> split at e
    · have := toDigits_inj.mp e
      omega
    · exact absurd (e ▸ List.mem_cons_self) (minus_notMem_toDigits _)
    · exact absurd (e ▸ List.mem_cons_self) (minus_notMem_toDigits _)
    · have := toDigits_inj.mp (List.cons.inj e).2
      omega
  · exact fun h => h ▸ rfl

theorem toString_nat_inj {m n : Nat} : toString m = toString n ↔ m = n := by
  rw [← Int.natCast_inj, ← toString_int_inj]
  rfl

/-- What stands before and behind the last occurrence of a character. -/
theorem append_cons_inj_of_last {α : Type*} {a : α} {l l' m m' : List α} (h : a ∉ m)
    (h' : a ∉ m') : l ++ a :: m = l' ++ a :: m' ↔ l = l' ∧ m = m' := by
  constructor
  · intro e
    rw [List.append_eq_append_iff] at e
    rcases e with ⟨as, hl, hm⟩ | ⟨as, hl, hm⟩
    · cases as with
      | nil => simp_all
      | cons b as =>
        obtain ⟨rfl, rfl⟩ := List.cons.inj hm
        simp at h
    · cases as with
      | nil => simp_all
      | cons b as =>
        obtain ⟨rfl, rfl⟩ := List.cons.inj hm
        simp at h'
  · rintro ⟨rfl, rfl⟩
    rfl

theorem append_cons_inj_of_first {α : Type*} {a : α} {l l' m m' : List α} (h : a ∉ l)
    (h' : a ∉ l') (same : l ++ a :: m = l' ++ a :: m') : l = l' ∧ m = m' := by
  have reversed := congrArg List.reverse same
  simp only [List.reverse_append, List.reverse_cons, List.append_assoc, List.singleton_append]
    at reversed
  have ends := (append_cons_inj_of_last (by simpa using h) (by simpa using h')).mp reversed
  exact ⟨List.reverse_inj.mp ends.2, List.reverse_inj.mp ends.1⟩

theorem notMem_intercalate {α : Type*} {a : α} {sep : List α} {words : List (List α)}
    (outside : a ∉ sep) (plain : ∀ word ∈ words, a ∉ word) : a ∉ sep.intercalate words := by
  induction words with
  | nil => exact List.not_mem_nil
  | cons word words ih =>
    rw [List.forall_mem_cons] at plain
    by_cases last : words = []
    · subst last
      rw [List.intercalate_singleton]
      exact plain.1
    · rw [List.intercalate_cons_of_ne_nil last, List.mem_append, List.mem_append, not_or, not_or]
      exact ⟨⟨plain.1, outside⟩, ih plain.2⟩

/-- Words that a separator is put between can be read off, if they do not have its first
    character. -/
theorem intercalate_inj {α : Type*} {a : α} {sep : List α} {words words' : List (List α)}
    (some : words ≠ []) (some' : words' ≠ []) (plain : ∀ word ∈ words, a ∉ word)
    (plain' : ∀ word ∈ words', a ∉ word)
    (h : (a :: sep).intercalate words = (a :: sep).intercalate words') : words = words' := by
  induction words generalizing words' with
  | nil => exact absurd rfl some
  | cons word words ih =>
    obtain ⟨word', words', rfl⟩ := List.exists_cons_of_ne_nil some'
    have hw := plain word List.mem_cons_self
    have hw' := plain' word' List.mem_cons_self
    by_cases last : words = []
    · subst last
      by_cases last' : words' = []
      · subst last'
        simpa using h
      · rw [List.intercalate_singleton, List.intercalate_cons_of_ne_nil last'] at h
        exact absurd (h ▸ by simp) hw
    · rw [List.intercalate_cons_of_ne_nil last] at h
      by_cases last' : words' = []
      · subst last'
        rw [List.intercalate_singleton] at h
        exact absurd (h ▸ by simp) hw'
      · rw [List.intercalate_cons_of_ne_nil last', List.append_assoc, List.append_assoc,
          List.cons_append, List.cons_append] at h
        obtain ⟨rfl, same⟩ := append_cons_inj_of_first hw hw' h
        rw [ih last last' (fun word mem => plain word (List.mem_cons_of_mem _ mem))
          (fun word mem => plain' word (List.mem_cons_of_mem _ mem)) (List.append_cancel_left same)]

/-- A numeral behind `_r` can be read off. -/
theorem suffixed_inj {x y : String} {i j : Int} :
    x ++ "_r" ++ toString i = y ++ "_r" ++ toString j ↔ x = y ∧ i = j := by
  rw [← String.toList_inj, ← String.toList_inj, ← toString_int_inj, ← String.toList_inj]
  simp only [String.toList_append]
  have split (x i : List Char) : x ++ "_r".toList ++ i = x ++ '_' :: ('r' :: i) := by simp
  rw [split, split, append_cons_inj_of_last, List.cons.injEq]
  · simp
  · simpa using underscore_notMem_toString i
  · simpa using underscore_notMem_toString j

/-- `int` of a numeral: digits, behind a sign if it is negative. -/
def ofDecimal (text : List Char) : Option Int :=
  match text with
  | '-' :: digits =>
    if digits ≠ [] ∧ digits.all Char.isDigit then some (-(Nat.ofDigitChars 10 digits 0 : Nat))
    else none
  | digits =>
    if digits ≠ [] ∧ digits.all Char.isDigit then some (Nat.ofDigitChars 10 digits 0 : Nat)
    else none

/-- `int(str(i))`. -/
theorem ofDecimal_toString (i : Int) : ofDecimal (toString i).toList = some i := by
  have digits : ∀ n : Nat, Nat.toDigits 10 n ≠ [] ∧ (Nat.toDigits 10 n).all Char.isDigit := fun n =>
    ⟨Nat.toDigits_ne_nil, List.all_eq_true.mpr fun c hc => isDigit_of_mem_toDigits hc⟩
  rw [toList_toString_int]
  split
  · rename_i pos
    rw [ofDecimal, if_pos (digits _), Nat.ofDigitChars_ten_toDigits, Int.toNat_of_nonneg pos]
    intro rest e
    exact minus_notMem_toDigits i.toNat (e ▸ List.mem_cons_self)
  · rw [ofDecimal, if_pos (digits _), Nat.ofDigitChars_ten_toDigits]
    congr 1
    omega

/-! ## Thousands -/

/-- Digits from the last on, with a comma behind every third that another follows. -/
def groupThrees : List Char → List Char
  | a :: b :: c :: d :: rest => a :: b :: c :: ',' :: groupThrees (d :: rest)
  | digits => digits

/-- `f"{n:,}"`. -/
def thousands (n : Nat) : List Char := (groupThrees (Nat.toDigits 10 n).reverse).reverse

theorem filter_groupThrees {digits : List Char} (h : ',' ∉ digits) :
    (groupThrees digits).filter (· ≠ ',') = digits := by
  fun_induction groupThrees digits with
  | case1 a b c d rest ih =>
    simp only [List.mem_cons, not_or] at h
    obtain ⟨ha, hb, hc, hd, hrest⟩ := h
    rw [List.filter_cons_of_pos (by simpa using Ne.symm ha),
      List.filter_cons_of_pos (by simpa using Ne.symm hb),
      List.filter_cons_of_pos (by simpa using Ne.symm hc), List.filter_cons_of_neg (by simp),
      ih (by simpa using ⟨hd, hrest⟩)]
  | case2 digits _ =>
    rw [List.filter_eq_self]
    intro c hc
    rw [decide_eq_true_eq]
    rintro rfl
    exact h hc

theorem thousands_inj {m n : Nat} (h : thousands m = thousands n) : m = n := by
  have comma : ∀ n : Nat, ',' ∉ (Nat.toDigits 10 n).reverse := by
    intro n mem
    have := isDigit_of_mem_toDigits (List.mem_reverse.mp mem)
    simp at this
  have same := List.reverse_injective h
  have digits := filter_groupThrees (comma m)
  rw [same, filter_groupThrees (comma n)] at digits
  exact (toDigits_inj.mp (List.reverse_injective digits)).symm

theorem mem_groupThrees {digits : List Char} {c : Char} (h : c ∈ groupThrees digits) :
    c ∈ digits ∨ c = ',' := by
  fun_induction groupThrees digits with
  | case1 a b d e rest ih =>
    simp only [List.mem_cons] at h ih ⊢
    tauto
  | case2 digits _ => exact Or.inl h

theorem mem_thousands {n : Nat} {c : Char} (h : c ∈ thousands n) : c.isDigit ∨ c = ',' := by
  rcases mem_groupThrees (List.mem_reverse.mp h) with digit | comma
  · exact Or.inl (isDigit_of_mem_toDigits (List.mem_reverse.mp digit))
  · exact Or.inr comma

/-! ## Digits of every script -/

/-- The zeros of the decimal digits, as Unicode 14 has them. -/
def zeros : List Nat :=
  [0x30, 0x660, 0x6f0, 0x7c0, 0x966, 0x9e6, 0xa66, 0xae6, 0xb66, 0xbe6, 0xc66, 0xce6, 0xd66, 0xde6,
    0xe50, 0xed0, 0xf20, 0x1040, 0x1090, 0x17e0, 0x1810, 0x1946, 0x19d0, 0x1a80, 0x1a90, 0x1b50,
    0x1bb0, 0x1c40, 0x1c50, 0xa620, 0xa8d0, 0xa900, 0xa9d0, 0xa9f0, 0xaa50, 0xabf0, 0xff10, 0x104a0,
    0x10d30, 0x11066, 0x110f0, 0x11136, 0x111d0, 0x112f0, 0x11450, 0x114d0, 0x11650, 0x116c0,
    0x11730, 0x118e0, 0x11950, 0x11c50, 0x11d50, 0x11da0, 0x16a60, 0x16ac0, 0x16b50, 0x1d7ce,
    0x1d7d8, 0x1d7e2, 0x1d7ec, 0x1d7f6, 0x1e140, 0x1e2f0, 0x1e950, 0x1fbf0]

/-- What a decimal digit stands for. -/
def decimalDigit (c : Char) : Option Nat :=
  (zeros.find? fun first => first ≤ c.toNat ∧ c.toNat < first + 10).map (c.toNat - ·)

end TcadWebapp
