import Mathlib.Data.List.Nodup
import Mathlib.Logic.Function.Basic
import Mathlib.Tactic.Common

/-!
# Lists that are linked in one array

Each place of the array is both the head of a list, that of its number, and the link of a number that is on a list. It
is never both at a time: what is on the lists is below a bound, and the lists are those from the bound on.
-/

namespace TcadWebapp

/-- `places` are linked from `head` on. -/
def Linked (next : ℕ → Option ℕ) : Option ℕ → List ℕ → Prop
  | head, [] => head = none
  | head, i :: places => head = some i ∧ Linked next (next i) places

namespace Linked

variable {next next' : ℕ → Option ℕ} {head : Option ℕ} {places : List ℕ} {i c : ℕ}

theorem congr (same : ∀ i ∈ places, next' i = next i) (linked : Linked next head places) :
    Linked next' head places := by
  induction places generalizing head with
  | nil => exact linked
  | cons i places ih =>
    refine ⟨linked.1, ?_⟩
    rw [same i List.mem_cons_self]
    exact ih (fun j mem => same j (List.mem_cons_of_mem _ mem)) linked.2

end Linked

/-- Puts `i` in front of the list of `c`. -/
def pushLink (next : ℕ → Option ℕ) (i c : ℕ) : ℕ → Option ℕ :=
  Function.update (Function.update next i (next c)) c (some i)

section Push

variable {next : ℕ → Option ℕ} {i j c : ℕ}

theorem pushLink_head : pushLink next i c c = some i := by simp [pushLink]

theorem pushLink_link (ne : i ≠ c) : pushLink next i c i = next c := by simp [pushLink, ne]

theorem pushLink_other (link : j ≠ i) (head : j ≠ c) : pushLink next i c j = next j := by
  simp [pushLink, link, head]

end Push

/-- The lists from `k` on: that of `c` has the numbers of `chain c`, all of them below `k`, and no number twice. -/
structure Chained (next : ℕ → Option ℕ) (k : ℕ) (chain : ℕ → List ℕ) : Prop where
  linked : ∀ c, k ≤ c → Linked next (next c) (chain c)
  below : ∀ c, k ≤ c → ∀ i ∈ chain c, i < k
  nodup : ∀ c, k ≤ c → (chain c).Nodup
  apart : ∀ c d, k ≤ c → k ≤ d → ∀ i ∈ chain c, i ∈ chain d → c = d

namespace Chained

variable {next : ℕ → Option ℕ} {k i c : ℕ} {chain : ℕ → List ℕ}

theorem empty : Chained (fun _ => none) 0 fun _ => [] where
  linked _ _ := rfl
  below _ _ _ mem := by cases mem
  nodup _ _ := List.nodup_nil
  apart _ _ _ _ _ mem := by cases mem

theorem later (chained : Chained next k chain) : Chained next (k + 1) chain where
  linked c le := chained.linked c (Nat.le_of_succ_le le)
  below c le i mem := Nat.lt_succ_of_lt (chained.below c (Nat.le_of_succ_le le) i mem)
  nodup c le := chained.nodup c (Nat.le_of_succ_le le)
  apart c d le le' := chained.apart c d (Nat.le_of_succ_le le) (Nat.le_of_succ_le le')

/-- A number that is on no list goes on one. -/
theorem push (chained : Chained next k chain) (lt : i < k) (le : k ≤ c) (free : ∀ d, k ≤ d → i ∉ chain d) :
    Chained (pushLink next i c) k (Function.update chain c (i :: chain c)) := by
  have keep (d : ℕ) (le_d : k ≤ d) : Linked (pushLink next i c) (next d) (chain d) := by
    apply (chained.linked d le_d).congr
    intro j mem
    have below := chained.below d le_d j mem
    exact pushLink_other (fun eq => free d le_d (eq ▸ mem)) (by omega)
  refine ⟨?_, ?_, ?_, ?_⟩
  · intro d le_d
    by_cases same : d = c
    · subst same
      rw [Function.update_self]
      refine ⟨pushLink_head, ?_⟩
      rw [pushLink_link (by omega)]
      exact keep d le_d
    · rw [Function.update_of_ne same, pushLink_other (by omega) same]
      exact keep d le_d
  · intro d le_d j mem
    by_cases same : d = c
    · subst same
      rw [Function.update_self, List.mem_cons] at mem
      rcases mem with rfl | mem
      · exact lt
      · exact chained.below d le_d j mem
    · rw [Function.update_of_ne same] at mem
      exact chained.below d le_d j mem
  · intro d le_d
    by_cases same : d = c
    · subst same
      rw [Function.update_self]
      exact List.nodup_cons.mpr ⟨free d le_d, chained.nodup d le_d⟩
    · rw [Function.update_of_ne same]
      exact chained.nodup d le_d
  · intro d e le_d le_e j mem_d mem_e
    by_cases same_d : d = c <;> by_cases same_e : e = c
    · rw [same_d, same_e]
    · subst same_d
      rw [Function.update_self, List.mem_cons] at mem_d
      rw [Function.update_of_ne same_e] at mem_e
      rcases mem_d with rfl | mem_d
      · exact absurd mem_e (free e le_e)
      · exact chained.apart d e le_d le_e j mem_d mem_e
    · subst same_e
      rw [Function.update_self, List.mem_cons] at mem_e
      rw [Function.update_of_ne same_d] at mem_d
      rcases mem_e with rfl | mem_e
      · exact absurd mem_d (free d le_d)
      · exact chained.apart d e le_d le_e j mem_d mem_e
    · rw [Function.update_of_ne same_d] at mem_d
      rw [Function.update_of_ne same_e] at mem_e
      exact chained.apart d e le_d le_e j mem_d mem_e

end Chained

end TcadWebapp
