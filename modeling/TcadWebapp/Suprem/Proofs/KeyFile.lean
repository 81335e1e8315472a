import Mathlib.Tactic.SplitIfs
import TcadWebapp.Suprem.KeyFile

/-!
# The key file is read back

The forest that `read_list` makes of what `write_list` has written, at the end of the file too (`readKeyFile_writeList`).
-/

namespace TcadWebapp.Suprem

/-! ## The parts of a record -/

theorem readWord_append (w : Word) (rest : File) : readWord (wordBytes w ++ rest) = some (w, rest) := by
  have eq : w.extractLsb' 24 8 ++ w.extractLsb' 16 8 ++ w.extractLsb' 8 8 ++ w.extractLsb' 0 8 = w := by
    apply BitVec.eq_of_getLsbD_eq
    intro i lt
    simp only [BitVec.getLsbD_append, BitVec.getLsbD_extractLsb']
    split_ifs with a b c
    · simp [a]
    · have : i - 8 < 8 := by omega
      simp [this, show 8 + (i - 8) = i by omega]
    · have : i - 8 - 8 < 8 := by omega
      simp [this, show 16 + (i - 8 - 8) = i by omega]
    · have : i - 8 - 8 - 8 < 8 := by omega
      simp [this, show 24 + (i - 8 - 8 - 8) = i by omega]
  show some (w.extractLsb' 24 8 ++ w.extractLsb' 16 8 ++ w.extractLsb' 8 8 ++ w.extractLsb' 0 8, rest) = some (w, rest)
  rw [eq]

theorem length_wordBytes (w : Word) : (wordBytes w).length = 4 := rfl

/-- A text that comes back from a buffer. -/
def Storable (room : ℕ) (s : List Byte) : Prop := s.length < room ∧ ∀ c ∈ s, c ≠ 0 ∧ c ≠ 0xFF#8

theorem readText_append (room : ℕ) {s : List Byte} (storable : Storable room s) (rest : File) :
    readText room (textBytes s ++ rest) = some (s, rest) := by
  induction s generalizing room with
  | nil =>
    obtain ⟨room, rfl⟩ : ∃ m, room = m + 1 := ⟨room - 1, by have := storable.1; simp at this; omega⟩
    simp [textBytes, readText]
  | cons c s ih =>
    obtain ⟨fits, plain⟩ := storable
    obtain ⟨room, rfl⟩ : ∃ m, room = m + 1 := ⟨room - 1, by simp at fits; omega⟩
    have tail := ih room ⟨by simpa using fits, fun d mem => plain d (List.mem_cons_of_mem c mem)⟩
    have first := plain c List.mem_cons_self
    have cut : textBytes (c :: s) ++ rest = c :: (textBytes s ++ rest) := rfl
    rw [cut, readText, if_neg first.2, if_neg first.1, tail]
    rfl

theorem readName_append {name : List Byte} (fits : name.length < 12) (plain : ∀ c ∈ name, c ≠ 0) (rest : File) :
    readName (nameBytes name ++ rest) = some (name, rest) := by
  have length : (nameBytes name).length = 12 := by
    rw [nameBytes, List.length_append, List.length_replicate]
    omega
  have behind : (List.replicate (12 - name.length) (0 : Byte)).takeWhile (fun c => decide (c ≠ 0)) = [] := by
    rw [List.takeWhile_replicate]
    rfl
  have name_ : (nameBytes name).takeWhile (fun c => decide (c ≠ 0)) = name := by
    rw [nameBytes, List.takeWhile_append_of_pos, behind, List.append_nil]
    exact fun c mem => decide_eq_true (plain c mem)
  rw [readName, if_neg (by rw [List.length_append]; omega), List.take_left' length, List.drop_left' length, name_]

/-- The trees that the grammar makes. -/
def BoolExp.Formed : BoolExp → Prop
  | .null => False
  | .oper op left right => (if op = 33 then left = .null else left.Formed) ∧ right.Formed
  | .real _ => True
  | .parval path => Storable 20 path

theorem readBoolean_append {e : BoolExp} (formed : e.Formed) (rounds : ℕ) (enough : (writeBoolean e).length ≤ rounds)
    (rest : File) : readBoolean rounds (writeBoolean e ++ rest) = some (e, rest) := by
  induction e generalizing rounds rest with
  | null => exact formed.elim
  | real value =>
    obtain ⟨rounds, rfl⟩ : ∃ m, rounds = m + 1 := ⟨rounds - 1, by simp [writeBoolean, wordBytes] at enough; omega⟩
    simp [writeBoolean, readBoolean, readWord_append]
  | parval path =>
    obtain ⟨rounds, rfl⟩ : ∃ m, rounds = m + 1 := ⟨rounds - 1, by simp [writeBoolean, wordBytes] at enough; omega⟩
    have path_ := readText_append 20 formed rest
    simp [writeBoolean, readBoolean, readWord_append, path_]
  | oper op left right ih_left ih_right =>
    obtain ⟨formed_left, formed_right⟩ := formed
    have size : (writeBoolean (.oper op left right)).length = 8 + (writeBoolean left).length + (writeBoolean right).length := by
      simp [writeBoolean, wordBytes]
      omega
    obtain ⟨rounds, rfl⟩ : ∃ m, rounds = m + 1 := ⟨rounds - 1, by omega⟩
    have right_ := ih_right formed_right rounds (by omega) rest
    by_cases negation : op = 33
    · rw [if_pos negation] at formed_left
      subst formed_left negation
      simp [writeBoolean, readBoolean, readWord_append, right_]
    · rw [if_neg negation] at formed_left
      have left_ := ih_left formed_left rounds (by omega) (writeBoolean right ++ rest)
      simp only [writeBoolean, List.append_assoc, readBoolean, readWord_append, Option.bind_eq_bind, Option.bind_some,
        left_, right_]
      rw [if_neg (by decide), if_pos trivial, if_pos negation]

/-! ## Records -/

/-- The default is of the type. -/
def Value.Fits : Kind → Value → Prop
  | .str, .text s => Storable 1024 s
  | .str, .word _ => False
  | _, .word _ => True
  | _, .text _ => False

def valueBytes : Value → File
  | .word w => wordBytes w
  | .text s => textBytes s

theorem writeValue_eq {kind : Kind} {value : Value} (fits : value.Fits kind) :
    writeValue kind value = some (valueBytes value) := by
  cases kind <;> cases value <;> first | exact fits.elim | rfl

theorem readValue_append {kind : Kind} {value : Value} (fits : value.Fits kind) (rest : File) :
    readValue kind (valueBytes value ++ rest) = some (value, rest) := by
  cases value with
  | word w => cases kind <;> first | exact fits.elim | simp [readValue, valueBytes, readWord_append]
  | text s =>
    cases kind with
    | str => simp [readValue, valueBytes, readText_append 1024 fits]
    | _ => exact fits.elim

/-- A parameter that the key file can hold: what the buffers of the reader have room for. -/
structure Param.Stored (par : Param) : Prop where
  named : par.name ≠ []
  name_fits : par.name.length < 12
  name_plain : ∀ c ∈ par.name, c ≠ 0
  typed : ∃ kind, kindOf par.type = some kind ∧ par.default.Fits kind
  units : Storable 1024 par.units
  errMsg : Storable 1024 par.errMsg
  bexp : par.bexp = .null ∨ par.bexp.Formed

/-- What is written of a parameter, behind its depth. -/
def recordBytes (par : Param) : File :=
  nameBytes par.name ++ wordBytes par.type ++ valueBytes par.default ++ textBytes par.units ++ textBytes par.errMsg ++
    if par.bexp = .null then wordBytes 0 else writeBoolean par.bexp

theorem writeParam_eq {par : Param} (stored : par.Stored) (depth : ℕ) :
    writeParam depth par = some (wordBytes (BitVec.ofNat 32 depth) ++ recordBytes par) := by
  obtain ⟨kind, is_kind, fits⟩ := stored.typed
  simp only [writeParam, is_kind, writeValue_eq fits, Option.bind_eq_bind, Option.bind_some, recordBytes]

theorem readParam_append {par : Param} (stored : par.Stored) (rest : File) :
    readParam (recordBytes par ++ rest) = some (par, rest) := by
  obtain ⟨kind, is_kind, fits⟩ := stored.typed
  have bexp (file : File) (eq : file = (if par.bexp = .null then wordBytes 0 else writeBoolean par.bexp) ++ rest) :
      readBoolean file.length file = some (par.bexp, rest) := by
    subst eq
    rcases stored.bexp with null | formed
    · rw [null, if_pos rfl]
      have rounds : (wordBytes 0 ++ rest).length = rest.length + 3 + 1 := by simp [wordBytes]
      rw [rounds, readBoolean, readWord_append]
      rfl
    · have ne : par.bexp ≠ .null := by
        intro null
        rw [null] at formed
        exact formed
      rw [if_neg ne]
      exact readBoolean_append formed _ (by simp) rest
  simp only [readParam, recordBytes, List.append_assoc, readName_append stored.name_fits stored.name_plain,
    readWord_append, is_kind, readValue_append fits, readText_append 1024 stored.units, readText_append 1024 stored.errMsg,
    bexp _ rfl, Option.bind_eq_bind, Option.bind_some]

theorem recordBytes_ne_nil (par : Param) : recordBytes par ≠ [] := by
  intro eq
  have := congrArg List.length eq
  simp [recordBytes, wordBytes, textBytes] at this

/-- What is written of a forest. -/
def forestBytes (depth : ℕ) : Forest Param → File
  | .nil => []
  | .cons par below after =>
    wordBytes (BitVec.ofNat 32 depth) ++ (recordBytes par ++ (forestBytes (depth + 1) below ++ forestBytes depth after))

theorem writeList_eq {forest : Forest Param} (stored : ∀ par ∈ forest.flat, par.Stored) (depth : ℕ) :
    writeList depth forest = some (forestBytes depth forest) := by
  induction forest generalizing depth with
  | nil => rfl
  | cons par below after ih_below ih_after =>
    have first := stored par (by simp [Forest.flat])
    have below_ := ih_below (fun par mem => stored par (by simp [Forest.flat, mem])) (depth + 1)
    have after_ := ih_after (fun par mem => stored par (by simp [Forest.flat, mem])) depth
    simp only [writeList, if_neg first.named, writeParam_eq first, below_, after_, Option.bind_eq_bind, Option.bind_some,
      forestBytes, List.append_assoc]

/-! ## The rounds of `read_list` -/

section Rounds

variable {rounds level : ℕ} {temp w : Word} {entries : List (Param × Forest Param)} {par : Param} {rest : File}

theorem toInt_ofNat (depth : ℕ) (small : depth < 2 ^ 31) : (BitVec.ofNat 32 depth).toInt = depth := by
  rw [BitVec.toInt_eq_toNat_of_lt]
  · rw [BitVec.toNat_ofNat, Nat.mod_eq_of_lt (by omega)]
  · rw [BitVec.toNat_ofNat, Nat.mod_eq_of_lt (by omega)]
    omega

/-- A record of the level is one more of the list. -/
theorem readList_same (at_ : w.toInt = level) (stored : par.Stored) :
    readList (rounds + 1) level temp entries (wordBytes w ++ (recordBytes par ++ rest)) =
      readList rounds level w (entries ++ [(par, .nil)]) rest := by
  have some_ : recordBytes par ++ rest ≠ [] := by simp [recordBytes_ne_nil]
  have word := readWord_append w (recordBytes par ++ rest)
  simp only [wordBytes, List.cons_append, List.nil_append] at word ⊢
  rw [readList, word]
  simp only [Option.bind_eq_bind, Option.bind_some, if_pos at_, if_neg some_, readParam_append stored]

/-- A record of a higher level ends the list. -/
theorem readList_up (above : w.toInt < level) :
    readList (rounds + 1) level temp entries (wordBytes w ++ rest) = some ⟨entries, w, rest, 1⟩ := by
  have word := readWord_append w rest
  simp only [wordBytes, List.cons_append, List.nil_append] at word ⊢
  rw [readList, word]
  simp only [Option.bind_eq_bind, Option.bind_some, if_neg (Int.ne_of_lt above), if_pos above]

/-- What is done when the parameters of the last entry have been read. -/
def resume (rounds level : ℕ) (entries : List (Param × Forest Param)) (sub : ReadList) : Option ReadList := do
  let entries ← giveParams entries sub.entries
  if sub.status ≠ 1 then some { sub with entries }
  else if sub.temp.toInt < level then some { sub with entries }
  else if sub.rest = [] then some ⟨entries ++ [(blank, .nil)], sub.temp, [], 0⟩
  else do
    let (par, file) ← readParam sub.rest
    readList rounds level sub.temp (entries ++ [(par, .nil)]) file

/-- A record of a lower level is the first of the parameters of the last. -/
theorem readList_down (below : level < w.toInt) (stored : par.Stored) :
    readList (rounds + 1) level temp entries (wordBytes w ++ (recordBytes par ++ rest)) =
      (readList rounds (level + 1) w [(par, .nil)] rest).bind (resume rounds level entries) := by
  have some_ : recordBytes par ++ rest ≠ [] := by simp [recordBytes_ne_nil]
  have word := readWord_append w (recordBytes par ++ rest)
  simp only [wordBytes, List.cons_append, List.nil_append] at word ⊢
  rw [readList, word]
  simp only [Option.bind_eq_bind, Option.bind_some, if_neg (Int.ne_of_gt below), if_neg (Int.not_lt.mpr (Int.le_of_lt below)),
    if_neg some_, readParam_append stored]
  rfl

theorem giveParams_snoc (entries : List (Param × Forest Param)) (par : Param) (forest : Forest Param) :
    giveParams (entries ++ [(par, .nil)]) forest.trees = some (entries ++ [(par, forest)]) := by
  simp [giveParams]

theorem resume_up (above : w.toInt < level) (forest : Forest Param) :
    resume rounds level (entries ++ [(par, .nil)]) ⟨forest.trees, w, rest, 1⟩ =
      some ⟨entries ++ [(par, forest)], w, rest, 1⟩ := by
  simp only [resume, giveParams_snoc, Option.bind_eq_bind, Option.bind_some, if_neg (not_not.mpr rfl), if_pos above]

theorem resume_same (at_ : w.toInt = level) (forest : Forest Param) {next : Param} (stored : next.Stored) :
    resume rounds level (entries ++ [(par, .nil)]) ⟨forest.trees, w, recordBytes next ++ rest, 1⟩ =
      readList rounds level w (entries ++ [(par, forest)] ++ [(next, .nil)]) rest := by
  have some_ : recordBytes next ++ rest ≠ [] := by simp [recordBytes_ne_nil]
  have not : ¬ w.toInt < level := by rw [at_]; exact Int.lt_irrefl _
  simp only [resume, giveParams_snoc, Option.bind_eq_bind, Option.bind_some, if_neg (not_not.mpr rfl), if_neg not,
    if_neg some_, readParam_append stored]

/-- At the end of the file there is a blank parameter behind those of the last. -/
theorem resume_end (not : ¬ w.toInt < level) (forest : Forest Param) :
    resume rounds level (entries ++ [(par, .nil)]) ⟨forest.trees, w, [], 1⟩ =
      some ⟨entries ++ [(par, forest), (blank, .nil)], w, [], 0⟩ := by
  simp [resume, giveParams_snoc, not]

theorem resume_stop (forest : Forest Param) :
    resume rounds level (entries ++ [(par, .nil)]) ⟨forest.trees, w, rest, 0⟩ =
      some ⟨entries ++ [(par, forest)], w, rest, 0⟩ := by
  simp [resume, giveParams_snoc]

end Rounds

/-! ## Forests -/

section Forests

variable {par : Param} {below after : Forest Param}

theorem stored_below (stored : ∀ p ∈ (Forest.cons par below after).flat, p.Stored) : ∀ p ∈ below.flat, p.Stored :=
  fun p mem => stored p (by simp [Forest.flat, mem])

theorem stored_after (stored : ∀ p ∈ (Forest.cons par below after).flat, p.Stored) : ∀ p ∈ after.flat, p.Stored :=
  fun p mem => stored p (by simp [Forest.flat, mem])

/-- When a root has been read, what stands below it and what comes after it up to a record of a higher level. -/
theorem readList_before (forest : Forest Param) (stored : ∀ p ∈ forest.flat, p.Stored) {level t : ℕ} (higher : t < level)
    (deep : level + forest.depth ≤ 2 ^ 31) (entries : List (Param × Forest Param)) (more : File) (rounds : ℕ)
    (root : forest = .cons par below after)
    (enough : (forestBytes (level + 1) below ++ (forestBytes level after ++ (wordBytes (BitVec.ofNat 32 t) ++ more))).length <
      rounds) :
    readList rounds level (BitVec.ofNat 32 level) (entries ++ [(par, .nil)])
        (forestBytes (level + 1) below ++ (forestBytes level after ++ (wordBytes (BitVec.ofNat 32 t) ++ more))) =
      some ⟨entries ++ forest.trees, BitVec.ofNat 32 t, more, 1⟩ := by
  induction forest generalizing level t entries more rounds par below after with
  | nil => cases root
  | cons par' below' after' ih_below ih_after =>
    obtain ⟨rfl, rfl, rfl⟩ : par = par' ∧ below = below' ∧ after = after' := by
      cases root
      exact ⟨rfl, rfl, rfl⟩
    have deep_below : level + 1 + below.depth ≤ 2 ^ 31 := by
      have : below.depth + 1 ≤ (Forest.cons par below after).depth := le_max_left _ _
      omega
    have deep_after : level + after.depth ≤ 2 ^ 31 := by
      have : after.depth ≤ (Forest.cons par below after).depth := le_max_right _ _
      omega
    have at_level : (BitVec.ofNat 32 level).toInt = level := toInt_ofNat _ (by omega)
    have at_t : (BitVec.ofNat 32 t).toInt < level := by
      rw [toInt_ofNat _ (by omega)]
      exact_mod_cast higher
    have trees : entries ++ (Forest.cons par below after).trees = entries ++ [(par, below)] ++ after.trees := by
      simp [Forest.trees]
    obtain ⟨rounds, rfl⟩ : ∃ m, rounds = m + 1 := ⟨rounds - 1, by omega⟩
    rw [trees]
    cases below with
    | nil =>
      cases after with
      | nil =>
        simp only [forestBytes, List.nil_append, Forest.trees, List.append_nil]
        exact readList_up at_t
      | cons next below' after' =>
        have next_ := stored next (by simp [Forest.flat])
        simp only [forestBytes, List.nil_append, List.append_assoc, List.length_append, length_wordBytes] at enough ⊢
        rw [← List.append_assoc entries, readList_same at_level next_]
        exact ih_after (stored_after stored) higher deep_after _ more _ rfl (by simp only [List.length_append, length_wordBytes]; omega)
    | cons first below' after' =>
      have first_ := stored first (by simp [Forest.flat])
      have down : (level : ℤ) < (BitVec.ofNat 32 (level + 1)).toInt := by
        have : 0 < (Forest.cons first below' after').depth := Nat.lt_of_lt_of_le (Nat.succ_pos _) (le_max_left _ _)
        rw [toInt_ofNat _ (by omega)]
        push_cast
        omega
      simp only [forestBytes, List.append_assoc, List.length_append, length_wordBytes] at enough ⊢
      rw [readList_down down first_]
      cases after with
      | nil =>
        simp only [forestBytes, List.nil_append, List.length_nil] at enough ⊢
        have sub := ih_below (stored_below stored) (show t < level + 1 by omega) deep_below [] more rounds rfl
          (by simp only [List.length_append, length_wordBytes]; omega)
        rw [List.nil_append] at sub
        rw [sub, Option.bind_some, List.nil_append, resume_up at_t]
        simp [Forest.trees]
      | cons next below'' after'' =>
        have next_ := stored next (by simp [Forest.flat])
        simp only [forestBytes, List.append_assoc, List.length_append, length_wordBytes] at enough ⊢
        have sub := ih_below (stored_below stored) (show level < level + 1 by omega) deep_below []
          (recordBytes next ++ (forestBytes (level + 1) below'' ++ (forestBytes level after'' ++
            (wordBytes (BitVec.ofNat 32 t) ++ more)))) rounds rfl (by simp only [List.length_append, length_wordBytes]; omega)
        rw [List.nil_append] at sub
        rw [sub, Option.bind_some, List.nil_append, resume_same at_level _ next_, ← List.append_assoc entries]
        refine ih_after (stored_after stored) higher deep_after _ more _ rfl ?_
        simp only [List.length_append, length_wordBytes]
        omega

/-- When a root has been read, what stands below it and what comes after it up to the end of the file. -/
theorem readList_end (forest : Forest Param) (stored : ∀ p ∈ forest.flat, p.Stored) {level : ℕ}
    (deep : level + forest.depth ≤ 2 ^ 31) (entries : List (Param × Forest Param)) (rounds : ℕ)
    (root : forest = .cons par below after)
    (enough : (forestBytes (level + 1) below ++ forestBytes level after).length < rounds) :
    ∃ temp, readList rounds level (BitVec.ofNat 32 level) (entries ++ [(par, .nil)])
        (forestBytes (level + 1) below ++ forestBytes level after) =
      some ⟨entries ++ (forest.behindLast blank).trees, temp, [], if forest.endsOnRoot then 1 else 0⟩ ∧
      (forest.endsOnRoot = true → temp = BitVec.ofNat 32 level) := by
  induction forest generalizing level entries rounds par below after with
  | nil => cases root
  | cons par' below' after' ih_below ih_after =>
    obtain ⟨rfl, rfl, rfl⟩ : par = par' ∧ below = below' ∧ after = after' := by
      cases root
      exact ⟨rfl, rfl, rfl⟩
    have deep_below : level + 1 + below.depth ≤ 2 ^ 31 := by
      have : below.depth + 1 ≤ (Forest.cons par below after).depth := le_max_left _ _
      omega
    have deep_after : level + after.depth ≤ 2 ^ 31 := by
      have : after.depth ≤ (Forest.cons par below after).depth := le_max_right _ _
      omega
    have at_level : (BitVec.ofNat 32 level).toInt = level := toInt_ofNat _ (by omega)
    obtain ⟨rounds, rfl⟩ : ∃ m, rounds = m + 1 := ⟨rounds - 1, by omega⟩
    cases below with
    | nil =>
      cases after with
      | nil => exact ⟨_, by simp [forestBytes, readList, Forest.behindLast, Forest.trees], fun _ => rfl⟩
      | cons next below' after' =>
        have next_ := stored next (by simp [Forest.flat])
        simp only [forestBytes, List.nil_append, List.length_append, length_wordBytes] at enough ⊢
        obtain ⟨temp, run, ends⟩ := ih_after (stored_after stored) deep_after (entries ++ [(par, .nil)]) rounds rfl
          (by simp only [List.length_append]; omega)
        rw [readList_same at_level next_, run]
        exact ⟨temp, by simp [Forest.behindLast, Forest.trees], by rwa [Forest.endsOnRoot_after]⟩
    | cons first below' after' =>
      have first_ := stored first (by simp [Forest.flat])
      have below_level : (BitVec.ofNat 32 (level + 1)).toInt = level + 1 := by
        have : 0 < (Forest.cons first below' after').depth := Nat.lt_of_lt_of_le (Nat.succ_pos _) (le_max_left _ _)
        exact_mod_cast toInt_ofNat (level + 1) (by omega)
      have down : (level : ℤ) < (BitVec.ofNat 32 (level + 1)).toInt := by omega
      simp only [forestBytes, List.append_assoc, List.length_append, length_wordBytes] at enough ⊢
      rw [readList_down down first_]
      cases after with
      | nil =>
        obtain ⟨temp, sub, ends⟩ := ih_below (stored_below stored) deep_below [] rounds rfl
          (by simp only [List.length_append]; omega)
        simp only [forestBytes, List.append_nil]
        rw [List.nil_append] at sub
        rw [sub, Option.bind_some, List.nil_append]
        by_cases on_root : (Forest.cons first below' after').endsOnRoot = true
        · have not : ¬ temp.toInt < level := by
            rw [ends on_root]
            omega
          rw [if_pos on_root, Forest.behindLast_of_endsOnRoot _ on_root, resume_end not]
          exact ⟨temp, by simp [Forest.behindLast, on_root, Forest.trees], fun no => by simp at no⟩
        · rw [if_neg on_root, resume_stop]
          exact ⟨temp, by simp [Forest.behindLast, on_root, Forest.trees], fun no => by simp at no⟩
      | cons next below'' after'' =>
        have next_ := stored next (by simp [Forest.flat])
        simp only [forestBytes, List.length_append, length_wordBytes] at enough ⊢
        have sub := readList_before _ (stored_below stored) (show level < level + 1 by omega) deep_below []
          (recordBytes next ++ (forestBytes (level + 1) below'' ++ forestBytes level after'')) rounds rfl
          (by simp only [List.length_append, length_wordBytes]; omega)
        rw [List.nil_append] at sub
        rw [sub, Option.bind_some, List.nil_append, resume_same at_level _ next_]
        obtain ⟨temp, run, ends⟩ := ih_after (stored_after stored) deep_after
          (entries ++ [(par, .cons first below' after')]) rounds rfl (by simp only [List.length_append]; omega)
        rw [run]
        exact ⟨temp, by simp [Forest.behindLast, Forest.trees], by rwa [Forest.endsOnRoot_after]⟩

end Forests

/-- The reader makes the forest of what the writer has written, with a blank parameter behind the one whose parameters
come last, unless the last record is that of a card. -/
theorem readKeyFile_writeList {forest : Forest Param} (stored : ∀ par ∈ forest.flat, par.Stored)
    (deep : forest.depth ≤ 2 ^ 31) :
    ∃ file, writeList 0 forest = some file ∧
      readKeyFile file = some (forest.behindLast blank, if forest.endsOnRoot then 1 else 0) := by
  refine ⟨_, writeList_eq stored 0, ?_⟩
  cases forest with
  | nil => simp [forestBytes, readKeyFile, readList, Forest.behindLast, Forest.ofTrees, Forest.endsOnRoot]
  | cons par below after =>
    have first := stored par (by simp [Forest.flat])
    have at_ : (BitVec.ofNat 32 0).toInt = (0 : ℕ) := rfl
    obtain ⟨temp, run, -⟩ := readList_end _ stored (show 0 + (Forest.cons par below after).depth ≤ 2 ^ 31 by omega) []
      (forestBytes 0 (Forest.cons par below after)).length rfl
      (by simp only [forestBytes, List.length_append, length_wordBytes]; omega)
    rw [readKeyFile, forestBytes, readList_same at_ first, List.nil_append]
    rw [List.nil_append, List.nil_append, forestBytes] at run
    rw [run, Option.map_some, Forest.ofTrees_trees]

/-- A parameter with nothing but its name and type. -/
def bare (name : List Byte) (type : Word) : Param where
  name := name
  type := type
  default := .word 0
  units := []
  errMsg := []
  bexp := .null

/-- A card with a number `thick` and a switch `side` of two. -/
def etchCard : Forest Param :=
  .cons (bare [101, 116, 99, 104] 0x400)
    (.cons (bare [116, 104, 105, 99, 107] 0x40) .nil
      (.cons (bare [115, 105, 100, 101] 0x1000)
        (.cons (bare [108, 101, 102, 116] 0x200) .nil (.cons (bare [114, 105, 103, 104, 116] 0x200) .nil .nil)) .nil)) .nil

theorem stored_bare {name : List Byte} {type : Word} (named : name ≠ []) (fits : name.length < 12)
    (plain : ∀ c ∈ name, c ≠ 0) (kind : Kind) (typed : kindOf type = some kind) (word : kind ≠ .str) :
    (bare name type).Stored where
  named := named
  name_fits := fits
  name_plain := plain
  typed := by
    refine ⟨kind, typed, ?_⟩
    cases kind <;> first | exact absurd rfl word | trivial
  units := by simp [bare, Storable]
  errMsg := by simp [bare, Storable]
  bexp := .inl rfl

theorem etchCard_stored : ∀ par ∈ etchCard.flat, par.Stored := by
  intro par mem
  simp only [etchCard, Forest.flat, List.append_nil, List.nil_append, List.mem_cons, List.not_mem_nil, or_false] at mem
  rcases mem with rfl | rfl | rfl | rfl | rfl
  · exact stored_bare (by decide) (by decide) (by decide) .comm (by decide) (by decide)
  · exact stored_bare (by decide) (by decide) (by decide) .real (by decide) (by decide)
  · exact stored_bare (by decide) (by decide) (by decide) .choice (by decide) (by decide)
  · exact stored_bare (by decide) (by decide) (by decide) .bool (by decide) (by decide)
  · exact stored_bare (by decide) (by decide) (by decide) .bool (by decide) (by decide)

theorem readKeyFile_writeList_etch : ∃ file, writeList 0 etchCard = some file ∧
    readKeyFile file = some (etchCard.behindLast blank, if etchCard.endsOnRoot then 1 else 0) :=
  readKeyFile_writeList etchCard_stored (by decide)

end TcadWebapp.Suprem
