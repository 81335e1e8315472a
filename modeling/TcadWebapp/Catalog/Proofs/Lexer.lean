import TcadWebapp.Catalog.Grammar
import TcadWebapp.Misc.Python

/-!
# The tokens of a text

A token ends where space begins, so that a text of lexemes with space between them is cut into these lexemes
(`tokenize_layout`). Every text is cut into tokens.
-/

namespace TcadWebapp.Catalog

variable {c : Char} {text rest : Text} {l : Lexeme}

/-! ## Space -/

/-- The codes of the characters that are space. -/
def spaceCodes : List ℕ :=
  [0x09, 0x0a, 0x0b, 0x0c, 0x0d, 0x1c, 0x1d, 0x1e, 0x1f, 0x20, 0x85, 0xa0, 0x1680, 0x2028, 0x2029, 0x202f, 0x205f,
    0x3000] ++ List.range' 0x2000 11

theorem mem_spaceCodes (h : isSpace c = true) : c.toNat ∈ spaceCodes := by
  simp only [isSpace, Bool.decide_or, Bool.or_eq_true, decide_eq_true_eq] at h
  cases h with
  | inl code => exact List.mem_append_left _ code
  | inr range => exact List.mem_append_right _ (List.mem_range'_1.mpr ⟨range.1, by omega⟩)

/-- What is false of each space character. -/
theorem false_of_isSpace {p : Char → Bool} (all : ∀ n ∈ spaceCodes, p (Char.ofNat n) = false) (h : isSpace c = true) :
    p c = false := by
  have := all _ (mem_spaceCodes h)
  rwa [Char.ofNat_toNat] at this

theorem isDigit_of_isSpace (h : isSpace c = true) : isDigit c = false :=
  false_of_isSpace (by decide) h

theorem inName_of_isSpace (h : isSpace c = true) : inName c = false :=
  false_of_isSpace (by decide) h

theorem ne_of_isSpace {d : Char} (h : isSpace c = true) (solid : isSpace d = false) : c ≠ d := by
  rintro rfl
  rw [h] at solid
  cases solid

/-! ## Where a token ends -/

/-- The text is at its end, or at a space. -/
def Ends (rest : Text) : Prop := ∀ c ∈ rest.head?, isSpace c = true

theorem takeWhile_append_of_ends {p : Char → Bool} (stop : ∀ c, isSpace c = true → p c = false) (text : Text)
    (ends : Ends rest) : (text ++ rest).takeWhile p = text.takeWhile p := by
  induction text with
  | nil =>
    cases rest with
    | nil => rfl
    | cons c rest => simp [stop c (ends c rfl)]
  | cons c text ih =>
    simp only [List.cons_append, List.takeWhile_cons, ih]

theorem countDigits_append (text : Text) (ends : Ends rest) : countDigits (text ++ rest) = countDigits text := by
  unfold countDigits
  rw [takeWhile_append_of_ends (fun c => isDigit_of_isSpace) text ends]

theorem countDigits_le (text : Text) : countDigits text ≤ text.length :=
  (List.takeWhile_prefix _).length_le

theorem signLength_le (text : Text) : signLength text ≤ text.length := by
  unfold signLength
  split
  · split <;> simp
  · simp

theorem Ends.head_ne (ends : Ends rest) {d : Char} (solid : isSpace d = false) (tail : Text) : rest ≠ d :: tail := by
  rintro rfl
  rw [ends d rfl] at solid
  cases solid

theorem signLength_append (text : Text) (ends : Ends rest) : signLength (text ++ rest) = signLength text := by
  cases text with
  | cons c text => rfl
  | nil =>
    cases rest with
    | nil => rfl
    | cons c rest =>
      have plus : c ≠ '+' := ne_of_isSpace (ends c rfl) (by decide)
      have minus : c ≠ '-' := ne_of_isSpace (ends c rfl) (by decide)
      simp [signLength, plus, minus]

theorem mantissaLength_append (text : Text) (ends : Ends rest) : mantissaLength (text ++ rest) = mantissaLength text := by
  have point {tail : Text} : rest ≠ '.' :: tail := ends.head_ne (by decide) tail
  unfold mantissaLength
  rw [countDigits_append text ends]
  split_ifs
  · rw [List.drop_append_of_le_length (countDigits_le text)]
    cases text.drop (countDigits text) with
    | nil =>
      rw [List.nil_append]
      split
      · exact absurd rfl point
      · rfl
    | cons c tail =>
      rw [List.cons_append]
      by_cases dot : c = '.'
      · subst dot
        simp only [countDigits_append tail ends]
      · simp [dot]
  · cases text with
    | nil =>
      rw [List.nil_append]
      split
      · exact absurd rfl point
      · rfl
    | cons c tail =>
      rw [List.cons_append]
      by_cases dot : c = '.'
      · subst dot
        simp only [countDigits_append tail ends]
      · simp [dot]

theorem exponentLength_append (text : Text) (ends : Ends rest) : exponentLength (text ++ rest) = exponentLength text := by
  cases text with
  | cons c text =>
    simp only [List.cons_append, exponentLength]
    rw [signLength_append text ends, List.drop_append_of_le_length (signLength_le text), countDigits_append _ ends]
  | nil =>
    cases rest with
    | nil => rfl
    | cons c rest =>
      have small : c ≠ 'e' := ne_of_isSpace (ends c rfl) (by decide)
      have large : c ≠ 'E' := ne_of_isSpace (ends c rfl) (by decide)
      simp [exponentLength, small, large]

theorem mantissaLength_le {n : ℕ} (h : mantissaLength text = some n) : n ≤ text.length := by
  unfold mantissaLength at h
  split_ifs at h
  · have within := countDigits_le text
    split at h
    · rename_i tail same
      have := congrArg List.length same
      rw [List.length_drop, List.length_cons] at this
      have := countDigits_le tail
      cases h
      omega
    · cases h
      exact within
  · split at h
    · rename_i tail _
      have := countDigits_le tail
      split_ifs at h
      cases h
      rw [List.length_cons]
      omega
    · cases h

theorem mantissaLength_pos {n : ℕ} (h : mantissaLength text = some n) : 0 < n := by
  unfold mantissaLength at h
  split_ifs at h
  · split at h
    · cases h
      omega
    · cases h
      assumption
  · split at h
    · split_ifs at h
      cases h
      omega
    · cases h

theorem numberLength_append (text : Text) (ends : Ends rest) : numberLength (text ++ rest) = numberLength text := by
  unfold numberLength
  dsimp only
  rw [signLength_append text ends, List.drop_append_of_le_length (signLength_le text), mantissaLength_append _ ends]
  cases mantissa : mantissaLength (text.drop (signLength text)) with
  | none => rfl
  | some n =>
    have within := mantissaLength_le mantissa
    have := signLength_le text
    rw [List.length_drop] at within
    simp only [Option.map_some, Option.some.injEq]
    rw [List.drop_append_of_le_length (by omega), exponentLength_append _ ends]

theorem stringEnd_append {n : ℕ} (h : stringEnd text = some n) (rest : Text) : stringEnd (text ++ rest) = some n := by
  fun_induction stringEnd text generalizing n with
  | case1 => cases h
  | case2 => exact h
  | case3 => cases h
  | case4 => cases h
  | case5 c tail other ih =>
    obtain ⟨m, found, rfl⟩ := Option.map_eq_some_iff.mp h
    simp [stringEnd, other, ih found]
  | case6 c tail quote slash pair ih =>
    obtain ⟨m, found, rfl⟩ := Option.map_eq_some_iff.mp h
    have solid : c ≠ '\\' := by
      intro same
      cases tail with
      | nil => exact slash same rfl
      | cons d tail => exact pair d tail same rfl
    rw [List.cons_append, stringEnd, ih found]
    · rfl
    · exact quote
    · exact fun same _ => solid same
    · exact fun _ _ same _ => solid same

/-- What a lexeme is followed by: the end or a space, and behind a comment the end of its line. -/
structure Lexeme.EndsAt (l : Lexeme) (rest : Text) : Prop where
  ends : Ends rest
  line : l.kind = .comment → rest.head?.getD '\n' = '\n'
  closed : l.value ≠ ['"']

theorem takeWhile_line (text : Text) (line : rest.head?.getD '\n' = '\n') :
    (text ++ rest).takeWhile (· ≠ '\n') = text.takeWhile (· ≠ '\n') := by
  induction text with
  | nil =>
    cases rest with
    | nil => rfl
    | cons c rest =>
      have newline : c = '\n' := line
      simp [newline]
  | cons c text ih =>
    simp only [List.cons_append, List.takeWhile_cons, ih]

/-- A lexeme is a token of the text that begins with it. -/
theorem matchToken_append (h : l.EndsAt rest) : matchToken (l.value ++ rest) = some (l.kind, l.value.length) := by
  obtain ⟨kind, value, alone, solid⟩ := l
  obtain ⟨ends, line, closed⟩ := h
  dsimp only at alone ends line closed ⊢
  cases value with
  | nil => cases alone
  | cons c text =>
    rw [List.cons_append]
    unfold matchToken at alone ⊢
    dsimp only at alone ⊢
    -- the same alternative as for the lexeme alone
    by_cases hash : c = '#'
    · rw [if_pos hash] at alone ⊢
      have comment : kind = .comment := (congrArg Prod.fst (Option.some.inj alone)).symm
      rw [takeWhile_line text (line comment), alone]
    rw [if_neg hash] at alone ⊢
    by_cases string : c = '"' ∧ (stringEnd text).isSome
    · obtain ⟨n, found⟩ := Option.isSome_iff_exists.mp string.2
      have found' := stringEnd_append found rest
      rw [if_pos string] at alone
      rw [if_pos ⟨string.1, by rw [found']; rfl⟩, found', ← alone, found]
    rw [if_neg string] at alone
    have open_ : ¬ (c = '"' ∧ (stringEnd (text ++ rest)).isSome = true) := by
      rintro ⟨rfl, -⟩
      -- a quote that opens no string is a token for itself
      have one : text.length = 0 := by
        have quote : isPunct '"' = false ∧ isSpace '"' = false ∧ startsName '"' = false := by decide
        have none : numberLength ('"' :: text) = none := by
          simp [numberLength, signLength, mantissaLength, countDigits, show isDigit '"' = false by decide]
        simpa [quote, none] using (congrArg Prod.snd (Option.some.inj alone)).symm
      exact closed (by rw [List.length_eq_zero_iff.mp one])
    rw [if_neg open_]
    by_cases punct : isPunct c
    · rw [if_pos punct] at alone ⊢
      exact alone
    rw [if_neg punct] at alone ⊢
    by_cases space : isSpace c
    · rw [if_pos space] at alone
      exact absurd (congrArg Prod.fst (Option.some.inj alone)).symm solid
    rw [if_neg space] at alone ⊢
    by_cases name : startsName c
    · rw [if_pos name] at alone ⊢
      rw [takeWhile_append_of_ends (fun c => inName_of_isSpace) text ends, alone]
    rw [if_neg name] at alone ⊢
    rw [← List.cons_append, numberLength_append (c :: text) ends]
    exact alone

/-! ## Tokens one after the other -/

theorem matchToken_pos {kind : TokenKind} {n : ℕ} (h : matchToken text = some (kind, n)) : 0 < n := by
  cases text with
  | nil => cases h
  | cons c text =>
    unfold matchToken at h
    dsimp only at h
    split_ifs at h
    · cases h
      omega
    · cases h
      omega
    · cases h
      omega
    · cases h
      omega
    · cases h
      omega
    · rename_i number
      cases h
      obtain ⟨m, found⟩ := Option.isSome_iff_exists.mp number
      rw [found]
      dsimp only [Option.getD_some]
      unfold numberLength at found
      obtain ⟨k, mantissa, rfl⟩ := Option.map_eq_some_iff.mp found
      have := mantissaLength_pos mantissa
      omega
    · cases h
      omega

theorem exists_matchToken (c : Char) (text : Text) : ∃ kind n, matchToken (c :: text) = some (kind, n) := by
  unfold matchToken
  dsimp only
  split_ifs <;> exact ⟨_, _, rfl⟩

/-- What `_tokenize` makes of a text from that line on. -/
def lex (line : ℕ) (text : Text) : Except Raised (List Token) := tokenizeFrom text.length line text

@[simp] theorem lex_nil (line : ℕ) : lex line [] = .ok [] := rfl

theorem tokenizeFrom_cons {c : Char} {kind : TokenKind} {n : ℕ} (found : matchToken (c :: text) = some (kind, n))
    (rounds line : ℕ) : tokenizeFrom (rounds + 1) line (c :: text) = (do
      let tokens ← tokenizeFrom rounds (line + ((c :: text).take n).count '\n') ((c :: text).drop n)
      if kind = .ws then .ok tokens else .ok (⟨kind, (c :: text).take n, line⟩ :: tokens)) := by
  rw [tokenizeFrom]
  · simp only [found]
  · exact List.cons_ne_nil _ _

/-- The rounds that are left over do nothing. -/
theorem tokenizeFrom_rounds {rounds rounds' : ℕ} (enough : text.length ≤ rounds) (enough' : text.length ≤ rounds')
    (line : ℕ) : tokenizeFrom rounds line text = tokenizeFrom rounds' line text := by
  induction rounds generalizing rounds' text line with
  | zero =>
    rw [List.length_eq_zero_iff.mp (Nat.le_zero.mp enough)]
    cases rounds' <;> rfl
  | succ rounds ih =>
    cases text with
    | nil => cases rounds' <;> rfl
    | cons c text =>
      cases rounds' with
      | zero => cases enough'
      | succ rounds' =>
        obtain ⟨kind, n, found⟩ := exists_matchToken c text
        have pos := matchToken_pos found
        rw [tokenizeFrom_cons found, tokenizeFrom_cons found, @ih ((c :: text).drop n) rounds']
        · rw [List.length_drop]
          omega
        · rw [List.length_drop]
          omega

theorem lex_eq {kind : TokenKind} {n : ℕ} (found : matchToken text = some (kind, n)) (line : ℕ) :
    lex line text = (do
      let tokens ← lex (line + (text.take n).count '\n') (text.drop n)
      if kind = .ws then .ok tokens else .ok (⟨kind, text.take n, line⟩ :: tokens)) := by
  cases text with
  | nil => cases found
  | cons c text =>
    have pos := matchToken_pos found
    unfold lex
    rw [List.length_cons, tokenizeFrom_cons found,
      @tokenizeFrom_rounds ((c :: text).drop n) text.length ((c :: text).drop n).length]
    · rw [List.length_drop, List.length_cons]
      omega
    · exact le_rfl

/-- Every text is cut into tokens. -/
theorem exists_lex (line : ℕ) (text : Text) : ∃ tokens, lex line text = .ok tokens := by
  induction h : text.length using Nat.strong_induction_on generalizing line text with
  | _ length ih =>
    cases text with
    | nil => exact ⟨[], rfl⟩
    | cons c text =>
      obtain ⟨kind, n, found⟩ := exists_matchToken c text
      have pos := matchToken_pos found
      have shorter : ((c :: text).drop n).length < length := by
        rw [List.length_drop, h]
        have : 0 < length := h ▸ Nat.succ_pos _
        omega
      obtain ⟨tokens, rest⟩ := ih _ shorter (line + ((c :: text).take n).count '\n') _ rfl
      rw [lex_eq found, rest]
      by_cases ws : kind = .ws
      · exact ⟨tokens, if_pos ws⟩
      · exact ⟨_, if_neg ws⟩

/-- Space is skipped. -/
theorem lex_space {gap : Text} (space : ∀ c ∈ gap, isSpace c = true) (solid : ∀ c ∈ rest.head?, isSpace c = false)
    (line : ℕ) : ∃ line', lex line (gap ++ rest) = lex line' rest := by
  cases gap with
  | nil => exact ⟨line, rfl⟩
  | cons c gap =>
    have first := space c List.mem_cons_self
    have all : (gap ++ rest).takeWhile isSpace = gap := by
      rw [List.takeWhile_append_of_pos fun c mem => space c (List.mem_cons_of_mem _ mem)]
      cases rest with
      | nil => simp
      | cons d rest => simp [solid d rfl]
    have found : matchToken (c :: (gap ++ rest)) = some (.ws, 1 + gap.length) := by
      have hash : c ≠ '#' := ne_of_isSpace first (by decide)
      have quote : c ≠ '"' := ne_of_isSpace first (by decide)
      have punct : isPunct c = false := false_of_isSpace (by decide) first
      simp [matchToken, hash, quote, punct, first, all]
    refine ⟨line + (c :: gap).count '\n', ?_⟩
    have split : (c :: (gap ++ rest)).take (1 + gap.length) = c :: gap ∧
        (c :: (gap ++ rest)).drop (1 + gap.length) = rest := by
      rw [Nat.add_comm 1]
      simp
    rw [List.cons_append, lex_eq found, split.1, split.2]
    obtain ⟨tokens, h⟩ := exists_lex (line + (c :: gap).count '\n') rest
    rw [h]
    rfl

theorem lex_lexeme (h : l.EndsAt rest) (line : ℕ) : lex line (l.value ++ rest) = (do
    let tokens ← lex (line + l.value.count '\n') rest
    .ok (⟨l.kind, l.value, line⟩ :: tokens)) := by
  rw [lex_eq (matchToken_append h), List.take_left, List.drop_left]
  simp only [if_neg l.solid]

theorem Lexeme.solid_head (l : Lexeme) : ∃ c text, l.value = c :: text ∧ isSpace c = false := by
  obtain ⟨kind, value, alone, solid⟩ := l
  dsimp only
  cases value with
  | nil => cases alone
  | cons c text =>
    refine ⟨c, text, rfl, ?_⟩
    by_contra space
    rw [Bool.not_eq_false] at space
    have hash : c ≠ '#' := ne_of_isSpace space (by decide)
    have quote : c ≠ '"' := ne_of_isSpace space (by decide)
    have punct : isPunct c = false := false_of_isSpace (by decide) space
    simp only [matchToken, hash, quote, punct, space, false_and, if_true, if_false, Bool.false_eq_true] at alone
    exact solid (congrArg Prod.fst (Option.some.inj alone)).symm

/-! ## Texts of lexemes -/

theorem ends_of_space {gap : Text} (space : ∀ c ∈ gap, isSpace c = true) (some_ : gap = [] → rest = []) :
    Ends (gap ++ rest) := by
  cases gap with
  | nil =>
    rw [some_ rfl]
    intro c hc
    cases hc
  | cons d gap =>
    intro c hc
    cases hc
    exact space _ List.mem_cons_self

theorem solid_pieces (pieces : List (Lexeme × Text)) :
    ∀ c ∈ (pieces.flatMap fun piece => piece.1.value ++ piece.2).head?, isSpace c = false := by
  cases pieces with
  | nil =>
    intro c hc
    cases hc
  | cons next pieces =>
    obtain ⟨c, text, value, solid⟩ := next.1.solid_head
    rw [List.flatMap_cons, value]
    intro d hd
    cases hd
    exact solid

theorem lex_pieces {pieces : List (Lexeme × Text)} (space : ∀ piece ∈ pieces, ∀ c ∈ piece.2, isSpace c = true)
    (apart : ∀ piece ∈ pieces.dropLast, piece.2 ≠ [])
    (lines : ∀ piece ∈ pieces, piece.1.kind = .comment → piece.2.head?.getD '\n' = '\n')
    (closed : ∀ piece ∈ pieces, piece.1.value ≠ ['"']) (line : ℕ) :
    ∃ tokens, lex line (pieces.flatMap fun piece => piece.1.value ++ piece.2) = .ok tokens ∧
      Spells tokens (pieces.map Prod.fst) := by
  induction pieces generalizing line with
  | nil => exact ⟨[], rfl, List.Forall₂.nil⟩
  | cons piece pieces ih =>
    have last : piece.2 = [] → pieces = [] := by
      intro none
      cases pieces with
      | nil => rfl
      | cons next pieces => exact absurd none (apart piece List.mem_cons_self)
    have apart' : ∀ piece ∈ pieces.dropLast, piece.2 ≠ [] := by
      intro other mem
      cases pieces with
      | nil => cases mem
      | cons next pieces => exact apart other (List.mem_cons_of_mem _ mem)
    have ih := ih (fun p mem => space p (List.mem_cons_of_mem _ mem)) apart'
      (fun p mem => lines p (List.mem_cons_of_mem _ mem)) fun p mem => closed p (List.mem_cons_of_mem _ mem)
    have here := space piece List.mem_cons_self
    rw [List.flatMap_cons, List.append_assoc]
    have at_ : piece.1.EndsAt (piece.2 ++ pieces.flatMap fun piece => piece.1.value ++ piece.2) := by
      refine ⟨ends_of_space here fun none => by rw [last none]; rfl, fun comment => ?_, closed piece List.mem_cons_self⟩
      have newline := lines piece List.mem_cons_self comment
      cases gap : piece.2 with
      | nil =>
        rw [last gap]
        rfl
      | cons c gap' =>
        rw [gap] at newline
        exact newline
    obtain ⟨line', skipped⟩ := lex_space here (solid_pieces pieces) (line + piece.1.value.count '\n')
    obtain ⟨tokens, rest, spells⟩ := ih line'
    rw [lex_lexeme at_, skipped, rest]
    exact ⟨_, rfl, List.Forall₂.cons ⟨rfl, rfl⟩ spells⟩

theorem tokenize_layout (layout : Layout) :
    ∃ tokens, tokenize layout.text = .ok tokens ∧ Spells tokens layout.lexemes := by
  obtain ⟨line, skipped⟩ := lex_space layout.lead_space (solid_pieces _) 1
  obtain ⟨tokens, rest, spells⟩ := lex_pieces layout.space layout.apart layout.lines layout.closed line
  exact ⟨tokens, skipped.trans rest, spells⟩

/-! ## Names and numbers -/

/-- The characters of a number. -/
def inNumber (c : Char) : Bool := isDigit c || c ∈ ['+', '-', '.', 'e', 'E']

theorem digits_inNumber (text : Text) : ∀ c ∈ text.take (countDigits text), inNumber c = true := by
  intro c mem
  rw [countDigits, ← List.prefix_iff_eq_take.mp (List.takeWhile_prefix _)] at mem
  simp [inNumber, List.mem_takeWhile_imp mem]

theorem sign_inNumber (text : Text) : ∀ c ∈ text.take (signLength text), inNumber c = true := by
  intro c mem
  unfold signLength at mem
  split at mem
  · split_ifs at mem with sign
    · rw [List.take_one, List.head?_cons, Option.toList_some, List.mem_singleton] at mem
      rcases sign with rfl | rfl
      · simp [inNumber, mem]
      · simp [inNumber, mem]
    · cases mem
  · cases mem

theorem mantissa_inNumber {n : ℕ} (h : mantissaLength text = some n) : ∀ c ∈ text.take n, inNumber c = true := by
  unfold mantissaLength at h
  split_ifs at h
  · split at h
    · rename_i tail same
      cases h
      intro c mem
      rw [Nat.add_assoc, List.take_add, same, List.mem_append, Nat.add_comm 1, List.take_succ_cons] at mem
      rcases mem with mem | mem
      · exact digits_inNumber _ c mem
      rcases List.mem_cons.mp mem with rfl | mem
      · decide
      · exact digits_inNumber _ c mem
    · cases h
      exact digits_inNumber text
  · split at h
    · split_ifs at h
      cases h
      intro c mem
      rw [Nat.add_comm 1, List.take_succ_cons] at mem
      rcases List.mem_cons.mp mem with rfl | mem
      · decide
      · exact digits_inNumber _ c mem
    · cases h

theorem exponent_inNumber (text : Text) : ∀ c ∈ text.take (exponentLength text), inNumber c = true := by
  intro c mem
  unfold exponentLength at mem
  split at mem
  · rename_i first tail
    dsimp only at mem
    split_ifs at mem with exponent
    · rw [Nat.add_assoc, Nat.add_comm 1, List.take_succ_cons] at mem
      rcases List.mem_cons.mp mem with rfl | mem
      · rcases exponent.1 with rfl | rfl
        · decide
        · decide
      rw [List.take_add, List.mem_append] at mem
      rcases mem with mem | mem
      · exact sign_inNumber _ c mem
      · exact digits_inNumber _ c mem
    · cases mem
  · cases mem

theorem number_inNumber {n : ℕ} (h : numberLength text = some n) : ∀ c ∈ text.take n, inNumber c = true := by
  unfold numberLength at h
  obtain ⟨mantissa, found, rfl⟩ := Option.map_eq_some_iff.mp h
  intro c mem
  rw [List.take_add, List.take_add, List.mem_append, List.mem_append] at mem
  rcases mem with (mem | mem) | mem
  · exact sign_inNumber _ c mem
  · exact mantissa_inNumber found c mem
  · exact exponent_inNumber _ c mem

/-- Names and numbers have no quotes. -/
theorem quote_notMem (l : Lexeme) (h : l.kind = .name ∨ l.kind = .number) : '"' ∉ l.value := by
  obtain ⟨kind, value, alone, solid⟩ := l
  dsimp only at h ⊢
  cases value with
  | nil => cases alone
  | cons c text =>
    unfold matchToken at alone
    dsimp only at alone
    intro mem
    split_ifs at alone with hash string punct space name number
    · rw [← (Prod.mk.inj (Option.some.inj alone)).1] at h
      simp at h
    · rw [← (Prod.mk.inj (Option.some.inj alone)).1] at h
      simp at h
    · rw [← (Prod.mk.inj (Option.some.inj alone)).1] at h
      simp at h
    · rw [← (Prod.mk.inj (Option.some.inj alone)).1] at h
      simp at h
    · have all : (text.takeWhile inName).length = text.length := by
        have := congrArg Prod.snd (Option.some.inj alone)
        dsimp only [List.length_cons] at this
        omega
      have same := (List.takeWhile_prefix inName (l := text)).eq_of_length all
      rcases List.mem_cons.mp mem with rfl | mem
      · exact absurd name (by decide)
      · rw [← same] at mem
        exact absurd (List.mem_takeWhile_imp mem) (by decide)
    · obtain ⟨n, found⟩ := Option.isSome_iff_exists.mp number
      have all : n = (c :: text).length := by
        have := congrArg Prod.snd (Option.some.inj alone)
        rw [found] at this
        exact this
      have inside := number_inNumber found '"' (by rw [all, List.take_length]; exact mem)
      exact absurd inside (by decide)
    · rw [← (Prod.mk.inj (Option.some.inj alone)).1] at h
      simp at h

theorem stripQuotes_eq (h : '"' ∉ text) : stripQuotes text = text := by
  have front : text.dropWhile (· = '"') = text := by
    cases text with
    | nil => rfl
    | cons c text =>
      have : c ≠ '"' := fun same => h (same ▸ List.mem_cons_self)
      simp [this]
  rw [stripQuotes, front, List.rdropWhile_eq_self_iff]
  intro ne last
  exact h (of_decide_eq_true last ▸ List.getLast_mem ne)

theorem stripQuotes_quoted {quoted : Quoted} (plain : quoted.Plain) : stripQuotes quoted.lexeme.value = quoted.body := by
  have none : '"' ∉ quoted.body := fun mem => (plain _ mem).1 rfl
  have same := stripQuotes_eq none
  unfold stripQuotes at same ⊢
  have quote : ('"' :: (quoted.body ++ ['"'])).dropWhile (· = '"') = (quoted.body ++ ['"']).dropWhile (· = '"') := by
    simp
  change List.rdropWhile _ (('"' :: (quoted.body ++ ['"'])).dropWhile (· = '"')) = _
  rw [quote]
  cases body : quoted.body with
  | nil => rfl
  | cons c text =>
    have first : c ≠ '"' := fun same => none (by rw [body, same]; exact List.mem_cons_self)
    rw [body] at same
    simp only [List.cons_append, List.dropWhile_cons, first, decide_false, Bool.false_eq_true, if_false] at same ⊢
    rw [← List.cons_append, List.rdropWhile_concat_pos _ _ _ (by simp), same]

theorem stripQuotes_default {default : Default} (plain : default.Plain) :
    stripQuotes default.lexeme.value = default.text := by
  cases default with
  | name l => exact stripQuotes_eq (quote_notMem l (Or.inl l.2))
  | number l => exact stripQuotes_eq (quote_notMem l (Or.inr l.2))
  | string quoted => exact stripQuotes_quoted plain

end TcadWebapp.Catalog
