import Mathlib.Data.List.DropRight
import Mathlib.Data.List.Infix

/-!
# Lines of text

Python's `str.splitlines`, `str.strip` and `str.split`, and what is left of a file of lines that
was cut somewhere: whole lines, and of the next one a piece from its start.
-/

namespace TcadWebapp

abbrev Text := List Char

-- Named, so that no definition that compares texts carries a proof of its own.
instance Text.lawfulBEq : LawfulBEq Text := inferInstanceAs (LawfulBEq (List Char))

/-- The characters at which `splitlines` ends a line. -/
def isLineBreak (c : Char) : Bool :=
  c.toNat ∈ [0x0a, 0x0b, 0x0c, 0x0d, 0x1c, 0x1d, 0x1e, 0x85, 0x2028, 0x2029]

/-- `str.isspace` of a character. -/
def isSpace (c : Char) : Bool :=
  c.toNat ∈ [0x09, 0x0a, 0x0b, 0x0c, 0x0d, 0x1c, 0x1d, 0x1e, 0x1f, 0x20, 0x85, 0xa0, 0x1680, 0x2028,
    0x2029, 0x202f, 0x205f, 0x3000] ∨ (0x2000 ≤ c.toNat ∧ c.toNat ≤ 0x200a)

namespace Text

/-- `splitlines` past the characters of a line that has begun; the last line counts only if it
has some. -/
def splitlinesFrom : Text → Text → List Text
  | line, [] => if line = [] then [] else [line]
  | line, '\r' :: '\n' :: rest => line :: splitlinesFrom [] rest
  | line, c :: rest =>
    if isLineBreak c then line :: splitlinesFrom [] rest else splitlinesFrom (line ++ [c]) rest

/-- `str.splitlines`. -/
def splitlines (text : Text) : List Text := splitlinesFrom [] text

/-- `str.strip`. -/
def strip (text : Text) : Text := (text.dropWhile isSpace).rdropWhile isSpace

/-- `str.split()` past the characters of a word that has begun. -/
def splitFrom : Text → Text → List Text
  | word, [] => if word = [] then [] else [word]
  | word, c :: rest =>
    if isSpace c then
      if word = [] then splitFrom [] rest else word :: splitFrom [] rest
    else splitFrom (word ++ [c]) rest

/-- `str.split()`. -/
def split (text : Text) : List Text := splitFrom [] text

/-- `text.partition(" ")`, without the separator. -/
def partition (text : Text) : Text × Text :=
  (text.takeWhile (· ≠ ' '), (text.dropWhile (· ≠ ' ')).tail)

/-- A text within one line. -/
def OneLine (text : Text) : Prop := ∀ c ∈ text, isLineBreak c = false

instance (text : Text) : Decidable text.OneLine :=
  decidable_of_iff (text.all fun c => !isLineBreak c) (by simp [OneLine])

@[simp] theorem oneLine_nil : OneLine [] := by simp [OneLine]

@[simp] theorem oneLine_cons {c : Char} {text : Text} :
    OneLine (c :: text) ↔ isLineBreak c = false ∧ OneLine text := List.forall_mem_cons

@[simp] theorem oneLine_append {text rest : Text} :
    OneLine (text ++ rest) ↔ OneLine text ∧ OneLine rest := List.forall_mem_append

@[simp] theorem oneLine_flatMap {α : Type*} {items : List α} {f : α → Text} :
    OneLine (items.flatMap f) ↔ ∀ a ∈ items, OneLine (f a) := by
  simp only [OneLine, List.mem_flatMap]
  exact ⟨fun h a ha c hc => h c ⟨a, ha, hc⟩, fun h c hc => hc.elim fun a ha => h a ha.1 c ha.2⟩

theorem splitlinesFrom_append {body : Text} (h : OneLine body) (line rest : Text) :
    splitlinesFrom line (body ++ rest) = splitlinesFrom (line ++ body) rest := by
  induction body generalizing line with
  | nil => simp
  | cons c body ih =>
    have hc : isLineBreak c = false := h c (by simp)
    have hr : c ≠ '\r' := by
      rintro rfl
      simp [isLineBreak] at hc
    have one : splitlinesFrom line (c :: (body ++ rest)) =
        splitlinesFrom (line ++ [c]) (body ++ rest) := by
      rw [splitlinesFrom]
      · simp [hc]
      · intro _ e
        exact absurd e hr
    rw [List.cons_append, one, ih fun c hc => h c (List.mem_cons_of_mem _ hc)]
    simp

/-- A line, up to its newline, is the first of `splitlines`. -/
theorem splitlines_line {body : Text} (h : OneLine body) (rest : Text) :
    splitlines (body ++ '\n' :: rest) = body :: splitlines rest := by
  unfold splitlines
  rw [splitlinesFrom_append h, splitlinesFrom]
  · simp [isLineBreak]
  · simp

theorem splitlines_oneLine {text : Text} (h : OneLine text) :
    splitlines text = if text = [] then [] else [text] := by
  have := splitlinesFrom_append h [] []
  rw [List.append_nil, List.nil_append] at this
  rw [splitlines, this, splitlinesFrom]

theorem OneLine.of_prefix {body text : Text} (h : OneLine body) (pre : text <+: body) :
    OneLine text := fun c hc => h c (pre.subset hc)

/-- A file of lines that is cut: within its first line, or past it. -/
theorem prefix_line {cut body rest : Text} (h : cut <+: body ++ '\n' :: rest) :
    cut <+: body ∨ ∃ cut', cut = body ++ '\n' :: cut' ∧ cut' <+: rest := by
  rcases le_total cut.length body.length with short | long
  · exact Or.inl (List.prefix_of_prefix_length_le h (List.prefix_append body _) short)
  · obtain ⟨tail, rfl⟩ := List.prefix_of_prefix_length_le (List.prefix_append body _) h long
    have pre : tail <+: '\n' :: rest := (List.prefix_append_right_inj body).mp h
    cases tail with
    | nil => exact Or.inl (by simp)
    | cons c tail =>
      obtain ⟨rfl, inside⟩ := List.cons_prefix_cons.mp pre
      exact Or.inr ⟨tail, rfl, inside⟩

/-- Lines, each with its newline, are read back. -/
theorem splitlines_flatMap {lines : List Text} (h : ∀ line ∈ lines, OneLine line) :
    splitlines (lines.flatMap fun line => line ++ ['\n']) = lines := by
  induction lines with
  | nil => rfl
  | cons line lines ih =>
    rw [List.flatMap_cons, List.append_assoc, List.singleton_append,
      splitlines_line (h line List.mem_cons_self), ih fun line mem =>
        h line (List.mem_cons_of_mem _ mem)]

theorem oneLine_of_mem_splitlinesFrom {current text line : Text} (begun : OneLine current)
    (h : line ∈ splitlinesFrom current text) : OneLine line := by
  have none : OneLine [] := oneLine_nil
  fun_induction splitlinesFrom current text with
  | case1 =>
    cases h
  | case2 current ne =>
    exact List.mem_singleton.mp h ▸ begun
  | case3 current rest ih =>
    rcases List.mem_cons.mp h with rfl | h
    · exact begun
    · exact ih none h
  | case4 current c rest _ ends ih =>
    rcases List.mem_cons.mp h with rfl | h
    · exact begun
    · exact ih none h
  | case5 current c rest _ inside ih =>
    refine ih (fun d hd => ?_) h
    rcases List.mem_append.mp hd with hd | hd
    · exact begun d hd
    · rw [List.mem_singleton.mp hd]
      exact Bool.not_eq_true _ ▸ inside

theorem oneLine_of_mem_splitlines {text line : Text} (h : line ∈ splitlines text) : OneLine line :=
  oneLine_of_mem_splitlinesFrom oneLine_nil h

/-! ## `strip` -/

/-- A text that begins and ends with something else than white space. -/
def Trimmed (text : Text) : Prop :=
  (text.head?.any fun c => !isSpace c) ∧ text.getLast?.any fun c => !isSpace c

instance (text : Text) : Decidable text.Trimmed :=
  inferInstanceAs (Decidable ((text.head?.any fun c => !isSpace c) ∧
    text.getLast?.any fun c => !isSpace c))

theorem Trimmed.ne_nil {text : Text} (h : Trimmed text) : text ≠ [] := by
  rintro rfl
  simp [Trimmed] at h

theorem strip_of_trimmed {text : Text} (h : Trimmed text) : strip text = text := by
  obtain ⟨first, last⟩ := h
  have front : text.dropWhile isSpace = text := by
    cases text with
    | nil => rfl
    | cons c text => rw [List.dropWhile_cons_of_neg (by simpa using first)]
  rw [strip, front]
  refine List.rdropWhile_eq_self_iff.mpr ?_
  intro ne
  simpa [List.getLast?_eq_some_getLast ne] using last

/-- Of a piece of a trimmed text, `strip` leaves a piece that is no longer. -/
theorem strip_prefix {text piece : Text} (h : Trimmed text) (pre : piece <+: text) :
    strip piece <+: piece := by
  obtain ⟨first, -⟩ := h
  have front : piece.dropWhile isSpace = piece := by
    cases piece with
    | nil => rfl
    | cons c piece =>
      obtain ⟨tail, rfl⟩ := pre
      rw [List.dropWhile_cons_of_neg (by simpa using first)]
  rw [strip, front]
  exact List.rdropWhile_prefix _ _

theorem rdropWhile_cons {p : Char → Bool} {c : Char} (h : p c = false) (rest : Text) :
    (c :: rest).rdropWhile p = c :: rest.rdropWhile p := by
  unfold List.rdropWhile
  rw [List.reverse_cons, List.dropWhile_append]
  split
  · rename_i none
    rw [List.isEmpty_iff] at none
    simp [none, h]
  · simp

/-- From the first character on that is not white space, `strip` only cuts the end. -/
theorem strip_cons {c : Char} (h : isSpace c = false) (rest : Text) :
    strip (c :: rest) = c :: rest.rdropWhile isSpace := by
  rw [strip, List.dropWhile_cons_of_neg (by simp [h]), rdropWhile_cons h]

/-! ## `split` -/

theorem isSpace_of_isLineBreak {c : Char} (h : isLineBreak c = true) : isSpace c = true := by
  simp only [isLineBreak, isSpace, List.mem_cons, List.not_mem_nil, or_false,
    decide_eq_true_eq] at h ⊢
  omega

/-- A text that is one word. -/
def IsWord (text : Text) : Prop := text ≠ [] ∧ ∀ c ∈ text, isSpace c = false

theorem IsWord.oneLine {word : Text} (h : IsWord word) : OneLine word := by
  intro c hc
  rw [← Bool.not_eq_true]
  intro breaks
  have := h.2 c hc
  rw [isSpace_of_isLineBreak breaks] at this
  cases this

theorem splitFrom_append {body : Text} (h : ∀ c ∈ body, isSpace c = false) (word rest : Text) :
    splitFrom word (body ++ rest) = splitFrom (word ++ body) rest := by
  induction body generalizing word with
  | nil => simp
  | cons c body ih =>
    rw [List.cons_append, splitFrom, h c List.mem_cons_self]
    simp [ih fun c hc => h c (List.mem_cons_of_mem _ hc)]

theorem IsWord.split_append {word : Text} (h : IsWord word) (rest : Text) :
    split (word ++ ' ' :: rest) = word :: split rest := by
  have blank : isSpace ' ' = true := rfl
  rw [split, splitFrom_append h.2, List.nil_append, splitFrom, if_pos blank, if_neg h.1]
  rfl

theorem IsWord.split {word : Text} (h : IsWord word) : split word = [word] := by
  have := splitFrom_append h.2 [] []
  rw [List.append_nil, List.nil_append, splitFrom, if_neg h.1] at this
  exact this

@[simp] theorem split_blank (rest : Text) : split (' ' :: rest) = split rest := rfl

theorem splitFrom_append_spaces {spaces : Text} (h : ∀ c ∈ spaces, isSpace c = true)
    (word text : Text) : splitFrom word (text ++ spaces) = splitFrom word text := by
  induction text generalizing word with
  | nil =>
    induction spaces generalizing word with
    | nil => rfl
    | cons c spaces ih =>
      have rest := ih (fun c hc => h c (List.mem_cons_of_mem _ hc)) []
      rw [List.nil_append] at rest
      have step : splitFrom word (c :: spaces) =
          if word = [] then splitFrom [] spaces else word :: splitFrom [] spaces := by
        rw [splitFrom, if_pos (h c List.mem_cons_self)]
      rw [List.nil_append, step, rest]
      rfl
  | cons c text ih =>
    rw [List.cons_append, splitFrom, splitFrom, ih, ih]

/-- White space at the end makes no difference to `split`. -/
theorem split_rdropWhile (text : Text) : split (text.rdropWhile isSpace) = split text := by
  have spaces : ∀ c ∈ text.rtakeWhile isSpace, isSpace c = true := fun c hc =>
    List.mem_rtakeWhile_imp hc
  have parts : text = text.rdropWhile isSpace ++ text.rtakeWhile isSpace := by
    rw [List.rdropWhile, List.rtakeWhile, ← List.reverse_append, List.takeWhile_append_dropWhile,
      List.reverse_reverse]
  conv_rhs => rw [parts]
  exact (splitFrom_append_spaces spaces [] _).symm

/-- Words behind blanks. -/
theorem split_flatMap {α : Type*} {word : α → Text} (h : ∀ a, IsWord (word a)) (items : List α)
    {first : Text} (hfirst : IsWord first) (rest : Text) :
    split (first ++ items.flatMap (fun a => ' ' :: word a) ++ ' ' :: rest) =
      first :: items.map word ++ split rest := by
  induction items generalizing first with
  | nil => simpa using hfirst.split_append rest
  | cons a items ih =>
    rw [List.flatMap_cons, List.append_assoc, List.cons_append, List.cons_append,
      hfirst.split_append, ih (h a)]
    rfl

/-- Words behind blanks, up to the end. -/
theorem split_words {α : Type*} {word : α → Text} (h : ∀ a, IsWord (word a)) (items : List α) :
    split (items.flatMap fun a => ' ' :: word a) = items.map word := by
  induction items with
  | nil => rfl
  | cons a items ih =>
    rw [List.flatMap_cons, List.cons_append, split_blank]
    cases items with
    | nil => simpa using (h a).split
    | cons b items =>
      rw [List.flatMap_cons, List.cons_append, split_blank] at ih
      rw [List.flatMap_cons, List.cons_append, (h a).split_append, ih]
      rfl

/-- Words with blanks between them. -/
theorem intercalate_blank {α : Type*} (word : α → Text) (a : α) (items : List α) :
    [' '].intercalate ((a :: items).map word) = word a ++ items.flatMap fun a => ' ' :: word a := by
  induction items generalizing a with
  | nil => simp
  | cons b items ih =>
    rw [List.map_cons, List.map_cons, List.intercalate_cons_cons, ← List.map_cons, ih,
      List.flatMap_cons]
    simp

/-! ## Lines of a text that is cut -/

/-- The end of a text behind its last line break: a line that may go on. -/
def lastPiece (text : Text) : Text := text.rtakeWhile fun c => !isLineBreak c

/-- The start of a text up to its first line break. -/
def firstPiece (text : Text) : Text := text.takeWhile fun c => !isLineBreak c

theorem splitlinesFrom_break {c : Char} (h : isLineBreak c = true) (line rest : Text) :
    (splitlinesFrom line (c :: rest)).filter (· ≠ []) =
      [line].filter (· ≠ []) ++ (splitlines rest).filter (· ≠ []) := by
  by_cases pair : c = '\r' ∧ ∃ rest', rest = '\n' :: rest'
  · obtain ⟨rfl, rest, rfl⟩ := pair
    have blank : splitlines ('\n' :: rest) = [] :: splitlines rest := splitlines_line oneLine_nil rest
    rw [splitlinesFrom, blank, ← List.singleton_append, List.filter_append]
    rfl
  · have alone : splitlinesFrom line (c :: rest) = line :: splitlinesFrom [] rest := by
      rw [splitlinesFrom]
      · rw [if_pos h]
      · rintro rest' rfl rfl
        exact pair ⟨rfl, rest', rfl⟩
    rw [alone, ← List.singleton_append, List.filter_append]
    rfl

/-- A line break parts the lines that are not empty. -/
theorem filter_splitlinesFrom_append {c : Char} (h : isLineBreak c = true) (line text rest : Text) :
    (splitlinesFrom line (text ++ c :: rest)).filter (· ≠ []) =
      (splitlinesFrom line text).filter (· ≠ []) ++ (splitlines rest).filter (· ≠ []) := by
  fun_induction splitlinesFrom line text with
  | case1 =>
    simpa using splitlinesFrom_break h [] rest
  | case2 line ne =>
    simpa using splitlinesFrom_break h line rest
  | case3 line text ih =>
    have step (tail : Text) : splitlinesFrom line ('\r' :: '\n' :: tail) =
        [line] ++ splitlinesFrom [] tail := by rw [splitlinesFrom, List.singleton_append]
    rw [List.cons_append, List.cons_append, step, List.filter_append, ih, ← List.append_assoc,
      ← List.filter_append]
    rfl
  | case4 line d text _ ends ih =>
    have here := splitlinesFrom_break ends line text
    rw [splitlinesFrom, if_pos ends] at here
    · rw [List.cons_append, splitlinesFrom_break ends, here, List.append_assoc]
      exact congrArg _ ih
    · assumption
  | case5 line d text _ inside ih =>
    have alone : OneLine [d] := by simpa using inside
    have step := splitlinesFrom_append alone line (text ++ c :: rest)
    rw [List.cons_append, ← List.singleton_append, step, ih]

/-- A line that may go on begins what is behind it. -/
theorem eq_append_lastPiece (text : Text) : ∃ front, text = front ++ lastPiece text ∧
    (front = [] ∨ ∃ front' c, isLineBreak c = true ∧ front = front' ++ [c]) := by
  refine ⟨text.rdropWhile fun c => !isLineBreak c, ?_, ?_⟩
  · rw [lastPiece, List.rdropWhile, List.rtakeWhile, ← List.reverse_append,
      List.takeWhile_append_dropWhile, List.reverse_reverse]
  · rcases List.eq_nil_or_concat (text.rdropWhile fun c => !isLineBreak c) with none | ⟨front, c, e⟩
    · exact Or.inl none
    · refine Or.inr ⟨front, c, ?_, by simpa using e⟩
      have last := List.rdropWhile_last_not (fun c => !isLineBreak c) text (by simp [e])
      simpa [e] using last

theorem eq_firstPiece_append (text : Text) : ∃ back, text = firstPiece text ++ back ∧
    (back = [] ∨ ∃ c back', isLineBreak c = true ∧ back = c :: back') := by
  refine ⟨text.dropWhile fun c => !isLineBreak c, List.takeWhile_append_dropWhile.symm, ?_⟩
  cases e : text.dropWhile fun c => !isLineBreak c with
  | nil => exact Or.inl rfl
  | cons c back =>
    have first := List.head?_dropWhile_not (fun c => !isLineBreak c) text
    rw [e] at first
    exact Or.inr ⟨c, back, by simpa using first, rfl⟩

/-! ## Tags and fields -/

/-- What stands before the first blank of a line, white space around it left off. -/
def tagOf (line : Text) : Text := line.strip.partition.1

/-- The words behind the tag. -/
def fieldsOf (line : Text) : List Text := line.strip.partition.2.split

theorem tag_blank {tag : Char} (h : isSpace tag = false) (rest : Text) :
    tagOf (tag :: ' ' :: rest) = [tag] ∧ fieldsOf (tag :: ' ' :: rest) = rest.split := by
  have blank : tag ≠ ' ' := by
    rintro rfl
    cases h
  have words : split ((' ' :: rest).rdropWhile isSpace) = split rest := by
    rw [split_rdropWhile, split_blank]
  unfold tagOf fieldsOf
  rw [strip_cons h]
  generalize cut : (' ' :: rest).rdropWhile isSpace = tail at words
  cases tail with
  | nil => simpa [partition, blank] using words
  | cons c tail =>
    have pre := List.rdropWhile_prefix isSpace (' ' :: rest)
    rw [cut, List.cons_prefix_cons] at pre
    obtain ⟨rfl, -⟩ := pre
    rw [split_blank] at words
    simpa [partition, blank] using words

theorem tag_alone {tag : Char} (h : isSpace tag = false) : tagOf [tag] = [tag] := by
  have blank : tag ≠ ' ' := by
    rintro rfl
    cases h
  simp [tagOf, strip_cons h, partition, blank]

end Text

end TcadWebapp
