import TcadWebapp.Catalog.Proofs.Reading

/-!
# The order of the clauses

The parser reads a file as its grammar says exactly when in each declared parameter the clause of the error is the
last one (`parseKey_reads_iff`): the expression of the error takes in all clauses behind it.
-/

namespace TcadWebapp.Catalog

/-! ## Joined words -/

theorem intercalate_cons_cons (a b : Text) (words : List Text) :
    List.intercalate [' '] (a :: b :: words) = a ++ ' ' :: List.intercalate [' '] (b :: words) := by
  simp [List.intercalate]

/-- Further words make a joined text longer. -/
theorem length_intercalate_lt (words : List Text) {word : Text} (some_ : word ≠ []) (more : List Text) :
    (List.intercalate [' '] words).length < (List.intercalate [' '] (words ++ word :: more)).length := by
  have first : 0 < (List.intercalate [' '] (word :: more)).length := by
    cases more with
    | nil =>
      have : List.intercalate [' '] [word] = word := by simp [List.intercalate]
      rw [this]
      exact List.length_pos_iff.mpr some_
    | cons next more =>
      rw [intercalate_cons_cons, List.length_append, List.length_cons]
      omega
  induction words with
  | nil => exact first
  | cons a words ih =>
    cases words with
    | nil =>
      rw [List.singleton_append, intercalate_cons_cons, List.length_append, List.length_cons]
      have : List.intercalate [' '] [a] = a := by simp [List.intercalate]
      rw [this]
      omega
    | cons b words =>
      rw [List.cons_append, List.cons_append, intercalate_cons_cons, intercalate_cons_cons, List.length_append,
        List.length_append, List.length_cons, List.length_cons]
      rw [List.cons_append] at ih
      omega

/-! ## What is read of the clauses -/

/-- No clause follows that of the error. -/
def ErrorLast (clauses : List Clause) : Prop := ∀ clause ∈ clauses.dropLast, clause.body.name ≠ .error

instance (clauses : List Clause) : Decidable (ErrorLast clauses) :=
  inferInstanceAs (Decidable (∀ clause ∈ clauses.dropLast, clause.body.name ≠ .error))

variable {clauses : List Clause} {clause : Clause} {node : Node}

theorem errorLast_cons_of_ne (ne : clause.body.name ≠ .error) : ErrorLast (clause :: clauses) ↔ ErrorLast clauses := by
  cases clauses with
  | nil => simp [ErrorLast]
  | cons next clauses => simp [ErrorLast, ne]

theorem errorLast_cons_of_eq (eq : clause.body.name = .error) : ErrorLast (clause :: clauses) ↔ clauses = [] := by
  cases clauses with
  | nil => simp [ErrorLast]
  | cons next clauses => simp [ErrorLast, eq]

theorem solidValues_append (ls ls' : List Lexeme) : solidValues (ls ++ ls') = solidValues ls ++ solidValues ls' := by
  simp [solidValues]

theorem solidValues_comments (cs : List Comment) : solidValues (comments cs) = [] := by
  simp only [solidValues, comments, List.map_eq_nil_iff, List.filter_eq_nil_iff]
  intro l hl
  obtain ⟨c, -, rfl⟩ := List.mem_map.mp hl
  simp [c.2]

theorem solidValues_expression (expression : List Operand) :
    solidValues (expression.flatMap Operand.lexemes) = expression.map fun operand => operand.lexeme.value := by
  induction expression with
  | nil => rfl
  | cons operand expression ih =>
    have one : solidValues [operand.lexeme] = [operand.lexeme.value] := by
      simp [solidValues, operand.solid]
    rw [List.flatMap_cons, solidValues_append, ih, Operand.lexemes, solidValues_append, solidValues_comments, one]
    rfl

/-- The clauses have something to say. -/
theorem exists_solidValues (clause : Clause) (clauses : List Clause) : ∃ more,
    solidValues ((clause :: clauses).flatMap Clause.lexemes) = clause.body.name.word :: more := by
  refine ⟨solidValues (Lexeme.equals :: (clause.body.lexemes ++ clauses.flatMap Clause.lexemes)), ?_⟩
  rw [List.flatMap_cons, Clause.lexemes, List.append_assoc, solidValues_append, solidValues_comments]
  rfl

/-- The error is read as it stands exactly when it is the last clause. -/
theorem error_readClauses_iff (none_ : node.error = none) (clauses : List Clause) :
    (readClauses node clauses).error = clauses.findSome? Clause.error ↔ ErrorLast clauses := by
  induction clauses generalizing node with
  | nil => simp [readClauses, none_, ErrorLast]
  | cons clause clauses ih =>
    simp only [readClauses, List.findSome?_cons, Clause.error]
    cases body : clause.body with
    | units quoted =>
      rw [errorLast_cons_of_ne (by simp [body, ClauseBody.name])]
      exact ih none_
    | message quoted =>
      rw [errorLast_cons_of_ne (by simp [body, ClauseBody.name])]
      exact ih none_
    | error expression =>
      rw [errorLast_cons_of_eq (by rw [body]; rfl)]
      simp only [Node.setClause, Option.some.injEq]
      rw [solidValues_append, solidValues_expression]
      cases clauses with
      | nil => simp [solidValues]
      | cons next clauses =>
        obtain ⟨more, all⟩ := exists_solidValues next clauses
        have word : next.body.name.word ≠ [] := by
          cases next.body.name <;> decide
        rw [all]
        simp only [reduceCtorEq, iff_false]
        intro same
        have := length_intercalate_lt (expression.map fun operand => operand.lexeme.value) word more
        rw [same] at this
        omega

theorem findSome?_units_eq_none (h : ClauseName.units ∉ clauses.map fun clause => clause.body.name) :
    clauses.findSome? Clause.units = none := by
  rw [List.findSome?_eq_none_iff]
  intro clause mem
  unfold Clause.units
  cases body : clause.body with
  | units quoted => exact absurd (List.mem_map.mpr ⟨clause, mem, by rw [body]; rfl⟩) h
  | message quoted => rfl
  | error expression => rfl

theorem findSome?_message_eq_none (h : ClauseName.message ∉ clauses.map fun clause => clause.body.name) :
    clauses.findSome? Clause.message = none := by
  rw [List.findSome?_eq_none_iff]
  intro clause mem
  unfold Clause.message
  cases body : clause.body with
  | units quoted => rfl
  | message quoted => exact absurd (List.mem_map.mpr ⟨clause, mem, by rw [body]; rfl⟩) h
  | error expression => rfl

/-- With the error last, units and message are read as they stand. -/
theorem readClauses_of_errorLast (last : ErrorLast clauses)
    (distinct : (clauses.map fun clause => clause.body.name).Nodup) (plain : ∀ clause ∈ clauses, clause.body.Plain)
    (node : Node) :
    (readClauses node clauses).units = (clauses.findSome? Clause.units).or node.units ∧
      (readClauses node clauses).message = (clauses.findSome? Clause.message).or node.message := by
  induction clauses generalizing node with
  | nil => exact ⟨rfl, rfl⟩
  | cons clause clauses ih =>
    rw [List.map_cons, List.nodup_cons] at distinct
    obtain ⟨here, later⟩ := List.forall_mem_cons.mp plain
    simp only [readClauses, List.findSome?_cons, Clause.units, Clause.message]
    cases body : clause.body with
    | units quoted =>
      rw [body] at distinct
      have ne : clause.body.name ≠ .error := by simp [body, ClauseBody.name]
      have rest := ih ((errorLast_cons_of_ne ne).mp last) distinct.2 later
        (node.setClause .units (stripQuotes quoted.lexeme.value))
      rw [findSome?_units_eq_none distinct.1] at rest
      rw [body] at here
      simp only [Node.setClause, stripQuotes_quoted here] at rest ⊢
      exact rest
    | message quoted =>
      rw [body] at distinct
      have ne : clause.body.name ≠ .error := by simp [body, ClauseBody.name]
      have rest := ih ((errorLast_cons_of_ne ne).mp last) distinct.2 later
        (node.setClause .message (stripQuotes quoted.lexeme.value))
      rw [findSome?_message_eq_none distinct.1] at rest
      rw [body] at here
      simp only [Node.setClause, stripQuotes_quoted here] at rest ⊢
      exact rest
    | error expression =>
      have none : clauses = [] := (errorLast_cons_of_eq (by rw [body]; rfl)).mp last
      subst none
      exact ⟨rfl, rfl⟩

/-- A parameter is read as it is declared exactly when the error is the last of its clauses. -/
theorem readParameter_eq_iff {head : Head} (plain : head.Plain) (group : Option Text) :
    head.readParameter group = head.parameter group ↔ ErrorLast head.clauses := by
  constructor
  · intro same
    exact (error_readClauses_iff rfl head.clauses).mp (congrArg Parameter.error same)
  · intro last
    have error : head.read.error = _ := (error_readClauses_iff rfl head.clauses).mpr last
    obtain ⟨units, message⟩ := readClauses_of_errorLast last head.distinct plain.clauses head.start
    have units : head.read.units = _ := units.trans Option.or_none
    have message : head.read.message = _ := message.trans Option.or_none
    have default : head.default.map Default.read = head.default.map Default.text :=
      Option.map_congr fun d mem => stripQuotes_default (plain.default d mem)
    simp only [Head.readParameter, Head.parameter, error, units, message, default]

/-! ## Files -/

theorem readCommand_eq_iff {stmt : Stmt} (plain : ∀ entry ∈ stmt.declared, entry.1.Plain) :
    stmt.readCommand = stmt.command ↔ ∀ entry ∈ stmt.declared, ErrorLast entry.1.clauses := by
  simp only [Stmt.readCommand, Stmt.command, Command.mk.injEq, true_and]
  rw [List.map_inj_left]
  exact forall₂_congr fun entry mem => readParameter_eq_iff (plain entry mem) entry.2

/-- The parser reads a file of the grammar exactly when in each of its parameters no clause follows that of the
error. -/
theorem parseKey_reads_iff {file : File} (top : file.CardsOnTop) (plain : file.Plain) {text : Text} (renders : file.Renders text) :
    (∃ commands, parseKey text = .ok commands ∧ commands.map Command.plain = file.cards.map Stmt.command) ↔
      ∀ stmt ∈ file.cards, ∀ entry ∈ stmt.declared, ErrorLast entry.1.clauses := by
  obtain ⟨layout, lexemes, rfl⟩ := renders
  obtain ⟨tokens, cut, spells⟩ := tokenize_layout layout
  rw [lexemes] at spells
  rcases parseKey_file cut spells with ⟨-, commands, parsed, read⟩ | ⟨⟨stmt, mem, entry, below, card⟩, -⟩
  · have same : (∃ commands, parseKey layout.text = .ok commands ∧
        commands.map Command.plain = file.cards.map Stmt.command) ↔
        file.cards.map Stmt.readCommand = file.cards.map Stmt.command := by
      rw [← read, parsed]
      constructor
      · rintro ⟨other, h, declared⟩
        cases h
        exact declared
      · exact fun declared => ⟨commands, rfl, declared⟩
    rw [same, List.map_inj_left]
    exact forall₂_congr fun stmt mem => readCommand_eq_iff (plain stmt mem)
  · exact absurd card (top stmt (List.mem_of_mem_filter mem) entry below)

/-! ## A card with one parameter -/

theorem name_solid : TokenKind.name ≠ .ws := by decide

/-- `card c; { float x ...; }` with these clauses. -/
def oneCard (clauses : List Clause) (distinct : (clauses.map fun clause => clause.body.name).Nodup) : File where
  opening := []
  stmts := [.tree ⟨.card, ⟨⟨.name, ['c'], by decide, name_solid⟩, rfl⟩, none, [], List.nodup_nil, [], []⟩ []
    [.leaf ⟨.float, ⟨⟨.name, ['x'], by decide, name_solid⟩, rfl⟩, none, clauses, distinct, [], []⟩] []]
  mark := none

def unitsClause : Clause := ⟨[], .units ⟨['u'], by decide⟩⟩

def errorClause : Clause :=
  ⟨[], .error [⟨[], ⟨.name, ['y'], by decide, name_solid⟩, by decide, by decide⟩]⟩

theorem oneCard_cardsOnTop (clauses : List Clause) (distinct : (clauses.map fun clause => clause.body.name).Nodup) :
    (oneCard clauses distinct).CardsOnTop := by
  simp [File.CardsOnTop, oneCard, Stmt.declared, Stmt.children, stmtsEntries, Stmt.entries]

theorem renders_blanks (file : File) (solid : ∀ l ∈ file.lexemes, l.kind ≠ .comment ∧ l.value ≠ ['"']) :
    file.Renders (Layout.blanks file.lexemes solid).text := by
  refine ⟨Layout.blanks file.lexemes solid, ?_, rfl⟩
  simp [Layout.blanks, Layout.lexemes, Function.comp_def]

/-- With the units behind the error the units are lost, and are a part of the error. -/
theorem not_reads_swallowed : (oneCard [errorClause, unitsClause] (by decide)).CardsOnTop ∧
    (oneCard [errorClause, unitsClause] (by decide)).Plain ∧
    (oneCard [errorClause, unitsClause] (by decide)).Renders "card c ; \x7b float x error = y units = \"u\" ; \x7d ".toList ∧
    ¬ ∃ commands, parseKey "card c ; \x7b float x error = y units = \"u\" ; \x7d ".toList = .ok commands ∧
      commands.map Command.plain = (oneCard [errorClause, unitsClause] (by decide)).cards.map Stmt.command := by
  refine ⟨oneCard_cardsOnTop _ _, by decide, ?_, ?_⟩
  · exact renders_blanks (oneCard [errorClause, unitsClause] (by decide)) (by decide)
  · rintro ⟨commands, parsed, same⟩
    have lost : parseKey "card c ; \x7b float x error = y units = \"u\" ; \x7d ".toList = .ok [{
        name := ['c'], sourceName := ['c'], parameters := [{
          name := ['x'], type := .float, sourceName := ['x'], error := some "y units = \"u\"".toList }] }] := by
      decide +kernel
    rw [lost] at parsed
    cases parsed
    revert same
    decide +kernel

theorem parseKey_reads_ordered : ∃ commands,
    parseKey "card c ; \x7b float x units = \"u\" error = y ; \x7d ".toList = .ok commands ∧
      commands.map Command.plain = (oneCard [unitsClause, errorClause] (by decide)).cards.map Stmt.command := by
  have renders : (oneCard [unitsClause, errorClause] (by decide)).Renders
      "card c ; \x7b float x units = \"u\" error = y ; \x7d ".toList :=
    renders_blanks (oneCard [unitsClause, errorClause] (by decide)) (by decide)
  apply (parseKey_reads_iff (oneCard_cardsOnTop _ _) (by decide) renders).mpr
  decide

end TcadWebapp.Catalog
