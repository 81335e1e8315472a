import TcadWebapp.Catalog.Proofs.Lexer

/-!
# What the parser makes of a tree

The tokens of a tree are read as nodes of the same shape (`parse_file`). Of the clauses after that of the error
nothing is read: their tokens become a part of the expression (`readClauses`).
-/

namespace TcadWebapp.Catalog

/-! ## Tokens that spell lexemes -/

variable {tokens rest : List Token} {token semi : Token} {ls ls' : List Lexeme} {l : Lexeme}

theorem spells_append : Spells tokens (ls ++ ls') ↔
    ∃ first second, tokens = first ++ second ∧ Spells first ls ∧ Spells second ls' := by
  constructor
  · intro h
    refine ⟨tokens.take ls.length, tokens.drop ls.length, (List.take_append_drop _ _).symm, ?_, ?_⟩
    · exact List.forall₂_take_append _ _ _ h
    · exact List.forall₂_drop_append _ _ _ h
  · rintro ⟨first, second, rfl, h, h'⟩
    exact List.rel_append h h'

theorem spells_cons : Spells tokens (l :: ls) ↔ ∃ token rest, tokens = token :: rest ∧ token.Is l ∧ Spells rest ls := by
  constructor
  · intro h
    cases h with
    | cons is h => exact ⟨_, _, rfl, is, h⟩
  · rintro ⟨token, rest, rfl, is, h⟩
    exact List.Forall₂.cons is h

theorem Spells.comments {cs : List Comment} (h : Spells tokens (comments cs)) : ∀ t ∈ tokens, t.kind = .comment := by
  intro t ht
  obtain ⟨l, hl, is⟩ := exists_of_mem_left h ht
  obtain ⟨c, -, rfl⟩ := List.mem_map.mp hl
  exact is.kind.trans c.2

@[simp] theorem Token.Is.isPunct_iff {c : Char} (h : token.Is l) :
    token.isPunct c = true ↔ l.kind = .punct ∧ l.value = [c] := by
  unfold Token.isPunct
  rw [Bool.and_eq_true, decide_eq_true_eq, decide_eq_true_eq, h.kind, h.value]

theorem isPunct_comment {c : Char} (h : token.kind = .comment) : token.isPunct c = false := by
  simp [Token.isPunct, h]

@[simp] theorem KeyType.ofWord_word (type : KeyType) : KeyType.ofWord type.word = some type := by
  cases type <;> decide

@[simp] theorem ClauseName.ofWord_word (clause : ClauseName) : ClauseName.ofWord clause.word = some clause := by
  cases clause <;> decide

/-! ## Clauses -/

/-- The values of the lexemes that are not comments. -/
def solidValues (ls : List Lexeme) : List Text := (ls.filter fun l => l.kind ≠ .comment).map fun l => l.value

/-- What is read of the clauses: the first error takes all that follows into its expression. -/
def readClauses (node : Node) : List Clause → Node
  | [] => node
  | clause :: clauses =>
    match clause.body with
    | .units quoted => readClauses (node.setClause .units (stripQuotes quoted.lexeme.value)) clauses
    | .message quoted => readClauses (node.setClause .message (stripQuotes quoted.lexeme.value)) clauses
    | .error expression => node.setClause .error (List.intercalate [' ']
        (solidValues (expression.flatMap Operand.lexemes ++ clauses.flatMap Clause.lexemes)))

/-- No lexeme is a semicolon. -/
def NoSemicolon (ls : List Lexeme) : Prop := ∀ l ∈ ls, ¬ (l.kind = .punct ∧ l.value = [';'])

theorem noSemicolon_comments (cs : List Comment) : NoSemicolon (comments cs) := by
  intro l hl punct
  obtain ⟨c, -, rfl⟩ := List.mem_map.mp hl
  rw [c.2] at punct
  cases punct.1

theorem noSemicolon_append : NoSemicolon (ls ++ ls') ↔ NoSemicolon ls ∧ NoSemicolon ls' := List.forall_mem_append

theorem noSemicolon_flatMap {α : Type*} {items : List α} {f : α → List Lexeme} :
    NoSemicolon (items.flatMap f) ↔ ∀ a ∈ items, NoSemicolon (f a) := by
  simp only [NoSemicolon, List.mem_flatMap]
  exact ⟨fun h a ha l hl => h l ⟨a, ha, hl⟩, fun h l hl => hl.elim fun a ha => h a ha.1 l ha.2⟩

theorem noSemicolon_expression (expression : List Operand) : NoSemicolon (expression.flatMap Operand.lexemes) := by
  rw [noSemicolon_flatMap]
  intro operand _
  exact noSemicolon_append.mpr ⟨noSemicolon_comments _, List.forall_mem_singleton.mpr operand.inside⟩

theorem noSemicolon_clauses (clauses : List Clause) : NoSemicolon (clauses.flatMap Clause.lexemes) := by
  rw [noSemicolon_flatMap]
  intro clause _
  refine noSemicolon_append.mpr ⟨noSemicolon_comments _, List.forall_mem_cons.mpr ⟨?_, List.forall_mem_cons.mpr ⟨?_, ?_⟩⟩⟩
  · simp [ClauseName.lexeme]
  · simp [Lexeme.equals]
  · cases clause.body with
    | units quoted => exact List.forall_mem_singleton.mpr (by simp [Quoted.lexeme])
    | message quoted => exact List.forall_mem_singleton.mpr (by simp [Quoted.lexeme])
    | error expression => exact noSemicolon_expression expression

/-- An expression is read up to the semicolon. -/
theorem parseExpression_spells (h : Spells tokens ls) (inside : NoSemicolon ls) (ends : semi.Is .semicolon)
    (rest : List Token) : parseExpression (tokens ++ semi :: rest) = .ok (solidValues ls, semi :: rest) := by
  induction h with
  | nil =>
    have : semi.isPunct ';' = true := ends.isPunct_iff.mpr ⟨rfl, rfl⟩
    simp [parseExpression, this, solidValues]
  | @cons token l tokens ls is h ih =>
    obtain ⟨here, later⟩ := List.forall_mem_cons.mp inside
    have solid : token.isPunct ';' ≠ true := fun semicolon => here (is.isPunct_iff.mp semicolon)
    rw [List.cons_append, parseExpression, if_neg solid, ih later]
    by_cases comment : token.kind = .comment
    · have : l.kind = .comment := is.kind ▸ comment
      simp [bind, Except.bind, comment, solidValues, this]
    · have : l.kind ≠ .comment := is.kind ▸ comment
      simp [bind, Except.bind, comment, solidValues, this, is.value]

theorem parseClauses_comments {cs : List Token} (h : ∀ t ∈ cs, t.kind = .comment) (node : Node) (rest : List Token) :
    parseClauses node (cs ++ rest) = parseClauses node rest := by
  induction cs with
  | nil => rfl
  | cons c cs ih =>
    have comment := h c List.mem_cons_self
    rw [List.cons_append, parseClauses.eq_def]
    dsimp only
    rw [isPunct_comment comment, if_neg Bool.false_ne_true, if_pos comment,
      ih fun t ht => h t (List.mem_cons_of_mem _ ht)]

theorem parseClauses_semicolon (ends : semi.Is .semicolon) (node : Node) (rest : List Token) :
    parseClauses node (semi :: rest) = .ok (node, semi :: rest) := by
  rw [parseClauses.eq_def]
  exact if_pos (ends.isPunct_iff.mpr ⟨rfl, rfl⟩)

theorem parseClauses_spells {clauses : List Clause} {before : List Comment}
    (h : Spells tokens (clauses.flatMap Clause.lexemes ++ comments before)) (ends : semi.Is .semicolon) (node : Node)
    (rest : List Token) :
    parseClauses node (tokens ++ semi :: rest) = .ok (readClauses node clauses, semi :: rest) := by
  induction clauses generalizing tokens node with
  | nil => rw [parseClauses_comments h.comments, parseClauses_semicolon ends, readClauses]
  | cons clause clauses ih =>
    rw [List.flatMap_cons, List.append_assoc, Clause.lexemes, List.append_assoc, spells_append] at h
    obtain ⟨cs, tail, rfl, skipped, h⟩ := h
    rw [List.cons_append, spells_cons] at h
    obtain ⟨word, tail, rfl, is, h⟩ := h
    rw [List.cons_append, spells_cons] at h
    obtain ⟨equals, tail, rfl, eq, h⟩ := h
    have noPunct : ¬ word.isPunct ';' = true := by
      rw [is.isPunct_iff]
      simp [ClauseName.lexeme]
    have kind : word.kind = .name := is.kind
    have value : word.value = clause.body.name.word := is.value
    have sign : equals.value = ['='] := eq.value
    have solid : ¬ word.kind = .comment := by
      rw [kind]
      decide
    rw [List.append_assoc, parseClauses_comments skipped.comments, List.cons_append, parseClauses.eq_def]
    simp only [if_neg noPunct, if_neg solid, if_pos kind, value, ClauseName.ofWord_word, List.cons_append, sign, ne_eq,
      not_true_eq_false, if_false]
    rw [readClauses]
    cases body : clause.body with
    | units quoted =>
      rw [body] at h
      obtain ⟨token, tail, rfl, string, h⟩ := spells_cons.mp h
      have text : token.value = quoted.lexeme.value := string.value
      simp only [ClauseBody.name, reduceCtorEq, if_false, List.cons_append, text]
      exact ih h _
    | message quoted =>
      rw [body] at h
      obtain ⟨token, tail, rfl, string, h⟩ := spells_cons.mp h
      have text : token.value = quoted.lexeme.value := string.value
      simp only [ClauseBody.name, reduceCtorEq, if_false, List.cons_append, text]
      exact ih h _
    | error expression =>
      rw [body] at h
      rw [ClauseBody.lexemes] at h
      have inside : NoSemicolon (expression.flatMap Operand.lexemes ++
          (clauses.flatMap Clause.lexemes ++ comments before)) :=
        noSemicolon_append.mpr ⟨noSemicolon_expression _, noSemicolon_append.mpr
          ⟨noSemicolon_clauses _, noSemicolon_comments _⟩⟩
      have none : solidValues (comments before) = [] := by
        simp only [solidValues, comments, List.map_eq_nil_iff, List.filter_eq_nil_iff]
        intro l hl
        obtain ⟨c, -, rfl⟩ := List.mem_map.mp hl
        simp [c.2]
      have all : solidValues (expression.flatMap Operand.lexemes ++
          (clauses.flatMap Clause.lexemes ++ comments before)) =
          solidValues (expression.flatMap Operand.lexemes ++ clauses.flatMap Clause.lexemes) := by
        rw [← List.append_assoc, solidValues, List.filter_append, List.map_append]
        exact (congrArg (_ ++ ·) none).trans (List.append_nil _)
      simp only [ClauseBody.name, if_true]
      rw [parseExpression_spells h inside ends rest, all]
      rfl

/-! ## Declarations -/

/-- What is read of a default. -/
def Default.read (default : Default) : Text := stripQuotes default.lexeme.value

/-- What is read up to the clauses. -/
def Head.start (head : Head) : Node where
  type := head.type
  name := head.name.1.value
  line := 0
  default := head.default.map Default.read

/-- What is read of a declaration; where it stands and its description are not counted. -/
def Head.read (head : Head) : Node := readClauses head.start head.clauses

/-- The node is what is read of the declaration, with these children. -/
def Head.ReadAs (head : Head) (node : Node) (children : List Node) : Prop :=
  ∃ line description, node = { head.read with line := line, description := description, children := children }

/-- The clauses do not touch what else there is in a node. -/
theorem readClauses_with (node : Node) (line : ℕ) (description : Option Text) (children : List Node)
    (clauses : List Clause) :
    readClauses { node with line := line, description := description, children := children } clauses =
      { readClauses node clauses with line := line, description := description, children := children } := by
  induction clauses generalizing node with
  | nil => rfl
  | cons clause clauses ih =>
    simp only [readClauses]
    cases clause.body with
    | units quoted => exact ih (node.setClause .units (stripQuotes quoted.lexeme.value))
    | message quoted => exact ih (node.setClause .message (stripQuotes quoted.lexeme.value))
    | error expression => rfl

theorem parseDefault_spells {default : Option Default} (h : Spells tokens (defaultLexemes default))
    (noEquals : default = none → ∀ t ∈ rest.head?, ¬ t.isPunct '=' = true) (some_ : rest ≠ []) (node : Node)
    (none_ : node.default = none) :
    parseDefault node (tokens ++ rest) = .ok ({ node with default := default.map Default.read }, rest) := by
  cases default with
  | none =>
    cases h
    obtain ⟨token, rest, rfl⟩ := List.exists_cons_of_ne_nil some_
    obtain ⟨type, name, line, default, units, message, error, description, children⟩ := node
    cases none_
    rw [List.nil_append, parseDefault.eq_def]
    exact if_neg (noEquals rfl token rfl)
  | some default =>
    obtain ⟨equals, tail, rfl, eq, h⟩ := spells_cons.mp h
    obtain ⟨value, tail, rfl, is, h⟩ := spells_cons.mp h
    cases h
    have sign : equals.isPunct '=' = true := eq.isPunct_iff.mpr ⟨rfl, rfl⟩
    have text : stripQuotes value.value = default.read := congrArg stripQuotes is.value
    simp only [List.cons_append, List.nil_append, parseDefault, sign, if_true, text, Option.map_some]

/-- Behind the semicolon the comment on its line is taken. -/
theorem takeTrailingComment_comments {cs : List Token} (h : ∀ t ∈ cs, t.kind = .comment)
    (fresh : ∀ t ∈ rest.head?, t.kind ≠ .comment) (semi : Token) :
    ∃ trailing cs', takeTrailingComment (semi :: (cs ++ rest)) = .ok (trailing, cs' ++ rest) ∧
      cs'.length ≤ cs.length ∧ ∀ t ∈ cs', t.kind = .comment := by
  cases cs with
  | nil =>
    cases rest with
    | nil => exact ⟨none, [], rfl, le_rfl, h⟩
    | cons token rest =>
      refine ⟨none, [], ?_, le_rfl, h⟩
      have solid := fresh token rfl
      simp [takeTrailingComment, solid]
  | cons c cs =>
    by_cases same : c.line = semi.line
    · have comment := h c List.mem_cons_self
      refine ⟨some (cleanComment c.value), cs, ?_, Nat.le_succ _, fun t ht => h t (List.mem_cons_of_mem _ ht)⟩
      simp [takeTrailingComment, comment, same]
    · refine ⟨none, c :: cs, ?_, le_rfl, h⟩
      simp [takeTrailingComment, same]

theorem head_comments (cs : List Comment) : ∀ l ∈ (comments cs).head?, l.kind ≠ .punct := by
  cases cs with
  | nil =>
    intro l hl
    cases hl
  | cons c cs =>
    intro l hl
    cases hl
    rw [c.2]
    decide

theorem head_clauses (clauses : List Clause) (before : List Comment) :
    ∀ l ∈ (clauses.flatMap Clause.lexemes ++ comments before).head?, l.kind ≠ .punct := by
  cases clauses with
  | nil => exact head_comments before
  | cons clause clauses =>
    have first := head_comments clause.before
    rw [List.flatMap_cons, Clause.lexemes]
    generalize comments clause.before = cs at first ⊢
    cases cs with
    | nil =>
      intro l hl
      cases hl
      simp [ClauseName.lexeme]
    | cons c cs =>
      intro l hl
      exact first l hl

/-- No default begins where the clauses do. -/
theorem not_equals_of_clauses {clauses : List Clause} {before : List Comment}
    (h : Spells tokens (clauses.flatMap Clause.lexemes ++ comments before)) (ends : semi.Is .semicolon) :
    ∀ t ∈ (tokens ++ semi :: rest).head?, ¬ t.isPunct '=' = true := by
  have first := head_clauses clauses before
  generalize clauses.flatMap Clause.lexemes ++ comments before = ls at h first
  intro t ht
  cases h with
  | nil =>
    cases ht
    rw [ends.isPunct_iff]
    simp [Lexeme.semicolon]
  | cons is h =>
    cases ht
    rw [is.isPunct_iff]
    exact fun punct => first _ rfl punct.1

theorem parseDeclaration_spells {head : Head} (h : Spells tokens head.lexemes)
    (fresh : ∀ t ∈ rest.head?, t.kind ≠ .comment) :
    ∃ node trailing cs, parseDeclaration (tokens ++ rest) = .ok ((node, trailing), cs ++ rest) ∧
      head.ReadAs node [] ∧ cs.length < tokens.length ∧ ∀ t ∈ cs, t.kind = .comment := by
  obtain ⟨type, tail, rfl, isType, h⟩ := spells_cons.mp h
  obtain ⟨name, tail, rfl, isName, h⟩ := spells_cons.mp h
  obtain ⟨default, tail, rfl, isDefault, h⟩ := spells_append.mp h
  rw [← List.append_assoc, spells_append] at h
  obtain ⟨clauses, tail, rfl, isClauses, h⟩ := h
  obtain ⟨semi, after, rfl, isSemi, isAfter⟩ := spells_cons.mp h
  obtain ⟨trailing, cs, taken, shorter, isCs⟩ := takeTrailingComment_comments isAfter.comments fresh semi
  have kind : type.kind = .name := isType.kind
  have value : type.value = head.type.word := isType.value
  have nameKind : name.kind = .name := isName.kind.trans head.name.2
  have nameValue : name.value = head.name.1.value := isName.value
  have clausesHere : clauses ++ semi :: (after ++ rest) ≠ [] := by simp
  have noEquals : ∀ t ∈ (clauses ++ semi :: (after ++ rest)).head?, ¬ t.isPunct '=' = true :=
    not_equals_of_clauses isClauses isSemi
  have first := parseDefault_spells isDefault (fun _ => noEquals) clausesHere
    { type := head.type, name := name.value, line := type.line } rfl
  have second := parseClauses_spells isClauses isSemi
    { type := head.type, name := name.value, line := type.line, default := head.default.map Default.read } (after ++ rest)
  refine ⟨{ head.read with line := type.line, description := none, children := [] }, trailing, cs, ?_,
    ⟨type.line, none, rfl⟩, ?_, isCs⟩
  swap
  · simp only [List.length_cons, List.length_append]
    omega
  simp only [List.cons_append, List.append_assoc, parseDeclaration.eq_def, if_pos kind, value, KeyType.ofWord_word,
    nameKind, ne_eq, not_true_eq_false, if_false]
  rw [first]
  simp only [bind, Except.bind, second, taken]
  rw [nameValue]
  exact congrArg (fun node => Except.ok ((node, trailing), cs ++ rest)) (readClauses_with head.start type.line none [] head.clauses)

/-! ## Blocks -/

mutual

/-- The node is what is read of the statement. -/
def Stmt.ReadAs : Stmt → Node → Prop
  | .leaf head, node => head.ReadAs node []
  | .tree head _ children _, node => ∃ nodes, head.ReadAs node nodes ∧ ReadAll children nodes

def ReadAll : List Stmt → List Node → Prop
  | [], nodes => nodes = []
  | stmt :: stmts, nodes => ∃ node rest, nodes = node :: rest ∧ stmt.ReadAs node ∧ ReadAll stmts rest

end

/-- The next token is no comment. -/
def Fresh (rest : List Token) : Prop := ∀ t ∈ rest.head?, t.kind ≠ .comment

theorem parseBlock_comments {cs : List Token} (h : ∀ t ∈ cs, t.kind = .comment) {rounds : ℕ}
    (enough : (cs ++ rest).length ≤ rounds) (nodes : List Node) (pending : List (ℕ × Text)) :
    ∃ rounds' pending', rest.length ≤ rounds' ∧
      parseBlock rounds (cs ++ rest) nodes pending = parseBlock rounds' rest nodes pending' := by
  induction cs generalizing rounds pending with
  | nil => exact ⟨rounds, pending, enough, rfl⟩
  | cons c cs ih =>
    cases rounds with
    | zero => cases enough
    | succ rounds =>
      have comment := h c List.mem_cons_self
      obtain ⟨rounds', pending', enough', same⟩ := ih (fun t ht => h t (List.mem_cons_of_mem _ ht))
        (Nat.le_of_succ_le_succ enough) (pending ++ [(c.line, cleanComment c.value)])
      refine ⟨rounds', pending', enough', ?_⟩
      rw [← same, List.cons_append, parseBlock.eq_def]
      exact if_pos comment

theorem Head.lexemes_eq_cons (head : Head) : ∃ ls, head.lexemes = head.type.lexeme :: ls := ⟨_, rfl⟩

theorem parseBlock_head {head : Head} (h : Spells tokens head.lexemes) (fresh : Fresh rest) {rounds : ℕ}
    (enough : (tokens ++ rest).length ≤ rounds) (nodes : List Node) (pending : List (ℕ × Text)) :
    ∃ rounds' pending' node, rest.length ≤ rounds' ∧ head.ReadAs node [] ∧
      parseBlock rounds (tokens ++ rest) nodes pending = parseBlock rounds' rest (nodes ++ [node]) pending' := by
  obtain ⟨node, trailing, cs, declaration, read, shorter, isCs⟩ := parseDeclaration_spells h fresh
  obtain ⟨ls, lexemes⟩ := head.lexemes_eq_cons
  rw [lexemes] at h
  obtain ⟨type, tail, rfl, is, -⟩ := spells_cons.mp h
  cases rounds with
  | zero => cases enough
  | succ rounds =>
    have kind : type.kind = .name := is.kind
    have solid : ¬ type.kind = .comment := by
      rw [kind]
      decide
    have noEnd : ¬ (type.kind = .name ∧ type.value = "end".toList) := by
      rw [is.value]
      rintro ⟨-, word⟩
      revert word
      change ¬ head.type.word = "end".toList
      cases head.type <;> decide
    have noPunct (c : Char) : ¬ type.isPunct c = true := by
      rw [is.isPunct_iff]
      simp [KeyType.lexeme]
    have left : (cs ++ rest).length ≤ rounds := by
      simp only [List.length_append, List.length_cons] at enough shorter ⊢
      omega
    obtain ⟨rounds', pending', enough', same⟩ := parseBlock_comments isCs left
      (nodes ++ [{ node with description := buildDescription pending node.line trailing }]) []
    refine ⟨rounds', pending', { node with description := buildDescription pending node.line trailing }, enough',
      ?_, ?_⟩
    · obtain ⟨line, description, rfl⟩ := read
      exact ⟨line, _, rfl⟩
    · rw [← same, List.cons_append, parseBlock.eq_def]
      simp only [if_neg solid, if_neg noEnd, if_neg (noPunct _)]
      rw [← List.cons_append, declaration]
      rfl

theorem fresh_stmts {stmts : List Stmt} (h : Spells tokens (stmtsLexemes stmts)) (fresh : Fresh rest) :
    Fresh (tokens ++ rest) := by
  cases stmts with
  | nil =>
    cases h
    exact fresh
  | cons stmt stmts =>
    have first : ∃ ls, stmtsLexemes (stmt :: stmts) = stmt.head.type.lexeme :: ls := by
      cases stmt <;> exact ⟨_, rfl⟩
    obtain ⟨ls, first⟩ := first
    rw [first] at h
    obtain ⟨type, tail, rfl, is, -⟩ := spells_cons.mp h
    intro t ht
    cases ht
    rw [is.kind]
    simp [KeyType.lexeme]

theorem attach_concat (nodes children : List Node) (node : Node) :
    attach (nodes ++ [node]) children = nodes ++ [{ node with children := node.children ++ children }] := by
  simp [attach]

theorem Head.ReadAs.with_children {head : Head} {node : Node} (h : head.ReadAs node []) (children : List Node) :
    head.ReadAs { node with children := node.children ++ children } children := by
  obtain ⟨line, description, rfl⟩ := h
  exact ⟨line, description, rfl⟩

theorem parseBlock_closing {close : Token} (h : close.Is .closing) {rounds : ℕ} (enough : 0 < rounds)
    (nodes : List Node) (pending : List (ℕ × Text)) :
    parseBlock rounds (close :: rest) nodes pending = .ok (nodes, rest) := by
  obtain ⟨rounds, rfl⟩ := Nat.exists_eq_succ_of_ne_zero enough.ne'
  have kind : close.kind = .punct := h.kind
  have brace : close.isPunct '}' = true := h.isPunct_iff.mpr ⟨rfl, rfl⟩
  simp [parseBlock.eq_def, kind, brace]

theorem parseBlock_opening {brace : Token} (h : brace.Is .opening) (rounds : ℕ) (nodes : List Node)
    (pending : List (ℕ × Text)) {children : List Node} {tail : List Token}
    (inner : parseBlock rounds tail [] [] = .ok (children, rest)) :
    parseBlock (rounds + 1) (brace :: tail) nodes pending = parseBlock rounds rest (attach nodes children) [] := by
  have kind : brace.kind = .punct := h.kind
  have opens : brace.isPunct '{' = true := h.isPunct_iff.mpr ⟨rfl, rfl⟩
  have closes : ¬ brace.isPunct '}' = true := by
    rw [h.isPunct_iff]
    simp [Lexeme.opening]
  rw [parseBlock.eq_def]
  simp only [kind, opens, closes, inner, reduceCtorEq, false_and, if_true, if_false, Bool.false_eq_true]
  rfl

mutual

theorem parseBlock_stmt (stmt : Stmt) {tokens rest : List Token} (h : Spells tokens stmt.lexemes) (fresh : Fresh rest)
    {rounds : ℕ} (enough : (tokens ++ rest).length ≤ rounds) (nodes : List Node) (pending : List (ℕ × Text)) :
    ∃ rounds' pending' node, rest.length ≤ rounds' ∧ stmt.ReadAs node ∧
      parseBlock rounds (tokens ++ rest) nodes pending = parseBlock rounds' rest (nodes ++ [node]) pending' := by
  match stmt with
  | .leaf head => exact parseBlock_head h fresh enough nodes pending
  | .tree head opening children closing =>
    obtain ⟨first, tail, rfl, isHead, h⟩ := spells_append.mp h
    obtain ⟨brace, tail, rfl, opens, h⟩ := spells_cons.mp h
    obtain ⟨before, tail, rfl, isBefore, h⟩ := spells_append.mp h
    obtain ⟨inside, tail, rfl, isInside, h⟩ := spells_append.mp h
    obtain ⟨close, behind, rfl, closes, isBehind⟩ := spells_cons.mp h
    have freshBrace : Fresh (brace :: (before ++ (inside ++ close :: (behind ++ rest)))) := by
      intro t ht
      cases ht
      rw [opens.kind]
      decide
    have freshClose : Fresh (close :: (behind ++ rest)) := by
      intro t ht
      cases ht
      rw [closes.kind]
      decide
    have left : (first ++ brace :: (before ++ (inside ++ close :: (behind ++ rest)))).length ≤ rounds := by
      simpa using enough
    obtain ⟨rounds₁, pending₁, node, enough₁, read, same₁⟩ := parseBlock_head isHead freshBrace left nodes pending
    obtain ⟨rounds₁, rfl⟩ : ∃ n, rounds₁ = n + 1 := Nat.exists_eq_succ_of_ne_zero (by
      rintro rfl
      cases enough₁)
    have enough₁ := Nat.le_of_succ_le_succ enough₁
    obtain ⟨rounds₂, pending₂, enough₂, same₂⟩ := parseBlock_comments isBefore.comments enough₁ [] []
    obtain ⟨rounds₃, pending₃, read₃, enough₃, reads, same₃⟩ := parseBlock_stmts children isInside freshClose enough₂ []
      pending₂
    have pos : 0 < rounds₃ := lt_of_lt_of_le (Nat.succ_pos _) enough₃
    have inner := (same₂.trans same₃).trans (parseBlock_closing closes pos _ _)
    rw [List.nil_append] at inner
    have outer : (behind ++ rest).length ≤ rounds₁ := by
      simp only [List.length_append, List.length_cons] at enough₁ ⊢
      omega
    obtain ⟨rounds₄, pending₄, enough₄, same₄⟩ := parseBlock_comments isBehind.comments outer
      (attach (nodes ++ [node]) read₃) []
    refine ⟨rounds₄, pending₄, { node with children := node.children ++ read₃ }, enough₄,
      ⟨read₃, read.with_children read₃, reads⟩, ?_⟩
    rw [← attach_concat, ← same₄, ← parseBlock_opening opens rounds₁ _ pending₁ inner, ← same₁]
    simp only [List.append_assoc, List.cons_append]

theorem parseBlock_stmts (stmts : List Stmt) {tokens rest : List Token} (h : Spells tokens (stmtsLexemes stmts))
    (fresh : Fresh rest) {rounds : ℕ} (enough : (tokens ++ rest).length ≤ rounds) (nodes : List Node)
    (pending : List (ℕ × Text)) :
    ∃ rounds' pending' read, rest.length ≤ rounds' ∧ ReadAll stmts read ∧
      parseBlock rounds (tokens ++ rest) nodes pending = parseBlock rounds' rest (nodes ++ read) pending' := by
  match stmts with
  | [] =>
    cases h
    exact ⟨rounds, pending, [], enough, rfl, by rw [List.append_nil, List.nil_append]⟩
  | stmt :: stmts =>
    obtain ⟨first, others, rfl, isFirst, isOthers⟩ := spells_append.mp h
    rw [List.append_assoc] at enough ⊢
    obtain ⟨rounds₁, pending₁, node, enough₁, read, same₁⟩ := parseBlock_stmt stmt isFirst (fresh_stmts isOthers fresh)
      enough nodes pending
    obtain ⟨rounds₂, pending₂, others', enough₂, reads, same₂⟩ := parseBlock_stmts stmts isOthers fresh enough₁
      (nodes ++ [node]) pending₁
    refine ⟨rounds₂, pending₂, node :: others', enough₂, ⟨node, others', rfl, read, reads⟩, ?_⟩
    rw [same₁, same₂, List.append_assoc, List.singleton_append]

end

/-- The mark of the end is skipped. -/
theorem parseBlock_mark {mark : Option (List Comment)} (h : Spells tokens (markLexemes mark)) {rounds : ℕ}
    (enough : tokens.length ≤ rounds) (nodes : List Node) (pending : List (ℕ × Text)) :
    parseBlock rounds tokens nodes pending = .ok (nodes, []) := by
  have ends (rounds : ℕ) (pending : List (ℕ × Text)) : parseBlock rounds [] nodes pending = .ok (nodes, []) := by
    cases rounds <;> rfl
  cases mark with
  | none =>
    cases h
    exact ends rounds pending
  | some behind =>
    obtain ⟨token, cs, rfl, is, h⟩ := spells_cons.mp h
    cases rounds with
    | zero => cases enough
    | succ rounds =>
      have kind : token.kind = .name := is.kind
      have word : token.value = "end".toList := is.value
      have solid : ¬ token.kind = .comment := by
        rw [kind]
        decide
      rw [parseBlock.eq_def]
      simp only [if_neg solid, if_pos (And.intro kind word)]
      have left : (cs ++ []).length ≤ rounds := by simpa using Nat.le_of_succ_le_succ enough
      obtain ⟨rounds', pending', -, same⟩ := parseBlock_comments h.comments left nodes pending
      rw [List.append_nil] at same
      rw [same]
      exact ends rounds' pending'

theorem fresh_mark {mark : Option (List Comment)} (h : Spells tokens (markLexemes mark)) : Fresh tokens := by
  cases mark with
  | none =>
    cases h
    intro t ht
    cases ht
  | some behind =>
    obtain ⟨token, cs, rfl, is, -⟩ := spells_cons.mp h
    intro t ht
    cases ht
    rw [is.kind]
    decide

/-- The tokens of a file are read as its statements. -/
theorem parse_file {file : File} (h : Spells tokens file.lexemes) :
    ∃ nodes, parse tokens = .ok nodes ∧ ReadAll file.stmts nodes := by
  obtain ⟨cs, tail, rfl, isOpening, h⟩ := spells_append.mp h
  obtain ⟨inside, mark, rfl, isInside, isMark⟩ := spells_append.mp h
  have all : (cs ++ (inside ++ mark)).length ≤ (cs ++ (inside ++ mark)).length := le_rfl
  obtain ⟨rounds₁, pending₁, enough₁, same₁⟩ := parseBlock_comments isOpening.comments all [] []
  obtain ⟨rounds₂, pending₂, nodes, enough₂, reads, same₂⟩ := parseBlock_stmts file.stmts isInside (fresh_mark isMark)
    enough₁ [] pending₁
  refine ⟨nodes, ?_, reads⟩
  rw [parse, same₁, same₂, parseBlock_mark isMark enough₂]
  rfl

/-! ## Lists of parameters -/

/-- A parameter without what comments, other groups' clauses and other parameters say of it. -/
def Parameter.plain (parameter : Parameter) : Parameter :=
  { parameter with description := none, groupMessage := none, unreachable := false }

def Command.plain (command : Command) : Command :=
  { command with description := none, parameters := command.parameters.map Parameter.plain }

/-- The parameter that is read of a declaration. -/
def Head.readParameter (head : Head) (group : Option Text) : Parameter where
  name := runtimeName head.name.1.value
  type := head.type.meaning
  sourceName := head.name.1.value
  default := head.default.map Default.read
  units := head.read.units
  message := head.read.message
  error := head.read.error
  group := group

theorem readClauses_head (node : Node) (clauses : List Clause) : (readClauses node clauses).type = node.type ∧
    (readClauses node clauses).name = node.name ∧ (readClauses node clauses).default = node.default := by
  induction clauses generalizing node with
  | nil => exact ⟨rfl, rfl, rfl⟩
  | cons clause clauses ih =>
    simp only [readClauses]
    cases clause.body with
    | units quoted => exact ih (node.setClause .units (stripQuotes quoted.lexeme.value))
    | message quoted => exact ih (node.setClause .message (stripQuotes quoted.lexeme.value))
    | error expression => exact ⟨rfl, rfl, rfl⟩

variable {node : Node} {inner : List Node}

theorem Head.ReadAs.type {head : Head} (h : head.ReadAs node inner) : node.type = head.type := by
  obtain ⟨line, description, rfl⟩ := h
  exact (readClauses_head head.start head.clauses).1

theorem Head.ReadAs.name {head : Head} (h : head.ReadAs node inner) : node.name = head.name.1.value := by
  obtain ⟨line, description, rfl⟩ := h
  exact (readClauses_head head.start head.clauses).2.1

theorem Head.ReadAs.children {head : Head} (h : head.ReadAs node inner) : node.children = inner := by
  obtain ⟨line, description, rfl⟩ := h
  rfl

theorem Stmt.ReadAs.head {stmt : Stmt} (h : stmt.ReadAs node) : ∃ children, stmt.head.ReadAs node children := by
  cases stmt with
  | leaf head => exact ⟨[], h⟩
  | tree head opening children closing =>
    obtain ⟨nodes, read, -⟩ := h
    exact ⟨nodes, read⟩

theorem Stmt.ReadAs.children {stmt : Stmt} (h : stmt.ReadAs node) : ReadAll stmt.children node.children := by
  cases stmt with
  | leaf head => exact Head.ReadAs.children h
  | tree head opening children closing =>
    obtain ⟨nodes, read, reads⟩ := h
    rw [read.children]
    exact reads

/-- A declaration becomes a parameter, but for that of a card. -/
theorem parameter_of_readAs {head : Head} (h : head.ReadAs node inner) (notSwitch : head.type ≠ .switch) (group : Option Node) :
    (head.type ≠ .card ∧ ∃ parameter, node.parameter group = .ok parameter ∧
      parameter.plain = head.readParameter (group.map fun g => g.name)) ∨
    (head.type = .card ∧ ∃ value, node.parameter group = .error (.notParameter value)) := by
  have type := h.type
  have name := h.name
  have default : node.default = head.default.map Default.read := by
    obtain ⟨line, description, rfl⟩ := h
    exact (readClauses_head head.start head.clauses).2.2
  obtain ⟨units, message, error⟩ : node.units = head.read.units ∧ node.message = head.read.message ∧
      node.error = head.read.error := by
    obtain ⟨line, description, rfl⟩ := h
    exact ⟨rfl, rfl, rfl⟩
  by_cases card : head.type = .card
  · refine Or.inr ⟨card, KeyType.card.word, ?_⟩
    rw [Node.parameter, type, card]
    rfl
  · refine Or.inl ⟨card, ?_⟩
    have converts : node.type.parameterType = .ok head.type.meaning := by
      rw [type]
      revert card notSwitch
      cases head.type <;> simp [KeyType.parameterType, KeyType.meaning]
    refine ⟨_, by rw [Node.parameter, converts]; rfl, ?_⟩
    simp only [Parameter.plain, Head.readParameter, name, default, units, message, error]

/-- What `_flatten` makes of nodes with these declarations: their parameters, or a ValueError for a card. -/
def Flattens (entries : List (Head × Option Text)) (result : Except Raised (List Parameter)) : Prop :=
  ((∀ entry ∈ entries, entry.1.type ≠ .card) ∧ ∃ parameters, result = .ok parameters ∧
    parameters.map Parameter.plain = entries.map fun entry => entry.1.readParameter entry.2) ∨
  ((∃ entry ∈ entries, entry.1.type = .card) ∧ ∃ value, result = .error (.notParameter value))

theorem flattens_nil : Flattens [] (.ok []) := Or.inl ⟨List.forall_mem_nil _, [], rfl, rfl⟩

theorem Flattens.append {entries entries' : List (Head × Option Text)} {first others : Except Raised (List Parameter)}
    (h : Flattens entries first) (h' : Flattens entries' others) :
    Flattens (entries ++ entries') (do
      let ps ← first
      let ps' ← others
      .ok (ps ++ ps')) := by
  rcases h with ⟨none, ps, rfl, plain⟩ | ⟨⟨entry, mem, card⟩, value, rfl⟩
  · rcases h' with ⟨none', ps', rfl, plain'⟩ | ⟨⟨entry, mem, card⟩, value, rfl⟩
    · exact Or.inl ⟨List.forall_mem_append.mpr ⟨none, none'⟩, ps ++ ps', rfl, by
        rw [List.map_append, List.map_append, plain, plain']⟩
    · exact Or.inr ⟨⟨entry, List.mem_append_right _ mem, card⟩, value, rfl⟩
  · exact Or.inr ⟨⟨entry, List.mem_append_left _ mem, card⟩, value, rfl⟩

/-- A declaration that is not a switch, with those in its block. -/
theorem flattens_declaration {head : Head} (h : head.ReadAs node inner) (notSwitch : head.type ≠ .switch)
    (group : Option Node) {entries : List (Head × Option Text)} (below : Flattens entries (flatten group inner)) :
    Flattens ((head, group.map fun g => g.name) :: entries) (flattenNode group node) := by
  have unfolded : flattenNode group node = (do
      let ps ← (node.parameter group).map fun parameter => [parameter]
      let ps' ← flatten group inner
      .ok (ps ++ ps')) := by
    have type := h.type
    have children := h.children
    obtain ⟨type', name, line, default, units, message, error, description, children'⟩ := node
    cases type
    cases children
    rw [flattenNode, if_neg notSwitch]
    cases Node.parameter group _ with
    | error e => rfl
    | ok parameter => rfl
  rw [unfolded, ← List.singleton_append]
  refine Flattens.append ?_ below
  rcases parameter_of_readAs h notSwitch group with ⟨notCard, parameter, is, plain⟩ | ⟨card, value, is⟩
  · rw [is]
    exact Or.inl ⟨List.forall_mem_singleton.mpr notCard, [parameter], rfl, congrArg (fun p => [p]) plain⟩
  · rw [is]
    exact Or.inr ⟨⟨_, List.mem_singleton_self _, card⟩, value, rfl⟩

theorem flattenNode_switch {head : Head} (h : head.ReadAs node inner) (switch : head.type = .switch)
    (group : Option Node) : flattenNode group node = flatten (some node) inner := by
  have type := h.type.trans switch
  have children := h.children
  obtain ⟨type', name, line, default, units, message, error, description, children'⟩ := node
  cases type
  cases children
  rw [flattenNode]
  rfl

mutual

theorem flattenNode_readAs (stmt : Stmt) {node : Node} (h : stmt.ReadAs node) (group : Option Node) :
    Flattens (stmt.entries (group.map fun g => g.name)) (flattenNode group node) := by
  match stmt with
  | .leaf head =>
    rw [Stmt.entries]
    by_cases switch : head.type = .switch
    · rw [if_pos switch, flattenNode_switch h switch]
      exact flattens_nil
    · rw [if_neg switch]
      exact flattens_declaration h switch group flattens_nil
  | .tree head opening children closing =>
    obtain ⟨nodes, read, reads⟩ := h
    rw [Stmt.entries]
    by_cases switch : head.type = .switch
    · rw [if_pos switch, flattenNode_switch read switch, ← read.name]
      exact flatten_readAll children reads (some node)
    · rw [if_neg switch]
      exact flattens_declaration read switch group (flatten_readAll children reads group)

theorem flatten_readAll (stmts : List Stmt) {nodes : List Node} (h : ReadAll stmts nodes) (group : Option Node) :
    Flattens (stmtsEntries (group.map fun g => g.name) stmts) (flatten group nodes) := by
  match stmts with
  | [] =>
    cases h
    exact flattens_nil
  | stmt :: stmts =>
    obtain ⟨node, rest, rfl, read, reads⟩ := h
    rw [stmtsEntries, flatten]
    exact (flattenNode_readAs stmt read group).append (flatten_readAll stmts reads group)

end

/-! ## Commands -/

/-- The command that is read of a card. -/
def Stmt.readCommand (stmt : Stmt) : Command where
  name := runtimeName stmt.head.name.1.value
  sourceName := stmt.head.name.1.value
  parameters := stmt.declared.map fun entry => entry.1.readParameter entry.2

theorem plain_withReachability (parameter : Parameter) (names : List Text) :
    (withReachability parameter names).plain = parameter.plain := by
  unfold withReachability
  split_ifs <;> rfl

theorem buildCommand_readAs {stmt : Stmt} (h : stmt.ReadAs node) :
    ((∀ entry ∈ stmt.declared, entry.1.type ≠ .card) ∧
      ∃ command, buildCommand node = .ok command ∧ command.plain = stmt.readCommand) ∨
    ((∃ entry ∈ stmt.declared, entry.1.type = .card) ∧ ∃ value, buildCommand node = .error (.notParameter value)) := by
  obtain ⟨inner, read⟩ := h.head
  rcases flatten_readAll stmt.children h.children none with ⟨none, ps, flat, plain⟩ | ⟨card, value, flat⟩
  · refine Or.inl ⟨none, _, by rw [buildCommand, flat]; rfl, ?_⟩
    have same : (ps.map fun p => withReachability p (ps.map fun p => p.name)).map Parameter.plain =
        ps.map Parameter.plain := by
      rw [List.map_map]
      exact List.map_congr_left fun p _ => plain_withReachability p _
    simp only [Command.plain, same, plain, read.name]
    rfl
  · exact Or.inr ⟨card, value, by rw [buildCommand, flat]; rfl⟩

theorem ReadAll.filter_card {stmts : List Stmt} {nodes : List Node} (h : ReadAll stmts nodes) :
    ReadAll (stmts.filter fun stmt => stmt.head.type = .card) (nodes.filter fun node => node.type = .card) := by
  induction stmts generalizing nodes with
  | nil =>
    cases h
    rfl
  | cons stmt stmts ih =>
    obtain ⟨node, rest, rfl, read, reads⟩ := h
    obtain ⟨inner, is⟩ := read.head
    by_cases card : stmt.head.type = .card
    · have : node.type = .card := is.type.trans card
      rw [List.filter_cons_of_pos (by simpa using card), List.filter_cons_of_pos (by simpa using this)]
      exact ⟨node, _, rfl, read, ih reads⟩
    · have : ¬ node.type = .card := fun same => card (is.type.symm.trans same)
      rw [List.filter_cons_of_neg (by simpa using card), List.filter_cons_of_neg (by simpa using this)]
      exact ih reads

theorem buildCommands_readAll {stmts : List Stmt} {nodes : List Node} (h : ReadAll stmts nodes) :
    ((∀ stmt ∈ stmts, ∀ entry ∈ stmt.declared, entry.1.type ≠ .card) ∧
      ∃ commands, nodes.mapM buildCommand = .ok commands ∧ commands.map Command.plain = stmts.map Stmt.readCommand) ∨
    ((∃ stmt ∈ stmts, ∃ entry ∈ stmt.declared, entry.1.type = .card) ∧
      ∃ value, nodes.mapM buildCommand = .error (.notParameter value)) := by
  induction stmts generalizing nodes with
  | nil =>
    cases h
    exact Or.inl ⟨List.forall_mem_nil _, [], rfl, rfl⟩
  | cons stmt stmts ih =>
    obtain ⟨node, rest, rfl, read, reads⟩ := h
    rw [List.mapM_cons]
    rcases buildCommand_readAs read with ⟨none, command, built, plain⟩ | ⟨card, value, built⟩
    · rcases ih reads with ⟨none', commands, builts, plains⟩ | ⟨⟨stmt', mem, card⟩, value, builts⟩
      · refine Or.inl ⟨List.forall_mem_cons.mpr ⟨none, none'⟩, command :: commands, by rw [built, builts]; rfl, ?_⟩
        rw [List.map_cons, List.map_cons, plain, plains]
      · exact Or.inr ⟨⟨stmt', List.mem_cons_of_mem _ mem, card⟩, value, by rw [built, builts]; rfl⟩
    · exact Or.inr ⟨⟨stmt, List.mem_cons_self, card⟩, value, by rw [built]; rfl⟩

/-- What `parse_key` makes of a text with the tokens of a file. -/
theorem parseKey_file {text : Text} {file : File} (cut : tokenize text = .ok tokens) (h : Spells tokens file.lexemes) :
    ((∀ stmt ∈ file.cards, ∀ entry ∈ stmt.declared, entry.1.type ≠ .card) ∧
      ∃ commands, parseKey text = .ok commands ∧ commands.map Command.plain = file.cards.map Stmt.readCommand) ∨
    ((∃ stmt ∈ file.cards, ∃ entry ∈ stmt.declared, entry.1.type = .card) ∧
      ∃ value, parseKey text = .error (.notParameter value)) := by
  obtain ⟨nodes, parsed, reads⟩ := parse_file h
  have all : parseKey text = (nodes.filter fun node => node.type = .card).mapM buildCommand := by
    rw [parseKey, cut]
    change ((parse tokens).bind _) = _
    rw [parsed]
    rfl
  rw [all]
  exact buildCommands_readAll reads.filter_card

end TcadWebapp.Catalog
