import TcadWebapp.Catalog.Proofs.Reading

/-!
# Malformed files

The tokens that the parser does not take for a `KeyFormatError` are found by a scan from the left that counts the
open blocks. The parser reports what is not of its grammar exactly when the scan finds such a token, or the file is of
the grammar after all, with its cards on top (`parseKey_reports_iff`).
-/

namespace TcadWebapp.Catalog

/-! ## The scan -/

/-- Where in a statement a token stands. -/
inductive Place where
  | statement
  /-- Behind a type. -/
  | name
  /-- Behind the name. -/
  | named
  /-- Behind the sign of the default. -/
  | default
  | clauses
  /-- Behind the word of a clause. -/
  | sign (clause : ClauseName)
  /-- Behind the sign of a clause. -/
  | value
  | expression
  deriving DecidableEq, Repr

/-- Where the next token stands when this one is one of the clauses; none when it is out of place. -/
def clausePlace (token : Token) : Option Place :=
  if token.isPunct ';' then some .statement
  else if token.kind = .comment then some .clauses
  else (if token.kind = .name then ClauseName.ofWord token.value else none).map .sign

/-- Where the token behind this one stands, within a declaration. -/
def Place.next (place : Place) (token : Token) : Option Place :=
  match place with
  | statement => if token.kind = .name ∧ (KeyType.ofWord token.value).isSome then some name else none
  | name => if token.kind = .name then some named else none
  | named => if token.isPunct '=' then some default else clausePlace token
  | default => some clauses
  | clauses => clausePlace token
  | sign clause => if token.value = ['='] then some (if clause = .error then expression else value) else none
  | value => some clauses
  | expression => if token.isPunct ';' then some statement else some expression

inductive Verdict where
  /-- A token is out of place. -/
  | rejected
  /-- The tokens end within a declaration. -/
  | short
  | accepted
  deriving DecidableEq, Repr

/-- What there is to say of the tokens below so many open blocks; a brace that closes none ends the file. -/
def scan : ℕ → Place → List Token → Verdict
  | _, place, [] => if place = .statement then .accepted else .short
  | depth, place, token :: rest =>
    if place = .statement ∧ (token.kind = .comment ∨ (token.kind = .name ∧ token.value = "end".toList)) then
      scan depth place rest
    else if place = .statement ∧ token.isPunct '}' then
      match depth with
      | 0 => .accepted
      | depth + 1 => scan depth place rest
    else if place = .statement ∧ token.isPunct '{' then scan (depth + 1) place rest
    else
      match place.next token with
      | none => .rejected
      | some place => scan depth place rest

/-- What the scan says where the parser raises. -/
def Raised.verdict (e : Raised) : Verdict := if e.isFormat then .rejected else .short

/-! ## One declaration -/

variable {tokens rest : List Token} {token : Token} {e : Raised} {depth : ℕ}

/-- Within a declaration a token leads to the next place. -/
theorem scan_cons {place : Place} (inside : place ≠ .statement) (depth : ℕ) (token : Token) (rest : List Token) :
    scan depth place (token :: rest) = match place.next token with
      | none => .rejected
      | some place => scan depth place rest := by
  rw [scan.eq_def]
  simp [inside]

/-- A comment or the mark of the end is skipped, and braces are counted. -/
theorem scan_statement (depth : ℕ) (token : Token) (rest : List Token) :
    scan depth .statement (token :: rest) =
      if token.kind = .comment ∨ (token.kind = .name ∧ token.value = "end".toList) then scan depth .statement rest
      else if token.isPunct '}' = true then
        match depth with
        | 0 => .accepted
        | depth + 1 => scan depth .statement rest
      else if token.isPunct '{' = true then scan (depth + 1) .statement rest
      else
        match Place.statement.next token with
        | none => .rejected
        | some place => scan depth place rest := by
  conv_lhs => rw [scan.eq_def]
  simp only [true_and]

/-- At most so many tokens are left, and there the scan is at the beginning of a statement again. -/
def Agrees {α : Type} (bound : ℕ) (result : Except Raised (α × List Token)) (verdict : Verdict) (depth : ℕ) : Prop :=
  match result with
  | .error e => verdict = e.verdict
  | .ok (_, rest) => rest.length ≤ bound ∧ verdict = scan depth .statement rest

/-- As `Agrees`, with the semicolon left. -/
def AgreesBefore {α : Type} (bound : ℕ) (result : Except Raised (α × List Token)) (verdict : Verdict) (depth : ℕ) :
    Prop :=
  match result with
  | .error e => verdict = e.verdict
  | .ok (_, rest) => ∃ semi tail, rest = semi :: tail ∧ tail.length < bound ∧ verdict = scan depth .statement tail

variable {α : Type} {result : Except Raised (α × List Token)} {verdict : Verdict} {bound bound' : ℕ}

theorem AgreesBefore.mono (h : AgreesBefore bound result verdict depth) (le : bound ≤ bound') :
    AgreesBefore bound' result verdict depth := by
  cases result with
  | error e => exact h
  | ok pair =>
    obtain ⟨semi, tail, is, shorter, same⟩ := h
    exact ⟨semi, tail, is, lt_of_lt_of_le shorter le, same⟩

theorem parseExpression_agrees (depth : ℕ) (tokens : List Token) :
    AgreesBefore tokens.length (parseExpression tokens) (scan depth .expression tokens) depth := by
  induction tokens with
  | nil => rfl
  | cons token rest ih =>
    rw [parseExpression, scan_cons (by decide), Place.next]
    by_cases semi : token.isPunct ';'
    · rw [if_pos semi, if_pos semi]
      exact ⟨token, rest, rfl, Nat.lt_succ_self _, rfl⟩
    · rw [if_neg semi, if_neg semi]
      have ih := ih.mono (Nat.le_succ _)
      cases h : parseExpression rest with
      | error e =>
        rw [h] at ih
        exact ih
      | ok result =>
        rw [h] at ih
        by_cases comment : token.kind = .comment
        · simp only [bind, Except.bind, if_pos comment]
          exact ih
        · simp only [bind, Except.bind, if_neg comment]
          exact ih

/-- A word that is neither a semicolon nor a comment is that of a clause, or out of place. -/
theorem scan_clauses (semi : ¬ token.isPunct ';' = true) (comment : ¬ token.kind = .comment) (depth : ℕ)
    (rest : List Token) : scan depth .clauses (token :: rest) =
      match (if token.kind = .name then ClauseName.ofWord token.value else none) with
      | none => .rejected
      | some clause => scan depth (.sign clause) rest := by
  rw [scan_cons (by decide), Place.next, clausePlace, if_neg semi, if_neg comment]
  cases (if token.kind = .name then ClauseName.ofWord token.value else none) <;> rfl

theorem scan_sign (depth : ℕ) (clause : ClauseName) (equals : Token) (rest : List Token) :
    scan depth (.sign clause) (equals :: rest) = if equals.value = ['='] then
      scan depth (if clause = .error then .expression else .value) rest else .rejected := by
  rw [scan_cons (by simp), Place.next]
  split_ifs <;> rfl

theorem parseClauses_agrees (depth : ℕ) (node : Node) (tokens : List Token) :
    AgreesBefore tokens.length (parseClauses node tokens) (scan depth .clauses tokens) depth := by
  fun_induction parseClauses node tokens with
  | case1 => rfl
  | case2 node token rest semi =>
    rw [scan_cons (by decide), Place.next, clausePlace, if_pos semi]
    exact ⟨token, rest, rfl, Nat.lt_succ_self _, rfl⟩
  | case3 node token rest semi comment ih =>
    rw [scan_cons (by decide), Place.next, clausePlace, if_neg semi, if_pos comment]
    exact ih.mono (Nat.le_succ _)
  | case4 node token rest semi comment word =>
    rw [scan_clauses semi comment, word]
    rfl
  | case5 node token semi comment clause word =>
    rw [scan_clauses semi comment, word]
    rfl
  | case6 node token semi comment clause equals rest word sign =>
    rw [scan_clauses semi comment, word]
    dsimp only
    rw [scan_sign, if_neg sign]
    rfl
  | case7 node token semi comment equals rest sign word =>
    rw [scan_clauses semi comment, word]
    dsimp only
    rw [scan_sign, if_pos (not_not.mp sign), if_pos rfl]
    have expression := (parseExpression_agrees depth rest).mono (Nat.le_add_right _ 2)
    cases h : parseExpression rest with
    | error e =>
      rw [h] at expression
      exact expression
    | ok result =>
      rw [h] at expression
      exact expression
  | case8 node token semi comment clause equals word sign ne =>
    rw [scan_clauses semi comment, word]
    dsimp only
    rw [scan_sign, if_pos (not_not.mp sign), if_neg ne]
    rfl
  | case9 node token semi comment clause equals word sign ne value rest ih =>
    rw [scan_clauses semi comment, word]
    dsimp only
    rw [scan_sign, if_pos (not_not.mp sign), if_neg ne, scan_cons (by decide)]
    exact ih.mono (Nat.le_add_right _ 3)

/-- What follows a name. -/
theorem parseDefault_agrees (depth : ℕ) (node : Node) (tokens : List Token) :
    AgreesBefore tokens.length (do
      let (node, rest) ← parseDefault node tokens
      parseClauses node rest) (scan depth .named tokens) depth := by
  cases tokens with
  | nil => rfl
  | cons token rest =>
    rw [scan_cons (by decide), Place.next, parseDefault.eq_def]
    dsimp only
    by_cases sign : token.isPunct '='
    · rw [if_pos sign, if_pos sign]
      cases rest with
      | nil => rfl
      | cons value rest =>
        dsimp only
        rw [scan_cons (by decide)]
        exact (parseClauses_agrees depth _ rest).mono (Nat.le_add_right _ 2)
    · rw [if_neg sign, if_neg sign]
      have clauses := parseClauses_agrees depth node (token :: rest)
      rw [scan_cons (by decide)] at clauses
      exact clauses

theorem takeTrailingComment_agrees (depth : ℕ) (semi : Token) (tail : List Token) :
    Agrees tail.length (takeTrailingComment (semi :: tail)) (scan depth .statement tail) depth := by
  cases tail with
  | nil => exact ⟨le_rfl, rfl⟩
  | cons token tail =>
    simp only [takeTrailingComment]
    split_ifs with comment
    · refine ⟨Nat.le_succ _, ?_⟩
      rw [scan_statement, if_pos (Or.inl comment.1)]
    · exact ⟨le_rfl, rfl⟩

/-- Behind the clauses there is the semicolon, and the comment on its line. -/
theorem AgreesBefore.trailing {result : Except Raised (Node × List Token)}
    (h : AgreesBefore (bound + 1) result verdict depth) :
    Agrees bound (do
      let (node, rest) ← result
      let (trailing, rest) ← takeTrailingComment rest
      .ok ((node, trailing), rest)) verdict depth := by
  cases result with
  | error e => exact h
  | ok pair =>
    obtain ⟨node, rest⟩ := pair
    obtain ⟨semi, tail, rfl, shorter, rfl⟩ := h
    have comment := takeTrailingComment_agrees depth semi tail
    simp only [bind, Except.bind]
    cases taken : takeTrailingComment (semi :: tail) with
    | error e =>
      rw [taken] at comment
      exact comment
    | ok pair =>
      rw [taken] at comment
      exact ⟨comment.1.trans (Nat.le_of_lt_succ shorter), comment.2⟩

theorem parseDeclaration_agrees (comment : token.kind ≠ .comment)
    (ends : ¬ (token.kind = .name ∧ token.value = "end".toList)) (closing : ¬ token.isPunct '}' = true)
    (opening : ¬ token.isPunct '{' = true) (depth : ℕ) (rest : List Token) :
    Agrees rest.length (parseDeclaration (token :: rest)) (scan depth .statement (token :: rest)) depth := by
  have first : scan depth .statement (token :: rest) =
      match (if token.kind = .name then KeyType.ofWord token.value else none) with
      | none => .rejected
      | some _ => scan depth .name rest := by
    rw [scan_statement, if_neg (not_or.mpr ⟨comment, ends⟩), if_neg closing, if_neg opening, Place.next]
    by_cases name : token.kind = .name
    · simp only [name, true_and, if_true]
      cases KeyType.ofWord token.value <;> rfl
    · simp [name]
  rw [first, parseDeclaration.eq_def]
  dsimp only
  cases (if token.kind = .name then KeyType.ofWord token.value else none) with
  | none => rfl
  | some type =>
    cases rest with
    | nil => rfl
    | cons name rest =>
      dsimp only
      rw [scan_cons (by decide), Place.next]
      by_cases isName : name.kind = .name
      · rw [if_neg (not_not.mpr isName), if_pos isName]
        have clauses := ((parseDefault_agrees depth { type, name := name.value, line := token.line } rest).mono
          (Nat.le_add_right _ 2)).trailing
        cases h : parseDefault { type, name := name.value, line := token.line } rest with
        | error e =>
          rw [h] at clauses
          exact clauses
        | ok pair =>
          rw [h] at clauses
          exact clauses
      · rw [if_pos isName, if_neg isName]
        rfl

/-! ## Blocks -/

/-- The verdict on a block, for each number of blocks around it: the tokens that are left follow its end. -/
def BlockAgrees (bound : ℕ) (result : Except Raised (List Node × List Token)) (verdict : ℕ → Verdict) : Prop :=
  match result with
  | .error e => ∀ depth, verdict depth = e.verdict
  | .ok (_, rest) => rest.length ≤ bound ∧ verdict 0 = .accepted ∧
      ∀ depth, verdict (depth + 1) = scan depth .statement rest

theorem BlockAgrees.mono {result : Except Raised (List Node × List Token)} {verdict verdict' : ℕ → Verdict}
    (h : BlockAgrees bound result verdict) (le : bound ≤ bound') (same : ∀ depth, verdict' depth = verdict depth) :
    BlockAgrees bound' result verdict' := by
  cases result with
  | error e => exact fun depth => (same depth).trans (h depth)
  | ok pair => exact ⟨h.1.trans le, (same 0).trans h.2.1, fun depth => (same (depth + 1)).trans (h.2.2 depth)⟩

theorem blockAgrees_nil (nodes : List Node) :
    BlockAgrees 0 (.ok (nodes, [])) fun depth => scan depth .statement [] :=
  ⟨le_rfl, rfl, fun _ => rfl⟩

/-- What the scan says of a block. -/
theorem parseBlock_agrees {rounds : ℕ} (enough : tokens.length ≤ rounds) (nodes : List Node)
    (pending : List (ℕ × Text)) :
    BlockAgrees tokens.length (parseBlock rounds tokens nodes pending) fun depth => scan depth .statement tokens := by
  induction rounds generalizing tokens nodes pending with
  | zero =>
    rw [List.length_eq_zero_iff.mp (Nat.le_zero.mp enough)]
    exact blockAgrees_nil nodes
  | succ rounds ih =>
    cases tokens with
    | nil => exact blockAgrees_nil nodes
    | cons token tail =>
      have enough := Nat.le_of_succ_le_succ enough
      have longer : tail.length ≤ (token :: tail).length := Nat.le_succ _
      rw [parseBlock.eq_def]
      dsimp only
      by_cases comment : token.kind = .comment
      · rw [if_pos comment]
        apply (ih enough nodes _).mono longer
        intro depth
        rw [scan_statement, if_pos (Or.inl comment)]
      rw [if_neg comment]
      by_cases ends : token.kind = .name ∧ token.value = "end".toList
      · rw [if_pos ends]
        apply (ih enough nodes _).mono longer
        intro depth
        rw [scan_statement, if_pos (Or.inr ends)]
      rw [if_neg ends]
      have declares := not_or.mpr ⟨comment, ends⟩
      by_cases closing : token.isPunct '}' = true
      · have out (depth : ℕ) := scan_statement depth token tail
        simp only [if_neg declares, if_pos closing] at out
        rw [if_pos closing]
        exact ⟨longer, out 0, fun depth => out (depth + 1)⟩
      rw [if_neg closing]
      by_cases opening : token.isPunct '{' = true
      · have into (depth : ℕ) : scan depth .statement (token :: tail) = scan (depth + 1) .statement tail := by
          rw [scan_statement, if_neg declares, if_neg closing, if_pos opening]
        rw [if_pos opening]
        have inner := ih enough [] []
        cases h : parseBlock rounds tail [] [] with
        | error e =>
          rw [h] at inner
          exact fun depth => (into depth).trans (inner (depth + 1))
        | ok pair =>
          obtain ⟨children, rest⟩ := pair
          rw [h] at inner
          obtain ⟨shorter, -, out⟩ := inner
          apply (ih (shorter.trans enough) (attach nodes children) []).mono (shorter.trans longer)
          exact fun depth => (into depth).trans (out depth)
      · rw [if_neg opening]
        have declaration (depth : ℕ) := parseDeclaration_agrees comment ends closing opening depth tail
        cases h : parseDeclaration (token :: tail) with
        | error e =>
          simp only [h] at declaration
          exact declaration
        | ok triple =>
          obtain ⟨⟨node, trailing⟩, rest⟩ := triple
          simp only [h] at declaration
          have shorter := (declaration 0).1
          exact (ih (shorter.trans enough) _ []).mono (shorter.trans longer) fun depth => (declaration depth).2

/-- The parser raises where the scan does not accept. -/
theorem parse_agrees (tokens : List Token) :
    match parse tokens with
    | .error e => scan 0 .statement tokens = e.verdict
    | .ok _ => scan 0 .statement tokens = .accepted := by
  have block : BlockAgrees tokens.length (parseBlock tokens.length tokens [] []) fun depth =>
      scan depth .statement tokens :=
    parseBlock_agrees le_rfl [] []
  unfold parse
  cases h : parseBlock tokens.length tokens [] [] with
  | error e =>
    rw [h] at block
    exact block 0
  | ok pair =>
    rw [h] at block
    exact block.2.1

/-! ## Late errors -/

/-- What is raised behind the parser is no `KeyFormatError`. -/
def Late {α : Type} (result : Except Raised α) : Prop := ∀ e, result = .error e → e.isFormat = false

theorem late_ok (a : α) : Late (.ok a) := by
  intro e h
  cases h

theorem Late.bind {β : Type} {result : Except Raised α} {f : α → Except Raised β} (h : Late result)
    (h' : ∀ a, Late (f a)) : Late (result >>= f) := by
  cases result with
  | error e => exact fun e' same => h e' (by cases same; rfl)
  | ok a => exact h' a

theorem late_parameter (group : Option Node) (node : Node) : Late (node.parameter group) := by
  unfold Node.parameter
  refine Late.bind ?_ fun type => late_ok _
  intro e h
  cases type : node.type <;>
    rw [type] at h <;>
    cases h <;>
    rfl

mutual

theorem late_flattenNode (group : Option Node) (node : Node) : Late (flattenNode group node) := by
  obtain ⟨type, name, line, default, units, message, error, description, children⟩ := node
  rw [flattenNode]
  split_ifs
  · exact late_flatten _ children
  · exact (late_parameter group _).bind fun _ => (late_flatten group children).bind fun _ => late_ok _

theorem late_flatten (group : Option Node) (nodes : List Node) : Late (flatten group nodes) := by
  match nodes with
  | [] => exact late_ok _
  | node :: nodes =>
    rw [flatten]
    exact (late_flattenNode group node).bind fun _ => (late_flatten group nodes).bind fun _ => late_ok _

end

theorem late_buildCommands (nodes : List Node) : Late (nodes.mapM buildCommand) := by
  induction nodes with
  | nil => exact late_ok _
  | cons node nodes ih =>
    rw [List.mapM_cons]
    have built : Late (buildCommand node) := (late_flatten none node.children).bind fun _ => late_ok _
    exact built.bind fun _ => ih.bind fun _ => late_ok _

/-- A `KeyFormatError` is raised exactly for the tokens that the scan rejects. -/
theorem parseKey_format_iff {text : Text} (cut : tokenize text = .ok tokens) :
    (∃ e, parseKey text = .error e ∧ e.isFormat = true) ↔ scan 0 .statement tokens = .rejected := by
  have agrees := parse_agrees tokens
  have unfolded : parseKey text = (parse tokens).bind fun nodes =>
      (nodes.filter fun node => node.type = .card).mapM buildCommand := by
    rw [parseKey, cut]
    rfl
  rw [unfolded]
  cases parsed : parse tokens with
  | error e =>
    rw [parsed] at agrees
    have same : (∃ e', (Except.error e : Except Raised (List Command)) = .error e' ∧ e'.isFormat = true) ↔
        e.isFormat = true := by
      refine ⟨?_, fun format => ⟨e, rfl, format⟩⟩
      rintro ⟨e', same, format⟩
      cases same
      exact format
    change (∃ e', (Except.error e : Except Raised (List Command)) = .error e' ∧ e'.isFormat = true) ↔ _
    rw [same, agrees, Raised.verdict]
    split_ifs with format
    · simp [format]
    · simp [format]
  | ok nodes =>
    rw [parsed] at agrees
    rw [agrees]
    constructor
    · rintro ⟨e, raised, format⟩
      rw [late_buildCommands _ e raised] at format
      cases format
    · intro same
      cases same

/-! ## Reports -/

/-- The declarations of a command: its name and those of its parameters. -/
def Command.listing (command : Command) : Text × List Text :=
  (command.sourceName, command.parameters.map fun parameter => parameter.sourceName)

/-- The declarations that a statement is to add to the result. -/
def Stmt.listing (stmt : Stmt) : Text × List Text :=
  (stmt.head.name.1.value, stmt.declared.map fun entry => entry.1.name.1.value)

/-- A `KeyFormatError` is raised, or the text is of the grammar and what it declares is in the result. -/
def ReportsMalformed (text : Text) : Prop :=
  (∃ e, parseKey text = .error e ∧ e.isFormat = true) ∨
  ∃ commands, parseKey text = .ok commands ∧ ∃ (tokens : List Token) (file : File), tokenize text = .ok tokens ∧
    Spells tokens file.lexemes ∧ commands.map Command.listing = file.stmts.map Stmt.listing

/-- The tokens are those of a file of the grammar, with cards at the top and none below. -/
def IsKeyFile (tokens : List Token) : Prop :=
  ∃ file : File, Spells tokens file.lexemes ∧ (∀ stmt ∈ file.stmts, stmt.head.type = .card) ∧ file.CardsOnTop

theorem listing_of_plain {command : Command} {stmt : Stmt} (h : command.plain = stmt.readCommand) :
    command.listing = stmt.listing := by
  have name : command.sourceName = stmt.head.name.1.value := congrArg Command.sourceName h
  have parameters := congrArg (fun c => c.parameters.map fun p => p.sourceName) h
  simp only [Command.plain, Stmt.readCommand, List.map_map, Function.comp_def, Parameter.plain,
    Head.readParameter] at parameters
  rw [Command.listing, Stmt.listing, name, parameters]

theorem listings_of_plain {commands : List Command} {stmts : List Stmt}
    (h : commands.map Command.plain = stmts.map Stmt.readCommand) :
    commands.map Command.listing = stmts.map Stmt.listing := by
  induction stmts generalizing commands with
  | nil =>
    rw [List.map_nil, List.map_eq_nil_iff] at h
    rw [h]
    rfl
  | cons stmt stmts ih =>
    obtain ⟨command, rest, rfl, first, others⟩ := List.map_eq_cons_iff.mp h
    rw [List.map_cons, List.map_cons, listing_of_plain first, ih others]

/-- A malformed file is reported exactly when the scan finds a token out of place, or the file is not malformed. -/
theorem parseKey_reports_iff (text : Text) : ReportsMalformed text ↔
    ∃ tokens, tokenize text = .ok tokens ∧ (scan 0 .statement tokens = .rejected ∨ IsKeyFile tokens) := by
  obtain ⟨tokens, cut⟩ : ∃ tokens, tokenize text = .ok tokens := exists_lex 1 text
  have format := parseKey_format_iff cut
  constructor
  · rintro (raised | ⟨commands, parsed, tokens', file, cut', spells, listed⟩)
    · exact ⟨tokens, cut, Or.inl (format.mp raised)⟩
    · rw [cut] at cut'
      cases cut'
      refine ⟨tokens, cut, Or.inr ⟨file, spells, ?_⟩⟩
      rcases parseKey_file cut spells with ⟨none, commands', parsed', plain⟩ | ⟨-, value, raised⟩
      · rw [parsed] at parsed'
        cases parsed'
        -- as many commands as statements, so that all of these are cards
        have count := congrArg List.length (listings_of_plain plain)
        rw [listed, List.length_map, List.length_map] at count
        have cards : file.cards = file.stmts :=
          (List.filter_sublist (l := file.stmts)).eq_of_length count.symm
        refine ⟨fun stmt mem => ?_, fun stmt mem => none stmt (cards.symm ▸ mem)⟩
        rw [← cards] at mem
        exact of_decide_eq_true (List.mem_filter.mp mem).2
      · rw [parsed] at raised
        cases raised
  · rintro ⟨tokens', cut', rejected | ⟨file, spells, allCards, top⟩⟩
    · rw [cut] at cut'
      cases cut'
      exact Or.inl (format.mpr rejected)
    · rw [cut] at cut'
      cases cut'
      right
      have cards : file.cards = file.stmts :=
        List.filter_eq_self.mpr fun stmt mem => decide_eq_true (allCards stmt mem)
      rcases parseKey_file cut spells with ⟨-, commands, parsed, plain⟩ | ⟨⟨stmt, mem, entry, below, card⟩, -⟩
      · rw [cards] at plain
        exact ⟨commands, parsed, tokens, file, cut, spells, listings_of_plain plain⟩
      · exact absurd card (top stmt (List.mem_of_mem_filter mem) entry below)

/-- A file that is cut off in a declaration: an IndexError. -/
theorem not_reportsMalformed_cut : ¬ ReportsMalformed "card x".toList := by
  have raised : parseKey "card x".toList = .error .noneLeft := by decide
  rintro (⟨e, same, format⟩ | ⟨commands, same, -⟩)
  · rw [raised] at same
    cases same
    cases format
  · rw [raised] at same
    cases same

end TcadWebapp.Catalog
