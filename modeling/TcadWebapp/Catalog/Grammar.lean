import TcadWebapp.Catalog.KeyParser

/-!
# The grammar of the key file

The syntax trees that the docstring of `key_parser.py` describes, with the comments between their parts, the tokens
that a tree is spelled with, the texts that are such tokens with space between them, and what a tree declares.
-/

namespace TcadWebapp.Catalog

/-! ## Words -/

/-- A text that is one token. -/
structure Lexeme where
  kind : TokenKind
  value : Text
  alone : matchToken value = some (kind, value.length)
  solid : kind ≠ .ws

namespace Lexeme

def semicolon : Lexeme := ⟨.punct, [';'], by decide, by decide⟩

def equals : Lexeme := ⟨.punct, ['='], by decide, by decide⟩

def opening : Lexeme := ⟨.punct, ['{'], by decide, by decide⟩

def closing : Lexeme := ⟨.punct, ['}'], by decide, by decide⟩

/-- The mark of the end, in the last line of a file. -/
def endMark : Lexeme := ⟨.name, "end".toList, by decide, by decide⟩

end Lexeme

def KeyType.lexeme (type : KeyType) : Lexeme where
  kind := .name
  value := type.word
  alone := by cases type <;> decide
  solid := by decide

def ClauseName.lexeme (clause : ClauseName) : Lexeme where
  kind := .name
  value := clause.word
  alone := by cases clause <;> decide
  solid := by decide

/-- A lexeme of one kind. -/
abbrev Lexeme.Of (kind : TokenKind) := { l : Lexeme // l.kind = kind }

abbrev Comment := Lexeme.Of .comment

/-- A string, by what stands between its quotes. -/
structure Quoted where
  body : Text
  closes : stringEnd (body ++ ['"']) = some (body.length + 1)

/-- A string without quotes and backslashes inside. -/
def Quoted.Plain (quoted : Quoted) : Prop := ∀ c ∈ quoted.body, c ≠ '"' ∧ c ≠ '\\'

instance (quoted : Quoted) : Decidable quoted.Plain :=
  List.decidableBAll (fun c => c ≠ '"' ∧ c ≠ '\\') quoted.body

def Quoted.lexeme (quoted : Quoted) : Lexeme where
  kind := .string
  value := '"' :: (quoted.body ++ ['"'])
  alone := by simp [matchToken, quoted.closes, Nat.add_comm]
  solid := by decide

/-! ## Trees -/

inductive Default where
  | name (l : Lexeme.Of .name)
  | number (l : Lexeme.Of .number)
  | string (quoted : Quoted)

namespace Default

def lexeme : Default → Lexeme
  | name l => l
  | number l => l
  | string quoted => quoted.lexeme

def text : Default → Text
  | name l => l.1.value
  | number l => l.1.value
  | string quoted => quoted.body

/-- A string is to be plain. -/
def Plain : Default → Prop
  | string quoted => quoted.Plain
  | _ => True

instance : DecidablePred Plain
  | name _ | number _ => inferInstanceAs (Decidable True)
  | string quoted => inferInstanceAs (Decidable quoted.Plain)

end Default

/-- A token of an error expression, and the comments before it. -/
structure Operand where
  before : List Comment
  lexeme : Lexeme
  solid : lexeme.kind ≠ .comment
  inside : ¬ (lexeme.kind = .punct ∧ lexeme.value = [';'])

inductive ClauseBody where
  | units (quoted : Quoted)
  | message (quoted : Quoted)
  | error (expression : List Operand)

def ClauseBody.name : ClauseBody → ClauseName
  | units _ => .units
  | message _ => .message
  | error _ => .error

/-- The string of a clause is to be plain. -/
def ClauseBody.Plain : ClauseBody → Prop
  | units quoted => quoted.Plain
  | message quoted => quoted.Plain
  | error _ => True

instance : DecidablePred ClauseBody.Plain
  | .units quoted | .message quoted => inferInstanceAs (Decidable quoted.Plain)
  | .error _ => inferInstanceAs (Decidable True)

structure Clause where
  before : List Comment
  body : ClauseBody

/-- A declaration, with the comments before and after its semicolon. -/
structure Head where
  type : KeyType
  name : Lexeme.Of .name
  default : Option Default
  clauses : List Clause
  distinct : (clauses.map fun clause => clause.body.name).Nodup
  before : List Comment
  after : List Comment

/-- The strings of the declaration have no quotes and no backslashes. -/
structure Head.Plain (head : Head) : Prop where
  default : ∀ default ∈ head.default, default.Plain
  clauses : ∀ clause ∈ head.clauses, clause.body.Plain

instance (head : Head) : Decidable head.Plain :=
  decidable_of_iff ((∀ default ∈ head.default, default.Plain) ∧ ∀ clause ∈ head.clauses, clause.body.Plain)
    ⟨fun h => ⟨h.1, h.2⟩, fun h => ⟨h.default, h.clauses⟩⟩

/-- A declaration without a block, or with one; comments can follow its braces. -/
inductive Stmt where
  | leaf (head : Head)
  | tree (head : Head) (opening : List Comment) (children : List Stmt) (closing : List Comment)

def Stmt.head : Stmt → Head
  | leaf head => head
  | tree head .. => head

def Stmt.children : Stmt → List Stmt
  | leaf _ => []
  | tree _ _ children _ => children

/-- The statements, and the mark of the end with the comments behind it if it is there. -/
structure File where
  opening : List Comment
  stmts : List Stmt
  mark : Option (List Comment)

/-! ## Spellings -/

def comments (cs : List Comment) : List Lexeme := cs.map Subtype.val

def Operand.lexemes (operand : Operand) : List Lexeme := comments operand.before ++ [operand.lexeme]

def ClauseBody.lexemes : ClauseBody → List Lexeme
  | units quoted => [quoted.lexeme]
  | message quoted => [quoted.lexeme]
  | error expression => expression.flatMap Operand.lexemes

def Clause.lexemes (clause : Clause) : List Lexeme :=
  comments clause.before ++ clause.body.name.lexeme :: Lexeme.equals :: clause.body.lexemes

def defaultLexemes : Option Default → List Lexeme
  | none => []
  | some default => [Lexeme.equals, default.lexeme]

def Head.lexemes (head : Head) : List Lexeme :=
  head.type.lexeme :: head.name :: (defaultLexemes head.default ++ (head.clauses.flatMap Clause.lexemes ++
    (comments head.before ++ Lexeme.semicolon :: comments head.after)))

mutual

def Stmt.lexemes : Stmt → List Lexeme
  | .leaf head => head.lexemes
  | .tree head opening children closing => head.lexemes ++ Lexeme.opening :: (comments opening ++
      (stmtsLexemes children ++ Lexeme.closing :: comments closing))

def stmtsLexemes : List Stmt → List Lexeme
  | [] => []
  | stmt :: stmts => stmt.lexemes ++ stmtsLexemes stmts

end

def markLexemes : Option (List Comment) → List Lexeme
  | none => []
  | some behind => Lexeme.endMark :: comments behind

def File.lexemes (file : File) : List Lexeme :=
  comments file.opening ++ (stmtsLexemes file.stmts ++ markLexemes file.mark)

structure Token.Is (token : Token) (l : Lexeme) : Prop where
  kind : token.kind = l.kind
  value : token.value = l.value

/-- The tokens are these lexemes, on whatever lines. -/
def Spells (tokens : List Token) (ls : List Lexeme) : Prop := List.Forall₂ Token.Is tokens ls

/-- The lexemes, each with the space behind it; only behind the last there may be none, and behind a comment
its line ends. -/
structure Layout where
  lead : Text
  pieces : List (Lexeme × Text)
  lead_space : ∀ c ∈ lead, isSpace c
  space : ∀ piece ∈ pieces, ∀ c ∈ piece.2, isSpace c
  apart : ∀ piece ∈ pieces.dropLast, piece.2 ≠ []
  lines : ∀ piece ∈ pieces, piece.1.kind = .comment → piece.2.head?.getD '\n' = '\n'
  /-- A quote alone is no token of the grammar: the rest of the text decides whether it opens a string. -/
  closed : ∀ piece ∈ pieces, piece.1.value ≠ ['"']

def Layout.lexemes (layout : Layout) : List Lexeme := layout.pieces.map Prod.fst

def Layout.text (layout : Layout) : Text :=
  layout.lead ++ layout.pieces.flatMap fun piece => piece.1.value ++ piece.2

/-- Each lexeme with a blank behind it. -/
def Layout.blanks (ls : List Lexeme) (solid : ∀ l ∈ ls, l.kind ≠ .comment ∧ l.value ≠ ['"']) : Layout where
  lead := []
  pieces := ls.map fun l => (l, [' '])
  lead_space := List.forall_mem_nil _
  space := by
    intro piece hp
    obtain ⟨l, -, rfl⟩ := List.mem_map.mp hp
    exact List.forall_mem_singleton.mpr (by decide)
  apart := by
    intro piece hp
    obtain ⟨l, -, rfl⟩ := List.mem_map.mp (List.mem_of_mem_dropLast hp)
    exact List.cons_ne_nil _ _
  lines := by
    intro piece hp comment
    obtain ⟨l, hl, rfl⟩ := List.mem_map.mp hp
    exact absurd comment (solid l hl).1
  closed := by
    intro piece hp
    obtain ⟨l, hl, rfl⟩ := List.mem_map.mp hp
    exact (solid l hl).2

/-- The text is the tree, with space between the tokens. -/
def File.Renders (file : File) (text : Text) : Prop :=
  ∃ layout : Layout, layout.lexemes = file.lexemes ∧ layout.text = text

/-! ## What is declared -/

def Clause.units (clause : Clause) : Option Text :=
  match clause.body with
  | .units quoted => some quoted.body
  | _ => none

def Clause.message (clause : Clause) : Option Text :=
  match clause.body with
  | .message quoted => some quoted.body
  | _ => none

/-- The tokens of the expression, joined by blanks. -/
def Clause.error (clause : Clause) : Option Text :=
  match clause.body with
  | .error expression => some (List.intercalate [' '] (expression.map fun operand => operand.lexeme.value))
  | _ => none

/-- What a type word stands for as the type of a parameter; cards and switches are none. -/
def KeyType.meaning : KeyType → ParameterType
  | .int | .integer => .integer
  | .float => .float
  | .string => .string
  | .boolean | .card | .switch => .boolean

/-- The parameter that a declaration stands for, in the group of that name; without what comments say of it and
what the other parameters are. -/
def Head.parameter (head : Head) (group : Option Text) : Parameter where
  name := runtimeName head.name.1.value
  type := head.type.meaning
  sourceName := head.name.1.value
  default := head.default.map Default.text
  units := head.clauses.findSome? Clause.units
  message := head.clauses.findSome? Clause.message
  error := head.clauses.findSome? Clause.error
  group := group

mutual

/-- The declarations that are not switches, each with the nearest switch around it, depth first. -/
def Stmt.entries (group : Option Text) : Stmt → List (Head × Option Text)
  | .leaf head => if head.type = .switch then [] else [(head, group)]
  | .tree head _ children _ =>
    if head.type = .switch then stmtsEntries (some head.name.1.value) children
    else (head, group) :: stmtsEntries group children

def stmtsEntries (group : Option Text) : List Stmt → List (Head × Option Text)
  | [] => []
  | stmt :: stmts => stmt.entries group ++ stmtsEntries group stmts

end

/-- The declarations below, those of the block of a card among them. -/
def Stmt.declared (stmt : Stmt) : List (Head × Option Text) := stmtsEntries none stmt.children

/-- The command that a card stands for. -/
def Stmt.command (stmt : Stmt) : Command where
  name := runtimeName stmt.head.name.1.value
  sourceName := stmt.head.name.1.value
  parameters := stmt.declared.map fun entry => entry.1.parameter entry.2

def File.cards (file : File) : List Stmt := file.stmts.filter fun stmt => stmt.head.type = .card

/-- The strings of the declared parameters have no quotes and no backslashes. -/
def File.Plain (file : File) : Prop := ∀ stmt ∈ file.cards, ∀ entry ∈ stmt.declared, entry.1.Plain

instance (file : File) : Decidable file.Plain :=
  inferInstanceAs (Decidable (∀ stmt ∈ file.cards, ∀ entry ∈ stmt.declared, entry.1.Plain))

/-- Below the declarations of the file there is no card. -/
def File.CardsOnTop (file : File) : Prop := ∀ stmt ∈ file.stmts, ∀ entry ∈ stmt.declared, entry.1.type ≠ .card

end TcadWebapp.Catalog
