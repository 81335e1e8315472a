import TcadWebapp.Catalog.Catalog
import TcadWebapp.Misc.Decimal

/-!
# Reading the key file

`backend/app/catalog/key_parser.py`: the text is cut into tokens, the tokens are read as a tree of declarations, and
the tree below each card becomes the flat list of its parameters. The nesting is not bounded.
-/

namespace TcadWebapp.Catalog

/-- What `parse_key` can raise. -/
inductive Raised where
  /-- A text that cannot be cut into tokens. -/
  | noToken (line : ℕ) (text : Text)
  /-- No type where a declaration is to begin. -/
  | noType (line : ℕ) (value : Text)
  | noName (line : ℕ) (type : Text)
  | unexpected (line : ℕ) (value : Text)
  | noEquals (line : ℕ) (clause : Text)
  /-- An IndexError: no token is left. -/
  | noneLeft
  /-- A ValueError: no `ParameterType` of this value. -/
  | notParameter (value : Text)
  deriving DecidableEq, Repr

/-- The exception is a `KeyFormatError`. -/
def Raised.isFormat : Raised → Bool
  | .noneLeft | .notParameter _ => false
  | _ => true

/-! ## Tokens -/

inductive TokenKind where
  | comment
  | string
  | punct
  | ws
  | name
  | number
  | other
  deriving DecidableEq, Repr

/-- `_Token`. -/
structure Token where
  kind : TokenKind
  value : Text
  line : ℕ
  deriving DecidableEq, Repr

/-- `\d`. -/
def isDigit (c : Char) : Bool := (decimalDigit c).isSome

/-- `[A-Za-z]`. -/
def isLetter (c : Char) : Bool := ('a' ≤ c && c ≤ 'z') || ('A' ≤ c && c ≤ 'Z')

/-- `[A-Za-z_/]`. -/
def startsName (c : Char) : Bool := isLetter c || c == '_' || c == '/'

/-- `[A-Za-z0-9_./]`. -/
def inName (c : Char) : Bool := startsName c || c == '.' || ('0' ≤ c && c ≤ '9')

def isPunct (c : Char) : Bool := c ∈ ['{', '}', ';', '=']

/-- How much of the text `(?:[^"\\]|\\.)*"` takes. -/
def stringEnd : Text → Option ℕ
  | [] => none
  | '"' :: _ => some 1
  | ['\\'] => none
  | '\\' :: c :: rest => if c = '\n' then none else (stringEnd rest).map (· + 2)
  | _ :: rest => (stringEnd rest).map (· + 1)

def countDigits (text : Text) : ℕ := (text.takeWhile isDigit).length

/-- How much `[+-]?` takes. -/
def signLength : Text → ℕ
  | c :: _ => if c = '+' ∨ c = '-' then 1 else 0
  | [] => 0

/-- How much `\d+\.?\d*|\.\d+` takes. -/
def mantissaLength (text : Text) : Option ℕ :=
  if 0 < countDigits text then
    match text.drop (countDigits text) with
    | '.' :: rest => some (countDigits text + 1 + countDigits rest)
    | _ => some (countDigits text)
  else
    match text with
    | '.' :: rest => if 0 < countDigits rest then some (1 + countDigits rest) else none
    | _ => none

/-- How much `(?:[eE][+-]?\d+)?` takes. -/
def exponentLength : Text → ℕ
  | c :: rest =>
    let digits := countDigits (rest.drop (signLength rest))
    if (c = 'e' ∨ c = 'E') ∧ 0 < digits then 1 + signLength rest + digits else 0
  | [] => 0

def numberLength (text : Text) : Option ℕ :=
  let sign := signLength text
  (mantissaLength (text.drop sign)).map fun mantissa =>
    sign + mantissa + exponentLength (text.drop (sign + mantissa))

/-- `_TOKEN_RE.match`: the kind of the token with which the text begins, and its length. -/
def matchToken : Text → Option (TokenKind × ℕ)
  | [] => none
  | c :: rest =>
    if c = '#' then some (.comment, 1 + (rest.takeWhile (· ≠ '\n')).length)
    else if c = '"' ∧ (stringEnd rest).isSome then some (.string, 1 + (stringEnd rest).getD 0)
    else if isPunct c then some (.punct, 1)
    else if isSpace c then some (.ws, 1 + (rest.takeWhile isSpace).length)
    else if startsName c then some (.name, 1 + (rest.takeWhile inName).length)
    else if (numberLength (c :: rest)).isSome then some (.number, (numberLength (c :: rest)).getD 0)
    else some (.other, 1)

/-- The loop of `_tokenize`. -/
def tokenizeFrom : ℕ → ℕ → Text → Except Raised (List Token)
  -- as many rounds as there are characters: the text is at its end
  | 0, _, _ => .ok []
  | _ + 1, _, [] => .ok []
  | rounds + 1, line, text =>
    match matchToken text with
    | none => .error (.noToken line (text.take 40))
    | some (kind, length) => do
      let value := text.take length
      let tokens ← tokenizeFrom rounds (line + value.count '\n') (text.drop length)
      if kind = .ws then .ok tokens else .ok (⟨kind, value, line⟩ :: tokens)

/-- `_tokenize`. -/
def tokenize (text : Text) : Except Raised (List Token) := tokenizeFrom text.length 1 text

/-! ## Declarations -/

/-- `_TYPES`. -/
inductive KeyType where
  | card
  | int
  | integer
  | float
  | string
  | boolean
  | switch
  deriving DecidableEq, Repr

namespace KeyType

def word : KeyType → Text
  | card => "card".toList
  | int => "int".toList
  | integer => "integer".toList
  | float => "float".toList
  | string => "string".toList
  | boolean => "boolean".toList
  | switch => "switch".toList

def ofWord (value : Text) : Option KeyType :=
  [card, int, integer, float, string, boolean, switch].find? fun type => type.word = value

end KeyType

/-- `_CLAUSES`. -/
inductive ClauseName where
  | units
  | message
  | error
  deriving DecidableEq, Repr

namespace ClauseName

def word : ClauseName → Text
  | units => "units".toList
  | message => "message".toList
  | error => "error".toList

def ofWord (value : Text) : Option ClauseName := [units, message, error].find? fun clause => clause.word = value

end ClauseName

/-- `_Node`; its `children` are read only as `children or []`. -/
structure Node where
  type : KeyType
  name : Text
  line : ℕ
  default : Option Text := none
  units : Option Text := none
  message : Option Text := none
  error : Option Text := none
  description : Option Text := none
  children : List Node := []
  deriving Repr

/-- `text.lstrip(c)`. -/
def lstripChar (c : Char) (text : Text) : Text := text.dropWhile (· = c)

/-- `_clean_comment`. -/
def cleanComment (text : Text) : Text := (lstripChar '!' (lstripChar '#' text)).strip

/-- `value.strip('"')`. -/
def stripQuotes (value : Text) : Text := (value.dropWhile (· = '"')).rdropWhile (· = '"')

def Token.isPunct (token : Token) (c : Char) : Bool := token.kind = .punct && token.value = [c]

/-- `_parse_expression`, up to the semicolon: the values, and what is left. -/
def parseExpression : List Token → Except Raised (List Text × List Token)
  | [] => .error .noneLeft
  | token :: rest =>
    if token.isPunct ';' then .ok ([], token :: rest)
    else do
      let (parts, rest) ← parseExpression rest
      if token.kind = .comment then .ok (parts, rest) else .ok (token.value :: parts, rest)

/-- A clause other than that of the error. -/
def Node.setClause (node : Node) (clause : ClauseName) (value : Text) : Node :=
  match clause with
  | .units => { node with units := some value }
  | .message => { node with message := some value }
  | .error => { node with error := some value }

/-- `_parse_clauses`: what is left begins with the semicolon. -/
def parseClauses (node : Node) : List Token → Except Raised (Node × List Token)
  | [] => .error .noneLeft
  | token :: rest =>
    if token.isPunct ';' then .ok (node, token :: rest)
    else if token.kind = .comment then parseClauses node rest
    else
      match (if token.kind = .name then ClauseName.ofWord token.value else none), rest with
      | none, _ => .error (.unexpected token.line token.value)
      | some _, [] => .error .noneLeft
      | some clause, equals :: rest =>
        if equals.value ≠ ['='] then .error (.noEquals token.line token.value)
        else if clause = .error then do
          -- the expression ends at the semicolon at which the loop ends, too
          let (parts, rest) ← parseExpression rest
          .ok (node.setClause .error (List.intercalate [' '] parts), rest)
        else
          match rest with
          | [] => .error .noneLeft
          | value :: rest => parseClauses (node.setClause clause (stripQuotes value.value)) rest

/-- `_take_trailing_comment`. -/
def takeTrailingComment : List Token → Except Raised (Option Text × List Token)
  | [] => .error .noneLeft
  | semicolon :: rest =>
    match rest with
    | [] => .ok (none, [])
    | token :: rest =>
      if token.kind = .comment ∧ token.line = semicolon.line then .ok (some (cleanComment token.value), rest)
      else .ok (none, token :: rest)

/-- What follows the name up to the clauses: the default. -/
def parseDefault (node : Node) : List Token → Except Raised (Node × List Token)
  | [] => .error .noneLeft
  | token :: rest =>
    if token.isPunct '=' then
      match rest with
      | [] => .error .noneLeft
      | value :: rest => .ok ({ node with default := some (stripQuotes value.value) }, rest)
    else .ok (node, token :: rest)

/-- `_parse_declaration`. -/
def parseDeclaration : List Token → Except Raised ((Node × Option Text) × List Token)
  | [] => .error .noneLeft
  | token :: rest =>
    match (if token.kind = .name then KeyType.ofWord token.value else none), rest with
    | none, _ => .error (.noType token.line token.value)
    | some _, [] => .error .noneLeft
    | some type, name :: rest =>
      if name.kind ≠ .name then .error (.noName token.line token.value)
      else do
        let (node, rest) ← parseDefault { type, name := name.value, line := token.line } rest
        let (node, rest) ← parseClauses node rest
        let (trailing, rest) ← takeTrailingComment rest
        .ok ((node, trailing), rest)

/-! ## Descriptions -/

/-- `_CARD_INDEX_RE.fullmatch`. -/
def isCardIndex (text : Text) : Bool :=
  let rest := text.drop 4
  let number := rest.dropWhile isSpace
  text.take 4 = "card".toList && rest.head?.any isSpace && !number.isEmpty && number.all isDigit

/-- The last of the runs of neighbouring lines. -/
def lastBlock (pending : List (ℕ × Text)) : List (ℕ × Text) :=
  pending.foldl (fun block comment =>
    match block.getLast? with
    | some previous => if comment.1 = previous.1 + 1 then block ++ [comment] else [comment]
    | none => [comment]) []

/-- `_build_description`. -/
def buildDescription (pending : List (ℕ × Text)) (declarationLine : ℕ) (trailing : Option Text) : Option Text :=
  let block := lastBlock pending
  let block := if block.getLast?.all fun last => last.1 + 1 = declarationLine then block else []
  let parts := (block.map fun comment => comment.2).filter fun text => text ≠ [] && !isCardIndex text
  let parts := parts ++ (trailing.toList.filter fun text => text ≠ [])
  let description := Text.strip (List.intercalate [' '] parts)
  if description = [] then none else some description

/-! ## Blocks -/

/-- A block belongs to the declaration before it, or to the block around it. -/
def attach (nodes children : List Node) : List Node :=
  match nodes.getLast? with
  | some node => nodes.dropLast ++ [{ node with children := node.children ++ children }]
  | none => children

/-- `_parse_block`. -/
def parseBlock : ℕ → List Token → List Node → List (ℕ × Text) → Except Raised (List Node × List Token)
  -- as many rounds as there are tokens: the tokens are at their end
  | 0, tokens, nodes, _ => .ok (nodes, tokens)
  | _ + 1, [], nodes, _ => .ok (nodes, [])
  | rounds + 1, token :: rest, nodes, pending =>
    if token.kind = .comment then parseBlock rounds rest nodes (pending ++ [(token.line, cleanComment token.value)])
    else if token.kind = .name ∧ token.value = "end".toList then parseBlock rounds rest nodes pending
    else if token.isPunct '}' then .ok (nodes, rest)
    else if token.isPunct '{' then do
      let (children, rest) ← parseBlock rounds rest [] []
      parseBlock rounds rest (attach nodes children) []
    else do
      let ((node, trailing), rest) ← parseDeclaration (token :: rest)
      let node := { node with description := buildDescription pending node.line trailing }
      parseBlock rounds rest (nodes ++ [node]) []

/-- `_Parser.parse`. -/
def parse (tokens : List Token) : Except Raised (List Node) := (parseBlock tokens.length tokens [] []).map Prod.fst

/-! ## Commands -/

/-- `ParameterType(_TYPE_ALIASES.get(type, type))`. -/
def KeyType.parameterType : KeyType → Except Raised ParameterType
  | .int | .integer => .ok .integer
  | .float => .ok .float
  | .string => .ok .string
  | .boolean => .ok .boolean
  | .card => .error (.notParameter KeyType.card.word)
  | .switch => .error (.notParameter KeyType.switch.word)

/-- The entry of a node that is not a switch. -/
def Node.parameter (group : Option Node) (node : Node) : Except Raised Parameter := do
  let type ← node.type.parameterType
  .ok { name := runtimeName node.name, type, sourceName := node.name, default := node.default, units := node.units,
        description := node.description, error := node.error, message := node.message,
        group := group.map fun g => g.name, groupMessage := group.bind fun g => g.message }

mutual

/-- The body of the loop of `_flatten`. -/
def flattenNode (group : Option Node) : Node → Except Raised (List Parameter)
  | ⟨type, name, line, default, units, message, error, description, children⟩ =>
    let node : Node := ⟨type, name, line, default, units, message, error, description, children⟩
    if type = .switch then flatten (some node) children
    else do
      let parameter ← node.parameter group
      let below ← flatten group children
      .ok (parameter :: below)

/-- `_flatten`. -/
def flatten (group : Option Node) : List Node → Except Raised (List Parameter)
  | [] => .ok []
  | node :: nodes => do
    let first ← flattenNode group node
    let others ← flatten group nodes
    .ok (first ++ others)

end

/-- `_with_reachability`. -/
def withReachability (parameter : Parameter) (names : List Text) : Parameter :=
  if ¬ isUnreachable parameter.name names then parameter else { parameter with unreachable := true }

/-- `_build_command`. -/
def buildCommand (node : Node) : Except Raised Command := do
  let parameters ← flatten none node.children
  let names := parameters.map fun parameter => parameter.name
  .ok { name := runtimeName node.name, sourceName := node.name, description := node.description,
        parameters := parameters.map fun parameter => withReachability parameter names }

/-- `parse_key`. -/
def parseKey (text : Text) : Except Raised (List Command) := do
  let tokens ← tokenize text
  let nodes ← parse tokens
  (nodes.filter fun node => node.type = .card).mapM buildCommand

end TcadWebapp.Catalog
