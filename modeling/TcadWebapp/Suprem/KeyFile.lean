import Mathlib.Algebra.Group.Nat.Defs
import Mathlib.Data.List.Range
import TcadWebapp.Misc.Forest

/-!
# The unformatted key file

`keyread/write.c` writes the parameters that the key file declares, and `misc/reader.c` reads them back when the
simulator starts. Both know where a parameter belongs by its depth alone. Words are stored with the lowest byte first,
and a `float` is its word.
-/

namespace TcadWebapp.Suprem

abbrev Byte := BitVec 8

abbrev Word := BitVec 32

/-- What is left of a file. -/
abbrev File := List Byte

/-! ## Parameters -/

/-- `bool_exp`: the tree of a legality function, with `null` for the pointer to none. -/
inductive BoolExp where
  | null
  | oper (op : Word) (left right : BoolExp)
  | real (value : Word)
  | parval (path : List Byte)
  deriving DecidableEq, Repr

/-- The types that a parameter can have. -/
inductive Kind where
  | real
  | int
  | str
  | bool
  | comm
  | choice
  deriving DecidableEq, Repr

/-- `type & ~MASK`. -/
def kindOf (type : Word) : Option Kind :=
  match type &&& ~~~0x083F#32 with
  | 0x0040#32 => some .real
  | 0x0080#32 => some .int
  | 0x0100#32 => some .str
  | 0x0200#32 => some .bool
  | 0x0400#32 => some .comm
  | 0x1000#32 => some .choice
  | _ => none

/-- `val_str`, as it is stored: `ival` and `dval` are one word, and `sval` is a text. -/
inductive Value where
  | word (w : Word)
  | text (s : List Byte)
  deriving DecidableEq, Repr

/-- `par_str`, but for the values and the sub parameters. An empty text stands for a pointer to none. -/
structure Param where
  name : List Byte
  type : Word
  default : Value
  units : List Byte
  errMsg : List Byte
  bexp : BoolExp
  deriving DecidableEq, Repr

/-- What `calloc` gives. -/
def blank : Param where
  name := []
  type := 0
  default := .word 0
  units := []
  errMsg := []
  bexp := .null

/-! ## Writing -/

def wordBytes (w : Word) : File := [w.extractLsb' 0 8, w.extractLsb' 8 8, w.extractLsb' 16 8, w.extractLsb' 24 8]

def textBytes (s : List Byte) : File := s ++ [0]

/-- The twelve characters of a name. -/
def nameBytes (name : List Byte) : File := name ++ List.replicate (12 - name.length) 0

/-- `write_boolean`. -/
def writeBoolean : BoolExp → File
  | .null => []
  | .oper op left right => wordBytes 1 ++ wordBytes op ++ writeBoolean left ++ writeBoolean right
  | .real value => wordBytes 0x40 ++ wordBytes value
  | .parval path => wordBytes 3 ++ textBytes path

/-- The default, based on the type. -/
def writeValue : Kind → Value → Option File
  | .str, .text s => some (textBytes s)
  | .str, .word _ => none
  | _, .word w => some (wordBytes w)
  | _, .text _ => none

/-- `write_param`. -/
def writeParam (depth : ℕ) (par : Param) : Option File := do
  let kind ← kindOf par.type
  let default ← writeValue kind par.default
  some (wordBytes (BitVec.ofNat 32 depth) ++ (nameBytes par.name ++ wordBytes par.type ++ default ++
    textBytes par.units ++ textBytes par.errMsg ++
    if par.bexp = .null then wordBytes 0 else writeBoolean par.bexp))

/-- `write_list`: a parameter without a name ends a list. -/
def writeList (depth : ℕ) : Forest Param → Option File
  | .nil => some []
  | .cons par below after =>
    if par.name = [] then some []
    else do
      let first ← writeParam depth par
      let sub ← writeList (depth + 1) below
      let rest ← writeList depth after
      some (first ++ (sub ++ rest))

/-! ## Reading -/

/-- `fread` of a word. -/
def readWord : File → Option (Word × File)
  | a :: b :: c :: d :: rest => some (d ++ c ++ b ++ a, rest)
  | _ => none

/-- A text that is to fit a buffer: `getc` up to the end of it. A byte of all ones is taken for the end of the file. -/
def readText : ℕ → File → Option (List Byte × File)
  | _, [] => none
  | 0, _ :: _ => none
  | room + 1, c :: rest =>
    if c = 0xFF#8 then none
    else if c = 0 then some ([], rest)
    else (readText room rest).map fun (s, rest) => (c :: s, rest)

/-- `fread` of a name: what stands before the first zero. -/
def readName (file : File) : Option (List Byte × File) :=
  if file.length < 12 then none else some ((file.take 12).takeWhile (· ≠ 0), file.drop 12)

def readValue : Kind → File → Option (Value × File)
  | .str, file => (readText 1024 file).map fun (s, rest) => (.text s, rest)
  | _, file => (readWord file).map fun (w, rest) => (.word w, rest)

/-- `read_boolean`. Every node takes some of the file. -/
def readBoolean : ℕ → File → Option (BoolExp × File)
  | 0, _ => none
  | rounds + 1, file => do
    let (type, file) ← readWord file
    if type = 0 then some (.null, file)
    else if type = 1 then do
      let (op, file) ← readWord file
      let (left, file) ← if op ≠ 33 then readBoolean rounds file else some (.null, file)
      let (right, file) ← readBoolean rounds file
      some (.oper op left right, file)
    else if type = 0x40 then do
      let (value, file) ← readWord file
      some (.real value, file)
    else if type = 3 then do
      let (path, file) ← readText 20 file
      some (.parval path, file)
    else none

/-- `read_param` of a record that is not cut off. -/
def readParam (file : File) : Option (Param × File) := do
  let (name, file) ← readName file
  let (type, file) ← readWord file
  let kind ← kindOf type
  let (default, file) ← readValue kind file
  let (units, file) ← readText 1024 file
  let (errMsg, file) ← readText 1024 file
  let (bexp, file) ← readBoolean file.length file
  some ({ name, type, default, units, errMsg, bexp }, file)

/-- What `read_list` has made of a list, what `temp` is then, what is left of the file, and what it returns. -/
structure ReadList where
  entries : List (Param × Forest Param)
  temp : Word
  rest : File
  status : ℤ
  deriving DecidableEq, Repr

/-- The parameters of `par[0]` have been read. There is no `par[0]` before the first. -/
def giveParams (entries : List (Param × Forest Param)) (params : List (Param × Forest Param)) :
    Option (List (Param × Forest Param)) :=
  entries.getLast?.map fun last => entries.dropLast ++ [(last.1, Forest.ofTrees params)]

/-- `read_list`. At the end of the file a `temp` from before is looked at. Every round takes some of the file. -/
def readList : ℕ → ℕ → Word → List (Param × Forest Param) → File → Option ReadList
  | 0, _, _, _, _ => none
  | _ + 1, _, temp, entries, [] => some ⟨entries, temp, [], 1⟩
  | rounds + 1, level, _, entries, file@(_ :: _) => do
    let (temp, file) ← readWord file
    if temp.toInt = level then
      if file = [] then some ⟨entries ++ [(blank, .nil)], temp, [], 0⟩
      else do
        let (par, file) ← readParam file
        readList rounds level temp (entries ++ [(par, .nil)]) file
    else if temp.toInt < level then some ⟨entries, temp, file, 1⟩
    else if file = [] then do
      let entries ← giveParams entries [(blank, .nil)]
      some ⟨entries, temp, [], 0⟩
    else do
      let (first, file) ← readParam file
      let sub ← readList rounds (level + 1) temp [(first, .nil)] file
      let entries ← giveParams entries sub.entries
      if sub.status ≠ 1 then some { sub with entries }
      else if sub.temp.toInt < level then some { sub with entries }
      else if sub.rest = [] then some ⟨entries ++ [(blank, .nil)], sub.temp, [], 0⟩
      else do
        let (par, file) ← readParam sub.rest
        readList rounds level sub.temp (entries ++ [(par, .nil)]) file

/-- What `read_ukfile` reads of a key file: the cards, and the status. -/
def readKeyFile (file : File) : Option (Forest Param × ℤ) :=
  (readList (file.length + 1) 0 0 [] file).map fun read => (Forest.ofTrees read.entries, read.status)

end TcadWebapp.Suprem
