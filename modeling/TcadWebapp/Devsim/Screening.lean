import TcadWebapp.Devsim.Electrodes
import TcadWebapp.Misc.Utf8
import TcadWebapp.StrParser.Parser

/-!
# Which structures can be simulated

`devsim/screening.py`: the bytes of a file are searched for a line that declares a region of
aluminum; only if there is one the file is parsed, and looked through for a contact that can be
driven. `analysable` catches the errors of reading and parsing, and no others.
-/

namespace TcadWebapp.Devsim

open StrParser

abbrev Bytes := List UInt8

/-! ## The search for a metal region -/

/-- `\s` on bytes. -/
def isSpaceByte (b : UInt8) : Bool := b ∈ [0x20, 0x09, 0x0a, 0x0d, 0x0c, 0x0b]

/-- `\d` on bytes. -/
def isDigitByte (b : UInt8) : Bool := 0x30 ≤ b ∧ b ≤ 0x39

/-- At least one byte of a class, and all that follow. -/
def some1 (p : UInt8 → Bool) (raw : Bytes) : Option Bytes :=
  match raw with
  | [] => none
  | b :: rest => if p b then some (rest.dropWhile p) else none

/-- `\s*$`: white space up to the end or up to a newline. -/
def endsLine (raw : Bytes) : Bool :=
  match raw.dropWhile fun b => isSpaceByte b ∧ b ≠ 0x0a with
  | [] => true
  | b :: _ => b = 0x0a

/-- `r\s+\d+\s+6\s*$`; the classes are disjoint, so nothing is tried twice. -/
def declaresMetal (raw : Bytes) : Bool :=
  match raw with
  | 0x72 :: rest =>
    match ((some1 isSpaceByte rest).bind (some1 isDigitByte)).bind (some1 isSpaceByte) with
    | some (0x36 :: rest) => endsLine rest
    | _ => false
  | _ => false

/-- The search at the places where a line begins. -/
def searchMetal : Bool → Bytes → Bool
  | atStart, [] => atStart && declaresMetal []
  | atStart, b :: rest => (atStart && declaresMetal (b :: rest)) || searchMetal (b = 0x0a) rest

/-- `mentions_metal`. -/
def mentionsMetal (raw : Bytes) : Bool := searchMetal true raw

/-! ## Screening -/

/-- `has_driveable_contact`. -/
def hasDriveableContact (s : Structure Rat) : Except Exn Bool := do
  let electrodes ← detectElectrodes s .semiconductor
  .ok (electrodes.any fun electrode => electrode.kind = .semiconductor)

/-- What the calls on a file give when they come to it; `none` is an OSError. -/
structure StructureFile where
  /-- `path.read_bytes()`. -/
  bytes : Option Bytes
  /-- The text that `load_structure` parses. -/
  text : Option Text

/-- A file that can be read, with these contents. -/
def fileOf (raw : Bytes) : StructureFile := ⟨some raw, some (Utf8.readText raw)⟩

/-- `load_structure`. -/
def loadStructure (reader : Reader Rat) (file : StructureFile) : Except Exn (Structure Rat) :=
  match file.text with
  | none => .error .osError
  | some text =>
    match parseStructure reader text with
    | .ok s => .ok s
    | .error text => .error (.valueError text)

/-- `except (OSError, StructureFormatError, ValueError): return False`. -/
def screened : Except Exn Bool → Except Exn Bool
  | .error .osError => .ok false
  | .error (.valueError _) => .ok false
  | result => result

/-- `analysable` (`screening.py:67-84`). -/
def analysable (reader : Reader Rat) (file : StructureFile) : Except Exn Bool :=
  match file.bytes with
  | none => .ok false
  | some raw =>
    if !mentionsMetal raw then .ok false
    else screened do
      let s ← loadStructure reader file
      hasDriveableContact s

end TcadWebapp.Devsim
