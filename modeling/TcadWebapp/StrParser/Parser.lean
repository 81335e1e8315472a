import TcadWebapp.Misc.Python
import TcadWebapp.Misc.Text
import TcadWebapp.StrParser.Species

/-!
# Reading a structure file

`str_parser/parser.py`. `int` and `float` of Python are a parameter (`Reader`), as are the
floats themselves.
-/

namespace TcadWebapp.StrParser

/-- `int`, `float` and `0.0`, and `repr` of a string; `none` is a ValueError. -/
structure Reader (F : Type) where
  int : Text → Option Int
  float : Text → Option F
  zero : F
  repr : String → String

variable {F : Type}

/-- What goes wrong on a line. -/
inductive LineError where
  /-- A StructureFormatError. -/
  | format (text : String)
  /-- A ValueError of a number, or an IndexError of a field. -/
  | other
  deriving DecidableEq, Repr

/-- `_Accumulator`. -/
structure Accumulator (F : Type) where
  version : String
  dimension : Int
  verticesPerElement : Int
  neighborsPerElement : Int
  coordinates : List (Coordinate F)
  regions : List Region
  elements : List Element
  temperature : Option F
  table : Option (List Int)
  solutionRows : List (Int × Int × List F)
  warnings : List String

def Accumulator.init : Accumulator F where
  version := ""
  dimension := 1
  verticesPerElement := 2
  neighborsPerElement := 2
  coordinates := []
  regions := []
  elements := []
  temperature := none
  table := none
  solutionRows := []
  warnings := []

/-! ## Fields -/

/-- `fields[i]`. -/
def field (fields : List Text) (i : Nat) : Except LineError Text :=
  match fields[i]? with
  | some text => .ok text
  | none => .error .other

/-- `int(text)`. -/
def readInt (reader : Reader F) (text : Text) : Except LineError Int :=
  match reader.int text with
  | some i => .ok i
  | none => .error .other

/-- `float(text)`. -/
def readFloat (reader : Reader F) (text : Text) : Except LineError F :=
  match reader.float text with
  | some x => .ok x
  | none => .error .other

/-- `int(fields[i])`. -/
def intField (reader : Reader F) (fields : List Text) (i : Nat) : Except LineError Int := do
  let text ← field fields i
  readInt reader text

def floatField (reader : Reader F) (fields : List Text) (i : Nat) : Except LineError F := do
  let text ← field fields i
  readFloat reader text

/-- The warning of `_handle_region` and `_handle_node`. -/
def materialWarnings (id : Int) : List String :=
  if isKnownMaterial id then []
  else ["미확인 material_id " ++ toString id ++ " — unknown 으로 보존합니다"]

/-- `str(fields)`. -/
def reprFields (reader : Reader F) (fields : List Text) : String :=
  "[" ++ ", ".intercalate (fields.map fun text => reader.repr (String.ofList text)) ++ "]"

/-! ## The records -/

namespace Accumulator

/-- `_handle_version`. -/
def handleVersion (acc : Accumulator F) (fields : List Text) : Accumulator F :=
  { acc with version := String.ofList ([' '].intercalate fields) }

/-- `_handle_dimension` (`parser.py:87-95`). -/
def handleDimension (reader : Reader F) (acc : Accumulator F) (fields : List Text) :
    Except LineError (Accumulator F) := do
  let dimension ← intField reader fields 0
  let vertices ← intField reader fields 1
  let neighbors ← intField reader fields 2
  .ok { acc with
    dimension := dimension, verticesPerElement := vertices, neighborsPerElement := neighbors }

/-- `_handle_coordinate` (`parser.py:98-114`). -/
def handleCoordinate (reader : Reader F) (acc : Accumulator F) (fields : List Text) :
    Except LineError (Accumulator F) :=
  if fields.length = 4 then do
    let id ← intField reader fields 0
    let x ← floatField reader fields 1
    let y ← floatField reader fields 2
    .ok { acc with coordinates := acc.coordinates ++ [⟨id, x, y⟩] }
  else if fields.length = 3 then do
    let id ← intField reader fields 0
    let x ← floatField reader fields 1
    .ok { acc with coordinates := acc.coordinates ++ [⟨id, x, reader.zero⟩] }
  else
    .error (.format ("좌표 라인의 필드 수가 예상 밖입니다: " ++ toString fields.length ++ "개 (" ++
      reprFields reader fields ++ ")"))

/-- `_handle_region` (`parser.py:117-130`). -/
def handleRegion (reader : Reader F) (acc : Accumulator F) (fields : List Text) :
    Except LineError (Accumulator F) := do
  let materialId ← intField reader fields 1
  let id ← intField reader fields 0
  .ok { acc with
    warnings := acc.warnings ++ materialWarnings materialId
    regions := acc.regions ++ [⟨id, materialId, resolveMaterial materialId⟩] }

/-- A neighbour as the file has it, as an index of an element or a boundary code. -/
def neighborOf (n : Int) : Int := if n > 0 then n - 1 else n

/-- `_handle_element` (`parser.py:133-163`). -/
def handleElement (reader : Reader F) (acc : Accumulator F) (fields : List Text) :
    Except LineError (Accumulator F) :=
  let nvrt := acc.verticesPerElement
  let nedg := acc.neighborsPerElement
  let expected := 2 + nvrt + nedg + 2
  if fields.length ≠ expected then
    .error (.format ("요소 라인 필드가 " ++ toString expected ++ "개여야 하는데 " ++
      toString fields.length ++ "개입니다 (D 라인 기준 nvrt=" ++ toString nvrt ++ ", nedg=" ++
      toString nedg ++ ")"))
  else do
    let values ← fields.mapM (readInt reader)
    match values with
    | id :: regionId :: _ =>
      let vertexEnd := 2 + nvrt
      let neighborEnd := vertexEnd + nedg
      let element : Element := {
        id := id
        regionId := regionId
        vertices := (slice values 2 vertexEnd).map (· - 1)
        neighbors := (slice values vertexEnd neighborEnd).map neighborOf
        extra := slice values neighborEnd values.length }
      .ok { acc with elements := acc.elements ++ [element] }
    | _ => .error .other

/-- `_handle_temperature`. -/
def handleTemperature (reader : Reader F) (acc : Accumulator F) (fields : List Text) :
    Except LineError (Accumulator F) := do
  let temperature ← floatField reader fields 1
  .ok { acc with temperature := some temperature }

/-- The warnings of `_handle_species`. -/
def speciesWarnings (codes : List Int) : List String :=
  ((speciesTable codes).filter fun species => !species.isKnown).map fun species =>
    "미확인 species 코드 " ++ toString species.code ++ " — " ++ species.name ++ " 으로 보존합니다"

/-- `_handle_species` (`parser.py:170-183`). -/
def handleSpecies (reader : Reader F) (acc : Accumulator F) (fields : List Text) :
    Except LineError (Accumulator F) := do
  let declared ← intField reader fields 0
  let codes ← fields.tail.mapM (readInt reader)
  if declared ≠ codes.length then
    .error (.format ("s 라인이 species " ++ toString declared ++ "개를 선언했지만 코드는 " ++
      toString codes.length ++ "개입니다"))
  else .ok { acc with table := some codes, warnings := acc.warnings ++ speciesWarnings codes }

/-- `_handle_node` (`parser.py:186-203`). -/
def handleNode (reader : Reader F) (acc : Accumulator F) (fields : List Text) :
    Except LineError (Accumulator F) :=
  match acc.table with
  | none => .error (.format "s 라인보다 n 라인이 먼저 나왔습니다")
  | some table => do
    let values ← (fields.drop 2).mapM (readFloat reader)
    if values.length ≠ table.length then
      .error (.format ("species 개수는 " ++ toString table.length ++ "인데 노드 값은 " ++
        toString values.length ++ "개입니다"))
    else
      let materialId ← intField reader fields 1
      let coordinateIndex ← intField reader fields 0
      .ok { acc with
        warnings := acc.warnings ++ materialWarnings materialId
        solutionRows := acc.solutionRows ++ [(coordinateIndex, materialId, values)] }

/-- The record of a tag, by `_HANDLERS`. -/
def handle (reader : Reader F) (acc : Accumulator F) (tag : Text) (fields : List Text) :
    Except LineError (Accumulator F) :=
  match tag with
  | ['v'] => .ok (acc.handleVersion fields)
  | ['D'] => acc.handleDimension reader fields
  | ['c'] => acc.handleCoordinate reader fields
  | ['r'] => acc.handleRegion reader fields
  | ['t'] => acc.handleElement reader fields
  | ['M'] => acc.handleTemperature reader fields
  | ['s'] => acc.handleSpecies reader fields
  | ['n'] => acc.handleNode reader fields
  | ['I'] => .ok acc
  | _ => .ok { acc with warnings := acc.warnings ++
      ["알 수 없는 라인 종류 " ++ reader.repr (String.ofList tag) ++ " 를 건너뜁니다"] }

/-- `_consume_line`, on a line that is not empty once stripped. -/
def consumeLine (reader : Reader F) (acc : Accumulator F) (line : Text) :
    Except LineError (Accumulator F) :=
  acc.handle reader line.partition.1 line.partition.2.split

/-- `_finalize` (`parser.py:223-256`). -/
def finalize (acc : Accumulator F) : Except String (Structure F) :=
  match acc.table with
  | none => .error "s 라인이 없어 컬럼 배치를 알 수 없습니다"
  | some table => .ok {
      version := acc.version
      dimension := acc.dimension
      verticesPerElement := acc.verticesPerElement
      neighborsPerElement := acc.neighborsPerElement
      coordinates := acc.coordinates
      regions := acc.regions
      elements := acc.elements
      solutions := acc.solutionRows.map fun row => ⟨row.1, row.2.1, resolveMaterial row.2.1, row.2.2⟩
      species := table
      temperature := acc.temperature
      warnings := acc.warnings }

end Accumulator

/-- The loop over the lines; what goes wrong is a StructureFormatError with this text. -/
def parseLines (reader : Reader F) : Nat → Accumulator F → List Text → Except String (Accumulator F)
  | _, acc, [] => .ok acc
  | number, acc, raw :: rest =>
    if raw.strip = [] then parseLines reader (number + 1) acc rest
    else match acc.consumeLine reader raw.strip with
      | .ok acc => parseLines reader (number + 1) acc rest
      | .error (.format text) => .error text
      | .error .other => .error (toString number ++ "행을 해석할 수 없습니다: " ++
          reader.repr (String.ofList raw))

/-- `parse_structure` (`parser.py:44-67`). -/
def parseStructure (reader : Reader F) (text : Text) : Except String (Structure F) := do
  let acc ← parseLines reader 1 .init text.splitlines
  acc.finalize

end TcadWebapp.StrParser
