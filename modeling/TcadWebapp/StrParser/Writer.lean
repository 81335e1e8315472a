import TcadWebapp.StrParser.Parser

/-!
# Writing a structure file

`str_parser/writer.py`. The lines of the records that a mesh does not change are taken over
from the source. `%g` and `%e` are a parameter (`Printer`).
-/

namespace TcadWebapp.StrParser

/-- `f"{x:g}"` and `f"{x:e}"`. -/
structure Printer (F : Type) where
  g : F → Text
  e : F → Text

variable {F : Type}

/-- `_ORDER`. -/
def order : List Char := ['v', 'D', 'c', 'r', 't', 'M', 's', 'n', 'I']

/-- `_OWNED`. -/
def owned : List Char := ['c', 'r', 't', 'n']

/-- `kept.get(tag, [])` of `_kept_lines`: the lines of the source before whose first blank
stands the tag. -/
def keptLines (source : Text) (tag : Char) : List Text :=
  source.splitlines.filter fun line => line.takeWhile (· ≠ ' ') = [tag]

/-- `str(i)`. -/
def intText (i : Int) : Text := (toString i).toList

/-- `_coordinate`. -/
def coordinateLine (printer : Printer F) (dimension : Int) (c : Coordinate F) : Text :=
  "c ".toList ++ intText c.id ++
    (slice [c.x, c.y] 0 dimension).flatMap (fun v => ' ' :: printer.g v) ++ "  0".toList

def regionLine (r : Region) : Text :=
  "r ".toList ++ intText r.id ++ "   ".toList ++ intText r.materialId

/-- `_element`. -/
def elementLine (e : Element) : Text :=
  let fields := [intText e.id, intText e.regionId] ++ e.vertices.map (fun v => intText (v + 1)) ++
    e.neighbors.map (fun n => intText (if n ≥ 0 then n + 1 else n)) ++ e.extra.map intText
  "t ".toList ++ [' '].intercalate fields ++ " ".toList

/-- `_node`. -/
def nodeLine (printer : Printer F) (n : NodeSolution F) : Text :=
  "n ".toList ++ intText n.coordinateIndex ++ "   ".toList ++ intText n.materialId ++ "  ".toList ++
    n.values.flatMap fun v => ' ' :: printer.e v

/-- `_own`. -/
def ownLines (printer : Printer F) (s : Structure F) (tag : Char) : List Text :=
  if tag = 'c' then s.coordinates.map (coordinateLine printer s.dimension)
  else if tag = 'r' then s.regions.map regionLine
  else if tag = 't' then s.elements.map elementLine
  else s.solutions.map (nodeLine printer)

/-- `out`. -/
def writtenLines (printer : Printer F) (s : Structure F) (source : Text) : List Text :=
  order.flatMap fun tag => if tag ∈ owned then ownLines printer s tag else keptLines source tag

/-- `write_structure` (`writer.py:38-61`). -/
def writeStructure (printer : Printer F) (s : Structure F) (source : Text) : Text :=
  (writtenLines printer s source).flatMap fun line => line ++ ['\n']

end TcadWebapp.StrParser
