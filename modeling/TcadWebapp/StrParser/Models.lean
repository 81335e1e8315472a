import Mathlib.Data.Rat.Defs
import TcadWebapp.Misc.Dict

/-!
# The contents of a structure file

`str_parser/models.py` and `str_parser/materials.py`. Indices are integers, as the files have
them: nothing in a file keeps them in range. `F` are the floats.
-/

namespace TcadWebapp.StrParser

/-- A `c` line. -/
structure Coordinate (F : Type) where
  id : Int
  x : F
  y : F
  deriving DecidableEq, Repr

/-- An `r` line. -/
structure Region where
  id : Int
  materialId : Int
  material : String
  deriving DecidableEq, Repr

/-- A `t` line. -/
structure Element where
  id : Int
  regionId : Int
  /-- 0-based indices of coordinates. -/
  vertices : List Int
  /-- From 0 on an index of an element, below a boundary code. -/
  neighbors : List Int
  extra : List Int
  deriving DecidableEq, Repr

/-- An `n` line. -/
structure NodeSolution (F : Type) where
  coordinateIndex : Int
  materialId : Int
  material : String
  values : List F
  deriving DecidableEq, Repr

structure Structure (F : Type) where
  version : String
  dimension : Int
  verticesPerElement : Int
  neighborsPerElement : Int
  coordinates : List (Coordinate F)
  regions : List Region
  elements : List Element
  solutions : List (NodeSolution F)
  /-- The codes of the `s` line, from which the table is built. -/
  species : List Int
  temperature : Option F
  warnings : List String
  deriving DecidableEq, Repr

/-- `_MATERIAL_NAMES` (`materials.py:24-37`). -/
def materialNames : List (Int × String) :=
  [(0, "ambient"), (1, "oxide"), (2, "nitride"), (3, "silicon"), (4, "poly"), (5, "oxynitride"),
    (6, "aluminum"), (7, "photoresist"), (8, "gaas")]

/-- `resolve_material`. -/
def resolveMaterial (id : Int) : String := (materialNames.lookup id).getD ("unknown_" ++ toString id)

/-- `is_known_material`. -/
def isKnownMaterial (id : Int) : Bool := (materialNames.lookup id).isSome

/-- `_material_of_region` (`electrodes.py:124-125`), of which there are several copies. -/
def Structure.materialOfRegion {F : Type} (s : Structure F) : Dict Int String :=
  Dict.ofList (s.regions.map fun region => (region.id, region.material))

end TcadWebapp.StrParser
