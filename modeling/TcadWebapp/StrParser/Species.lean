import TcadWebapp.StrParser.Models

/-!
# The columns of a structure file

`str_parser/species.py`: what the codes of the `s` line stand for. The elements and the flag of
active species are left out; the positions of donors and acceptors are read off the roles.
-/

namespace TcadWebapp.StrParser

inductive DopantRole where
  | donor
  | acceptor
  deriving DecidableEq, Repr

structure Species where
  code : Int
  name : String
  dopantRole : Option DopantRole
  isKnown : Bool
  deriving DecidableEq, Repr

/-- `_dopant_pair`; the role is the active code's, 18 above. -/
def dopantPair (code : Int) (element : String) (role : DopantRole) : List Species :=
  [⟨code, "chem_" ++ element, none, true⟩, ⟨code + 18, "active_" ++ element, some role, true⟩]

/-- `_plain_pair`. -/
def plainPair (code : Int) (element : String) : List Species :=
  [⟨code, "chem_" ++ element, none, true⟩, ⟨code + 1, "active_" ++ element, none, true⟩]

/-- `_DEFECTS_AND_FIELDS`. -/
def defectsAndFields : List Species :=
  ([(0, "vacancies"), (1, "interstitials"), (6, "electrons"), (7, "holes"), (8, "x_velocity"),
    (9, "y_velocity"), (10, "oxidant_dry"), (11, "oxidant_wet"), (12, "interstitial_traps"),
    (13, "gold"), (14, "potential"), (15, "stress_xx"), (16, "stress_yy"), (17, "stress_xy"),
    (18, "cesium"), (19, "delta_interface_area"), (24, "poly_grain_size"), (25, "ptype_tracer"),
    (26, "circuit")] : List (Int × String)).map fun field => ⟨field.1, field.2, none, true⟩

/-- `_SPECIES_BY_CODE` (`species.py:110-129`). -/
def speciesByCode : List Species :=
  defectsAndFields ++ dopantPair 2 "arsenic" .donor ++ dopantPair 3 "phosphorus" .donor ++
    dopantPair 4 "antimony" .donor ++ dopantPair 5 "boron" .acceptor ++
    plainPair 31 "beryllium" ++ plainPair 33 "magnesium" ++ plainPair 35 "selenium" ++
    plainPair 37 "isilicon" ++ plainPair 39 "tin" ++ plainPair 41 "germanium" ++
    plainPair 43 "zinc" ++ plainPair 45 "carbon" ++ plainPair 47 "generic"

/-- `resolve_species`. -/
def resolveSpecies (code : Int) : Species :=
  (speciesByCode.find? (·.code = code)).getD
    ⟨code, "unknown_" ++ toString code, none, false⟩

/-- `build_species_table`, as the list of its columns. -/
def speciesTable (codes : List Int) : List Species := codes.map resolveSpecies

end TcadWebapp.StrParser
