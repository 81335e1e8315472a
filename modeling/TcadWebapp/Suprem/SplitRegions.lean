import Mathlib.Algebra.BigOperators.Fin
import TcadWebapp.Misc.Flood

/-!
# Regions of several pieces

`docker/suprem/patches/0011-split-disconnected-regions.patch`: each further piece of a region becomes a region of its
own. Of the simulator's mesh there is what `split_disc_reg` reads and writes.
-/

namespace TcadWebapp.Suprem

/-! ## The mesh -/

/-- What the headers of the simulator define: `MAXREG`, and the bit of the flags that `dead_tri` and `dead_reg` read. -/
class Header where
  maxReg : ℕ
  killMe : ℕ

variable [Header]

structure Region where
  mater : ℤ
  flags : ℕ
  deriving DecidableEq, Repr

/-- `dead_reg`. -/
def Region.dead (region : Region) : Bool := region.flags.testBit Header.killMe

/-- An element of three nodes. -/
structure Tri where
  nd : Fin 3 → ℕ
  distinct : Function.Injective nd
  regnum : ℕ
  flags : ℕ

/-- `dead_tri`. -/
def Tri.dead (tri : Tri) : Bool := tri.flags.testBit Header.killMe

inductive Mode where
  | oneD
  | twoD
  deriving DecidableEq, Repr

structure Mesh (ne : ℕ) where
  mode : Mode
  tri : Fin ne → Tri
  reg : List Region

variable {ne : ℕ}

/-- `mk_reg`; the number of the region is how many there were. -/
def mkReg (reg : List Region) (mat : ℤ) : List Region := reg ++ [⟨mat, 0⟩]

/-! ## From nodes to triangles -/

/-- A live triangle is put in front of the chains of its nodes. -/
def enter (tri : Fin ne → Tri) (head : ℕ → List (Fin ne)) (t : Fin ne) : ℕ → List (Fin ne) :=
  if (tri t).dead then head
  else (List.finRange 3).foldl (fun head i => Function.update head ((tri t).nd i) (t :: head ((tri t).nd i))) head

/-- `head` and `next`: the triangles of each node. -/
def chains (tri : Fin ne → Tri) : ℕ → List (Fin ne) := (List.finRange ne).foldl (enter tri) fun _ => []

/-- How many nodes two triangles share, counted in pairs of corners. -/
def shared (a b : Tri) : ℕ := ∑ j, ∑ m, if a.nd j = b.nd m then 1 else 0

/-- What the loops over the corners of `t` and their chains come across. -/
def offers (head : ℕ → List (Fin ne)) (tri : Fin ne → Tri) (t : Fin ne) : List (Fin ne) :=
  (List.finRange 3).flatMap fun i => head ((tri t).nd i)

/-- `u` is of the region and next to `t`. -/
def joins (tri : Fin ne → Tri) (r : ℕ) (t u : Fin ne) : Bool := (tri u).regnum = r && 2 ≤ shared (tri t) (tri u)

/-! ## The pieces -/

/-- What `split_disc_reg` writes; `warned` when the limit of the regions was met. -/
structure Split (ne : ℕ) where
  tri : Fin ne → Tri
  reg : List Region
  comp : Fin ne → Option ℕ
  made : ℕ
  warned : Bool

/-- A region for the members, like the one they come from. -/
def Split.part (s : Split ne) (r : ℕ) (memb : List (Fin ne)) : Split ne :=
  if Header.maxReg < s.reg.length + 1 then { s with warned := true }
  else
    let newr := s.reg.length
    let from_ := s.reg.getD r ⟨0, 0⟩
    { s with
      reg := (mkReg s.reg from_.mater).modify newr fun region => { region with flags := from_.flags }
      tri := fun t => if t ∈ memb then { s.tri t with regnum := newr } else s.tri t
      made := s.made + 1 }

/-- The loop over the seeds, with the number of the pieces that have been found. -/
def splitSeed (head : ℕ → List (Fin ne)) (r : ℕ) (state : Split ne × ℕ) (seed : Fin ne) : Split ne × ℕ :=
  let (s, c) := state
  if (s.tri seed).dead ∨ (s.comp seed).isSome then (s, c)
  else if (s.tri seed).regnum ≠ r then (s, c)
  else
    let piece := Flood.run (offers head s.tri) (joins s.tri r) c ne (Flood.start c s.comp seed)
    let s := { s with comp := piece.comp }
    -- the first piece stays where it is
    (if 0 < c then s.part r piece.memb else s, c + 1)

/-- The loop over the regions. -/
def splitRegion (head : ℕ → List (Fin ne)) (s : Split ne) (r : ℕ) : Split ne :=
  if (s.reg.getD r ⟨0, 0⟩).dead then s
  else ((List.finRange ne).foldl (splitSeed head r) (s, 0)).1

/-- `split_disc_reg`: the mesh, the regions added, and whether some piece could not be given one. -/
def splitDiscReg (mesh : Mesh ne) : Mesh ne × ℕ × Bool :=
  if mesh.mode ≠ .twoD then (mesh, 0, false)
  else
    let s := (List.range mesh.reg.length).foldl (splitRegion (chains mesh.tri))
      { tri := mesh.tri, reg := mesh.reg, comp := fun _ => none, made := 0, warned := false }
    ({ mesh with tri := s.tri, reg := s.reg }, s.made, s.warned)

end TcadWebapp.Suprem
