import TcadWebapp.Misc.Marks
import TcadWebapp.Misc.Numerals
import TcadWebapp.Suprem.SplitRegions

/-!
# The marks before an etch

`docker/suprem/patches/0005-element-based-etch.patch`: before `etch_elem_pass` cuts the elements along the polygon it
moves points that are too near the polygon to its other side, in passes over the edges and the elements.
-/

namespace TcadWebapp.Suprem

/-! ## Numbers -/

/-- What C does with its numbers. -/
class Arith (F : Type) extends Add F, Sub F, Mul F, Div F, Neg F, BEq F, LT F, LE F, OfScientific F where
  decidableLT : DecidableLT F
  decidableLE : DecidableLE F

instance Arith.instDecidableLT {F : Type} [Arith F] : DecidableLT F := Arith.decidableLT

instance Arith.instDecidableLE {F : Type} [Arith F] : DecidableLE F := Arith.decidableLE

/-- `S` are the values of `float` and `D` those of `double`. -/
structure Machine (S D : Type) where
  double : S → D
  float : D → S
  fabs : D → D
  hypot : D → D → D

variable {S D : Type} [Arith S] [Arith D]

/-! ## The polygon -/

/-- `p` and `nump`. -/
structure Poly (S : Type) where
  px : ℕ → S
  py : ℕ → S
  nump : ℕ

/-- `seg_cross`: the parameter on the segment from `a` to `b`. -/
def segCross (a b c d : D × D) : Option D :=
  let rx := b.1 - a.1
  let ry := b.2 - a.2
  let sx := d.1 - c.1
  let sy := d.2 - c.2
  let den := rx * sy - ry * sx
  if den == 0.0 then none
  else
    let tt := ((c.1 - a.1) * sy - (c.2 - a.2) * sx) / den
    let uu := ((c.1 - a.1) * ry - (c.2 - a.2) * rx) / den
    if tt < 0.0 ∨ 1.0 < tt ∨ uu < 0.0 ∨ 1.0 < uu then none
    else some tt

/-! ## The mesh -/

/-- The points, the edges by their two points, and the elements. -/
structure EtchMesh (S : Type) (np ned ne : ℕ) where
  mode : Mode
  cordinate : Fin np → S × S
  ptEdg : Fin ned → Fin 2 → Fin np
  eleEdg : Fin ned → List (Fin ne)
  edgEle : Fin ne → List ℤ
  regTri : Fin ne → ℕ
  deadTri : Fin ne → Bool

variable {np ned ne : ℕ}

/-- `cut_str`. -/
structure Cut (S D : Type) (np : ℕ) where
  pin : Fin np
  pout : Fin np
  t : D
  c : S × S

def Machine.point (m : Machine S D) (mesh : EtchMesh S np ned ne) (i : Fin np) : D × D :=
  (m.double (mesh.cordinate i).1, m.double (mesh.cordinate i).2)

attribute [local instance] neZero_two

/-- `edge_cut`. -/
def edgeCut (m : Machine S D) (mesh : EtchMesh S np ned ne) (p : Poly S) (gone : Fin np → Bool) (e : Fin ned) :
    Option (Cut S D np) :=
  let a := mesh.ptEdg e 0
  let b := mesh.ptEdg e 1
  if gone a = gone b then none
  else
    -- `a` is the one inside
    let (a, b) := if gone a then (a, b) else (b, a)
    let best := (List.range p.nump).foldl
      (fun best j =>
        let i := (j + 1) % p.nump
        match segCross (m.point mesh a) (m.point mesh b) (m.double (p.px j), m.double (p.py j))
            (m.double (p.px i), m.double (p.py i)) with
        | none => best
        | some at_ => if best < at_ then at_ else best)
      (-1.0)
    if best < 0.0 then none
    else
      let (ax, ay) := mesh.cordinate a
      let (bx, by_) := mesh.cordinate b
      some ⟨a, b, best, (m.float (m.double ax + best * m.double (bx - ax)),
        m.float (m.double ay + best * m.double (by_ - ay)))⟩

/-- `tri_qual`: the area over the square of the longest side. -/
def triQual (m : Machine S D) (a b c : D × D) : D :=
  let area := m.fabs ((b.1 - a.1) * (c.2 - a.2) - (c.1 - a.1) * (b.2 - a.2)) * 0.5
  let l1 := (b.1 - a.1) * (b.1 - a.1) + (b.2 - a.2) * (b.2 - a.2)
  let l2 := (c.1 - b.1) * (c.1 - b.1) + (c.2 - b.2) * (c.2 - b.2)
  let l3 := (a.1 - c.1) * (a.1 - c.1) + (a.2 - c.2) * (a.2 - c.2)
  let lm := if l2 < l1 then l1 else l2
  let lm := if lm < l3 then l3 else lm
  if lm ≤ 0.0 then 0.0 else area / lm

/-! ## One pass -/

/-- `SNAP_DIST`. -/
def snapDist : D := 4.0 * 2.5e-8

/-- `SNAP_OF`, with `SNAP_FRAC`. -/
def snapOf (elen : D) : D := if snapDist < 0.02 * elen then 0.02 * elen else snapDist

/-- `QUAL_MIN`. -/
def qualMin : D := 1.0e-3

/-- The length of the edge of a cut. -/
def Cut.elen (m : Machine S D) (mesh : EtchMesh S np ned ne) (cut : Cut S D np) : D :=
  m.hypot (m.double ((mesh.cordinate cut.pout).1 - (mesh.cordinate cut.pin).1))
    (m.double ((mesh.cordinate cut.pout).2 - (mesh.cordinate cut.pin).2))

/-- The cut of an edge, if the edge is one of an element to be treated. `ctab` is this for the marks before the pass; as
    there are at most `ned` cuts, `maxcut` is never reached. -/
def cutOf (m : Machine S D) (mesh : EtchMesh S np ned ne) (p : Poly S) (doreg : ℕ → Bool) (gone : Fin np → Bool)
    (e : Fin ned) : Option (Cut S D np) :=
  if (mesh.eleEdg e).any fun t => doreg (mesh.regTri t) then edgeCut m mesh p gone e else none

/-- A cut that is too near one of its ends is taken away by moving this end. -/
def snapEnd (m : Machine S D) (mesh : EtchMesh S np ned ne) (s : Marks (Fin np)) (cut : Cut S D np) : Marks (Fin np) :=
  let elen := cut.elen m mesh
  if cut.t * elen < snapOf elen then
    if s.gone cut.pin then s.set cut.pin false else s
  else if (1.0 - cut.t) * elen < snapOf elen then
    if !s.gone cut.pout then s.set cut.pout true else s
  else s

/-- The pairs of a list, in the order of two nested loops. -/
def pairs {α : Type} : List α → List (α × α)
  | [] => []
  | a :: rest => (rest.map fun b => (a, b)) ++ pairs rest

/-- The point that two edges have in common. -/
def cornerOf (mesh : EtchMesh S np ned ne) (e f : Fin ned) : Option (Fin np) :=
  if mesh.ptEdg f 0 = mesh.ptEdg e 0 ∨ mesh.ptEdg f 0 = mesh.ptEdg e 1 then some (mesh.ptEdg f 0)
  else if mesh.ptEdg f 1 = mesh.ptEdg e 0 ∨ mesh.ptEdg f 1 = mesh.ptEdg e 1 then some (mesh.ptEdg f 1)
  else none

/-- The corner of an element at which the cuts leave the flattest piece, if it is too flat. -/
def flatCorner (m : Machine S D) (mesh : EtchMesh S np ned ne) (doreg : ℕ → Bool)
    (ctab : Fin ned → Option (Cut S D np)) (t : Fin ne) : Option (Fin np) :=
  if mesh.deadTri t then none
  else if !doreg (mesh.regTri t) then none
  else
    let fe := (mesh.edgEle t).filterMap fun e =>
      if within : 0 ≤ e ∧ e.toNat < ned then (ctab ⟨e.toNat, within.2⟩).map fun cut => (⟨e.toNat, within.2⟩, cut) else none
    if fe.length < 2 then none
    else
      let (worstq, worstv) := (pairs fe).foldl
        (fun (worstq, worstv) (k, l) =>
          match cornerOf mesh k.1 l.1 with
          | none => (worstq, worstv)
          | some vv =>
            let q := triQual m (m.point mesh vv) (m.double k.2.c.1, m.double k.2.c.2) (m.double l.2.c.1, m.double l.2.c.2)
            if q < worstq then (q, some vv) else (worstq, worstv))
        ((1.0e30 : D), none)
      if worstq < qualMin then worstv else none

end TcadWebapp.Suprem
