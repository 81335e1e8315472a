import Mathlib.Algebra.Field.Defs
import Mathlib.Data.List.Range
import TcadWebapp.Misc.Links

/-!
# The direct solver of the simulator

`math/blklu.c` and `math/generate.c`. The map `ia` of a matrix has the heads of its rows in `ia[0]`, …, `ia[n]`, and
from `ia[0] = n + 1` on the columns of the places above the diagonal, row by row. `a` has the diagonal, then the places
below it by columns at the offsets of `ia`, and `aoff` further those above it by rows. `symfac` finds the map `il` of
the factors, which `numfac` fills and `numbac` solves with.
-/

namespace TcadWebapp.Suprem

/-- The offsets of a row. -/
def spanOf (ia : ℕ → ℕ) (row : ℕ) : List ℕ := List.range' (ia row) (ia (row + 1) - ia row)

/-- The columns of a row. -/
def rowOf (ia : ℕ → ℕ) (row : ℕ) : List ℕ := (spanOf ia row).map ia

/-- `ia[cnt++] = col` for one column after the other. -/
def writeAt (ia : ℕ → ℕ) (cnt : ℕ) : List ℕ → ℕ → ℕ
  | [] => ia
  | col :: cols => writeAt (Function.update ia cnt col) (cnt + 1) cols

/-- A row is written, and where it ends. -/
def writeRow (ia : ℕ → ℕ) (row : ℕ) (cols : List ℕ) : ℕ → ℕ :=
  Function.update (writeAt ia (ia row) cols) (row + 1) (ia row + cols.length)

/-- `iaja`. -/
def iaja (ia : ℕ → ℕ) (aoff row col : ℕ) : Option ℕ :=
  if row = col then some row
  else
    let (off, row, col) := if row < col then (aoff, row, col) else (0, col, row)
    ((spanOf ia row).find? fun i => ia i = col).map (· + off)

/-- The place of a matrix with values `a`. -/
def entry {F : Type} [Zero F] (ia : ℕ → ℕ) (aoff : ℕ) (a : ℕ → F) (row col : ℕ) : F :=
  match iaja ia aoff row col with
  | some at_ => a at_
  | none => 0

/-! ## The rows that are to be subtracted -/

/-- `lrow` and `lstr`, with `none` for -1. -/
structure Links where
  lrow : ℕ → Option ℕ
  lstr : ℕ → ℕ

/-- Row `i` is next wanted at the column at `jmin`. -/
def Links.push (il : ℕ → ℕ) (s : Links) (i jmin : ℕ) : Links where
  lrow := pushLink s.lrow i (il jmin)
  lstr := Function.update s.lstr i jmin

/-- Row `k`, which ends at `jmax`, is added to the list of its first neighbor. -/
def Links.enter (il : ℕ → ℕ) (s : Links) (k jmax : ℕ) : Links :=
  if il k < jmax then s.push il k (il k) else { s with lstr := Function.update s.lstr k (il k) }

/-- The loop over the rows that have column `k`, from `nxti` on: `visit` is what it does with a row and the offset of
    `k` in it. More steps than there are rows are an endless loop. -/
def subtract {σ : Type} (il : ℕ → ℕ) (visit : ℕ → ℕ → σ → Option σ) :
    ℕ → Option ℕ → Links → σ → Option (Links × σ)
  | _, none, links, x => some (links, x)
  | 0, some _, _, _ => none
  | fuel + 1, some i, links, x => do
    let nxti := links.lrow i
    let jmin := links.lstr i
    let x ← visit i jmin x
    let links := if il (i + 1) ≤ jmin + 1 then links else links.push il i (jmin + 1)
    subtract il visit fuel nxti links x

/-! ## `symfac` -/

/-- `icol[*aj] = 1` for a row. -/
def setAll (icol : ℕ → Bool) (cols : List ℕ) : ℕ → Bool :=
  cols.foldl (fun icol j => Function.update icol j true) icol

/-- The places of row `k` of the matrix, set in `icol`, and `last_nbr`. Without `sol` the row is that of one long `ia`,
    and the last neighbor is what stands before the end of the row. -/
def iaLocs (ia : ℕ → ℕ) (k : ℕ) (icol : ℕ → Bool) : (ℕ → Bool) × ℕ :=
  (setAll icol (rowOf ia k), ia (ia (k + 1) - 1))

/-- `il`, with the room there is for it, and what the rows are copied from. -/
structure Symbolic where
  il : ℕ → ℕ
  ilmax : ℕ
  links : Links
  icol : ℕ → Bool

/-- A column found goes to `il[ilkp1++]`, if there is room for it. More room is made when ten offsets are left. -/
def copyOut : List ℕ → (ℕ → ℕ) × ℕ × ℕ × (ℕ → Bool) → Option ((ℕ → ℕ) × ℕ × ℕ × (ℕ → Bool))
  | [], s => some s
  | j :: cols, (il, ilmax, ilkp1, icol) =>
    if icol j then
      if ilmax ≤ ilkp1 then none
      else
        let il := Function.update il ilkp1 j
        let ilkp1 := ilkp1 + 1
        let ilmax := if ilmax ≤ ilkp1 + 10 then ilmax * 3 / 2 else ilmax
        copyOut cols (il, ilmax, ilkp1, Function.update icol j false)
    else copyOut cols (il, ilmax, ilkp1, icol)

/-- Row `i`, after its place at `jmin`, is merged into row `k`. -/
def mergeRow (il : ℕ → ℕ) (k i jmin : ℕ) (s : (ℕ → Bool) × ℕ) : Option ((ℕ → Bool) × ℕ) :=
  if il jmin ≠ k then none
  else if il (i + 1) ≤ jmin + 1 then some s
  else
    let (icol, last) := s
    let icol := setAll icol ((List.range' (jmin + 1) (il (i + 1) - (jmin + 1))).map il)
    some (icol, if last < il (il (i + 1) - 1) then il (il (i + 1) - 1) else last)

/-- The loop of `symfac` for one `k`, of `n` rows. `icol` has no place `n`. -/
def symfacRow (n : ℕ) (locs : ℕ → (ℕ → Bool) → (ℕ → Bool) × ℕ) (k : ℕ) (s : Symbolic) : Option Symbolic := do
  let (links, icol, last) ← subtract s.il (mergeRow s.il k) n (s.links.lrow k) s.links (locs k s.icol)
  if n ≤ last then none
  else
    let (il, ilmax, ilkp1, icol) ← copyOut (List.range' (k + 1) (last - k)) (s.il, s.ilmax, s.il k, icol)
    some {
      il := Function.update il (k + 1) ilkp1
      ilmax
      links := links.enter il k ilkp1
      icol := Function.update icol k false }

/-- What `symfac` starts with. -/
def symfacStart (n loff : ℕ) (il : ℕ → ℕ) : Symbolic where
  il := Function.update il 0 (n + 1)
  ilmax := loff
  links := { lrow := fun _ => none, lstr := fun _ => 0 }
  icol := fun _ => false

/-- `symfac`: `il`, the room for it and `loff`. -/
def symfac (n : ℕ) (locs : ℕ → (ℕ → Bool) → (ℕ → Bool) × ℕ) (il : ℕ → ℕ) (loff : ℕ) : Option ((ℕ → ℕ) × ℕ × ℕ) := do
  let s ← (List.range n).foldlM (fun s k => symfacRow n locs k s) (symfacStart n loff il)
  let il := Function.update s.il n (s.il (n - 1))
  some (il, s.ilmax, il n - n - 1)

/-! ## `numfac` and `numbac` -/

section Numbers

variable {F : Type} [Field F] [DecidableEq F]

end Numbers

end TcadWebapp.Suprem
