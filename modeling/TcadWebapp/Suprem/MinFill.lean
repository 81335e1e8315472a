import Mathlib.Data.Int.Order.Basic
import TcadWebapp.Suprem.Sparse

/-!
# The minimum fill ordering

`min_ia_fill` of `math/min_fill.c` for two dimensions, with the pool of `docker/suprem/patches/0001`, where a link stays
where it is. `ia` has all the neighbors of a node, itself included.
-/

namespace TcadWebapp.Suprem

/-- The lists of the neighbors, their lengths, and the mask for unions. -/
structure Neighbors where
  nbrs : ℕ → List ℕ
  v : ℕ → ℤ
  mask : ℕ → Bool
  obestn : ℤ

/-- What the elimination has come to. `remaining` counts up to `nremain`. -/
structure MinFill where
  near : Neighbors
  remaining : ℕ → ℕ
  nremain : ℕ
  besti : ℕ
  total : ℤ
  reorder : ℕ → ℕ

/-- The node most wanting elimination: the scan stops at the first that has no more neighbors than any can have. -/
def scan (s : Neighbors) (remaining : ℕ → ℕ) : List ℕ → ℤ × ℕ → ℤ × ℕ
  | [], best => best
  | i :: rest, (bestn, besti) =>
    let nnb := s.v (remaining i)
    if nnb < bestn then
      if nnb ≤ s.obestn then (nnb, i) else scan s remaining rest (nnb, i)
    else scan s remaining rest (bestn, besti)

/-- The neighbors of `best` that a node does not have are stuffed in front of its own. -/
def stuff (mask : ℕ → Bool) (bestl : List ℕ) (s : List ℕ × ℤ) : List ℕ × ℤ :=
  bestl.foldl (fun (workl, v) q => if mask q then (workl, v) else (q :: workl, v + 1)) s

/-- `best` is taken out of the list of `work`, and its neighbors come in. -/
def eliminate (best : ℕ) (s : Neighbors) (work : ℕ) : Neighbors :=
  if work = best then s
  else
    let mask := setAll s.mask (s.nbrs work)
    let (workl, v) := stuff mask (s.nbrs best) ((s.nbrs work).erase best, s.v work - 1)
    let mask := workl.foldl (fun mask q => Function.update mask q false) (Function.update mask best false)
    { nbrs := Function.update s.nbrs work workl
      v := Function.update s.v work v
      mask
      obestn := if v < s.obestn then v else s.obestn }

/-- A step of the elimination, for `nn` nodes. -/
def minStep (nn : ℕ) (s : MinFill) (step : ℕ) : MinFill :=
  let (bestn, besti) := scan s.near s.remaining (List.range s.nremain) (nn + 1, s.besti)
  let best := s.remaining besti
  let bestl := s.near.nbrs best
  let near := bestl.foldl (eliminate best) { s.near with obestn := bestn }
  { near := { near with nbrs := Function.update near.nbrs best [] }
    remaining := Function.update s.remaining besti (s.remaining (s.nremain - 1))
    nremain := s.nremain - 1
    besti
    total := s.total + bestl.length
    reorder := Function.update s.reorder best step }

/-- What it starts with. A row is pushed on the list one by one. -/
def minStart (ia reorder : ℕ → ℕ) : MinFill where
  near := {
    nbrs := fun i => (rowOf ia i).reverse
    v := fun i => (ia (i + 1) : ℤ) - ia i
    mask := fun _ => false
    obestn := -1 }
  remaining := id
  nremain := ia 0 - 1
  besti := 0
  total := 0
  reorder

/-- `min_ia_fill`: the order and the size of the strict upper triangle, if the self protection passes. -/
def minIaFill (ia reorder : ℕ → ℕ) : Option ((ℕ → ℕ) × ℤ) :=
  let nn := ia 0 - 1
  let s := (List.range nn).foldl (minStep nn) (minStart ia reorder)
  let mask := (List.range nn).foldl (fun mask i => Function.update mask (s.reorder i) (mask (s.reorder i) + 1))
    fun i => if s.near.mask i then 1 else 0
  if (List.range nn).all fun i => mask i = 1 then some (s.reorder, s.total - nn) else none

end TcadWebapp.Suprem
