import Mathlib.Algebra.Order.Floor.Ring
import Mathlib.Algebra.Order.Ring.Abs
import TcadWebapp.Misc.Numerals
import TcadWebapp.Misc.Quarters

/-!
# The shading of a triangle

`frontend/src/plot/shading.ts`: a triangle with a value at each corner is cut into pieces of one colour each.
Numbers are exact.
-/

namespace TcadWebapp.Plotting

structure Corners (F : Type*) where
  a : F × F
  b : F × F
  c : F × F
  deriving DecidableEq, Repr

structure Shard (F : Type*) extends Corners F where
  logValue : F
  deriving DecidableEq, Repr

/-- A corner and the value there. -/
structure Vertex (F : Type*) where
  place : F × F
  value : F
  deriving DecidableEq, Repr

section

variable {F : Type*} [Field F]

attribute [local instance] atLeastTwo_two atLeastTwo_three

/-- `FLOOR`: the value of a corner that has none. -/
def floorValue (F : Type*) [Field F] : F := -30

/-- The middle of a side, with half of either value. -/
def Vertex.mid (p q : Vertex F) : Vertex F :=
  ⟨((p.place.1 + q.place.1) / 2, (p.place.2 + q.place.2) / 2), (p.value + q.value) / 2⟩

/-- What is painted where no part is cut any more. -/
def shard (a b c : Vertex F) : Shard F :=
  ⟨⟨a.place, b.place, c.place⟩, (a.value + b.value + c.value) / 3⟩

variable [LinearOrder F]

def spread (a b c : Vertex F) : F :=
  max (max a.value b.value) c.value - min (min a.value b.value) c.value

/-- `split`, inside of `shadeTriangle`: what it puts into `out`. -/
def split (tolerance : F) : ℕ → Vertex F → Vertex F → Vertex F → List (Shard F)
  | 0, a, b, c => [shard a b c]
  | left + 1, a, b, c =>
    if spread a b c ≤ tolerance then [shard a b c]
    else
      let ab := a.mid b
      let bc := b.mid c
      let ca := c.mid a
      split tolerance left a ab ca ++ split tolerance left ab b bc ++ split tolerance left ca bc c ++
        split tolerance left ab bc ca

variable [FloorRing F]

/-- `Math.max(0, Math.trunc(depth))`. -/
def levels (depth : F) : ℕ := (max 0 (if 0 ≤ depth then ⌊depth⌋ else ⌈depth⌉)).toNat

def shadeTriangle (corners : Corners F) (logValues : List F) (depth tolerance : F) : List (Shard F) :=
  split tolerance (levels depth) ⟨corners.a, logValues[0]?.getD (floorValue F)⟩
    ⟨corners.b, logValues[1]?.getD (floorValue F)⟩ ⟨corners.c, logValues[2]?.getD (floorValue F)⟩

end

end TcadWebapp.Plotting
