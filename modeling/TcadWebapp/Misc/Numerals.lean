import Mathlib.Algebra.GroupWithZero.Nat
import Mathlib.Data.Nat.Cast.Defs

/-!
# Numerals

A numeral of a field or of `Fin n` rests on a fact about its value. Here the facts have names, for the modules
that use them as local instances, so that no definition carries a proof of its own.
-/

namespace TcadWebapp

theorem atLeastTwo_two : Nat.AtLeastTwo 2 := inferInstance

theorem atLeastTwo_three : Nat.AtLeastTwo 3 := inferInstance

theorem atLeastTwo_ten : Nat.AtLeastTwo 10 := inferInstance

theorem neZero_two : NeZero 2 := inferInstance

theorem neZero_three : NeZero 3 := inferInstance

end TcadWebapp
