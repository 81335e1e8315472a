import Mathlib.Algebra.Order.Field.Basic
import TcadWebapp.Misc.Lts
import TcadWebapp.Misc.Numerals

/-!
# The view of a chart

`frontend/src/plot/zoom.ts`: the part of the depth axis that is shown, and what the user does with it. Numbers
are exact.
-/

namespace TcadWebapp.Plotting

structure View (F : Type*) where
  from_ : F
  to_ : F
  deriving DecidableEq, Repr

section

variable {F : Type*} [Field F]

def View.span (view : View F) : F := view.to_ - view.from_

/-- `MIN_SPAN_RATIO`. -/
def minSpanRatio (F : Type*) [Field F] : F := 1 / 10 ^ 4

variable [LinearOrder F]

/-- `clamp`, which `clampView` exports. -/
def clamp (view full : View F) : View F :=
  let span := min view.span full.span
  let start := if view.from_ < full.from_ then full.from_ else view.from_
  let start := if full.to_ < start + span then full.to_ - span else start
  ⟨start, start + span⟩

attribute [local instance] atLeastTwo_two

/-- What `zoomAround` passes to `clamp`. -/
def zoomed (view full : View F) (factor at_ : F) : View F :=
  let next := min full.span (max (full.span * minSpanRatio F) (view.span * factor))
  let ratio := if 0 < view.span then (at_ - view.from_) / view.span else 1 / 2
  ⟨at_ - ratio * next, at_ - ratio * next + next⟩

def zoomAround (view full : View F) (factor at_ : F) : View F :=
  if ¬ 0 < full.span then view else clamp (zoomed view full factor at_) full

def panBy (view full : View F) (delta : F) : View F := clamp ⟨view.from_ + delta, view.to_ + delta⟩ full

def resetView (full : View F) : View F := full

/-- What the user does: turns the wheel, drags, or clicks on the button. -/
inductive Gesture (F : Type*) where
  | zoom (factor at_ : F)
  | pan (delta : F)
  | reset
  deriving DecidableEq, Repr

/-- A chart that first shows the full range. -/
def viewing (full : View F) : Lts (View F) (Gesture F) where
  start view := view = full
  step view
    | .zoom factor at_ => if 0 < factor then some (zoomAround view full factor at_) else none
    | .pan delta => some (panBy view full delta)
    | .reset => some (resetView full)

end

end TcadWebapp.Plotting
