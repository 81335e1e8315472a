import Mathlib.Data.List.Sort
import Mathlib.Data.Prod.Lex
import TcadWebapp.Misc.Dict
import TcadWebapp.Misc.Text

/-!
# The curves of a data set and their figures

`seriesOf` and `figuresOf` of `features/devsim/figures.ts`. `F` are the finite numbers in their
order; what the operations make of them is left open but for what is relied on.
-/

namespace TcadWebapp.Devsim

/-- The arithmetic of the page, and how it writes numbers. -/
structure JsNumbers (F : Type) [Zero F] where
  add : F → F → F
  sub : F → F → F
  mul : F → F → F
  div : F → F → F
  abs : F → F
  log10 : F → F
  one : F
  two : F
  tenth : F
  thousand : F
  million : F
  /-- As in `JSON.stringify`. -/
  text : F → Text
  /-- `formatVolts`, without the unit. -/
  volts : F → Text
  sub_eq_zero : ∀ a b, sub a b = 0 ↔ a = b
  two_ne_zero : two ≠ 0
  text_inj : ∀ a b, text a = text b → a = b
  /-- A number is written with neither of the characters that may follow it. -/
  text_plain : ∀ a, ',' ∉ text a ∧ '}' ∉ text a

/-! ## The data -/

structure IvRow (F : Type) where
  sweep : F
  steps : Dict String F
  currents : Dict String F
  voltages : Option (Dict String F)

/-- What `seriesOf` reads of a data set. -/
structure IvDataset (F : Type) where
  currentUnit : String
  rows : List (IvRow F)

structure Point (F : Type) where
  x : F
  y : F
  deriving DecidableEq, Repr

structure Series (F : Type) where
  label : Text
  steps : Dict String F
  points : List (Point F)
  deriving DecidableEq

inductive SeriesKind where
  | current
  | voltage
  deriving DecidableEq, Repr

structure Figures (F : Type) where
  iOn : F
  iOff : Option F
  onOff : Option F
  gmMax : Option F
  vth : Option F
  ss : Option F
  ron : Option F
  deriving DecidableEq, Repr

section Curves

variable {F : Type} [Zero F] [LinearOrder F] (js : JsNumbers F)

/-! ## The curves -/

def toMicroAmps (value : F) (unit : String) : F :=
  if unit = "A/um" then js.mul value js.million else value

/-- A string in quotes. -/
def quote (s : String) : Text :=
  '"' :: s.toList.flatMap (fun c => if c = '"' ∨ c = '\\' then ['\\', c] else [c]) ++ ['"']

/-- The entries of an object, up to its end. -/
def stringifyEntries : List (String × F) → Text
  | [] => ['}']
  | [entry] => quote entry.1 ++ ':' :: js.text entry.2 ++ ['}']
  | entry :: entries => quote entry.1 ++ ':' :: js.text entry.2 ++ ',' :: stringifyEntries entries

/-- `JSON.stringify(row.steps)`; the names have no control characters. -/
def stepsKey (row : IvRow F) : Text := '{' :: stringifyEntries js row.steps.entries

/-- The point of a row. -/
def pointOf (dataset : IvDataset F) (bias : String) (kind : SeriesKind) (row : IvRow F) : Point F where
  x := row.sweep
  y :=
    match kind with
    | .voltage => ((row.voltages.bind fun voltages => voltages.get? bias)).getD 0
    | .current => toMicroAmps js ((row.currents.get? bias).getD 0) dataset.currentUnit

/-- The legend of the curve that a row begins. -/
def labelOf (row : IvRow F) : Text :=
  [',', ' '].intercalate (row.steps.entries.map fun entry =>
    entry.1.toList ++ '=' :: js.volts entry.2 ++ ['V'])

/-- A row goes to its curve, which it may begin. -/
def withRow (dataset : IvDataset F) (bias : String) (kind : SeriesKind) (row : IvRow F)
    (there : Option (Series F)) : Series F :=
  let series := there.getD ⟨labelOf js row, row.steps, []⟩
  { series with points := series.points ++ [pointOf js dataset bias kind row] }

/-- `grouped`: the curves in the order of their first rows. -/
def grouped (dataset : IvDataset F) (bias : String) (kind : SeriesKind) : Dict Text (Series F) :=
  dataset.rows.foldl (fun d row => d.alter (stepsKey js row) (withRow js dataset bias kind row)) ∅

/-- `series.points.sort((a, b) => a.x - b.x)`. -/
def Series.sorted (series : Series F) : Series F :=
  { series with points := series.points.insertionSort fun p q => p.x ≤ q.x }

def seriesOf (dataset : IvDataset F) (bias : String) (kind : SeriesKind) : List (Series F) :=
  (grouped js dataset bias kind).entries.map fun entry => entry.2.sorted

/-! ## The figures -/

/-- What must not happen: an exception, or a division by zero, with which JavaScript would go on. -/
inductive Fault where
  | typeError
  | zeroDivision
  deriving DecidableEq, Repr

def divide (a b : F) : Except Fault F := if b = 0 then .error .zeroDivision else .ok (js.div a b)

/-- An entry of `slopes`. -/
structure Slope (F : Type) where
  x : F
  y : F
  slope : F
  deriving DecidableEq, Repr

def slopes : List (Point F) → Except Fault (List (Slope F))
  | p :: q :: rest =>
    let dx := js.sub q.x p.x
    if dx = 0 then slopes (q :: rest)
    else do
      let x ← divide js (js.add q.x p.x) js.two
      let y ← divide js (js.add (js.abs q.y) (js.abs p.y)) js.two
      let slope ← divide js (js.sub (js.abs q.y) (js.abs p.y)) dx
      let later ← slopes (q :: rest)
      .ok (⟨x, y, slope⟩ :: later)
  | _ => .ok []

/-- The loop of `subthresholdSwing`. -/
def swingFrom (iOn : F) : Option F → List (Point F) → Except Fault (Option F)
  | best, p :: q :: rest =>
    let low := js.abs p.y
    let high := js.abs q.y
    if low ≤ 0 ∨ high ≤ 0 ∨ high ≤ low then swingFrom iOn best (q :: rest)
    else if js.mul iOn js.tenth < high then swingFrom iOn best (q :: rest)
    else do
      let ratio ← divide js high low
      let decades := js.log10 ratio
      if decades ≤ 0 then swingFrom iOn best (q :: rest)
      else do
        let step ← divide js (js.sub q.x p.x) decades
        let swing := js.mul step js.thousand
        swingFrom iOn (if best.all (swing < ·) then some swing else best) (q :: rest)
  | best, _ => .ok best

def subthresholdSwing (points : List (Point F)) (iOn : F) : Except Fault (Option F) :=
  swingFrom js iOn none points

/-- `derivative.reduce((a, b) => …)`, which has no value to begin with. -/
def peakOf : List (Slope F) → Except Fault (Slope F)
  | [] => .error .typeError
  | first :: rest => .ok (rest.foldl (fun a b => if a.slope < b.slope then b else a) first)

/-- The least positive current. -/
def iOffOf (magnitudes : List F) : Option F :=
  match magnitudes.filter fun value => 0 < value with
  | [] => none
  | low :: others => some (others.foldl min low)

/-- `iOff && iOn > 0 ? iOn / iOff : null`. -/
def onOffOf (iOn : F) (iOff : Option F) : Except Fault (Option F) :=
  match iOff with
  | none => .ok none
  | some low => if low ≠ 0 ∧ 0 < iOn then (divide js iOn low).map some else .ok none

/-- `gmMax ? peak.x - peak.y / gmMax : null`. -/
def vthOf (peak : Slope F) (gmMax : Option F) : Except Fault (Option F) :=
  match gmMax with
  | none => .ok none
  | some gm => if gm ≠ 0 then (divide js peak.y gm).map fun back => some (js.sub peak.x back) else .ok none

/-- `first && first.slope > 0 ? 1 / first.slope : null`. -/
def ronOf (first : Option (Slope F)) : Except Fault (Option F) :=
  match first with
  | none => .ok none
  | some first => if 0 < first.slope then (divide js js.one first.slope).map some else .ok none

def figuresOf (series : Series F) : Except Fault (Figures F) :=
  match series.points.map fun p => js.abs p.y with
  | [] => .ok ⟨0, none, none, none, none, none, none⟩
  | first :: rest => do
    let iOn := rest.foldl max first
    let iOff := iOffOf (first :: rest)
    let onOff ← onOffOf js iOn iOff
    if series.points.length < 3 then .ok ⟨iOn, iOff, onOff, none, none, none, none⟩
    else do
      let derivative ← slopes js series.points
      let peak ← peakOf derivative
      let gmMax := if 0 < peak.slope then some peak.slope else none
      let vth ← vthOf js peak gmMax
      let ss ← subthresholdSwing js series.points iOn
      let ron ← ronOf js derivative.head?
      .ok ⟨iOn, iOff, onOff, gmMax, vth, ss, ron⟩

end Curves

end TcadWebapp.Devsim
