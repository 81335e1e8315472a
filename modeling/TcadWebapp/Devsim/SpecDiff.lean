import TcadWebapp.Devsim.ClientSpec
import TcadWebapp.Misc.Text

/-!
# What the runs of a comparison differ in

`features/devsim/specDiff.ts`: a specification as fields with texts, and the fields in which the
runs that are compared differ. The label of a run is not read. The names of interfaces are sorted
as strings; those of the server are ASCII, where this is the order of `sort`.
-/

namespace TcadWebapp.Devsim

/-- How the page writes numbers. -/
structure NumberText where
  /-- `${value}`. -/
  text : Rat → Text
  /-- `Number(value.toPrecision(4))`. -/
  toPrecision : Rat → Rat
  text_inj : ∀ u v, text u = text v → u = v
  text_plain : ∀ v, ∀ c ∈ text v, c.isDigit ∨ c ∈ ['.', '-', '+', 'e']

structure DiffRow where
  field : Text
  /-- The values in the order of the runs. -/
  values : List Text
  deriving DecidableEq

/-- `Compared`, without the label. -/
structure Compared where
  structureName : String
  spec : ClientSpec

/-- `sweepGap` (`deviceSpec.ts:40-43`). -/
def sweepGap (start stop : Volt) (points : Rat) : Rat :=
  if points ≤ 1 then 0 else (stop - start) / (points - 1)

section

variable (numbers : NumberText)

def formatSweep (bias : ClientBias) : Text :=
  match bias.role with
  | .const => numbers.text (bias.value.toOption.getD 0) ++ " V 고정".toList
  | .step => ", ".toList.intercalate (bias.given.map numbers.text) ++ " V 단계".toList
  | _ => match bias.sweep.toOption with
    | none => "스윕".toList
    | some sweep =>
      let gap := sweepGap sweep.start sweep.stop sweep.points
      numbers.text sweep.start ++ " → ".toList ++ numbers.text sweep.stop ++ " V, ".toList ++
        numbers.text sweep.points ++ "점 (".toList ++ numbers.text (numbers.toPrecision |gap|) ++
        "V 간격)".toList

/-- `[...electrode.interfaces].sort().join(' + ') || '계면 없음'`. -/
def formatInterfaces (choice : ElectrodeChoice) : Text :=
  let joined := " + ".toList.intercalate
    ((choice.interfaces.insertionSort (· ≤ ·)).map String.toList)
  if joined = [] then "계면 없음".toList else joined

def ClientSpec.describe (spec : ClientSpec) : Dict Text Text :=
  Dict.ofList ([
    ("폴리 게이트".toList,
      if spec.gateModel = .value .conductor then "이상 도체".toList else "반도체".toList),
    ("온도".toList, numbers.text (spec.temperatureK.toOption.getD 300) ++ " K".toList)] ++
    spec.electrodes.map (fun electrode =>
      ("전극 ".toList ++ electrode.label.toList, formatInterfaces electrode)) ++
    spec.biases.map fun bias =>
      ("전압원 ".toList ++ bias.name.toList,
        bias.electrode.toList ++ " · ".toList ++ formatSweep numbers bias))

/-- `diffOf` (`specDiff.ts:60-79`). -/
def diffOf (runs : List Compared) : List DiffRow :=
  if runs.length < 2 then []
  else
    let described := runs.map fun run => run.spec.describe numbers
    let fields := (described.flatMap Dict.keys).eraseDups
    let rows := fields.filterMap fun field =>
      let values := described.map fun one => (one.get? field).getD "—".toList
      if values.eraseDups.length = 1 then none else some (DiffRow.mk field values)
    let structures := runs.map fun run => run.structureName.toList
    if 1 < structures.eraseDups.length then ⟨"구조".toList, structures⟩ :: rows else rows

end

end TcadWebapp.Devsim
