import Mathlib.Data.List.Sort
import Mathlib.Data.String.Basic
import TcadWebapp.Misc.Json
import TcadWebapp.Devsim.Run

/-!
# The files of a run and their readers

What `run` and `main` of `docker/devsim/run.py` write to `iv.jsonl` and `iv.json`, and the two
programs that read it on the other side: `_read_dataset` (`devsim/service.py:127-173`) and
`scan_devsim_progress` (`devsim/progress.py`). Where a reader returns `none` it raises.
-/

namespace TcadWebapp.Devsim

/-! ## The writer -/

/-- A dictionary of voltages or currents. -/
def numbers (d : Dict String Volt) : Json :=
  .obj (d.entries.map fun entry => (entry.1, .num entry.2))

/-- A row, as `rows` and the stream have it (`run.py:657-669`). -/
def Row.json (row : Row) : Json :=
  .obj ([("sweep", .num row.sweep), ("steps", numbers row.steps),
      ("currents", numbers row.currents)] ++
    (if row.voltages.entries = [] then [] else [("voltages", numbers row.voltages)]) ++
    [("ok", .bool true), ("newton", .int row.newton)])

/-- `entry` of `give_up`, as `failures` has it. -/
def Failure.entries (failure : Failure) : List (String × Json) :=
  [("sweep", .num failure.sweep), ("steps", numbers failure.steps),
    ("reason", .str failure.reason), ("newton", .int failure.newton)]

/-- The failure in the stream, `{**entry, "ok": False}`. -/
def Failure.json (failure : Failure) : Json := .obj (failure.entries ++ [("ok", .bool false)])

def Line.json : Line → Json
  | .moving steps => .obj [("phase", .str "moving"), ("steps", numbers steps)]
  | .row r => r.json
  | .failure f => f.json

/-- `iv.jsonl` after these lines: `json.dumps(row) + "\\n"` each. -/
def streamText (json : Json.Library) (lines : List Line) : Text :=
  lines.flatMap fun line => json.dumps line.json ++ ['\n']

/-- What `run` returns, which `main` writes to `iv.json` (`run.py:673-691`). -/
def State.result (payload : Payload) (st : State) : Json :=
  .obj [("sweep", .str payload.plan.sweepBias),
    ("steps", .arr (((payload.plan.steps.head?.map Dict.keys).getD []).map .str)),
    ("biases", .arr ((st.solver.groups.keys.insertionSort (· ≤ ·)).map .str)),
    ("current_unit", .str "uA/um"),
    ("rows", .arr (st.rows.map Row.json)),
    ("failures", .arr (st.failures.map fun failure => .obj failure.entries)),
    ("total", .int payload.plan.total),
    ("completed", .int st.rows.length),
    ("stats", .obj [("solves", .int st.solver.solves), ("newton", .int st.solver.newton),
      ("relaxed", .int st.solver.relaxed)]),
    ("error", .null)]

/-! ## The readers -/

/-- A file as `Path.read_text` finds it. -/
inductive File where
  | missing
  /-- Reading raises an OSError. -/
  | unreadable
  | content (text : Text)

/-- The two files of a job's directory. -/
structure Workdir where
  result : File
  stream : File

/-- The loop of `_read_dataset`. -/
def readLines (json : Json.Library) :
    List Text → List Json → List Json → Option (List Json × List Json)
  | [], rows, failures => some (rows, failures)
  | line :: rest, rows, failures =>
    if line.strip = [] then readLines json rest rows failures
    else match json.loads line with
      -- a ValueError ends the loop with what was read so far
      | none => some (rows, failures)
      | some entry => match entry.entries? with
        | none => none
        | some entries =>
          if (Json.get? entries "phase").any (Json.isText "moving") then
            readLines json rest rows failures
          else if (Json.get? entries "ok").any Json.isFalse ∨
              (Json.get? entries "currents").isNone then
            readLines json rest rows (failures ++ [entry])
          else readLines json rest (rows ++ [entry]) failures

/-- `sorted(rows[0].get("currents", {})) if rows else []`. A list or a text there, which no run
writes, is not modelled. -/
def biasesOf : List Json → Option (List String)
  | [] => some []
  | row :: _ => match row.entries? with
    | none => none
    | some entries => match Json.get? entries "currents" with
      | none => some []
      | some currents => currents.entries?.map fun entries =>
        (entries.map Prod.fst).insertionSort (· ≤ ·)

/-- The dataset made of what the stream still has. -/
def recovered (biases : List String) (rows failures : List Json) (total : Int) : Json :=
  .obj [("sweep", .null),
    ("biases", .arr (biases.map .str)),
    ("current_unit", .str "uA/um"),
    ("rows", .arr rows),
    ("failures", .arr failures),
    ("total", .int total),
    ("completed", .int rows.length),
    ("error", .str "해석이 끝나기 전에 멈췄습니다. 여기까지의 결과만 남았습니다.")]

/-- `_read_dataset` past `iv.json`. -/
def readStream (json : Json.Library) (stream : File) (total : Int) : Option (Option Json) :=
  let read := match stream with
    | .missing => some ([], [])
    | .unreadable => some ([], [])
    | .content text => readLines json text.splitlines [] []
  match read with
  | none => none
  | some ([], []) => some none
  | some (rows, failures) =>
    (biasesOf rows).map fun biases => some (recovered biases rows failures total)

/-- `_read_dataset`. -/
def readDataset (json : Json.Library) (workdir : Workdir) (total : Int) : Option (Option Json) :=
  match workdir.result with
  | .content text => match json.loads text with
    | some value => some (some value)
    | none => readStream json workdir.stream total
  | _ => readStream json workdir.stream total

/-- `Progress` of `jobs/progress.py`. -/
structure Progress where
  done : Nat
  total : Int
  latest : Option String
  deriving DecidableEq, Repr

/-- `f"{value:g}"`. -/
def formatValue (py : Python) : Json → Option String
  | .num v => some (py.formatG v)
  | .int n => some (py.formatG n)
  | .bool b => some (py.formatG (if b then 1 else 0))
  | _ => none

/-- `_describe`. -/
def describe (py : Python) (row : List (String × Json)) : Option String := do
  let steps ← match Json.get? row "steps" with
    | none => some []
    | some steps => steps.entries?
  let parts ← (steps.insertionSort fun a b => a.1 ≤ b.1).mapM fun step =>
    (formatValue py step.2).map fun value => step.1 ++ "=" ++ value ++ "V"
  let sweep ← match Json.get? row "sweep" with
    | none => some []
    | some .null => some []
    | some value => (formatValue py value).map fun value => [value ++ "V"]
  some (", ".intercalate (parts ++ sweep))

/-- The loop of `scan_devsim_progress`. -/
def countLines (json : Json.Library) (py : Python) :
    List Text → Nat → Option String → Option (Nat × Option String)
  | [], done, latest => some (done, latest)
  | line :: rest, done, latest =>
    if line.strip = [] then countLines json py rest done latest
    else match json.loads line.strip with
      -- the line is still being written
      | none => countLines json py rest done latest
      | some row => match row.entries? with
        | none => none
        | some entries => match describe py entries with
          | none => none
          | some text =>
            if (Json.get? entries "phase").any (Json.isText "moving") then
              countLines json py rest done (some (text ++ " 로 옮기는 중"))
            else
              countLines json py rest (done + 1) (some (text ++
                if (Json.get? entries "ok").any Json.isFalse then " 수렴 실패 — 건너뜀" else " 풀림"))

/-- `scan_devsim_progress`; a job's directory that is gone is `none`. -/
def scanDevsimProgress (json : Json.Library) (py : Python) (workdir : Option Workdir)
    (total : Int) : Option (Option Progress) :=
  if total ≤ 0 then some none
  else match workdir with
    | none => some none
    | some workdir => match workdir.stream with
      | .content text => (countLines json py text.splitlines 0 none).map fun counted =>
        some ⟨counted.1, total, counted.2⟩
      | _ => some (some ⟨0, total, none⟩)

end TcadWebapp.Devsim
