import Mathlib
import TcadWebapp.Misc.Decimal
import TcadWebapp.Misc.PosixPath
import TcadWebapp.Misc.Python
import TcadWebapp.Misc.Regex

/-!
# What a simulation run left

The verdict on a run is read off its log: the lines that announce an error, and for a run that a
signal ended a description of what the log tells last. The structure files of the run are put in
the order in which the source saves them.
-/

namespace TcadWebapp.Runner

open Regex

/-! ## Patterns -/

/-- A letter of a pattern with `IGNORECASE`, in lower case, against a character. -/
def sameLetter (letter c : Char) : Bool :=
  c.toLower = letter ∨ (letter = 'i' ∧ (c = 'İ' ∨ c = 'ı')) ∨ (letter = 's' ∧ c = 'ſ') ∨
    (letter = 'k' ∧ c = '\u212a')

/-- `.`. -/
def notNewline (c : Char) : Bool := c ≠ '\n'

/-- `^text`, then `next`, with `IGNORECASE`. -/
def announces (text : String) (next : Regex) : Regex :=
  .seq .textStart (literal sameLetter text.toList next)

/-- `^/bin/(?:ba)?sh: `. -/
def shellPattern : Regex :=
  .seq .textStart (literal (· == ·) "/bin/".toList
    (.seq (.optional (literal (· == ·) "ba".toList .empty))
      (literal (· == ·) "sh: ".toList .empty)))

def errorPatterns : List Regex :=
  [announces "errors detected on command input" .empty,
    announces "parameter " (.seq (.many notNewline)
      (literal sameLetter " does not exist".toList .empty)),
    announces "ambiguous parameter" .empty,
    announces "the command is ambiguous" .empty,
    announces "unknown command" .empty,
    announces "no command defined for name" .empty,
    announces "illegal input" .empty,
    announces "bad expression:" .empty,
    announces "no character string given for" .empty,
    announces "no mesh defined" .empty,
    announces "user mesh data not given" .empty,
    announces "no value specified for" .empty,
    announces "no material specified for region" .empty,
    announces "no region yet" .empty,
    announces "no orientation given" .empty,
    announces "no such " (.seq (.one notNewline) (literal sameLetter " tag:".toList .empty)),
    shellPattern]

def notErrors : List Regex := [announces "no error in " .empty]

/-- `suprem4 panic:\s*(.+?)\s*$`. -/
def panicPattern : Regex :=
  literal (· == ·) "suprem4 panic:".toList
    (.seq (.many isSpace) (.seq (.group (.few1 notNewline)) (.seq (.many isSpace) .lineEnd)))

/-- `^Mesh statistics (.+?):\s*$`. -/
def phaseMarker : Regex :=
  .seq .lineStart (literal (· == ·) "Mesh statistics ".toList
    (.seq (.group (.few1 notNewline))
      (.seq (.one (· = ':')) (.seq (.many isSpace) .lineEnd))))

/-- `Points\s*=\s*(\d+)`. -/
def meshPointsPattern : Regex :=
  literal (· == ·) "Points".toList
    (.seq (.many isSpace) (.seq (.one (· = '=')) (.seq (.many isSpace)
      (.group (.many1 fun c => (decimalDigit c).isSome)))))

/-- `\w`. -/
def isWord (isalnum : Char → Bool) (c : Char) : Bool := isalnum c || c = '_'

/-- `^\s*stru\w*\s+(?:[^\n#]*?\s)?out\w*\s*=\s*(\S+)`. -/
def structureOut (isalnum : Char → Bool) : Regex :=
  .seq .lineStart (.seq (.many isSpace) (literal (· == ·) "stru".toList
    (.seq (.many (isWord isalnum)) (.seq (.many1 isSpace)
      (.seq (.optional (.seq (.few fun c => c ≠ '\n' ∧ c ≠ '#') (.one isSpace)))
        (literal (· == ·) "out".toList (.seq (.many (isWord isalnum)) (.seq (.many isSpace)
          (.seq (.one (· = '=')) (.seq (.many isSpace)
            (.group (.many1 fun c => !isSpace c))))))))))))

/-! ## Error lines -/

/-- A line, white space around it left off, that announces an error. -/
def isError (line : Text) : Bool :=
  !(notErrors.any fun safe => (safe.search line).isSome) &&
    errorPatterns.any fun pattern => (pattern.search line).isSome

def extractErrors (log : Text) : List Text :=
  (log.splitlines.map Text.strip).filter fun stripped => stripped ≠ [] ∧ isError stripped

/-! ## The end of a run by a signal -/

/-- The commands that a phase marker tells of. -/
inductive Command where
  | deposit
  | etch
  | initialized
  | diffuse
  deriving DecidableEq, Repr

def phaseCommand (phase : Text) : Option Command :=
  ([("after deposit", .deposit),
    ("after etch", .etch),
    ("after etch cut", .etch),
    ("Mesh Creation", .initialized),
    ("during update of diffusion", .diffuse),
    ("after native oxide deposit", .diffuse),
    ("native oxide deposition", .diffuse),
    ("Grid Addition", .diffuse),
    ("after removing silicon nodes", .diffuse)].find? fun entry : String × Command =>
      entry.1.toList = phase).map Prod.snd

def etchPanics : List Text :=
  ["malformed boundary".toList, "not in any triangle".toList, "not clock wise".toList,
    "error in chop".toList, "does not cross the material boundary".toList,
    "crosses itself".toList]

def signalName (signal : Int) : Option Text :=
  if signal = 6 then some "SIGABRT".toList
  else if signal = 7 then some "SIGBUS".toList
  else if signal = 9 then some "SIGKILL".toList
  else if signal = 11 then some "SIGSEGV".toList
  else none

/-- `int(digits)`, which takes at most 4300 digits. -/
def int (digits : Text) : Except Exn Nat :=
  if digits.length ≤ 4300 then
    .ok ((digits.filterMap decimalDigit).foldl (fun n digit => 10 * n + digit) 0)
  else .error (.valueError "Exceeds the limit (4300 digits) for integer string conversion")

def meshPoints (log : Text) : Except Exn (Option Nat) :=
  match (meshPointsPattern.findall log).getLast? with
  | none => .ok none
  | some digits => (int digits).map some

def panicCommand (log : Text) : Option Command :=
  let before := match panicPattern.search log with
    | some panic => panic.start.before.reverse
    | none => log
  (phaseMarker.findall before).getLast?.bind phaseCommand

/-- What is advised on a panic. -/
inductive Advice where
  | inside
  | etch
  | diffuse
  | deposit
  | geometry
  deriving DecidableEq, Repr

def Advice.text : Advice → Text
  | inside => " 입력 문법 문제가 아니라 시뮬레이터 내부에서 멈춘 것입니다.".toList ++
      " 직전 커맨드의 형상이나 격자를 조금 바꿔 보세요.".toList
  | etch => " `etch` 중에 형상이 무너졌습니다. 식각선이 재료 경계와".toList ++
      " 나란히 겹치면 실패하는데, 겹치는지 여부가 격자와 깎는 깊이의".toList ++
      " 조합으로 갈립니다. 그 영역 격자를 촘촘하게 주거나 깎는 깊이를".toList ++
      " 조금 바꿔 보세요. 같은 깊이를 여러 번에 걸쳐 깎는 방법은".toList ++
      " 통하지 않습니다.".toList
  | diffuse => " `diffuse` 가 격자를 움직이는 중에 무너졌습니다.".toList ++
      " 산화는 노드를 조금씩 옮기므로, 원인은 이 커맨드보다 **직전의".toList ++
      " 식각이나 증착이 남긴 격자**인 경우가 많습니다. 바로 앞 단계의".toList ++
      " 깎는 깊이나 두께를 조금 바꾸거나, 그 영역 격자를 촘촘하게 줘".toList ++
      " 보세요.".toList
  | deposit => " `deposit` 중에 형상이 무너졌습니다. 증착 두께가 그".toList ++
      " 자리 곡률보다 크면 표면이 자기 자신과 겹칩니다. 두께를 줄이거나".toList ++
      " `divisions` 를 늘려 여러 번에 나눠 쌓아 보세요.".toList
  | geometry => " 식각·증착·산화 중 형상이 무너질 때 나오는 문구입니다.".toList ++
      " 직전 커맨드의 두께나 깊이를 조금 바꾸거나, 그 영역 격자를 촘촘하게".toList ++
      " 줘 보세요.".toList

/-- The advice depends on the command that ran, for the panics of a broken geometry. -/
def adviceOn (reason log : Text) : Advice :=
  if ∃ known ∈ etchPanics, known <:+: reason then
    match panicCommand log with
    | some .etch => .etch
    | some .diffuse => .diffuse
    | some .deposit => .deposit
    | _ => .geometry
  else .inside

def panicOpening : Text := "시뮬레이터가 형상을 처리하지 못하고 스스로 멈췄습니다(panic: ".toList

def panicClosing : Text := ").".toList

def describePanic (reason log : Text) : Text :=
  panicOpening ++ reason ++ panicClosing ++ (adviceOn reason log).text

def exitOpening : Text := "시뮬레이터가 비정상 종료했습니다(".toList

def exitClosing : Text :=
  ").".toList ++ " 입력 문법 문제가 아니라 시뮬레이터 내부에서 죽은 것입니다.".toList

def meshAdvice : Text :=
  " 격자를 성기게 하면 넘어가는 경우가 많습니다".toList ++
    " — 촘촘한 구간을 좁히거나 반대 방향 격자선을 줄여 보세요.".toList

def meshOpening : Text := " 마지막으로 만든 격자가 ".toList

def meshClosing : Text := "점입니다.".toList

/-- What is told of the size of the mesh. -/
def meshText : Option Nat → Text
  | none => []
  | some points => meshOpening ++ thousands points ++ meshClosing

def describeAbnormalExit (exitCode : Int) (log : Text) : Except Exn (Option Text) :=
  if exitCode ≤ 128 then .ok none
  else
    match signalName (exitCode - 128) with
    | none => .ok none
    | some name =>
      match panicPattern.search log with
      | some panic => .ok (some (describePanic panic.group1 log))
      | none => do
        let points ← meshPoints log
        return some (exitOpening ++ name ++ exitClosing ++ meshText points ++ meshAdvice)

/-! ## The result -/

structure SimulationResult where
  exitCode : Int
  /-- The log as it is stored. -/
  log : Text
  timedOut : Bool
  /-- The names of the structure files, in the order of the process. -/
  structureFiles : List Text
  errors : List Text
  deriving DecidableEq, Repr

def SimulationResult.succeeded (result : SimulationResult) : Bool :=
  !result.timedOut && result.errors = [] && result.exitCode = 0

/-- The names that the save commands of the source give, as `Path(…).name` reads them. -/
def savedNames (isalnum : Char → Bool) (source : Text) : List Text :=
  ((structureOut isalnum).finditer source).map fun m => (PosixPath.parse m.group1).name

/-- The structure files among the names in the working directory: first those that the source
saves, where it first does, then the others by name. -/
def collectStructureFiles (isalnum : Char → Bool) (names : List Text) (source : Text) : List Text :=
  let present := names.filter fun name => ".str".toList.isSuffixOf name
  let (ordered, left) := (savedNames isalnum source).foldl (fun (ordered, left) name =>
    if name ∈ left then (ordered ++ [name], left.filter (· ≠ name)) else (ordered, left))
    ([], present)
  ordered ++ left.mergeSort fun a b => a ≤ b

end TcadWebapp.Runner
