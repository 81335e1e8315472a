import TcadWebapp.Runner.Results

/-!
# The end of a simulation run

How `_finish` derives the result of a run from what the container gave: the log is cut to what is
stored, the errors are read off that.
-/

namespace TcadWebapp.Runner

/-- What `_execute` returns. -/
structure Execution where
  exitCode : Int
  log : Text
  timedOut : Bool
  /-- The watchdog has killed the container. -/
  tripped : Bool
  deriving DecidableEq, Repr

/-! ## Podman that does not start -/

def infraMarkers : List Text :=
  ["newuidmap".toList, "newgidmap".toList, "pause process".toList, "podman system migrate".toList,
    "cannot join namespace".toList, "cannot join mount namespace".toList,
    "invalid internal status".toList]

def podmanErrorExit : Int := 125

def podmanAdvice : Text :=
  "컨테이너 실행 기반(podman)이 일시적으로 뜨지 못했습니다. ".toList ++
    "시뮬레이션 코드 문제가 아닙니다. ".toList ++
    "계속되면 deploy/repair-podman.sh 를 실행하세요 — ".toList ++
    "podman 이 안내하는 `podman system migrate` 는 도는 컨테이너를 ".toList ++
    "전부 멈추므로 이 서버에서는 쓰면 안 됩니다.".toList

/-- `lower` is `str.lower`. -/
def mentionsInfraFailure (lower : Text → Text) (log : Text) : Bool :=
  infraMarkers.any fun marker => marker <:+: lower log

def looksLikeInfraFailure (lower : Text → Text) (exitCode : Int) (log : Text) : Bool :=
  if exitCode ≠ podmanErrorExit then false else mentionsInfraFailure lower log

/-! ## The stored log -/

def maxLogChars : Nat := 1000000

def logHeadChars : Nat := 700000

def logTailChars : Nat := maxLogChars - logHeadChars

def logTruncationNotice : Text := "로그가 너무 길어 중간을 생략했습니다".toList

/-- The line that stands for the characters left out. -/
def omissionLine (omitted : Nat) : Text :=
  "…… ".toList ++ logTruncationNotice ++ " — 중간 ".toList ++ thousands omitted ++
    "자 생략. 전문은 내려받을 수 있습니다 ……".toList

def truncateLog (log : Text) : Text :=
  if log.length ≤ maxLogChars then log
  else
    log.take logHeadChars ++ '\n' :: (omissionLine (log.length - maxLogChars) ++
      '\n' :: log.drop (log.length - logTailChars))

/-! ## The result -/

def outputMessage (maxOutputMb : Int) : Text :=
  "출력이 상한(".toList ++ (toString maxOutputMb).toList ++ "MB)을 넘었습니다. ".toList ++
    "실행을 중단하고 결과를 버렸습니다.".toList

/-- `_finish`, with the log that it reads for errors and stores. The size of the working directory
and the structure files in it are those that it finds there. -/
def conclude (lower : Text → Text) (maxOutputMb : Int) (finalSize : Nat) (structureFiles : List Text)
    (log : Text) (run : Execution) : Except Exn SimulationResult := do
  let errors := extractErrors log
  let errors :=
    if run.tripped ∨ (finalSize : Int) > maxOutputMb * 1048576 then
      errors ++ [outputMessage maxOutputMb]
    else errors
  let abnormal ← describeAbnormalExit run.exitCode log
  let errors := if run.timedOut then errors else errors ++ abnormal.toList
  let errors :=
    if looksLikeInfraFailure lower run.exitCode run.log then errors ++ [podmanAdvice] else errors
  return {
    exitCode := run.exitCode
    log := log
    timedOut := run.timedOut
    structureFiles := structureFiles
    errors := errors }

def finish (lower : Text → Text) (maxOutputMb : Int) (finalSize : Nat) (structureFiles : List Text)
    (run : Execution) : Except Exn SimulationResult :=
  conclude lower maxOutputMb finalSize structureFiles (truncateLog run.log) run

/-! ## Resuming -/

/-- The simulator has stopped by itself. -/
def worthResuming (run : Execution) : Bool :=
  if run.timedOut ∨ run.tripped ∨ run.exitCode = 0 then false
  else decide ("suprem4 panic:".toList <:+: run.log)

end TcadWebapp.Runner
