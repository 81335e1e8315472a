import TcadWebapp.Runner.Runner

/-!
# A log that is cut

The result of a run is derived from the stored log. When a log is cut in the middle, the two lines at
the cut become lines of their own and those between them are lost; what an abnormal exit is
explained with may be lost as well. The verdict is that of the complete log exactly when neither
makes a difference.
-/

namespace TcadWebapp.Runner

open Text Regex

variable {lower : Text → Text} {maxOutputMb : Int} {finalSize : Nat} {structureFiles : List Text}

/-! ## Error lines of a text in pieces -/

theorem filter_map_filled {f : Text → Text} {p : Text → Bool} (h : p (f []) = false)
    (lines : List Text) : (lines.map f).filter p = ((lines.filter (· ≠ [])).map f).filter p := by
  induction lines with
  | nil => rfl
  | cons line lines ih =>
    by_cases blank : line = []
    · rw [List.filter_cons_of_neg (by simpa using blank), List.map_cons, blank,
        List.filter_cons_of_neg (by simp [h]), ih]
    · rw [List.filter_cons_of_pos (by simpa using blank), List.map_cons, List.map_cons,
        List.filter_cons, List.filter_cons, ih]

theorem extractErrors_eq (log : Text) : extractErrors log =
    ((log.splitlines.filter (· ≠ [])).map strip).filter fun stripped =>
      stripped ≠ [] ∧ isError stripped :=
  filter_map_filled (by decide) _

@[simp] theorem extractErrors_nil : extractErrors [] = [] := rfl

theorem extractErrors_break {c : Char} (h : isLineBreak c = true) (text rest : Text) :
    extractErrors (text ++ c :: rest) = extractErrors text ++ extractErrors rest := by
  rw [extractErrors_eq, extractErrors_eq text, extractErrors_eq rest, splitlines,
    filter_splitlinesFrom_append h, List.map_append, List.filter_append]
  rfl

/-- Up to its last line break a text has error lines of its own. -/
theorem exists_errors_before (text : Text) : ∃ errors, ∀ rest,
    extractErrors (text ++ rest) = errors ++ extractErrors (lastPiece text ++ rest) := by
  obtain ⟨front, parts, ends⟩ := eq_append_lastPiece text
  refine ⟨extractErrors front, fun rest => ?_⟩
  conv_lhs => rw [parts]
  rcases ends with rfl | ⟨front, c, hc, rfl⟩
  · rfl
  · rw [extractErrors_break hc, extractErrors_nil, List.append_nil, List.append_assoc,
      List.append_assoc, List.singleton_append, extractErrors_break hc]

theorem exists_errors_behind (text : Text) : ∃ errors, ∀ start,
    extractErrors (start ++ text) = extractErrors (start ++ firstPiece text) ++ errors := by
  obtain ⟨back, parts, ends⟩ := eq_firstPiece_append text
  refine ⟨extractErrors back, fun start => ?_⟩
  conv_lhs => rw [parts]
  rcases ends with rfl | ⟨c, back, hc, rfl⟩
  · rw [List.append_nil, extractErrors_nil, List.append_nil]
  · have alone : extractErrors (c :: back) = extractErrors back := extractErrors_break hc [] back
    rw [← List.append_assoc, extractErrors_break hc, alone]

/-- A middle that is left out makes no difference exactly when it makes none to the lines at the
two cuts. -/
theorem errors_cut_iff (front middle back : Text) :
    extractErrors front ++ extractErrors back = extractErrors (front ++ middle ++ back) ↔
      extractErrors (lastPiece front ++ middle ++ firstPiece back) =
        extractErrors (lastPiece front) ++ extractErrors (firstPiece back) := by
  obtain ⟨before, hbefore⟩ := exists_errors_before front
  obtain ⟨behind, hbehind⟩ := exists_errors_behind back
  have head : extractErrors front = before ++ extractErrors (lastPiece front) := by
    simpa using hbefore []
  have tail : extractErrors back = extractErrors (firstPiece back) ++ behind := by
    simpa using hbehind []
  have whole : extractErrors (front ++ middle ++ back) =
      before ++ (extractErrors (lastPiece front ++ middle ++ firstPiece back) ++ behind) := by
    rw [hbehind, List.append_assoc front, hbefore, List.append_assoc before,
      ← List.append_assoc (lastPiece front)]
  rw [head, tail, whole, List.append_assoc, List.append_cancel_left_eq,
    ← List.append_assoc (extractErrors (lastPiece front)), List.append_cancel_right_eq, eq_comm]

/-! ## No error line begins like the line that stands for what is left out -/

theorem search_announces {text : String} {next : Regex} {c d : Char} (rest : Text)
    (first : text.toList.head? = some c) (h : sameLetter c d = false) :
    (announces text next).search (d :: rest) = none := by
  rw [announces, search_textStart, matchAt, hits, hits, if_pos rfl, List.flatMap_singleton,
    hits_literal_of_ne first h]
  rfl

def firstLetters : List Char := ['e', 'p', 'a', 't', 'u', 'n', 'i', 'b']

theorem announces_of_mem_errorPatterns {pattern : Regex} (h : pattern ∈ errorPatterns) :
    pattern = shellPattern ∨ ∃ text next, pattern = announces text next ∧
      ∃ c ∈ firstLetters, text.toList.head? = some c := by
  have announced (text : String) (next : Regex)
      (first : ∃ c ∈ firstLetters, text.toList.head? = some c) :
      announces text next = shellPattern ∨ ∃ text' next', announces text next = announces text' next' ∧
        ∃ c ∈ firstLetters, text'.toList.head? = some c := Or.inr ⟨text, next, rfl, first⟩
  revert pattern
  simp only [errorPatterns, List.forall_mem_cons]
  refine ⟨announced _ _ ?_, announced _ _ ?_, announced _ _ ?_, announced _ _ ?_, announced _ _ ?_,
    announced _ _ ?_, announced _ _ ?_, announced _ _ ?_, announced _ _ ?_, announced _ _ ?_,
    announced _ _ ?_, announced _ _ ?_, announced _ _ ?_, announced _ _ ?_, announced _ _ ?_,
    announced _ _ ?_, Or.inl trivial, List.forall_mem_nil _⟩
  all_goals
    rw [String.toList_ofList]
    simp [firstLetters]

/-- A line that begins otherwise than the patterns. -/
theorem isError_of_first {d : Char} (rest : Text) (slash : d ≠ '/')
    (h : ∀ c ∈ firstLetters, sameLetter c d = false) : isError (d :: rest) = false := by
  rw [isError, Bool.and_eq_false_iff]
  right
  rw [List.any_eq_false]
  intro pattern mem
  rcases announces_of_mem_errorPatterns mem with rfl | ⟨text, next, rfl, c, letter, first⟩
  · have other : ('/' == d) = false := by simpa using Ne.symm slash
    rw [shellPattern, search_textStart, matchAt, hits, hits, if_pos rfl, List.flatMap_singleton,
      hits_literal_of_ne (c := '/') rfl other]
    simp
  · rw [search_announces rest first (h c letter)]
    simp

theorem extractErrors_of_first {d : Char} {rest : Text} (line : OneLine (d :: rest))
    (begun : isSpace d = false) (slash : d ≠ '/') (h : ∀ c ∈ firstLetters, sameLetter c d = false) :
    extractErrors (d :: rest) = [] := by
  rw [extractErrors, splitlines_oneLine line, if_neg (List.cons_ne_nil d rest), List.map_singleton,
    strip_cons begun, List.filter_singleton, isError_of_first _ slash h]
  simp

theorem oneLine_thousands (n : Nat) : OneLine (thousands n) := by
  intro c hc
  rcases mem_thousands hc with digit | rfl
  · obtain ⟨low, high⟩ := Char.isDigit_iff_toNat.mp digit
    have low : 48 ≤ c.toNat := low
    have high : c.toNat ≤ 57 := high
    simp only [isLineBreak, List.mem_cons, List.not_mem_nil, or_false, decide_eq_false_iff_not]
    omega
  · rfl

theorem extractErrors_omissionLine (omitted : Nat) : extractErrors (omissionLine omitted) = [] := by
  refine extractErrors_of_first ?_ (by decide) (by decide) (by
    simp only [firstLetters, List.forall_mem_cons, List.not_mem_nil, false_implies, implies_true, and_true]
    decide)
  have line := oneLine_thousands omitted
  change OneLine (omissionLine omitted)
  delta omissionLine logTruncationNotice
  repeat rw [String.toList_ofList]
  rw [oneLine_append, oneLine_append, oneLine_append, oneLine_append]
  exact ⟨⟨⟨⟨by decide, by decide⟩, by decide⟩, line⟩, by decide⟩

/-! ## The omission -/

/-- What is left out of the stored log. -/
def omittedOf (log : Text) : Text :=
  (log.drop logHeadChars).take (log.length - maxLogChars)

def headOf (log : Text) : Text := log.take logHeadChars

def tailOf (log : Text) : Text := log.drop (log.length - logTailChars)

/-- The error lines of the lines that the omission touches, read whole, are those of the two cut
pieces. -/
def CutClean (log : Text) : Prop :=
  extractErrors (lastPiece (headOf log) ++ omittedOf log ++ firstPiece (tailOf log)) =
    extractErrors (lastPiece (headOf log)) ++ extractErrors (firstPiece (tailOf log))

theorem parts_of_long {log : Text} (long : maxLogChars < log.length) :
    log = headOf log ++ omittedOf log ++ tailOf log := by
  have between : log.length - logTailChars = logHeadChars + (log.length - maxLogChars) := by
    unfold logTailChars logHeadChars maxLogChars at *
    omega
  rw [headOf, omittedOf, tailOf, between, ← List.drop_drop, List.append_assoc,
    List.take_append_drop, List.take_append_drop]

theorem truncateLog_of_long {log : Text} (long : maxLogChars < log.length) :
    truncateLog log = headOf log ++ '\n' :: (omissionLine (log.length - maxLogChars) ++
      '\n' :: tailOf log) := if_neg (not_le.mpr long)

theorem extractErrors_truncateLog {log : Text} (long : maxLogChars < log.length) :
    extractErrors (truncateLog log) = extractErrors (headOf log) ++ extractErrors (tailOf log) := by
  have newline : isLineBreak '\n' = true := rfl
  rw [truncateLog_of_long long, extractErrors_break newline, extractErrors_break newline,
    extractErrors_omissionLine, List.nil_append]

theorem extractErrors_truncateLog_iff {log : Text} (long : maxLogChars < log.length) :
    extractErrors (truncateLog log) = extractErrors log ↔ CutClean log := by
  have whole := errors_cut_iff (headOf log) (omittedOf log) (tailOf log)
  rw [← parts_of_long long] at whole
  rw [extractErrors_truncateLog long]
  exact whole

/-! ## What an abnormal exit is explained with -/

/-- What the log of a run that a signal ended tells last. -/
inductive Clue where
  | panic (reason : Text) (advice : Advice)
  | mesh (points : Option Nat)
  deriving DecidableEq, Repr

/-- What is read off the log of a run that ended with this code. -/
def clue (exitCode : Int) (log : Text) : Except Exn (Option Clue) :=
  if exitCode ≤ 128 ∨ signalName (exitCode - 128) = none then .ok none
  else
    match panicPattern.search log with
    | some panic => .ok (some (.panic panic.group1 (adviceOn panic.group1 log)))
    | none => (meshPoints log).map fun points => some (.mesh points)

def Clue.text (name : Text) : Clue → Text
  | panic reason advice => panicOpening ++ reason ++ panicClosing ++ advice.text
  | mesh points => exitOpening ++ name ++ exitClosing ++ meshText points ++ meshAdvice

theorem describeAbnormalExit_eq (exitCode : Int) (log : Text) : describeAbnormalExit exitCode log =
    (clue exitCode log).map (Option.map (Clue.text ((signalName (exitCode - 128)).getD []))) := by
  unfold describeAbnormalExit clue
  by_cases normal : exitCode ≤ 128
  · rw [if_pos normal, if_pos (Or.inl normal)]
    rfl
  rw [if_neg normal]
  cases named : signalName (exitCode - 128) with
  | none =>
    rw [if_pos (Or.inr rfl)]
    rfl
  | some name =>
    rw [if_neg (by simpa using normal)]
    cases panicked : panicPattern.search log with
    | some panic => rfl
    | none => cases meshPoints log <;> rfl

/-- How the advice begins. -/
def Advice.start : Advice → Text
  | inside => [' ', '입', '력', ' ']
  | etch => [' ', '`', 'e', 't']
  | diffuse => [' ', '`', 'd', 'i']
  | deposit => [' ', '`', 'd', 'e']
  | geometry => [' ', '식', '각', '·']

theorem Advice.take_text (advice : Advice) : advice.text.take 4 = advice.start := by
  cases advice
  all_goals
    delta text
    repeat rw [String.toList_ofList]
    rfl

theorem Advice.text_inj {a b : Advice} (h : a.text = b.text) : a = b := by
  have start : a.start = b.start := by rw [← take_text, ← take_text, h]
  cases a <;> cases b <;> first | rfl | exact absurd start (by decide)

theorem parenthesis_notMem_text (advice : Advice) : ')' ∉ '.' :: advice.text := by
  cases advice
  all_goals
    delta Advice.text
    repeat rw [String.toList_ofList]
    decide

theorem panic_inj {name reason reason' : Text} {advice advice' : Advice}
    (h : Clue.text name (.panic reason advice) = Clue.text name (.panic reason' advice')) :
    reason = reason' ∧ advice = advice' := by
  have closing : panicClosing = [')', '.'] := String.toList_ofList
  simp only [Clue.text, closing, List.append_assoc, List.append_cancel_left_eq, List.cons_append,
    List.nil_append] at h
  obtain ⟨same, behind⟩ := (append_cons_inj_of_last (parenthesis_notMem_text advice)
    (parenthesis_notMem_text advice')).mp h
  exact ⟨same, Advice.text_inj (List.cons.inj behind).2⟩

theorem meshText_inj {points points' : Option Nat} (h : meshText points = meshText points') :
    points = points' := by
  have opening : meshOpening ≠ [] := by
    delta meshOpening
    rw [String.toList_ofList]
    exact List.cons_ne_nil _ _
  cases points with
  | none =>
    cases points' with
    | none => rfl
    | some m =>
      rw [meshText, meshText, List.append_assoc, List.nil_eq_append_iff] at h
      exact absurd h.1 opening
  | some n =>
    cases points' with
    | none =>
      rw [meshText, meshText, List.append_assoc, List.append_eq_nil_iff] at h
      exact absurd h.1 opening
    | some m =>
      simp only [meshText, List.append_assoc, List.append_cancel_left_eq] at h
      rw [thousands_inj (List.append_cancel_right h)]

/-- The two openings differ behind the word they have in common. -/
theorem panicOpening_ne (rest rest' : Text) : panicOpening ++ rest ≠ exitOpening ++ rest' := by
  have first : ∃ tail, panicOpening = ['시', '뮬', '레', '이', '터', '가', ' ', '형'] ++ tail :=
    ⟨_, String.toList_ofList⟩
  have second : ∃ tail, exitOpening = ['시', '뮬', '레', '이', '터', '가', ' ', '비'] ++ tail :=
    ⟨_, String.toList_ofList⟩
  obtain ⟨tail, first⟩ := first
  obtain ⟨tail', second⟩ := second
  rw [first, second, List.append_assoc, List.append_assoc]
  intro h
  have letters := List.append_inj_left h rfl
  exact absurd letters (by decide)

theorem Clue.text_inj {name : Text} {a b : Clue} (h : a.text name = b.text name) : a = b := by
  cases a with
  | panic reason advice =>
    cases b with
    | panic reason' advice' =>
      obtain ⟨rfl, rfl⟩ := panic_inj h
      rfl
    | mesh points =>
      simp only [Clue.text, List.append_assoc] at h
      exact absurd h (panicOpening_ne _ _)
  | mesh points =>
    cases b with
    | panic reason advice =>
      simp only [Clue.text, List.append_assoc] at h
      exact absurd h.symm (panicOpening_ne _ _)
    | mesh points' =>
      simp only [Clue.text, List.append_assoc, List.append_cancel_left_eq] at h
      rw [meshText_inj (List.append_cancel_right h)]

theorem isSome_clue {exitCode : Int} {log log' : Text} {found found' : Option Clue}
    (h : clue exitCode log = .ok found) (h' : clue exitCode log' = .ok found') :
    found.isSome = found'.isSome := by
  have some_of {log : Text} {found : Option Clue} (signal : ¬ (exitCode ≤ 128 ∨
      signalName (exitCode - 128) = none)) (h : clue exitCode log = .ok found) :
      found.isSome = true := by
    rw [clue, if_neg signal] at h
    cases panicked : panicPattern.search log with
    | some panic =>
      rw [panicked] at h
      obtain rfl := Except.ok.inj h
      rfl
    | none =>
      rw [panicked] at h
      cases points : meshPoints log with
      | error e =>
        rw [points] at h
        cases h
      | ok points' =>
        rw [points] at h
        obtain rfl := Except.ok.inj h
        rfl
  by_cases normal : exitCode ≤ 128 ∨ signalName (exitCode - 128) = none
  · rw [clue, if_pos normal] at h h'
    rw [← Except.ok.inj h, ← Except.ok.inj h']
  · rw [some_of normal h, some_of normal h']

/-! ## The verdict -/

/-- What the user is told of a result. -/
def SimulationResult.verdict (result : SimulationResult) : Bool × List Text :=
  (result.succeeded, result.errors)

/-- The result of the run is the one that the complete log gives, so far as the user is told: where
the one is derived the other is, with the same success and the same error lines. -/
def VerdictKept (lower : Text → Text) (maxOutputMb : Int) (finalSize : Nat)
    (structureFiles : List Text) (run : Execution) : Prop :=
  (finish lower maxOutputMb finalSize structureFiles run).toOption.map SimulationResult.verdict =
    (conclude lower maxOutputMb finalSize structureFiles run.log run).toOption.map
      SimulationResult.verdict

/-- The log is stored whole; or nothing that is read off it changes at the cut. -/
def OmissionHarmless (run : Execution) : Prop :=
  let kept := clue run.exitCode (truncateLog run.log)
  let whole := clue run.exitCode run.log
  run.log.length ≤ maxLogChars ∨ (kept.isOk = false ∧ whole.isOk = false) ∨
    (CutClean run.log ∧ kept.isOk = whole.isOk ∧ (run.timedOut = true ∨ kept = whole))

/-- The error lines that `_finish` adds to those of the log and of the exit. -/
def outputErrors (maxOutputMb : Int) (finalSize : Nat) (run : Execution) : List Text :=
  if run.tripped ∨ (finalSize : Int) > maxOutputMb * 1048576 then [outputMessage maxOutputMb] else []

def infraErrors (lower : Text → Text) (run : Execution) : List Text :=
  if looksLikeInfraFailure lower run.exitCode run.log then [podmanAdvice] else []

def exitErrors (run : Execution) (found : Option Clue) : List Text :=
  if run.timedOut then []
  else (found.map (Clue.text ((signalName (run.exitCode - 128)).getD []))).toList

/-- The result when this is what the log tells last. -/
def resultOf (lower : Text → Text) (maxOutputMb : Int) (finalSize : Nat) (structureFiles : List Text)
    (run : Execution) (log : Text) (found : Option Clue) : SimulationResult where
  exitCode := run.exitCode
  log := log
  timedOut := run.timedOut
  structureFiles := structureFiles
  errors := extractErrors log ++ outputErrors maxOutputMb finalSize run ++ exitErrors run found ++
    infraErrors lower run

theorem conclude_eq (log : Text) (run : Execution) :
    conclude lower maxOutputMb finalSize structureFiles log run = (clue run.exitCode log).map
      (resultOf lower maxOutputMb finalSize structureFiles run log) := by
  rw [conclude, describeAbnormalExit_eq]
  cases clue run.exitCode log with
  | error e => rfl
  | ok found =>
    have added {p : Prop} [Decidable p] (errors more : List Text) :
        (if p then errors ++ more else errors) = errors ++ if p then more else [] := by
      split <;> simp
    have added' {p : Prop} [Decidable p] (errors more : List Text) :
        (if p then errors else errors ++ more) = errors ++ if p then [] else more := by
      split <;> simp
    simp only [Except.map, bind, Except.bind, pure, Except.pure, added, added']
    rfl

theorem length_exitErrors {run : Execution} {found found' : Option Clue}
    (h : found.isSome = found'.isSome) :
    (exitErrors run found).length = (exitErrors run found').length := by
  unfold exitErrors
  split
  · rfl
  · cases found <;> cases found' <;> simp_all

theorem exitErrors_inj {run : Execution} {found found' : Option Clue} :
    exitErrors run found = exitErrors run found' ↔ run.timedOut = true ∨ found = found' := by
  unfold exitErrors
  split
  · simp_all
  · constructor
    · intro same
      have texts : Function.Injective (Clue.text ((signalName (run.exitCode - 128)).getD [])) :=
        fun _ _ => Clue.text_inj
      refine Or.inr (Option.map_injective texts ?_)
      have heads := congrArg List.head? same
      rwa [Option.head?_toList, Option.head?_toList] at heads
    · rintro (out | rfl)
      · contradiction
      · rfl

theorem verdict_resultOf_iff {run : Execution} {log log' : Text} {found found' : Option Clue}
    (h : found.isSome = found'.isSome) :
    (resultOf lower maxOutputMb finalSize structureFiles run log found).verdict =
        (resultOf lower maxOutputMb finalSize structureFiles run log' found').verdict ↔
      extractErrors log = extractErrors log' ∧ (run.timedOut = true ∨ found = found') := by
  constructor
  · intro same
    have errors := congrArg Prod.snd same
    simp only [SimulationResult.verdict, resultOf, List.append_cancel_right_eq] at errors
    obtain ⟨front, exit⟩ := List.append_inj' errors (length_exitErrors h)
    exact ⟨List.append_cancel_right front, exitErrors_inj.mp exit⟩
  · rintro ⟨same, exit⟩
    have exit : exitErrors run found = exitErrors run found' := exitErrors_inj.mpr exit
    have errors : (resultOf lower maxOutputMb finalSize structureFiles run log found).errors =
        (resultOf lower maxOutputMb finalSize structureFiles run log' found').errors := by
      rw [resultOf, resultOf, same, exit]
    unfold SimulationResult.verdict SimulationResult.succeeded
    rw [errors]
    rfl

theorem verdictKept_iff (run : Execution) :
    VerdictKept lower maxOutputMb finalSize structureFiles run ↔ OmissionHarmless run := by
  unfold VerdictKept OmissionHarmless finish
  by_cases short : run.log.length ≤ maxLogChars
  · have whole : truncateLog run.log = run.log := if_pos short
    rw [whole]
    exact iff_of_true rfl (Or.inl short)
  · rw [conclude_eq, conclude_eq]
    have cut := extractErrors_truncateLog_iff (not_le.mp short)
    cases kept : clue run.exitCode (truncateLog run.log) with
    | error e =>
      cases whole : clue run.exitCode run.log with
      | error e' => simp [Except.map, Except.toOption, Except.isOk, Except.toBool]
      | ok found' => simp [Except.map, Except.toOption, Except.isOk, Except.toBool, short]
    | ok found =>
      cases whole : clue run.exitCode run.log with
      | error e' => simp [Except.map, Except.toOption, Except.isOk, Except.toBool, short]
      | ok found' =>
        simp only [Except.map, Except.toOption, Option.map_some, Option.some.injEq]
        rw [verdict_resultOf_iff (isSome_clue kept whole), cut]
        simp [Except.isOk, Except.toBool, short]

def dashes (n : Nat) : Text := List.replicate n '-'

/-- The line in the middle, behind the one that the head ends with. -/
def lostLine : Text := '\n' :: ("unknown command".toList ++ ['\n'])

/-- A run that ended with 0, whose only error line stands in the middle. -/
def lostError : Execution where
  exitCode := 0
  log := dashes logHeadChars ++ lostLine ++ dashes logTailChars
  timedOut := false
  tripped := false

@[simp] theorem length_dashes (n : Nat) : (dashes n).length = n := List.length_replicate

theorem extractErrors_dashes (n : Nat) : extractErrors (dashes n) = [] := by
  cases n with
  | zero => rfl
  | succ n =>
    refine extractErrors_of_first ?_ rfl (by decide) (by
    simp only [firstLetters, List.forall_mem_cons, List.not_mem_nil, false_implies, implies_true, and_true]
    decide)
    intro c hc
    have mem : c ∈ List.replicate (n + 1) '-' := hc
    obtain rfl := List.eq_of_mem_replicate mem
    rfl

theorem lostError_log : lostError.log = dashes logHeadChars ++ lostLine ++ dashes logTailChars := rfl

theorem lostLine_eq : lostLine = '\n' :: ("unknown command".toList ++ '\n' :: []) := rfl

theorem length_lostLine : lostLine.length = 17 := by
  delta lostLine
  rw [String.toList_ofList]
  rfl

theorem extractErrors_lostError : extractErrors lostError.log = ["unknown command".toList] := by
  have newline : isLineBreak '\n' = true := rfl
  have error : extractErrors "unknown command".toList = ["unknown command".toList] := by
    decide
  have log : lostError.log = dashes logHeadChars ++ '\n' ::
      ("unknown command".toList ++ '\n' :: dashes logTailChars) := by
    rw [lostError_log, lostLine_eq, List.append_assoc, List.cons_append, List.append_assoc,
      List.cons_append, List.nil_append]
  rw [log, extractErrors_break newline, extractErrors_break newline, error, extractErrors_dashes,
    extractErrors_dashes, List.nil_append, List.append_nil]

theorem extractErrors_truncated_lostError : extractErrors (truncateLog lostError.log) = [] := by
  have front : (dashes logHeadChars ++ lostLine).length = logHeadChars + 17 := by
    rw [List.length_append, length_lostLine, length_dashes]
  have length : lostError.log.length = logHeadChars + 17 + logTailChars := by
    rw [lostError_log, List.length_append, front, length_dashes]
  have long : maxLogChars < lostError.log.length := by
    rw [length]
    unfold logTailChars logHeadChars maxLogChars
    omega
  have head : headOf lostError.log = dashes logHeadChars := by
    rw [headOf, lostError_log, List.append_assoc, List.take_left' (length_dashes _)]
  have tail : tailOf lostError.log = dashes logTailChars := by
    rw [tailOf, length, Nat.add_sub_cancel, lostError_log, List.drop_left' front]
  rw [extractErrors_truncateLog long, head, tail, extractErrors_dashes, extractErrors_dashes,
    List.append_nil]

/-- An error that only the complete log shows: the run counts as a success. -/
theorem not_verdictKept : ¬ ∀ (lower : Text → Text) (maxOutputMb : Int) (finalSize : Nat)
    (structureFiles : List Text) (run : Execution),
    VerdictKept lower maxOutputMb finalSize structureFiles run := by
  intro all
  have same := all id 256 0 [] lostError
  have none (log : Text) : clue lostError.exitCode log = .ok none := rfl
  rw [VerdictKept, finish, conclude_eq, conclude_eq, none, none] at same
  have errors := ((verdict_resultOf_iff rfl).mp (Option.some.inj same)).1
  rw [extractErrors_lostError, extractErrors_truncated_lostError] at errors
  cases errors

end TcadWebapp.Runner
