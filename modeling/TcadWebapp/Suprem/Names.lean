import TcadWebapp.Suprem.KeyFile

/-!
# The names of commands and parameters

What the simulator takes a word for: `get_proc` and `substring` of `shell/proc.c`, and `name_check` of
`check/verify.c`.
-/

namespace TcadWebapp.Suprem

/-- The loop of `substring`, with `n` characters in common so far. -/
def commonFrom : List Byte → List Byte → ℕ → ℕ
  | _, [], n => n
  | [], _ :: _, _ => 0
  | c :: s, d :: ss, n => if c = d then commonFrom s ss (n + 1) else 0

/-- `substring`: how much they have in common, if all of `ss` is. -/
def substring (s ss : List Byte) : ℕ := commonFrom s ss 0

/-! ## Commands -/

/-- What `get_proc` finds. It returns -1 for both kinds of failure, and says so when the command is ambiguous. -/
inductive Proc where
  | found (index : ℕ)
  | ambiguous
  | unknown
  deriving DecidableEq, Repr

/-- `best`, `ambig` and `best_match`. -/
structure Best where
  best : Option ℕ
  ambig : Bool
  bestMatch : ℕ

/-- A round of `get_proc`. -/
def Best.next (name : List Byte) (s : Best) (entry : List Byte × ℕ) : Best :=
  let match_ := substring entry.1 name
  let s := if match_ = s.bestMatch then { s with ambig := true } else s
  if s.bestMatch < match_ ∧ match_ = name.length then { best := some entry.2, ambig := false, bestMatch := match_ } else s

/-- `get_proc`, in a table that a command without a name ends. -/
def getProc (command : List (List Byte)) (name : List Byte) : Proc :=
  let s := (command.takeWhile (· ≠ [])).zipIdx.foldl (Best.next name) { best := none, ambig := false, bestMatch := 0 }
  match s.best with
  | none => .unknown
  | some best => if s.ambig then .ambiguous else .found best

/-! ## Parameters -/

/-- `Substring`. -/
def begins (s ss : List Byte) : Bool := s.head? = ss.head? && substring s ss ≠ 0

/-- `name_check`, with what `ret` points to. A parameter without sub parameters has no list of them. -/
def nameCheck (name : List Byte) : Forest Param → Option Param → ℤ × Option Param
  | .nil, ret => (if ret = none then -1 else 0, ret)
  | .cons par below after, ret =>
    if begins par.name name ∧ ret ≠ none then (-2, ret)
    else
      let ret := if begins par.name name then some par else ret
      let (ambig, ret) := nameCheck name below ret
      if ambig = -2 then (ambig, ret) else nameCheck name after ret

end TcadWebapp.Suprem
