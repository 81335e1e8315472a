import Mathlib.Algebra.Order.Group.Defs
import TcadWebapp.Misc.Dict
import TcadWebapp.Misc.Lts

/-!
# The sliding window of a rate limiter

`RateLimiter` of `backend/app/api/rate_limit.py`. Instants are read off a clock that does not go
back, which is an argument of each call; `allow` reads it a second time for what it records.
-/

namespace TcadWebapp.Api

structure RateLimiter (T : Type*) where
  limit : Nat
  windowSeconds : T

/-- `_hits`. -/
abbrev Hits (T : Type*) := Dict String (List T)

namespace RateLimiter

variable {T : Type*} [AddCommGroup T] [LinearOrder T] (limiter : RateLimiter T)

def cutoff (now : T) : T := now - limiter.windowSeconds

/-- `_prune`: the deque of a key without its old hits. One that is stored is cut in place. -/
def prune (hits : Hits T) (key : String) (now : T) : Hits T × List T :=
  match hits.get? key with
  | none => (hits, [])
  | some stored =>
    let kept := stored.dropWhile (· ≤ limiter.cutoff now)
    (hits.set key kept, kept)

def blocked (hits : Hits T) (key : String) (now : T) : Hits T × Bool :=
  let pruned := limiter.prune hits key now
  (pruned.1, limiter.limit ≤ pruned.2.length)

/-- `_collect_garbage`: keys without a hit in the window are dropped. -/
def collectGarbage (hits : Hits T) (now : T) : Hits T :=
  hits.filterKeys fun key =>
    ((hits.get? key).bind List.getLast?).any fun last => limiter.cutoff now < last

def record (hits : Hits T) (key : String) (now : T) : Hits T :=
  let pruned := limiter.prune hits key now
  limiter.collectGarbage (pruned.1.set key (pruned.2 ++ [now])) now

def allow (hits : Hits T) (key : String) (now later : T) : Hits T × Bool :=
  let checked := limiter.blocked hits key now
  if checked.2 then (checked.1, false) else (limiter.record checked.1 key later, true)

/-- `retry_after`; `none` is the `IndexError` of an empty deque, which takes a limit of zero. -/
def retryAfter (hits : Hits T) (key : String) (now : T) : Hits T × Option T :=
  let pruned := limiter.prune hits key now
  if pruned.2.length < limiter.limit then (pruned.1, some 0)
  else (pruned.1, pruned.2.head?.map fun first => max 0 (first + limiter.windowSeconds - now))

end RateLimiter

/-! ## Calls one after the other -/

/-- A call with what it reads off the clock. -/
inductive Call (T : Type*) where
  | allow (key : String) (now later : T)
  | blocked (key : String) (now : T)
  | record (key : String) (now : T)
  | retryAfter (key : String) (now : T)
  deriving DecidableEq, Repr

inductive Answer (T : Type*) where
  | flag (value : Bool)
  | none
  | wait (seconds : Option T)
  deriving DecidableEq, Repr

namespace Call

variable {T : Type*}

def key : Call T → String
  | .allow key _ _ | .blocked key _ | .record key _ | .retryAfter key _ => key

/-- Its first reading of the clock. -/
def now : Call T → T
  | .allow _ now _ | .blocked _ now | .record _ now | .retryAfter _ now => now

/-- No reading is earlier than this. -/
def Begins [LinearOrder T] (since : T) : Call T → Prop
  | .allow _ now later => since ≤ now ∧ now ≤ later
  | .blocked _ now | .record _ now | .retryAfter _ now => since ≤ now

instance [LinearOrder T] (since : T) : ∀ call : Call T, Decidable (call.Begins since)
  | .allow _ now later => inferInstanceAs (Decidable (since ≤ now ∧ now ≤ later))
  | .blocked _ now => inferInstanceAs (Decidable (since ≤ now))
  | .record _ now => inferInstanceAs (Decidable (since ≤ now))
  | .retryAfter _ now => inferInstanceAs (Decidable (since ≤ now))

variable [AddCommGroup T] [LinearOrder T] (limiter : RateLimiter T)

def run (hits : Hits T) : Call T → Hits T × Answer T
  | .allow key now later => (limiter.allow hits key now later).map id .flag
  | .blocked key now => (limiter.blocked hits key now).map id .flag
  | .record key now => (limiter.record hits key now, .none)
  | .retryAfter key now => (limiter.retryAfter hits key now).map id .wait

/-- The instant that a call records. -/
def recorded (hits : Hits T) : Call T → Option T
  | .allow key now later => if (limiter.allow hits key now later).2 then some later else none
  | .record _ now => some now
  | _ => none

/-- Its last reading of the clock. -/
def last (hits : Hits T) (call : Call T) : T := (call.recorded limiter hits).getD call.now

end Call

structure Limiting (T : Type*) where
  hits : Hits T
  now : T

variable {T : Type*} [AddCommGroup T] [LinearOrder T] (limiter : RateLimiter T)

/-- Calls of a limiter that is new at first. -/
def limiting : Lts (Limiting T) (Call T) where
  start s := s.hits = ∅
  step s call :=
    if call.Begins s.now then some ⟨(call.run limiter s.hits).1, call.last limiter s.hits⟩ else none

/-- The records of a key in a run, the latest first: the calls of `record`, and those of `allow`
that returned True. -/
def records (key : String) (h : List (Taken (Limiting T) (Call T))) : List T :=
  h.filterMap fun x => if x.label.key = key then x.label.recorded limiter x.pre.hits else none

/-- What the answers are to be, with the calls of `h` made. -/
structure PlainlyLimits (h : List (Taken (Limiting T) (Call T))) (s : Limiting T) : Prop where
  blocked : ∀ key now, s.now ≤ now → ((limiter.blocked s.hits key now).2 = true ↔
    limiter.limit ≤ (records limiter key h).countP fun r => now - limiter.windowSeconds < r ∧ r ≤ now)
  allow : ∀ key now later,
    (limiter.allow s.hits key now later).2 = !(limiter.blocked s.hits key now).2
  /-- A call for one key changes no answer for another. -/
  apart : ∀ call call' : Call T, call.Begins s.now → call'.Begins (call.last limiter s.hits) →
    call'.key ≠ call.key →
      (call'.run limiter (call.run limiter s.hits).1).2 = (call'.run limiter s.hits).2
  /-- Nor does a collection of garbage. -/
  collected : ∀ now, s.now ≤ now → ∀ call : Call T, call.Begins now →
    (call.run limiter (limiter.collectGarbage s.hits now)).2 = (call.run limiter s.hits).2

/-- The records of a key that lie in the window, the earliest first. -/
def windowOf (key : String) (h : List (Taken (Limiting T) (Call T))) (now : T) : List T :=
  (records limiter key h).reverse.filter (limiter.cutoff now < ·)

/-- What `retry_after` tells is exact: as long as the key has no new record, it is free when that
time is over and not before. -/
def TellsExactly (h : List (Taken (Limiting T) (Call T))) (s : Limiting T) (key : String) (now : T) :
    Prop :=
  ∀ wait told, (limiter.retryAfter s.hits key now).2 = some wait →
    (limiting limiter).step s (.retryAfter key now) = some told →
      ∀ later t, (limiting limiter).Run (later ++ ⟨s, .retryAfter key now, told⟩ :: h) t →
        records limiter key later = [] →
          (t.now ≤ now + wait → (limiter.blocked t.hits key (now + wait)).2 = false) ∧
            ∀ time, t.now ≤ time → time < now + wait → (limiter.blocked t.hits key time).2 = true

/-- As many records as the limit allows are left in the window when those go that were made at the
instant of the first: there is none too many, or those were made at that instant as well. -/
def NoSurplus (h : List (Taken (Limiting T) (Call T))) (key : String) (now : T) : Prop :=
  let window := windowOf limiter key h now
  window[window.length - limiter.limit]? = window.head?

instance (h : List (Taken (Limiting T) (Call T))) (key : String) (now : T) :
    Decidable (NoSurplus limiter h key now) := inferInstanceAs (Decidable (_ = _))

end TcadWebapp.Api
