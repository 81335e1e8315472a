import TcadWebapp.Auth.Policy
import TcadWebapp.Misc.Lts

/-!
# Calls one at a time

Runs of `open_session`, `touch` and `close_session` over a store, each call at its time, and what
such a run says of one session (`Record`).
-/

namespace TcadWebapp.Auth

inductive Call where
  | openSession (userId : String) (role : Role) (id : String)
  | touch (id : String)
  | closeSession (id : String)
  deriving DecidableEq, Repr

structure State where
  store : SessionStore
  /-- The time of the last call. -/
  now : Int

/-- The store after a call. -/
def Call.run (policy : SessionPolicy) (store : SessionStore) (now : Int) : Call → SessionStore
  | .openSession userId role id => (policy.openSession store userId role id now).1
  | .touch id => (policy.touch store id now).1
  | .closeSession id => SessionPolicy.closeSession store id

/-- The calls, at times that do not decrease. -/
def serial (policy : SessionPolicy) : Lts State (Int × Call) where
  start s := s.store = ∅
  step s label :=
    if label.1 < s.now then none else some ⟨label.2.run policy s.store label.1, label.1⟩

/-- What became of one session, or of the last one with an id. -/
structure Record where
  userId : String
  role : Role
  /-- When it was opened and when a touch of it was accepted, the latest first. -/
  activities : List Int
  closed : Bool
  /-- Its user has logged in again. -/
  replaced : Bool
  deriving DecidableEq, Repr

variable (policy : SessionPolicy)

/-- What a call adds to the record of a session. -/
def Record.note (id : String) (record : Option Record) (x : Taken State (Int × Call)) :
    Option Record :=
  let now := x.label.1
  match x.label.2 with
  | .openSession userId role id' =>
    match (policy.openSession x.pre.store userId role id' now).2 with
    | .error _ => record
    | .ok _ =>
      if id' = id then some ⟨userId, role, [now], false, false⟩
      else record.map fun r => if r.userId = userId then { r with replaced := true } else r
  | .touch id' =>
    match (policy.touch x.pre.store id' now).2 with
    | .error _ => record
    | .ok _ =>
      if id' = id then record.map fun r => { r with activities := now :: r.activities }
      else record
  | .closeSession id' =>
    if id' = id then record.map fun r => { r with closed := true } else record

/-- The record of a session in a run. -/
def Record.of (id : String) : List (Taken State (Int × Call)) → Option Record
  | [] => none
  | x :: h => Record.note policy id (Record.of id h) x

/-- No gap between its activities, and up to now, is longer than the idle time. -/
def Record.Lively (r : Record) (now : Int) : Prop :=
  (now :: r.activities).IsChain fun later earlier => later - earlier ≤ policy.idleTimeout

/-- The rules that are to hold, with the calls of `h` done. -/
structure Rules (h : List (Taken State (Int × Call))) (s : State) : Prop where
  capacity : ∀ now ≥ s.now,
    (occupantsOf (s.store.activeSessions now policy.idleTimeout)).card ≤ policy.maxConcurrent
  single : ∀ now ≥ s.now, ∀ a ∈ s.store.activeSessions now policy.idleTimeout,
    ∀ b ∈ s.store.activeSessions now policy.idleTimeout, a.userId = b.userId → a = b
  /-- A touch is accepted, for a session that is not an administrator's. -/
  accepted : ∀ now ≥ s.now, ∀ id,
    (∃ session, (policy.touch s.store id now).2 = .ok session ∧ session.role = .user) ↔
      ∃ r, Record.of policy id h = some r ∧ r.role = .user ∧ r.closed = false ∧
        r.replaced = false ∧ r.Lively policy now

/-- A login is refused if its user has no place and none is free. -/
def RefusedWhenFull (s : State) (role : Role) : Prop :=
  ∀ now ≥ s.now, ∀ userId id,
    (policy.openSession s.store userId role id now).2 = .error .limitExceeded ↔
      userId ∉ occupantsOf (s.store.activeSessions now policy.idleTimeout) ∧
        (policy.occupancy s.store now).isFull = true

end TcadWebapp.Auth
