import TcadWebapp.Auth.Rules

/-!
# Calls that overlap

Each call of the policy is a row of calls of the store, and requests do these in any order: what a
call has read may be out of date when it saves or deletes.
-/

namespace TcadWebapp.Auth

/-- What a request is about to do; `now` is the time it was given. -/
inductive Phase where
  /-- `_require_free_slot` reads the active sessions. -/
  | count (userId : String) (now : Int)
  /-- `_revoke_existing` reads the active sessions. -/
  | list (userId : String) (role : Role) (now : Int)
  /-- `_revoke_existing` deletes the sessions of these ids; then the new one is saved. -/
  | revoke (userId : String) (role : Role) (now : Int) (ids : List String)
  /-- `touch` reads the session. -/
  | get (id : String) (now : Int)
  /-- `touch` saves the session that it read, with its time. -/
  | refresh (session : Session)
  /-- `touch` deletes the session that had expired. -/
  | expire (id : String)
  /-- `close_session` deletes the session. -/
  | close (id : String)
  | done
  deriving DecidableEq, Repr

/-- The parties at one moment. -/
structure Situation where
  store : SessionStore
  clock : Int
  requests : List Phase
  /-- The sessions saved by `open_session` so far, as they were then. -/
  opened : List Session

inductive Event where
  /-- Time goes on. -/
  | tick (now : Int)
  /-- A request comes; an id is drawn only when a session is saved. -/
  | request (call : Call)
  /-- A request calls the store; `id` is the one drawn if it saves a new session. -/
  | act (i : Nat) (id : String)
  /-- The store drops a session whose time to live is over. -/
  | drop (id : String)
  deriving DecidableEq, Repr

variable (policy : SessionPolicy)

/-- The first phase of a call that is made now. -/
def Call.begin (now : Int) : Call → Phase
  | .openSession userId .user _ => .count userId now
  | .openSession userId .admin _ => .list userId .admin now
  | .touch id => .get id now
  | .closeSession id => .close id

/-- One call of the store: the situation after it, without the phase, and the next phase. -/
def Phase.act (s : Situation) (id : String) : Phase → Option (Situation × Phase)
  | .count userId now =>
    match policy.requireFreeSlot s.store userId now with
    | .ok () => some (s, .list userId .user now)
    | .error _ => some (s, .done)
  | .list userId role now =>
    let active := s.store.activeSessions now policy.idleTimeout
    some (s, .revoke userId role now
      ((active.filter fun session => session.userId = userId).map Session.id))
  | .revoke userId role now (first :: ids) =>
    some ({ s with store := s.store.delete first }, .revoke userId role now ids)
  | .revoke userId role now [] =>
    let session := SessionPolicy.newSession userId role id now
    if id ∈ s.opened.map Session.id then none
    else some ({ s with store := s.store.save session, opened := session :: s.opened }, .done)
  | .get id now =>
    match Dict.get? s.store id with
    | none => some (s, .done)
    | some session =>
      if policy.isActive session now then some (s, .refresh (session.touchedAt now))
      else some (s, .expire id)
  | .refresh session => some ({ s with store := s.store.save session }, .done)
  | .expire id => some ({ s with store := s.store.delete id }, .done)
  | .close id => some ({ s with store := s.store.delete id }, .done)
  | .done => none

/-- Requests whose calls of the store overlap in any way. -/
def concurrent : Lts Situation Event where
  start s := s.store = ∅ ∧ s.requests = [] ∧ s.opened = []
  step s event :=
    match event with
    | .tick now => if now < s.clock then none else some { s with clock := now }
    | .request call => some { s with requests := s.requests ++ [call.begin s.clock] }
    | .act i id =>
      match s.requests[i]? with
      | none => none
      | some phase => (phase.act policy s id).map fun next =>
          { next.1 with requests := s.requests.set i next.2 }
    | .drop id =>
      match Dict.get? s.store id with
      | none => none
      | some session =>
        if session.role = .user ∧ policy.idleTimeout ≤ s.clock - session.lastSeenAt then
          some { s with store := s.store.delete id }
        else none

/-- In this phase a logout or a later login deletes the session of an id. -/
def Phase.Deletes (id : String) : Phase → Prop
  | .close id' => id' = id
  | .revoke _ _ _ (first :: _) => first = id
  | _ => False

/-- What the phase saves still fits the store: a new session, if its user has no other that is
active and, but for administrators, a place is free; a touched one, if it is still there and
active. -/
def Phase.upToDate (s : Situation) : Phase → Bool
  | .revoke userId role _ [] =>
    let active := s.store.activeSessions s.clock policy.idleTimeout
    (∀ session ∈ active, session.userId ≠ userId) ∧
      (role = .user → (occupantsOf active).card < policy.maxConcurrent)
  | .refresh session =>
    (Dict.get? s.store session.id).any fun stored => policy.isActive stored s.clock
  | _ => true

def Event.upToDate (s : Situation) : Event → Bool
  | .act i _ => (s.requests[i]?).all (Phase.upToDate policy s)
  | _ => true

end TcadWebapp.Auth
