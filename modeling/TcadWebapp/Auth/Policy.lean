import Mathlib.Data.Finset.Card
import Mathlib.Data.Finset.Dedup
import TcadWebapp.Misc.Dict

/-!
# Sessions and the rules for them

`auth/models.py`, `auth/store.py` and `auth/policy.py`. Times and spans are integers; the id of a
new session is an argument.
-/

namespace TcadWebapp.Auth

inductive Role where
  | user
  | admin
  deriving DecidableEq, Repr

/-- `is_exempt_from_limits`. -/
def Role.isExempt (role : Role) : Bool := role = .admin

structure Session where
  id : String
  userId : String
  role : Role
  createdAt : Int
  lastSeenAt : Int
  deriving DecidableEq, Repr

/-- `touched_at`. -/
def Session.touchedAt (session : Session) (now : Int) : Session :=
  { session with lastSeenAt := now }

/-- `InMemorySessionStore`: the sessions saved and not deleted, by their ids. -/
abbrev SessionStore := Dict String Session

def SessionStore.save (store : SessionStore) (session : Session) : SessionStore :=
  Dict.set store session.id session

def SessionStore.delete (store : SessionStore) (id : String) : SessionStore :=
  Dict.erase store id

/-- `active_sessions`. -/
def SessionStore.activeSessions (store : SessionStore) (now idleTimeout : Int) : List Session :=
  (Dict.entries store).map Prod.snd |>.filter fun session =>
    session.role.isExempt ∨ now - session.lastSeenAt ≤ idleTimeout

/-- `_occupants`. -/
def occupantsOf (sessions : List Session) : Finset String :=
  ((sessions.filter fun session => !session.role.isExempt).map Session.userId).toFinset

structure Occupancy where
  occupied : Nat
  capacity : Nat
  admins : Nat
  deriving DecidableEq, Repr

def Occupancy.isFull (occupancy : Occupancy) : Bool := occupancy.occupied ≥ occupancy.capacity

/-- `SessionLimitExceeded`, and the KeyErrors of `touch`. -/
inductive Refusal where
  | limitExceeded
  | notFound
  | expired
  deriving DecidableEq, Repr

/-- `SessionPolicy`, without the life time of cookies. -/
structure SessionPolicy where
  maxConcurrent : Nat
  idleTimeout : Int

namespace SessionPolicy

variable (policy : SessionPolicy)

/-- `is_active`. -/
def isActive (session : Session) (now : Int) : Bool :=
  session.role.isExempt ∨ now - session.lastSeenAt ≤ policy.idleTimeout

/-- `_require_free_slot` (`policy.py:170-181`). -/
def requireFreeSlot (store : SessionStore) (userId : String) (now : Int) : Except Refusal Unit :=
  let occupants := occupantsOf (store.activeSessions now policy.idleTimeout)
  if userId ∈ occupants then .ok ()
  else if occupants.card ≥ policy.maxConcurrent then .error .limitExceeded
  else .ok ()

/-- `_revoke_existing` (`policy.py:162-168`). -/
def revokeExisting (store : SessionStore) (userId : String) (now : Int) : SessionStore :=
  (store.activeSessions now policy.idleTimeout).foldl (fun store session =>
    if session.userId = userId then store.delete session.id else store) store

/-- The session that `open_session` saves. -/
def newSession (userId : String) (role : Role) (id : String) (now : Int) : Session :=
  ⟨id, userId, role, now, now⟩

/-- `open_session` (`policy.py:90-121`): the store, and the session or the refusal. -/
def openSession (store : SessionStore) (userId : String) (role : Role) (id : String) (now : Int) :
    SessionStore × Except Refusal Session :=
  match if role.isExempt then .ok () else policy.requireFreeSlot store userId now with
  | .error refusal => (store, .error refusal)
  | .ok () =>
    let session := newSession userId role id now
    ((policy.revokeExisting store userId now).save session, .ok session)

/-- `touch` (`policy.py:123-140`). -/
def touch (store : SessionStore) (id : String) (now : Int) :
    SessionStore × Except Refusal Session :=
  match Dict.get? store id with
  | none => (store, .error .notFound)
  | some session =>
    if policy.isActive session now then
      (store.save (session.touchedAt now), .ok (session.touchedAt now))
    else (store.delete id, .error .expired)

/-- `close_session`. -/
def closeSession (store : SessionStore) (id : String) : SessionStore := store.delete id

/-- `occupancy` (`policy.py:146-160`). -/
def occupancy (store : SessionStore) (now : Int) : Occupancy where
  occupied := (occupantsOf (store.activeSessions now policy.idleTimeout)).card
  capacity := policy.maxConcurrent
  admins := (((store.activeSessions now policy.idleTimeout).filter
    fun session => session.role.isExempt).map Session.userId).toFinset.card

end SessionPolicy

end TcadWebapp.Auth
