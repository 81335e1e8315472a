import TcadWebapp.Auth.Invites
import TcadWebapp.Auth.Policy
import TcadWebapp.Misc.Text

/-!
# Registration, statement by statement

`register` of `backend/app/api/routes_auth.py` and `register_user` of
`backend/app/auth/service.py`. A request first redeems its code, by a call of `redeem_invite` that
commits on its own (`Auth/Invites`), and then looks its e-mail up and inserts the account. The
command line of `auth/create_user.py` runs the second half alone.
-/

namespace TcadWebapp.Auth

/-- A row of `users`. -/
structure User where
  id : Nat
  email : Text
  role : Role
  inviteCodeId : Option Nat
  deriving DecidableEq, Repr

/-- How far a request has come. -/
inductive Stage where
  /-- Its call of `redeem_invite` is under way. -/
  | redeeming
  /-- `register_user` is about to look for the e-mail. -/
  | lookingUp (inviteId : Option Nat)
  /-- The e-mail was free; the row is about to be inserted. -/
  | inserting (inviteId : Option Nat)
  | created (user : User)
  /-- `InviteError`: 403. -/
  | forbidden (error : InviteError)
  /-- `EmailAlreadyRegistered`: 409. -/
  | conflict
  /-- An exception that nothing catches: 500. -/
  | failed
  deriving DecidableEq, Repr

structure Registration where
  /-- The e-mail as it was sent. -/
  email : Text
  role : Role
  /-- The place of its call of `redeem_invite`; the command line makes none. -/
  call : Option Nat
  stage : Stage
  deriving DecidableEq, Repr

abbrev UserTable := Table User.email Unit

structure Registrations where
  invites : Invites
  users : UserTable
  /-- The requests made so far; one is named by its place. -/
  requests : List Registration

-- `hash_code` and `str.lower`
variable (hashCode : String → String) (lower : Text → Text)

/-- `_normalize_email`. -/
def normalizeEmail (email : Text) : Text := lower email.strip

/-- The row that `register_user` adds, under the next id of the sequence. -/
def Registration.user (request : Registration) (id : Nat) (inviteId : Option Nat) : User :=
  ⟨id, normalizeEmail lower request.email, request.role, inviteId⟩

/-- The next statement of a request: the accounts after it and how far the request is then. -/
def Registration.act (calls : List InviteCall) (users : UserTable) (id : Nat)
    (request : Registration) : Option (UserTable × Stage) :=
  match request.stage with
  | .redeeming =>
    match request.call.bind fun i => calls[i]? with
    | some (.returned (some invite)) => some (users, .lookingUp (some invite.id))
    -- `invite.id` of None
    | some (.returned none) => some (users, .failed)
    | some (.refused error) => some (users, .forbidden error)
    | _ => none
  | .lookingUp inviteId =>
    if (users.get? (normalizeEmail lower request.email)).isSome then some (users, .conflict)
    else some (users, .inserting inviteId)
  | .inserting inviteId =>
    let user := request.user lower id inviteId
    if id ∈ users.rows.map User.id then none
    else
      match users.insert user with
      -- the unique column: `IntegrityError`
      | none => some (users, .failed)
      | some users' => some (users', .created user)
  | _ => none

inductive RegistrationStep where
  /-- An invite is issued or revoked, or a call of `redeem_invite` goes on. -/
  | invite (step : InviteStep)
  /-- A request comes in, and its call of `redeem_invite` reads the clock. -/
  | register (email : Text) (code : String) (now : Int)
  /-- The command line calls `register_user`. -/
  | createUser (email : Text) (role : Role)
  /-- The next statement of a request; `id` is the sequence's for a row it inserts. -/
  | act (i id : Nat)
  deriving DecidableEq, Repr

/-- The requests, over a database without a row. -/
def registrations : Lts Registrations RegistrationStep where
  start s := s = ⟨⟨.empty, []⟩, .empty, []⟩
  step s label :=
    match label with
    -- redemptions are made by requests only
    | .invite (.redeem _ _) => none
    | .invite step => ((invites hashCode).step s.invites step).map fun t => { s with invites := t }
    | .register email code now =>
      ((invites hashCode).step s.invites (.redeem code now)).map fun t =>
        { s with
          invites := t
          requests := s.requests ++ [⟨email, .user, some s.invites.calls.length, .redeeming⟩] }
    | .createUser email role =>
      some { s with requests := s.requests ++ [⟨email, role, none, .lookingUp none⟩] }
    | .act i id =>
      match s.requests[i]? with
      | none => none
      | some request => (request.act lower s.invites.calls s.users id).map fun r =>
        { s with users := r.1, requests := s.requests.set i { request with stage := r.2 } }

/-- The account that the request has made. -/
def Registration.created (request : Registration) : Option User :=
  match request.stage with
  | .created user => some user
  | _ => none

def Registration.hasEnded (request : Registration) : Bool :=
  match request.stage with
  | .created _ | .forbidden _ | .conflict | .failed => true
  | _ => false

/-- The step is a statement of the request at place `i`, or one of its redemption. -/
def RegistrationStep.isOf (i : Nat) (request : Registration) : RegistrationStep → Prop
  | .act j _ => j = i
  | .invite (.act c) => request.call = some c
  | _ => False

/-- Registration was all or nothing. -/
structure AllOrNothing (h : List (Taken Registrations RegistrationStep)) (s : Registrations) :
    Prop where
  counted : ∀ invite ∈ s.invites.table.rows,
    invite.usedCount = s.users.rows.countP fun user => user.inviteCodeId = some invite.id
  /-- The accounts are those that requests have made, under e-mails that differ in more than case
  and outer blanks. -/
  registered : ∀ user, user ∈ s.users.rows ↔ ∃ request ∈ s.requests, request.created = some user
  apart : s.requests.Pairwise fun a b => a.created.isSome → b.created.isSome →
    normalizeEmail lower a.email ≠ normalizeEmail lower b.email
  /-- No statement of a request without an account has changed a count. -/
  unchanged : ∀ (i : Nat) (request : Registration), s.requests[i]? = some request →
    request.created = none → ∀ x ∈ h, x.label.isOf i request →
      x.post.invites.table.rows.map InviteCode.usedCount =
        x.pre.invites.table.rows.map InviteCode.usedCount

/-- `register_user` is under way. -/
def Stage.isRegistering : Stage → Bool
  | .lookingUp _ | .inserting _ => true
  | _ => false

/-- With this step a request that has used a code comes upon its e-mail at an account. -/
def RegistrationStep.clashes (s : Registrations) : RegistrationStep → Bool
  | .act i _ => (s.requests[i]?).any fun request =>
      request.call.isSome && request.stage.isRegistering &&
        decide (normalizeEmail lower request.email ∈ s.users.rows.map User.email)
  | _ => false

end TcadWebapp.Auth
