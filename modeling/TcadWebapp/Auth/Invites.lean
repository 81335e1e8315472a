import TcadWebapp.Misc.Lts
import TcadWebapp.Misc.Table

/-!
# Invitation codes, statement by statement

`backend/app/auth/invites.py`. Any number of calls of `redeem_invite` and `revoke_invite` are under
way at once, each with a database session of its own; one step is one statement of one call
(`Misc/Table`). A code is stored as its hash, which is the unique key of the rows.
-/

namespace TcadWebapp.Auth

/-- A row of `invite_codes`. -/
structure InviteCode where
  id : Nat
  codeHash : String
  expiresAt : Int
  maxUses : Nat
  usedCount : Nat
  revokedAt : Option Int
  deriving DecidableEq, Repr

inductive InviteError where
  | notFound (code : String)
  | expired (id : Nat)
  | exhausted (id : Nat)
  | revoked (id : Nat)
  deriving DecidableEq, Repr

/-- How far a call of `redeem_invite` or `revoke_invite` has come; `now` is its reading of the
clock. -/
inductive InviteCall where
  /-- `redeem_invite` is about to send its conditional UPDATE. -/
  | redeem (code : String) (now : Int)
  /-- The UPDATE was executed and hit the rows that `images` replace. -/
  | redeemed (code : String) (now : Int) (images : List InviteCode)
  /-- The use is committed; the row is about to be read for the result. -/
  | committed (code : String)
  /-- The session was rolled back; the row is about to be read for the reason. -/
  | rolledBack (code : String) (now : Int)
  | returned (invite : Option InviteCode)
  | refused (error : InviteError)
  /-- `revoke_invite` is about to send its UPDATE. -/
  | revoke (id : Nat) (now : Int)
  | revoking (id : Nat) (images : List InviteCode)
  | revoked (id : Nat) (hit : Bool)
  deriving DecidableEq, Repr

abbrev InviteTable := Table InviteCode.codeHash Nat

/-- The rows, and the calls made so far; a call is named by its place. -/
structure Invites where
  table : InviteTable
  calls : List InviteCall

-- `hash_code`
variable (hashCode : String → String)

/-- The WHERE clause of `redeem_invite`. -/
def redeemable (code : String) (now : Int) (invite : InviteCode) : Bool :=
  invite.codeHash = hashCode code && invite.revokedAt.isNone && now < invite.expiresAt &&
    invite.usedCount < invite.maxUses

/-- The SET clause of `redeem_invite`. -/
def useOnce (invite : InviteCode) : InviteCode :=
  { invite with usedCount := invite.usedCount + 1 }

/-- The WHERE clause of `revoke_invite`. -/
def revocable (id : Nat) (invite : InviteCode) : Bool :=
  invite.id = id && invite.revokedAt.isNone

/-- The SET clause of `revoke_invite`. -/
def revokeAt (now : Int) (invite : InviteCode) : InviteCode :=
  { invite with revokedAt := some now }

/-- What `redeem_invite` raises for the row that it read after the rollback. -/
def refusal (code : String) (now : Int) : Option InviteCode → InviteError
  | none => .notFound code
  | some invite =>
    if invite.revokedAt.isSome then .revoked invite.id
    else if invite.expiresAt ≤ now then .expired invite.id
    else .exhausted invite.id

/-- The next statement of the call `me`: the table after it and how far the call is then. -/
def InviteCall.act (table : InviteTable) (me : Nat) :
    InviteCall → Option (InviteTable × InviteCall)
  | .redeem code now =>
    (table.update me (redeemable hashCode code now) useOnce).map fun r =>
      (r.2, .redeemed code now r.1)
  | .redeemed code now images =>
    -- `result.rowcount == 1`
    if images.length = 1 then some (table.commit me images, .committed code)
    else some (table.release me, .rolledBack code now)
  | .committed code => some (table, .returned (table.get? (hashCode code)))
  | .rolledBack code now =>
    some (table, .refused (refusal code now (table.get? (hashCode code))))
  | .revoke id now =>
    (table.update me (revocable id) (revokeAt now)).map fun r => (r.2, .revoking id r.1)
  | .revoking id images => some (table.commit me images, .revoked id (images.length = 1))
  | .returned _ | .refused _ | .revoked _ _ => none

inductive InviteStep where
  /-- `issue_invite` for a code that was drawn, with an id from the sequence. -/
  | issue (id : Nat) (code : String) (maxUses : Nat) (expiresAt : Int)
  /-- A call of `redeem_invite` reads the clock. -/
  | redeem (code : String) (now : Int)
  /-- A call of `revoke_invite` reads the clock. -/
  | revoke (id : Nat) (now : Int)
  /-- The next statement of a call. -/
  | act (i : Nat)
  deriving DecidableEq, Repr

/-- The invitations, from none at all. -/
def invites : Lts Invites InviteStep where
  start s := s = ⟨.empty, []⟩
  step s label :=
    match label with
    | .issue id code maxUses expiresAt =>
      if maxUses < 1 ∨ id ∈ s.table.rows.map InviteCode.id then none
      else (s.table.insert ⟨id, hashCode code, expiresAt, maxUses, 0, none⟩).map fun table =>
        { s with table := table }
    | .redeem code now => some { s with calls := s.calls ++ [.redeem code now] }
    | .revoke id now => some { s with calls := s.calls ++ [.revoke id now] }
    | .act i =>
      match s.calls[i]? with
      | none => none
      | some call => (call.act hashCode s.table i).map fun r => ⟨r.1, s.calls.set i r.2⟩

/-- The call returned this invite. -/
def InviteCall.hasReturned (invite : InviteCode) : InviteCall → Bool
  | .returned (some result) => result.codeHash = invite.codeHash
  | _ => false

/-- The call has committed a use of this invite and reads it next. -/
def InviteCall.hasCommitted (invite : InviteCode) : InviteCall → Bool
  | .committed code => hashCode code = invite.codeHash
  | _ => false

/-- The call is a redemption that succeeds. -/
def InviteCall.succeeds : InviteCall → Bool
  | .committed _ | .returned _ => true
  | .redeemed _ _ images => images.length = 1
  | _ => false

/-- What holds of the invitations after a run. -/
structure InvitesKept (h : List (Taken Invites InviteStep)) (s : Invites) : Prop where
  /-- The count is that of the redemptions that were committed: those that returned the invite and
  those that are about to. -/
  counted : ∀ invite ∈ s.table.rows, invite.usedCount =
    s.calls.countP (InviteCall.hasReturned invite) +
      s.calls.countP (InviteCall.hasCommitted hashCode invite)
  capped : ∀ invite ∈ s.table.rows, invite.usedCount ≤ invite.maxUses
  /-- A redemption that was committed returns the invite with its next statement. -/
  returns : ∀ (i : Nat) (code : String), s.calls[i]? = some (.committed code) →
    ∃ invite ∈ s.table.rows, invite.codeHash = hashCode code ∧
      (invites hashCode).step s (.act i) =
        some { s with calls := s.calls.set i (.returned (some invite)) }
  /-- No redemption succeeds that sends its UPDATE after a revocation took effect or that read the
  clock too late. -/
  late : ∀ x ∈ h, ∀ (i : Nat) (code : String) (now : Int), x.label = .act i →
    x.pre.calls[i]? = some (.redeem code now) →
      ∀ invite ∈ x.pre.table.rows, invite.codeHash = hashCode code →
        (.revoked invite.id true ∈ x.pre.calls ∨ invite.expiresAt ≤ now) →
          ∀ call, s.calls[i]? = some call → call.succeeds = false
  /-- No statement of a redemption that was refused has changed a row. -/
  refused : ∀ (i : Nat) (error : InviteError), s.calls[i]? = some (.refused error) →
    ∀ x ∈ h, x.label = .act i → x.post.table.rows = x.pre.table.rows

end TcadWebapp.Auth
