import TcadWebapp.Auth.Registration
import TcadWebapp.Auth.Proofs.Invites

/-!
# When registration is all or nothing

The redemptions of the requests are a run of the invitations (`redemptions`), so the count of an
invite is that of the calls that used it, and each of them belongs to one request. The accounts are
those of the requests that have made one. So a count is right as long as no request that has used a
code ends without an account, and it stays wrong from the first that does.
-/

namespace TcadWebapp.Auth

variable {hashCode : String → String} {lower : Text → Text}

/-! ## What the calls return -/

/-- What a call returned is a row that is still there, and ids are unique. -/
structure Invites.Answers (s : Invites) : Prop where
  ids : (s.table.rows.map InviteCode.id).Nodup
  answers : ∀ result, .returned result ∈ s.calls → ∃ invite, result = some invite ∧
    ∃ row ∈ s.table.rows, row.id = invite.id ∧ row.codeHash = invite.codeHash

theorem Invites.Answers.row {s : Invites} (h : s.Answers) {i : Nat} {invite : InviteCode}
    (here : s.calls[i]? = some (.returned (some invite))) :
    ∃ row ∈ s.table.rows, row.id = invite.id ∧ row.codeHash = invite.codeHash := by
  obtain ⟨invite', same, row⟩ := h.answers _ (List.mem_of_getElem? here)
  rwa [Option.some.inj same]

theorem Invites.Answers.ne_none {s : Invites} (h : s.Answers) {i : Nat} :
    s.calls[i]? ≠ some (.returned none) := by
  intro here
  obtain ⟨invite, none, -⟩ := h.answers _ (List.mem_of_getElem? here)
  cases none

theorem Effect.ids {table table' : InviteTable} {me : Nat} {call next : InviteCall}
    (h : Effect hashCode table me call table' next) (fits : call.Fits hashCode table me) :
    table'.rows.map InviteCode.id = table.rows.map InviteCode.id := by
  have written : ∀ {images : List InviteCode}, table.Pending (call.Writes hashCode) me images →
      (table.commit me images).rows.map InviteCode.id = table.rows.map InviteCode.id := by
    intro images pending
    show (table.rows.map _).map _ = _
    rw [List.map_map]
    exact List.map_congr_left fun r hr => (keptAs_image pending hr).1
  cases h with
  | redeemed code now images table' updated => rw [(Table.update_eq_some updated).2.1]
  | committed code now image => exact written fits.1
  | revoking id now images table' updated => rw [(Table.update_eq_some updated).2.1]
  | revoked id images => exact written fits.1
  | _ => rfl

/-- Only a committed use is returned, and its row is there. -/
theorem Effect.answer {table table' : InviteTable} {me : Nat} {call : InviteCall}
    {result : Option InviteCode} (h : Effect hashCode table me call table' (.returned result))
    (fits : call.Fits hashCode table me) : ∃ invite ∈ table'.rows, result = some invite := by
  cases h with
  | returned code =>
    have known : hashCode code ∈ table.rows.map InviteCode.codeHash := by
      apply fits.2.1
      simp [InviteCall.uses]
    obtain ⟨invite, mem, hash⟩ := List.mem_map.mp known
    exact ⟨invite, mem, hash ▸ Table.get?_of_mem mem⟩

theorem Invites.Answers.step {s t : Invites} {label : InviteStep} (h : s.Answers)
    (inv : s.Inv hashCode) (did : label.Did hashCode s t) : t.Answers := by
  cases did with
  | issued id code maxUses expiresAt table fresh inserted =>
    obtain ⟨-, rows, -⟩ := Table.insert_eq_some inserted
    refine ⟨?_, ?_⟩
    · show (table.rows.map InviteCode.id).Nodup
      rw [rows, List.map_append, List.map_singleton]
      exact List.nodup_append.mpr ⟨h.ids, List.nodup_singleton _, by simpa using fresh⟩
    · intro result mem
      obtain ⟨invite, rfl, row, hrow, same⟩ := h.answers result mem
      exact ⟨invite, rfl, row, rows ▸ List.mem_append_left _ hrow, same⟩
  | redeem code now => exact ⟨h.ids, fun result mem => h.answers result (by simpa using mem)⟩
  | revoke id now => exact ⟨h.ids, fun result mem => h.answers result (by simpa using mem)⟩
  | act i call next table here effect =>
    have fits := inv.fits i call here
    refine ⟨?_, ?_⟩
    · show (table.rows.map InviteCode.id).Nodup
      rw [effect.ids fits]
      exact h.ids
    · intro result mem
      rcases List.mem_or_eq_of_mem_set mem with mem | rfl
      · obtain ⟨invite, rfl, row, hrow, id, hash⟩ := h.answers result mem
        obtain ⟨row', hrow', id', hash', -⟩ := (effect.kept fits).1.kept row hrow
        exact ⟨invite, rfl, row', hrow', id'.trans id, hash'.trans hash⟩
      · obtain ⟨invite, hrow, rfl⟩ := effect.answer fits
        exact ⟨invite, rfl, invite, hrow, rfl, rfl⟩

theorem answers_inductive :
    (invites hashCode).Inductive fun s => Invites.Inv hashCode s ∧ s.Answers where
  start := by
    intro s start
    refine ⟨invites_inductive.start s start, ?_⟩
    obtain rfl := start
    exact ⟨List.nodup_nil, nofun⟩
  step := by
    intro s label t inv h
    exact ⟨invites_inductive.step s label t inv.1 h, inv.2.step inv.1 (did_of_step h)⟩

/-! ## What a step does -/

/-- What one statement of a request does. -/
inductive Registration.Moves (lower : Text → Text) (calls : List InviteCall) (users : UserTable)
    (id : Nat) (request : Registration) : UserTable → Stage → Prop
  | redeemed (i : Nat) (invite : InviteCode) (redeeming : request.stage = .redeeming)
      (call : request.call = some i) (returned : calls[i]? = some (.returned (some invite))) :
      Moves lower calls users id request users (.lookingUp (some invite.id))
  | lost (i : Nat) (redeeming : request.stage = .redeeming) (call : request.call = some i)
      (returned : calls[i]? = some (.returned none)) :
      Moves lower calls users id request users .failed
  | forbidden (i : Nat) (error : InviteError) (redeeming : request.stage = .redeeming)
      (call : request.call = some i) (refused : calls[i]? = some (.refused error)) :
      Moves lower calls users id request users (.forbidden error)
  | conflict (inviteId : Option Nat) (lookingUp : request.stage = .lookingUp inviteId)
      (taken : normalizeEmail lower request.email ∈ users.rows.map User.email) :
      Moves lower calls users id request users .conflict
  | free (inviteId : Option Nat) (lookingUp : request.stage = .lookingUp inviteId)
      (free : normalizeEmail lower request.email ∉ users.rows.map User.email) :
      Moves lower calls users id request users (.inserting inviteId)
  | failed (inviteId : Option Nat) (inserting : request.stage = .inserting inviteId)
      (taken : normalizeEmail lower request.email ∈ users.rows.map User.email) :
      Moves lower calls users id request users .failed
  | created (inviteId : Option Nat) (inserting : request.stage = .inserting inviteId)
      (users' : UserTable) (inserted : users.insert (request.user lower id inviteId) = some users') :
      Moves lower calls users id request users' (.created (request.user lower id inviteId))

theorem moves_of_act {calls : List InviteCall} {users users' : UserTable} {id : Nat}
    {request : Registration} {stage : Stage}
    (h : request.act lower calls users id = some (users', stage)) :
    request.Moves lower calls users id users' stage := by
  unfold Registration.act at h
  split at h
  · rename_i redeeming
    cases call : request.call with
    | none => simp [call] at h
    | some i =>
      simp only [call, Option.bind_some] at h
      split at h
      · rename_i invite returned
        cases h
        exact .redeemed i invite redeeming call returned
      · rename_i returned
        cases h
        exact .lost i redeeming call returned
      · rename_i error refused
        cases h
        exact .forbidden i error redeeming call refused
      · cases h
  · rename_i inviteId lookingUp
    split at h
    · rename_i found
      cases h
      refine .conflict inviteId lookingUp ?_
      by_contra free
      rw [Table.get?_eq_none.mpr free] at found
      cases found
    · rename_i notFound
      cases h
      refine .free inviteId lookingUp ?_
      exact Table.get?_eq_none.mp (Option.not_isSome_iff_eq_none.mp notFound)
  · rename_i inviteId inserting
    split at h
    · cases h
    · dsimp only at h
      split at h
      · rename_i refused
        cases h
        exact .failed inviteId inserting (Table.insert_eq_none.mp refused)
      · rename_i users' inserted
        cases h
        exact .created inviteId inserting users' inserted
  · cases h

inductive RegistrationStep.Did (hashCode : String → String) (lower : Text → Text)
    (s : Registrations) : RegistrationStep → Registrations → Prop
  | invite (step : InviteStep) (t : Invites) (other : ∀ code now, step ≠ .redeem code now)
      (taken : (invites hashCode).step s.invites step = some t) :
      Did hashCode lower s (.invite step) ⟨t, s.users, s.requests⟩
  | register (email : Text) (code : String) (now : Int) :
      Did hashCode lower s (.register email code now)
        ⟨⟨s.invites.table, s.invites.calls ++ [.redeem code now]⟩, s.users,
          s.requests ++ [⟨email, .user, some s.invites.calls.length, .redeeming⟩]⟩
  | createUser (email : Text) (role : Role) :
      Did hashCode lower s (.createUser email role)
        ⟨s.invites, s.users, s.requests ++ [⟨email, role, none, .lookingUp none⟩]⟩
  | act (i id : Nat) (request : Registration) (users : UserTable) (stage : Stage)
      (here : s.requests[i]? = some request)
      (moves : request.Moves lower s.invites.calls s.users id users stage) :
      Did hashCode lower s (.act i id)
        ⟨s.invites, users, s.requests.set i { request with stage := stage }⟩

theorem registrationDid_of_step {s t : Registrations} {label : RegistrationStep}
    (h : (registrations hashCode lower).step s label = some t) : label.Did hashCode lower s t := by
  cases label with
  | invite step =>
    cases step with
    | redeem code now => cases h
    | _ =>
      simp only [registrations, Option.map_eq_some_iff] at h
      obtain ⟨u, taken, rfl⟩ := h
      exact .invite _ u (by simp) taken
  | register email code now =>
    cases h
    exact .register email code now
  | createUser email role =>
    cases h
    exact .createUser email role
  | act i id =>
    simp only [registrations] at h
    split at h
    · cases h
    · rename_i request here
      obtain ⟨⟨users, stage⟩, acted, rfl⟩ := Option.map_eq_some_iff.mp h
      exact .act i id request users stage here (moves_of_act acted)

variable (hashCode lower) in
/-- The redemptions and revocations are a run of the invitations. -/
def redemptions : Lts.Refinement (registrations hashCode lower) (invites hashCode)
    fun _ => True where
  map := Registrations.invites
  label x :=
    match x.label with
    | .invite step => some step
    | .register _ code now => some (.redeem code now)
    | _ => none
  start s h := by
    obtain rfl : s = _ := h
    rfl
  stutter s label t _ h silent := by
    cases registrationDid_of_step h with
    | invite step t other taken => cases silent
    | register email code now => cases silent
    | createUser email role => rfl
    | act i id request users stage here moves => rfl
  step s label t step _ h is := by
    cases registrationDid_of_step h with
    | invite step t other taken =>
      cases is
      exact taken
    | register email code now =>
      cases is
      rfl
    | createUser email role => cases is
    | act i id request users stage here moves => cases is

theorem Registrations.answers_of_run {h : List (Taken Registrations RegistrationStep)}
    {s : Registrations} (run : (registrations hashCode lower).Run h s) :
    Invites.Inv hashCode s.invites ∧ s.invites.Answers :=
  ((redemptions hashCode lower).run ⟨fun _ _ => trivial, fun _ _ _ _ _ => trivial⟩ run).invariant answers_inductive

/-! ## The invariant -/

/-- The call is one of `redeem_invite`. -/
def InviteCall.redeems : InviteCall → Bool
  | .revoke _ _ | .revoking _ _ | .revoked _ _ => false
  | _ => true

theorem Effect.redeems {table table' : InviteTable} {me : Nat} {call next : InviteCall}
    (h : Effect hashCode table me call table' next) : next.redeems = call.redeems := by
  cases h <;> rfl

/-- Past the redemption, with this invite. -/
def Stage.Holds (inviteId : Option Nat) : Stage → Prop
  | .lookingUp id | .inserting id => id = inviteId
  | .created user => user.inviteCodeId = inviteId
  | .conflict | .failed => True
  | .redeeming | .forbidden _ => False

/-- The stage of a request whose call is this one. -/
def Stage.Follows (call : InviteCall) (stage : Stage) : Prop :=
  stage = .redeeming ∨ (∃ error, call = .refused error ∧ stage = .forbidden error) ∨
    ∃ invite, call = .returned (some invite) ∧ stage.Holds (some invite.id)

/-- How far a request is, its call tells. -/
def Registration.Knows (calls : List InviteCall) (request : Registration) : Prop :=
  match request.call with
  | none => request.stage.Holds none
  | some i => ∃ call, calls[i]? = some call ∧ call.redeems = true ∧ request.stage.Follows call

structure Registrations.Inv (lower : Text → Text) (s : Registrations) : Prop where
  knows : ∀ request ∈ s.requests, request.Knows s.invites.calls
  /-- Each redemption is that of one request. -/
  one : (s.requests.filterMap Registration.call).Nodup
  owned : ∀ (i : Nat) (call : InviteCall), s.invites.calls[i]? = some call → call.redeems = true →
    i ∈ s.requests.filterMap Registration.call
  accounts : s.users.rows.Perm (s.requests.filterMap Registration.created)
  normal : ∀ request ∈ s.requests, ∀ user, request.created = some user →
    user.email = normalizeEmail lower request.email

/-- A call that a request waits for goes on; one that has ended stays as it is. -/
theorem Registration.Knows.invite {s t : Invites} {step : InviteStep} {request : Registration}
    (h : request.Knows s.calls) (did : step.Did hashCode s t) : request.Knows t.calls := by
  unfold Registration.Knows at h ⊢
  cases which : request.call with
  | none => rwa [which] at h
  | some i =>
    rw [which] at h
    obtain ⟨call, here, redeems, follows⟩ := h
    rcases did.call here with ⟨-, same⟩ | ⟨next, moved, effect⟩
    · exact ⟨call, same, redeems, follows⟩
    · refine ⟨next, moved, effect.redeems.trans redeems, ?_⟩
      rcases follows with waits | ⟨error, rfl, -⟩ | ⟨invite, rfl, -⟩
      · exact Or.inl waits
      · cases effect
      · cases effect

/-- A statement of a request takes it from the stage that its call tells to the next. -/
theorem Registration.Moves.knows {calls : List InviteCall} {users users' : UserTable} {id : Nat}
    {request : Registration} {stage : Stage} (moves : request.Moves lower calls users id users' stage)
    (answered : ∀ i : Nat, calls[i]? ≠ some (.returned none))
    (h : request.Knows calls) : Registration.Knows calls { request with stage := stage } := by
  have later : ∀ {inviteId : Option Nat}, (request.stage = .lookingUp inviteId ∨
      request.stage = .inserting inviteId) → stage.Holds inviteId →
        Registration.Knows calls { request with stage := stage } := by
    intro inviteId before holds
    unfold Registration.Knows at h ⊢
    cases which : request.call with
    | none =>
      rw [which] at h
      show stage.Holds none
      have same : inviteId = none := by
        rcases before with before | before <;> rw [before] at h <;> exact h
      exact same ▸ holds
    | some i =>
      rw [which] at h
      obtain ⟨call, here, redeems, follows⟩ := h
      refine ⟨call, here, redeems, ?_⟩
      rcases follows with waits | ⟨error, -, refused⟩ | ⟨invite, returned, held⟩
      · rcases before with before | before <;> rw [before] at waits <;> cases waits
      · rcases before with before | before <;> rw [before] at refused <;> cases refused
      · have same : inviteId = some invite.id := by
          rcases before with before | before <;> rw [before] at held <;> exact held
        exact Or.inr (Or.inr ⟨invite, returned, same ▸ holds⟩)
  have first : ∀ {i : Nat} {call : InviteCall}, request.call = some i → calls[i]? = some call →
      call.redeems = true → stage.Follows call →
        Registration.Knows calls { request with stage := stage } := by
    intro i call which here redeems follows
    unfold Registration.Knows
    rw [show Registration.call { request with stage := stage } = some i from which]
    exact ⟨call, here, redeems, follows⟩
  cases moves with
  | redeemed i invite redeeming call returned =>
    exact first call returned rfl (Or.inr (Or.inr ⟨invite, rfl, rfl⟩))
  | lost i redeeming call returned => exact absurd returned (answered i)
  | forbidden i error redeeming call refused =>
    exact first call refused rfl (Or.inr (Or.inl ⟨error, rfl, rfl⟩))
  | conflict inviteId lookingUp taken => exact later (Or.inl lookingUp) trivial
  | free inviteId lookingUp free => exact later (Or.inl lookingUp) rfl
  | failed inviteId inserting taken => exact later (Or.inr inserting) trivial
  | created inviteId inserting users' inserted => exact later (Or.inr inserting) rfl

private theorem filterMap_set_same {α β : Type*} {f : α → Option β} {l : List α} {i : Nat} {a b : α}
    (h : l[i]? = some a) (same : f b = f a) : (l.set i b).filterMap f = l.filterMap f := by
  induction l generalizing i with
  | nil => rfl
  | cons x l ih =>
    cases i with
    | zero =>
      obtain rfl : x = a := by simpa using h
      simp [List.filterMap_cons, same]
    | succ i =>
      have rest := ih (i := i) (by simpa using h)
      simp [List.filterMap_cons, rest]

private theorem filterMap_set_new {α β : Type*} {f : α → Option β} {l : List α} {i : Nat} {a b : α}
    {u : β} (h : l[i]? = some a) (old : f a = none) (new : f b = some u) :
    (l.filterMap f ++ [u]).Perm ((l.set i b).filterMap f) := by
  induction l generalizing i with
  | nil => simp at h
  | cons x l ih =>
    cases i with
    | zero =>
      obtain rfl : x = a := by simpa using h
      simp only [List.set_cons_zero, List.filterMap_cons, old, new]
      exact List.perm_append_singleton u _
    | succ i =>
      have rest := ih (i := i) (by simpa using h)
      simp only [List.set_cons_succ, List.filterMap_cons]
      cases f x with
      | none => exact rest
      | some y => exact rest.cons y

/-- A statement makes an account, which joins the rows, or it makes none. -/
theorem Registration.Moves.account {calls : List InviteCall} {users users' : UserTable} {id : Nat}
    {request : Registration} {stage : Stage}
    (moves : request.Moves lower calls users id users' stage) :
    request.created = none ∧
      ((users' = users ∧ Registration.created { request with stage := stage } = none) ∨
        ∃ user, users'.rows = users.rows ++ [user] ∧
          user.email = normalizeEmail lower request.email ∧
            Registration.created { request with stage := stage } = some user) := by
  cases moves with
  | created inviteId inserting users' inserted =>
    obtain ⟨-, rows, -⟩ := Table.insert_eq_some inserted
    exact ⟨by rw [Registration.created, inserting], Or.inr ⟨_, rows, rfl, rfl⟩⟩
  | redeemed i invite redeeming call returned =>
    exact ⟨by rw [Registration.created, redeeming], Or.inl ⟨rfl, rfl⟩⟩
  | lost i redeeming call returned =>
    exact ⟨by rw [Registration.created, redeeming], Or.inl ⟨rfl, rfl⟩⟩
  | forbidden i error redeeming call refused =>
    exact ⟨by rw [Registration.created, redeeming], Or.inl ⟨rfl, rfl⟩⟩
  | conflict inviteId lookingUp taken =>
    exact ⟨by rw [Registration.created, lookingUp], Or.inl ⟨rfl, rfl⟩⟩
  | free inviteId lookingUp free =>
    exact ⟨by rw [Registration.created, lookingUp], Or.inl ⟨rfl, rfl⟩⟩
  | failed inviteId inserting taken =>
    exact ⟨by rw [Registration.created, inserting], Or.inl ⟨rfl, rfl⟩⟩

/-- A request that comes in with a call of its own, or with none, and has made no account. -/
theorem Registrations.Inv.comes {s : Registrations} (inv : s.Inv lower) {request : Registration}
    {calls : List InviteCall} (knows : request.Knows (s.invites.calls ++ calls))
    (own : ∀ (i : Nat) (call : InviteCall), (s.invites.calls ++ calls)[i]? = some call →
      call.redeems = true → s.invites.calls.length ≤ i → request.call = some i)
    (new : ∀ i, request.call = some i → i = s.invites.calls.length)
    (fresh : request.created = none) :
    Registrations.Inv lower
      ⟨⟨s.invites.table, s.invites.calls ++ calls⟩, s.users, s.requests ++ [request]⟩ := by
  have inside : ∀ {i : Nat} {call : InviteCall}, s.invites.calls[i]? = some call →
      (s.invites.calls ++ calls)[i]? = some call := by
    intro i call here
    rw [List.getElem?_append_left (List.getElem?_eq_some_iff.mp here).1, here]
  have old : ∀ request ∈ s.requests, ∀ i, request.call = some i → i < s.invites.calls.length := by
    intro request mem i which
    have knows := inv.knows request mem
    unfold Registration.Knows at knows
    rw [which] at knows
    obtain ⟨call, here, -⟩ := knows
    exact (List.getElem?_eq_some_iff.mp here).1
  refine ⟨?_, ?_, ?_, ?_, ?_⟩
  · intro r mem
    rcases List.mem_append.mp mem with mem | mem
    · have before := inv.knows r mem
      unfold Registration.Knows at before ⊢
      cases which : r.call with
      | none => rwa [which] at before
      | some i =>
        rw [which] at before
        obtain ⟨call, here, rest⟩ := before
        exact ⟨call, inside here, rest⟩
    · rwa [List.mem_singleton.mp mem]
  · show ((s.requests ++ [request]).filterMap Registration.call).Nodup
    rw [List.filterMap_append, List.nodup_append]
    refine ⟨inv.one, ?_, ?_⟩
    · cases which : request.call <;> simp [which]
    · intro i hi j hj
      obtain ⟨r, mem, which⟩ := List.mem_filterMap.mp hi
      obtain ⟨r', mem', which'⟩ := List.mem_filterMap.mp hj
      obtain rfl := List.mem_singleton.mp mem'
      have := old r mem i which
      have := new j which'
      omega
  · intro i call here redeems
    show i ∈ (s.requests ++ [request]).filterMap Registration.call
    rw [List.filterMap_append, List.mem_append]
    by_cases before : i < s.invites.calls.length
    · rw [List.getElem?_append_left before] at here
      exact Or.inl (inv.owned i call here redeems)
    · have which := own i call here redeems (by omega)
      exact Or.inr (by simp [which])
  · show s.users.rows.Perm ((s.requests ++ [request]).filterMap Registration.created)
    rw [List.filterMap_append]
    simpa [fresh] using inv.accounts
  · intro r mem user made
    rcases List.mem_append.mp mem with mem | mem
    · exact inv.normal r mem user made
    · rw [List.mem_singleton.mp mem, fresh] at made
      cases made

theorem Registrations.Inv.step {s t : Registrations} {label : RegistrationStep} (inv : s.Inv lower)
    (answers : s.invites.Answers) (did : label.Did hashCode lower s t) : t.Inv lower := by
  cases did with
  | invite step t other taken =>
    have did := did_of_step taken
    refine ⟨fun request mem => (inv.knows request mem).invite did, inv.one, ?_, inv.accounts,
      inv.normal⟩
    intro i call here redeems
    cases did with
    | issued id code maxUses expiresAt table fresh inserted => exact inv.owned i call here redeems
    | redeem code now => exact absurd rfl (other code now)
    | revoke id now =>
      rcases getElem?_concat here with here | rfl
      · exact inv.owned i call here redeems
      · cases redeems
    | act j before next table here' effect =>
      simp only [List.getElem?_set] at here
      split at here
      · rename_i same
        subst same
        split at here
        · obtain rfl := Option.some.inj here
          exact inv.owned j before here' (effect.redeems.symm.trans redeems)
        · cases here
      · exact inv.owned i call here redeems
  | register email code now =>
    have last : (s.invites.calls ++ [InviteCall.redeem code now])[s.invites.calls.length]? =
        some (.redeem code now) := List.getElem?_concat_length
    refine inv.comes ⟨_, last, rfl, Or.inl rfl⟩ ?_ ?_ rfl
    · intro i call here redeems out
      have inside := (List.getElem?_eq_some_iff.mp here).1
      rw [List.length_append, List.length_singleton] at inside
      exact congrArg some (by omega)
    · intro i which
      exact (Option.some.inj which).symm
  | createUser email role =>
    have alone : ∀ (i : Nat) (call : InviteCall), (s.invites.calls ++ [])[i]? = some call →
        call.redeems = true → s.invites.calls.length ≤ i → none = some i := by
      intro i call here redeems out
      rw [List.append_nil] at here
      have inside := (List.getElem?_eq_some_iff.mp here).1
      omega
    have comes := @Registrations.Inv.comes lower s inv ⟨email, role, none, .lookingUp none⟩ [] rfl
      alone nofun rfl
    simpa using comes
  | act i id request users stage here moves =>
    have mem := List.mem_of_getElem? here
    have knows := moves.knows (fun _ => answers.ne_none) (inv.knows request mem)
    have calls : (s.requests.set i { request with stage := stage }).filterMap Registration.call =
        s.requests.filterMap Registration.call := filterMap_set_same here rfl
    obtain ⟨none, account⟩ := moves.account
    refine ⟨?_, ?_, ?_, ?_, ?_⟩
    · intro r hr
      rcases List.mem_or_eq_of_mem_set hr with hr | rfl
      · exact inv.knows r hr
      · exact knows
    · show (List.filterMap Registration.call _).Nodup
      rw [calls]
      exact inv.one
    · intro j call at' redeems
      show j ∈ List.filterMap Registration.call _
      rw [calls]
      exact inv.owned j call at' redeems
    · show users.rows.Perm (List.filterMap Registration.created _)
      rcases account with ⟨rfl, same⟩ | ⟨user, rows, -, made⟩
      · rw [filterMap_set_same here (same.trans none.symm)]
        exact inv.accounts
      · rw [rows]
        exact (inv.accounts.append_right _).trans (filterMap_set_new here none made)
    · intro r hr user made
      rcases List.mem_or_eq_of_mem_set hr with hr | rfl
      · exact inv.normal r hr user made
      · rcases account with ⟨-, same⟩ | ⟨user', -, email, made'⟩
        · rw [same] at made
          cases made
        · rw [made'] at made
          exact Option.some.inj made ▸ email

theorem Registrations.inv_of_run {h : List (Taken Registrations RegistrationStep)}
    {s : Registrations} (run : (registrations hashCode lower).Run h s) : s.Inv lower := by
  refine run.invariant_history (I := fun _ s => s.Inv lower) ?_ ?_
  · intro s start
    obtain rfl : s = _ := start
    exact ⟨nofun, List.nodup_nil, nofun, List.Perm.refl _, nofun⟩
  · intro h s label t run inv step
    exact inv.step (answers_of_run run).2 (registrationDid_of_step step)

/-! ## Requests that use a code for nothing -/

/-- The request has used a code and has ended without an account. -/
def Registration.Burnt (request : Registration) : Prop :=
  request.call.isSome ∧ (request.stage = .conflict ∨ request.stage = .failed)

/-- A request ends so with the statement that comes upon its e-mail. -/
theorem Registration.Moves.burnt {calls : List InviteCall} {users users' : UserTable} {id : Nat}
    {request : Registration} {stage : Stage} (moves : request.Moves lower calls users id users' stage)
    (answered : ∀ i : Nat, calls[i]? ≠ some (.returned none)) :
    ¬ request.Burnt ∧ (Registration.Burnt { request with stage := stage } ↔
      request.call.isSome ∧ request.stage.isRegistering = true ∧
        normalizeEmail lower request.email ∈ users.rows.map User.email) := by
  cases moves with
  | redeemed i invite redeeming call returned => simp [Registration.Burnt, Stage.isRegistering, redeeming]
  | lost i redeeming call returned => exact absurd returned (answered i)
  | forbidden i error redeeming call refused => simp [Registration.Burnt, Stage.isRegistering, redeeming]
  | conflict inviteId lookingUp taken => simpa [Registration.Burnt, Stage.isRegistering, lookingUp] using fun _ => taken
  | free inviteId lookingUp free => simpa [Registration.Burnt, Stage.isRegistering, lookingUp] using fun _ => free
  | failed inviteId inserting taken => simpa [Registration.Burnt, Stage.isRegistering, inserting] using fun _ => taken
  | created inviteId inserting users' inserted =>
    obtain ⟨free, -⟩ := Table.insert_eq_some inserted
    have free : normalizeEmail lower request.email ∉ users.rows.map User.email := free
    simpa [Registration.Burnt, Stage.isRegistering, inserting] using fun _ => free

theorem RegistrationStep.Did.burnt {s t : Registrations} {label : RegistrationStep}
    (did : label.Did hashCode lower s t) (answers : s.invites.Answers) :
    (∃ request ∈ t.requests, request.Burnt) ↔
      label.clashes lower s = true ∨ ∃ request ∈ s.requests, request.Burnt := by
  cases did with
  | invite step t other taken => simp [RegistrationStep.clashes]
  | register email code now =>
    simp [RegistrationStep.clashes, Registration.Burnt, or_and_right, exists_or]
  | createUser email role =>
    simp [RegistrationStep.clashes, Registration.Burnt, or_and_right, exists_or]
  | act i id request users stage here moves =>
    obtain ⟨unburnt, burnt⟩ := moves.burnt fun _ => answers.ne_none
    have clashes : RegistrationStep.clashes lower s (.act i id) = true ↔
        Registration.Burnt { request with stage := stage } := by
      rw [burnt]
      simp only [RegistrationStep.clashes, here, Option.any_some, Bool.and_eq_true,
        decide_eq_true_eq, and_assoc]
    rw [clashes]
    constructor
    · rintro ⟨r, mem, h⟩
      rcases List.mem_or_eq_of_mem_set mem with mem | rfl
      · exact Or.inr ⟨r, mem, h⟩
      · exact Or.inl h
    · rintro (h | ⟨r, mem, h⟩)
      · have inside := (List.getElem?_eq_some_iff.mp here).1
        exact ⟨_, List.mem_of_getElem? (List.getElem?_set_self inside), h⟩
      · obtain ⟨j, at'⟩ := List.getElem?_of_mem mem
        refine ⟨r, List.mem_of_getElem? (i := j) ?_, h⟩
        rw [List.getElem?_set_ne, at']
        rintro rfl
        obtain rfl := Option.some.inj (here.symm.trans at')
        exact unburnt h

theorem burnt_iff_clashed {h : List (Taken Registrations RegistrationStep)} {s : Registrations}
    (run : (registrations hashCode lower).Run h s) :
    (∃ request ∈ s.requests, request.Burnt) ↔ ∃ x ∈ h, x.label.clashes lower x.pre = true := by
  refine run.invariant_history (I := fun h s => (∃ request ∈ s.requests, request.Burnt) ↔
    ∃ x ∈ h, x.label.clashes lower x.pre = true) ?_ ?_
  · intro s start
    obtain rfl : s = _ := start
    simp
  · intro h s label t run ih step
    rw [(registrationDid_of_step step).burnt (Registrations.answers_of_run run).2, ih]
    simp

/-! ## The counts -/

private theorem countP_places {α : Type*} (p : α → Bool) {l : List α} {places : List Nat}
    (nodup : places.Nodup) (all : ∀ i a, l[i]? = some a → p a = true → i ∈ places) :
    l.countP p = places.countP fun i => (l[i]?).any p := by
  have enumerated : (List.range l.length).map (fun i => l[i]?) = l.map some := by
    apply List.ext_getElem?
    intro i
    by_cases inside : i < l.length <;> simp [inside]
  have counted : l.countP p = (List.range l.length).countP fun i => (l[i]?).any p := by
    have := congrArg (List.countP (Option.any p)) enumerated
    rw [List.countP_map, List.countP_map] at this
    exact this.symm
  rw [counted, List.countP_eq_length_filter, List.countP_eq_length_filter]
  apply List.Perm.length_eq
  rw [List.perm_ext_iff_of_nodup (List.nodup_range.filter _) (nodup.filter _)]
  intro i
  simp only [List.mem_filter, List.mem_range]
  constructor
  · rintro ⟨-, holds⟩
    obtain ⟨a, here, yes⟩ := (Option.any_eq_true _ _).mp holds
    exact ⟨all i a here yes, holds⟩
  · rintro ⟨-, holds⟩
    obtain ⟨a, here, yes⟩ := (Option.any_eq_true _ _).mp holds
    exact ⟨(List.getElem?_eq_some_iff.mp here).1, holds⟩

/-- The request has used the code of this hash. -/
def Registration.used (hashCode : String → String) (calls : List InviteCall) (hash : String)
    (request : Registration) : Bool :=
  (request.call.bind fun i => calls[i]?).any (InviteCall.uses hashCode hash)

/-- The request has made an account by the invite of this id. -/
def Registration.joined (id : Nat) (request : Registration) : Bool :=
  request.created.any fun user => user.inviteCodeId = some id

section Counts

variable {h : List (Taken Registrations RegistrationStep)} {s : Registrations}

/-- A count is that of the requests that have used the code. -/
theorem usedCount_eq (run : (registrations hashCode lower).Run h s) {invite : InviteCode}
    (mem : invite ∈ s.invites.table.rows) : invite.usedCount =
      s.requests.countP (Registration.used hashCode s.invites.calls invite.codeHash) := by
  have inv := Registrations.inv_of_run run
  rw [(Registrations.answers_of_run run).1.counted invite mem, countP_places _ inv.one,
    List.countP_filterMap]
  · congr 1
    funext request
    cases which : request.call <;> simp [Registration.used, which]
  · intro i call here uses
    refine inv.owned i call here ?_
    cases call with
    | revoke id now => cases uses
    | revoking id images => cases uses
    | revoked id hit => cases uses
    | _ => rfl

theorem users_countP (run : (registrations hashCode lower).Run h s) (id : Nat) :
    s.users.rows.countP (fun user => user.inviteCodeId = some id) =
      s.requests.countP (Registration.joined id) := by
  rw [(Registrations.inv_of_run run).accounts.countP_eq, List.countP_filterMap]
  congr 1
  funext request
  cases made : request.created <;> simp [Registration.joined, made]

/-- Who has joined by an invite has used its code. -/
theorem used_of_joined (run : (registrations hashCode lower).Run h s) {invite : InviteCode}
    (mem : invite ∈ s.invites.table.rows) {request : Registration} (hr : request ∈ s.requests)
    (joined : request.joined invite.id = true) :
    request.used hashCode s.invites.calls invite.codeHash = true := by
  obtain ⟨user, made, byInvite⟩ := (Option.any_eq_true _ _).mp joined
  rw [decide_eq_true_eq] at byInvite
  have stage : request.stage = .created user := by
    unfold Registration.created at made
    split at made
    · rename_i user' at'
      rw [at', Option.some.inj made]
    · cases made
  have knows := (Registrations.inv_of_run run).knows request hr
  unfold Registration.Knows at knows
  cases which : request.call with
  | none =>
    rw [which, stage] at knows
    have none : user.inviteCodeId = none := knows
    rw [none] at byInvite
    cases byInvite
  | some i =>
    rw [which, stage] at knows
    obtain ⟨call, here, -, waits | ⟨error, -, refused⟩ | ⟨result, rfl, held⟩⟩ := knows
    · cases waits
    · cases refused
    · have answers := (Registrations.answers_of_run run).2
      obtain ⟨row, hrow, id, hash⟩ := answers.row here
      have held : user.inviteCodeId = some result.id := held
      have same : row.id = invite.id := id.trans (Option.some.inj (held.symm.trans byInvite))
      obtain rfl := List.inj_on_of_nodup_map answers.ids hrow mem same
      simp [Registration.used, which, here, InviteCall.uses, hash]

/-- Who has used a code and has ended has joined by its invite, or has used it for nothing. -/
theorem joined_or_burnt (run : (registrations hashCode lower).Run h s) {invite : InviteCode}
    (mem : invite ∈ s.invites.table.rows) {request : Registration} (hr : request ∈ s.requests)
    (ended : request.hasEnded = true)
    (used : request.used hashCode s.invites.calls invite.codeHash = true) :
    request.joined invite.id = true ∨ request.Burnt := by
  obtain ⟨call, here, uses⟩ := (Option.any_eq_true _ _).mp used
  obtain ⟨i, which, here⟩ := Option.bind_eq_some_iff.mp here
  have knows := (Registrations.inv_of_run run).knows request hr
  unfold Registration.Knows at knows
  rw [which] at knows
  obtain ⟨call', here', -, waits | ⟨error, rfl, -⟩ | ⟨result, rfl, held⟩⟩ := knows
  · rw [Registration.hasEnded, waits] at ended
    cases ended
  · obtain rfl := Option.some.inj (here.symm.trans here')
    cases uses
  · obtain rfl := Option.some.inj (here.symm.trans here')
    simp only [InviteCall.uses, decide_eq_true_eq] at uses
    have answers := (Registrations.answers_of_run run).2
    obtain ⟨row, hrow, id, hash⟩ := answers.row here
    obtain rfl := Table.eq_of_key hrow mem (hash.trans uses)
    cases stage : request.stage with
    | created user =>
      rw [stage] at held
      have held : user.inviteCodeId = some result.id := held
      refine Or.inl ?_
      simp [Registration.joined, Registration.created, stage, held, id]
    | conflict => exact Or.inr ⟨by simp [which], Or.inl stage⟩
    | failed => exact Or.inr ⟨by simp [which], Or.inr stage⟩
    | forbidden error =>
      rw [stage] at held
      exact held.elim
    | _ =>
      rw [Registration.hasEnded, stage] at ended
      cases ended

/-- Who has used a code for nothing has used one that is there, and has not joined by it. -/
theorem Registration.Burnt.used (run : (registrations hashCode lower).Run h s)
    {request : Registration} (hr : request ∈ s.requests) (burnt : request.Burnt) :
    ∃ invite ∈ s.invites.table.rows, request.joined invite.id = false ∧
      request.used hashCode s.invites.calls invite.codeHash = true := by
  obtain ⟨called, ended⟩ := burnt
  obtain ⟨i, which⟩ := Option.isSome_iff_exists.mp called
  have knows := (Registrations.inv_of_run run).knows request hr
  unfold Registration.Knows at knows
  rw [which] at knows
  obtain ⟨call, here, -, waits | ⟨error, -, refused⟩ | ⟨result, rfl, held⟩⟩ := knows
  · rcases ended with ended | ended <;> rw [ended] at waits <;> cases waits
  · rcases ended with ended | ended <;> rw [ended] at refused <;> cases refused
  · have answers := (Registrations.answers_of_run run).2
    obtain ⟨row, hrow, id, hash⟩ := answers.row here
    refine ⟨row, hrow, ?_, ?_⟩
    · rcases ended with ended | ended <;> simp [Registration.joined, Registration.created, ended]
    · simp [Registration.used, which, here, InviteCall.uses, hash]

private theorem countP_lt {α : Type*} {p q : α → Bool} {l : List α}
    (sub : ∀ a ∈ l, p a = true → q a = true) {a : α} (mem : a ∈ l) (no : p a = false)
    (yes : q a = true) : l.countP p < l.countP q := by
  obtain ⟨before, after, rfl⟩ := List.append_of_mem mem
  have front : before.countP p ≤ before.countP q :=
    List.countP_mono_left fun b hb => sub b (by simp [hb])
  have back : after.countP p ≤ after.countP q :=
    List.countP_mono_left fun b hb => sub b (by simp [hb])
  simp only [List.countP_append, List.countP_cons, no, yes]
  simp only [Bool.false_eq_true, if_false, if_true]
  omega

/-! ## All or nothing -/

/-- No statement of a request that was refused has changed a row, nor of one without a code. -/
theorem rows_kept (run : (registrations hashCode lower).Run h s) {i : Nat} {request : Registration}
    (here : s.requests[i]? = some request) (ended : request.hasEnded = true)
    (none : request.created = none) (unburnt : ¬ request.Burnt)
    {x : Taken Registrations RegistrationStep} (hx : x ∈ h) (own : x.label.isOf i request) :
    x.post.invites.table.rows = x.pre.invites.table.rows := by
  obtain ⟨pre, label, post⟩ := x
  obtain ⟨-, -, hstep, -⟩ := run.of_mem hx
  have did : RegistrationStep.Did hashCode lower pre label post := registrationDid_of_step hstep
  cases did with
  | act j id request' users stage here' moves => rfl
  | register email code now => exact own.elim
  | createUser email role => exact own.elim
  | invite step t other taken =>
    cases step with
    | act c =>
      have which : request.call = some c := own
      have knows := (Registrations.inv_of_run run).knows request (List.mem_of_getElem? here)
      unfold Registration.Knows at knows
      rw [which] at knows
      obtain ⟨call, at', -, waits | ⟨error, rfl, -⟩ | ⟨result, -, held⟩⟩ := knows
      · rw [Registration.hasEnded, waits] at ended
        cases ended
      · have kept := invitesKept_of_run
          ((redemptions hashCode lower).run ⟨fun _ _ => trivial, fun _ _ _ _ _ => trivial⟩ run)
        have mapped := (redemptions hashCode lower).history_of_mem hx (b := .act c) rfl
        exact kept.refused c error at' _ mapped rfl
      · -- past its redemption it has an account, has used a code for nothing or goes on
        exfalso
        cases stage : request.stage with
        | created user => simp [Registration.created, stage] at none
        | conflict => exact unburnt ⟨by simp [which], Or.inl stage⟩
        | failed => exact unburnt ⟨by simp [which], Or.inr stage⟩
        | forbidden error => exact (stage ▸ held : Stage.Holds _ (.forbidden error))
        | _ => simp [Registration.hasEnded, stage] at ended
    | _ => exact own.elim

theorem allOrNothing_iff (run : (registrations hashCode lower).Run h s)
    (ended : ∀ request ∈ s.requests, request.hasEnded = true) :
    AllOrNothing lower h s ↔ ∀ x ∈ h, x.label.clashes lower x.pre = false := by
  have unclashed : (∀ x ∈ h, x.label.clashes lower x.pre = false) ↔
      ∀ request ∈ s.requests, ¬ request.Burnt := by
    have := not_congr (burnt_iff_clashed run)
    push Not at this
    simpa using this.symm
  rw [unclashed]
  have inv := Registrations.inv_of_run run
  constructor
  · intro kept request mem burnt
    obtain ⟨invite, hi, no, yes⟩ := burnt.used run mem
    have fewer := countP_lt (fun r hr => used_of_joined run hi hr) mem no yes
    rw [← users_countP run, ← usedCount_eq run hi, kept.counted invite hi] at fewer
    exact lt_irrefl _ fewer
  · intro unburnt
    refine ⟨?_, ?_, ?_, ?_⟩
    · intro invite mem
      rw [usedCount_eq run mem, users_countP run]
      refine List.countP_congr fun request hr => ⟨fun used => ?_, used_of_joined run mem hr⟩
      exact (joined_or_burnt run mem hr (ended request hr) used).resolve_right (unburnt request hr)
    · intro user
      rw [inv.accounts.mem_iff, List.mem_filterMap]
    · have nodup : ((s.requests.filterMap Registration.created).map User.email).Nodup :=
        (inv.accounts.map User.email).nodup_iff.mp s.users.nodup
      rw [List.Nodup, List.pairwise_map, List.pairwise_filterMap] at nodup
      refine nodup.imp_of_mem fun {a b} ha hb differ madeA madeB => ?_
      obtain ⟨user, madeA⟩ := Option.isSome_iff_exists.mp madeA
      obtain ⟨user', madeB⟩ := Option.isSome_iff_exists.mp madeB
      rw [← inv.normal a ha user madeA, ← inv.normal b hb user' madeB]
      exact differ user madeA user' madeB
    · intro i request here none x hx own
      have mem := List.mem_of_getElem? here
      rw [rows_kept run here (ended request mem) none (unburnt request mem) hx own]

end Counts

/-- A request redeems a code and makes an account; the command line has made one before. -/
def oneRegistration : List RegistrationStep :=
  [.createUser "root@fab.example".toList .admin, .act 0 0, .act 0 1,
    .invite (.issue 7 "code" 2 10), .register " A@fab.example".toList "code" 3, .invite (.act 0),
    .invite (.act 0), .invite (.act 0), .act 1 0, .act 1 0, .act 1 2]

/-- `str.lower` on ASCII. -/
def asciiLower (text : Text) : Text := text.map Char.toLower

theorem allOrNothing_iff_oneRegistration : ∃ h s,
    (registrations id asciiLower).exec ⟨⟨.empty, []⟩, .empty, []⟩ oneRegistration = some (h, s) ∧
      AllOrNothing asciiLower h s :=
  ⟨_, _, rfl, (allOrNothing_iff (Lts.Run.of_exec rfl
    (show (registrations id asciiLower).exec ⟨⟨.empty, []⟩, .empty, []⟩ oneRegistration =
      some _ from rfl)) (by decide)).mpr (by decide)⟩

/-- The same e-mail again uses the code a second time and makes no account. -/
def registeredAgain : List RegistrationStep :=
  oneRegistration ++ [.register "a@fab.example ".toList "code" 4, .invite (.act 1),
    .invite (.act 1), .invite (.act 1), .act 2 0, .act 2 0]

theorem not_allOrNothing : ¬ ∀ (hashCode : String → String) (lower : Text → Text)
    (h : List (Taken Registrations RegistrationStep)) (s : Registrations),
      (registrations hashCode lower).Run h s →
        (∀ request ∈ s.requests, request.hasEnded = true) → AllOrNothing lower h s := by
  intro all
  have run : (registrations id asciiLower).Run _ _ := Lts.Run.of_exec rfl
    (show (registrations id asciiLower).exec ⟨⟨.empty, []⟩, .empty, []⟩ registeredAgain =
      some _ from rfl)
  have kept := (all _ _ _ _ run (by decide)).counted
  exact absurd (kept ⟨7, "code", 10, 2, 2, none⟩ List.mem_cons_self) (by decide)

end TcadWebapp.Auth
