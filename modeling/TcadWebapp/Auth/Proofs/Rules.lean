import TcadWebapp.Auth.Proofs.Store
import TcadWebapp.Auth.Rules

/-!
# The rules hold in every run

The invariant says of each session what its record says (`Recorded`); each call keeps it, and the
rules follow.
-/

namespace TcadWebapp.Auth

variable {policy : SessionPolicy} {store : SessionStore} {session : Session} {now : Int}

/-! ## What the calls do -/

theorem openSession_cases (policy : SessionPolicy) (store : SessionStore) (userId : String)
    (role : Role) (id : String) (now : Int) :
    (role = .user ∧ userId ∉ occupantsOf (store.activeSessions now policy.idleTimeout) ∧
      policy.maxConcurrent ≤ (occupantsOf (store.activeSessions now policy.idleTimeout)).card ∧
      policy.openSession store userId role id now = (store, .error .limitExceeded)) ∨
    ((role = .user → userId ∈ occupantsOf (store.activeSessions now policy.idleTimeout) ∨
        (occupantsOf (store.activeSessions now policy.idleTimeout)).card < policy.maxConcurrent) ∧
      policy.openSession store userId role id now =
        ((policy.revokeExisting store userId now).save
            (SessionPolicy.newSession userId role id now),
          .ok (SessionPolicy.newSession userId role id now))) := by
  unfold SessionPolicy.openSession
  cases role with
  | admin => exact Or.inr ⟨nofun, rfl⟩
  | user =>
    by_cases place : userId ∈ occupantsOf (store.activeSessions now policy.idleTimeout)
    · exact Or.inr ⟨fun _ => Or.inl place, by
        simp [SessionPolicy.requireFreeSlot, place, Role.isExempt]⟩
    · by_cases full : (occupantsOf (store.activeSessions now policy.idleTimeout)).card ≥
          policy.maxConcurrent
      · exact Or.inl ⟨rfl, place, full, by
          simp [SessionPolicy.requireFreeSlot, place, full, Role.isExempt]⟩
      · exact Or.inr ⟨fun _ => Or.inr (not_le.mp full), by
          simp [SessionPolicy.requireFreeSlot, place, full, Role.isExempt]⟩

theorem touch_cases (policy : SessionPolicy) (store : SessionStore) (id : String) (now : Int) :
    (Dict.get? store id = none ∧ policy.touch store id now = (store, .error .notFound)) ∨
    (∃ session, Dict.get? store id = some session ∧ policy.isActive session now = true ∧
      policy.touch store id now =
        (store.save (session.touchedAt now), .ok (session.touchedAt now))) ∨
    (∃ session, Dict.get? store id = some session ∧ policy.isActive session now = false ∧
      policy.touch store id now = (store.delete id, .error .expired)) := by
  unfold SessionPolicy.touch
  cases found : Dict.get? store id with
  | none => exact Or.inl ⟨rfl, rfl⟩
  | some session =>
    cases active : policy.isActive session now with
    | true => exact Or.inr (Or.inl ⟨session, rfl, active, by simp [active]⟩)
    | false => exact Or.inr (Or.inr ⟨session, rfl, active, by simp [active]⟩)

/-- After a login that is not refused. -/
theorem get?_opened (keyed : store.Keyed) (userId : String) (role : Role) (id id' : String) :
    Dict.get? ((policy.revokeExisting store userId now).save
        (SessionPolicy.newSession userId role id now)) id' = some session ↔
      id' = id ∧ session = SessionPolicy.newSession userId role id now ∨
      id' ≠ id ∧ Dict.get? store id' = some session ∧
        ¬ (session.userId = userId ∧ policy.isActive session now = true) := by
  rw [get?_save]
  have own : (SessionPolicy.newSession userId role id now).id = id := rfl
  rw [own]
  by_cases here : id' = id
  · rw [if_pos here]
    constructor
    · exact fun h => Or.inl ⟨here, (Option.some.inj h).symm⟩
    · rintro (⟨-, rfl⟩ | ⟨other, -⟩)
      · rfl
      · exact absurd here other
  · rw [if_neg here, get?_revokeExisting keyed]
    constructor
    · exact fun h => Or.inr ⟨here, h⟩
    · rintro (⟨same, -⟩ | ⟨-, h⟩)
      · exact absurd same here
      · exact h

/-- A login leaves the store in order. -/
theorem SessionStore.Orderly.openSession (h : store.Orderly policy now) (keyed : store.Keyed)
    {userId : String} {role : Role} (id : String)
    (place : role = .user → userId ∈ occupantsOf (store.activeSessions now policy.idleTimeout) ∨
      (occupantsOf (store.activeSessions now policy.idleTimeout)).card < policy.maxConcurrent) :
    ((policy.revokeExisting store userId now).save
      (SessionPolicy.newSession userId role id now)).Orderly policy now := by
  have revoked : (policy.revokeExisting store userId now).Orderly policy now :=
    h.of_sub fun id session found active =>
      ⟨session, ((get?_revokeExisting keyed userId id).mp found).1, active, rfl, rfl⟩
  refine revoked.save (fun id other found active same => ?_) fun user => ?_
  · exact ((get?_revokeExisting keyed userId id).mp found).2 ⟨same, active⟩
  · -- of the places that were taken, the user's own is free again
    have sub : occupantsOf ((policy.revokeExisting store userId now).activeSessions now
        policy.idleTimeout) ⊆
          (occupantsOf (store.activeSessions now policy.idleTimeout)).erase userId := by
      intro other mem
      obtain ⟨id, session, found, active, sameRole, rfl⟩ := mem_occupants.mp mem
      obtain ⟨before, apart⟩ := (get?_revokeExisting keyed userId id).mp found
      exact Finset.mem_erase.mpr ⟨fun same => apart ⟨same, active⟩,
        mem_occupants.mpr ⟨id, session, before, active, sameRole, rfl⟩⟩
    have fewer := Finset.card_le_card sub
    have capacity := h.capacity
    rcases place user with taken | free
    · have := Finset.card_erase_lt_of_mem taken
      omega
    · have := Finset.card_erase_le (s := occupantsOf (store.activeSessions now policy.idleTimeout))
        (a := userId)
      omega

/-! ## Sessions and their records -/

/-- The record of a session that is in the store. -/
structure Record.Matches (policy : SessionPolicy) (r : Record) (session : Session) (now : Int) :
    Prop where
  userId : r.userId = session.userId
  role : r.role = session.role
  open' : r.closed = false
  last : r.activities.head? = some session.lastSeenAt
  replaced : r.replaced = true → policy.isActive session now = false

/-- Why a session is not in the store any more. -/
def Record.Gone (policy : SessionPolicy) (r : Record) (now : Int) : Prop :=
  r.closed = true ∨ r.replaced = true ∨
    r.role = .user ∧ ∃ last ∈ r.activities.head?, policy.idleTimeout < now - last

/-- The record of an id agrees with the store. -/
structure Recorded (policy : SessionPolicy) (record : Option Record) (id : String) (s : State) :
    Prop where
  stored : ∀ session, Dict.get? s.store id = some session →
    ∃ r, record = some r ∧ r.Matches policy session s.now
  gone : ∀ r, record = some r → Dict.get? s.store id = none → r.Gone policy s.now
  gaps : ∀ r, record = some r → r.role = .user →
    r.activities.IsChain fun later earlier => later - earlier ≤ policy.idleTimeout

theorem Record.Matches.later {r : Record} {now' : Int} (h : r.Matches policy session now)
    (later : now ≤ now') : r.Matches policy session now' := by
  refine ⟨h.userId, h.role, h.open', h.last, fun replaced => ?_⟩
  rw [← Bool.not_eq_true]
  intro active
  have := h.replaced replaced
  rw [isActive_mono later active] at this
  cases this

theorem Record.Gone.later {r : Record} {now' : Int} (h : r.Gone policy now) (later : now ≤ now') :
    r.Gone policy now' := by
  rcases h with closed | replaced | ⟨role, last, here, idle⟩
  · exact Or.inl closed
  · exact Or.inr (Or.inl replaced)
  · exact Or.inr (Or.inr ⟨role, last, here, by omega⟩)

/-- What the invariant says of all sessions. -/
structure Inv (policy : SessionPolicy) (h : List (Taken State (Int × Call))) (s : State) : Prop where
  keyed : s.store.Keyed
  orderly : s.store.Orderly policy s.now
  records : ∀ id, Recorded policy (Record.of policy id h) id s

/-- An id whose session and record stay as they are. -/
theorem Recorded.later {record : Option Record} {id : String} {s t : State}
    (h : Recorded policy record id s) (later : s.now ≤ t.now)
    (same : Dict.get? t.store id = Dict.get? s.store id) : Recorded policy record id t := by
  refine ⟨fun session found => ?_, fun r hr none => ?_, h.gaps⟩
  · obtain ⟨r, hr, fits⟩ := h.stored session (same ▸ found)
    exact ⟨r, hr, fits.later later⟩
  · exact (h.gone r hr (same ▸ none)).later later

/-- Another session, where a user has logged in. -/
theorem Recorded.opened {record : Option Record} {id id' userId : String} {role : Role} {s t : State}
    (h : Recorded policy record id' s) (keyed : s.store.Keyed) (later : s.now ≤ t.now)
    (other : id' ≠ id) (post : t.store = (policy.revokeExisting s.store userId t.now).save
      (SessionPolicy.newSession userId role id t.now)) :
    Recorded policy
      (record.map fun r => if r.userId = userId then { r with replaced := true } else r) id' t := by
  have found_iff (session : Session) : Dict.get? t.store id' = some session ↔
      Dict.get? s.store id' = some session ∧
        ¬ (session.userId = userId ∧ policy.isActive session t.now = true) := by
    rw [post, get?_opened keyed]
    simp [other]
  constructor
  · intro session found
    obtain ⟨before, apart⟩ := (found_iff session).mp found
    obtain ⟨r, known, fits⟩ := h.stored session before
    refine ⟨_, Option.map_eq_some_iff.mpr ⟨r, known, rfl⟩, ?_⟩
    have fits := fits.later later
    split
    · rename_i mine
      refine ⟨fits.userId, fits.role, fits.open', fits.last, fun _ => ?_⟩
      rw [← Bool.not_eq_true]
      exact fun active => apart ⟨fits.userId.symm.trans mine, active⟩
    · exact fits
  · intro r hr none
    obtain ⟨r, known, rfl⟩ := Option.map_eq_some_iff.mp hr
    cases before : Dict.get? s.store id' with
    | none =>
      have gone := (h.gone r known before).later later
      split
      · exact Or.inr (Or.inl rfl)
      · exact gone
    | some session =>
      -- it was there and is not: it was revoked
      obtain ⟨r', known', fits⟩ := h.stored session before
      obtain rfl := Option.some.inj (known.symm.trans known')
      have mine : r.userId = userId := by
        by_contra apart
        have kept := (found_iff session).mpr ⟨before, fun both => apart (fits.userId.trans both.1)⟩
        rw [none] at kept
        cases kept
      rw [if_pos mine]
      exact Or.inr (Or.inl rfl)
  · intro r hr user
    obtain ⟨r, known, rfl⟩ := Option.map_eq_some_iff.mp hr
    have gaps := h.gaps r known
    split at user
    · rename_i mine
      rw [if_pos mine]
      exact gaps user
    · rename_i others
      rw [if_neg others]
      exact gaps user

/-! ## Each call keeps the invariant -/

section Calls

variable {h : List (Taken State (Int × Call))} {s t : State}

theorem Inv.later (inv : Inv policy h s) (later : s.now ≤ now) :
    s.store.Orderly policy now :=
  inv.orderly.of_sub fun _ session found active =>
    ⟨session, found, isActive_mono later active, rfl, rfl⟩

/-- A call that leaves the store and the records alone. -/
theorem Inv.idle {x : Taken State (Int × Call)} (inv : Inv policy h s) (later : s.now ≤ t.now)
    (same : t.store = s.store)
    (note : ∀ id, Record.note policy id (Record.of policy id h) x = Record.of policy id h) :
    Inv policy (x :: h) t := by
  refine ⟨same ▸ inv.keyed, same ▸ inv.later later, fun id => ?_⟩
  rw [Record.of, note]
  exact (inv.records id).later later (by rw [same])

theorem Inv.openSession {userId : String} {role : Role} {id : String} (inv : Inv policy h s)
    (later : s.now ≤ now)
    (post : t = ⟨(policy.openSession s.store userId role id now).1, now⟩) :
    Inv policy (⟨s, (now, .openSession userId role id), t⟩ :: h) t := by
  subst post
  rcases openSession_cases policy s.store userId role id now with
    ⟨-, -, -, refused⟩ | ⟨place, opened⟩
  · refine inv.idle later (by rw [refused]) fun id' => ?_
    simp only [Record.note, refused]
  · have stored {session : Session} {id' : String} :=
      @get?_opened policy s.store session now inv.keyed userId role id id'
    simp only [opened]
    refine ⟨?_, (inv.later later).openSession inv.keyed id place, fun id' => ?_⟩
    · intro id' session found
      rcases stored.mp found with ⟨here, rfl⟩ | ⟨-, found, -⟩
      · exact here.symm
      · exact inv.keyed id' session found
    · simp only [Record.of, Record.note, opened]
      by_cases here : id = id'
      · subst here
        rw [if_pos rfl]
        refine ⟨fun session found => ?_, fun r hr none => ?_, fun r hr _ => ?_⟩
        · rcases stored.mp found with ⟨-, rfl⟩ | ⟨other, -⟩
          · exact ⟨_, rfl, rfl, rfl, rfl, rfl, nofun⟩
          · exact absurd rfl other
        · have found := stored.mpr (Or.inl ⟨rfl, rfl⟩)
          rw [none] at found
          cases found
        · obtain rfl := Option.some.inj hr
          exact List.IsChain.singleton _
      · rw [if_neg here]
        exact (inv.records id').opened inv.keyed later (Ne.symm here) rfl

theorem Inv.touch {id : String} (inv : Inv policy h s) (later : s.now ≤ now)
    (post : t = ⟨(policy.touch s.store id now).1, now⟩) :
    Inv policy (⟨s, (now, .touch id), t⟩ :: h) t := by
  subst post
  rcases touch_cases policy s.store id now with
    ⟨-, touched⟩ | ⟨session, found, active, touched⟩ | ⟨session, found, idle, touched⟩
  · refine inv.idle later (by rw [touched]) fun id' => ?_
    simp only [Record.note, touched]
  · simp only [touched]
    obtain rfl : session.id = id := inv.keyed id session found
    have stored (id' : String) : Dict.get? (s.store.save (session.touchedAt now)) id' =
        if id' = session.id then some (session.touchedAt now) else Dict.get? s.store id' :=
      get?_save s.store (session.touchedAt now) id'
    refine ⟨?_, ?_, fun id' => ?_⟩
    · intro id' other there
      rw [stored] at there
      split at there
      · rename_i here
        obtain rfl := Option.some.inj there
        exact here.symm
      · exact inv.keyed id' other there
    · refine (inv.later later).of_sub fun id' other there activeOther => ?_
      rw [stored] at there
      split at there
      · rename_i here
        obtain rfl := Option.some.inj there
        exact ⟨session, here ▸ found, active, rfl, rfl⟩
      · exact ⟨other, there, activeOther, rfl, rfl⟩
    · simp only [Record.of, Record.note, touched]
      by_cases here : session.id = id'
      · subst here
        obtain ⟨r, known, fits⟩ := (inv.records session.id).stored session found
        have now_stored := stored session.id
        rw [if_pos rfl] at now_stored
        rw [if_pos rfl, known]
        refine ⟨fun other there => ?_,
          fun _ _ none => ?_, fun r' hr' user => ?_⟩
        · obtain rfl := Option.some.inj (now_stored.symm.trans there)
          refine ⟨_, rfl, fits.userId, fits.role, fits.open', rfl, fun replaced => ?_⟩
          have := fits.replaced replaced
          rw [isActive_mono later active] at this
          cases this
        · rw [now_stored] at none
          cases none
        · obtain rfl := Option.some.inj hr'
          have gaps := (inv.records session.id).gaps r known user
          have gap := (isActive_user (fits.role.symm.trans user)).mp active
          obtain ⟨earlier, activities⟩ := List.head?_eq_some_iff.mp fits.last
          rw [activities] at gaps
          simp only [activities]
          exact List.IsChain.cons_cons gap gaps
      · rw [if_neg here]
        refine (inv.records id').later later ?_
        exact (stored id').trans (if_neg (Ne.symm here))
  · simp only [touched]
    refine ⟨?_, ?_, fun id' => ?_⟩
    · intro id' other there
      rw [get?_delete] at there
      split at there
      · cases there
      · exact inv.keyed id' other there
    · refine (inv.later later).of_sub fun id' other there activeOther => ?_
      rw [get?_delete] at there
      split at there
      · cases there
      · exact ⟨other, there, activeOther, rfl, rfl⟩
    · simp only [Record.of, Record.note, touched]
      by_cases here : id' = id
      · subst here
        obtain ⟨r, known, fits⟩ := (inv.records id').stored session found
        have gone : Dict.get? (s.store.delete id') id' = none := by
          rw [get?_delete, if_pos rfl]
        have user : session.role = .user := by
          rw [← isExempt_eq_false, ← Bool.not_eq_true]
          intro exempt
          simp [SessionPolicy.isActive, exempt] at idle
        have gap : policy.idleTimeout < now - session.lastSeenAt := by
          rw [← not_le, ← isActive_user user, idle]
          simp
        rw [known]
        refine ⟨fun other there => ?_,
          fun r' hr' _ => ?_, fun r' hr' => ?_⟩
        · rw [gone] at there
          cases there
        · obtain rfl := Option.some.inj hr'
          exact Or.inr (Or.inr ⟨fits.role.trans user, _, fits.last, gap⟩)
        · obtain rfl := Option.some.inj hr'
          exact (inv.records id').gaps r known
      · refine (inv.records id').later later ?_
        rw [get?_delete, if_neg here]

theorem Inv.closeSession {id : String} (inv : Inv policy h s) (later : s.now ≤ now)
    (post : t = ⟨SessionPolicy.closeSession s.store id, now⟩) :
    Inv policy (⟨s, (now, .closeSession id), t⟩ :: h) t := by
  subst post
  have stored (id' : String) : Dict.get? (SessionPolicy.closeSession s.store id) id' =
      if id' = id then none else Dict.get? s.store id' := get?_delete s.store id id'
  refine ⟨?_, ?_, fun id' => ?_⟩
  · intro id' other there
    rw [stored] at there
    split at there
    · cases there
    · exact inv.keyed id' other there
  · refine (inv.later later).of_sub fun id' other there active => ?_
    rw [stored] at there
    split at there
    · cases there
    · exact ⟨other, there, active, rfl, rfl⟩
  · simp only [Record.of, Record.note]
    by_cases here : id = id'
    · subst here
      rw [if_pos rfl]
      refine ⟨fun other there => ?_, fun r hr _ => ?_, fun r hr => ?_⟩
      · rw [stored, if_pos rfl] at there
        cases there
      · obtain ⟨r, -, rfl⟩ := Option.map_eq_some_iff.mp hr
        exact Or.inl rfl
      · obtain ⟨r, known, rfl⟩ := Option.map_eq_some_iff.mp hr
        exact (inv.records id).gaps r known
    · rw [if_neg here]
      refine (inv.records id').later later ?_
      exact (stored id').trans (if_neg (Ne.symm here))

/-- The invariant holds in every run. -/
theorem inv_of_run (run : (serial policy).Run h s) : Inv policy h s := by
  refine run.invariant_history (fun s start => ?_) fun h s label t _ inv stepped => ?_
  · have store : s.store = ∅ := start
    have empty (id : String) : Dict.get? s.store id = none := by
      rw [store]
      rfl
    refine ⟨fun id session found => ?_, ⟨?_, ?_⟩, fun id => ⟨?_, nofun, nofun⟩⟩
    · rw [empty] at found
      cases found
    · rw [store]
      exact Nat.zero_le _
    · intro id _ session _ found
      rw [empty] at found
      cases found
    · intro session found
      rw [empty] at found
      cases found
  · obtain ⟨now, call⟩ := label
    simp only [serial] at stepped
    split at stepped
    · cases stepped
    · rename_i later
      rw [not_lt] at later
      cases call with
      | openSession userId role id => exact inv.openSession later (Option.some.inj stepped).symm
      | touch id => exact inv.touch later (Option.some.inj stepped).symm
      | closeSession id => exact inv.closeSession later (Option.some.inj stepped).symm

theorem refusedWhenFull_user (s : State) : RefusedWhenFull policy s .user := by
  intro now _ userId id
  rcases openSession_cases policy s.store userId .user id now with
    ⟨-, apart, full, refused⟩ | ⟨place, opened⟩
  · rw [refused]
    exact ⟨fun _ => ⟨apart, decide_eq_true full⟩, fun _ => rfl⟩
  · rw [opened]
    refine ⟨nofun, fun refused => ?_⟩
    obtain ⟨apart, full⟩ := refused
    have := of_decide_eq_true full
    rcases place rfl with here | free
    · exact absurd here apart
    · exact absurd free (not_lt.mpr this)

theorem rules_of_inv (inv : Inv policy h s) : Rules policy h s := by
  refine ⟨fun now later => (inv.later later).capacity, fun now later a ha b hb user => ?_,
    fun now later id => ⟨fun accepted => ?_, fun record => ?_⟩⟩
  · obtain ⟨id, foundA, activeA⟩ := mem_activeSessions.mp ha
    obtain ⟨id', foundB, activeB⟩ := mem_activeSessions.mp hb
    obtain rfl := (inv.later later).single id id' a b foundA foundB activeA activeB user
    exact Option.some.inj (foundA.symm.trans foundB)
  · obtain ⟨session, touched, user⟩ := accepted
    rcases touch_cases policy s.store id now with
      ⟨-, refused⟩ | ⟨before, found, active, accepted⟩ | ⟨-, -, -, refused⟩
    · rw [refused] at touched
      cases touched
    · rw [accepted] at touched
      obtain rfl := Except.ok.inj touched
      obtain ⟨r, known, fits⟩ := (inv.records id).stored before found
      have before_user : before.role = .user := user
      have role : r.role = .user := fits.role.trans before_user
      refine ⟨r, known, role, fits.open', ?_, ?_⟩
      · rw [← Bool.not_eq_true]
        intro replaced
        have := fits.replaced replaced
        rw [isActive_mono later active] at this
        cases this
      · have gaps := (inv.records id).gaps r known role
        obtain ⟨earlier, activities⟩ := List.head?_eq_some_iff.mp fits.last
        rw [Record.Lively, activities]
        rw [activities] at gaps
        exact List.IsChain.cons_cons ((isActive_user before_user).mp active) gaps
    · rw [refused] at touched
      cases touched
  · obtain ⟨r, known, user, open', alone, lively⟩ := record
    cases found : Dict.get? s.store id with
    | none =>
      rcases (inv.records id).gone r known found with closed | replaced | ⟨-, last, here, idle⟩
      · rw [open'] at closed
        cases closed
      · rw [alone] at replaced
        cases replaced
      · obtain ⟨earlier, activities⟩ := List.head?_eq_some_iff.mp here
        rw [Record.Lively, activities] at lively
        have := (List.isChain_cons_cons.mp lively).1
        omega
    | some session =>
      obtain ⟨r', known', fits⟩ := (inv.records id).stored session found
      obtain rfl := Option.some.inj (known.symm.trans known')
      obtain ⟨earlier, activities⟩ := List.head?_eq_some_iff.mp fits.last
      rw [Record.Lively, activities] at lively
      have role := fits.role.symm.trans user
      have active := (isActive_user role).mpr (List.isChain_cons_cons.mp lively).1
      refine ⟨session.touchedAt now, ?_, role⟩
      simp [SessionPolicy.touch, found, active]

end Calls

/-- The rules hold in every run; a login of a user is refused exactly if the user has no place and
none is free, one of an administrator never. -/
theorem rules_of_run {h : List (Taken State (Int × Call))} {s : State}
    (run : (serial policy).Run h s) : Rules policy h s ∧ RefusedWhenFull policy s .user ∧
      ∀ now userId id, ∃ session,
        (policy.openSession s.store userId .admin id now).2 = .ok session :=
  ⟨rules_of_inv (inv_of_run run), refusedWhenFull_user s, fun _ _ _ => ⟨_, rfl⟩⟩

/-- One place, taken, given up and taken by another user. -/
def onePlace : SessionPolicy := ⟨1, 30⟩

theorem rules_of_run_onePlace : ∃ h s, (serial onePlace).exec ⟨∅, 0⟩
    [(0, .openSession "ann" .user "a"), (20, .touch "a"), (60, .touch "a"),
      (70, .openSession "bob" .user "b"), (80, .openSession "ann" .user "c")] = some (h, s) ∧
      Rules onePlace h s ∧ RefusedWhenFull onePlace s .user := by
  obtain ⟨⟨h, s⟩, ran⟩ := Option.isSome_iff_exists.mp (show ((serial onePlace).exec ⟨∅, 0⟩
    [(0, .openSession "ann" .user "a"), (20, .touch "a"), (60, .touch "a"),
      (70, .openSession "bob" .user "b"), (80, .openSession "ann" .user "c")]).isSome = true by
        decide)
  have start : (serial onePlace).start ⟨∅, 0⟩ := rfl
  have rules := rules_of_run (Lts.Run.of_exec start ran)
  exact ⟨h, s, ran, rules.1, rules.2.1⟩

/-- An administrator who has no place is not refused when none is free. -/
theorem not_refusedWhenFull_admin : ¬ ∀ (policy : SessionPolicy)
    (h : List (Taken State (Int × Call))) (s : State), (serial policy).Run h s →
      ∀ role, RefusedWhenFull policy s role := by
  intro all
  have start : (serial onePlace).start ⟨∅, 0⟩ := rfl
  have run : (serial onePlace).Run _ ⟨Dict.set ∅ "a" ⟨"a", "ann", .user, 0, 0⟩, 0⟩ :=
    Lts.Run.of_exec start
      (show (serial onePlace).exec ⟨∅, 0⟩ [(0, .openSession "ann" .user "a")] = some _ from rfl)
  have refused := (all _ _ _ run .admin 0 le_rfl "root" "b").mpr (by decide)
  cases refused

end TcadWebapp.Auth
