import TcadWebapp.Auth.Policy

/-!
# What is in a session store

Sessions under their ids, which of them are active, and who of their users takes a place.
-/

namespace TcadWebapp.Auth

variable {policy : SessionPolicy} {store : SessionStore} {session : Session} {now : Int}

/-- Every session is under its id. -/
def SessionStore.Keyed (store : SessionStore) : Prop :=
  ∀ id session, Dict.get? store id = some session → session.id = id

theorem isExempt_eq_false {role : Role} : role.isExempt = false ↔ role = .user := by
  cases role <;> decide

theorem mem_activeSessions : session ∈ store.activeSessions now policy.idleTimeout ↔
    ∃ id, Dict.get? store id = some session ∧ policy.isActive session now = true := by
  simp only [SessionStore.activeSessions, SessionPolicy.isActive, List.mem_filter, List.mem_map,
    Prod.exists, exists_eq_right, Dict.get?_eq_some, exists_and_right]

/-- An active session was active before, since its last activity. -/
theorem isActive_mono {now' : Int} (later : now ≤ now') (h : policy.isActive session now' = true) :
    policy.isActive session now = true := by
  simp only [SessionPolicy.isActive, decide_eq_true_eq] at h ⊢
  rcases h with exempt | gap
  · exact Or.inl exempt
  · exact Or.inr (by omega)

theorem isActive_user (role : session.role = .user) :
    policy.isActive session now = true ↔ now - session.lastSeenAt ≤ policy.idleTimeout := by
  simp [SessionPolicy.isActive, role, Role.isExempt]

theorem mem_occupants {userId : String} :
    userId ∈ occupantsOf (store.activeSessions now policy.idleTimeout) ↔
      ∃ id session, Dict.get? store id = some session ∧ policy.isActive session now = true ∧
        session.role = .user ∧ session.userId = userId := by
  simp only [occupantsOf, List.mem_toFinset, List.mem_map, List.mem_filter, Bool.not_eq_true',
    isExempt_eq_false, mem_activeSessions]
  constructor
  · intro h
    obtain ⟨session, ⟨⟨id, found, active⟩, role⟩, user⟩ := h
    exact ⟨id, session, found, active, role, user⟩
  · intro h
    obtain ⟨id, session, found, active, role, user⟩ := h
    exact ⟨session, ⟨⟨id, found, active⟩, role⟩, user⟩

theorem get?_save (store : SessionStore) (session : Session) (id : String) :
    Dict.get? (store.save session) id =
      if id = session.id then some session else Dict.get? store id :=
  Dict.get?_set store session.id session id

theorem get?_delete (store : SessionStore) (id id' : String) :
    Dict.get? (store.delete id) id' = if id' = id then none else Dict.get? store id' :=
  Dict.get?_erase store id id'

theorem get?_foldl_delete (userId id : String) (sessions : List Session) :
    Dict.get? (sessions.foldl (fun (store : SessionStore) session =>
      if session.userId = userId then store.delete session.id else store) store) id =
        if ∃ session ∈ sessions, session.userId = userId ∧ session.id = id then none
        else Dict.get? store id := by
  induction sessions generalizing store with
  | nil => simp
  | cons first sessions ih =>
    rw [List.foldl_cons, ih]
    by_cases rest : ∃ session ∈ sessions, session.userId = userId ∧ session.id = id
    · rw [if_pos rest, if_pos]
      obtain ⟨session, mem, h⟩ := rest
      exact ⟨session, List.mem_cons_of_mem _ mem, h⟩
    · by_cases user : first.userId = userId
      · rw [if_neg rest, if_pos user, get?_delete]
        by_cases here : first.id = id
        · rw [if_pos here.symm, if_pos ⟨first, List.mem_cons_self, user, here⟩]
        · rw [if_neg (Ne.symm here), if_neg]
          rintro ⟨session, mem, h⟩
          rcases List.mem_cons.mp mem with rfl | mem
          · exact here h.2
          · exact rest ⟨session, mem, h⟩
      · rw [if_neg rest, if_neg user, if_neg]
        rintro ⟨session, mem, h⟩
        rcases List.mem_cons.mp mem with rfl | mem
        · exact user h.1
        · exact rest ⟨session, mem, h⟩

/-- The active sessions of a user are revoked, and no others. -/
theorem get?_revokeExisting (keyed : store.Keyed) (userId id : String) :
    Dict.get? (policy.revokeExisting store userId now) id = some session ↔
      Dict.get? store id = some session ∧
        ¬ (session.userId = userId ∧ policy.isActive session now = true) := by
  rw [SessionPolicy.revokeExisting, get?_foldl_delete]
  constructor
  · intro h
    split at h
    · cases h
    · rename_i none
      refine ⟨h, fun both => none ?_⟩
      exact ⟨session, mem_activeSessions.mpr ⟨id, h, both.2⟩, both.1, keyed id session h⟩
  · intro h
    obtain ⟨found, apart⟩ := h
    rw [if_neg, found]
    rintro ⟨other, mem, user, rfl⟩
    obtain ⟨id', found', active⟩ := mem_activeSessions.mp mem
    obtain rfl : id' = other.id := (keyed id' other found').symm
    obtain rfl := Option.some.inj (found.symm.trans found')
    exact apart ⟨user, active⟩

/-! ## Few users, one session each -/

/-- At most so many users take a place, and no user has two active sessions. -/
structure SessionStore.Orderly (policy : SessionPolicy) (store : SessionStore) (now : Int) :
    Prop where
  capacity : (occupantsOf (store.activeSessions now policy.idleTimeout)).card ≤ policy.maxConcurrent
  single : ∀ id id' session session', Dict.get? store id = some session →
    Dict.get? store id' = some session' → policy.isActive session now = true →
    policy.isActive session' now = true → session.userId = session'.userId → id = id'

/-- With fewer active sessions, each of a user that had one, a store stays so. -/
theorem SessionStore.Orderly.of_sub {store' : SessionStore} {now' : Int}
    (h : store.Orderly policy now)
    (sub : ∀ id session', Dict.get? store' id = some session' →
      policy.isActive session' now' = true → ∃ session, Dict.get? store id = some session ∧
        policy.isActive session now = true ∧ session.role = session'.role ∧
        session.userId = session'.userId) : store'.Orderly policy now' := by
  constructor
  · refine le_trans (Finset.card_le_card fun userId mem => ?_) h.capacity
    obtain ⟨id, session', found', active', role, rfl⟩ := mem_occupants.mp mem
    obtain ⟨session, found, active, sameRole, sameUser⟩ := sub id session' found' active'
    exact mem_occupants.mpr ⟨id, session, found, active, sameRole.trans role, sameUser⟩
  · intro id id' a b ha hb activeA activeB user
    obtain ⟨a', ha', activeA', -, userA⟩ := sub id a ha activeA
    obtain ⟨b', hb', activeB', -, userB⟩ := sub id' b hb activeB
    exact h.single id id' a' b' ha' hb' activeA' activeB' (userA.trans (user.trans userB.symm))

/-- A session of a user who has none, if there is a place. -/
theorem SessionStore.Orderly.save (h : store.Orderly policy now)
    (none : ∀ id other, Dict.get? store id = some other → policy.isActive other now = true →
      other.userId ≠ session.userId)
    (free : session.role = .user → (occupantsOf (store.activeSessions now policy.idleTimeout)).card <
      policy.maxConcurrent) : (store.save session).Orderly policy now := by
  constructor
  · by_cases role : session.role = .user
    · have sub : occupantsOf ((store.save session).activeSessions now policy.idleTimeout) ⊆
          insert session.userId (occupantsOf (store.activeSessions now policy.idleTimeout)) := by
        intro userId mem
        obtain ⟨id, other, found, active, sameRole, rfl⟩ := mem_occupants.mp mem
        rw [get?_save] at found
        split at found
        · obtain rfl := Option.some.inj found
          exact Finset.mem_insert_self _ _
        · exact Finset.mem_insert_of_mem (mem_occupants.mpr ⟨id, other, found, active, sameRole, rfl⟩)
      have := Finset.card_le_card sub
      have := Finset.card_insert_le session.userId
        (occupantsOf (store.activeSessions now policy.idleTimeout))
      have := free role
      omega
    · refine le_trans (Finset.card_le_card fun userId mem => ?_) h.capacity
      obtain ⟨id, other, found, active, sameRole, rfl⟩ := mem_occupants.mp mem
      rw [get?_save] at found
      split at found
      · obtain rfl := Option.some.inj found
        exact absurd sameRole role
      · exact mem_occupants.mpr ⟨id, other, found, active, sameRole, rfl⟩
  · intro id id' a b ha hb activeA activeB user
    rw [get?_save] at ha hb
    split at ha <;> split at hb
    · rename_i here here'
      rw [here, here']
    · obtain rfl := Option.some.inj ha
      exact absurd user.symm (none id' b hb activeB)
    · obtain rfl := Option.some.inj hb
      exact absurd user (none id a ha activeA)
    · exact h.single id id' a b ha hb activeA activeB user

end TcadWebapp.Auth
