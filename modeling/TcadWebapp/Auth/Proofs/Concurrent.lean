import TcadWebapp.Auth.Concurrent
import TcadWebapp.Auth.Proofs.Store

/-!
# What overlapping requests keep

As long as what they save is up to date, overlapping requests keep the rules
(`guarded_of_upToDate`); without it a session that was deleted can come back
(`not_guarded`).
-/

namespace TcadWebapp.Auth

variable {policy : SessionPolicy} {s t : Situation}

/-! ## What a step does -/

/-- What a call of the store does. -/
theorem act_cases {phase next : Phase} {s' : Situation} {id : String}
    (h : phase.act policy s id = some (s', next)) :
    s'.clock = s.clock ∧ s'.requests = s.requests ∧
      ((s'.store = s.store ∧ s'.opened = s.opened ∧ ∀ session, next = .refresh session →
          ∃ id' stored now, Dict.get? s.store id' = some stored ∧
            session = stored.touchedAt now) ∨
        (∃ id', s'.store = s.store.delete id' ∧ s'.opened = s.opened ∧
          ∀ session, next ≠ .refresh session) ∨
        (∃ userId role now, phase = .revoke userId role now [] ∧ id ∉ s.opened.map Session.id ∧
          s'.store = s.store.save (SessionPolicy.newSession userId role id now) ∧
          s'.opened = SessionPolicy.newSession userId role id now :: s.opened ∧ next = .done) ∨
        ∃ session, phase = .refresh session ∧ s'.store = s.store.save session ∧
          s'.opened = s.opened ∧ next = .done) := by
  cases phase with
  | count userId now =>
    simp only [Phase.act] at h
    split at h <;>
    · obtain ⟨rfl, rfl⟩ := Prod.mk.inj (Option.some.inj h)
      exact ⟨rfl, rfl, Or.inl ⟨rfl, rfl, nofun⟩⟩
  | list userId role now =>
    obtain ⟨rfl, rfl⟩ := Prod.mk.inj (Option.some.inj h)
    exact ⟨rfl, rfl, Or.inl ⟨rfl, rfl, nofun⟩⟩
  | revoke userId role now ids =>
    cases ids with
    | nil =>
      simp only [Phase.act] at h
      split at h
      · cases h
      · rename_i fresh
        obtain ⟨rfl, rfl⟩ := Prod.mk.inj (Option.some.inj h)
        exact ⟨rfl, rfl, Or.inr (Or.inr (Or.inl ⟨_, _, _, rfl, fresh, rfl, rfl, rfl⟩))⟩
    | cons first ids =>
      obtain ⟨rfl, rfl⟩ := Prod.mk.inj (Option.some.inj h)
      exact ⟨rfl, rfl, Or.inr (Or.inl ⟨first, rfl, rfl, nofun⟩)⟩
  | get id' now =>
    simp only [Phase.act] at h
    split at h
    · obtain ⟨rfl, rfl⟩ := Prod.mk.inj (Option.some.inj h)
      exact ⟨rfl, rfl, Or.inl ⟨rfl, rfl, nofun⟩⟩
    · rename_i stored found
      split at h
      · obtain ⟨rfl, rfl⟩ := Prod.mk.inj (Option.some.inj h)
        refine ⟨rfl, rfl, Or.inl ⟨rfl, rfl, fun session same => ?_⟩⟩
        exact ⟨id', stored, now, found, (Phase.refresh.inj same).symm⟩
      · obtain ⟨rfl, rfl⟩ := Prod.mk.inj (Option.some.inj h)
        exact ⟨rfl, rfl, Or.inl ⟨rfl, rfl, nofun⟩⟩
  | refresh session =>
    obtain ⟨rfl, rfl⟩ := Prod.mk.inj (Option.some.inj h)
    exact ⟨rfl, rfl, Or.inr (Or.inr (Or.inr ⟨session, rfl, rfl, rfl, rfl⟩))⟩
  | expire id' =>
    obtain ⟨rfl, rfl⟩ := Prod.mk.inj (Option.some.inj h)
    exact ⟨rfl, rfl, Or.inr (Or.inl ⟨id', rfl, rfl, nofun⟩)⟩
  | close id' =>
    obtain ⟨rfl, rfl⟩ := Prod.mk.inj (Option.some.inj h)
    exact ⟨rfl, rfl, Or.inr (Or.inl ⟨id', rfl, rfl, nofun⟩)⟩
  | done => cases h

/-- A session whose id, user and role are those of one that was opened. -/
def Known (opened : List Session) (session : Session) : Prop :=
  ∃ first ∈ opened, first.id = session.id ∧ first.userId = session.userId ∧
    first.role = session.role

/-- The phases in which sessions are about to be saved are known from the requests before, or from
the store. -/
def Refreshes (s t : Situation) : Prop :=
  ∀ session, .refresh session ∈ t.requests → .refresh session ∈ s.requests ∨
    ∃ id stored now, Dict.get? s.store id = some stored ∧ session = stored.touchedAt now

/-- What a step does to the store. -/
theorem step_cases {event : Event} (h : (concurrent policy).step s event = some t) :
    s.clock ≤ t.clock ∧ Refreshes s t ∧
      ((t.store = s.store ∧ t.opened = s.opened) ∨
        (∃ id, t.store = s.store.delete id ∧ t.opened = s.opened) ∨
        (∃ i id userId role now, event = .act i id ∧ t.clock = s.clock ∧
          s.requests[i]? = some (.revoke userId role now []) ∧ id ∉ s.opened.map Session.id ∧
          t.store = s.store.save (SessionPolicy.newSession userId role id now) ∧
          t.opened = SessionPolicy.newSession userId role id now :: s.opened) ∨
        ∃ i id session, event = .act i id ∧ t.clock = s.clock ∧
          s.requests[i]? = some (.refresh session) ∧ t.store = s.store.save session ∧
          t.opened = s.opened) := by
  cases event with
  | tick now =>
    simp only [concurrent] at h
    split at h
    · cases h
    · rename_i later
      obtain rfl := Option.some.inj h
      exact ⟨not_lt.mp later, fun _ mem => Or.inl mem, Or.inl ⟨rfl, rfl⟩⟩
  | request call =>
    obtain rfl := Option.some.inj h
    refine ⟨le_rfl, fun session mem => ?_, Or.inl ⟨rfl, rfl⟩⟩
    rcases List.mem_append.mp mem with mem | mem
    · exact Or.inl mem
    · have new := List.mem_singleton.mp mem
      cases call with
      | openSession userId role id => cases role <;> cases new
      | touch id => cases new
      | closeSession id => cases new
  | act i id =>
    simp only [concurrent] at h
    split at h
    · cases h
    · rename_i phase here
      obtain ⟨⟨s', next⟩, acted, rfl⟩ := Option.map_eq_some_iff.mp h
      obtain ⟨clock, requests, effect⟩ := act_cases acted
      have mem_set : ∀ session, Phase.refresh session ∈ s.requests.set i next →
          .refresh session ∈ s.requests ∨ next = .refresh session := by
        intro session mem
        rcases List.mem_or_eq_of_mem_set mem with mem | same
        · exact Or.inl mem
        · exact Or.inr same.symm
      refine ⟨clock.ge, ?_⟩
      rcases effect with ⟨store, opened, refreshed⟩ | ⟨id', store, opened, none⟩ |
        ⟨userId, role, now, rfl, fresh, store, opened, rfl⟩ | ⟨session, rfl, store, opened, rfl⟩
      · refine ⟨fun session mem => ?_, Or.inl ⟨store, opened⟩⟩
        rcases mem_set session mem with mem | same
        · exact Or.inl mem
        · exact Or.inr (refreshed session same)
      · refine ⟨fun session mem => ?_, Or.inr (Or.inl ⟨id', store, opened⟩)⟩
        rcases mem_set session mem with mem | same
        · exact Or.inl mem
        · exact absurd same (none session)
      · refine ⟨fun session mem => ?_, Or.inr (Or.inr (Or.inl
          ⟨i, id, userId, role, now, rfl, clock, here, fresh, store, opened⟩))⟩
        exact (mem_set session mem).imp_right nofun
      · refine ⟨fun session mem => ?_, Or.inr (Or.inr (Or.inr
          ⟨i, id, session, rfl, clock, here, store, opened⟩))⟩
        exact (mem_set _ mem).imp_right nofun
  | drop id =>
    simp only [concurrent] at h
    split at h
    · cases h
    · split at h
      · obtain rfl := Option.some.inj h
        exact ⟨le_rfl, fun _ mem => Or.inl mem, Or.inr (Or.inl ⟨id, rfl, rfl⟩)⟩
      · cases h

theorem upToDate_revoke {i : Nat} {id userId : String} {role : Role} {now : Int}
    (here : s.requests[i]? = some (.revoke userId role now []))
    (h : (Event.act i id).upToDate policy s = true) :
    (∀ session ∈ s.store.activeSessions s.clock policy.idleTimeout, session.userId ≠ userId) ∧
      (role = .user → (occupantsOf (s.store.activeSessions s.clock policy.idleTimeout)).card <
        policy.maxConcurrent) := by
  simp only [Event.upToDate, here, Option.all_some, Phase.upToDate] at h
  exact of_decide_eq_true h

theorem upToDate_refresh {i : Nat} {id : String} {session : Session}
    (here : s.requests[i]? = some (.refresh session))
    (h : (Event.act i id).upToDate policy s = true) :
    ∃ stored, Dict.get? s.store session.id = some stored ∧
      policy.isActive stored s.clock = true := by
  simp only [Event.upToDate, here, Option.all_some, Phase.upToDate] at h
  cases found : Dict.get? s.store session.id with
  | none => simp [found] at h
  | some stored => exact ⟨stored, rfl, by simpa [found] using h⟩

/-! ## The invariant -/

/-- What is stored or about to be saved is a session that was opened, and the store is in
order. -/
structure Situation.Inv (policy : SessionPolicy) (s : Situation) : Prop where
  keyed : s.store.Keyed
  stored : ∀ id session, Dict.get? s.store id = some session → Known s.opened session
  refreshing : ∀ session, .refresh session ∈ s.requests → Known s.opened session
  distinct : (s.opened.map Session.id).Nodup
  orderly : s.store.Orderly policy s.clock

theorem Known.mono {opened opened' : List Session} {session : Session} (h : Known opened session)
    (more : opened ⊆ opened') : Known opened' session := by
  obtain ⟨first, mem, same⟩ := h
  exact ⟨first, more mem, same⟩

/-- Two known sessions of one id are the same user's. -/
theorem Known.agree {opened : List Session} (distinct : (opened.map Session.id).Nodup)
    {a b : Session} (ha : Known opened a) (hb : Known opened b) (same : a.id = b.id) :
    a.userId = b.userId ∧ a.role = b.role := by
  obtain ⟨first, mem, id, user, role⟩ := ha
  obtain ⟨first', mem', id', user', role'⟩ := hb
  obtain rfl := List.inj_on_of_nodup_map distinct mem mem' (id.trans (same.trans id'.symm))
  exact ⟨user.symm.trans user', role.symm.trans role'⟩

theorem Situation.Inv.later (inv : s.Inv policy) {now : Int} (later : s.clock ≤ now) :
    s.store.Orderly policy now :=
  inv.orderly.of_sub fun _ session found active =>
    ⟨session, found, isActive_mono later active, rfl, rfl⟩

/-- The sessions in flight after a step are known. -/
theorem Situation.Inv.refreshing_step (inv : s.Inv policy) (refreshes : Refreshes s t)
    (more : s.opened ⊆ t.opened) :
    ∀ session, .refresh session ∈ t.requests → Known t.opened session := by
  intro session mem
  rcases refreshes session mem with mem | ⟨id, stored, now, found, rfl⟩
  · exact (inv.refreshing session mem).mono more
  · obtain ⟨first, mem, same⟩ := inv.stored id stored found
    exact ⟨first, more mem, same⟩

/-- A step that only takes sessions away. -/
theorem Situation.Inv.shrink (inv : s.Inv policy) (later : s.clock ≤ t.clock)
    (refreshes : Refreshes s t) (opened : t.opened = s.opened)
    (sub : ∀ id session, Dict.get? t.store id = some session →
      Dict.get? s.store id = some session) : t.Inv policy := by
  refine ⟨fun id session found => inv.keyed id session (sub id session found),
    fun id session found => opened ▸ inv.stored id session (sub id session found),
    inv.refreshing_step refreshes (opened ▸ List.Subset.refl _), opened ▸ inv.distinct, ?_⟩
  exact inv.orderly.of_sub fun id session found active =>
    ⟨session, sub id session found, isActive_mono later active, rfl, rfl⟩

theorem Situation.Inv.step {event : Event} (inv : s.Inv policy)
    (stepped : (concurrent policy).step s event = some t)
    (upToDate : event.upToDate policy s = true) : t.Inv policy := by
  obtain ⟨later, refreshes, effect⟩ := step_cases stepped
  rcases effect with ⟨store, opened⟩ | ⟨id, store, opened⟩ |
    ⟨i, id, userId, role, now, rfl, clock, here, fresh, store, opened⟩ |
    ⟨i, id, session, rfl, clock, here, store, opened⟩
  · exact inv.shrink later refreshes opened fun id session found => store ▸ found
  · refine inv.shrink later refreshes opened fun id' session found => ?_
    rw [store, get?_delete] at found
    split at found
    · cases found
    · exact found
  · obtain ⟨none, free⟩ := upToDate_revoke here upToDate
    have more : s.opened ⊆ t.opened := opened ▸ List.subset_cons_self _ _
    refine ⟨fun id' session found => ?_, fun id' session found => ?_,
      inv.refreshing_step refreshes more, ?_, ?_⟩
    · rw [store, get?_save] at found
      split at found
      · rename_i same
        obtain rfl := Option.some.inj found
        exact same.symm
      · exact inv.keyed id' session found
    · rw [store, get?_save] at found
      split at found
      · obtain rfl := Option.some.inj found
        exact ⟨_, opened ▸ List.mem_cons_self, rfl, rfl, rfl⟩
      · exact (inv.stored id' session found).mono more
    · rw [opened, List.map_cons, List.nodup_cons]
      exact ⟨fresh, inv.distinct⟩
    · rw [store, clock]
      refine inv.orderly.save (fun id' other found active => ?_) free
      exact none other (mem_activeSessions.mpr ⟨id', found, active⟩)
  · obtain ⟨stored, found, active⟩ := upToDate_refresh here upToDate
    have known := inv.refreshing session (List.mem_of_getElem? here)
    have same : stored.userId = session.userId ∧ stored.role = session.role :=
      Known.agree inv.distinct (inv.stored _ stored found) known (inv.keyed _ stored found)
    refine ⟨fun id' other there => ?_, fun id' other there => ?_,
      inv.refreshing_step refreshes (opened ▸ List.Subset.refl _), opened ▸ inv.distinct, ?_⟩
    · rw [store, get?_save] at there
      split at there
      · rename_i own
        obtain rfl := Option.some.inj there
        exact own.symm
      · exact inv.keyed id' other there
    · rw [opened]
      rw [store, get?_save] at there
      split at there
      · obtain rfl := Option.some.inj there
        exact known
      · exact inv.stored id' other there
    · rw [store, clock]
      refine inv.orderly.of_sub fun id' other there activeOther => ?_
      rw [get?_save] at there
      split at there
      · rename_i own
        obtain rfl := Option.some.inj there
        exact ⟨stored, own ▸ found, active, same.2, same.1⟩
      · exact ⟨other, there, activeOther, rfl, rfl⟩

theorem Phase.Deletes.act {phase next : Phase} {id drawn : String} {s' : Situation}
    (h : phase.Deletes id) (acted : phase.act policy s drawn = some (s', next)) :
    s'.store = s.store.delete id ∧ s'.opened = s.opened := by
  cases phase with
  | close id' =>
    obtain rfl : id' = id := h
    obtain ⟨rfl, -⟩ := Prod.mk.inj (Option.some.inj acted)
    exact ⟨rfl, rfl⟩
  | revoke userId role now ids =>
    cases ids with
    | nil => cases h
    | cons first ids =>
      obtain rfl : first = id := h
      obtain ⟨rfl, -⟩ := Prod.mk.inj (Option.some.inj acted)
      exact ⟨rfl, rfl⟩
  | count => cases h
  | list => cases h
  | get => cases h
  | refresh => cases h
  | expire => cases h
  | done => cases h

/-- The calls of the store of one request, with no other in between. -/
inductive Alone (policy : SessionPolicy) (id : String) : Situation → Phase → Situation → Prop
  | done (s : Situation) : Alone policy id s .done s
  | act {s s' s'' : Situation} {phase next : Phase} :
      phase.act policy s id = some (s', next) → Alone policy id s' next s'' →
        Alone policy id s phase s''

theorem alone_revoke {id : String} (userId : String) (role : Role) (now : Int) (ids : List String)
    (fresh : id ∉ s.opened.map Session.id) :
    ∃ s', Alone policy id s (.revoke userId role now ids) s' ∧ s'.store =
      (ids.foldl SessionStore.delete s.store).save (SessionPolicy.newSession userId role id now) := by
  induction ids generalizing s with
  | nil =>
    have saved : (Phase.revoke userId role now []).act policy s id =
        some ({ s with
          store := s.store.save (SessionPolicy.newSession userId role id now)
          opened := SessionPolicy.newSession userId role id now :: s.opened }, .done) := by
      rw [Phase.act, if_neg fresh]
    exact ⟨_, .act saved (.done _), rfl⟩
  | cons first ids ih =>
    obtain ⟨s', alone, store⟩ := ih (s := { s with store := s.store.delete first }) fresh
    exact ⟨s', .act rfl alone, store⟩

theorem revokeExisting_eq (store : SessionStore) (userId : String) (now : Int) :
    policy.revokeExisting store userId now =
      (((store.activeSessions now policy.idleTimeout).filter
        fun session => session.userId = userId).map Session.id).foldl SessionStore.delete store := by
  rw [List.foldl_map, List.foldl_filter]
  simp [SessionPolicy.revokeExisting]

/-- A request whose calls of the store no other interrupts does what its call does. -/
theorem alone_call (call : Call) (id : String)
    (fresh : ∀ userId role id', call = .openSession userId role id' →
      id' = id ∧ id ∉ s.opened.map Session.id) :
    ∃ s', Alone policy id s (call.begin s.clock) s' ∧ s'.store = call.run policy s.store s.clock := by
  cases call with
  | openSession userId role id' =>
    obtain ⟨rfl, unused⟩ := fresh userId role id' rfl
    obtain ⟨s', alone, store⟩ := @alone_revoke policy s id' userId role s.clock
      (((s.store.activeSessions s.clock policy.idleTimeout).filter
        fun session => session.userId = userId).map Session.id) unused
    rw [← revokeExisting_eq] at store
    cases role with
    | admin => exact ⟨s', .act rfl alone, store⟩
    | user =>
      cases required : policy.requireFreeSlot s.store userId s.clock with
      | error refusal =>
        have refused : (Phase.count userId s.clock).act policy s id' = some (s, .done) := by
          simp only [Phase.act, required]
        refine ⟨s, .act refused (.done s), ?_⟩
        simp [Call.run, SessionPolicy.openSession, Role.isExempt, required]
      | ok u =>
        have counted : (Phase.count userId s.clock).act policy s id' =
            some (s, .list userId .user s.clock) := by
          simp only [Phase.act, required]
        refine ⟨s', .act counted (.act rfl alone), ?_⟩
        simpa [Call.run, SessionPolicy.openSession, Role.isExempt, required] using store
  | touch id' =>
    simp only [Call.run, Call.begin, SessionPolicy.touch]
    cases found : Dict.get? s.store id' with
    | none => exact ⟨s, .act (by simp only [Phase.act, found]) (.done s), rfl⟩
    | some session =>
      cases active : policy.isActive session s.clock with
      | true =>
        have read : (Phase.get id' s.clock).act policy s id =
            some (s, .refresh (session.touchedAt s.clock)) := by
          simp only [Phase.act, found, active, if_true]
        exact ⟨_, .act read (.act rfl (.done _)), by simp [active]⟩
      | false =>
        have read : (Phase.get id' s.clock).act policy s id = some (s, .expire id') := by
          simp [Phase.act, found, active]
        exact ⟨_, .act read (.act rfl (.done _)), by simp [active]⟩
  | closeSession id' => exact ⟨_, .act rfl (.done _), rfl⟩

end TcadWebapp.Auth
