import TcadWebapp.Auth.Invites

/-!
# The count of an invitation

One inversion lemma says what a statement does to the rows and to its call (`effect_of_act`), and one
invariant carries the count: each row counts the calls that have committed a use of it.
-/

namespace TcadWebapp.Auth

variable {hashCode : String → String}

/-- What the images of a call stand for: one more use, or the revocation. -/
def InviteCall.Writes (hashCode : String → String) : InviteCall → InviteCode → InviteCode → Prop
  | .redeemed code now _, old, new => redeemable hashCode code now old = true ∧ new = useOnce old
  | .revoking id _, old, new => old.id = id ∧ ∃ now, new = revokeAt now old
  | _, _, _ => False

/-- The images that a call holds. -/
def InviteCall.images : InviteCall → List InviteCode
  | .redeemed _ _ images => images
  | .revoking _ images => images
  | _ => []

/-- A call that has committed a use of the row of this hash. -/
def InviteCall.uses (hashCode : String → String) (hash : String) : InviteCall → Bool
  | .committed code => hashCode code = hash
  | .returned (some result) => result.codeHash = hash
  | _ => false

/-- What one statement of the call `me` does. -/
inductive Effect (hashCode : String → String) (table : InviteTable) (me : Nat) :
    InviteCall → InviteTable → InviteCall → Prop
  | redeemed (code : String) (now : Int) (images : List InviteCode) (table' : InviteTable)
      (updated : table.update me (redeemable hashCode code now) useOnce = some (images, table')) :
      Effect hashCode table me (.redeem code now) table' (.redeemed code now images)
  | committed (code : String) (now : Int) (image : InviteCode) :
      Effect hashCode table me (.redeemed code now [image]) (table.commit me [image])
        (.committed code)
  | rolledBack (code : String) (now : Int) (images : List InviteCode) (none : images.length ≠ 1) :
      Effect hashCode table me (.redeemed code now images) (table.release me)
        (.rolledBack code now)
  | returned (code : String) :
      Effect hashCode table me (.committed code) table (.returned (table.get? (hashCode code)))
  | refused (code : String) (now : Int) :
      Effect hashCode table me (.rolledBack code now) table
        (.refused (refusal code now (table.get? (hashCode code))))
  | revoking (id : Nat) (now : Int) (images : List InviteCode) (table' : InviteTable)
      (updated : table.update me (revocable id) (revokeAt now) = some (images, table')) :
      Effect hashCode table me (.revoke id now) table' (.revoking id images)
  | revoked (id : Nat) (images : List InviteCode) :
      Effect hashCode table me (.revoking id images) (table.commit me images)
        (.revoked id (images.length = 1))

theorem effect_of_act {table table' : InviteTable} {me : Nat} {call next : InviteCall}
    (h : call.act hashCode table me = some (table', next)) :
    Effect hashCode table me call table' next := by
  cases call with
  | redeem code now =>
    simp only [InviteCall.act, Option.map_eq_some_iff, Prod.mk.injEq] at h
    obtain ⟨⟨images, t⟩, updated, rfl, rfl⟩ := h
    exact .redeemed code now images t updated
  | redeemed code now images =>
    simp only [InviteCall.act] at h
    split at h
    · rename_i one
      obtain ⟨image, rfl⟩ := List.length_eq_one_iff.mp one
      cases h
      exact .committed code now image
    · rename_i other
      cases h
      exact .rolledBack code now images other
  | committed code =>
    cases h
    exact .returned code
  | rolledBack code now =>
    cases h
    exact .refused code now
  | returned invite => cases h
  | refused error => cases h
  | revoke id now =>
    simp only [InviteCall.act, Option.map_eq_some_iff, Prod.mk.injEq] at h
    obtain ⟨⟨images, t⟩, updated, rfl, rfl⟩ := h
    exact .revoking id now images t updated
  | revoking id images =>
    cases h
    exact .revoked id images
  | revoked id hit => cases h

/-- What a step of the system does. -/
inductive InviteStep.Did (hashCode : String → String) (s : Invites) : InviteStep → Invites → Prop
  | issued (id : Nat) (code : String) (maxUses : Nat) (expiresAt : Int) (table : InviteTable)
      (fresh : id ∉ s.table.rows.map InviteCode.id)
      (inserted : s.table.insert ⟨id, hashCode code, expiresAt, maxUses, 0, none⟩ = some table) :
      Did hashCode s (.issue id code maxUses expiresAt) ⟨table, s.calls⟩
  | redeem (code : String) (now : Int) :
      Did hashCode s (.redeem code now) ⟨s.table, s.calls ++ [.redeem code now]⟩
  | revoke (id : Nat) (now : Int) :
      Did hashCode s (.revoke id now) ⟨s.table, s.calls ++ [.revoke id now]⟩
  | act (i : Nat) (call next : InviteCall) (table : InviteTable) (here : s.calls[i]? = some call)
      (effect : Effect hashCode s.table i call table next) :
      Did hashCode s (.act i) ⟨table, s.calls.set i next⟩

theorem did_of_step {s t : Invites} {label : InviteStep}
    (h : (invites hashCode).step s label = some t) : label.Did hashCode s t := by
  cases label with
  | issue id code maxUses expiresAt =>
    simp only [invites] at h
    split at h
    · cases h
    · rename_i ok
      obtain ⟨table, inserted, rfl⟩ := Option.map_eq_some_iff.mp h
      rw [not_or] at ok
      exact .issued id code maxUses expiresAt table ok.2 inserted
  | redeem code now =>
    cases h
    exact .redeem code now
  | revoke id now =>
    cases h
    exact .revoke id now
  | act i =>
    simp only [invites] at h
    split at h
    · cases h
    · rename_i call here
      obtain ⟨⟨table, next⟩, acted, rfl⟩ := Option.map_eq_some_iff.mp h
      exact .act i call next table here (effect_of_act acted)

/-! ## How the rows change -/

/-- The row is still there as `r'`; what was revoked stays revoked. -/
def InviteCode.KeptAs (r r' : InviteCode) : Prop :=
  r'.id = r.id ∧ r'.codeHash = r.codeHash ∧ (r.revokedAt.isSome → r'.revokedAt.isSome)

/-- No row is lost, and a row that is new has a new id. -/
structure Kept (rows rows' : List InviteCode) : Prop where
  kept : ∀ r ∈ rows, ∃ r' ∈ rows', r.KeptAs r'
  from_old : ∀ r' ∈ rows', (∃ r ∈ rows, r.KeptAs r') ∨ r'.id ∉ rows.map InviteCode.id

theorem InviteCode.KeptAs.refl (r : InviteCode) : r.KeptAs r := ⟨rfl, rfl, fun h => h⟩

theorem Kept.refl (rows : List InviteCode) : Kept rows rows where
  kept r hr := ⟨r, hr, .refl r⟩
  from_old r hr := Or.inl ⟨r, hr, .refl r⟩

theorem InviteCall.Writes.keptAs {call : InviteCall} {old new : InviteCode}
    (h : call.Writes hashCode old new) : old.KeptAs new := by
  cases call with
  | redeemed code now images =>
    obtain ⟨-, rfl⟩ := h
    exact ⟨rfl, rfl, fun h => h⟩
  | revoking id images =>
    obtain ⟨-, now, rfl⟩ := h
    exact ⟨rfl, rfl, fun _ => rfl⟩
  | _ => exact h.elim

theorem kept_insert {table table' : InviteTable} {r : InviteCode}
    (fresh : r.id ∉ table.rows.map InviteCode.id) (inserted : table.insert r = some table') :
    Kept table.rows table'.rows := by
  obtain ⟨-, rows, -⟩ := Table.insert_eq_some inserted
  rw [rows]
  constructor
  · intro r' hr'
    exact ⟨r', List.mem_append_left _ hr', .refl r'⟩
  · intro r' hr'
    rcases List.mem_append.mp hr' with hr' | hr'
    · exact Or.inl ⟨r', hr', .refl r'⟩
    · rw [List.mem_singleton.mp hr']
      exact Or.inr fresh

/-- What a commit makes of one row. -/
theorem keptAs_image {table : InviteTable} {me : Nat} {call : InviteCall} {images : List InviteCode}
    (pending : table.Pending (call.Writes hashCode) me images) {r : InviteCode}
    (hr : r ∈ table.rows) : r.KeptAs (Table.image InviteCode.codeHash images r) := by
  rcases pending.row hr with ⟨same, -⟩ | ⟨-, writes⟩
  · rw [same]
    exact .refl r
  · exact writes.keptAs

theorem kept_commit {table : InviteTable} {me : Nat} {call : InviteCall} {images : List InviteCode}
    (pending : table.Pending (call.Writes hashCode) me images) :
    Kept table.rows (table.commit me images).rows := by
  constructor
  · intro r hr
    exact ⟨_, List.mem_map_of_mem hr, keptAs_image pending hr⟩
  · intro r' hr'
    obtain ⟨r, hr, rfl⟩ := List.mem_map.mp hr'
    exact Or.inl ⟨r, hr, keptAs_image pending hr⟩

/-- A row has this id, and each such row is revoked or about to be, by one of the images. -/
def Marked (id : Nat) (images rows : List InviteCode) : Prop :=
  (∃ r ∈ rows, r.id = id) ∧ ∀ r ∈ rows, r.id = id →
    r.revokedAt.isSome = true ∨ r.codeHash ∈ images.map InviteCode.codeHash

theorem Marked.kept {id : Nat} {images rows rows' : List InviteCode} (h : Marked id images rows)
    (kept : Kept rows rows') : Marked id images rows' := by
  obtain ⟨⟨r, hr, rfl⟩, all⟩ := h
  constructor
  · obtain ⟨r', hr', same, -⟩ := kept.kept r hr
    exact ⟨r', hr', same⟩
  · intro r' hr' same
    rcases kept.from_old r' hr' with ⟨r₀, hr₀, sameId, sameHash, revoked⟩ | new
    · rcases all r₀ hr₀ (sameId.symm.trans same) with done | pending
      · exact Or.inl (revoked done)
      · exact Or.inr (sameHash.symm ▸ pending)
    · exact absurd (List.mem_map.mpr ⟨r, hr, same.symm⟩) new

/-! ## What a call may count on -/

/-- What a call may count on between its statements. -/
def InviteCall.Fits (hashCode : String → String) (table : InviteTable) (me : Nat)
    (call : InviteCall) : Prop :=
  table.Pending (call.Writes hashCode) me call.images ∧
    (∀ hash, call.uses hashCode hash = true → hash ∈ table.rows.map InviteCode.codeHash) ∧
      match call with
      | .revoking id images => images ≠ [] → Marked id images table.rows
      | .revoked id hit => hit = true → Marked id [] table.rows
      | _ => True

theorem InviteCall.Fits.mono {table table' : InviteTable} {me : Nat} {call : InviteCall}
    (h : call.Fits hashCode table me) (kept : Kept table.rows table'.rows)
    (pending : table'.Pending (call.Writes hashCode) me call.images) :
    call.Fits hashCode table' me := by
  obtain ⟨-, known, more⟩ := h
  refine ⟨pending, ?_, ?_⟩
  · intro hash uses
    obtain ⟨r, hr, rfl⟩ := List.mem_map.mp (known hash uses)
    obtain ⟨r', hr', -, same, -⟩ := kept.kept r hr
    exact List.mem_map.mpr ⟨r', hr', same⟩
  · cases call with
    | revoking id images => exact fun some => (more some).kept kept
    | revoked id hit => exact fun took => (more took).kept kept
    | _ => exact trivial

/-- The UPDATE of a revocation has hit all rows of its id that were not revoked. -/
theorem marked_of_update {table table' : InviteTable} {me id : Nat} {now : Int}
    {images : List InviteCode}
    (updated : table.update me (revocable id) (revokeAt now) = some (images, table'))
    (some : images ≠ []) : Marked id images table'.rows := by
  obtain ⟨rfl, rows, -⟩ := Table.update_eq_some updated
  have hit : ∀ r ∈ table.rows, r.id = id → r.revokedAt.isSome = false →
      r ∈ table.hits (revocable id) := by
    intro r hr same open'
    refine Table.mem_hits.mpr ⟨hr, ?_⟩
    simp [revocable, same, Option.isSome_eq_false_iff.mp open']
  rw [rows]
  constructor
  · obtain ⟨image, mem⟩ := List.exists_mem_of_ne_nil _ some
    obtain ⟨r, hr, -⟩ := List.mem_map.mp mem
    obtain ⟨hr, revocable⟩ := Table.mem_hits.mp hr
    refine ⟨r, hr, ?_⟩
    simp only [TcadWebapp.Auth.revocable, Bool.and_eq_true, decide_eq_true_eq] at revocable
    exact revocable.1
  · intro r hr same
    cases revoked : r.revokedAt.isSome with
    | true => exact Or.inl rfl
    | false =>
      refine Or.inr (List.mem_map.mpr ⟨revokeAt now r, ?_, rfl⟩)
      exact List.mem_map_of_mem (hit r hr same revoked)

/-- After its commit the rows are revoked. -/
theorem Marked.commit {table : InviteTable} {me id : Nat} {images : List InviteCode}
    (h : Marked id images table.rows)
    (pending : table.Pending ((InviteCall.revoking id images).Writes hashCode) me images) :
    Marked id [] (table.commit me images).rows := by
  have kept := h.kept (kept_commit pending)
  refine ⟨kept.1, fun r' hr' same => Or.inl ?_⟩
  obtain ⟨r, hr, rfl⟩ := List.mem_map.mp hr'
  rcases pending.row hr with ⟨image, out⟩ | ⟨-, -, now, image⟩
  · rw [image] at same ⊢
    exact (h.2 r hr same).resolve_right out
  · rw [image]
    rfl

section Effects

variable {table table' : InviteTable} {me : Nat} {call next : InviteCall}

/-- A statement loses no row, and takes nothing from the other calls. -/
theorem Effect.kept (h : Effect hashCode table me call table' next)
    (fits : call.Fits hashCode table me) : Kept table.rows table'.rows ∧
      ∀ {you : Nat} {other : InviteCall} {images : List InviteCode}, you ≠ me →
        table.Pending (other.Writes hashCode) you images →
          table'.Pending (other.Writes hashCode) you images := by
  cases h with
  | redeemed code now images table' updated =>
    obtain ⟨-, rows, -⟩ := Table.update_eq_some updated
    rw [rows]
    exact ⟨.refl _, fun _ pending => pending.update updated⟩
  | committed code now image =>
    exact ⟨kept_commit fits.1, fun other pending => pending.commit other fits.1⟩
  | rolledBack code now images none =>
    exact ⟨.refl _, fun other pending => pending.release other⟩
  | returned code => exact ⟨.refl _, fun _ pending => pending⟩
  | refused code now => exact ⟨.refl _, fun _ pending => pending⟩
  | revoking id now images table' updated =>
    obtain ⟨-, rows, -⟩ := Table.update_eq_some updated
    rw [rows]
    exact ⟨.refl _, fun _ pending => pending.update updated⟩
  | revoked id images =>
    exact ⟨kept_commit fits.1, fun other pending => pending.commit other fits.1⟩

/-- After its statement a call may count on what belongs to its new place. -/
theorem Effect.fits (h : Effect hashCode table me call table' next)
    (fits : call.Fits hashCode table me) : next.Fits hashCode table' me := by
  cases h with
  | redeemed code now images table' updated =>
    refine ⟨?_, fun _ uses => absurd uses Bool.false_ne_true, trivial⟩
    exact Table.pending_of_update (fun _ => rfl) updated
  | committed code now image =>
    refine ⟨Table.pending_nil, ?_, trivial⟩
    intro hash uses
    obtain ⟨-, old, found, hit, rfl⟩ := fits.1 image List.mem_cons_self
    obtain ⟨mem, -⟩ := Table.get?_eq_some.mp found
    obtain ⟨new, mem', -, same, -⟩ := (kept_commit fits.1).kept old mem
    refine List.mem_map.mpr ⟨new, mem', ?_⟩
    simp only [redeemable, Bool.and_eq_true, decide_eq_true_eq] at hit
    simp only [InviteCall.uses, decide_eq_true_eq] at uses
    rw [same, hit.1.1.1, uses]
  | rolledBack code now images none => exact ⟨Table.pending_nil, fun _ uses => absurd uses Bool.false_ne_true, trivial⟩
  | returned code =>
    refine ⟨Table.pending_nil, ?_, trivial⟩
    intro hash uses
    cases found : table.get? (hashCode code) with
    | none => simp [found, InviteCall.uses] at uses
    | some result =>
      obtain ⟨mem, -⟩ := Table.get?_eq_some.mp found
      simp only [found, InviteCall.uses, decide_eq_true_eq] at uses
      exact List.mem_map.mpr ⟨result, mem, uses⟩
  | refused code now => exact ⟨Table.pending_nil, fun _ uses => absurd uses Bool.false_ne_true, trivial⟩
  | revoking id now images table' updated =>
    refine ⟨?_, fun _ uses => absurd uses Bool.false_ne_true, fun some => marked_of_update updated some⟩
    have pending := Table.pending_of_update (by intro r; rfl) updated
    refine pending.mono fun old new h => ?_
    obtain ⟨hit, rfl⟩ := h
    simp only [revocable, Bool.and_eq_true, decide_eq_true_eq] at hit
    exact ⟨hit.1, now, rfl⟩
  | revoked id images =>
    refine ⟨Table.pending_nil, fun _ uses => absurd uses Bool.false_ne_true, fun hit => ?_⟩
    have some : images ≠ [] := by
      rintro rfl
      simp at hit
    exact (fits.2.2 some).commit fits.1

/-- How a row counts: what a statement adds to its count, its call adds to the uses. -/
theorem Effect.counts (h : Effect hashCode table me call table' next)
    (fits : call.Fits hashCode table me) : ∀ r' ∈ table'.rows, ∃ r ∈ table.rows,
      r'.codeHash = r.codeHash ∧
      (r.usedCount ≤ r.maxUses → r'.usedCount ≤ r'.maxUses) ∧
      r'.usedCount + (if call.uses hashCode r.codeHash then 1 else 0) =
        r.usedCount + if next.uses hashCode r.codeHash then 1 else 0 := by
  cases h with
  | redeemed code now images table' updated =>
    obtain ⟨-, rows, -⟩ := Table.update_eq_some updated
    intro r hr
    exact ⟨r, rows ▸ hr, rfl, fun h => h, rfl⟩
  | committed code now image =>
    intro r' hr'
    obtain ⟨r, hr, rfl⟩ := List.mem_map.mp hr'
    refine ⟨r, hr, Table.key_image _ _, ?_⟩
    have pending : table.Pending _ me [image] := fits.1
    obtain ⟨-, old, found, hit, hash⟩ := pending image List.mem_cons_self
    simp only [redeemable, Bool.and_eq_true, decide_eq_true_eq] at hit
    rcases pending.row hr with ⟨same, out⟩ | ⟨-, hit', writes⟩
    · -- a row of another code
      have other : hashCode code ≠ r.codeHash := by
        intro e
        refine out (List.mem_map.mpr ⟨image, List.mem_cons_self, ?_⟩)
        rw [hash, ← e, ← hit.1.1.1]
        rfl
      rw [same]
      simp [InviteCall.uses, other]
    · simp only [redeemable, Bool.and_eq_true, decide_eq_true_eq] at hit'
      rw [writes]
      simp only [InviteCall.uses, useOnce, hit'.1.1.1, decide_true, if_true]
      simp
      omega
  | rolledBack code now images none =>
    intro r hr
    exact ⟨r, hr, rfl, fun h => h, rfl⟩
  | returned code =>
    intro r hr
    refine ⟨r, hr, rfl, fun h => h, ?_⟩
    have same : InviteCall.uses hashCode r.codeHash (.returned (table.get? (hashCode code))) =
        InviteCall.uses hashCode r.codeHash (.committed code) := by
      cases found : table.get? (hashCode code) with
      | none =>
        have other : hashCode code ≠ r.codeHash := by
          intro e
          exact Table.get?_eq_none.mp found (List.mem_map.mpr ⟨r, hr, e.symm⟩)
        simp [InviteCall.uses, other]
      | some result =>
        obtain ⟨-, hash⟩ := Table.get?_eq_some.mp found
        simp [InviteCall.uses, hash]
    rw [same]
  | refused code now =>
    intro r hr
    exact ⟨r, hr, rfl, fun h => h, rfl⟩
  | revoking id now images table' updated =>
    obtain ⟨-, rows, -⟩ := Table.update_eq_some updated
    intro r hr
    exact ⟨r, rows ▸ hr, rfl, fun h => h, rfl⟩
  | revoked id images =>
    intro r' hr'
    obtain ⟨r, hr, rfl⟩ := List.mem_map.mp hr'
    refine ⟨r, hr, Table.key_image _ _, ?_⟩
    have pending : table.Pending _ me images := fits.1
    rcases pending.row hr with ⟨same, -⟩ | ⟨-, -, now, image⟩
    · rw [same]
      exact ⟨fun h => h, rfl⟩
    · rw [image]
      exact ⟨fun h => h, rfl⟩

end Effects

/-! ## The invariant -/

/-- What holds in every state that is reached. -/
structure Invites.Inv (hashCode : String → String) (s : Invites) : Prop where
  fits : ∀ (i : Nat) (call : InviteCall), s.calls[i]? = some call → call.Fits hashCode s.table i
  counted : ∀ invite ∈ s.table.rows,
    invite.usedCount = s.calls.countP (InviteCall.uses hashCode invite.codeHash)
  capped : ∀ invite ∈ s.table.rows, invite.usedCount ≤ invite.maxUses

theorem getElem?_concat {α : Type*} {l : List α} {a b : α} {i : Nat}
    (h : (l ++ [a])[i]? = some b) : l[i]? = some b ∨ b = a := by
  by_cases inside : i < l.length
  · rw [List.getElem?_append_left inside] at h
    exact Or.inl h
  · rw [List.getElem?_append_right (not_lt.mp inside)] at h
    exact Or.inr (List.mem_singleton.mp (List.mem_of_getElem? h))

private theorem countP_set_add {α : Type*} (p : α → Bool) {l : List α} {i : Nat} {a : α}
    (h : l[i]? = some a) (b : α) : (l.set i b).countP p + (if p a then 1 else 0) =
      l.countP p + if p b then 1 else 0 := by
  induction l generalizing i with
  | nil => simp at h
  | cons x l ih =>
    cases i with
    | zero =>
      obtain rfl : x = a := by simpa using h
      simp only [List.set_cons_zero, List.countP_cons]
      omega
    | succ i =>
      have rest := ih (i := i) (by simpa using h)
      simp only [List.set_cons_succ, List.countP_cons]
      omega

/-- A call that comes in has used nothing and holds nothing. -/
theorem Invites.Inv.comes {s : Invites} (inv : s.Inv hashCode) {call : InviteCall}
    (quiet : ∀ (table : InviteTable) (me : Nat), call.Fits hashCode table me)
    (unused : ∀ hash, call.uses hashCode hash = false) :
    Invites.Inv hashCode ⟨s.table, s.calls ++ [call]⟩ where
  fits i other here := by
    rcases getElem?_concat here with here | rfl
    · exact inv.fits i other here
    · exact quiet s.table i
  counted invite mem := by
    rw [List.countP_append, inv.counted invite mem]
    simp [unused]
  capped := inv.capped

theorem Invites.Inv.issued {s : Invites} (inv : s.Inv hashCode) {r : InviteCode}
    {table : InviteTable} (fresh : r.id ∉ s.table.rows.map InviteCode.id) (unused : r.usedCount = 0)
    (inserted : s.table.insert r = some table) : Invites.Inv hashCode ⟨table, s.calls⟩ := by
  obtain ⟨newHash, rows, -⟩ := Table.insert_eq_some inserted
  refine ⟨?_, ?_, ?_⟩
  · intro i call here
    have fits := inv.fits i call here
    exact fits.mono (kept_insert fresh inserted) (fits.1.insert inserted)
  · intro invite mem
    rw [rows] at mem
    rcases List.mem_append.mp mem with mem | mem
    · exact inv.counted invite mem
    · -- no call has used a code that was not issued
      obtain rfl := List.mem_singleton.mp mem
      symm
      rw [unused, List.countP_eq_zero]
      intro call hcall uses
      obtain ⟨i, here⟩ := List.getElem?_of_mem hcall
      exact newHash ((inv.fits i call here).2.1 _ uses)
  · intro invite mem
    rw [rows] at mem
    rcases List.mem_append.mp mem with mem | mem
    · exact inv.capped invite mem
    · obtain rfl := List.mem_singleton.mp mem
      omega

theorem Invites.Inv.act {s : Invites} (inv : s.Inv hashCode) {i : Nat} {call next : InviteCall}
    {table : InviteTable} (here : s.calls[i]? = some call)
    (effect : Effect hashCode s.table i call table next) :
    Invites.Inv hashCode ⟨table, s.calls.set i next⟩ := by
  have fits := inv.fits i call here
  obtain ⟨kept, others⟩ := effect.kept fits
  refine ⟨?_, ?_, ?_⟩
  · intro j other at'
    simp only [List.getElem?_set] at at'
    split at at'
    · rename_i same
      subst same
      split at at'
      · obtain rfl := Option.some.inj at'
        exact effect.fits fits
      · cases at'
    · rename_i apart
      have fits' := inv.fits j other at'
      exact fits'.mono kept (others (Ne.symm apart) fits'.1)
  · intro invite mem
    obtain ⟨r, hr, hash, -, count⟩ := effect.counts fits invite mem
    have set := countP_set_add (InviteCall.uses hashCode r.codeHash) here next
    have before := inv.counted r hr
    show invite.usedCount = (s.calls.set i next).countP _
    rw [hash]
    omega
  · intro invite mem
    obtain ⟨r, hr, -, cap, -⟩ := effect.counts fits invite mem
    exact cap (inv.capped r hr)

theorem invites_inductive : (invites hashCode).Inductive (Invites.Inv hashCode) where
  start := by
    rintro s rfl
    exact ⟨by simp, nofun, nofun⟩
  step := by
    intro s label t inv h
    cases did_of_step h with
    | issued id code maxUses expiresAt table fresh inserted => exact inv.issued fresh rfl inserted
    | redeem code now =>
      exact inv.comes (fun table me => ⟨Table.pending_nil, nofun, trivial⟩) fun hash => rfl
    | revoke id now =>
      exact inv.comes (fun table me => ⟨Table.pending_nil, nofun, trivial⟩) fun hash => rfl
    | act i call next table here effect => exact inv.act here effect

/-! ## The calls of a run -/

/-- A step that is not one of its own leaves a call where it is. -/
theorem InviteStep.Did.call {s t : Invites} {label : InviteStep} (h : label.Did hashCode s t)
    {i : Nat} {call : InviteCall} (here : s.calls[i]? = some call) :
    (label ≠ .act i ∧ t.calls[i]? = some call) ∨
      ∃ next, t.calls[i]? = some next ∧ Effect hashCode s.table i call t.table next := by
  have lt : i < s.calls.length := (List.getElem?_eq_some_iff.mp here).1
  cases h with
  | issued id code maxUses expiresAt table fresh inserted => exact Or.inl ⟨nofun, here⟩
  | redeem code now => exact Or.inl ⟨nofun, by rw [List.getElem?_append_left lt, here]⟩
  | revoke id now => exact Or.inl ⟨nofun, by rw [List.getElem?_append_left lt, here]⟩
  | act j call' next table here' effect =>
    by_cases same : j = i
    · subst same
      obtain rfl := Option.some.inj (here'.symm.trans here)
      exact Or.inr ⟨next, by simp [lt], effect⟩
    · refine Or.inl ⟨fun e => same (InviteStep.act.inj e), ?_⟩
      rw [List.getElem?_set_ne same]
      exact here

/-- What no statement of a call takes away, it has at the end. -/
theorem call_persists {P : InviteCall → Prop}
    (keep : ∀ {table table' : InviteTable} {me : Nat} {call next : InviteCall}, P call →
      Effect hashCode table me call table' next → P next)
    {h : List (Taken Invites InviteStep)} {s : Invites} (run : (invites hashCode).Run h s)
    {x : Taken Invites InviteStep} (hx : x ∈ h) {i : Nat} {call : InviteCall}
    (here : x.post.calls[i]? = some call) (holds : P call) {call' : InviteCall}
    (final : s.calls[i]? = some call') : P call' := by
  obtain ⟨later, earlier, rfl⟩ := List.append_of_mem hx
  have persists : ∃ call, s.calls[i]? = some call ∧ P call := by
    refine run.persists (P := fun s => ∃ call, s.calls[i]? = some call ∧ P call)
      ⟨call, here, holds⟩ ?_
    rintro y - hstep ⟨call, here, holds⟩
    rcases (did_of_step hstep).call here with ⟨-, same⟩ | ⟨next, moved, effect⟩
    · exact ⟨call, same, holds⟩
    · exact ⟨next, moved, keep holds effect⟩
  obtain ⟨last, at', holds⟩ := persists
  rwa [Option.some.inj (final.symm.trans at')]

/-- The redemption has failed, or is about to. -/
def InviteCall.Fails : InviteCall → Prop
  | .redeemed _ _ images => images = []
  | .rolledBack _ _ | .refused _ => True
  | _ => False

theorem InviteCall.Fails.keep {table table' : InviteTable} {me : Nat} {call next : InviteCall}
    (fails : call.Fails) (effect : Effect hashCode table me call table' next) : next.Fails := by
  cases effect with
  | committed code now image => exact absurd fails (List.cons_ne_nil _ _)
  | rolledBack code now images none => exact trivial
  | refused code now => exact trivial
  | _ => exact fails.elim

theorem InviteCall.Fails.not_succeeds {call : InviteCall} (fails : call.Fails) :
    call.succeeds = false := by
  cases call with
  | redeemed code now images =>
    obtain rfl : images = [] := fails
    rfl
  | rolledBack code now => rfl
  | refused error => rfl
  | _ => exact fails.elim

/-- The call has committed what it wrote. -/
def InviteCall.Wrote : InviteCall → Prop
  | .committed _ | .returned _ | .revoked _ _ => True
  | _ => False

theorem InviteCall.Wrote.keep {table table' : InviteTable} {me : Nat} {call next : InviteCall}
    (wrote : call.Wrote) (effect : Effect hashCode table me call table' next) : next.Wrote := by
  cases effect with
  | returned code => exact trivial
  | _ => exact wrote.elim

/-- The rows change at a commit only. -/
theorem Effect.rows {table table' : InviteTable} {me : Nat} {call next : InviteCall}
    (h : Effect hashCode table me call table' next) : next.Wrote ∨ table'.rows = table.rows := by
  cases h with
  | redeemed code now images table' updated => exact Or.inr (Table.update_eq_some updated).2.1
  | revoking id now images table' updated => exact Or.inr (Table.update_eq_some updated).2.1
  | rolledBack code now images none => exact Or.inr rfl
  | refused code now => exact Or.inr rfl
  | _ => exact Or.inl trivial

/-- An UPDATE hits no row of a code that was revoked or has expired. -/
theorem Effect.late {table table' : InviteTable} {me : Nat} {code : String} {now : Int}
    {next : InviteCall} (h : Effect hashCode table me (.redeem code now) table' next)
    {invite : InviteCode} (mem : invite ∈ table.rows) (hash : invite.codeHash = hashCode code)
    (late : invite.revokedAt.isSome = true ∨ invite.expiresAt ≤ now) : next.Fails := by
  cases h with
  | redeemed _ _ images table' updated =>
    obtain ⟨rfl, -⟩ := Table.update_eq_some updated
    have nothing : table.hits (redeemable hashCode code now) = [] := by
      refine List.filter_eq_nil_iff.mpr fun r hr hit => ?_
      simp only [redeemable, Bool.and_eq_true, decide_eq_true_eq] at hit
      obtain rfl := Table.eq_of_key hr mem (hit.1.1.1.trans hash.symm)
      rcases late with revoked | expired
      · rw [Option.isNone_iff_eq_none.mp hit.1.1.2] at revoked
        cases revoked
      · omega
    show (table.hits _).map useOnce = []
    rw [nothing]
    rfl

/-! ## The rules of a run -/

theorem countP_uses (invite : InviteCode) (calls : List InviteCall) :
    calls.countP (InviteCall.uses hashCode invite.codeHash) =
      calls.countP (InviteCall.hasReturned invite) +
        calls.countP (InviteCall.hasCommitted hashCode invite) := by
  induction calls with
  | nil => rfl
  | cons call calls ih =>
    have one : (if call.uses hashCode invite.codeHash then 1 else 0) =
        (if call.hasReturned invite then 1 else 0) +
          if call.hasCommitted hashCode invite then 1 else 0 := by
      cases call with
      | committed code => simp [InviteCall.uses, InviteCall.hasReturned, InviteCall.hasCommitted]
      | returned result =>
        cases result <;> simp [InviteCall.uses, InviteCall.hasReturned, InviteCall.hasCommitted]
      | _ => rfl
    simp only [List.countP_cons]
    omega

theorem invitesKept_of_run {h : List (Taken Invites InviteStep)} {s : Invites}
    (run : (invites hashCode).Run h s) : InvitesKept hashCode h s := by
  have inv := run.invariant invites_inductive
  constructor
  · intro invite mem
    rw [inv.counted invite mem, countP_uses]
  · exact inv.capped
  · intro i code here
    obtain ⟨invite, mem, hash⟩ := List.mem_map.mp
      ((inv.fits i _ here).2.1 (hashCode code) (by simp [InviteCall.uses]))
    refine ⟨invite, mem, hash, ?_⟩
    have found : s.table.get? (hashCode code) = some invite := hash ▸ Table.get?_of_mem mem
    simp only [invites, here, InviteCall.act, found, Option.map_some]
  · intro x hx i code now label here invite mem hash late call final
    obtain ⟨h', run', hstep, -⟩ := run.of_mem hx
    have inv' := run'.invariant invites_inductive
    have late : invite.revokedAt.isSome = true ∨ invite.expiresAt ≤ now := by
      rcases late with revoked | expired
      · obtain ⟨j, at'⟩ := List.getElem?_of_mem revoked
        have marked : Marked invite.id [] x.pre.table.rows := (inv'.fits j _ at').2.2 rfl
        exact Or.inl ((marked.2 invite mem rfl).resolve_right (by simp))
      · exact Or.inr expired
    rcases (did_of_step hstep).call here with ⟨other, -⟩ | ⟨next, moved, effect⟩
    · exact absurd label other
    · exact (call_persists InviteCall.Fails.keep run hx moved (effect.late mem hash late)
        final).not_succeeds
  · intro i error final x hx label
    obtain ⟨h', run', hstep, -⟩ := run.of_mem hx
    obtain ⟨pre, act, post⟩ := x
    obtain rfl : act = .act i := label
    have did : InviteStep.Did hashCode pre (.act i) post := did_of_step hstep
    cases did with
    | act _ call next table here effect =>
      refine effect.rows.resolve_left fun wrote => ?_
      have lt : i < pre.calls.length := (List.getElem?_eq_some_iff.mp here).1
      exact call_persists InviteCall.Wrote.keep run hx (by simp [lt]) wrote final

/-- Of two redemptions of a code for one use the second is refused. -/
def twoRedemptions : List InviteStep :=
  [.issue 1 "a" 1 10, .redeem "a" 5, .redeem "a" 6, .act 0, .act 0, .act 1, .act 1, .act 1, .act 0]

theorem invitesKept_of_run_twoRedemptions : ∃ h s,
    (invites id).exec ⟨.empty, []⟩ twoRedemptions = some (h, s) ∧ InvitesKept id h s := by
  obtain ⟨⟨h, s⟩, ran⟩ : ∃ r, (invites id).exec ⟨.empty, []⟩ twoRedemptions = some r :=
    ⟨_, rfl⟩
  exact ⟨h, s, ran, invitesKept_of_run (Lts.Run.of_exec rfl ran)⟩

/-- Between its COMMIT and its result a redemption has used the invite and not yet returned it. -/
theorem not_countsReturned : ¬ ∀ (hashCode : String → String)
    (h : List (Taken Invites InviteStep)) (s : Invites), (invites hashCode).Run h s →
      ∀ invite ∈ s.table.rows,
        invite.usedCount = s.calls.countP (InviteCall.hasReturned invite) := by
  intro all
  have run : (invites id).Run _ _ := Lts.Run.of_exec rfl
    (show (invites id).exec ⟨.empty, []⟩ (twoRedemptions.take 5) = some _ from rfl)
  exact absurd (all _ _ _ run ⟨1, "a", 10, 1, 1, none⟩ List.mem_cons_self) (by decide)

end TcadWebapp.Auth
