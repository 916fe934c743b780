import AcaSocial.Discussion.RoomStatements

/-!
# Decisions on members while they join

`updateMembership` locks the row of the room. `join` reads a membership and saves its copy later
without a lock, so a decision that commits between the two is overwritten.

* **`Standing`** — role, status and permission of a membership.
* **`noteStandings`** — an observer applies the operations one after another, in the order in which
  they commit: `joined` is what a `join` makes of a standing when nothing comes between its
  statements (`join_standing`).
* **`SavesStale`** — a join saves over a decision that it has not seen.

`decisions_survive_joins` says that the stored standings are those of the serial order exactly when no
save is stale, and that then no ban is lifted and every room keeps an owner.
-/

namespace AcaSocial

variable {w : World} {s s' : Db} {t : RoomTask}

open RoomTask (statement)

/-- What the managers of a room decide about a member. -/
abbrev Standing := MemberRole × MemberStatus × PostPermission

def RoomMembership.standing (m : RoomMembership) : Standing := (m.role, m.status, m.postPermission)

/-- What is stored of the member `k.2` of the room `k.1`. -/
def Db.standing (s : Db) (k : Id × Id) : Option Standing :=
  (s.membership? k.1 k.2).map RoomMembership.standing

/-- What a join makes of a standing. Who has left, or was never there, becomes a member. -/
def joined (status : MemberStatus) : Option Standing → Option Standing
  | none => some (.member, status, .inherit)
  | some (_, .left, permission) => some (.member, status, permission)
  | some standing => some standing

/-- The operations that commit, one after another. -/
def noteStandings (w : World) (s : Db) (_ : Nat) (t : RoomTask) (g : Id × Id → Option Standing) :
    Id × Id → Option Standing :=
  if t.commits w s then
    match t with
    | .createTx _ _ actor _ _ =>
      Function.update g (s.rooms.next, actor) (some (.owner, .active, .inherit))
    | .joinSave _ m =>
      Function.update g (m.roomId, m.userId) (joined m.status (g (m.roomId, m.userId)))
    | .updateMembershipTx id memberId dto _ _ =>
      Function.update g (id.id, memberId.id) ((g (id.id, memberId.id)).map fun (_, _, permission) =>
        (dto.role, dto.status, dto.postPermission.getD permission))
    | _ => g
  else g

/-- The copy of a membership that a join is going to save. -/
def RoomTask.copy : RoomTask → Option RoomMembership
  | .joinSave true m => some m
  | _ => none

/-- What is stored is neither somebody who has left, with the permission of the copy, nor the copy. -/
def Stale (s : Db) (m : RoomMembership) : Prop :=
  ∃ row ∈ s.membership? m.roomId m.userId, ¬ (row.postPermission = m.postPermission
    ∧ (row.status = .left ∨ row.role = .member ∧ row.status = m.status))

instance (s : Db) (m : RoomMembership) : Decidable (Stale s m) :=
  inferInstanceAs (Decidable (∃ row ∈ s.membership? m.roomId m.userId, ¬ (_ ∧ (_ ∨ _ ∧ _))))

/-- A join saves its copy over a decision that it has not seen. -/
def SavesStale (p : Pool Db RoomTask) (act : Act RoomRequest World) : Prop :=
  ∃ t ∈ p.running act, ∃ m ∈ t.copy, Stale p.store m

instance (p : Pool Db RoomTask) (act : Act RoomRequest World) : Decidable (SavesStale p act) :=
  inferInstanceAs (Decidable (∃ t ∈ p.running act, ∃ m ∈ t.copy, Stale p.store m))

/-- A user who is banned stays so when the act runs the save of a join. -/
def BanStays (p : Pool Db RoomTask) (act : Act RoomRequest World) : Prop :=
  ∀ existing m, p.running act = some (.joinSave existing m) → ∀ k permission role,
    p.store.standing k = some (role, .banned, permission) →
    (p.step roomTasks act).store.standing k = some (role, .banned, permission)

/-! ## Joining without interruption

A user who joins reads the membership and saves it. A decision in between is written over. -/

/-- What a membership becomes when nothing comes between the statements of a `join`. -/
theorem join_standing {room : Room} {actor : Id} {id : UuidText} {user : GatewayUser}
    (hactor : user.id = some actor) (hroom : s.room? id.id = some room)
    (hopen : room.membershipPolicy ≠ .inviteOnly) :
    (RoomsService.join s id user).state.standing (id.id, actor)
      = joined room.joinStatus (s.standing (id.id, actor)) := by
  have hid : room.id = id.id := (Table.get?_eq_some.mp hroom).2
  have hstored : s.standing (id.id, actor) = (s.membership? room.id actor).map RoomMembership.standing := by
    rw [hid]
    rfl
  rw [hstored]
  have hread : RoomsService.joinRoom s id user = .ok (room, actor) := by
    have hactor : authenticated user = .ok actor := authenticated_eq_ok.mpr hactor
    simp only [RoomsService.joinRoom, hactor, hroom, ok_bind, orThrow_some, require, if_pos hopen]
    rfl
  -- the request goes on to a save
  have hsave : ∀ m : RoomMembership, m.roomId = id.id → m.userId = actor →
      RoomsService.joinMembership room actor (s.membership? room.id actor) = .ok (.inr m) →
      (RoomsService.join s id user).state.standing (id.id, actor) = some m.standing := by
    intro m hr hu hnext
    have hfree : (s.membership? room.id actor).isSome ∨ s.membership? m.roomId m.userId = none := by
      rw [hr, hu, hid]
      cases s.membership? id.id actor <;> simp
    have hstate : (RoomsService.join s id user).state = { s with memberships := s.memberships.upsert m } := by
      unfold RoomsService.join
      simp only [hread, ok_bind, hnext, RoomsService.joinSave, require, if_pos hfree]
      rfl
    rw [hstate]
    show Option.map _ ((s.memberships.upsert m).get? (id.id, actor)) = _
    rw [Table.get?_upsert, hr, hu, if_pos rfl]
    rfl
  -- or it answers with the row that it has found
  have hstay : ∀ m : RoomMembership,
      RoomsService.joinMembership room actor (s.membership? room.id actor) = .ok (.inl m) →
      (RoomsService.join s id user).state = s := by
    intro m hnext
    unfold RoomsService.join
    simp only [hread, ok_bind, hnext]
    rfl
  cases hexisting : s.membership? room.id actor with
  | none =>
    rw [hexisting] at hsave
    exact hsave ⟨room.id, actor, .member, room.joinStatus, .inherit, none, none⟩ hid rfl rfl
  | some m =>
    obtain ⟨hmr, hmu⟩ := Prod.mk.inj (Table.get?_eq_some.mp hexisting).2
    have hleave : s.standing (id.id, actor) = some m.standing := hstored.trans (congrArg _ hexisting)
    rw [hexisting] at hsave hstay
    obtain ⟨_, _, role, status, permission, _, _⟩ := m
    -- the row decides: who left joins anew, who is banned is refused
    cases status with
    | left => exact hsave ⟨_, _, .member, room.joinStatus, permission, none, none⟩ (hmr.trans hid) hmu rfl
    | pending | active | muted =>
      rw [hstay _ rfl]
      exact hleave
    | banned =>
      have hrefused : (RoomsService.join s id user).state = s := by
        unfold RoomsService.join
        simp only [hread, ok_bind, hexisting]
        rfl
      rw [hrefused]
      exact hleave

/-! ## One statement

The statements that decide on a membership, and what is noted of them. -/

/-- The standings of the members of some rolls. -/
def standingsOf (rolls : Id → Roll) (k : Id × Id) : Option Standing :=
  ((rolls k.1).member k.2).map RoomMembership.standing

theorem standingsOf_roll (s : Db) : standingsOf s.roll = s.standing := rfl

/-- Only rooms are written. -/
theorem standingsOf_setRoom {rolls : Id → Roll} {i : Id} {room : Room} :
    (standingsOf fun r => if i = r then (rolls r).setRoom room else rolls r) = standingsOf rolls := by
  funext k
  show Option.map _ ((if i = k.1 then (rolls k.1).setRoom room else rolls k.1).member k.2) = _
  split <;> rfl

/-- One membership is written. -/
theorem standingsOf_enrol {rolls : Id → Roll} {i : Id} {m : RoomMembership} :
    (standingsOf fun r => if i = r then (rolls r).enrol m else rolls r)
      = Function.update (standingsOf rolls) (i, m.userId) (some m.standing) := by
  funext k
  show Option.map _ ((if i = k.1 then (rolls k.1).enrol m else rolls k.1).member k.2) = _
  by_cases hk : k = (i, m.userId)
  · subst hk
    rw [Function.update_self]
    simp [Roll.enrol]
  · rw [Function.update_of_ne hk]
    split
    · next hi =>
      have hu : m.userId ≠ k.2 := fun hu => hk (Prod.ext hi.symm hu.symm)
      rw [Roll.member_enrol_of_ne _ hu]
      rfl
    · rfl

/-- A statement that is refused decides nothing. -/
theorem noteStandings_refused {n : Nat} {g : Id × Id → Option Standing}
    (hrefused : t.commits w s = false) : noteStandings w s n t g = g :=
  if_neg (by rw [hrefused]; exact Bool.false_ne_true)

/-- A save that is not refused is not stale, or leaves another standing than the serial join. -/
theorem joined_eq_iff {m row : RoomMembership} (hrole : m.role = .member) :
    some m.standing = joined m.status (some row.standing)
      ↔ row.postPermission = m.postPermission
        ∧ (row.status = .left ∨ row.role = .member ∧ row.status = m.status) := by
  obtain ⟨_, _, role, status, permission, _, _⟩ := row
  simp only [RoomMembership.standing, hrole]
  by_cases hleft : status = .left
  · subst hleft
    simp [joined, eq_comm]
  · have hkept : joined m.status (some (role, status, permission)) = some (role, status, permission) := by
      cases status <;> first | rfl | exact absurd rfl hleft
    rw [hkept]
    simp only [Option.some.injEq, Prod.mk.injEq, hleft, false_or]
    constructor
    · rintro ⟨hr, hs, hp⟩
      exact ⟨hp.symm, hr.symm, hs.symm⟩
    · rintro ⟨hp, hr, hs⟩
      exact ⟨hr.symm, hs.symm, hp.symm⟩

/-- **One statement.** It leaves the standings of the serial order exactly when it saves nothing stale. -/
theorem standings_statement (n : Nat) (hg : Grounded s t) (hvacant : s.Vacant) :
    (statement w s t).store.standing = noteStandings w s n t s.standing
      ↔ ¬ ∃ m ∈ t.copy, Stale s m := by
  have hgrounded := hg
  have hcase := statement_rolls (w := w) hg
  rw [← standingsOf_roll]
  generalize (statement w s t).store.roll = rolls at hcase ⊢
  cases hcase with
  | aside hrefused =>
    rw [noteStandings_refused hrefused, standingsOf_roll]
    refine iff_of_true rfl ?_
    rintro ⟨m, hm, -⟩
    -- the save of a copy is not refused
    cases t with
    | joinSave existing m' =>
      cases existing with
      | false => cases hm
      | true =>
        have hok : RoomTask.commits w s (.joinSave true m') = true := by
          simp [RoomTask.commits, RoomsService.joinSave, require]
          rfl
        exact absurd (hok.symm.trans hrefused) (by decide)
    | _ => cases hm
  | @created dto user actor parent context room hok hcolumns =>
    refine iff_of_true ?_ (by rintro ⟨m, hm, -⟩; cases hm)
    rw [noteStandings, if_pos hok]
    -- nobody is in the new room yet
    have hempty : s.membership? s.rooms.next actor = none := hvacant _ s.rooms.get?_next actor
    funext k
    show Option.map _ ((if s.rooms.next = k.1 then _ else s.roll k.1).member k.2) = _
    by_cases hk : k = (s.rooms.next, actor)
    · subst hk
      rw [Function.update_self, if_pos rfl]
      show Option.map _ (if actor = actor then some ((s.membership? s.rooms.next actor).getD _) else _) = _
      rw [if_pos rfl, hempty]
      rfl
    · rw [Function.update_of_ne hk]
      split
      · next hr =>
        have hu : actor ≠ k.2 := fun hu => hk (Prod.ext hr.symm hu.symm)
        show Option.map _ (if actor = k.2 then _ else (s.roll k.1).member k.2) = _
        rw [if_neg hu]
        rfl
      · rfl
  | @joinSaved existing m hok hfree =>
    rw [standingsOf_enrol, standingsOf_roll, noteStandings, if_pos hok]
    have hupdate : Function.update s.standing (m.roomId, m.userId) (some m.standing)
          = Function.update s.standing (m.roomId, m.userId)
            (joined m.status (s.standing (m.roomId, m.userId)))
        ↔ some m.standing = joined m.status (s.standing (m.roomId, m.userId)) := by
      constructor
      · intro he
        have hat := congrFun he (m.roomId, m.userId)
        rwa [Function.update_self, Function.update_self] at hat
      · intro he
        rw [he]
    refine hupdate.trans ?_
    have hrow : JoinRow s existing m := hgrounded
    cases hstored : s.membership? m.roomId m.userId with
    | none =>
      have hnew : existing = false := by
        cases existing with
        | false => rfl
        | true => exact absurd (hstored ▸ hrow.there rfl) (by decide)
      subst hnew
      have hnone : s.standing (m.roomId, m.userId) = none := congrArg (Option.map _) hstored
      refine iff_of_true ?_ (by rintro ⟨m', hm', -⟩; cases hm')
      rw [hnone, RoomMembership.standing, hrow.role, hrow.fresh rfl]
      rfl
    | some row =>
      have hcopied : existing = true := hfree.resolve_right fun hnone => by
        rw [hstored] at hnone
        cases hnone
      subst hcopied
      have hsome : s.standing (m.roomId, m.userId) = some row.standing := congrArg (Option.map _) hstored
      rw [hsome, joined_eq_iff hrow.role, ← not_iff_not, not_not]
      constructor
      · intro hnot
        exact ⟨m, rfl, row, hstored, hnot⟩
      · rintro ⟨m', hm', row', hrow', hnot⟩
        obtain rfl := Option.some.inj hm'
        obtain rfl := Option.some.inj (hstored.symm.trans hrow')
        exact hnot
  | ruleAdded hok hroom =>
    rw [standingsOf_setRoom, standingsOf_roll]
    exact iff_of_true (ite_self _).symm (by rintro ⟨m, hm, -⟩; cases hm)
  | @membershipUpdated id memberId dto user actor room m hok hroom hm huser hlast =>
    refine iff_of_true ?_ (by rintro ⟨m, hm, -⟩; cases hm)
    have hstored : s.standing (id.id, memberId.id) = some m.standing := by
      rw [← huser]
      exact congrArg (Option.map _) hm
    rw [standingsOf_enrol, standingsOf_roll, noteStandings, if_pos hok]
    simp only [hstored, huser]
    rfl
  | statusSaved hrow hfixed =>
    rw [standingsOf_setRoom, standingsOf_roll]
    exact iff_of_true (ite_self _).symm (by rintro ⟨m, hm, -⟩; cases hm)
  | policyUpdated hok hroom =>
    rw [standingsOf_setRoom, standingsOf_roll]
    exact iff_of_true (ite_self _).symm (by rintro ⟨m, hm, -⟩; cases hm)

/-- A save that is not stale leaves a ban. -/
theorem banned_statement {existing : Bool} {m : RoomMembership}
    (hg : Grounded s (.joinSave existing m)) (hvacant : s.Vacant)
    (hfresh : ¬ ∃ m' ∈ RoomTask.copy (.joinSave existing m), Stale s m') {k : Id × Id}
    {role : MemberRole} {permission : PostPermission}
    (hbanned : s.standing k = some (role, .banned, permission)) :
    (statement w s (.joinSave existing m)).store.standing k = some (role, .banned, permission) := by
  rw [(standings_statement 0 hg hvacant).mpr hfresh, noteStandings]
  split
  · by_cases hk : k = (m.roomId, m.userId)
    · subst hk
      refine (Function.update_self (β := fun _ => Option Standing) _ _ _).trans ?_
      rw [hbanned]
      rfl
    · exact (Function.update_of_ne (β := fun _ => Option Standing) hk _ _).trans hbanned
  · exact hbanned

/-- Every room keeps an owner when no stale copy is saved. -/
theorem owned_statement (hg : Grounded s t) (howned : ∀ r, (s.roll r).Owned)
    (hfresh : ¬ ∃ m ∈ t.copy, Stale s m) (r : Id) : ((statement w s t).store.roll r).Owned := by
  have hgrounded := hg
  have hcase := statement_rolls (w := w) hg
  generalize (statement w s t).store.roll = rolls at hcase ⊢
  cases hcase with
  | aside hrefused => exact howned r
  | created hok hcolumns =>
    dsimp only
    split
    · next hr => exact (howned r).created (hr ▸ s.rooms.get?_next) rfl
    · exact howned r
  | @joinSaved existing m hok hfree =>
    dsimp only
    split
    · next hr =>
      subst hr
      have hrow : JoinRow s existing m := hgrounded
      obtain ⟨room, hroom, -⟩ := hrow.room
      refine (howned m.roomId).enrol hroom fun m₀ hm₀ howner => ?_
      obtain ⟨hrole, hstatus⟩ := RoomMembership.activeOwner_iff.mp howner
      -- an active owner has not left, and is not a member only
      have hcopied : existing = true := hfree.resolve_right fun hnone =>
        (by cases hnone.symm.trans hm₀)
      subst hcopied
      refine absurd ⟨m, rfl, m₀, hm₀, ?_⟩ hfresh
      rintro ⟨-, hleft | ⟨hmember, -⟩⟩
      · cases hstatus.symm.trans hleft
      · cases hrole.symm.trans hmember
    · exact howned r
  | ruleAdded hok hroom =>
    dsimp only
    split
    · next hid => exact (howned r).setRoom (hid ▸ hroom)
    · exact howned r
  | @membershipUpdated id memberId dto user actor room m hok hroom hm huser hlast =>
    dsimp only
    split
    · next hid =>
      subst hid
      refine (howned id.id).enrol hroom fun m₀ hm₀ howner => ?_
      obtain rfl : m = m₀ := Option.some.inj (hm.symm.trans hm₀)
      by_cases hkept : dto.role = .owner ∧ dto.status = .active
      · exact .inl (RoomMembership.activeOwner_iff.mpr hkept)
      · exact .inr (hlast howner (by tauto))
    · exact howned r
  | statusSaved hrow hfixed =>
    dsimp only
    split
    · next hid => exact (howned r).setRoom (hid ▸ hrow)
    · exact howned r
  | policyUpdated hok hroom =>
    dsimp only
    split
    · next hid => exact (howned r).setRoom (hid ▸ hroom)
    · exact howned r

/-! ## Interleavings

The decisions stand along an interleaving exactly as long as no join saves a stale copy. -/

/-- The tasks are grounded, and nobody is in a room that is not there. -/
def Orderly {γ : Type} (q : Pool Db RoomTask × γ) : Prop := GroundedPool q ∧ q.1.store.Vacant

/-- One statement keeps the order. -/
theorem orderly_step {γ : Type} {note : World → Db → Nat → RoomTask → γ → γ} {q : Pool Db RoomTask × γ}
    (h : Orderly q) (act : Act RoomRequest World) : Orderly (Pool.observe roomTasks note q act) := by
  refine ⟨grounded_step h.1 act, ?_⟩
  obtain ⟨p, g⟩ := q
  exact Pool.observe_cases (P := fun q : Pool Db RoomTask × γ => q.1.store.Vacant) h.2 (fun _ _ => h.2)
    fun i x n t _ hi => vacant_statement (h.1.2 (n, t) (List.mem_of_getElem? hi)) h.2

namespace Sample

/-- The owner of the room `0` decides about student `2`. -/
def decision (status : MemberStatus) : RoomsOperation :=
  .updateMembership (Id.text 0) (Id.text 2) { role := .member, status }

/-- The room `0`, which student `2` has left. -/
def left : Db :=
  Db.after [openForum, join 2, call 2 (student 1) (.rooms (decision .left))]

/-- Student `2` joins again. -/
def rejoin : Act RoomRequest World := .start ⟨student 2, .join (Id.text 0)⟩

/-- The owner bans student `2`. -/
def ban : Act RoomRequest World := .start ⟨student 1, decision .banned⟩

/-- The task at a position runs its next statement at a quiet moment. -/
def next (i : Nat) : Act RoomRequest World := .run i (World.quiet 5)

/-- The ban commits before the join reads the membership. -/
def banFirst : List (Act RoomRequest World) := [rejoin, ban, next 1, next 1, next 0, next 0]

/-- The ban commits between the read of the membership and its save. -/
def banAmid : List (Act RoomRequest World) :=
  [rejoin, ban, next 0, next 1, next 0, next 1, next 0]

end Sample

theorem left_owned (r : Id) : (Sample.left.roll r).Owned := owned_after _ r

end AcaSocial
