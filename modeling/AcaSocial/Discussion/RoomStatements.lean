import AcaSocial.Discussion.RoomOwners
import AcaSocial.Discussion.RoomTasks

/-!
# What a statement of a room operation does

* **`statement_aside`**, **`roll_*`** — the rolls after each statement that writes.
* **`Roll.Extends`** — rooms and memberships stay, with the columns that no operation writes.
* **`Grounded`** — the invariant of the tasks: a copy that a request is going to save is of a row that
  is there.

`grounded_step` is about every interleaving.
-/

namespace AcaSocial

variable {w : World} {s s' : Db} {t : RoomTask} {r : Id}

open RoomTask (statement)

/-- The columns of a room that no operation writes after its creation. -/
def Room.fixed (room : Room) : RoomType × MembershipPolicy := (room.roomType, room.membershipPolicy)

/-- The status that `join` gives. -/
def Room.joinStatus (room : Room) : MemberStatus :=
  if room.membershipPolicy = .approval then .pending else .active

/-- The statement may write. -/
def RoomTask.writes : RoomTask → Bool
  | .createTx _ _ _ _ _ | .joinSave _ _ | .addRuleTx _ _ | .updateMembershipTx _ _ _ _ _
  | .updateStatusSave _ | .updatePolicyTx _ _ _ => true
  | _ => false

/-! ## Statements that write nothing

A statement that checks or selects leaves the stores as they are, whatever it finds. -/

/-- A check that fails writes nothing either. -/
theorem store_orFail {α : Type} {x : Except HttpError α} {k : α → RoomEffect}
    (h : ∀ a, x = .ok a → (k a).store = s) : (RoomEffect.orFail s x k).store = s := by
  cases x with
  | error e => rfl
  | ok a => exact h a rfl

/-- A statement that does not write leaves the stores. -/
theorem statement_aside (h : t.writes = false) : (statement w s t).store = s := by
  cases t with
  | joinMembership room actor =>
    refine store_orFail fun next _ => ?_
    cases next <;> rfl
  | createTx | joinSave | addRuleTx | updateMembershipTx | updateStatusSave | updatePolicyTx =>
    cases h
  | _ => exact store_orFail fun _ _ => rfl

/-! ## Statements that write

The statements that commit. `StatementRolls` says what each of them makes of the rolls, and the others leave them
alone. -/

/-- The statement writes what it is there to write, and does not fail. -/
def RoomTask.commits (w : World) (s : Db) : RoomTask → Bool
  | .createTx dto _ actor parent context =>
    (RoomsService.createTx w s dto actor parent context).isOk
  | .joinSave existing m => (RoomsService.joinSave s existing m).isOk
  | .addRuleTx id dto => (RoomsService.addRuleTx s id dto).isOk
  | .updateMembershipTx id memberId dto user actor =>
    (RoomsService.updateMembershipTx w s id memberId dto user actor).isOk
  | .updateStatusSave _ => true
  | .updatePolicyTx id dto user => (RoomsService.updatePolicyTx s id dto user).isOk
  | _ => false

/-- **The cases of a statement.** The rolls of all rooms after it. -/
inductive StatementRolls (w : World) (s : Db) : RoomTask → (Id → Roll) → Prop where
  | aside {t : RoomTask} (hrefused : t.commits w s = false) : StatementRolls w s t s.roll
  | created {dto : CreateRoomDto} {user : GatewayUser} {actor : Id} {parent : Option Room}
      {context : Option AcademicContext} {room : Room}
      (hok : RoomTask.commits w s (.createTx dto user actor parent context) = true)
      (hcolumns : room.roomType = dto.roomType ∧ room.reviewPolicy = dto.reviewPolicy.getD .direct
        ∧ room.policyLocked = false ∧ room.rulesVersion = 1) :
      StatementRolls w s (.createTx dto user actor parent context) fun r =>
        if s.rooms.next = r then ((s.roll r).setRoom room).admitted
          ⟨s.rooms.next, actor, .owner, .active, .inherit, some actor, none⟩ else s.roll r
  | joinSaved {existing : Bool} {m : RoomMembership}
      (hok : RoomTask.commits w s (.joinSave existing m) = true)
      (hfree : existing = true ∨ s.membership? m.roomId m.userId = none) :
      StatementRolls w s (.joinSave existing m) fun r =>
        if m.roomId = r then (s.roll r).enrol m else s.roll r
  | ruleAdded {id : UuidText} {dto : CreateRoomRuleDto} {room : Room}
      (hok : RoomTask.commits w s (.addRuleTx id dto) = true) (hroom : s.room? id.id = some room) :
      StatementRolls w s (.addRuleTx id dto) fun r => if id.id = r then
        (s.roll r).setRoom { room with rulesVersion := room.rulesVersion + 1 } else s.roll r
  | membershipUpdated {id memberId : UuidText} {dto : UpdateMembershipDto} {user : GatewayUser}
      {actor : Id} {room : Room} {m : RoomMembership}
      (hok : RoomTask.commits w s (.updateMembershipTx id memberId dto user actor) = true)
      (hroom : s.room? id.id = some room) (hm : (s.roll id.id).member m.userId = some m)
      (huser : m.userId = memberId.id)
      (hlast : m.activeOwner → (dto.role ≠ .owner ∨ dto.status ≠ .active) →
        ∃ u m', u ≠ m.userId ∧ (s.roll id.id).member u = some m' ∧ m'.activeOwner) :
      StatementRolls w s (.updateMembershipTx id memberId dto user actor) fun r =>
        if id.id = r then (s.roll r).enrol { m with
          role := dto.role
          status := dto.status
          assignedBy := some actor
          postPermission := dto.postPermission.getD m.postPermission } else s.roll r
  | statusSaved {room row : Room} (hrow : s.room? room.id = some row)
      (hfixed : row.fixed = room.fixed) :
      StatementRolls w s (.updateStatusSave room) fun r =>
        if room.id = r then (s.roll r).setRoom room else s.roll r
  | policyUpdated {id : UuidText} {dto : UpdateRoomPolicyDto} {user : GatewayUser} {room : Room}
      (hok : RoomTask.commits w s (.updatePolicyTx id dto user) = true)
      (hroom : s.room? id.id = some room) :
      StatementRolls w s (.updatePolicyTx id dto user) fun r => if id.id = r then
        (s.roll r).setRoom { room with
          reviewPolicy := dto.reviewPolicy
          policyLocked := dto.policyLocked.getD room.policyLocked } else s.roll r

/-- A transaction fails and leaves the state, or commits. -/
theorem store_commit {α β : Type} (s : Db) (x : Except HttpError (Db × α))
    (respond : Db → α → Except HttpError β) (f : β → Response) :
    (x.isOk = false ∧ (RoomEffect.done ((commit s x respond).map f)).store = s)
    ∨ ∃ s' a, x = .ok (s', a) ∧ (RoomEffect.done ((commit s x respond).map f)).store = s' := by
  cases x with
  | error e => exact .inl ⟨rfl, rfl⟩
  | ok p => exact .inr ⟨p.1, p.2, rfl, rfl⟩

theorem StatementRolls.of_store {rolls : Id → Roll} (h : StatementRolls w s t rolls)
    (hrolls : ∀ r, s'.roll r = rolls r) : StatementRolls w s t s'.roll := by
  rw [show s'.roll = rolls from funext hrolls]
  exact h

/-- A statement that does not commit leaves the rolls. -/
theorem StatementRolls.refused (hrefused : t.commits w s = false)
    (hstore : (statement w s t).store = s) : StatementRolls w s t (statement w s t).store.roll := by
  rw [hstore]
  exact .aside hrefused

/-! ## What stays

Rooms stay with the columns that are never written, and memberships stay with their rooms. -/

namespace Roll

/-- The room stays with the columns that no operation writes, and its members stay. -/
structure Extends (t t' : Roll) : Prop where
  room : ∀ room, t.room = some room → ∃ room', t'.room = some room' ∧ room'.fixed = room.fixed
  member : ∀ u, (t.member u).isSome → (t'.member u).isSome

theorem Extends.refl (t : Roll) : t.Extends t :=
  ⟨fun room hroom => ⟨room, hroom, rfl⟩, fun _ hm => hm⟩

/-- A roll with one more member extends the one before. -/
theorem Extends.enrol (t : Roll) (m : RoomMembership) : t.Extends (t.enrol m) := by
  refine ⟨fun room hroom => ⟨room, hroom, rfl⟩, fun u hu => ?_⟩
  show (if m.userId = u then some m else t.member u).isSome
  split
  · rfl
  · exact hu

/-- A room that is written keeps its fixed columns. -/
theorem Extends.setRoom {t : Roll} {room room' : Room} (hroom : t.room = some room)
    (hfixed : room'.fixed = room.fixed) : t.Extends (t.setRoom room') := by
  refine ⟨fun room₀ hroom₀ => ⟨room', rfl, ?_⟩, fun _ hm => hm⟩
  obtain rfl := Option.some.inj (hroom.symm.trans hroom₀)
  exact hfixed

/-- A new room has no members before its owner. -/
theorem Extends.created {t : Roll} {room : Room} {m : RoomMembership} (hnew : t.room = none) :
    t.Extends ((t.setRoom room).admitted m) := by
  refine ⟨fun room₀ hroom₀ => (by cases hnew.symm.trans hroom₀), fun u hu => ?_⟩
  show (if m.userId = u then some ((t.member u).getD m) else t.member u).isSome
  split
  · rfl
  · exact hu

end Roll

/-- The room of a copy is there, with the same fixed columns. -/
def Db.HasRoom (s : Db) (room : Room) : Prop :=
  ∃ row, s.room? room.id = some row ∧ row.fixed = room.fixed

/-- What a join is going to save: a member, with the status that the room gives, in place of a membership
that was read or as a new one. -/
structure JoinRow (s : Db) (existing : Bool) (m : RoomMembership) : Prop where
  role : m.role = .member
  room : ∃ room, s.room? m.roomId = some room ∧ m.status = room.joinStatus
  there : existing = true → (s.membership? m.roomId m.userId).isSome
  fresh : existing = false → m.postPermission = .inherit

/-- **The invariant of the tasks.** The rows that a request has copied are there. -/
def Grounded (s : Db) : RoomTask → Prop
  | .joinMembership room _ => s.HasRoom room
  | .joinSave existing m => JoinRow s existing m
  | .updateStatusSave room => s.HasRoom room
  | _ => True

/-- A room that is found is there. -/
theorem hasRoom_of_room? {room : Room} {k : Id} (h : s.room? k = some room) : s.HasRoom room :=
  ⟨room, (Table.get?_eq_some.mp h).2 ▸ h, rfl⟩

/-- How a user joins is a fixed column of the room. -/
theorem joinStatus_eq {room room' : Room} (h : room'.fixed = room.fixed) :
    room'.joinStatus = room.joinStatus := by
  rw [Room.joinStatus, Room.joinStatus, (Prod.mk.inj h).2]

/-- A room that is there stays there. -/
theorem Db.HasRoom.mono {room : Room} (h : s.HasRoom room)
    (hext : ∀ r, (s.roll r).Extends (s'.roll r)) : s'.HasRoom room := by
  obtain ⟨row, hrow, hfixed⟩ := h
  obtain ⟨row', hrow', hfixed'⟩ := (hext room.id).room row hrow
  exact ⟨row', hrow', hfixed'.trans hfixed⟩

/-- What holds of a task stays true while rooms and memberships stay. -/
theorem Grounded.mono (h : Grounded s t) (hext : ∀ r, (s.roll r).Extends (s'.roll r)) :
    Grounded s' t := by
  cases t with
  | joinMembership room actor => exact Db.HasRoom.mono h hext
  | updateStatusSave room => exact Db.HasRoom.mono h hext
  | joinSave existing m =>
    obtain ⟨hrole, ⟨room, hroom, hstatus⟩, hthere, hfresh⟩ := h
    obtain ⟨room', hroom', hfixed⟩ := (hext m.roomId).room room hroom
    exact ⟨hrole, ⟨room', hroom', hstatus.trans (joinStatus_eq hfixed).symm⟩,
      fun he => (hext m.roomId).member m.userId (hthere he), hfresh⟩
  | _ => trivial

/-- **What a statement does to the rooms.** -/
theorem statement_rolls (h : Grounded s t) : StatementRolls w s t (statement w s t).store.roll := by
  cases t with
  -- each of the last statements of a method is a transaction that commits or does not
  | createTx dto user actor parent context =>
    rcases store_commit s (RoomsService.createTx w s dto actor parent context)
      (fun s roomId => RoomsService.findOne s roomId user) .room with ⟨hrefused, hstore⟩ | ⟨s', a, hok, hstore⟩
    · exact .refused hrefused hstore
    · obtain ⟨room, owner, rfl, hcolumns, rfl, -, -, hroll⟩ := createTx_ok hok
      refine .of_store (.created (congrArg Except.isOk hok) hcolumns) fun r => ?_
      rw [← hroll]
      exact congrArg (Db.roll · r) hstore
  | joinSave existing m =>
    rcases store_commit s (RoomsService.joinSave s existing m) (fun _ m => .ok m) .membership with
      ⟨hrefused, hstore⟩ | ⟨s', a, hok, hstore⟩
    · exact .refused hrefused hstore
    · have hsave := hok
      simp only [RoomsService.joinSave, bind_eq_ok, require_eq_ok, pure_eq_ok, Prod.mk.injEq] at hsave
      obtain ⟨-, hfree, rfl, rfl⟩ := hsave
      refine .of_store (.joinSaved (congrArg Except.isOk hok) hfree) fun r => ?_
      exact (congrArg (Db.roll · r) hstore).trans (roll_upsertMember rfl rfl)
  | addRuleTx id dto =>
    rcases store_commit s (RoomsService.addRuleTx s id dto) (fun _ r => .ok r) .rule with
      ⟨hrefused, hstore⟩ | ⟨s', a, hok, hstore⟩
    · exact .refused hrefused hstore
    · obtain ⟨room, hroom, -⟩ := addRuleTx_roll (r := id.id) hok
      refine .of_store (.ruleAdded (congrArg Except.isOk hok) hroom) fun r => ?_
      obtain ⟨room', hroom', hroll⟩ := addRuleTx_roll (r := r) hok
      obtain rfl := Option.some.inj (hroom.symm.trans hroom')
      exact (congrArg (Db.roll · r) hstore).trans hroll
  | updateMembershipTx id memberId dto user actor =>
    rcases store_commit s (RoomsService.updateMembershipTx w s id memberId dto user actor)
      (fun _ m => .ok m) .membership with ⟨hrefused, hstore⟩ | ⟨s', a, hok, hstore⟩
    · exact .refused hrefused hstore
    · obtain ⟨room, m, hroom, hm, huser, -, hlast, -, rfl, hroll⟩ := updateMembershipTx_ok hok
      refine .of_store (.membershipUpdated (congrArg Except.isOk hok) hroom hm huser hlast) fun r => ?_
      exact (congrArg (Db.roll · r) hstore).trans (hroll r)
  -- `save` writes the row that was read before, whose fixed columns are those of the stored one
  | updateStatusSave room =>
    obtain ⟨row, hrow, hfixed⟩ := h
    refine .of_store (.statusSaved hrow hfixed) fun r => ?_
    have hid : room.id = row.id := ((Table.get?_eq_some.mp hrow).2).symm
    exact roll_saveRoom hrow rfl hid rfl
  | updatePolicyTx id dto user =>
    rcases store_commit s (RoomsService.updatePolicyTx s id dto user) (fun _ r => .ok r) .room with
      ⟨hrefused, hstore⟩ | ⟨s', a, hok, hstore⟩
    · exact .refused hrefused hstore
    · obtain ⟨room, hroom, -, rfl, hroll⟩ := updatePolicyTx_roll hok
      refine .of_store (.policyUpdated (congrArg Except.isOk hok) hroom) fun r => ?_
      exact (congrArg (Db.roll · r) hstore).trans (hroll r)
  -- the other statements read
  | _ => exact .refused rfl (statement_aside rfl)

/-- A statement keeps the rooms and the memberships. -/
theorem extends_statement (h : Grounded s t) (r : Id) :
    (s.roll r).Extends ((statement w s t).store.roll r) := by
  have hcase := statement_rolls (w := w) h
  generalize (statement w s t).store.roll = rolls at hcase ⊢
  cases hcase with
  | aside hrefused => exact .refl _
  | created hok hcolumns =>
    dsimp only
    split
    · next hr => exact .created (hr ▸ s.rooms.get?_next)
    · exact .refl _
  | joinSaved hok hfree =>
    dsimp only
    split
    · exact .enrol _ _
    · exact .refl _
  | @ruleAdded id dto room hok hroom =>
    dsimp only
    split
    · next hid =>
      have hold : (s.roll r).room = some room := hid ▸ hroom
      exact .setRoom hold rfl
    · exact .refl _
  | membershipUpdated hok hroom hm huser hlast =>
    dsimp only
    split
    · exact .enrol _ _
    · exact .refl _
  -- the room is written over, under the key that it has
  | statusSaved hrow hfixed =>
    dsimp only
    split
    · next hid => exact .setRoom (hid ▸ hrow) hfixed.symm
    · exact .refl _
  | @policyUpdated id dto user room hok hroom =>
    dsimp only
    split
    · next hid =>
      have hold : (s.roll r).room = some room := hid ▸ hroom
      exact .setRoom hold rfl
    · exact .refl _

/-- Nobody is in a room that is not there. -/
def Db.Vacant (s : Db) : Prop := ∀ r, (s.roll r).room = none → ∀ u, (s.roll r).member u = none

theorem Roll.Owned.vacant (h : ∀ r, (s.roll r).Owned) : s.Vacant := fun r => (h r).none

/-- A statement writes members only into rooms that are there. -/
theorem vacant_statement (h : Grounded s t) (hvacant : s.Vacant) : (statement w s t).store.Vacant := by
  intro r hnone u
  -- the room was not there before
  have hbefore : (s.roll r).room = none := by
    cases hroom : (s.roll r).room with
    | none => rfl
    | some room =>
      obtain ⟨room', hroom', -⟩ := (extends_statement (w := w) h r).room room hroom
      cases hroom'.symm.trans hnone
  have hempty := hvacant r hbefore u
  have hthere : ∀ {k : Id} {room : Room}, s.room? k = some room → k ≠ r := by
    rintro k room hroom rfl
    cases hroom.symm.trans hbefore
  have hgrounded := h
  have hcase := statement_rolls (w := w) h
  generalize (statement w s t).store.roll = rolls at hcase hnone ⊢
  cases hcase with
  | aside hrefused => exact hempty
  | created hok hcolumns =>
    dsimp only at hnone ⊢
    split at hnone
    · cases hnone
    · next hr =>
      rw [if_neg hr]
      exact hempty
  | joinSaved hok hfree =>
    obtain ⟨room, hroom, -⟩ := JoinRow.room hgrounded
    dsimp only
    rw [if_neg (hthere hroom)]
    exact hempty
  | ruleAdded hok hroom =>
    dsimp only
    rw [if_neg (hthere hroom)]
    exact hempty
  | membershipUpdated hok hroom hm huser hlast =>
    dsimp only
    rw [if_neg (hthere hroom)]
    exact hempty
  | statusSaved hrow hfixed =>
    dsimp only
    rw [if_neg (hthere hrow)]
    exact hempty
  | policyUpdated hok hroom =>
    dsimp only
    rw [if_neg (hthere hroom)]
    exact hempty

/-! ## What a request goes on with

A request goes on with the rows that it has found, which are still there when the next statement runs. -/

/-- After a check the request goes on as `k` says. -/
theorem next_orFail {α : Type} {x : Except HttpError α} {k : α → RoomEffect} {P : RoomTask → Prop}
    (h : ∀ a, x = .ok a → ∀ t' ∈ (k a).next, P t') : ∀ t' ∈ (RoomEffect.orFail s x k).next, P t' := by
  cases x with
  | error e => exact fun _ ht' => absurd ht' List.not_mem_nil
  | ok a => exact h a rfl

theorem next_go {t' : RoomTask} {P : RoomTask → Prop} (h : P t') :
    ∀ t'' ∈ (RoomTask.go s t').next, P t'' :=
  fun _ ht => List.mem_singleton.mp ht ▸ h

/-- The row that a join goes on with. -/
theorem joinRow_of_ok {room : Room} {actor : Id} {m : RoomMembership} (hroom : s.HasRoom room)
    (h : RoomsService.joinMembership room actor (s.membership? room.id actor) = .ok (.inr m)) :
    JoinRow s (s.membership? room.id actor).isSome m := by
  obtain ⟨row, hrow, hfixed⟩ := hroom
  have hstatus := (joinStatus_eq hfixed).symm
  unfold RoomsService.joinMembership at h
  split at h
  · cases h
  · simp only [bind_eq_ok, require_eq_ok, pure_eq_ok] at h
    obtain ⟨-, -, h⟩ := h
    obtain rfl := Sum.inr.inj h
    cases hexisting : s.membership? room.id actor with
    | none => exact ⟨rfl, ⟨row, hrow, hstatus⟩, (fun h => by cases h), fun _ => rfl⟩
    | some m =>
      obtain ⟨hmr, hmu⟩ := Prod.mk.inj (Table.get?_eq_some.mp hexisting).2
      refine ⟨rfl, ⟨row, ?_, hstatus⟩, fun _ => ?_, (fun h => by cases h)⟩
      · show s.room? m.roomId = some row
        rw [hmr]
        exact hrow
      · show (s.membership? m.roomId m.userId).isSome = true
        rw [hmr, hmu, hexisting]
        rfl

/-- What a request goes on with is there. -/
theorem grounded_next (h : Grounded s t) :
    ∀ t' ∈ (statement w s t).next, Grounded (statement w s t).store t' := by
  cases t with
  | join id user =>
    rw [statement_aside rfl]
    refine next_orFail fun c hc => next_go ?_
    simp only [RoomsService.joinRoom, bind_eq_ok, orThrow_eq_ok, pure_eq_ok] at hc
    obtain ⟨-, -, room, hroom, -, -, rfl⟩ := hc
    exact hasRoom_of_room? hroom
  | joinMembership room actor =>
    rw [statement_aside rfl]
    refine next_orFail fun next hnext => ?_
    cases next with
    | inl m => exact fun _ ht' => absurd ht' List.not_mem_nil
    | inr m => exact next_go (joinRow_of_ok h hnext)
  | updateStatusRead id status =>
    rw [statement_aside rfl]
    refine next_orFail fun room hroom => next_go ?_
    obtain ⟨row, hrow, hfixed⟩ := hasRoom_of_room? (orThrow_eq_ok.mp hroom)
    exact ⟨row, hrow, hfixed⟩
  | createTx | joinSave | addRuleTx | updateMembershipTx | updateStatusSave | updatePolicyTx =>
    exact fun _ ht' => absurd ht' List.not_mem_nil
  | _ =>
    rw [statement_aside rfl]
    exact next_orFail fun _ _ => next_go trivial

/-! ## Interleavings

The rolls change by these statements alone, in any order. -/

/-- Every task of the pool is grounded. -/
def GroundedPool {γ : Type} (q : Pool Db RoomTask × γ) : Prop :=
  Pool.Holds (fun _ _ => True) (fun s _ _ t => Grounded s t) q

theorem groundedPool_idle {γ : Type} (s : Db) (g : γ) : GroundedPool (Pool.idle s, g) := .idle trivial

/-- Every step keeps the tasks grounded, whatever is noted beside it. -/
theorem grounded_step {γ : Type} {note : World → Db → Nat → RoomTask → γ → γ}
    {q : Pool Db RoomTask × γ} (h : GroundedPool q) (act : Act RoomRequest World) :
    GroundedPool (Pool.observe roomTasks note q act) := by
  refine h.observe_any act (fun s g n r _ => ?_) (fun w s g n t _ ht => ⟨trivial, grounded_next ht⟩)
    fun w s g n t m o _ ht ho => ho.mono (extends_statement ht)
  obtain ⟨user, o⟩ := r
  cases o <;> trivial

end AcaSocial
