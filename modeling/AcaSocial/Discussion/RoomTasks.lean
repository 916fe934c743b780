import AcaSocial.Base.Tasks
import AcaSocial.Discussion.Service

/-!
# Room operations statement by statement

The operations of `rooms/rooms.service.ts` when several requests run at once. `addRule`,
`updateMembership` and `updatePolicy` check the actor and then run a transaction that locks the row
of the room, which is one statement here. `create` queries for a canonical room before its
transaction. `join` and `updateStatus` read a row and save their copy of it later, without a lock.

* **`RoomTask`** — where a request is. A constructor is named after the method and the statement
  that comes next.
* **`roomTasks`** — the program. Its runs are the interleavings of any requests.

`save` of a row that was read writes every column in which the copy differs from the row as it is
then, so it leaves the copy. `save` of a new membership inserts it, and fails when the user has one.

`request_alone` says that a request that runs alone leaves what the operation leaves in
`Service.lean`, where it is one atomic step.
-/

namespace AcaSocial

/-! ## Tasks

The methods of `RoomsService` statement by statement, where the service does not hold a lock from its first read to
its last write. -/

/-- A request to one of the endpoints of `rooms/rooms.controller.ts`. -/
structure RoomRequest where
  user : GatewayUser
  operation : RoomsOperation

inductive RoomTask where
  | create (dto : CreateRoomDto) (user : GatewayUser)
  | createExisting (dto : CreateRoomDto) (user : GatewayUser) (actor : Id) (parent : Option Room)
      (context : Option AcademicContext)
  | createTx (dto : CreateRoomDto) (user : GatewayUser) (actor : Id) (parent : Option Room)
      (context : Option AcademicContext)
  | join (id : UuidText) (user : GatewayUser)
  | joinMembership (room : Room) (actor : Id)
  /-- `existing` says whether the membership was read. -/
  | joinSave (existing : Bool) (membership : RoomMembership)
  | addRule (id : UuidText) (dto : CreateRoomRuleDto) (user : GatewayUser)
  | addRuleTx (id : UuidText) (dto : CreateRoomRuleDto)
  | updateMembership (id memberId : UuidText) (dto : UpdateMembershipDto) (user : GatewayUser)
  | updateMembershipTx (id memberId : UuidText) (dto : UpdateMembershipDto) (user : GatewayUser)
      (actor : Id)
  | updateStatus (id : UuidText) (status : RoomStatus) (user : GatewayUser)
  | updateStatusRead (id : UuidText) (status : RoomStatus)
  | updateStatusSave (room : Room)
  | updatePolicy (id : UuidText) (dto : UpdateRoomPolicyDto) (user : GatewayUser)
  | updatePolicyTx (id : UuidText) (dto : UpdateRoomPolicyDto) (user : GatewayUser)

abbrev RoomEffect := Effect Db RoomTask (Except HttpError Response)

/-- A statement that throws ends its request, and the others go on. -/
def RoomEffect.orFail {α : Type} (s : Db) (x : Except HttpError α) (k : α → RoomEffect) : RoomEffect :=
  match x with
  | .ok a => k a
  | .error e => ⟨s, [], some (.error e)⟩

/-- A transaction ends its request. -/
def RoomEffect.done (o : Outcome Db HttpError Response) : RoomEffect := ⟨o.state, [], some o.result⟩

namespace RoomTask

variable (w : World) (s : Db)

def enter (r : RoomRequest) : RoomTask :=
  match r.operation with
  | .create dto => .create dto r.user
  | .join id => .join id r.user
  | .addRule id dto => .addRule id dto r.user
  | .updateMembership id memberId dto => .updateMembership id memberId dto r.user
  | .updateStatus id status => .updateStatus id status r.user
  | .updatePolicy id dto => .updatePolicy id dto r.user

/-- The request goes on. -/
def go (t : RoomTask) : RoomEffect := ⟨s, [t], none⟩

open RoomsService RoomEffect in
/-- The next statement of a request. -/
def statement : RoomTask → RoomEffect
  | .create dto user =>
    orFail s (createChecks w s dto user) fun (actor, parent, context) =>
      go s (.createExisting dto user actor parent context)
  | .createExisting dto user actor parent context =>
    orFail s (RoomsService.createExisting s dto) fun _ =>
      go s (.createTx dto user actor parent context)
  | .createTx dto user actor parent context =>
    done ((commit s (RoomsService.createTx w s dto actor parent context) fun s roomId =>
      findOne s roomId user).map .room)
  | .join id user =>
    orFail s (joinRoom s id user) fun (room, actor) => go s (.joinMembership room actor)
  | .joinMembership room actor =>
    let existing := s.membership? room.id actor
    orFail s (RoomsService.joinMembership room actor existing) fun
      | .inl m => ⟨s, [], some (.ok (.membership m))⟩
      | .inr m => go s (.joinSave existing.isSome m)
  | .joinSave existing m => done ((commit s (RoomsService.joinSave s existing m) fun _ m => .ok m).map .membership)
  | .addRule id dto user =>
    orFail s (requireRoomManager w s id.id user) fun _ => go s (.addRuleTx id dto)
  | .addRuleTx id dto =>
    done ((commit s (RoomsService.addRuleTx s id dto) fun _ r => .ok r).map .rule)
  | .updateMembership id memberId dto user =>
    orFail s (updateMembershipChecks w s id dto user) fun actor =>
      go s (.updateMembershipTx id memberId dto user actor)
  | .updateMembershipTx id memberId dto user actor =>
    done ((commit s (RoomsService.updateMembershipTx w s id memberId dto user actor) fun _ m =>
      .ok m).map .membership)
  | .updateStatus id status user =>
    orFail s (requireRoomManager w s id.id user) fun _ => go s (.updateStatusRead id status)
  | .updateStatusRead id status =>
    orFail s (orThrow (s.room? id.id) (.notFound "Room not found")) fun room =>
      go s (.updateStatusSave { room with status })
  | .updateStatusSave room => ⟨{ s with rooms := s.rooms.save room }, [], some (.ok (.room room))⟩
  | .updatePolicy id dto user =>
    orFail s (requirePolicyOwner w s id.id user) fun _ => go s (.updatePolicyTx id dto user)
  | .updatePolicyTx id dto user =>
    done ((commit s (RoomsService.updatePolicyTx s id dto user) fun _ r => .ok r).map .room)

end RoomTask

/-- The room operations. What a statement takes from outside is the world that it finds. -/
def roomTasks : Program Db RoomRequest RoomTask World (Except HttpError Response) where
  enter := RoomTask.enter
  exec := RoomTask.statement

/-! ## One request alone

Left alone, the statements of a method have the effect of the method in one piece. -/

section

variable (w : World) (s : Db)

open RoomTask (statement go)

/-- A request in flight alone, after some statements. -/
def afterStatements (m : Nat) (t : RoomTask) : Pool Db RoomTask :=
  run (Pool.step roomTasks) ⟨s, [(0, t)], 1⟩ (List.replicate m (.run 0 w))

/-- A check that throws ends the request. -/
theorem after_error {α : Type} {m : Nat} {t : RoomTask} {x : Except HttpError α} {e : HttpError}
    {k : α → RoomTask} (h : statement w s t = RoomEffect.orFail s x fun a => go s (k a))
    (hx : x = .error e) : afterStatements w s (m + 1) t = ⟨s, [], 1⟩ := by
  have hexec : roomTasks.exec w s t = ⟨s, [], some (.error e)⟩ := h.trans (by rw [hx]; rfl)
  rw [afterStatements, List.replicate_succ, Pool.run_alone, hexec]
  exact Pool.run_over s 1 m w

/-- After a check that passes the request goes on. -/
theorem after_ok {α : Type} {m : Nat} {t : RoomTask} {x : Except HttpError α} {a : α}
    {k : α → RoomTask} (h : statement w s t = RoomEffect.orFail s x fun a => go s (k a))
    (hx : x = .ok a) : afterStatements w s (m + 1) t = afterStatements w s m (k a) := by
  have hexec : roomTasks.exec w s t = go s (k a) := h.trans (by rw [hx]; rfl)
  rw [afterStatements, List.replicate_succ, Pool.run_alone, hexec]
  rfl

/-- A statement that goes on with nothing ends the request. -/
theorem after_end {m : Nat} {t : RoomTask} {s' : Db} {r : Option (Except HttpError Response)}
    (h : statement w s t = ⟨s', [], r⟩) : afterStatements w s (m + 1) t = ⟨s', [], 1⟩ := by
  have hexec : roomTasks.exec w s t = ⟨s', [], r⟩ := h
  rw [afterStatements, List.replicate_succ, Pool.run_alone, hexec]
  exact Pool.run_over s' 1 m w

/-- A request that runs alone leaves what its operation leaves as one atomic step. -/
theorem request_alone (r : RoomRequest) :
    run (Pool.step roomTasks) (.idle s) (.start r :: List.replicate 3 (.run 0 w))
      = ⟨(r.operation.serve w s r.user).state, [], 1⟩ := by
  show afterStatements w s 3 (RoomTask.enter r) = _
  obtain ⟨user, o⟩ := r
  cases o with
  | create dto =>
    show afterStatements w s 3 (.create dto user) = ⟨(RoomsService.create w s dto user).state, [], 1⟩
    rw [RoomsService.create]
    cases hchecks : RoomsService.createChecks w s dto user with
    | error e => exact after_error w s rfl hchecks
    | ok c =>
      refine (after_ok w s rfl hchecks).trans ?_
      cases hexisting : RoomsService.createExisting s dto with
      | error e => exact after_error w s rfl hexisting
      | ok u => exact (after_ok w s rfl hexisting).trans (after_end w s rfl)
  -- the membership is looked up in a statement of its own, and answers or goes on to a save
  | join id =>
    show afterStatements w s 3 (.join id user) = ⟨(RoomsService.join s id user).state, [], 1⟩
    rw [RoomsService.join]
    cases hroom : RoomsService.joinRoom s id user with
    | error e => exact after_error w s rfl hroom
    | ok c =>
      refine (after_ok w s rfl hroom).trans ?_
      obtain ⟨room, actor⟩ := c
      show afterStatements w s 2 (.joinMembership room actor) = _
      simp only [ok_bind]
      cases hnext : RoomsService.joinMembership room actor (s.membership? room.id actor) with
      | error e =>
        refine after_end w s (r := some (.error e)) ?_
        simp only [statement, hnext]
        rfl
      | ok next =>
        cases next with
        | inl m =>
          refine after_end w s (r := some (.ok (.membership m))) ?_
          simp only [statement, hnext]
          rfl
        | inr m =>
          have hgo : roomTasks.exec w s (.joinMembership room actor)
              = go s (.joinSave (s.membership? room.id actor).isSome m) := by
            show statement w s (.joinMembership room actor) = _
            simp only [statement, hnext]
            rfl
          rw [afterStatements, List.replicate_succ, Pool.run_alone, hgo]
          exact after_end w s rfl
  | addRule id dto =>
    show afterStatements w s 3 (.addRule id dto user)
      = ⟨(RoomsService.addRule w s id dto user).state, [], 1⟩
    rw [RoomsService.addRule]
    cases hcheck : RoomsService.requireRoomManager w s id.id user with
    | error e => exact after_error w s rfl hcheck
    | ok u => exact (after_ok w s rfl hcheck).trans (after_end w s rfl)
  | updateMembership id memberId dto =>
    show afterStatements w s 3 (.updateMembership id memberId dto user)
      = ⟨(RoomsService.updateMembership w s id memberId dto user).state, [], 1⟩
    rw [RoomsService.updateMembership]
    cases hcheck : RoomsService.updateMembershipChecks w s id dto user with
    | error e => exact after_error w s rfl hcheck
    | ok actor => exact (after_ok w s rfl hcheck).trans (after_end w s rfl)
  -- three statements: the check, the room, the save
  | updateStatus id status =>
    show afterStatements w s 3 (.updateStatus id status user)
      = ⟨(RoomsService.updateStatus w s id status user).state, [], 1⟩
    unfold RoomsService.updateStatus
    cases hcheck : RoomsService.requireRoomManager w s id.id user with
    | error e => exact after_error w s rfl hcheck
    | ok u =>
      refine (after_ok w s rfl hcheck).trans ?_
      cases hroom : s.room? id.id with
      | none =>
        have hread : orThrow (s.room? id.id) (HttpError.notFound "Room not found")
            = .error (.notFound "Room not found") := by
          rw [hroom]
          rfl
        exact after_error w s rfl hread
      | some room =>
        have hread : orThrow (s.room? id.id) (HttpError.notFound "Room not found") = .ok room := by
          rw [hroom]
          rfl
        exact (after_ok w s rfl hread).trans (after_end w s rfl)
  | updatePolicy id dto =>
    show afterStatements w s 3 (.updatePolicy id dto user)
      = ⟨(RoomsService.updatePolicy w s id dto user).state, [], 1⟩
    rw [RoomsService.updatePolicy]
    cases hcheck : RoomsService.requirePolicyOwner w s id.id user with
    | error e => exact after_error w s rfl hcheck
    | ok u => exact (after_ok w s rfl hcheck).trans (after_end w s rfl)

end

end AcaSocial
