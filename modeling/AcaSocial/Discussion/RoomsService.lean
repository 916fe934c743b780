import AcaSocial.Discussion.ContentPolicy

/-!
# Rooms

`rooms/rooms.service.ts`: who may see a room, post in it and manage it, and the operations on
rooms and memberships.

`assertCanPost` may add a membership on the way. It does so on `this.db`, a connection of its
own, so the row is committed even when the surrounding transaction is rolled back. The model
splits the function accordingly: `autoJoin` is the insertion, `assertCanPost` the decision on the
state after it.
-/

namespace AcaSocial

namespace AcademicReferenceService

def context (w : World) (curriculumCourseId : UuidText) : Except HttpError AcademicContext :=
  match w.academicContext curriculumCourseId with
  | .unreachable => .error (.serviceUnavailable "Academic service unavailable")
  | .notFound => .error (.badRequest "Academic context does not exist")
  | .failed => .error (.serviceUnavailable "Cannot validate academic context")
  | .ok c => .ok c

def major (w : World) (majorId : UuidText) : Except HttpError Unit :=
  match w.major majorId with
  | .unreachable => .error (.serviceUnavailable "Academic service unavailable")
  | .notFound => .error (.badRequest "Active major does not exist")
  | .failed => .error (.serviceUnavailable "Cannot validate major")
  | .ok u => .ok u

end AcademicReferenceService

namespace Db

def room? (s : Db) (i : Id) : Option Room := s.rooms.get? i

def membership? (s : Db) (roomId userId : Id) : Option RoomMembership :=
  s.memberships.get? (roomId, userId)

def binding? (s : Db) (roomId : Id) : Option RoomAcademicBinding := s.bindings.get? roomId

end Db

/-- `membership.expiresAt && membership.expiresAt <= new Date()`. -/
def RoomMembership.expired (m : RoomMembership) (now : Time) : Bool :=
  m.expiresAt.any fun e => decide (e ≤ now)

/-- The result of `assertCanPost`. -/
structure PostContext where
  room : Room
  binding : Option RoomAcademicBinding
  requiresApproval : Bool

/-- An element of the response of `list`. -/
structure RoomListing where
  room : Room
  effectivePostPermission : PostPermission
  canManage : Bool
  canConfigurePolicy : Bool
  academicBinding : Option RoomAcademicBinding

namespace RoomsService

/-- The room, when the viewer may see it. -/
def findOne (s : Db) (roomId : Id) (user : GatewayUser) : Except HttpError Room := do
  let room ← orThrow (s.room? roomId) (.notFound "Room not found")
  require (room.visibility ≠ .privateRoom ∨ user.isModerator
      ∨ (user.id.bind (s.membership? room.id)).any fun m => decide (m.status = .active))
    (.notFound "Room not found")
  return room

/-- `if (post.roomId) await this.rooms.findOne(post.roomId, user)`. -/
def requireVisible (s : Db) (roomId : Option Id) (user : GatewayUser) : Except HttpError Unit :=
  match roomId with
  | some r => (findOne s r user).map fun _ => ()
  | none => .ok ()

def postPermission (now : Time) (room : Room) (membership : Option RoomMembership) :
    PostPermission :=
  let byRoom := if room.reviewPolicy = .approval then .approval else .direct
  match membership with
  | none => byRoom
  | some m =>
    if m.status = .banned ∨ m.status = .muted ∨ m.expired now then .blocked
    else if m.postPermission = .blocked then .blocked
    else if m.status = .active ∧ m.postPermission ≠ .inherit then m.postPermission
    else byRoom

/-- Posting in an open public room of members makes a stranger a member. -/
def admitsStrangers (room : Room) : Bool :=
  decide (room.status = .active ∧ room.visibility = .publicRoom ∧ room.membershipPolicy = .open
    ∧ room.postingPolicy = .members)

/-- The membership rows after the `INSERT … ON CONFLICT DO NOTHING` of `assertCanPost`. -/
def autoJoined (s : Db) (roomId : Id) (userId : Id) :
    Table (Id × Id) RoomMembership fun m => (m.roomId, m.userId) :=
  if (s.room? roomId).any admitsStrangers then
    s.memberships.insert
      { roomId, userId, role := .member, status := .active, postPermission := .inherit,
        assignedBy := none, expiresAt := none }
  else s.memberships

/-- What `assertCanPost` writes. -/
def autoJoin (s : Db) (roomId : Id) (userId : Id) : Db :=
  { s with memberships := autoJoined s roomId userId }

/-- What `assertCanPost` decides, on the state after `autoJoin`. -/
def assertCanPost (w : World) (s : Db) (roomId : Id) (user : GatewayUser) :
    Except HttpError PostContext := do
  let actor ← authenticated user
  let room ← orThrow (s.room? roomId) (.notFound "Room not found")
  require (room.status = .active) (.forbidden "Room is not accepting new posts")
  let membership := s.membership? roomId actor
  require (¬ membership.any (·.expired w.now)) (.forbidden "Membership expired")
  require (¬ membership.any fun m =>
      decide (m.postPermission = .blocked ∨ m.status = .banned ∨ m.status = .muted))
    (.forbidden "You cannot post in this room")
  let active := membership.any fun m => decide (m.status = .active)
  require (room.visibility = .privateRoom → active)
    (.forbidden "Active membership required for a private room")
  require (room.postingPolicy = .members → active) (.forbidden "Active membership required")
  require (room.postingPolicy = .approved → membership.any fun m =>
      decide (m.status = .active ∧ m.role ≠ .member))
    (.forbidden "Approved contributor role required")
  return {
    room
    binding := s.binding? roomId
    requiresApproval := decide (postPermission w.now room membership = .approval) }

/-- The write of `post.roomId ? await this.rooms.assertCanPost(post.roomId, user) : null`. -/
def autoJoinTo (s : Db) (roomId : Option Id) (userId : Id) : Db :=
  match roomId with
  | some r => autoJoin s r userId
  | none => s

/-- The decision of `post.roomId ? await this.rooms.assertCanPost(post.roomId, user) : null`. -/
def assertCanPostTo (w : World) (s : Db) (roomId : Option Id) (user : GatewayUser) :
    Except HttpError (Option PostContext) :=
  match roomId with
  | some r => (assertCanPost w s r user).map some
  | none => .ok none

/-- An active, unexpired owner or moderator of the room. -/
def managesRoom (now : Time) (m : RoomMembership) : Bool :=
  decide (m.status = .active ∧ (m.role = .owner ∨ m.role = .moderator)) && !m.expired now

def managedRoomIds (w : World) (s : Db) (user : GatewayUser) : Except HttpError (List Id) := do
  let actor ← authenticated user
  return (s.memberships.select fun m => decide (m.userId = actor) && managesRoom w.now m).map
    (·.roomId)

def requireRoomManager (w : World) (s : Db) (roomId : Id) (user : GatewayUser) :
    Except HttpError Unit := do
  let actor ← authenticated user
  require (user.isModerator ∨ (s.membership? roomId actor).any (managesRoom w.now))
    (.forbidden "Room manager role required")

/-- An active, unexpired owner of the room. -/
def ownsRoom (now : Time) (m : RoomMembership) : Bool :=
  decide (m.status = .active ∧ m.role = .owner) && !m.expired now

def requirePolicyOwner (w : World) (s : Db) (roomId : Id) (user : GatewayUser) :
    Except HttpError Unit := do
  let actor ← authenticated user
  require (user.role = some .admin ∨ (s.membership? roomId actor).any (ownsRoom w.now))
    (.forbidden "Chỉ chủ room và quản trị viên được cấu hình quyền đăng")

/-- `ORDER BY room.name` follows the collation of the database. -/
def list (collation : String → String → Bool) (w : World) (s : Db) (type : Option RoomType)
    (parentRoomId : Option UuidText) (user : GatewayUser) : List RoomListing :=
  let membership (room : Room) := user.id.bind (s.membership? room.id)
  let rooms := (s.rooms.select fun room =>
      type.all (fun t => decide (room.roomType = t))
      && parentRoomId.all (fun p => decide (room.parentRoomId = some p.id))
      && (user.isModerator || decide (room.visibility ≠ .privateRoom)
        || (membership room).any fun m => decide (m.status = .active))).mergeSort
    fun a b => collation a.name b.name
  let managedIds := (managedRoomIds w s user).toOption.getD []
  let globalManager := user.id.isSome && user.isModerator
  rooms.map fun room => {
    room
    effectivePostPermission := postPermission w.now room (membership room)
    canManage := globalManager || decide (room.id ∈ managedIds)
    canConfigurePolicy := decide (user.role = some .admin) || (membership room).any (ownsRoom w.now)
    academicBinding := s.binding? room.id }

/-! ## Operations

An operation is made of its parts: the checks before its transaction, and the transaction, which locks the row
of the room. `create` queries for a canonical room between the two, and `join` has no transaction. Each part is
a definition of its own, so that the parts of different requests can be interleaved. -/

/-- The checks of `create` before it queries for a canonical room. -/
def createChecks (w : World) (s : Db) (dto : CreateRoomDto) (user : GatewayUser) :
    Except HttpError (Id × Option Room × Option AcademicContext) := do
  let actor ← authenticated user
  require (dto.roomType = .major ∨ dto.roomType = .course → user.role = some .admin)
    (.forbidden "Only admins create canonical academic rooms")
  require (¬ (dto.startAt.any fun a => dto.endAt.any fun b => decide (b ≤ a)))
    (.badRequest "endAt must be after startAt")
  let parent := dto.parentRoomId.bind fun p => s.room? p.id
  require (dto.parentRoomId.isSome → parent.isSome) (.badRequest "Parent room not found")
  require (dto.roomType = .course → parent.any fun p => decide (p.roomType = .major))
    (.badRequest "Course room must be a child of a major room")
  match parent with
  | some p =>
    if dto.roomType = .event ∨ dto.roomType = .forum then requireRoomManager w s p.id user
  | none => pure ()
  let context ← if dto.roomType = .course then do
      let course ← orThrow dto.curriculumCourseId
        (.badRequest "Course room requires curriculumCourseId")
      let context ← AcademicReferenceService.context w course
      require ((parent.bind fun p => s.binding? p.id).any fun b =>
          decide (b.majorId = context.majorId))
        (.badRequest "Course does not belong to the parent major room")
      pure (some context)
    else pure none
  require (dto.roomType = .major → dto.majorId.isSome) (.badRequest "Major room requires majorId")
  if dto.roomType = .major then dto.majorId.forM (AcademicReferenceService.major w)
  return (actor, parent, context)

/-- The query of `create` for a canonical room. -/
def createExisting (s : Db) (dto : CreateRoomDto) : Except HttpError Unit := do
  if dto.roomType = .major then
    require (¬ s.bindings.rows.any fun b =>
        decide (some b.majorId = dto.majorId.map (·.id))
          && (s.room? b.roomId).any fun r => decide (r.roomType = .major))
      (.conflict "Canonical major room already exists")
  if dto.roomType = .course then
    require (¬ s.bindings.rows.any fun b =>
        decide (b.curriculumCourseId = dto.curriculumCourseId.map (·.id))
          && (s.room? b.roomId).any fun r => decide (r.roomType = .course))
      (.conflict "Canonical course room already exists")

/-- The academic binding that `create` gives a new room. -/
def createBinding (s : Db) (dto : CreateRoomDto) (roomId : Id) (parent : Option Room)
    (context : Option AcademicContext) : Option RoomAcademicBinding :=
  if dto.roomType = .major then
    dto.majorId.map fun m => ⟨roomId, m.id, none, none, none⟩
  else match context with
    | some c => some ⟨roomId, c.majorId, some c.curriculumId, some c.courseId,
        some c.curriculumCourseId⟩
    | none => (parent.bind fun p => s.binding? p.id).map fun b => { b with roomId := roomId }

/-- The binding of a new room is of that room. -/
theorem createBinding_roomId {s : Db} {dto : CreateRoomDto} {a : Id} {parent : Option Room}
    {context : Option AcademicContext} {b : RoomAcademicBinding}
    (h : createBinding s dto a parent context = some b) : b.roomId = a := by
  unfold createBinding at h
  split at h
  · obtain ⟨m, -, rfl⟩ := Option.map_eq_some_iff.mp h
    rfl
  · cases context with
    | some c =>
      obtain rfl := Option.some.inj h
      rfl
    | none =>
      obtain ⟨b₀, -, rfl⟩ := Option.map_eq_some_iff.mp h
      rfl

/-- The transaction of `create`. -/
def createTx (w : World) (s : Db) (dto : CreateRoomDto) (actor : Id) (parent : Option Room)
    (context : Option AcademicContext) : Except HttpError (Db × Id) := do
  -- the `23505` of the unique index on `rooms.slug`, which the handler turns into a conflict
  require (¬ s.rooms.rows.any fun r => decide (r.slug = dto.slug))
    (.conflict "Room slug or academic binding already exists")
  let roomId := s.rooms.next
  let room : Id → Room := fun id =>
    { id
      slug := dto.slug
      name := dto.name
      description := dto.description.getD ""
      roomType := dto.roomType
      parentRoomId := dto.parentRoomId.map (·.id)
      visibility := dto.visibility.getD .publicRoom
      membershipPolicy := dto.membershipPolicy.getD .open
      postingPolicy := dto.postingPolicy.getD .anyone
      reviewPolicy := dto.reviewPolicy.getD .direct
      policyLocked := false
      status := if dto.roomType = .event ∧ dto.startAt.any (fun a => decide (w.now < a)) then
          .draft else .active
      createdBy := actor
      startAt := dto.startAt
      endAt := dto.endAt
      rulesVersion := 1 }
  let s := { s with
    rooms := s.rooms.insert room fun _ => rfl
    bindings := match createBinding s dto roomId parent context with
      | some b => s.bindings.insert b
      | none => s.bindings
    memberships := s.memberships.insert
      { roomId, userId := actor, role := .owner, status := .active, postPermission := .inherit,
        assignedBy := some actor, expiresAt := none } }
  return (s.event "room.created"
    [("roomId", .uuid (Id.text roomId)), ("roomType", .str dto.roomType.text)], roomId)

def create (w : World) (s : Db) (dto : CreateRoomDto) (user : GatewayUser) :
    Outcome Db HttpError Room :=
  let body := do
    let (actor, parent, context) ← createChecks w s dto user
    createExisting s dto
    createTx w s dto actor parent context
  commit s body fun s roomId => findOne s roomId user

/-- The checks of `join` before it reads the membership. -/
def joinRoom (s : Db) (id : UuidText) (user : GatewayUser) : Except HttpError (Room × Id) := do
  let actor ← authenticated user
  let room ← orThrow (s.room? id.id) (.notFound "Room not found")
  require (room.membershipPolicy ≠ .inviteOnly) (.forbidden "This room is invite only")
  return (room, actor)

/-- What `join` does with the membership that it has read: it returns it, or goes on with the row to
save, which is the one that it read or a new one. -/
def joinMembership (room : Room) (actor : Id) (existing : Option RoomMembership) :
    Except HttpError (RoomMembership ⊕ RoomMembership) := do
  match existing.filter fun m =>
      decide (m.status = .active ∨ m.status = .pending ∨ m.status = .muted) with
  | some m => return .inl m
  | none =>
    require (¬ existing.any fun m => decide (m.status = .banned))
      (.forbidden "You are banned from this room")
    let status := if room.membershipPolicy = .approval then .pending else .active
    return .inr (match existing with
      | some m => { m with role := .member, status, assignedBy := none, expiresAt := none }
      | none => { roomId := room.id, userId := actor, role := .member, status,
                  postPermission := .inherit, assignedBy := none, expiresAt := none })

/-- The `save` of `join`. A membership that was read is updated, and a new one is inserted. -/
def joinSave (s : Db) (existing : Bool) (membership : RoomMembership) :
    Except HttpError (Db × RoomMembership) := do
  require (existing ∨ s.membership? membership.roomId membership.userId = none)
    (.internal "duplicate key value violates unique constraint")
  return ({ s with memberships := s.memberships.upsert membership }, membership)

def join (s : Db) (id : UuidText) (user : GatewayUser) : Outcome Db HttpError RoomMembership :=
  let body := do
    let (room, actor) ← joinRoom s id user
    let existing := s.membership? room.id actor
    match ← joinMembership room actor existing with
    | .inl m => return (s, m)
    | .inr m => joinSave s existing.isSome m
  commit s body fun _ m => .ok m

/-- A `join` that runs alone leaves everything, or saves the row that it has made of the membership. -/
theorem join_cases (s : Db) (id : UuidText) (user : GatewayUser) :
    (join s id user).state = s
      ∨ ∃ actor room m, user.id = some actor ∧ s.room? id.id = some room
        ∧ joinMembership room actor (s.membership? room.id actor) = .ok (.inr m)
        ∧ (join s id user).state = { s with memberships := s.memberships.upsert m } := by
  refine commit_induction (P := fun t => t = s ∨ ∃ actor room m, user.id = some actor ∧ s.room? id.id = some room
    ∧ joinMembership room actor (s.membership? room.id actor) = .ok (.inr m)
    ∧ t = { s with memberships := s.memberships.upsert m }) (.inl rfl) fun s' a h => ?_
  simp only [joinRoom, bind_eq_ok, authenticated_eq_ok, orThrow_eq_ok, pure_eq_ok] at h
  obtain ⟨_, ⟨actor, huser, room, hroom, -, -, rfl⟩, next, hnext, h⟩ := h
  cases next with
  | inl m =>
    simp only [pure_eq_ok, Prod.mk.injEq] at h
    exact .inl h.1.symm
  | inr m =>
    simp only [joinSave, bind_eq_ok, pure_eq_ok, Prod.mk.injEq] at h
    obtain ⟨-, -, rfl, -⟩ := h
    exact .inr ⟨actor, room, m, huser, hroom, hnext, rfl⟩

/-- The rule of a room with a code that is in force, in its latest version. -/
def activeRule? (s : Db) (roomId : Id) (ruleCode : String) : Option RoomRule :=
  (s.rules.select fun r => decide (r.roomId = roomId ∧ r.ruleCode = ruleCode ∧ r.active)).foldl
    (fun best r => match best with
      | some b => if b.version < r.version then some r else some b
      | none => some r) none

/-- The transaction of `addRule`. -/
def addRuleTx (s : Db) (id : UuidText) (dto : CreateRoomRuleDto) : Except HttpError (Db × RoomRule) := do
  let room ← orThrow (s.room? id.id) (.notFound "Room not found")
  let previous := activeRule? s room.id dto.ruleCode
  let rules : Table (Id × String × Nat) RoomRule fun r => (r.roomId, r.ruleCode, r.version) :=
    match previous with
    | some p => s.rules.save { p with active := false }
    | none => s.rules
  let version := (previous.map (·.version)).getD 0 + 1
  require (rules.get? (room.id, dto.ruleCode, version) = none)
    (.internal "duplicate key value violates unique constraint")
  let rule : RoomRule := ⟨room.id, dto.ruleCode, version, dto.title, dto.description,
    dto.severity, true⟩
  let room := { room with rulesVersion := room.rulesVersion + 1 }
  let s := { s with rules := rules.insert rule, rooms := s.rooms.save room }
  return (s.event "room.rules.changed"
    [("roomId", .uuid id), ("rulesVersion", .num room.rulesVersion)], rule)

def addRule (w : World) (s : Db) (id : UuidText) (dto : CreateRoomRuleDto) (user : GatewayUser) :
    Outcome Db HttpError RoomRule :=
  let body := do
    requireRoomManager w s id.id user
    addRuleTx s id dto
  commit s body fun _ r => .ok r

/-- The checks of `updateMembership` before its transaction. -/
def updateMembershipChecks (w : World) (s : Db) (id : UuidText) (dto : UpdateMembershipDto)
    (user : GatewayUser) : Except HttpError Id := do
  let actor ← authenticated user
  requireRoomManager w s id.id user
  if dto.postPermission.isSome then requirePolicyOwner w s id.id user
  return actor

/-- The transaction of `updateMembership`. -/
def updateMembershipTx (w : World) (s : Db) (id memberId : UuidText) (dto : UpdateMembershipDto)
    (user : GatewayUser) (actor : Id) : Except HttpError (Db × RoomMembership) := do
  let room ← orThrow (s.room? id.id) (.notFound "Room not found")
  let membership ← orThrow (s.membership? room.id memberId.id)
    (.notFound "Room membership not found")
  let canManageOwners := user.role = some .admin
    ∨ (s.membership? room.id actor).any (ownsRoom w.now)
  require (membership.role = .owner ∨ dto.role = .owner ∨ dto.postPermission.isSome →
      canManageOwners)
    (.forbidden "Chỉ chủ room và quản trị viên được cấu hình quyền đăng")
  require (membership.role = .owner ∧ membership.status = .active
        ∧ (dto.role ≠ .owner ∨ dto.status ≠ .active) →
      1 < (s.memberships.select fun m =>
        decide (m.roomId = room.id ∧ m.role = .owner ∧ m.status = .active)).length)
    (.conflict "A room must retain at least one active owner")
  require (¬ (room.policyLocked ∧ user.role ≠ some .admin
      ∧ dto.postPermission.any fun p => decide (p ≠ membership.postPermission)))
    (.forbidden "Chính sách đã được quản trị viên khóa")
  let membership := { membership with
    role := dto.role
    status := dto.status
    assignedBy := some actor
    postPermission := dto.postPermission.getD membership.postPermission }
  return ({ s with memberships := s.memberships.save membership }, membership)

def updateMembership (w : World) (s : Db) (id memberId : UuidText) (dto : UpdateMembershipDto)
    (user : GatewayUser) : Outcome Db HttpError RoomMembership :=
  let body := do
    let actor ← updateMembershipChecks w s id dto user
    updateMembershipTx w s id memberId dto user actor
  commit s body fun _ m => .ok m

/-- `UpdateRoomStatusDto` leaves out `draft`. -/
def updateStatus (w : World) (s : Db) (id : UuidText) (status : RoomStatus)
    (user : GatewayUser) : Outcome Db HttpError Room :=
  let body := do
    requireRoomManager w s id.id user
    let room ← orThrow (s.room? id.id) (.notFound "Room not found")
    let room := { room with status }
    return ({ s with rooms := s.rooms.save room }, room)
  commit s body fun _ r => .ok r

/-- The transaction of `updatePolicy`. -/
def updatePolicyTx (s : Db) (id : UuidText) (dto : UpdateRoomPolicyDto) (user : GatewayUser) :
    Except HttpError (Db × Room) := do
  let room ← orThrow (s.room? id.id) (.notFound "Room not found")
  require (user.role = some .admin ∨ (¬ room.policyLocked ∧ dto.policyLocked = none))
    (.forbidden "Chỉ quản trị viên được thay đổi chính sách đã khóa")
  let room := { room with
    reviewPolicy := dto.reviewPolicy
    policyLocked := dto.policyLocked.getD room.policyLocked }
  return ({ s with rooms := s.rooms.save room }, room)

def updatePolicy (w : World) (s : Db) (id : UuidText) (dto : UpdateRoomPolicyDto)
    (user : GatewayUser) : Outcome Db HttpError Room :=
  let body := do
    requirePolicyOwner w s id.id user
    updatePolicyTx s id dto user
  commit s body fun _ r => .ok r

end RoomsService

/-- What the creation of a room has checked of its parent, its course and its major. -/
structure RoomContext (w : World) (s : Db) (dto : CreateRoomDto) (user : GatewayUser) (actor : Id)
    (parent : Option Room) (context : Option AcademicContext) : Prop where
  actor : user.id = some actor
  row : parent = dto.parentRoomId.bind fun p => s.room? p.id
  found : dto.parentRoomId.isSome → parent.isSome
  course : dto.roomType = .course → ∃ p u ctx b, parent = some p ∧ p.roomType = .major
    ∧ AcademicReferenceService.context w u = .ok ctx ∧ context = some ctx ∧ s.binding? p.id = some b
    ∧ b.majorId = ctx.majorId ∧ dto.curriculumCourseId = some u
  others : dto.roomType ≠ .course → context = none
  major : dto.roomType = .major → ∀ {m}, dto.majorId = some m → AcademicReferenceService.major w m = .ok ()

open RoomsService in
/-- The checks that `create` has passed before it queries for a canonical room. -/
theorem RoomsService.createChecks_ok {w : World} {s : Db} {dto : CreateRoomDto} {user : GatewayUser} {actor : Id}
    {parent : Option Room} {context : Option AcademicContext}
    (h : createChecks w s dto user = .ok (actor, parent, context)) :
    RoomContext w s dto user actor parent context := by
  unfold createChecks at h
  -- with a parent or without one, and in both cases by the type of the room
  cases hparent : dto.parentRoomId.bind fun p => s.room? p.id with
  | none =>
    cases hroom : dto.roomType with
    -- a course needs a parent
    | course => simp [hparent, hroom, bind_eq_ok] at h
    | major =>
      simp only [hparent, hroom, bind_eq_ok, authenticated_eq_ok, require_eq_ok, reduceCtorEq, if_false, if_true,
        pure_eq_ok, Prod.mk.injEq, false_imp_iff, or_false, exists_const] at h
      obtain ⟨_, huser, -, -, hfound, -, -, rfl, -, _, hmajor, rfl, rfl, rfl⟩ := h
      refine ⟨huser, hparent.symm, hfound, fun hcourse => (by cases hroom.symm.trans hcourse), fun _ => rfl,
        fun _ m hm => ?_⟩
      rw [hm] at hmajor
      exact hmajor
    | event | forum =>
      simp only [hparent, hroom, bind_eq_ok, authenticated_eq_ok, require_eq_ok, reduceCtorEq, if_false, pure_eq_ok,
        Prod.mk.injEq, false_imp_iff, or_false, exists_const] at h
      obtain ⟨_, huser, -, -, hfound, -, -, rfl, -, rfl, rfl, rfl⟩ := h
      exact ⟨huser, hparent.symm, hfound, fun hcourse => (by cases hroom.symm.trans hcourse), fun _ => rfl,
        fun hmajor => (by cases hroom.symm.trans hmajor)⟩
  | some p =>
    cases hroom : dto.roomType with
    | course =>
      simp only [hparent, hroom, bind_eq_ok, authenticated_eq_ok, require_eq_ok, orThrow_eq_ok, reduceCtorEq, if_false,
        if_true, pure_eq_ok, Prod.mk.injEq, false_imp_iff, or_false, or_true, exists_const, Option.bind_some] at h
      obtain ⟨_, huser, -, -, hfound, hmajor, u, hu, ctx, hctx, hbinding, -, rfl, -, rfl, rfl, rfl⟩ := h
      refine ⟨huser, hparent.symm, hfound, fun _ => ?_, fun hne => absurd hroom hne,
        fun hmajor => (by cases hroom.symm.trans hmajor)⟩
      cases hb : s.binding? p.id with
      | none =>
        rw [hb] at hbinding
        cases hbinding
      | some b =>
        rw [hb] at hbinding
        exact ⟨p, u, ctx, b, rfl, of_decide_eq_true (hmajor trivial), hctx, rfl, hb, of_decide_eq_true hbinding, hu⟩
    | major =>
      simp only [hparent, hroom, bind_eq_ok, authenticated_eq_ok, require_eq_ok, reduceCtorEq, if_false, if_true,
        pure_eq_ok, Prod.mk.injEq, false_imp_iff, or_false, exists_const] at h
      obtain ⟨_, huser, -, -, hfound, -, -, rfl, -, _, hmajor, rfl, rfl, rfl⟩ := h
      refine ⟨huser, hparent.symm, hfound, fun hcourse => (by cases hroom.symm.trans hcourse), fun _ => rfl,
        fun _ m hm => ?_⟩
      rw [hm] at hmajor
      exact hmajor
    | event | forum =>
      simp only [hparent, hroom, bind_eq_ok, authenticated_eq_ok, require_eq_ok, reduceCtorEq, if_true, if_false,
        pure_eq_ok, Prod.mk.injEq, false_imp_iff, or_false, or_true, exists_const] at h
      obtain ⟨_, huser, -, -, hfound, -, -, -, -, rfl, -, rfl, rfl, rfl⟩ := h
      exact ⟨huser, hparent.symm, hfound, fun hcourse => (by cases hroom.symm.trans hcourse), fun _ => rfl,
        fun hmajor => (by cases hroom.symm.trans hmajor)⟩

end AcaSocial
