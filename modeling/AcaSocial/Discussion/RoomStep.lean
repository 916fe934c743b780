import AcaSocial.Discussion.Frames

/-!
# Steps of a room

What one call can do to one room and to the memberships of it, said once.

* **`Roll`** — the room and who is in it.
* **`RoomStep`** — a constructor for every way in which an operation changes a roll, with the guards
  that it has passed.
* **`room_step`** — whatever the call, each room makes a step.
-/

namespace AcaSocial

/-- A room, if it is there, and its memberships. -/
structure Roll where
  room : Option Room
  member : Id → Option RoomMembership

/-- What the store has of the room `r`. -/
def Db.roll (s : Db) (r : Id) : Roll := ⟨s.room? r, s.membership? r⟩

namespace Roll

/-- The membership of `m.userId` becomes `m`. -/
def enrol (t : Roll) (m : RoomMembership) : Roll :=
  { t with member := fun u => if m.userId = u then some m else t.member u }

/-- `m` becomes a member, unless the user has a membership. -/
def admitted (t : Roll) (m : RoomMembership) : Roll :=
  { t with member := fun u => if m.userId = u then some ((t.member u).getD m) else t.member u }

def setRoom (t : Roll) (room : Room) : Roll := { t with room := some room }

@[simp] theorem room_enrol (t : Roll) (m : RoomMembership) : (t.enrol m).room = t.room := rfl

@[simp] theorem room_admitted (t : Roll) (m : RoomMembership) :
    (t.admitted m).room = t.room := rfl

@[simp] theorem member_setRoom (t : Roll) (room : Room) : (t.setRoom room).member = t.member := rfl

theorem member_enrol_self (t : Roll) (m : RoomMembership) :
    (t.enrol m).member m.userId = some m := if_pos rfl

theorem member_enrol_of_ne (t : Roll) {m : RoomMembership} {u : Id} (h : m.userId ≠ u) :
    (t.enrol m).member u = t.member u := if_neg h

end Roll

/-- An owner whose membership is active. -/
def RoomMembership.activeOwner (m : RoomMembership) : Bool :=
  decide (m.role = .owner ∧ m.status = .active)

/-- The actor is an admin or an active, unexpired owner of the room. -/
def Roll.ownedBy (t : Roll) (now : Time) (user : GatewayUser) : Prop :=
  user.role = some .admin ∨ (user.id.bind t.member).any (RoomsService.ownsRoom now)

instance (t : Roll) (now : Time) (user : GatewayUser) : Decidable (t.ownedBy now user) :=
  inferInstanceAs (Decidable (_ ∨ _))

open RoomsService (autoJoin autoJoinTo)

/-- `RoomStep c r t t'`: the call `c` may turn the roll `t` of the room `r` into `t'`. -/
inductive RoomStep (c : Call) (r : Id) (t : Roll) : Roll → Prop where
  | same : RoomStep c r t t
  | created {dto : CreateRoomDto} {owner : Id} {room : Room} {m : RoomMembership}
      (hop : c.operation = .rooms (.create dto)) (hnew : t.room = none)
      (huser : c.user.id = some owner)
      (hrow : m.userId = owner ∧ m.activeOwner) :
      RoomStep c r t ((t.setRoom room).admitted m)
  | admitted {room : Room} {m : RoomMembership}
      (hroom : t.room = some room) (hrow : m.role = .member) :
      RoomStep c r t (t.admitted m)
  | joined {id : UuidText} {room : Room} {m : RoomMembership}
      (hop : c.operation = .rooms (.join id) ∧ id.id = r) (hroom : t.room = some room)
      (hrow : m.role = .member)
      (hleft : ∀ m₀, t.member m.userId = some m₀ →
        m₀.status = .left ∧ m.postPermission = m₀.postPermission) :
      RoomStep c r t (t.enrol m)
  | membershipUpdated {id memberId : UuidText} {dto : UpdateMembershipDto} {actor : Id}
      {room : Room} {m : RoomMembership}
      (hop : c.operation = .rooms (.updateMembership id memberId dto) ∧ id.id = r)
      (hroom : t.room = some room) (hm : t.member m.userId = some m)
      (howner : m.role = .owner ∨ dto.role = .owner ∨ dto.postPermission.isSome →
        t.ownedBy c.world.now c.user)
      (hlast : m.activeOwner → (dto.role ≠ .owner ∨ dto.status ≠ .active) →
        ∃ u m', u ≠ m.userId ∧ t.member u = some m' ∧ m'.activeOwner)
      (hlocked : room.policyLocked → c.user.role ≠ some .admin →
        dto.postPermission.getD m.postPermission = m.postPermission) :
      RoomStep c r t (t.enrol { m with
        role := dto.role
        status := dto.status
        assignedBy := some actor
        postPermission := dto.postPermission.getD m.postPermission })
  | described {id : UuidText} {room room' : Room}
      (hop : (∃ dto, c.operation = .rooms (.addRule id dto))
        ∨ ∃ status, c.operation = .rooms (.updateStatus id status))
      (hroom : t.room = some room)
      (hkept : room'.reviewPolicy = room.reviewPolicy ∧ room'.policyLocked = room.policyLocked) :
      RoomStep c r t (t.setRoom room')
  | policyUpdated {id : UuidText} {dto : UpdateRoomPolicyDto} {room room' : Room}
      (hop : c.operation = .rooms (.updatePolicy id dto) ∧ id.id = r)
      (hroom : t.room = some room) (howner : t.ownedBy c.world.now c.user)
      (hlocked : room.policyLocked → c.user.role = some .admin) :
      RoomStep c r t (t.setRoom room')

/-! ## Operations that leave the rooms alone

The methods on posts, answers and comments write no room. Their only write to a membership is that of `autoJoin`,
which adds a member and changes none. -/

variable {w : World} {s s' : Db} {user : GatewayUser} {c : Call} {r : Id}

/-- The roll of a room is read from the rooms and the memberships. -/
theorem roll_eq_of_seats (h : s'.seats = s.seats) : s'.roll r = s.roll r := by
  obtain ⟨hrooms, hmemberships⟩ := Prod.mk.inj h
  have hroom : s'.room? r = s.room? r := by rw [Db.room?, hrooms, Db.room?]
  have hmember : s'.membership? r = s.membership? r := by
    funext u
    rw [Db.membership?, hmemberships, Db.membership?]
  rw [Db.roll, hroom, hmember, Db.roll]

/-- The seats are as before, or somebody has become a member by posting. -/
def Db.SeatsJoin (s s' : Db) : Prop :=
  s'.seats = s.seats ∨ ∃ r u, s'.seats = (autoJoin s r u).seats

/-- `autoJoin` adds one membership at most. -/
theorem seatsJoin_autoJoinTo (s : Db) (r : Option Id) (u : Id) :
    s.SeatsJoin (autoJoinTo s r u) := by
  cases r with
  | none => exact .inl rfl
  | some r => exact .inr ⟨r, u, rfl⟩

theorem Db.SeatsJoin.of_seats {s₁ : Db} (h : s.SeatsJoin s₁) (hseats : s'.seats = s₁.seats) :
    s.SeatsJoin s' :=
  h.imp hseats.trans (by rintro ⟨r, u, hru⟩; exact ⟨r, u, hseats.trans hru⟩)

@[simp] theorem event_seats (s : Db) (eventType : String) (data : EventData) :
    (s.event eventType data).seats = s.seats := rfl

theorem emit_seats (w : World) (s : Db) (content : String) (actorId : Id) (context : EventData) :
    (MentionService.emit w s content actorId context).seats = s.seats := by
  unfold MentionService.emit
  exact foldl_frame (fun _ _ => event_seats _ _ _) _ _

section Posting

open DiscussionsService in
/-- A new post lets its author join the room, and does nothing else to rooms. -/
theorem createPost_seats (dto : CreateDiscussionDto) :
    s.SeatsJoin (create w s user dto).state := by
  refine attempt_induction (P := s.SeatsJoin) (.inl rfl) fun prelude _ => ?_
  obtain ⟨author, selected⟩ := prelude
  have hjoined : s.SeatsJoin (autoJoin s dto.roomId.id author) := .inr ⟨_, _, rfl⟩
  refine commit_induction (P := s.SeatsJoin) hjoined fun s' a h => hjoined.of_seats ?_
  simp only [createTx, bind_eq_ok, pure_eq_ok, Prod.mk.injEq] at h
  obtain ⟨room, -, -, -, tags, -, s₁, hrev, rfl, -⟩ := h
  rw [(insertRevision_eq hrev).2, tagCounts_eq]
  rfl

open DiscussionsService in
/-- An edit lets the author of the post join the room, and does nothing else to rooms. -/
theorem updatePost_seats (id : UuidText) (dto : UpdateDiscussionDto) :
    s.SeatsJoin (update w s id user dto).state := by
  refine attempt_induction (P := s.SeatsJoin) (.inl rfl) fun prelude _ => ?_
  obtain ⟨editor, p⟩ := prelude
  have hjoined := seatsJoin_autoJoinTo s p.roomId p.authorId
  refine commit_induction (P := s.SeatsJoin) hjoined fun s' a h => hjoined.of_seats ?_
  simp only [updateTx, bind_eq_ok] at h
  obtain ⟨policy, -, -, -, -, -, h⟩ := h
  split at h
  · simp only [saveDraft, bind_eq_ok, pure_eq_ok, Prod.mk.injEq] at h
    obtain ⟨-, -, s₁, hrev, rfl, -⟩ := h
    rw [(insertRevision_eq hrev).2]
    rfl
  · simp only [saveEdit, bind_eq_ok, pure_eq_ok, Prod.mk.injEq] at h
    obtain ⟨s₁, htags, s₂, hrev, rfl, -⟩ := h
    calc (attachTo (s₂.savePost (editedPost dto policy p)) p.id dto.mediaIds).seats
        = s₂.seats := by rw [attachTo_eq]; rfl
      _ = s₁.seats := by rw [recordVersion_eq hrev]; rfl
      _ = (autoJoinTo s p.roomId p.authorId).seats := by rw [retagTo_eq htags]; rfl

open AnswersService in
/-- A new answer lets its author join the room, and does nothing else to rooms. -/
theorem createAnswer_seats (d : UuidText) (dto : CreateAnswerDto) :
    s.SeatsJoin (create w s d dto user).state := by
  refine attempt_induction (P := s.SeatsJoin) (.inl rfl) fun prelude _ => ?_
  obtain ⟨author, q⟩ := prelude
  have hjoined := seatsJoin_autoJoinTo s q.roomId author
  refine commit_induction (P := s.SeatsJoin) hjoined fun s' a h => hjoined.of_seats ?_
  simp only [bind_eq_ok, createTx, pure_eq_ok, Prod.mk.injEq] at h
  obtain ⟨-, -, s₁, hrev, rfl, -⟩ := h
  have hs₁ : s₁.seats = (autoJoinTo s q.roomId author).seats := by
    rw [(insertAnswerRevision_eq hrev).2]
    rfl
  rw [emit_seats, ← hs₁]
  split <;> rfl

open CommentsService in
/-- A new comment lets its author join the room, and does nothing else to rooms. -/
theorem createComment_seats (d : UuidText) (dto : CreateCommentDto) :
    s.SeatsJoin (create w s d user dto).state := by
  refine attempt_induction (P := s.SeatsJoin) (.inl rfl) fun prelude _ => ?_
  obtain ⟨author, p⟩ := prelude
  have hjoined := seatsJoin_autoJoinTo s p.roomId author
  refine commit_induction (P := s.SeatsJoin) hjoined fun s' a h => hjoined.of_seats ?_
  simp only [bind_eq_ok, createTx, pure_eq_ok, Prod.mk.injEq] at h
  obtain ⟨-, -, parent, -, s₁, hnotify, rfl, -⟩ := h
  rw [emit_seats]
  unfold notify at hnotify
  split at hnotify
  · obtain rfl := Except.ok.inj hnotify
    rfl
  · simp only [bind_eq_ok, pure_eq_ok] at hnotify
    obtain ⟨_, -, rfl⟩ := hnotify
    rfl

end Posting

/-- The operation is one on rooms. -/
def Operation.isRooms : Operation → Bool
  | .rooms _ => true
  | _ => false

/-- The other operations add members to rooms, and do nothing else there. -/
theorem seats_step (h : c.operation.isRooms = false) : s.SeatsJoin (s.step c) := by
  obtain ⟨w, user, o⟩ := c
  cases o with
  | rooms o => cases h
  | discussions o =>
    cases o with
    | create dto => exact createPost_seats dto
    | update id dto => exact updatePost_seats id dto
    | findAll filter => exact .inl rfl
    | findOne id => exact .inl (congrArg (·.2.2) (view_aside id))
    | remove id => exact .inl (congrArg (·.2.2) (remove_besideTags id))
    | acceptAnswer id m => exact .inl (congrArg (·.2.2) (acceptAnswer_aside id m))
    | removeAcceptedAnswer id => exact .inl (congrArg (·.2.2) (removeAcceptedAnswer_aside id))
    | setStatus id status => exact .inl (congrArg (·.2.2) (setStatus_aside id status))
  | answers o =>
    cases o with
    | create d dto => exact createAnswer_seats d dto
    | list d => exact .inl rfl
    | update id dto => exact .inl (congrArg Prod.snd (updateAnswer_frame id dto))
    | remove id => exact .inl (congrArg (·.2.2) (removeAnswer_aside id))
    | accept d dto => exact .inl (congrArg (·.2.2) (acceptOf_aside d dto))
    | removeAcceptance d => exact .inl (congrArg (·.2.2) (removeAcceptance_aside d))
  | comments o =>
    cases o with
    | create d dto => exact createComment_seats d dto
    | findAllByDiscussion d filter => exact .inl rfl
    | update id dto => exact .inl (congrArg (·.2.2) (updateComment_aside id dto))
    | remove id => exact .inl (congrArg (·.2.2) (removeComment_aside id))
  | setVote type id v => exact .inl (congrArg Prod.snd (setVote_frame type id v))
  | review id dto => exact .inl (congrArg (·.2.2) (review_besideTags id dto))
  | tags o => exact .inl (congrArg (·.2.2) (tags_besideTags o))

/-! ## Writes

What a save or an insertion of a row does to the roll of each room. -/

/-- A new membership is one more in the roll of its room. -/
theorem roll_insertMember {m : RoomMembership} (hrooms : s'.rooms = s.rooms)
    (hmemberships : s'.memberships = s.memberships.insert m) :
    s'.roll r = if m.roomId = r then (s.roll r).admitted m else s.roll r := by
  have hmember : s'.membership? r
      = (if m.roomId = r then (s.roll r).admitted m else s.roll r).member := by
    funext u
    rw [Db.membership?, hmemberships, Table.get?_insert]
    by_cases hr : m.roomId = r <;> simp [hr, Db.roll, Roll.admitted, Db.membership?]
  have hroom : s'.room? r = (if m.roomId = r then (s.roll r).admitted m else s.roll r).room := by
    rw [Db.room?, hrooms]
    split <;> rfl
  rw [Db.roll, hmember, hroom]

/-- A membership that is written is in the roll of its room. -/
theorem roll_upsertMember {m : RoomMembership} (hrooms : s'.rooms = s.rooms)
    (hmemberships : s'.memberships = s.memberships.upsert m) :
    s'.roll r = if m.roomId = r then (s.roll r).enrol m else s.roll r := by
  have hmember : s'.membership? r
      = (if m.roomId = r then (s.roll r).enrol m else s.roll r).member := by
    funext u
    rw [Db.membership?, hmemberships, Table.get?_upsert]
    by_cases hr : m.roomId = r <;> simp [hr, Db.roll, Roll.enrol, Db.membership?]
  have hroom : s'.room? r = (if m.roomId = r then (s.roll r).enrol m else s.roll r).room := by
    rw [Db.room?, hrooms]
    split <;> rfl
  rw [Db.roll, hmember, hroom]

theorem RoomStep.of_roll {t t' : Roll} (hroll : s'.roll r = t') (h : RoomStep c r t t') :
    RoomStep c r t (s'.roll r) := hroll ▸ h

/-- The save of a room is seen in its own roll. -/
theorem roll_saveRoom {room room₀ : Room} {k : Id} (h : s.room? k = some room₀)
    (hrooms : s'.rooms = s.rooms.save room) (hid : room.id = room₀.id)
    (hmemberships : s'.memberships = s.memberships) :
    s'.roll r = if k = r then (s.roll r).setRoom room else s.roll r := by
  have hk : room.id = k := hid.trans (Table.get?_eq_some.mp h).2
  have hmember : s'.membership? r = s.membership? r := by
    funext u
    rw [Db.membership?, hmemberships, Db.membership?]
  have hroom : s'.room? r = if k = r then some room else s.room? r := by
    rw [Db.room?, hrooms, Serial.save_toTable, Table.get?_save, hk]
    split
    · next hr =>
      have hget : s.rooms.get? r = some room₀ := hr ▸ h
      rw [hget]
      rfl
    · rfl
  rw [Db.roll, hmember, hroom]
  split <;> rfl

/-- The save of a membership is seen in the roll of its room. -/
theorem roll_saveMember {m m₀ : RoomMembership} (hrooms : s'.rooms = s.rooms)
    (hmemberships : s'.memberships = s.memberships.save m)
    (h : s.membership? m.roomId m.userId = some m₀) :
    s'.roll r = if m.roomId = r then (s.roll r).enrol m else s.roll r := by
  refine roll_upsertMember hrooms (hmemberships.trans ?_)
  have hmem : (m.roomId, m.userId) ∈ (s.memberships.save m).rows.map fun m => (m.roomId, m.userId) := by
    refine List.mem_map_of_mem (f := fun m : RoomMembership => (m.roomId, m.userId)) (a := m) ?_
    exact Table.mem_save_self (Table.get?_eq_some.mp h).1 (Table.get?_eq_some.mp h).2
  rw [Table.upsert, Table.insert, dif_pos hmem]

/-! ## Operations on rooms

One lemma for each method of the service. A method that is refused leaves the roll, and one that succeeds takes a step
of the room that it names. -/

/-- A new room has a roll of its own. -/
theorem roll_insertRoom {mk : Id → Room} (hmk : ∀ k, (mk k).id = k)
    (hrooms : s'.rooms = s.rooms.insert mk hmk) (hmemberships : s'.memberships = s.memberships) :
    s'.roll r = if s.rooms.next = r then (s.roll r).setRoom (mk s.rooms.next) else s.roll r := by
  have hmember : s'.membership? r = s.membership? r := by
    funext u
    rw [Db.membership?, hmemberships, Db.membership?]
  have hroom : s'.room? r = if s.rooms.next = r then some (mk s.rooms.next) else s.room? r := by
    rw [Db.room?, hrooms, Serial.get?_insert]
    split
    · next hr => rw [hr]
    · rfl
  rw [Db.roll, hmember, hroom]
  split <;> rfl

/-- The check lets administrators and active owners through. -/
theorem requirePolicyOwner_eq_ok {w : World} {u : Unit}
    (h : RoomsService.requirePolicyOwner w s r user = .ok u) : (s.roll r).ownedBy w.now user := by
  simp only [RoomsService.requirePolicyOwner, bind_eq_ok, authenticated_eq_ok, require_eq_ok] at h
  obtain ⟨actor, hactor, howner⟩ := h
  exact howner.imp_right fun hm => hactor ▸ hm

/-- To join a room by a post is a step of its roll. -/
theorem roll_autoJoin (s : Db) (k u : Id) : RoomStep c r (s.roll r) ((autoJoin s k u).roll r) := by
  by_cases hadmits : (s.room? k).any RoomsService.admitsStrangers = true
  · have hrooms : (autoJoin s k u).rooms = s.rooms := rfl
    have hmemberships : (autoJoin s k u).memberships = s.memberships.insert
        { roomId := k, userId := u, role := .member, status := .active,
          postPermission := .inherit, assignedBy := none, expiresAt := none } := if_pos hadmits
    have hroll := roll_insertMember (r := r) hrooms hmemberships
    rw [hroll]
    split
    · next hk =>
      obtain ⟨room, hroom, -⟩ := (Option.any_eq_true _ _).mp hadmits
      obtain rfl : k = r := hk
      exact .admitted hroom rfl
    · exact .same
  · have hsame : autoJoin s k u = s := by
      show { s with memberships := RoomsService.autoJoined s k u } = s
      rw [RoomsService.autoJoined, if_neg hadmits]
    rw [hsame]
    exact .same

/-- The transaction of `create` adds a room under a free slug, with its binding and its owner. -/
theorem createTx_ok {dto : CreateRoomDto} {actor a : Id} {parent : Option Room}
    {context : Option AcademicContext}
    (h : RoomsService.createTx w s dto actor parent context = .ok (s', a)) :
    ∃ room owner, a = s.rooms.next ∧ (room.roomType = dto.roomType
        ∧ room.reviewPolicy = dto.reviewPolicy.getD .direct ∧ room.policyLocked = false
        ∧ room.rulesVersion = 1)
      ∧ owner = ⟨a, actor, .owner, .active, .inherit, some actor, none⟩
      ∧ (¬ s.rooms.rows.any fun r => decide (r.slug = dto.slug))
      ∧ s'.bindings = (match RoomsService.createBinding s dto a parent context with
        | some b => s.bindings.insert b
        | none => s.bindings)
      ∧ ∀ r, s'.roll r
        = if a = r then ((s.roll r).setRoom room).admitted owner else s.roll r := by
  simp only [RoomsService.createTx, bind_eq_ok, require_eq_ok, pure_eq_ok, Prod.mk.injEq] at h
  obtain ⟨-, hslug, rfl, rfl⟩ := h
  generalize hrows : s.rooms.insert _ _ = rows
  -- the room first, then the membership of its owner
  obtain ⟨room, hcolumns, hroom⟩ : ∃ room : Room, (room.roomType = dto.roomType
        ∧ room.reviewPolicy = dto.reviewPolicy.getD .direct ∧ room.policyLocked = false
        ∧ room.rulesVersion = 1)
      ∧ ∀ r, ({ s with rooms := rows } : Db).roll r
        = if s.rooms.next = r then (s.roll r).setRoom room else s.roll r :=
    ⟨_, by exact ⟨rfl, rfl, rfl, rfl⟩, fun r => roll_insertRoom _ hrows.symm rfl⟩
  let owner : RoomMembership := ⟨s.rooms.next, actor, .owner, .active, .inherit, some actor, none⟩
  have hmember : ∀ (t : Db) (r : Id), t.rooms = rows → t.memberships = s.memberships.insert owner →
      t.roll r = if s.rooms.next = r then (({ s with rooms := rows } : Db).roll r).admitted owner
        else ({ s with rooms := rows } : Db).roll r :=
    fun t r hrows hmembers => roll_insertMember (s := { s with rooms := rows }) hrows hmembers
  refine ⟨room, owner, rfl, hcolumns, rfl, hslug, rfl, fun r => ?_⟩
  rw [roll_eq_of_seats (event_seats _ _ _), hmember _ _ rfl rfl, hroom]
  split <;> rfl

/-- A new room has its creator as the only owner. -/
theorem create_roomStep (w : World) (user : GatewayUser) (dto : CreateRoomDto) :
    RoomStep ⟨w, user, .rooms (.create dto)⟩ r (s.roll r)
      ((RoomsService.create w s dto user).state.roll r) := by
  refine commit_induction (P := fun t : Db => RoomStep _ r (s.roll r) (t.roll r)) .same
    fun s' a h => ?_
  obtain ⟨⟨actor, parent, context⟩, hchecks, h⟩ := bind_eq_ok.mp h
  obtain ⟨-, -, h⟩ := bind_eq_ok.mp h
  obtain ⟨room, owner, rfl, -, rfl, -, -, hroll⟩ := createTx_ok h
  refine .of_roll (hroll r) ?_
  split
  · next hr =>
    have hnew : (s.roll r).room = none := hr ▸ s.rooms.get?_next
    exact .created rfl hnew (RoomsService.createChecks_ok hchecks).actor ⟨rfl, rfl⟩
  · exact .same

/-- A user joins, or asks to. -/
theorem join_roomStep (w : World) (user : GatewayUser) (id : UuidText) :
    RoomStep ⟨w, user, .rooms (.join id)⟩ r (s.roll r)
      ((RoomsService.join s id user).state.roll r) := by
  rcases RoomsService.join_cases s id user with hsame | ⟨actor, room, m, huser, hroom, h, hsaved⟩
  · rw [hsame]
    exact .same
  rw [hsaved]
  unfold RoomsService.joinMembership at h
  split at h
  · cases h
  · next hfree =>
    simp only [bind_eq_ok, require_eq_ok, pure_eq_ok] at h
    obtain ⟨-, hbanned, h⟩ := h
    obtain rfl := Sum.inr.inj h
    have hid : room.id = id.id := (Table.get?_eq_some.mp hroom).2
    refine .of_roll (roll_upsertMember (s := s) rfl rfl) ?_
    cases hexisting : s.membership? room.id actor with
    | none =>
      dsimp only
      split
      · next hr =>
        obtain rfl : id.id = r := hid.symm.trans hr
        refine .joined ⟨rfl, rfl⟩ hroom rfl fun m₀ hm₀ => ?_
        rw [hid] at hexisting
        cases hexisting.symm.trans hm₀
      · exact .same
    | some m =>
      obtain ⟨hmr, hmu⟩ := Prod.mk.inj (Table.get?_eq_some.mp hexisting).2
      rw [hexisting] at hfree hbanned
      dsimp only
      split
      · next hr =>
        obtain rfl : id.id = r := hid.symm.trans (hmr.symm.trans hr)
        refine .joined ⟨rfl, rfl⟩ hroom rfl fun m₀ hm₀ => ?_
        have hsame : (s.roll id.id).member m.userId = some m := by
          rw [hmu, ← hid]
          exact hexisting
        obtain rfl : m = m₀ := Option.some.inj (hsame.symm.trans hm₀)
        -- the statuses that remain are those of somebody who has left
        refine ⟨?_, rfl⟩
        cases hstatus : m.status <;> simp [Option.filter, hstatus] at hfree hbanned ⊢
      · exact .same

/-- A new rule raises the version of the rules. -/
theorem addRuleTx_roll {id : UuidText} {dto : CreateRoomRuleDto} {rule : RoomRule}
    (h : RoomsService.addRuleTx s id dto = .ok (s', rule)) :
    ∃ room, s.room? id.id = some room ∧ s'.roll r = if id.id = r then
      (s.roll r).setRoom { room with rulesVersion := room.rulesVersion + 1 } else s.roll r := by
  simp only [RoomsService.addRuleTx, bind_eq_ok, orThrow_eq_ok, pure_eq_ok, Prod.mk.injEq] at h
  obtain ⟨room, hroom, -, -, rfl, -⟩ := h
  exact ⟨room, hroom, roll_saveRoom hroom rfl rfl rfl⟩

/-- A manager of the room adds a rule, which raises the version of its rules. -/
theorem addRule_roomStep (w : World) (user : GatewayUser) (id : UuidText)
    (dto : CreateRoomRuleDto) :
    RoomStep ⟨w, user, .rooms (.addRule id dto)⟩ r (s.roll r)
      ((RoomsService.addRule w s id dto user).state.roll r) := by
  rw [RoomsService.addRule]
  refine commit_induction (P := fun t : Db => RoomStep _ r (s.roll r) (t.roll r)) .same
    fun s' a h => ?_
  obtain ⟨-, -, h⟩ := bind_eq_ok.mp h
  obtain ⟨room, hroom, hroll⟩ := addRuleTx_roll (r := r) h
  refine .of_roll hroll ?_
  split
  · next hid =>
    have hroom : (s.roll r).room = some room := hid ▸ hroom
    exact .described (.inl ⟨dto, rfl⟩) hroom ⟨rfl, rfl⟩
  · exact .same

/-- Where a room has several active owners, there is one besides any user. -/
theorem exists_other_owner {m : RoomMembership} {k : Id}
    (h : 1 < (s.memberships.select fun m =>
      decide (m.roomId = k ∧ m.role = .owner ∧ m.status = .active)).length)
    (hm : s.membership? k m.userId = some m) :
    ∃ u m', u ≠ m.userId ∧ s.membership? k u = some m' ∧ m'.activeOwner := by
  have hnodup : (s.memberships.select fun m =>
      decide (m.roomId = k ∧ m.role = .owner ∧ m.status = .active)).Nodup :=
    s.memberships.nodup.of_map.filter _
  have hseveral : (s.memberships.select fun m =>
      decide (m.roomId = k ∧ m.role = .owner ∧ m.status = .active)) ≠ [m] := by
    intro he
    rw [he] at h
    exact absurd h (by simp)
  rcases (hnodup.ne_singleton_iff m).mp hseveral with hnil | ⟨m', hm', hne⟩
  · rw [hnil] at h
    exact absurd h (by simp)
  · obtain ⟨hmem, hrow⟩ := Table.mem_select.mp hm'
    obtain ⟨hk, howner⟩ := of_decide_eq_true hrow
    refine ⟨m'.userId, m', fun hu => hne ?_, Table.get?_eq_some.mpr ⟨hmem, by rw [hk]⟩,
      decide_eq_true howner⟩
    exact Table.eq_of_key_eq hmem (Table.get?_eq_some.mp hm).1
      ((Prod.ext hk hu).trans (Table.get?_eq_some.mp hm).2.symm)

/-- What the transaction of `updateMembership` has checked, and what it writes. -/
theorem updateMembershipTx_ok {id memberId : UuidText} {dto : UpdateMembershipDto} {actor : Id}
    {m' : RoomMembership}
    (h : RoomsService.updateMembershipTx w s id memberId dto user actor = .ok (s', m')) :
    ∃ room m, s.room? id.id = some room ∧ (s.roll id.id).member m.userId = some m
      ∧ m.userId = memberId.id
      ∧ (m.role = .owner ∨ dto.role = .owner ∨ dto.postPermission.isSome → user.role = some .admin
        ∨ (s.membership? id.id actor).any (RoomsService.ownsRoom w.now))
      ∧ (m.activeOwner → (dto.role ≠ .owner ∨ dto.status ≠ .active) →
        ∃ u m', u ≠ m.userId ∧ (s.roll id.id).member u = some m' ∧ m'.activeOwner)
      ∧ (room.policyLocked → user.role ≠ some .admin →
        dto.postPermission.getD m.postPermission = m.postPermission)
      ∧ m' = { m with
        role := dto.role
        status := dto.status
        assignedBy := some actor
        postPermission := dto.postPermission.getD m.postPermission }
      ∧ ∀ r, s'.roll r = if id.id = r then (s.roll r).enrol m' else s.roll r := by
  simp only [RoomsService.updateMembershipTx, bind_eq_ok, orThrow_eq_ok, require_eq_ok, pure_eq_ok,
    Prod.mk.injEq] at h
  obtain ⟨room, hroom, m, hm, -, howner, -, hlast, -, hlocked, rfl, rfl⟩ := h
  have hid : room.id = id.id := (Table.get?_eq_some.mp hroom).2
  obtain ⟨hmr, hmu⟩ := Prod.mk.inj (Table.get?_eq_some.mp hm).2
  rw [hid] at howner hlast hm hmr
  have hself : s.membership? id.id m.userId = some m := by
    rw [hmu]
    exact hm
  refine ⟨room, m, hroom, hself, hmu, howner, fun hactive hchange => ?_, fun hlock hrole => ?_, rfl,
    fun r => ?_⟩
  · obtain ⟨hrole, hstatus⟩ := of_decide_eq_true hactive
    exact exists_other_owner (hlast ⟨hrole, hstatus, hchange⟩) hself
  · cases hp : dto.postPermission with
    | none => rfl
    | some q => exact not_not.mp fun hne => hlocked ⟨hlock, hrole, by simpa [hp] using hne⟩
  -- the row is saved under the key of the one that was read
  · have hsave : ∀ (m' : RoomMembership) (t : Db), m'.roomId = id.id → m'.userId = m.userId →
        t.rooms = s.rooms → t.memberships = s.memberships.save m' →
        t.roll r = if id.id = r then (s.roll r).enrol m' else s.roll r := by
      intro m' t hr hu hrooms hmembers
      have hold : s.membership? m'.roomId m'.userId = some m := by
        rw [hr, hu]
        exact hself
      rw [roll_saveMember hrooms hmembers hold, hr]
    exact hsave _ _ hmr rfl rfl rfl

/-- A manager of the room decides on a membership. -/
theorem updateMembership_roomStep (w : World) (user : GatewayUser) (id memberId : UuidText)
    (dto : UpdateMembershipDto) :
    RoomStep ⟨w, user, .rooms (.updateMembership id memberId dto)⟩ r (s.roll r)
      ((RoomsService.updateMembership w s id memberId dto user).state.roll r) := by
  rw [RoomsService.updateMembership]
  refine commit_induction (P := fun t : Db => RoomStep _ r (s.roll r) (t.roll r)) .same
    fun s' a h => ?_
  obtain ⟨actor, hchecks, h⟩ := bind_eq_ok.mp h
  have huser : user.id = some actor := by
    simp only [RoomsService.updateMembershipChecks, bind_eq_ok, authenticated_eq_ok] at hchecks
    obtain ⟨actor', huser, -, -, hchecks⟩ := hchecks
    split at hchecks <;> simp only [bind_eq_ok, pure_eq_ok] at hchecks
    · obtain ⟨-, -, rfl⟩ := hchecks
      exact huser
    · rw [← hchecks]
      exact huser
  obtain ⟨room, m, hroom, hm, -, howner, hlast, hlocked, rfl, hroll⟩ := updateMembershipTx_ok h
  refine .of_roll (hroll r) ?_
  split
  · next hid =>
    subst hid
    refine .membershipUpdated ⟨rfl, rfl⟩ hroom hm (fun hneed => ?_) hlast hlocked
    exact (howner hneed).imp_right fun hm => huser ▸ hm
  · exact .same

/-- A manager of the room sets its status. -/
theorem updateStatus_roomStep (w : World) (user : GatewayUser) (id : UuidText)
    (status : RoomStatus) :
    RoomStep ⟨w, user, .rooms (.updateStatus id status)⟩ r (s.roll r)
      ((RoomsService.updateStatus w s id status user).state.roll r) := by
  refine commit_induction (P := fun t : Db => RoomStep _ r (s.roll r) (t.roll r)) .same
    fun s' a h => ?_
  simp only [bind_eq_ok, orThrow_eq_ok, pure_eq_ok, Prod.mk.injEq] at h
  obtain ⟨-, -, room, hroom, rfl, -⟩ := h
  refine .of_roll (roll_saveRoom hroom rfl rfl rfl) ?_
  split
  · next hid =>
    have hroom : (s.roll r).room = some room := hid ▸ hroom
    exact .described (.inr ⟨status, rfl⟩) hroom ⟨rfl, rfl⟩
  · exact .same

/-- The policies of one room are written. A locked policy is left to administrators. -/
theorem updatePolicyTx_roll {id : UuidText} {dto : UpdateRoomPolicyDto} {room' : Room}
    (h : RoomsService.updatePolicyTx s id dto user = .ok (s', room')) :
    ∃ room, s.room? id.id = some room
      ∧ (user.role = some .admin ∨ room.policyLocked = false ∧ dto.policyLocked = none)
      ∧ room' = { room with
        reviewPolicy := dto.reviewPolicy
        policyLocked := dto.policyLocked.getD room.policyLocked }
      ∧ ∀ r, s'.roll r = if id.id = r then (s.roll r).setRoom room' else s.roll r := by
  simp only [RoomsService.updatePolicyTx, bind_eq_ok, orThrow_eq_ok, require_eq_ok, pure_eq_ok,
    Prod.mk.injEq] at h
  obtain ⟨room, hroom, -, hlocked, rfl, rfl⟩ := h
  refine ⟨room, hroom, hlocked.imp_right fun hfree => ⟨by simpa using hfree.1, hfree.2⟩, rfl,
    fun r => roll_saveRoom hroom rfl rfl rfl⟩

/-- An owner or an administrator sets the policies of a room. -/
theorem updatePolicy_roomStep (w : World) (user : GatewayUser) (id : UuidText)
    (dto : UpdateRoomPolicyDto) :
    RoomStep ⟨w, user, .rooms (.updatePolicy id dto)⟩ r (s.roll r)
      ((RoomsService.updatePolicy w s id dto user).state.roll r) := by
  rw [RoomsService.updatePolicy]
  refine commit_induction (P := fun t : Db => RoomStep _ r (s.roll r) (t.roll r)) .same
    fun s' a h => ?_
  obtain ⟨_, howner, h⟩ := bind_eq_ok.mp h
  obtain ⟨room, hroom, hlocked, -, hroll⟩ := updatePolicyTx_roll h
  refine .of_roll (hroll r) ?_
  split
  · next hid =>
    subst hid
    refine .policyUpdated ⟨rfl, rfl⟩ hroom (requirePolicyOwner_eq_ok howner) fun hlock => ?_
    exact hlocked.resolve_right fun hfree => absurd (hfree.1.symm.trans hlock) Bool.false_ne_true
  · exact .same

/-- Whatever the call, every room makes a step. -/
theorem room_step (s : Db) (c : Call) (r : Id) : RoomStep c r (s.roll r) ((s.step c).roll r) := by
  cases hrooms : c.operation.isRooms with
  | false =>
    rcases seats_step (s := s) hrooms with hsame | ⟨k, u, hjoined⟩
    · rw [roll_eq_of_seats hsame]
      exact .same
    · rw [roll_eq_of_seats hjoined]
      exact roll_autoJoin s k u
  | true =>
    obtain ⟨w, user, o⟩ := c
    cases o with
    | rooms o =>
      cases o with
      | create dto => exact create_roomStep w user dto
      | join id => exact join_roomStep w user id
      | addRule id dto => exact addRule_roomStep w user id dto
      | updateMembership id memberId dto => exact updateMembership_roomStep w user id memberId dto
      | updateStatus id status => exact updateStatus_roomStep w user id status
      | updatePolicy id dto => exact updatePolicy_roomStep w user id dto
    | _ => cases hrooms

end AcaSocial