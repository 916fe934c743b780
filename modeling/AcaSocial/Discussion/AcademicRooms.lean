import AcaSocial.Discussion.Registers
import AcaSocial.Discussion.RoomStep

/-!
# Academic rooms and their posts

A room may be bound to a major or to a course of a curriculum, and hands its binding down to the rooms below it. A post
takes its academic context from the course that its author selects, or else from the room.

* **`Coherent`** — course rooms are below a room of their major, other rooms have the binding of their parent, and
  posts agree with the binding of their room.
* **`AcademicBound`** — the same with what keeps it: rooms are never bound after they are created.
* **`academic_coherent`** — this holds in every run in which the academic service does not change its answers.
-/

namespace AcaSocial

variable {w : World} {s s' : Db} {user : GatewayUser} {c : Call} {r : Id}

/-- The type of a room and its parent. -/
def Room.place (room : Room) : RoomType × Option Id := (room.roomType, room.parentRoomId)

/-- Where the rooms are. -/
def Db.places (s : Db) (r : Id) : Option (RoomType × Option Id) := (s.room? r).map Room.place

/-- The academic context of a post, and its room. -/
def Discussion.academic (p : Discussion) : Option Id × Option Id × Option Id × Option Id × Option Id :=
  (p.roomId, p.majorId, p.curriculumId, p.courseId, p.curriculumCourseId)

/-! ## What calls do to rooms

The academic columns of a room are written when it is created. -/

/-- A room that keeps its columns keeps its place. -/
theorem places_saveRoom {room room₀ : Room} {k : Id} (h : s.room? k = some room₀)
    (hrooms : s'.rooms = s.rooms.save room) (hid : room.id = room₀.id) (hplace : room.place = room₀.place) :
    s'.places = s.places := by
  funext r
  have hkey : room₀.id = k := (Table.get?_eq_some.mp h).2
  show (s'.rooms.get? r).map Room.place = (s.rooms.get? r).map Room.place
  rw [hrooms]
  show ((s.rooms.toTable.save room).get? r).map Room.place = _
  rw [Table.get?_save]
  split
  · next hr =>
    have hget : s.rooms.get? r = some room₀ := by
      rw [← hr, hid, hkey]
      exact h
    rw [hget]
    exact congrArg some hplace
  · rfl

/-- Only the creation of a room changes where rooms are and what they are bound to. -/
theorem places_step (h : ∀ dto, c.operation ≠ .rooms (.create dto)) :
    (s.step c).places = s.places ∧ (s.step c).bindings = s.bindings := by
  -- a method of `RoomsService`, whose statements are looked at, or of another service, which leaves rooms alone
  by_cases hrooms : ∃ o, c.operation = .rooms o
  · obtain ⟨w, user, o⟩ := c
    obtain ⟨o, rfl⟩ := hrooms
    have hsame : ∀ {α β : Type} {body : Except HttpError (Db × α)} {respond : Db → α → Except HttpError β},
        (∀ s' a, body = .ok (s', a) → s'.places = s.places ∧ s'.bindings = s.bindings) →
        (commit s body respond).state.places = s.places ∧ (commit s body respond).state.bindings = s.bindings :=
      fun hbody => commit_induction (P := fun s' : Db => s'.places = s.places ∧ s'.bindings = s.bindings)
        ⟨rfl, rfl⟩ hbody
    cases o with
    | create dto => exact absurd rfl (h dto)
    | join id =>
      show (RoomsService.join s id user).state.places = _ ∧ (RoomsService.join s id user).state.bindings = _
      rcases RoomsService.join_cases s id user with hstay | ⟨actor, room, m, -, -, -, hsaved⟩
      · rw [hstay]
        exact ⟨rfl, rfl⟩
      · rw [hsaved]
        exact ⟨rfl, rfl⟩
    | addRule id dto =>
      refine hsame fun s' m hok => ?_
      simp only [RoomsService.addRuleTx, bind_eq_ok, orThrow_eq_ok, pure_eq_ok, Prod.mk.injEq] at hok
      obtain ⟨-, -, room, hroom, -, -, rfl, -⟩ := hok
      exact ⟨places_saveRoom hroom rfl rfl rfl, rfl⟩
    | updateMembership id memberId dto =>
      show (RoomsService.updateMembership w s id memberId dto user).state.places = _
        ∧ (RoomsService.updateMembership w s id memberId dto user).state.bindings = _
      rw [RoomsService.updateMembership]
      refine hsame fun s' m hok => ?_
      simp only [RoomsService.updateMembershipTx, bind_eq_ok, orThrow_eq_ok, pure_eq_ok, Prod.mk.injEq] at hok
      obtain ⟨-, -, room, -, membership, -, -, -, -, -, -, -, rfl, -⟩ := hok
      exact ⟨rfl, rfl⟩
    | updateStatus id status =>
      refine hsame fun s' m hok => ?_
      simp only [bind_eq_ok, orThrow_eq_ok, pure_eq_ok, Prod.mk.injEq] at hok
      obtain ⟨-, -, room, hroom, rfl, -⟩ := hok
      exact ⟨places_saveRoom hroom rfl rfl rfl, rfl⟩
    | updatePolicy id dto =>
      refine hsame fun s' m hok => ?_
      simp only [RoomsService.updatePolicyTx, bind_eq_ok, orThrow_eq_ok, pure_eq_ok, Prod.mk.injEq] at hok
      obtain ⟨-, -, room, hroom, -, -, rfl, -⟩ := hok
      exact ⟨places_saveRoom hroom rfl rfl rfl, rfl⟩
  · have hrooms' : ∀ o, c.operation ≠ .rooms o := fun o ho => hrooms ⟨o, ho⟩
    have hoperation : c.operation.isRooms = false := by
      cases hop : c.operation with
      | rooms o => exact absurd hop (hrooms' o)
      | _ => rfl
    have hsame : (s.step c).rooms = s.rooms := by
      rcases seats_step (s := s) hoperation with hseats | ⟨r, u, hseats⟩
      · exact congrArg Prod.fst hseats
      · exact congrArg Prod.fst hseats
    refine ⟨?_, bindings_step hrooms'⟩
    funext r
    rw [Db.places, Db.room?, hsame, Db.places, Db.room?]

/-- What the creation of a room does: nothing, or it adds the room with its binding. -/
theorem createRoom_cases (dto : CreateRoomDto) :
    ((RoomsService.create w s dto user).state.places = s.places
      ∧ (RoomsService.create w s dto user).state.bindings = s.bindings)
    ∨ ∃ actor parent context, RoomContext w s dto user actor parent context
      ∧ (∀ r, (RoomsService.create w s dto user).state.places r = if s.rooms.next = r then
        some (dto.roomType, dto.parentRoomId.map (·.id)) else s.places r)
      ∧ (RoomsService.create w s dto user).state.bindings
        = (match RoomsService.createBinding s dto s.rooms.next parent context with
          | some b => s.bindings.insert b
          | none => s.bindings) := by
  rw [RoomsService.create]
  refine commit_induction (P := fun s' : Db => (s'.places = s.places ∧ s'.bindings = s.bindings)
    ∨ ∃ actor parent context, RoomContext w s dto user actor parent context
      ∧ (∀ r, s'.places r = if s.rooms.next = r then some (dto.roomType, dto.parentRoomId.map (·.id)) else s.places r)
      ∧ s'.bindings = (match RoomsService.createBinding s dto s.rooms.next parent context with
        | some b => s.bindings.insert b
        | none => s.bindings)) (.inl ⟨rfl, rfl⟩) fun s' a h => ?_
  obtain ⟨⟨actor, parent, context⟩, hchecks, h⟩ := bind_eq_ok.mp h
  obtain ⟨-, -, h⟩ := bind_eq_ok.mp h
  simp only [RoomsService.createTx, bind_eq_ok, pure_eq_ok, Prod.mk.injEq] at h
  obtain ⟨-, -, rfl, -⟩ := h
  -- the room that is inserted, with the type and the parent that were asked for
  refine .inr ⟨actor, parent, context, RoomsService.createChecks_ok hchecks, fun r => ?_, rfl⟩
  show ((s.rooms.insert _ _).get? r).map Room.place = _
  rw [Serial.get?_insert]
  split
  · rfl
  · rfl

/-! ## What calls do to posts

The academic columns of a post are copied from its room or from an answer. -/

/-- A step keeps the academic context of a post and its room, or creates the post. -/
theorem ThreadStep.keepsAcademic {i : Id} {t t' : Thread} (h : ThreadStep s c i t t') :
    t'.post.map Discussion.academic = t.post.map Discussion.academic
      ∨ t.post = none ∧ ∃ dto, c.operation = .discussions (.create dto) := by
  have hsaved : ∀ {p q : Discussion}, t.Live p → t'.post = some q → q.academic = p.academic →
      t'.post.map Discussion.academic = t.post.map Discussion.academic := by
    intro p q hp hq hsame
    rw [hp.1, hq, Option.map_some, Option.map_some, hsame]
  cases h with
  | created hop _ hnew => exact .inr ⟨hnew.2, _, hop⟩
  | edited _ hp =>
    refine .inl (hsaved hp rfl ?_)
    unfold DiscussionsService.editedPost
    split <;> rfl
  | reviewed _ hp =>
    refine .inl (hsaved hp rfl ?_)
    rw [ModerationService.reviewedPost_eq]
    rfl
  | commentRemoved _ hp =>
    refine .inl (hsaved hp rfl ?_)
    unfold CommentsService.uncommented
    split <;> rfl
  | viewed _ hp | drafted _ hp | removed _ hp | commentAccepted _ hp | acceptedCommentRemoved _ hp
  | statusSet _ hp | acceptanceRemoved _ hp | postVoted _ hp | acceptedAnswerUpdated _ hp
  | acceptedCommentUpdated _ hp | answerAccepted _ hp | answerCreated _ hp | commentCreated _ hp
  | answerRemoved _ hp | acceptedAnswerRemoved _ hp => exact .inl (hsaved hp rfl rfl)
  | same | answerUpdated | commentUpdated | answerVoted | commentVoted | tagMerged | tagRemoved => exact .inl rfl

/-- What the creation of a post has checked of its room and of the course that was selected. -/
structure PostAcademic (w : World) (s : Db) (dto : CreateDiscussionDto) (q : Discussion) : Prop where
  room : q.roomId = some dto.roomId.id ∧ (s.room? dto.roomId.id).isSome
  selected : ∃ author selected room i, DiscussionsService.selectedContext w dto.curriculumCourseId = .ok selected
    ∧ room.binding = s.binding? dto.roomId.id ∧ DiscussionsService.checkContext selected room.binding = .ok ()
    ∧ q = DiscussionsService.newPost w author dto selected room i

/-- A member who may post is told of the room's binding. -/
theorem assertCanPost_binding {room : PostContext} (h : RoomsService.assertCanPost w s r user = .ok room) :
    (s.room? r).isSome ∧ room.binding = s.binding? r := by
  simp only [RoomsService.assertCanPost, bind_eq_ok, orThrow_eq_ok, require_eq_ok, pure_eq_ok] at h
  obtain ⟨actor, -, row, hrow, -, -, -, -, -, -, -, -, -, -, -, -, rfl⟩ := h
  exact ⟨Option.isSome_of_eq_some hrow, rfl⟩

open DiscussionsService in
/-- A post that is there after a creation was there, or is the new one. -/
theorem createPost_cases (dto : CreateDiscussionDto) {i : Id} {q : Discussion}
    (hq : (create w s user dto).state.discussions.get? i = some q) :
    s.discussions.get? i = some q ∨ PostAcademic w s dto q := by
  revert hq
  refine attempt_induction (P := fun s' : Db => s'.discussions.get? i = some q → s.discussions.get? i = some q
    ∨ PostAcademic w s dto q) .inl fun prelude hprelude => ?_
  obtain ⟨author, selected⟩ := prelude
  have hs := autoJoin_toContent s dto.roomId.id author
  refine commit_induction (P := fun s' : Db => s'.discussions.get? i = some q → s.discussions.get? i = some q
    ∨ PostAcademic w s dto q) ?_ fun s' k h hq => ?_
  · rw [hs]
    exact .inl
  · simp only [createPrelude, bind_eq_ok, pure_eq_ok, Prod.mk.injEq] at hprelude
    obtain ⟨-, -, -, -, chosen, hselected, -, rfl⟩ := hprelude
    simp only [bind_eq_ok] at h
    obtain ⟨room, hroom, _, hcheck, h⟩ := h
    obtain ⟨tags, -, hthread⟩ := createTx_thread hs h
    have hpost : (s'.thread i).post = some q := hq
    rw [hthread] at hpost
    split at hpost
    · next hi =>
      obtain rfl := Option.some.inj hpost
      obtain ⟨hthere, hbinding⟩ := assertCanPost_binding hroom
      exact .inr ⟨⟨rfl, hthere⟩, author, chosen, room, i, hselected, hbinding, hcheck, rfl⟩
    · exact .inl hpost

/-! ## The invariant

The columns of rooms and posts go back to one answer of the academic service each. -/

/-- The academic service answers with the same context whenever it answers with the same course of a curriculum. -/
def World.Steady (course : Id → AcademicContext) (w : World) : Prop :=
  ∀ u ctx, w.academicContext u = .ok ctx → course ctx.curriculumCourseId = ctx

/-- A post with the academic context of a room's binding. -/
def Discussion.AgreesWith (p : Discussion) (b : RoomAcademicBinding) : Prop :=
  p.majorId = some b.majorId ∧ ∀ k, b.curriculumCourseId = some k →
    p.curriculumCourseId = some k ∧ p.curriculumId = b.curriculumId ∧ p.courseId = b.courseId

/-- The academic context of rooms and posts hangs together. -/
structure Coherent (s : Db) : Prop where
  course : ∀ r room, s.room? r = some room → room.roomType = .course → ∃ p parent b b₀,
    room.parentRoomId = some p ∧ s.room? p = some parent ∧ parent.roomType = .major
      ∧ s.binding? r = some b ∧ s.binding? p = some b₀ ∧ b₀.majorId = b.majorId
  inherited : ∀ r room p b, s.room? r = some room → room.roomType = .event ∨ room.roomType = .forum →
    room.parentRoomId = some p → s.binding? p = some b → s.binding? r = some { b with roomId := r }
  posts : ∀ i p r b, s.discussions.get? i = some p → p.roomId = some r → s.binding? r = some b → p.AgreesWith b

/-- Rooms and posts that hang together, in terms of what calls keep. -/
structure AcademicBound (course : Id → AcademicContext) (s : Db) : Prop where
  courses : ∀ r parent, s.places r = some (.course, parent) → ∃ p q b b₀, parent = some p
    ∧ s.places p = some (.major, q) ∧ s.binding? r = some b ∧ s.binding? p = some b₀ ∧ b₀.majorId = b.majorId
  others : ∀ r t p b, s.places r = some (t, some p) → t = .event ∨ t = .forum → s.binding? p = some b →
    s.binding? r = some { b with roomId := r }
  bound : ∀ r, (s.binding? r).isSome → (s.places r).isSome
  parents : ∀ r t p, s.places r = some (t, some p) → (s.places p).isSome
  steady : ∀ r b k, s.binding? r = some b → b.curriculumCourseId = some k →
    b.curriculumId = some (course k).curriculumId ∧ b.courseId = some (course k).courseId
  housed : ∀ i p r, s.discussions.get? i = some p → p.roomId = some r → (s.places r).isSome
  posts : ∀ i p r b, s.discussions.get? i = some p → p.roomId = some r → s.binding? r = some b → p.AgreesWith b

variable {course : Id → AcademicContext}

/-- The invariant gives coherence. -/
theorem AcademicBound.coherent (h : AcademicBound course s) : Coherent s where
  course r room hroom htype := by
    have hplace : s.places r = some (.course, room.parentRoomId) := by
      show (s.room? r).map Room.place = _
      rw [hroom, ← htype]
      rfl
    obtain ⟨p, q, b, b₀, hparent, hp, hb, hb₀, hmajor⟩ := h.courses r _ hplace
    obtain ⟨parent, hrow, hplace⟩ := Option.map_eq_some_iff.mp hp
    exact ⟨p, parent, b, b₀, hparent, hrow, congrArg Prod.fst hplace, hb, hb₀, hmajor⟩
  inherited r room p b hroom htype hparent hb := by
    refine h.others r room.roomType p b ?_ htype hb
    show (s.room? r).map Room.place = _
    rw [hroom, ← hparent]
    rfl
  posts := h.posts

theorem academicBound_empty : AcademicBound course .empty where
  courses _ _ h := (by cases h)
  others _ _ _ _ h := (by cases h)
  bound _ h := (by cases h)
  parents _ _ _ h := (by cases h)
  steady _ _ _ h := (by cases h)
  housed _ _ _ h := (by cases h)
  posts _ _ _ _ h := (by cases h)

/-- Posts with the same academic context agree with the same bindings. -/
theorem Discussion.AgreesWith.congr {p q : Discussion} {b : RoomAcademicBinding} (hsame : q.academic = p.academic)
    (h : p.AgreesWith b) : q.AgreesWith b := by
  simp only [Discussion.academic, Prod.mk.injEq] at hsame
  obtain ⟨-, hmajor, hcurriculum, hcourse, hselected⟩ := hsame
  rw [Discussion.AgreesWith, hmajor, hcurriculum, hcourse, hselected]
  exact h

/-! ## One call

A call keeps the invariant in a world whose answers stay the same. -/

/-- A post whose context is that of a post that was there. -/
theorem keptPost (hkeep : ∀ i, (s'.thread i).post.map Discussion.academic = (s.thread i).post.map Discussion.academic)
    {i : Id} {q : Discussion} (hq : s'.discussions.get? i = some q) :
    ∃ p, s.discussions.get? i = some p ∧ q.academic = p.academic := by
  have hmap := hkeep i
  have hq : (s'.thread i).post = some q := hq
  rw [hq, Option.map_some] at hmap
  obtain ⟨p, hp, hsame⟩ := Option.map_eq_some_iff.mp hmap.symm
  exact ⟨p, hp, hsame.symm⟩

/-- Calls other than the creation of a post keep the context of every post. -/
theorem keepsPosts (h : ∀ dto, c.operation ≠ .discussions (.create dto)) (i : Id) :
    ((s.step c).thread i).post.map Discussion.academic = (s.thread i).post.map Discussion.academic := by
  rcases (thread_step s c i).keepsAcademic with hsame | ⟨-, dto, hop⟩
  · exact hsame
  · exact absurd hop (h dto)

/-- A call that keeps rooms and bindings keeps what holds of them, if its posts agree with them. -/
theorem AcademicBound.ofPosts (h : AcademicBound course s) (hplaces : s'.places = s.places)
    (hbindings : s'.bindings = s.bindings)
    (hhoused : ∀ i q r, s'.discussions.get? i = some q → q.roomId = some r → (s.places r).isSome)
    (hposts : ∀ i q r b, s'.discussions.get? i = some q → q.roomId = some r → s.binding? r = some b →
      q.AgreesWith b) : AcademicBound course s' := by
  have hbinding : ∀ r, s'.binding? r = s.binding? r := fun r => by rw [Db.binding?, hbindings, Db.binding?]
  refine ⟨?_, ?_, ?_, ?_, ?_, ?_, ?_⟩
  · simpa only [hplaces, hbinding] using h.courses
  · simpa only [hplaces, hbinding] using h.others
  · simpa only [hplaces, hbinding] using h.bound
  · simpa only [hplaces] using h.parents
  · simpa only [hbinding] using h.steady
  · simpa only [hplaces] using hhoused
  · simpa only [hbinding] using hposts

/-- A call that keeps rooms, bindings and posts keeps what holds of them. -/
theorem AcademicBound.congr (h : AcademicBound course s) (hplaces : s'.places = s.places)
    (hbindings : s'.bindings = s.bindings)
    (hkeep : ∀ i, (s'.thread i).post.map Discussion.academic = (s.thread i).post.map Discussion.academic) :
    AcademicBound course s' := by
  refine h.ofPosts hplaces hbindings (fun i q r hq hr => ?_) fun i q r b hq hr hb => ?_
  · obtain ⟨p, hp, hsame⟩ := keptPost hkeep hq
    exact h.housed i p r hp ((congrArg Prod.fst hsame).symm.trans hr)
  · obtain ⟨p, hp, hsame⟩ := keptPost hkeep hq
    exact (h.posts i p r b hp ((congrArg Prod.fst hsame).symm.trans hr) hb).congr hsame

/-- A steady world answers with the context of the course. -/
theorem context_steady (hw : w.Steady course) {u : UuidText} {ctx : AcademicContext}
    (h : AcademicReferenceService.context w u = .ok ctx) : course ctx.curriculumCourseId = ctx := by
  unfold AcademicReferenceService.context at h
  split at h
  · cases h
  · cases h
  · cases h
  · next hanswer => exact hw u ctx (by rw [hanswer, Except.ok.inj h])

/-- A new post takes its context from the room, or from a course that agrees with the room. -/
theorem newPost_agreesWith (h : AcademicBound course s) (hw : w.Steady course) {dto : CreateDiscussionDto}
    {q : Discussion} (hnew : PostAcademic w s dto q) {b : RoomAcademicBinding}
    (hb : s.binding? dto.roomId.id = some b) : q.AgreesWith b := by
  obtain ⟨author, selected, room, i, hselected, hroom, hcheck, rfl⟩ := hnew.selected
  rw [hroom, hb] at hcheck
  cases selected with
  | none =>
    -- every field falls back on the room's
    unfold Discussion.AgreesWith DiscussionsService.newPost
    rw [hroom, hb]
    exact ⟨rfl, fun k hk => ⟨hk, rfl, rfl⟩⟩
  | some ctx =>
    simp only [DiscussionsService.checkContext, bind_eq_ok, require_eq_ok, Option.mem_def, Option.some.injEq,
      forall_eq', exists_const] at hcheck
    refine ⟨congrArg some hcheck.1, fun k hk => ?_⟩
    obtain rfl := hcheck.2 k hk
    have hctx : course ctx.curriculumCourseId = ctx := by
      cases hcourse : dto.curriculumCourseId with
      | none =>
        rw [hcourse] at hselected
        cases hselected
      | some u =>
        rw [hcourse] at hselected
        obtain ⟨ctx', hok, he⟩ := map_eq_ok.mp hselected
        obtain rfl := Option.some.inj he
        exact context_steady hw hok
    obtain ⟨hcurriculum, hcourse⟩ := h.steady _ b _ hb hk
    rw [hctx] at hcurriculum hcourse
    exact ⟨rfl, hcurriculum.symm, hcourse.symm⟩

/-- The binding of a room that has been added, and of the rooms that were there. -/
theorem binding?_created (h : AcademicBound course s) {dto : CreateRoomDto} {parent : Option Room}
    {context : Option AcademicContext}
    (hbindings : s'.bindings = (match RoomsService.createBinding s dto s.rooms.next parent context with
      | some b => s.bindings.insert b
      | none => s.bindings)) (r : Id) :
    s'.binding? r = if s.rooms.next = r then RoomsService.createBinding s dto s.rooms.next parent context
      else s.binding? r := by
  -- a room that is not there has no binding
  have hnew : s.binding? s.rooms.next = none := by
    cases hb : s.binding? s.rooms.next with
    | none => rfl
    | some b =>
      have hthere := h.bound s.rooms.next (Option.isSome_of_eq_some hb)
      rw [Db.places, Db.room?, s.rooms.get?_next] at hthere
      cases hthere
  rw [Db.binding?, hbindings]
  cases hb : RoomsService.createBinding s dto s.rooms.next parent context with
  | none =>
    show s.bindings.get? r = _
    split
    · next hr => exact hr ▸ hnew
    · rfl
  | some b =>
    show (s.bindings.insert b).get? r = _
    rw [Table.get?_insert, RoomsService.createBinding_roomId hb]
    split
    · next hr =>
      subst hr
      have hnew : s.bindings.get? s.rooms.next = none := hnew
      rw [hnew]
      rfl
    · rfl

/-- A new room of a course is below a room of its major, and another new room takes the binding of its parent. -/
theorem academicBound_created (h : AcademicBound course s) (hw : w.Steady course) {dto : CreateRoomDto}
    {user : GatewayUser} {actor : Id} {parent : Option Room} {context : Option AcademicContext}
    (hctx : RoomContext w s dto user actor parent context)
    (hplaces : ∀ r, s'.places r = if s.rooms.next = r then some (dto.roomType, dto.parentRoomId.map (·.id))
      else s.places r)
    (hbindings : s'.bindings = (match RoomsService.createBinding s dto s.rooms.next parent context with
      | some b => s.bindings.insert b
      | none => s.bindings))
    (hposts : ∀ i, (s'.thread i).post.map Discussion.academic = (s.thread i).post.map Discussion.academic) :
    AcademicBound course s' := by
  have hbinding := binding?_created h hbindings
  have hnew : s.places s.rooms.next = none := by rw [Db.places, Db.room?, s.rooms.get?_next]; rfl
  have hother : ∀ {r}, (s.places r).isSome → s.rooms.next ≠ r := by
    rintro r hr rfl
    rw [hnew] at hr
    cases hr
  have hplace : ∀ {r}, (s.places r).isSome → s'.places r = s.places r := fun hr => by
    rw [hplaces, if_neg (hother hr)]
  have hold : ∀ {r}, (s.places r).isSome → s'.binding? r = s.binding? r := fun hr => by
    rw [hbinding, if_neg (hother hr)]
  -- the parent that the request names is a room that was there
  have hparent : ∀ p, dto.parentRoomId.map (·.id) = some p → ∃ room, parent = some room ∧ room.id = p
      ∧ s.room? p = some room := by
    intro p hp
    obtain ⟨u, hu, rfl⟩ := Option.map_eq_some_iff.mp hp
    obtain ⟨room, hroom⟩ := Option.isSome_iff_exists.mp (hctx.found (by rw [hu]; rfl))
    have hrow : s.room? u.id = some room := by
      have := hctx.row
      rw [hu, hroom] at this
      exact this.symm
    exact ⟨room, hroom, (Table.get?_eq_some.mp hrow).2, hrow⟩
  have hthere : ∀ {p room}, s.room? p = some room → (s.places p).isSome := fun hrow => by
    rw [Db.places, hrow]
    rfl
  -- each part for the new room, and for the rooms that were there
  refine ⟨fun r q hr => ?_, fun r t p b hr ht hb => ?_, fun r hr => ?_, fun r t p hr => ?_, fun r b k hb hk => ?_,
    fun i q r hq hr => ?_, fun i q r b hq hr hb => ?_⟩
  · rw [hplaces] at hr
    split at hr
    · next he =>
      subst he
      simp only [Option.some.injEq, Prod.mk.injEq] at hr
      obtain ⟨htype, rfl⟩ := hr
      obtain ⟨room, u, ctx, b₀, hroom, hmajor, hok, rfl, hb₀, hsame, -⟩ := hctx.course htype
      cases hu : dto.parentRoomId with
      | none =>
        have := hctx.row
        rw [hroom, hu] at this
        cases this
      | some v =>
        obtain ⟨room', hroom', hid, hrow⟩ := hparent v.id (by rw [hu]; rfl)
        obtain rfl := Option.some.inj (hroom.symm.trans hroom')
        rw [hid] at hb₀
        refine ⟨v.id, room.parentRoomId, ⟨s.rooms.next, ctx.majorId, some ctx.curriculumId, some ctx.courseId,
          some ctx.curriculumCourseId⟩, b₀, rfl, ?_, ?_, ?_, hsame⟩
        · rw [hplace (hthere hrow), Db.places, hrow, ← hmajor]
          rfl
        · rw [hbinding, if_pos rfl, RoomsService.createBinding, if_neg (by rw [htype]; intro h; cases h)]
        · rw [hold (hthere hrow)]
          exact hb₀
    · obtain ⟨p, q', b, b₀, rfl, hp, hb, hb₀, hmajor⟩ := h.courses r q hr
      refine ⟨p, q', b, b₀, rfl, ?_, ?_, ?_, hmajor⟩
      · rw [hplace (Option.isSome_of_eq_some hp), hp]
      · rw [hold (Option.isSome_of_eq_some hr), hb]
      · rw [hold (Option.isSome_of_eq_some hp), hb₀]
  · rw [hplaces] at hr
    split at hr
    · next he =>
      subst he
      simp only [Option.some.injEq, Prod.mk.injEq] at hr
      obtain ⟨rfl, hp⟩ := hr
      obtain ⟨room, rfl, rfl, hrow⟩ := hparent p hp
      rw [hold (hthere hrow)] at hb
      obtain rfl := hctx.others (by rcases ht with ht | ht <;> rw [ht] <;> intro h <;> cases h)
      rw [hbinding, if_pos rfl, RoomsService.createBinding,
        -- a group or a forum has no context of its own
        if_neg (by rcases ht with ht | ht <;> rw [ht] <;> intro h <;> cases h)]
      show (s.binding? room.id).map _ = _
      rw [hb]
      rfl
    · have hp := h.parents r t p hr
      rw [hold hp] at hb
      rw [hold (Option.isSome_of_eq_some hr)]
      exact h.others r t p b hr ht hb
  · rw [hbinding] at hr
    rw [hplaces]
    split
    · rfl
    · next hne => exact h.bound r (by rwa [if_neg hne] at hr)
  · rw [hplaces] at hr
    have hp : (s.places p).isSome := by
      split at hr
      · simp only [Option.some.injEq, Prod.mk.injEq] at hr
        obtain ⟨room, -, -, hrow⟩ := hparent p hr.2
        exact hthere hrow
      · exact h.parents r t p hr
    rw [hplace hp]
    exact hp
  · rw [hbinding] at hb
    split at hb
    · unfold RoomsService.createBinding at hb
      split at hb
      · obtain ⟨m, -, rfl⟩ := Option.map_eq_some_iff.mp hb
        cases hk
      · cases context with
        | some ctx =>
          obtain rfl := Option.some.inj hb
          obtain rfl := Option.some.inj hk
          have hcourse : dto.roomType = .course := Classical.byContradiction fun hne => (by cases hctx.others hne)
          obtain ⟨room, u, ctx', b₀, -, -, hok, he, -⟩ := hctx.course hcourse
          obtain rfl := Option.some.inj he
          have hsteady := context_steady hw hok
          exact ⟨by rw [hsteady], by rw [hsteady]⟩
        | none =>
          obtain ⟨b₀, hb₀, rfl⟩ := Option.map_eq_some_iff.mp hb
          obtain ⟨room, -, hb₀⟩ := Option.bind_eq_some_iff.mp hb₀
          exact h.steady room.id b₀ k hb₀ hk
    · exact h.steady r b k hb hk
  · obtain ⟨p, hp, hsame⟩ := keptPost hposts hq
    have hr := h.housed i p r hp ((congrArg Prod.fst hsame).symm.trans hr)
    rw [hplace hr]
    exact hr
  · obtain ⟨p, hp, hsame⟩ := keptPost hposts hq
    have hr : p.roomId = some r := (congrArg Prod.fst hsame).symm.trans hr
    rw [hold (h.housed i p r hp hr)] at hb
    exact (h.posts i p r b hp hr hb).congr hsame

/-- Every call keeps rooms and posts together. -/
theorem academicBound_step (h : AcademicBound course s) (hw : c.world.Steady course) :
    AcademicBound course (s.step c) := by
  obtain ⟨w, user, o⟩ := c
  -- new rooms, new posts, and the calls that create neither
  by_cases hroom : ∃ dto, o = .rooms (.create dto)
  · obtain ⟨dto, rfl⟩ := hroom
    have hposts := keepsPosts (s := s) (c := ⟨w, user, .rooms (.create dto)⟩) fun _ => (fun h => by cases h)
    have hcreated : ∀ {s' : Db}, (RoomsService.create w s dto user).state = s' →
        (∀ i, (s'.thread i).post.map (·.academic) = (s.thread i).post.map (·.academic)) → AcademicBound course s' := by
      rintro _ rfl hposts
      rcases createRoom_cases dto with ⟨hplaces, hbindings⟩ | ⟨actor, parent, context, hctx, hplaces, hbindings⟩
      · exact h.congr hplaces hbindings hposts
      · exact academicBound_created h hw hctx hplaces hbindings hposts
    exact hcreated rfl hposts
  · obtain ⟨hplaces, hbindings⟩ := places_step (s := s) (c := ⟨w, user, o⟩) fun dto hop => hroom ⟨dto, hop⟩
    by_cases hpost : ∃ dto, o = .discussions (.create dto)
    · obtain ⟨dto, rfl⟩ := hpost
      refine h.ofPosts hplaces hbindings (fun i q r hq hr => ?_) fun i q r b hq hr hb => ?_
      · rcases createPost_cases dto hq with hq | hnew
        · exact h.housed i q r hq hr
        · obtain rfl := Option.some.inj (hnew.room.1.symm.trans hr)
          rw [Db.places, Option.isSome_map]
          exact hnew.room.2
      · rcases createPost_cases dto hq with hq | hnew
        · exact h.posts i q r b hq hr hb
        · obtain rfl := Option.some.inj (hnew.room.1.symm.trans hr)
          exact newPost_agreesWith h hw hnew hb
    · exact h.congr hplaces hbindings (keepsPosts fun dto hop => hpost ⟨dto, hop⟩)

/-- In every reachable state the academic context of rooms and posts hangs together, when the academic service always
answers with the same context for a course of a curriculum. -/
theorem academic_coherent (course : Id → AcademicContext) (calls : List Call)
    (h : ∀ c ∈ calls, c.world.Steady course) : Coherent (Db.after calls) := by
  have hrun : ∀ (calls : List Call) (s : Db), AcademicBound course s → (∀ c ∈ calls, c.world.Steady course) →
      AcademicBound course (run Db.step s calls) := by
    intro calls
    induction calls with
    | nil => exact fun s hs _ => hs
    | cons c calls ih =>
      intro s hs hsteady
      exact ih (s.step c) (academicBound_step hs (hsteady c List.mem_cons_self))
        fun c' hc' => hsteady c' (List.mem_cons_of_mem c hc')
  exact (hrun calls .empty academicBound_empty h).coherent

/-! ## Samples

A chain of rooms with one course. -/

namespace Sample

/-- The academic service knows every major, and every course belongs to the major `7`. -/
def courses : World :=
  { World.quiet 5 with major := fun _ => .ok (), academicContext := fun u => .ok ⟨u.id, 7, 20, 30⟩ }

/-- A major, a course of it, a forum of the course, and a post there. -/
def courseRooms : List Call :=
  [⟨courses, administrator, .rooms (.create
    { slug := "khmt", name := "Khoa học máy tính", roomType := .major, majorId := some (Id.text 7) })⟩,
   ⟨courses, administrator, .rooms (.create
    { slug := "do-thi", name := "Lý thuyết đồ thị", roomType := .course, parentRoomId := some (Id.text 0),
      curriculumCourseId := some (Id.text 12) })⟩,
   ⟨courses, administrator, .rooms (.create
    { slug := "do-thi-hoi-dap", name := "Hỏi đáp", roomType := .forum, parentRoomId := some (Id.text 1) })⟩,
   ⟨courses, administrator, .discussions (.create
    { roomId := Id.text 2, title := "Why is this graph planar?",
      content := "I do not see a drawing without a crossing.", postType := .question })⟩]

end Sample

/-- The forum and its post have the course of the room above. -/
theorem academic_coherent_courseRooms : Coherent (Db.after Sample.courseRooms)
    ∧ (Db.after Sample.courseRooms).binding? 2 = some ⟨2, 7, some 20, some 30, some 12⟩
    ∧ ((Db.after Sample.courseRooms).discussions.get? 0).map Discussion.academic
      = some (some 2, some 7, some 20, some 30, some 12) := by
  refine ⟨academic_coherent (fun k => ⟨k, 7, 20, 30⟩) Sample.courseRooms fun c hc u ctx hctx => ?_, by decide,
    by decide⟩
  have hworld : c.world = Sample.courses := by
    simp only [Sample.courseRooms, List.mem_cons, List.not_mem_nil, or_false] at hc
    rcases hc with rfl | rfl | rfl | rfl <;> rfl
  rw [hworld] at hctx
  obtain rfl := Reply.ok.inj hctx
  rfl

end AcaSocial
