import AcaSocial.Discussion.HiddenText
import AcaSocial.Discussion.Registers

/-!
# The events of a run

Every transaction appends its events to the outbox.

* **`Emits`** — the events that a call may emit, one constructor for each place in the services, with what the call has
  checked there.
* **`Db.Adds`** — a store with more events than another.
* **`outbox_step`** — a call adds to the outbox, and what it adds is emitted. An invariant of the outbox is then proved
  by cases on `Emits`, with no look at the services.
* **`outbox_names`** — which events name the user whose call they come from.
-/

namespace AcaSocial

variable {w : World} {s s' t : Db} {user : GatewayUser} {c : Call}

/-! ## What a call may emit

The events of each operation, with the fields that they carry. -/

/-- Where a call that creates an answer or a comment names users, and what it tells of it. -/
inductive MentionedIn (s : Db) (c : Call) : String → EventData → Prop where
  | answer {d : UuidText} {dto : CreateAnswerDto} {q : Discussion}
      (hop : c.operation = .answers (.create d dto)) (hq : s.post? d.id = some q) :
      MentionedIn s c dto.content [("entityType", .str "answer"), ("entityId", .uuid (Id.text s.answers.next)),
        ("discussionId", .uuid d), ("discussionTitle", .str q.title)]
  | comment {d : UuidText} {dto : CreateCommentDto} {p : Discussion}
      (hop : c.operation = .comments (.create d dto)) (hp : s.post? d.id = some p) :
      MentionedIn s c dto.content [("entityType", .str "comment"), ("entityId", .uuid (Id.text s.comments.next)),
        ("discussionId", .uuid d), ("discussionTitle", .str p.title)]

/-- The call `c`, in the state `s`, may emit an event of this type with these data. -/
inductive Emits (s : Db) (c : Call) : String → EventData → Prop where
  | roomCreated {dto : CreateRoomDto} (hop : c.operation = .rooms (.create dto)) :
      Emits s c "room.created" [("roomId", .uuid (Id.text s.rooms.next)), ("roomType", .str dto.roomType.text)]
  | rulesChanged {id : UuidText} {dto : CreateRoomRuleDto} {room : Room} (hop : c.operation = .rooms (.addRule id dto))
      (hroom : s.room? id.id = some room) :
      Emits s c "room.rules.changed" [("roomId", .uuid id), ("rulesVersion", .num (room.rulesVersion + 1))]
  | discussionCreated {dto : CreateDiscussionDto} {author : Id} (hop : c.operation = .discussions (.create dto))
      (huser : c.user.id = some author) :
      Emits s c "discussion.created" [("discussionId", .uuid (Id.text s.discussions.next)), ("title", .str dto.title),
        ("recipientId", .uuid (Id.text author))]
  | discussionDeleted {id : UuidText} {p : Discussion} (hop : c.operation = .discussions (.remove id))
      (hp : s.post? id.id = some p) :
      Emits s c "content.deleted" [("entityType", .str "discussion"), ("entityId", .uuid id),
        ("roomId", (p.roomId.map fun r => Json.uuid (Id.text r)).getD .null)]
  | answerDeleted {id : UuidText} {a : Answer} {q : Discussion} (hop : c.operation = .answers (.remove id))
      (ha : s.answer? id.id = some a) (hq : s.post? a.discussionId = some q) :
      Emits s c "content.deleted" [("entityType", .str "answer"), ("entityId", .uuid id),
        ("discussionId", .uuid (Id.text q.id))]
  | answerCreated {d : UuidText} {dto : CreateAnswerDto} {author : Id} {q : Discussion}
      (hop : c.operation = .answers (.create d dto)) (huser : c.user.id = some author) (hq : s.post? d.id = some q)
      (hother : q.authorId ≠ author) :
      Emits s c "answer.created" [("recipientId", .uuid (Id.text q.authorId)),
        ("actorId", if dto.isAnonymous.getD false then .null else .uuid (Id.text author)),
        ("answerId", .uuid (Id.text s.answers.next)), ("discussionId", .uuid d), ("discussionTitle", .str q.title)]
  | answerAccepted {d : UuidText} {dto : AcceptAnswerDto} {actor : Id} {q : Discussion} {a : Answer}
      (hop : c.operation = .answers (.accept d dto)) (huser : c.user.id = some actor) (hq : s.post? d.id = some q)
      (ha : s.answer? dto.answerId.id = some a) (hin : a.discussionId = q.id) (hother : a.authorId ≠ actor) :
      Emits s c "answer.accepted" [("discussionId", .uuid (Id.text q.id)), ("answerId", .uuid (Id.text a.id)),
        ("answerVersion", .num a.contentVersion), ("recipientId", .uuid (Id.text a.authorId)),
        ("actorId", .uuid (Id.text actor)), ("discussionTitle", .str q.title)]
  | commentAccepted {id commentId : UuidText} {p : Discussion} {m : Comment}
      (hop : c.operation = .discussions (.acceptAnswer id commentId)) (hp : s.post? id.id = some p)
      (howner : c.user.id = some p.authorId) (hm : s.comment? commentId.id = some m) (hother : m.authorId ≠ p.authorId) :
      Emits s c "answer.accepted" [("discussionId", .uuid id), ("commentId", .uuid (Id.text m.id)),
        ("recipientId", .uuid (Id.text m.authorId))]
  | commentCreated {d : UuidText} {dto : CreateCommentDto} {author : Id} {p : Discussion} {parent : Option Comment}
      {preview : String} (hop : c.operation = .comments (.create d dto)) (huser : c.user.id = some author)
      (hp : s.post? d.id = some p) (hparent : CommentsService.parentOf s d dto = .ok parent)
      (hpreview : CommentsService.preview dto.content = .ok preview)
      (hother : (parent.map (·.authorId)).getD p.authorId ≠ author) :
      Emits s c "comment.created" [("commentId", .uuid (Id.text s.comments.next)), ("discussionId", .uuid d),
        ("discussionTitle", .str p.title),
        ("recipientId", .uuid (Id.text ((parent.map (·.authorId)).getD p.authorId))),
        ("actorId", if dto.isAnonymous.getD false then .null else .uuid (Id.text author)),
        ("isAnonymous", .bool (dto.isAnonymous.getD false)), ("commentPreview", .str preview)]
  | mentionCreated {author : Id} {content : String} {context : EventData} {u : ResolvedUser}
      (huser : c.user.id = some author) (hin : MentionedIn s c content context)
      (hu : u ∈ MentionService.mentioned c.world content author) :
      Emits s c "mention.created" ([("recipientId", .uuid (Id.text u.id)), ("actorId", .uuid (Id.text author)),
        ("mentionedUsername", .str u.username)] ++ context)

/-! ## Adding events

A method adds events at the end of the outbox, each of which it may emit. -/

/-- The store `s'` has the events of `s` and after them more, all of them as `Q` says. -/
def Db.Adds (Q : String → EventData → Prop) (s s' : Db) : Prop :=
  s.outbox.next ≤ s'.outbox.next ∧ ∃ es, s'.outbox.rows = s.outbox.rows ++ es
    ∧ ∀ e ∈ es, s.outbox.next ≤ e.id ∧ Q e.eventType e.payload

namespace Db.Adds

variable {Q : String → EventData → Prop}

/-- A method that leaves the outbox adds nothing. -/
theorem of_eq (h : s'.outbox = s.outbox) : Adds Q s s' := by
  rw [Adds, h]
  exact ⟨Nat.le_refl _, [], (List.append_nil _).symm, fun _ he => absurd he List.not_mem_nil⟩

/-- What is added twice is added at the end. -/
theorem trans (h : Adds Q s s') (h' : Adds Q s' t) : Adds Q s t := by
  obtain ⟨hnext, es, hrows, hes⟩ := h
  obtain ⟨hnext', es', hrows', hes'⟩ := h'
  refine ⟨Nat.le_trans hnext hnext', es ++ es', ?_, fun e he => ?_⟩
  · rw [hrows', hrows, List.append_assoc]
  · rcases List.mem_append.mp he with he | he
    · exact hes e he
    · exact ⟨Nat.le_trans hnext (hes' e he).1, (hes' e he).2⟩

/-- One event. -/
theorem event {type : String} {data : EventData} (h : Q type data) : Adds Q s (s.event type data) := by
  refine ⟨Nat.le_succ _, [⟨s.outbox.next, type, data⟩], Table.rows_insert s.outbox.get?_next, fun e he => ?_⟩
  rw [List.mem_singleton.mp he]
  exact ⟨Nat.le_refl _, h⟩

/-- An event after what leaves the outbox alone. -/
theorem event_of_eq {type : String} {data : EventData} (hout : s'.outbox = s.outbox) (h : Q type data) :
    Adds Q s (s'.event type data) := (of_eq hout).trans (.event h)

/-- Mentions add one event for each user that is mentioned. -/
theorem emit {content : String} {actor : Id} {context : EventData}
    (h : ∀ u ∈ MentionService.mentioned w content actor, Q "mention.created"
      ([("recipientId", .uuid (Id.text u.id)), ("actorId", .uuid (Id.text actor)),
        ("mentionedUsername", .str u.username)] ++ context)) :
    Adds Q s (MentionService.emit w s content actor context) := by
  unfold MentionService.emit
  generalize MentionService.mentioned w content actor = us at h
  induction us generalizing s with
  | nil => exact .of_eq rfl
  | cons u us ih =>
    have hhead := h u List.mem_cons_self
    exact (event hhead).trans (ih fun u' hu' => h u' (List.mem_cons_of_mem u hu'))

end Db.Adds

/-! ## What the parts of a call leave alone

Most parts of a method leave the outbox alone. -/

theorem autoJoinTo_outbox (s : Db) (r : Option Id) (u : Id) : (RoomsService.autoJoinTo s r u).outbox = s.outbox := by
  cases r <;> rfl

open AnswersService in
theorem revokeAcceptance_outbox (q : Discussion) (actor : Id) (reason : String) :
    (revokeAcceptance w s q actor reason).1.outbox = s.outbox := by
  unfold revokeAcceptance
  split <;> rfl

open AnswersService in
theorem revokeAcceptance_id (q : Discussion) (actor : Id) (reason : String) :
    (revokeAcceptance w s q actor reason).2.id = q.id ∧ (revokeAcceptance w s q actor reason).2.title = q.title := by
  unfold revokeAcceptance
  split <;> exact ⟨rfl, rfl⟩

/-! ## One operation after the other

Each method emits what it may. -/

/-- The methods on rooms emit what they may. -/
theorem rooms_adds (o : RoomsOperation) (hop : c.operation = .rooms o) :
    Db.Adds (Emits s c) s (o.serve c.world s c.user).state := by
  cases o with
  | create dto =>
    refine commit_induction (P := Db.Adds (Emits s c) s) (.of_eq rfl) fun s' r h => ?_
    simp only [RoomsService.createTx, bind_eq_ok, pure_eq_ok, Prod.mk.injEq] at h
    obtain ⟨-, -, -, -, -, -, rfl, -⟩ := h
    exact .event_of_eq rfl (.roomCreated hop)
  -- joining leaves no event
  | join id =>
    show Db.Adds (Emits s c) s (RoomsService.join s id c.user).state
    rcases RoomsService.join_cases s id c.user with hstay | ⟨actor, room, m, -, -, -, hsaved⟩
    · rw [hstay]
      exact .of_eq rfl
    · rw [hsaved]
      exact .of_eq rfl
  | addRule id dto =>
    refine commit_induction (P := Db.Adds (Emits s c) s) (.of_eq rfl) fun s' r h => ?_
    simp only [RoomsService.addRuleTx, bind_eq_ok, orThrow_eq_ok, pure_eq_ok, Prod.mk.injEq] at h
    obtain ⟨-, -, room, hroom, -, -, rfl, -⟩ := h
    exact .event_of_eq rfl (.rulesChanged hop hroom)
  | updateMembership id m dto =>
    refine commit_induction (P := Db.Adds (Emits s c) s) (.of_eq rfl) fun s' r h => ?_
    simp only [RoomsService.updateMembershipTx, bind_eq_ok, pure_eq_ok, Prod.mk.injEq] at h
    obtain ⟨-, -, -, -, -, -, -, -, -, -, -, -, rfl, -⟩ := h
    exact .of_eq rfl
  | updateStatus id status =>
    refine commit_induction (P := Db.Adds (Emits s c) s) (.of_eq rfl) fun s' r h => ?_
    simp only [bind_eq_ok, pure_eq_ok, Prod.mk.injEq] at h
    obtain ⟨-, -, -, -, rfl, -⟩ := h
    exact .of_eq rfl
  | updatePolicy id dto =>
    refine commit_induction (P := Db.Adds (Emits s c) s) (.of_eq rfl) fun s' r h => ?_
    simp only [RoomsService.updatePolicyTx, bind_eq_ok, pure_eq_ok, Prod.mk.injEq] at h
    obtain ⟨-, -, -, -, -, -, rfl, -⟩ := h
    exact .of_eq rfl

open DiscussionsService in
/-- The methods on posts emit what they may. -/
theorem discussions_adds (o : DiscussionsOperation) (hop : c.operation = .discussions o) :
    Db.Adds (Emits s c) s (o.serve c.world s c.user).state := by
  cases o with
  | findAll filter => exact .of_eq rfl
  | create dto =>
    refine attempt_induction (P := Db.Adds (Emits s c) s) (.of_eq rfl) fun prelude hprelude => ?_
    obtain ⟨author, selected⟩ := prelude
    simp only [createPrelude, bind_eq_ok, pure_eq_ok, authenticated_eq_ok, Prod.mk.injEq] at hprelude
    obtain ⟨_, huser, -, -, -, -, rfl, -⟩ := hprelude
    refine commit_induction (P := Db.Adds (Emits s c) s) (.of_eq rfl) fun s' a h => ?_
    simp only [createTx, bind_eq_ok, pure_eq_ok, Prod.mk.injEq] at h
    obtain ⟨room, -, -, -, tags, -, s₁, hrev, rfl, -⟩ := h
    refine .event_of_eq ?_ (.discussionCreated hop huser)
    rw [(insertRevision_eq hrev).2, tagCounts_eq]
    rfl
  -- a read that counts the view
  | findOne id =>
    refine commit_induction (P := Db.Adds (Emits s c) s) (.of_eq rfl) fun s' a h => ?_
    simp only [bind_eq_ok, pure_eq_ok, Prod.mk.injEq] at h
    obtain ⟨-, -, -, -, rfl, -⟩ := h
    exact .of_eq rfl
  | update id dto =>
    refine attempt_induction (P := Db.Adds (Emits s c) s) (.of_eq rfl) fun prelude _ => ?_
    obtain ⟨editor, p⟩ := prelude
    have hs := autoJoinTo_outbox s p.roomId p.authorId
    refine commit_induction (P := Db.Adds (Emits s c) s) (.of_eq hs) fun s' a h => ?_
    simp only [updateTx, bind_eq_ok] at h
    obtain ⟨policy, -, -, -, -, -, h⟩ := h
    -- a draft, or a saved edit; neither leaves an event
    split at h
    · simp only [saveDraft, bind_eq_ok, pure_eq_ok, Prod.mk.injEq] at h
      obtain ⟨-, -, s₁, hrev, rfl, -⟩ := h
      rw [(insertRevision_eq hrev).2]
      exact .of_eq hs
    · simp only [saveEdit, bind_eq_ok, pure_eq_ok, Prod.mk.injEq] at h
      obtain ⟨s₁, htags, s₂, hrev, rfl, -⟩ := h
      refine .of_eq ?_
      calc (attachTo (s₂.savePost (editedPost dto policy p)) p.id dto.mediaIds).outbox
          = s₂.outbox := by rw [attachTo_eq]; rfl
        _ = s₁.outbox := by rw [recordVersion_eq hrev]
        _ = (RoomsService.autoJoinTo s p.roomId p.authorId).outbox := by rw [retagTo_eq htags]
        _ = s.outbox := hs
  | remove id =>
    refine commit_induction (P := Db.Adds (Emits s c) s) (.of_eq rfl) fun s' a h => ?_
    simp only [removeTx, bind_eq_ok, lockPost_eq_ok, pure_eq_ok, Prod.mk.injEq] at h
    obtain ⟨-, -, p, hp, -, -, rfl, -⟩ := h
    rw [tagCounts_eq]
    exact .event_of_eq rfl (.discussionDeleted hop hp)
  | acceptAnswer id m =>
    refine commit_induction (P := Db.Adds (Emits s c) s) (.of_eq rfl) fun s' a h => ?_
    simp only [acceptAnswerTx, requireQuestionOwner, bind_eq_ok, lockPost_eq_ok, orThrow_eq_ok, require_eq_ok] at h
    obtain ⟨_, -, p, hp, -, -, ⟨⟩, ⟨-, -, howner⟩, -, -, m', hm, -, -, -, hother, h⟩ := h
    split at h <;> simp only [pure_eq_ok, Prod.mk.injEq] at h <;> obtain ⟨rfl, -⟩ := h
    · exact .of_eq rfl
    · exact .event_of_eq rfl (.commentAccepted hop hp howner hm hother)
  | removeAcceptedAnswer id =>
    refine commit_induction (P := Db.Adds (Emits s c) s) (.of_eq rfl) fun s' a h => ?_
    simp only [removeAcceptedAnswerTx, bind_eq_ok, pure_eq_ok, Prod.mk.injEq] at h
    obtain ⟨-, -, -, -, -, -, -, -, rfl, -⟩ := h
    exact .of_eq rfl
  | setStatus id status =>
    refine commit_induction (P := Db.Adds (Emits s c) s) (.of_eq rfl) fun s' a h => ?_
    simp only [setStatusTx, bind_eq_ok, pure_eq_ok, Prod.mk.injEq] at h
    obtain ⟨-, -, -, -, -, -, -, -, rfl, -⟩ := h
    exact .of_eq rfl

section Answers

open AnswersService

/-- The methods on answers emit what they may. -/
theorem answers_adds (o : AnswersOperation) (hop : c.operation = .answers o) :
    Db.Adds (Emits s c) s (o.serve c.world s c.user).state := by
  cases o with
  | list d => exact .of_eq rfl
  | create d dto =>
    refine attempt_induction (P := Db.Adds (Emits s c) s) (.of_eq rfl) fun prelude hprelude => ?_
    simp only [createPrelude, bind_eq_ok, pure_eq_ok, authenticated_eq_ok, lockPost_eq_ok] at hprelude
    obtain ⟨author, huser, q, hq, -, -, -, -, -, -, rfl⟩ := hprelude
    have hs := autoJoinTo_outbox s q.roomId author
    have hcontent := autoJoinTo_toContent s q.roomId author
    refine commit_induction (P := Db.Adds (Emits s c) s) (.of_eq hs) fun s' a h => ?_
    simp only [bind_eq_ok, createTx, pure_eq_ok, Prod.mk.injEq] at h
    obtain ⟨-, -, s₁, hrev, rfl, -⟩ := h
    have hs₁ : s₁.outbox = s.outbox := by
      rw [(insertAnswerRevision_eq hrev).2]
      exact hs
    have hnext : (RoomsService.autoJoinTo s q.roomId author).answers.next = s.answers.next :=
      congrArg (fun k : Content => k.answers.next) hcontent
    -- one event for each user who is mentioned
    have hemit : ∀ u ∈ MentionService.mentioned c.world dto.content author, Emits s c "mention.created"
        ([("recipientId", .uuid (Id.text u.id)), ("actorId", .uuid (Id.text author)),
          ("mentionedUsername", .str u.username)] ++ [("entityType", .str "answer"),
          ("entityId", .uuid (Id.text (RoomsService.autoJoinTo s q.roomId author).answers.next)),
          ("discussionId", .uuid d), ("discussionTitle", .str q.title)]) := by
      intro u hu
      rw [hnext]
      exact .mentionCreated huser (.answer hop hq) hu
    refine .trans ?_ (.emit hemit)
    -- and one for the author of the question, unless they answer it
    by_cases hother : q.authorId ≠ author
    · rw [if_pos hother, hnext]
      exact .event_of_eq hs₁ (.answerCreated hop huser hq hother)
    · rw [if_neg hother]
      exact .of_eq hs₁
  | update id dto =>
    refine commit_induction (P := Db.Adds (Emits s c) s) (.of_eq rfl) fun s' a h => .of_eq ?_
    simp only [updateTx, bind_eq_ok] at h
    obtain ⟨actor, -, ⟨a, q⟩, -, -, -, -, -, -, -, h⟩ := h
    split at h
    · simp only [pure_eq_ok, Prod.mk.injEq] at h
      obtain ⟨rfl, -⟩ := h
      rfl
    · simp only [bind_eq_ok] at h
      obtain ⟨s₁, hrev, h⟩ := h
      have hs₁ : s₁.outbox = s.outbox := by
        rw [(insertAnswerRevision_eq hrev).2]
        rfl
      split at h <;> simp only [pure_eq_ok, Prod.mk.injEq] at h <;> obtain ⟨rfl, -⟩ := h
      · exact (revokeAcceptance_outbox q actor "answer_edited").trans hs₁
      · exact hs₁
  | remove id =>
    refine commit_induction (P := Db.Adds (Emits s c) s) (.of_eq rfl) fun s' a h => ?_
    simp only [removeTx, bind_eq_ok, pure_eq_ok, Prod.mk.injEq] at h
    obtain ⟨actor, -, ⟨a, q⟩, hlock, -, -, -, -, rfl, -⟩ := h
    obtain ⟨ha, hq⟩ := lockAnswerAndQuestion_eq_ok.mp hlock
    split
    · rw [(revokeAcceptance_id q actor "answer_deleted").1]
      exact .event_of_eq (revokeAcceptance_outbox q actor "answer_deleted") (.answerDeleted hop ha hq)
    · exact .event_of_eq rfl (.answerDeleted hop ha hq)
  | accept d dto =>
    refine commit_induction (P := Db.Adds (Emits s c) s) (.of_eq rfl) fun s' a h => ?_
    simp only [acceptTx, insertAcceptance, bind_eq_ok, authenticated_eq_ok, lockPost_eq_ok, orThrow_eq_ok,
      require_eq_ok, pure_eq_ok, Prod.mk.injEq] at h
    obtain ⟨actor, huser, q, hq, -, -, -, -, -, -, -, -, a, ha, -, hin, -, hother, -, -, _, ⟨-, -, rfl⟩, rfl, -⟩ := h
    rw [(revokeAcceptance_id q actor "replaced").1, (revokeAcceptance_id q actor "replaced").2]
    exact .event_of_eq (revokeAcceptance_outbox q actor "replaced") (.answerAccepted hop huser hq ha hin hother)
  | removeAcceptance d =>
    refine commit_induction (P := Db.Adds (Emits s c) s) (.of_eq rfl) fun s' a h => ?_
    simp only [removeAcceptanceTx, bind_eq_ok, pure_eq_ok, Prod.mk.injEq] at h
    obtain ⟨actor, -, q, -, -, -, rfl, -⟩ := h
    exact .of_eq (revokeAcceptance_outbox q actor "author_revoked")

end Answers

open CommentsService in
/-- The methods on comments emit what they may. -/
theorem comments_adds (o : CommentsOperation) (hop : c.operation = .comments o) :
    Db.Adds (Emits s c) s (o.serve c.world s c.user).state := by
  cases o with
  | findAllByDiscussion d filter => exact .of_eq rfl
  | create d dto =>
    refine attempt_induction (P := Db.Adds (Emits s c) s) (.of_eq rfl) fun prelude hprelude => ?_
    simp only [createPrelude, bind_eq_ok, pure_eq_ok, authenticated_eq_ok, lockPost_eq_ok] at hprelude
    obtain ⟨author, huser, p, hp, -, -, -, -, rfl⟩ := hprelude
    have hs := autoJoinTo_outbox s p.roomId author
    have hcontent := autoJoinTo_toContent s p.roomId author
    refine commit_induction (P := Db.Adds (Emits s c) s) (.of_eq hs) fun s' a h => ?_
    simp only [bind_eq_ok, createTx, pure_eq_ok, Prod.mk.injEq] at h
    obtain ⟨-, -, parent, hparent, s₁, hnotify, rfl, -⟩ := h
    have hnext : (RoomsService.autoJoinTo s p.roomId author).comments.next = s.comments.next :=
      congrArg (fun k : Content => k.comments.next) hcontent
    -- the parent is looked up after the membership is inserted, which does not change it
    have hparent' : parentOf s d dto = .ok parent := by
      have hcomment : ∀ k, (RoomsService.autoJoinTo s p.roomId author).comment? k = s.comment? k := fun k =>
        congrArg (fun content : Content => content.comment? k) hcontent
      rw [← hparent]
      unfold parentOf
      simp only [hcomment]
    have hemit : ∀ u ∈ MentionService.mentioned c.world dto.content author, Emits s c "mention.created"
        ([("recipientId", .uuid (Id.text u.id)), ("actorId", .uuid (Id.text author)),
          ("mentionedUsername", .str u.username)] ++ [("entityType", .str "comment"),
          ("entityId", .uuid (Id.text (RoomsService.autoJoinTo s p.roomId author).comments.next)),
          ("discussionId", .uuid d), ("discussionTitle", .str p.title)]) := by
      intro u hu
      rw [hnext]
      exact .mentionCreated huser (.comment hop hp) hu
    refine .trans ?_ (.emit hemit)
    -- one event for the author of the parent or of the post, unless they comment themselves
    unfold notify at hnotify
    split at hnotify
    · rw [← Except.ok.inj hnotify]
      exact .of_eq hs
    · next hother =>
      simp only [bind_eq_ok, pure_eq_ok] at hnotify
      obtain ⟨preview, hpreview, rfl⟩ := hnotify
      rw [newComment_id, hnext]
      exact .event_of_eq hs (.commentCreated hop huser hp hparent' hpreview hother)
  | update id dto =>
    refine commit_induction (P := Db.Adds (Emits s c) s) (.of_eq rfl) fun s' a h => .of_eq ?_
    simp only [updateTx, bind_eq_ok, pure_eq_ok, Prod.mk.injEq] at h
    obtain ⟨-, -, ⟨p, m⟩, -, -, -, -, -, rfl, -⟩ := h
    split <;> rfl
  | remove id =>
    refine commit_induction (P := Db.Adds (Emits s c) s) (.of_eq rfl) fun s' a h => .of_eq ?_
    simp only [removeTx, bind_eq_ok, pure_eq_ok, Prod.mk.injEq] at h
    obtain ⟨-, -, ⟨p, m⟩, -, -, -, -, -, rfl, -⟩ := h
    rfl

/-! ## Operations that emit nothing

Votes, tags and reviews have no events. -/

theorem setVote_outbox (type : TargetType) (id : UuidText) (v : Option VoteType) :
    (VotesService.setVote s type id user v).state.outbox = s.outbox := by
  refine commit_frame (F := fun s : Db => s.outbox) rfl fun s' r h => ?_
  simp only [VotesService.setVoteTx, bind_eq_ok, pure_eq_ok, Prod.mk.injEq] at h
  obtain ⟨u, -, target, -, -, -, -, -, -, -, -, -, rfl, -⟩ := h
  cases target <;> cases v <;> rfl

theorem tags_outbox (o : TagsOperation) : (o.serve w s user).state.outbox = s.outbox := by
  cases o <;> refine commit_frame (F := fun s : Db => s.outbox) rfl fun s' a h => ?_ <;>
    simp only [TagsService.mergeTx, bind_eq_ok, pure_eq_ok, Prod.mk.injEq] at h
  case create | update | remove =>
    obtain ⟨-, -, _, -, -, -, -, -, rfl, -⟩ := h
    rfl
  case setStatus =>
    obtain ⟨-, -, _, -, -, -, rfl, -⟩ := h
    rfl
  case merge =>
    obtain ⟨-, -, -, -, _, -, _, -, -, -, rfl, -⟩ := h
    rfl

open ModerationService in
theorem publish_outbox {p : Discussion} {decision : Decision} (h : publish w s p decision = .ok s') :
    s'.outbox = s.outbox := by
  unfold publish at h
  split at h
  · simp only [bind_eq_ok] at h
    obtain ⟨-, -, h⟩ := h
    split at h
    · next d _ =>
      simp only [applyDraft, bind_eq_ok, pure_eq_ok] at h
      obtain ⟨tags, -, rfl⟩ := h
      exact foldl_frame (F := fun s : Db => s.outbox)
        (f := fun (s' : Db) (t : UuidText) => s'.bumpTag (delta s p.id d t) t.id) (fun _ _ => rfl) _ _
    · rw [← pure_eq_ok.mp h]
  · rw [← Except.ok.inj h]

open ModerationService in
theorem review_outbox (id : UuidText) (dto : ReviewContentDto) : (review w s id dto user).state.outbox = s.outbox := by
  refine commit_frame (F := fun s : Db => s.outbox) rfl fun s' r h => ?_
  simp only [bind_eq_ok, reviewTx, pure_eq_ok, Prod.mk.injEq] at h
  obtain ⟨-, -, -, -, -, -, p, -, -, -, -, -, s₁, hpublish, rfl, -⟩ := h
  rw [← publish_outbox hpublish]
  show (if revokes p dto.decision then _ else _ : Db).outbox = _
  split <;> rfl

/-- **One call.** It adds to the outbox what it may emit, and changes nothing that is there. -/
theorem outbox_step (s : Db) (c : Call) : Db.Adds (Emits s c) s (s.step c) := by
  obtain ⟨w, user, o⟩ := c
  cases o with
  | rooms o => exact rooms_adds (c := ⟨w, user, .rooms o⟩) o rfl
  | discussions o => exact discussions_adds (c := ⟨w, user, .discussions o⟩) o rfl
  | answers o => exact answers_adds (c := ⟨w, user, .answers o⟩) o rfl
  | comments o => exact comments_adds (c := ⟨w, user, .comments o⟩) o rfl
  | setVote type id v => exact .of_eq (setVote_outbox type id v)
  | review id dto => exact .of_eq (review_outbox id dto)
  | tags o => exact .of_eq (tags_outbox o)

/-- An event of a run, with the call that it comes from and the state that the call found. -/
def Emitted (calls : List Call) (e : OutboxEvent) (before : List Call) (c : Call) : Prop :=
  before ++ [c] <+: calls ∧ Emits (Db.after before) c e.eventType e.payload

/-- **Every run.** Each event of the outbox comes from a call of the run. -/
theorem outbox_emitted (calls : List Call) : ∀ e ∈ (Db.after calls).outbox, ∃ before c, Emitted calls e before c := by
  induction calls using List.reverseRecOn with
  | nil => exact fun e he => absurd he List.not_mem_nil
  | append_singleton calls c ih =>
    intro e he
    have hafter : Db.after (calls ++ [c]) = (Db.after calls).step c := run_append _ calls [c]
    rw [hafter] at he
    obtain ⟨-, es, hrows, hes⟩ := outbox_step (Db.after calls) c
    have hmem : e ∈ ((Db.after calls).step c).outbox.rows := he
    rw [hrows] at hmem
    rcases List.mem_append.mp hmem with hold | hnew
    · obtain ⟨before, c', hprefix, hemits⟩ := ih e hold
      exact ⟨before, c', hprefix.trans (List.prefix_append _ _), hemits⟩
    · exact ⟨calls, c, List.prefix_rfl, (hes e hnew).2⟩

/-! ## Who is named

The fields of an event that name a user. -/

/-- The fields of an event that hold users. -/
def userFields : List String := ["recipientId", "receiverId", "actorId", "senderId"]

/-- A field of the event holds the user. -/
def namesUser (data : EventData) (u : Id) : Bool :=
  userFields.any fun field => decide (data.lookup field = some (.uuid (Id.text u)))

/-- The user of the call wants to be anonymous in what it creates. -/
def Operation.anonymous : Operation → Bool
  | .discussions (.create dto) => dto.isAnonymous.getD false
  | .answers (.create _ dto) => dto.isAnonymous.getD false
  | .comments (.create _ dto) => dto.isAnonymous.getD false
  | _ => false

/-- A post, an answer or a comment is created, or an answer is accepted. Other operations tell of nobody. -/
def Operation.authored : Operation → Bool
  | .discussions (.create _) | .answers (.create _ _) | .comments (.create _ _) | .answers (.accept _ _) => true
  | _ => false

/-- An event of this type names the user of the call. The events of a new post and of a mention do so even when the
user wants to be anonymous: the one is addressed to the author, the other has the author as its actor. -/
def Operation.showsActor (type : String) (o : Operation) : Bool :=
  if o.anonymous then decide (type = "discussion.created" ∨ type = "mention.created") else o.authored

namespace Emits

variable {type : String} {data : EventData}

/-- An event has a recipient, which is a user, or none. -/
theorem recipient (h : Emits s c type data) : data.lookup "receiverId" = none
    ∧ (data.lookup "recipientId" = none ∨ ∃ r, data.lookup "recipientId" = some (.uuid (Id.text r))) := by
  cases h with
  | roomCreated | rulesChanged | discussionDeleted | answerDeleted => exact ⟨rfl, .inl rfl⟩
  | discussionCreated | answerCreated | answerAccepted | commentAccepted | commentCreated => exact ⟨rfl, .inr ⟨_, rfl⟩⟩
  | mentionCreated huser hin hu => cases hin <;> exact ⟨rfl, .inr ⟨_, rfl⟩⟩

/-- Nobody is told of what they did, but for the posts that they create. -/
theorem recipient_ne (h : Emits s c type data) {r u : Id} (hr : data.lookup "recipientId" = some (.uuid (Id.text r)))
    (huser : c.user.id = some u) (htype : type ≠ "discussion.created") : r ≠ u := by
  rintro rfl
  cases h with
  | roomCreated | rulesChanged | discussionDeleted | answerDeleted => cases hr
  | discussionCreated => exact htype rfl
  | answerCreated _ huser' _ hother | commentCreated _ huser' _ _ _ hother | answerAccepted _ huser' _ _ _ hother =>
    cases hr
    exact hother (Option.some.inj (huser.symm.trans huser'))
  | commentAccepted _ _ howner _ hother =>
    cases hr
    exact hother (Option.some.inj (huser.symm.trans howner))
  | mentionCreated huser' hin hu =>
    -- the users that are mentioned are others than the author
    cases hr
    obtain rfl := Option.some.inj (huser.symm.trans huser')
    unfold MentionService.mentioned at hu
    split at hu
    · exact absurd hu List.not_mem_nil
    · exact of_decide_eq_true (List.mem_filter.mp hu).2 rfl

/-- **The user of the call.** What decides is the operation, whether the user wants to be anonymous in it, and whether
the event is one of the two that leak the author. -/
theorem names (h : Emits s c type data) {u : Id} (huser : c.user.id = some u) :
    namesUser data u = c.operation.showsActor type := by
  have hrecipient := fun r hr => h.recipient_ne (r := r) hr huser
  cases h with
  | roomCreated hop | rulesChanged hop | discussionDeleted hop | answerDeleted hop =>
    rw [hop]
    rfl
  -- the recipient of this event is the author
  | discussionCreated hop huser' =>
    rw [hop]
    obtain rfl := Option.some.inj (huser.symm.trans huser')
    simp [namesUser, userFields, Operation.showsActor, Operation.authored, List.lookup_cons]
  | answerAccepted hop huser' =>
    rw [hop]
    obtain rfl := Option.some.inj (huser.symm.trans huser')
    simp [namesUser, userFields, Operation.showsActor, Operation.anonymous, Operation.authored, List.lookup_cons]
  -- the actor of this event is the author, anonymous or not
  | mentionCreated huser' hin =>
    obtain rfl := Option.some.inj (huser.symm.trans huser')
    cases hin with
    | answer hop | comment hop =>
      rw [hop]
      simp [namesUser, userFields, Operation.showsActor, Operation.authored, List.lookup_cons]
  -- the recipient wrote the comment, and is not the user
  | commentAccepted hop =>
    rw [hop]
    have hne := hrecipient _ rfl (by decide)
    simp [namesUser, userFields, Operation.showsActor, Operation.anonymous, Operation.authored, List.lookup_cons, hne]
  | answerCreated hop huser' | commentCreated hop huser' =>
    rw [hop]
    obtain rfl := Option.some.inj (huser.symm.trans huser')
    have hne := hrecipient _ rfl (by decide)
    simp only [namesUser, userFields, Operation.showsActor, Operation.anonymous, Operation.authored]
    split <;> simp_all [List.lookup_cons]

end Emits

/-- Each event of the outbox comes from a call of the run. It goes to somebody else than the user of the call, unless it
tells of a post that the user has created. If the user wants to be anonymous, the event names the user exactly when it
tells of a new post or of a mention. If not, it names the user exactly when the call creates a post, an answer or a
comment or accepts an answer. -/
theorem outbox_names (calls : List Call) : ∀ e ∈ (Db.after calls).outbox, ∃ before c, Emitted calls e before c
    ∧ ∀ u, c.user.id = some u →
      (e.eventType ≠ "discussion.created" → e.payload.lookup "recipientId" ≠ some (.uuid (Id.text u)))
        ∧ (c.operation.anonymous = true → (namesUser e.payload u = true
            ↔ e.eventType = "discussion.created" ∨ e.eventType = "mention.created"))
        ∧ (c.operation.anonymous = false → namesUser e.payload u = c.operation.authored) := by
  intro e he
  obtain ⟨before, c, hemitted⟩ := outbox_emitted calls e he
  refine ⟨before, c, hemitted, fun u huser => ⟨fun htype hr => ?_, fun hanonymous => ?_, fun hnamed => ?_⟩⟩
  · exact hemitted.2.recipient_ne hr huser htype rfl
  · rw [hemitted.2.names huser, Operation.showsActor, if_pos hanonymous, decide_eq_true_iff]
  · rw [hemitted.2.names huser, Operation.showsActor, if_neg (Bool.eq_false_iff.mp hnamed)]

theorem outbox_names_asked :
    ∃ e ∈ (Db.after [Sample.openForum, Sample.ask]).outbox, ∃ before c, Emitted [Sample.openForum, Sample.ask] e before c
      ∧ ∀ u, c.user.id = some u →
        (e.eventType ≠ "discussion.created" → e.payload.lookup "recipientId" ≠ some (.uuid (Id.text u)))
          ∧ (c.operation.anonymous = true → (namesUser e.payload u = true
              ↔ e.eventType = "discussion.created" ∨ e.eventType = "mention.created"))
          ∧ (c.operation.anonymous = false → namesUser e.payload u = c.operation.authored) := by
  have hevent : ∃ e ∈ (Db.after [Sample.openForum, Sample.ask]).outbox.rows, e.eventType = "discussion.created" := by decide
  obtain ⟨e, he, -⟩ := hevent
  exact ⟨e, he, outbox_names _ e he⟩

end AcaSocial
