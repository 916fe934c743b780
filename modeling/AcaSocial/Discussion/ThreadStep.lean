import AcaSocial.Discussion.Thread

/-!
# Steps of a thread

What one call can do to one thread, said once: `ThreadStep` has a constructor for every way in
which an operation changes a thread, with the guards that it has passed and the thread that it
leaves. `thread_step` shows that the service refines this: whatever the call, each thread makes
a step. An invariant of threads is then proved by cases on `ThreadStep`, with no look at the
services.
-/

namespace AcaSocial

/-- The thread carries the live post `p`. -/
def Thread.Live (t : Thread) (p : Discussion) : Prop := t.post = some p ∧ p.deletedAt = none

/-- A thread has one post. -/
theorem Thread.Live.unique {t : Thread} {p q : Discussion} (hp : t.Live p) (hq : t.Live q) :
    p = q := Option.some.inj (hp.1.symm.trans hq.1)

namespace Thread

variable {t : Thread} {p q : Discussion}

/-- A post that is saved is the one of its thread, unless it is deleted. -/
@[simp] theorem live_savePost : (t.savePost q).Live p ↔ q = p ∧ q.deletedAt = none := by
  constructor
  · rintro ⟨h, hlive⟩
    obtain rfl : q = p := Option.some.inj h
    exact ⟨rfl, hlive⟩
  · rintro ⟨rfl, hlive⟩
    exact ⟨rfl, hlive⟩

@[simp] theorem live_setTags {ids : List Id} : (t.setTags ids).Live p ↔ t.Live p := Iff.rfl

@[simp] theorem live_setMedia {media : List DiscussionMedia} :
    (t.setMedia media).Live p ↔ t.Live p := Iff.rfl

@[simp] theorem live_saveComment {m : Comment} : (t.saveComment m).Live p ↔ t.Live p := Iff.rfl

@[simp] theorem live_saveAnswer {a : Answer} : (t.saveAnswer a).Live p ↔ t.Live p := Iff.rfl

@[simp] theorem live_revoke {now : Time} {actor : Id} {reason : String} :
    (t.revoke now actor reason).Live p ↔ t.Live p := Iff.rfl

end Thread

/-- A post is found when its thread is live. -/
theorem post?_iff_live {s : Db} {i : Id} {p : Discussion} :
    s.post? i = some p ↔ (s.thread i).Live p := by
  simp [Content.post?, Option.filter_eq_some_iff, Thread.Live, Content.thread]

open DiscussionsService AnswersService CommentsService

/-- `ThreadStep s c i t t'`: the call `c`, in the state `s`, may turn the thread `t` of the
discussion `i` into `t'`. -/
inductive ThreadStep (s : Db) (c : Call) (i : Id) (t : Thread) : Thread → Prop where
  | same : ThreadStep s c i t t
  | created {dto : CreateDiscussionDto} {author : Id} {selected : Option AcademicContext}
      {room : PostContext} {tags : List Tag}
      (hop : c.operation = .discussions (.create dto))
      (huser : c.user.id = some author)
      (hnew : i = s.discussions.next ∧ t.post = none)
      (hroom : RoomsService.assertCanPost c.world (RoomsService.autoJoin s dto.roomId.id author)
        dto.roomId.id c.user = .ok room)
      (htags : DiscussionsService.tags s (dto.tagIds.getD []).eraseDups unavailableTags
        = .ok tags) :
      ThreadStep s c i t (((t.savePost (newPost c.world author dto selected room i)).setTags
        (tags.map (·.id))).setMedia (attached i (dto.mediaIds.getD [])))
  | viewed {p : Discussion} {id : UuidText}
      (hop : c.operation = .discussions (.findOne id))
      (hp : t.Live p) :
      ThreadStep s c i t (t.savePost { p with viewCount := p.viewCount + 1 })
  | drafted {p : Discussion} {id : UuidText} {dto : UpdateDiscussionDto}
      {policy : Option PostContext}
      (hop : c.operation = .discussions (.update id dto) ∧ id.id = i)
      (hp : t.Live p) (hmanage : canManage p.authorId c.user) (hopen : p.status ≠ .closed)
      (hpolicy : RoomsService.assertCanPostTo c.world
        (RoomsService.autoJoinTo s p.roomId p.authorId) p.roomId ⟨some p.authorId, c.user.role⟩
        = .ok policy)
      (hversion : ∀ v ∈ dto.expectedVersion, p.contentVersion = v)
      (hdrafts : drafts policy p dto) :
      ThreadStep s c i t (t.savePost (withDraft p (DiscussionsService.draftOf s p dto)))
  | edited {p : Discussion} {id : UuidText} {dto : UpdateDiscussionDto}
      {policy : Option PostContext} {editor : Id} {tagIds : List Id}
      (hop : c.operation = .discussions (.update id dto) ∧ id.id = i)
      (hp : t.Live p) (hmanage : canManage p.authorId c.user) (hopen : p.status ≠ .closed)
      (hpolicy : RoomsService.assertCanPostTo c.world
        (RoomsService.autoJoinTo s p.roomId p.authorId) p.roomId ⟨some p.authorId, c.user.role⟩
        = .ok policy)
      (hversion : ∀ v ∈ dto.expectedVersion, p.contentVersion = v)
      (hdrafts : drafts policy p dto = false)
      (htags : (dto.tagIds = none ∧ tagIds = t.tagIds)
        ∨ ∃ ids tags, dto.tagIds = some ids
          ∧ DiscussionsService.tags s ids.eraseDups unavailableTags = .ok tags
          ∧ tagIds = tags.map (·.id)) :
      ThreadStep s c i t (((((if contentChanged p dto ∧ p.acceptedAnswerId.isSome then
          t.revoke c.world.now editor "question_edited" else t).setTags tagIds).savePost
        (editedPost dto policy p)).setMedia ((dto.mediaIds.map (attached i)).getD t.media)))
  | removed {p : Discussion} {id : UuidText}
      (hop : c.operation = .discussions (.remove id) ∧ id.id = i)
      (hp : t.Live p) (hmanage : canManage p.authorId c.user) :
      ThreadStep s c i t (t.savePost { p with deletedAt := some c.world.now })
  | commentAccepted {p : Discussion} {id commentId : UuidText} {a : Comment}
      (hop : c.operation = .discussions (.acceptAnswer id commentId) ∧ id = Id.text i)
      (hp : t.Live p) (happroved : approved p) (hquestion : p.postType = .question)
      (howner : c.user.id = some p.authorId) (hopen : p.status ≠ .closed)
      (ha : t.comment? commentId.id = some a) (hroot : a.parentCommentId = none)
      (hauthor : a.authorId ≠ p.authorId) (hother : p.acceptedCommentId ≠ some a.id) :
      ThreadStep s c i t
        (t.savePost { p with acceptedCommentId := some a.id, status := .solved })
  | acceptedCommentRemoved {p : Discussion} {id : UuidText}
      (hop : c.operation = .discussions (.removeAcceptedAnswer id) ∧ id.id = i)
      (hp : t.Live p) (hquestion : p.postType = .question)
      (howner : c.user.id = some p.authorId) (hopen : p.status ≠ .closed) :
      ThreadStep s c i t (t.savePost { p with acceptedCommentId := none, status := .open })
  | statusSet {p : Discussion} {id : UuidText} {status : PostStatus}
      (hop : c.operation = .discussions (.setStatus id status) ∧ id.id = i)
      (hp : t.Live p) (huser : c.user.id.isSome ∧ c.user.isModerator)
      (hstatus : status = .open ∨ status = .closed) :
      ThreadStep s c i t (t.savePost (withStatus p status))
  | answerCreated {p : Discussion} {d : UuidText} {dto : CreateAnswerDto} {author k : Id}
      (hop : c.operation = .answers (.create d dto) ∧ d.id = i)
      (hp : t.Live p) (huser : c.user.id = some author) (hopen : p.status ≠ .closed)
      (happroved : approved p) (hquestion : p.postType = .question)
      (hnew : k = s.answers.next) :
      ThreadStep s c i t ((t.insertAnswer (newAnswer c.world i dto author k)).savePost
        { p with answerCount := p.answerCount + 1 })
  | answerUpdated {p : Discussion} {a : Answer} {id : UuidText} {dto : UpdateAnswerDto}
      (hop : c.operation = .answers (.update id dto))
      (hp : t.Live p) (ha : t.answer? id.id = some a) (hmanage : canManage a.authorId c.user)
      (hopen : p.status ≠ .closed) (hversion : a.contentVersion = dto.expectedVersion)
      (hchanged : a.content ≠ dto.content)
      (hkept : ¬ (dto.revisionType = .semantic ∧ p.acceptedAnswerId = some a.id)) :
      ThreadStep s c i t (t.saveAnswer (revised a dto.content))
  | acceptedAnswerUpdated {p : Discussion} {a : Answer} {id : UuidText} {dto : UpdateAnswerDto}
      {actor : Id}
      (hop : c.operation = .answers (.update id dto))
      (hp : t.Live p) (ha : t.answer? id.id = some a) (hmanage : canManage a.authorId c.user)
      (hopen : p.status ≠ .closed) (hversion : a.contentVersion = dto.expectedVersion)
      (hchanged : a.content ≠ dto.content)
      (haccepted : dto.revisionType = .semantic ∧ p.acceptedAnswerId = some a.id) :
      ThreadStep s c i t (((t.saveAnswer (revised a dto.content)).revoke c.world.now actor
        "answer_edited").savePost (withdrawn p))
  | answerRemoved {p : Discussion} {a : Answer} {id : UuidText}
      (hop : c.operation = .answers (.remove id))
      (hp : t.Live p) (ha : t.answer? id.id = some a) (hmanage : canManage a.authorId c.user)
      (hopen : p.status ≠ .closed) (hkept : p.acceptedAnswerId ≠ some a.id) :
      ThreadStep s c i t ((t.saveAnswer { a with deletedAt := some c.world.now }).savePost
        { p with answerCount := max 0 (p.answerCount - 1) })
  | acceptedAnswerRemoved {p : Discussion} {a : Answer} {id : UuidText} {actor : Id}
      (hop : c.operation = .answers (.remove id))
      (hp : t.Live p) (ha : t.answer? id.id = some a) (hmanage : canManage a.authorId c.user)
      (hopen : p.status ≠ .closed) (haccepted : p.acceptedAnswerId = some a.id) :
      ThreadStep s c i t (((t.revoke c.world.now actor "answer_deleted").saveAnswer
        { a with deletedAt := some c.world.now }).savePost
        { withdrawn p with answerCount := max 0 (p.answerCount - 1) })
  | answerAccepted {p : Discussion} {a : Answer} {d : UuidText} {dto : AcceptAnswerDto}
      {actor k : Id}
      (hop : c.operation = .answers (.accept d dto) ∧ d.id = i)
      (hp : t.Live p) (huser : c.user.id = some actor) (hopen : p.status ≠ .closed)
      (hquestion : p.postType = .question) (hcan : canAccept p c.user) (happroved : approved p)
      (ha : t.answer? dto.answerId.id = some a) (hauthor : a.authorId ≠ actor)
      (hversions : p.contentVersion = dto.expectedQuestionVersion
        ∧ a.contentVersion = dto.expectedAnswerVersion)
      (hnew : k = s.acceptances.next) :
      ThreadStep s c i t (((if p.acceptedAnswerId.isSome then
          t.revoke c.world.now actor "replaced" else t).insertAcceptance
        (newAcceptance c.world p a actor k)).savePost (solvedBy p a))
  | acceptanceRemoved {p : Discussion} {d : UuidText} {actor : Id}
      (hop : c.operation = .answers (.removeAcceptance d) ∧ d.id = i)
      (hp : t.Live p) (hcan : canAccept p c.user) (haccepted : p.acceptedAnswerId.isSome) :
      ThreadStep s c i t ((t.revoke c.world.now actor "author_revoked").savePost (withdrawn p))
  | commentCreated {p : Discussion} {d : UuidText} {dto : CreateCommentDto} {author k : Id}
      {parent : Option Comment}
      (hop : c.operation = .comments (.create d dto) ∧ d.id = i)
      (hp : t.Live p) (huser : c.user.id = some author) (hopen : p.status ≠ .closed)
      (happroved : approved p) (hparent : parentOf s d dto = .ok parent)
      (hnew : k = s.comments.next) :
      ThreadStep s c i t ((t.insertComment (newComment c.world i dto author parent k)).savePost
        { p with commentCount := p.commentCount + 1 })
  | commentUpdated {p : Discussion} {m : Comment} {id : UuidText} {dto : UpdateCommentDto}
      (hop : c.operation = .comments (.update id dto))
      (hp : t.Live p) (hm : t.comment? id.id = some m) (hopen : p.status ≠ .closed)
      (hmanage : canManage m.authorId c.user)
      (hkept : ¬ (CommentsService.contentChanged m dto
        ∧ p.acceptedCommentId.map Id.text = some id)) :
      ThreadStep s c i t (t.saveComment (CommentsService.edited m dto))
  | acceptedCommentUpdated {p : Discussion} {m : Comment} {id : UuidText}
      {dto : UpdateCommentDto}
      (hop : c.operation = .comments (.update id dto))
      (hp : t.Live p) (hm : t.comment? id.id = some m) (hopen : p.status ≠ .closed)
      (hmanage : canManage m.authorId c.user)
      (haccepted : CommentsService.contentChanged m dto
        ∧ p.acceptedCommentId.map Id.text = some id) :
      ThreadStep s c i t
        ((t.savePost (unsolved p)).saveComment (CommentsService.edited m dto))
  | commentRemoved {p : Discussion} {m : Comment} {id : UuidText}
      (hop : c.operation = .comments (.remove id))
      (hp : t.Live p) (hm : t.comment? id.id = some m) (hopen : p.status ≠ .closed)
      (hmanage : canManage m.authorId c.user) :
      ThreadStep s c i t ((t.saveComment { m with deletedAt := some c.world.now }).savePost
        (uncommented p id))
  | postVoted {p : Discussion} {up down : Nat} {id : UuidText} {v : Option VoteType}
      (hop : c.operation = .setVote .discussion id v ∧ id.id = i)
      (hp : t.Live p) (hopen : p.status ≠ .closed) (happroved : approved p) :
      ThreadStep s c i t (t.savePost { p with upvoteCount := up, downvoteCount := down })
  | commentVoted {p : Discussion} {m : Comment} {up down : Nat} {id : UuidText}
      {v : Option VoteType}
      (hop : c.operation = .setVote .comment id v)
      (hp : t.Live p) (hm : t.comment? id.id = some m) (hopen : p.status ≠ .closed)
      (happroved : approved p) :
      ThreadStep s c i t (t.saveComment { m with upvoteCount := up, downvoteCount := down })
  | answerVoted {p : Discussion} {a : Answer} {up down : Nat} {id : UuidText}
      {v : Option VoteType}
      (hop : c.operation = .setVote .answer id v)
      (hp : t.Live p) (ha : t.answer? id.id = some a) (hopen : p.status ≠ .closed)
      (happroved : approved p) :
      ThreadStep s c i t (t.saveAnswer { a with upvoteCount := up, downvoteCount := down })
  | reviewed {p : Discussion} {id : UuidText} {dto : ReviewContentDto} {actor : Id}
      {reason : String} {tagIds : List Id} {media : List DiscussionMedia}
      (hop : c.operation = .review id dto ∧ id.id = i)
      (hp : t.Live p) (huser : c.user.id = some actor)
      (hstate : p.moderationStatus = dto.expectedModerationStatus.getD .pending
        ∧ p.contentVersion = dto.expectedVersion
        ∧ ModerationService.reviewedContent p = dto.expectedContent)
      (hkept : dto.decision ≠ .allow ∨ ModerationService.draftOf p = none →
        tagIds = t.tagIds ∧ media = t.media)
      (hdraft : ∀ d, dto.decision = .allow → ModerationService.draftOf p = some d →
        media = attached i d.mediaIds ∧ ∃ tags e,
          DiscussionsService.tags s d.tagIds e = .ok tags ∧ tagIds = tags.map (·.id)) :
      ThreadStep s c i t ((((if ModerationService.revokes p dto.decision then
          t.revoke c.world.now actor reason else t).setTags tagIds).setMedia media).savePost
        (ModerationService.reviewedPost p dto))
  | tagMerged {id target : UuidText} {tagIds : List Id}
      (hop : c.operation = .tags (.merge id target)) :
      ThreadStep s c i t (t.setTags tagIds)
  | tagRemoved {id : UuidText} {tagIds : List Id}
      (hop : c.operation = .tags (.remove id)) (hdead : ∀ p, ¬ t.Live p) :
      ThreadStep s c i t (t.setTags tagIds)

end AcaSocial
