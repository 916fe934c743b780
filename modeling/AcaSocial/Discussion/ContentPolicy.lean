import AcaSocial.Base.Guard
import AcaSocial.Discussion.Entities

/-!
# Content policy

`common/content-policy.ts`: who may read and manage content, and the lookups with which every
mutation starts. TypeORM leaves soft-deleted rows out of its reads, so `post?`, `comment?` and
`answer?` see the live rows only.

The second half are the writes that the services share: saving an entity, recording a revision,
appending an event to the outbox.
-/

namespace AcaSocial

/-- `['admin', 'moderator'].includes(user.role ?? '')`. -/
def GatewayUser.isModerator (user : GatewayUser) : Bool :=
  decide (user.role = some .admin ∨ user.role = some .moderator)

/-- A visitor without an account. -/
def guest : GatewayUser := ⟨none, none⟩

/-! ## Reads

The tables are searched for rows that are not deleted. -/

namespace Content

/-- The live discussion with id `i`. -/
def post? (s : Content) (i : Id) : Option Discussion :=
  (s.discussions.get? i).filter (·.deletedAt.isNone)

/-- The live comment with id `i`. -/
def comment? (s : Content) (i : Id) : Option Comment :=
  (s.comments.get? i).filter (·.deletedAt.isNone)

/-- The live answer with id `i`. -/
def answer? (s : Content) (i : Id) : Option Answer :=
  (s.answers.get? i).filter (·.deletedAt.isNone)

/-- The tags that `discussion_tags` links to a discussion. -/
def tagIdsOf (s : Content) (discussionId : Id) : List Id :=
  (s.discussionTags.select fun l => decide (l.discussionId = discussionId)).map (·.tagId)

/-- The media that are attached to a discussion. -/
def mediaOf (s : Content) (discussionId : Id) : List DiscussionMedia :=
  s.media.filter fun a => decide (a.discussionId = discussionId)

/-- A post is found by its id if it is not deleted. -/
theorem post?_eq_some {s : Content} {i : Id} {p : Discussion} :
    s.post? i = some p ↔ p ∈ s.discussions ∧ p.id = i ∧ p.deletedAt = none := by
  simp [post?, Option.filter_eq_some_iff, Table.get?_eq_some, Serial.mem_toTable, and_assoc]

/-- A comment is found by its id if it is not deleted. -/
theorem comment?_eq_some {s : Content} {i : Id} {c : Comment} :
    s.comment? i = some c ↔ c ∈ s.comments ∧ c.id = i ∧ c.deletedAt = none := by
  simp [comment?, Option.filter_eq_some_iff, Table.get?_eq_some, Serial.mem_toTable, and_assoc]

/-- An answer is found by its id if it is not deleted. -/
theorem answer?_eq_some {s : Content} {i : Id} {a : Answer} :
    s.answer? i = some a ↔ a ∈ s.answers ∧ a.id = i ∧ a.deletedAt = none := by
  simp [answer?, Option.filter_eq_some_iff, Table.get?_eq_some, Serial.mem_toTable, and_assoc]

end Content

/-! ## Guards

The checks that the methods share, each with the condition under which it is passed. -/

def authenticated (user : GatewayUser) : Except HttpError Id :=
  orThrow user.id (.unauthorized "Authentication required")

/-- `approved(content)`: pending content is approved as long as it is visible. -/
def approved (post : Discussion) : Bool :=
  decide ((post.moderationStatus = .pending ∨ post.moderationStatus = .approved)
    ∧ post.visibility = .visible)

def requireReadable (post : Discussion) (user : GatewayUser) : Except HttpError Unit :=
  require (approved post ∨ user.isModerator ∨ user.id = some post.authorId)
    (.notFound "Content not found")

def requireApproved (post : Discussion) : Except HttpError Unit :=
  require (approved post) (.badRequest "Post awaits approval")

def canManage (authorId : Id) (user : GatewayUser) : Bool :=
  decide (user.id.isSome ∧ (user.id = some authorId ∨ user.isModerator))

def requireManager (authorId : Id) (user : GatewayUser) : Except HttpError Unit := do
  let _ ← authenticated user
  require (canManage authorId user) (.forbidden "You cannot modify this content")

def requireOpen (post : Discussion) : Except HttpError Unit :=
  require (post.status ≠ .closed) (.badRequest "This discussion is closed")

/-- All mutations lock the post first, then its children. -/
def lockPost (s : Db) (id : Id) : Except HttpError Discussion :=
  orThrow (s.post? id) (.notFound "Discussion not found")

def lockCommentPost (s : Db) (id : Id) : Except HttpError (Discussion × Comment) := do
  let found ← orThrow (s.comment? id) (.notFound "Comment not found")
  let post ← lockPost s found.discussionId
  let comment ← orThrow (s.comment? id) (.notFound "Comment not found")
  return (post, comment)

@[simp] theorem authenticated_eq_ok {user : GatewayUser} {i : Id} :
    authenticated user = .ok i ↔ user.id = some i := orThrow_eq_ok

/-- A post may be read when it is approved, and by moderators and its author. -/
@[simp] theorem requireReadable_eq_ok {post : Discussion} {user : GatewayUser} {u : Unit} :
    requireReadable post user = .ok u
      ↔ approved post ∨ user.isModerator ∨ user.id = some post.authorId := require_eq_ok

@[simp] theorem requireApproved_eq_ok {post : Discussion} {u : Unit} :
    requireApproved post = .ok u ↔ approved post := require_eq_ok

@[simp] theorem requireOpen_eq_ok {post : Discussion} {u : Unit} :
    requireOpen post = .ok u ↔ post.status ≠ .closed := require_eq_ok

@[simp] theorem lockPost_eq_ok {s : Db} {i : Id} {p : Discussion} :
    lockPost s i = .ok p ↔ s.post? i = some p := orThrow_eq_ok

/-- Moderators and the author manage a row. -/
theorem canManage_iff {authorId : Id} {user : GatewayUser} :
    canManage authorId user
      ↔ user.id.isSome ∧ (user.id = some authorId ∨ user.isModerator) := by
  simp [canManage]

@[simp] theorem requireManager_eq_ok {authorId : Id} {user : GatewayUser} {u : Unit} :
    requireManager authorId user = .ok u ↔ canManage authorId user := by
  simp only [requireManager, bind_eq_ok, authenticated_eq_ok, require_eq_ok]
  refine ⟨by rintro ⟨_, _, h⟩; exact h, fun h => ?_⟩
  obtain ⟨i, hi⟩ := Option.isSome_iff_exists.mp (canManage_iff.mp h).1
  exact ⟨i, hi, h⟩

/-- A comment is locked with its post. -/
@[simp] theorem lockCommentPost_eq_ok {s : Db} {i : Id} {p : Discussion} {c : Comment} :
    lockCommentPost s i = .ok (p, c)
      ↔ s.comment? i = some c ∧ s.post? c.discussionId = some p := by
  simp only [lockCommentPost, bind_eq_ok, orThrow_eq_ok, lockPost_eq_ok, pure_eq_ok,
    Prod.mk.injEq]
  constructor
  · rintro ⟨c', hc', p', hp', c'', hc'', rfl, rfl⟩
    obtain rfl : c' = c'' := Option.some.inj (hc'.symm.trans hc'')
    exact ⟨hc', hp'⟩
  · rintro ⟨hc, hp⟩
    exact ⟨c, hc, p, hp, c, hc, rfl, rfl⟩

/-! ## Shared writes

The writes that several methods share. -/

namespace Db

/-- `manager.save(post)`. -/
def savePost (s : Db) (post : Discussion) : Db :=
  { s with discussions := s.discussions.save post }

/-- The post that was saved is found. -/
theorem post?_savePost {s : Db} {i : Id} {p p' : Discussion} (hp : s.post? i = some p) (hid : p'.id = p.id)
    (hlive : p'.deletedAt = none) : (s.savePost p').post? i = some p' := by
  obtain ⟨hmem, hi, -⟩ := Content.post?_eq_some.mp hp
  have hget : s.discussions.get? p'.id = some p := Table.get?_eq_some.mpr ⟨hmem, hid.symm⟩
  rw [Content.post?, savePost, ← hi, ← hid, Serial.save_toTable, Table.get?_save_self hget]
  simp [Option.filter, hlive]

/-- `manager.save(comment)`. -/
def saveComment (s : Db) (comment : Comment) : Db :=
  { s with comments := s.comments.save comment }

/-- `manager.save(answer)`. -/
def saveAnswer (s : Db) (answer : Answer) : Db :=
  { s with answers := s.answers.save answer }

/-- `manager.save` of a new post. -/
def insertPost (s : Db) (mk : Id → Discussion) (hmk : ∀ k, (mk k).id = k) : Db :=
  { s with discussions := s.discussions.insert mk hmk }

/-- `manager.save` of a new comment. -/
def insertComment (s : Db) (mk : Id → Comment) (hmk : ∀ k, (mk k).id = k) : Db :=
  { s with comments := s.comments.insert mk hmk }

/-- `manager.save` of a new answer. -/
def insertAnswer (s : Db) (mk : Id → Answer) (hmk : ∀ k, (mk k).id = k) : Db :=
  { s with answers := s.answers.insert mk hmk }

/-- `manager.save` of a new acceptance. -/
def insertAcceptance (s : Db) (mk : Id → AnswerAcceptance) (hmk : ∀ k, (mk k).id = k) : Db :=
  { s with acceptances := s.acceptances.insert mk hmk }

/-- `OutboxService.event`. -/
def event (s : Db) (eventType : String) (data : EventData) : Db :=
  { s with outbox := s.outbox.insert (fun i => ⟨i, eventType, data⟩) fun _ => rfl }

/-- `manager.save(DiscussionRevision, …)`, under `UNIQUE(discussion_id, content_version)`. -/
def insertRevision (s : Db) (r : DiscussionRevision) : Except HttpError Db := do
  require (s.revisions.get? (r.discussionId, r.contentVersion) = none)
    (.internal "duplicate key value violates unique constraint")
  return { s with revisions := s.revisions.insert r }

/-- `manager.save(AnswerRevision, …)`, under `UNIQUE(answer_id, content_version)`. -/
def insertAnswerRevision (s : Db) (r : AnswerRevision) : Except HttpError Db := do
  require (s.answerRevisions.get? (r.answerId, r.contentVersion) = none)
    (.internal "duplicate key value violates unique constraint")
  return { s with answerRevisions := s.answerRevisions.insert r }

/-- The rows of `answer_acceptances` of a discussion that are not revoked. -/
def activeAcceptances (s : Db) (discussionId : Id) : List AnswerAcceptance :=
  s.acceptances.select fun r => decide (r.discussionId = discussionId ∧ r.revokedAt = none)

/-- An acceptance after the acceptances of a discussion have been revoked. -/
def revokedRow (discussionId : Id) (now : Time) (actor : Id) (reason : String)
    (r : AnswerAcceptance) : AnswerAcceptance :=
  if r.discussionId = discussionId ∧ r.revokedAt = none then
    { r with revokedAt := some now, revokedBy := some actor, revokeReason := some reason }
  else r

@[simp] theorem revokedRow_id (discussionId : Id) (now : Time) (actor : Id) (reason : String)
    (r : AnswerAcceptance) : (revokedRow discussionId now actor reason r).id = r.id := by
  unfold revokedRow; split <;> rfl

/-- `manager.update(AnswerAcceptance, { discussionId, revokedAt: IsNull() }, …)`. -/
def revokeAcceptances (s : Db) (discussionId : Id) (now : Time) (actor : Id) (reason : String) :
    Db :=
  { s with
    acceptances := s.acceptances.modify (revokedRow discussionId now actor reason)
      (revokedRow_id discussionId now actor reason) }

/-- `UPDATE tags SET usage_count = GREATEST(usage_count + $1, 0) WHERE id = $2`. -/
def bumpTag (s : Db) (delta : Int) (tagId : Id) : Db :=
  { s with
    tags := s.tags.modify
      (fun t => if t.id = tagId then { t with usageCount := max (t.usageCount + delta) 0 } else t)
      (by intro t; split <;> rfl) }

/-- Save the relation `tags` of a discussion: its links are exactly those to `tagIds`. -/
def setTags (s : Db) (discussionId : Id) (tagIds : List Id) : Db :=
  { s with
    discussionTags := tagIds.foldl (fun links t => links.insert ⟨discussionId, t⟩)
      (s.discussionTags.erase fun l => decide (l.discussionId = discussionId)) }

/-- `DELETE` and `INSERT` of the rows of `discussion_media` of a discussion. -/
def setMedia (s : Db) (discussionId : Id) (mediaIds : List UuidText) : Db :=
  { s with
    media := (s.media.filter fun a => decide (a.discussionId ≠ discussionId))
      ++ mediaIds.zipIdx.map fun (m, sortOrder) => ⟨discussionId, m.id, sortOrder⟩ }

end Db

end AcaSocial
