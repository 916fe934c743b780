import AcaSocial.Discussion.ContentPresenter
import AcaSocial.Discussion.RoomsService

/-!
# Comments and votes

`comments/comments.service.ts` and `votes/votes.service.ts`. The comments of a post form a
forest; a deleted comment keeps its place as long as it has replies.

Several checks compare an id of the database with the text of the path, and so fail for a path
that spells a uuid in upper case.
-/

namespace AcaSocial

inductive CommentKind where
  | reply | answer | comment
  deriving DecidableEq

/-- An element of the response of `findAllByDiscussion`. -/
structure CommentItem extends CommentView where
  kind : CommentKind
  replyCount : Nat
  canAccept : Bool
  deriving DecidableEq

namespace CommentsService

/-! ## Reads

Levels of the tree, page by page. -/

/-- Deleted rows count: the subquery is raw SQL. -/
def replyCount (s : Db) (id : Id) : Nat :=
  (s.comments.select fun c => decide (c.parentCommentId = some id)).length

/-- The condition of the query of `findAllByDiscussion`, which includes deleted rows. -/
def listed (s : Db) (discussionId : Id) (parent : Option Id) (c : Comment) : Bool :=
  decide (c.discussionId = discussionId ∧ c.parentCommentId = parent
    ∧ (c.deletedAt = none ∨ 0 < replyCount s c.id))

def sortKey (sort : SortBy) (c : Comment) : SortKey where
  rank := if sort = .mostVotes then (c.upvoteCount : Int) - c.downvoteCount else 0
  createdAt := c.createdAt
  id := c.id

/-- What the list adds to a comment that the presenter has shown. -/
def item (s : Db) (post : Discussion) (user : GatewayUser) (c : Comment) (view : CommentView) :
    CommentItem :=
  { view with
    kind := if view.parentCommentId.isSome then .reply
      else if post.postType = .question then .answer else .comment
    replyCount := replyCount s view.id
    canAccept := decide (view.deletedAt = none ∧ view.parentCommentId = none
      ∧ post.postType = .question ∧ post.status ≠ .closed ∧ user.id = some post.authorId
      ∧ some c.authorId ≠ user.id)
    canVote := view.canVote && decide (post.status ≠ .closed)
    canManage := view.canManage && decide (post.status ≠ .closed) }

def findAllByDiscussion (w : World) (s : Db) (discussionId : UuidText)
    (filter : FilterCommentDto) (user : GatewayUser) :
    Except HttpError (PaginatedResult CommentItem) := do
  let post ← orThrow (s.post? discussionId.id) (.notFound "Discussion not found")
  requireReadable post user
  RoomsService.requireVisible s post.roomId user
  require (filter.parentCommentId.all fun p =>
      (s.comments.get? p.id).any fun c => decide (c.discussionId = discussionId.id))
    (.notFound "Parent comment not found")
  let rows := (s.comments.select
      (listed s discussionId.id (filter.parentCommentId.map (·.id)))).mergeSort
    fun a b => (sortKey filter.sort a).le (decide (filter.sort = .oldest)) (sortKey filter.sort b)
  let items := pageOf filter.page filter.limit rows
  return {
    data := List.zipWith (item s post user) items (ContentPresenter.comments w s user items)
    page := filter.page
    limit := filter.limit
    totalItems := rows.length
    totalPages := totalPages rows.length filter.limit }

/-! ## Mutations

Creations, edits and removals, each as the checks before its transaction and the transaction. -/

/-- The checks of `create` before it asks for the room. -/
def createPrelude (s : Db) (discussionId : UuidText) (user : GatewayUser) :
    Except HttpError (Id × Discussion) := do
  let authorId ← authenticated user
  let post ← lockPost s discussionId.id
  requireOpen post
  requireApproved post
  return (authorId, post)

/-- The parent that a new comment names. -/
def parentOf (s : Db) (discussionId : UuidText) (dto : CreateCommentDto) :
    Except HttpError (Option Comment) :=
  match dto.parentCommentId with
  | none => .ok none
  | some p => do
    let parent ← orThrow (s.comment? p.id)
      (.badRequest "Parent comment must exist in this discussion")
    require (Id.text parent.discussionId = discussionId)
      (.badRequest "Parent comment must exist in this discussion")
    return some parent

/-- `content.replace(/\s+/g, ' ').slice(0, 180)`, which a jsonb column takes unless half a
surrogate pair is left at its end. -/
def preview (content : String) : Except HttpError String :=
  orThrow ((Text.sliceUtf16 180 (Text.collapse false content.toList)).map String.ofList)
    (.internal "invalid input syntax for type json")

/-- The event for the author of the parent or of the post, unless it is the commenter. -/
def notify (s : Db) (discussionId : UuidText) (post : Discussion) (recipientId : Id)
    (comment : Comment) : Except HttpError Db :=
  if recipientId = comment.authorId then .ok s
  else do
    let commentPreview ← preview comment.content
    return s.event "comment.created" [("commentId", .uuid (Id.text comment.id)),
      ("discussionId", .uuid discussionId), ("discussionTitle", .str post.title),
      ("recipientId", .uuid (Id.text recipientId)),
      ("actorId", if comment.isAnonymous then .null else .uuid (Id.text comment.authorId)),
      ("isAnonymous", .bool comment.isAnonymous), ("commentPreview", .str commentPreview)]

/-- The row that `create` saves. -/
def newComment (w : World) (discussionId : Id) (dto : CreateCommentDto) (authorId : Id)
    (parent : Option Comment) (id : Id) : Comment where
  id := id
  discussionId := discussionId
  authorId := authorId
  content := dto.content
  parentCommentId := parent.map (·.id)
  isAnonymous := dto.isAnonymous.getD false
  upvoteCount := 0
  downvoteCount := 0
  moderationStatus := .approved
  visibility := .visible
  createdAt := w.now
  deletedAt := none

@[simp] theorem newComment_id (w : World) (discussionId : Id) (dto : CreateCommentDto)
    (authorId : Id) (parent : Option Comment) (id : Id) :
    (newComment w discussionId dto authorId parent id).id = id := rfl

def createTx (w : World) (s : Db) (discussionId : UuidText) (dto : CreateCommentDto)
    (authorId : Id) (post : Discussion) : Except HttpError (Db × Comment) := do
  let parent ← parentOf s discussionId dto
  let comment := newComment w discussionId.id dto authorId parent
  let id := s.comments.next
  let s := s.insertComment comment (newComment_id w discussionId.id dto authorId parent)
  let s := s.savePost { post with commentCount := post.commentCount + 1 }
  let s ← notify s discussionId post ((parent.map (·.authorId)).getD post.authorId) (comment id)
  let s := MentionService.emit w s dto.content authorId
    [("entityType", .str "comment"), ("entityId", .uuid (Id.text id)),
      ("discussionId", .uuid discussionId), ("discussionTitle", .str post.title)]
  return (s, comment id)

def create (w : World) (s : Db) (discussionId : UuidText) (user : GatewayUser)
    (dto : CreateCommentDto) : Outcome Db HttpError CommentView :=
  attempt s (createPrelude s discussionId user) fun (authorId, post) =>
    let s := RoomsService.autoJoinTo s post.roomId authorId
    let body := do
      let _ ← RoomsService.assertCanPostTo w s post.roomId user
      createTx w s discussionId dto authorId post
    commit s body fun s c => .ok (ContentPresenter.comment w s user discussionId c)

/-- A post whose accepted comment is withdrawn. -/
def unsolved (post : Discussion) : Discussion :=
  { post with acceptedCommentId := none, status := .open }

def contentChanged (comment : Comment) (dto : UpdateCommentDto) : Bool :=
  decide (∃ c ∈ dto.content, c ≠ comment.content)

/-- The fields that the edit names. -/
def edited (comment : Comment) (dto : UpdateCommentDto) : Comment :=
  let comment := if contentChanged comment dto then
      { comment with
        content := dto.content.getD comment.content
        moderationStatus := .approved
        visibility := .visible }
    else comment
  { comment with isAnonymous := dto.isAnonymous.getD comment.isAnonymous }

@[simp] theorem edited_id (comment : Comment) (dto : UpdateCommentDto) :
    (edited comment dto).id = comment.id := by
  unfold edited; split <;> rfl

@[simp] theorem edited_discussionId (comment : Comment) (dto : UpdateCommentDto) :
    (edited comment dto).discussionId = comment.discussionId := by
  unfold edited; split <;> rfl

def updateTx (s : Db) (id : UuidText) (user : GatewayUser) (dto : UpdateCommentDto) :
    Except HttpError (Db × Comment) := do
  let _ ← authenticated user
  let (post, comment) ← lockCommentPost s id.id
  requireOpen post
  requireManager comment.authorId user
  let s := if contentChanged comment dto ∧ post.acceptedCommentId.map Id.text = some id then
      s.savePost (unsolved post) else s
  let comment := edited comment dto
  return (s.saveComment comment, comment)

def update (w : World) (s : Db) (id : UuidText) (user : GatewayUser) (dto : UpdateCommentDto) :
    Outcome Db HttpError CommentView :=
  commit s (updateTx s id user dto) fun s c =>
    .ok (ContentPresenter.comment w s user (Id.text c.discussionId) c)

def fewerComments (post : Discussion) : Discussion :=
  { post with commentCount := max 0 (post.commentCount - 1) }

/-- The post after one of its comments is deleted. -/
def uncommented (post : Discussion) (id : UuidText) : Discussion :=
  if post.acceptedCommentId.map Id.text = some id then unsolved (fewerComments post)
  else fewerComments post

@[simp] theorem uncommented_id (post : Discussion) (id : UuidText) :
    (uncommented post id).id = post.id := by
  unfold uncommented; split <;> rfl

@[simp] theorem uncommented_acceptedAnswerId (post : Discussion) (id : UuidText) :
    (uncommented post id).acceptedAnswerId = post.acceptedAnswerId := by
  unfold uncommented; split <;> rfl

@[simp] theorem uncommented_visibility (post : Discussion) (id : UuidText) :
    (uncommented post id).visibility = post.visibility := by
  unfold uncommented; split <;> rfl

@[simp] theorem uncommented_deletedAt (post : Discussion) (id : UuidText) :
    (uncommented post id).deletedAt = post.deletedAt := by
  unfold uncommented; split <;> rfl

def removeTx (w : World) (s : Db) (id : UuidText) (user : GatewayUser) :
    Except HttpError (Db × Unit) := do
  let _ ← authenticated user
  let (post, comment) ← lockCommentPost s id.id
  requireOpen post
  requireManager comment.authorId user
  let s := s.saveComment { comment with deletedAt := some w.now }
  return (s.savePost (uncommented post id), ())

def remove (w : World) (s : Db) (id : UuidText) (user : GatewayUser) :
    Outcome Db HttpError String :=
  commit s (removeTx w s id user) fun _ _ => .ok "Comment deleted successfully"

end CommentsService

/-! ## Votes

The votes are those of `VotesService`. -/

/-- The response of `setVote`. -/
structure VoteResult where
  action : String
  voteType : Option VoteType
  upvoteCount : Nat
  downvoteCount : Nat
  deriving DecidableEq

namespace VotesService

/-- What is voted on: a post, or a comment or an answer with its post. -/
inductive Target where
  | discussion (post : Discussion)
  | comment (post : Discussion) (comment : Comment)
  | answer (post : Discussion) (answer : Answer)

namespace Target

def post : Target → Discussion
  | discussion p | comment p _ | answer p _ => p

def authorId : Target → Id
  | discussion p => p.authorId
  | comment _ c => c.authorId
  | answer _ a => a.authorId

/-- `UPDATE … SET upvote_count = up, downvote_count = down`. -/
def saveCounts (s : Db) (up down : Nat) : Target → Db
  | discussion p => s.savePost { p with upvoteCount := up, downvoteCount := down }
  | comment _ c => s.saveComment { c with upvoteCount := up, downvoteCount := down }
  | answer _ a => s.saveAnswer { a with upvoteCount := up, downvoteCount := down }

end Target

def lockTarget (s : Db) (targetType : TargetType) (targetId : Id) : Except HttpError Target :=
  match targetType with
  | .discussion => do
    let post ← lockPost s targetId
    return .discussion post
  | .comment => do
    let (post, comment) ← lockCommentPost s targetId
    return .comment post comment
  | .answer => do
    let found ← orThrow (s.answer? targetId) (.badRequest "Answer not found")
    let post ← lockPost s found.discussionId
    let locked ← orThrow (s.answer? targetId) (.badRequest "Answer not found")
    return .answer post locked

/-- The votes of one kind on a target. -/
def count (s : Db) (targetType : TargetType) (targetId : Id) (voteType : VoteType) : Nat :=
  (s.votes.select fun v => decide (v.targetType = targetType ∧ v.targetId = targetId
    ∧ v.voteType = voteType)).length

/-- `INSERT` or `UPDATE` of the requested vote, or `DELETE` of the vote there is. -/
def writeVote (s : Db) (userId : Id) (targetType : TargetType) (targetId : Id) :
    Option VoteType → Db
  | some v => { s with votes := s.votes.upsert ⟨userId, targetType, targetId, v⟩ }
  | none =>
    let key := (userId, targetType, targetId)
    { s with votes := s.votes.erase fun v => decide ((v.userId, v.targetType, v.targetId) = key) }

/-- POST sets the requested vote; DELETE clears it. Repeating either is safe. -/
def setVoteTx (s : Db) (targetType : TargetType) (targetId : UuidText) (user : GatewayUser)
    (voteType : Option VoteType) : Except HttpError (Db × VoteResult) := do
  let userId ← authenticated user
  let target ← lockTarget s targetType targetId.id
  requireOpen target.post
  requireApproved target.post
  RoomsService.requireVisible s target.post.roomId user
  require (target.authorId ≠ userId) (.badRequest "You cannot vote on your own content")
  let s := writeVote s userId targetType targetId.id voteType
  let up := count s targetType targetId.id .upvote
  let down := count s targetType targetId.id .downvote
  let action := if voteType.isSome then "voted" else "unvoted"
  return (target.saveCounts s up down, ⟨action, voteType, up, down⟩)

def setVote (s : Db) (targetType : TargetType) (targetId : UuidText) (user : GatewayUser)
    (voteType : Option VoteType) : Outcome Db HttpError VoteResult :=
  commit s (setVoteTx s targetType targetId user voteType) fun _ r => .ok r

end VotesService

end AcaSocial
