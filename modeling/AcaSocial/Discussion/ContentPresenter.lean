import AcaSocial.Base.Text
import AcaSocial.Discussion.ContentPolicy

/-!
# Responses

`common/content-presenter.ts`: what a viewer is shown of posts, comments and answers.

* **`Item`** — the fields of an entity that `many` looks at.
* **`Overlay`** — the fields that `many` puts over those of the entity.
* **`DiscussionView`**, **`CommentView`**, **`AnswerView`** — the entity with its overlay: every
  field of the response, and no other.
-/

namespace AcaSocial

/-- What `ContentPresenter.many` reads of an entity. -/
structure Item where
  id : Id
  authorId : Id
  isAnonymous : Bool
  deletedAt : Option Time
  /-- The check of the moderation columns, which is made for discussions only. -/
  votable : Bool

def Discussion.item (p : Discussion) : Item :=
  ⟨p.id, p.authorId, p.isAnonymous, p.deletedAt, approved p⟩

def Comment.item (c : Comment) : Item := ⟨c.id, c.authorId, c.isAnonymous, c.deletedAt, true⟩

def Answer.item (a : Answer) : Item := ⟨a.id, a.authorId, a.isAnonymous, a.deletedAt, true⟩

/-- The fields that the presenter computes for every kind of content. -/
structure Overlay where
  authorId : Option Id
  author : Option Profile
  isMine : Bool
  canManage : Bool
  canVote : Bool
  myVote : Option VoteType
  deriving DecidableEq

structure DiscussionView extends Overlay where
  id : Id
  title : String
  content : String
  postType : PostType
  status : PostStatus
  isAnonymous : Bool
  roomId : Option Id
  majorId : Option Id
  curriculumId : Option Id
  courseId : Option Id
  curriculumCourseId : Option Id
  upvoteCount : Nat
  downvoteCount : Nat
  commentCount : Int
  answerCount : Int
  viewCount : Nat
  acceptedCommentId : Option Id
  acceptedAnswerId : Option Id
  contentVersion : Nat
  moderationStatus : ModerationStatus
  visibility : Visibility
  createdAt : Time
  deletedAt : Option Time
  /-- `undefined` is the outer `none`, the column's `null` the inner one. -/
  pendingRevision : Option (Option PendingRevision)
  moderationNote : Option String
  tags : List Tag
  media : List DiscussionMedia
  deriving DecidableEq

structure CommentView extends Overlay where
  id : Id
  discussionId : UuidText
  content : String
  parentCommentId : Option Id
  isAnonymous : Bool
  upvoteCount : Nat
  downvoteCount : Nat
  moderationStatus : ModerationStatus
  visibility : Visibility
  createdAt : Time
  deletedAt : Option Time
  deriving DecidableEq

structure AnswerView extends Overlay where
  id : Id
  discussionId : Id
  content : String
  isAnonymous : Bool
  contentVersion : Nat
  upvoteCount : Nat
  downvoteCount : Nat
  moderationStatus : ModerationStatus
  visibility : Visibility
  createdAt : Time
  deletedAt : Option Time
  deriving DecidableEq

namespace ContentPresenter

/-- What stands for the content of a deleted item. -/
def deletedContent : String := "[Bình luận đã xóa]"

/-- The author is shown neither for anonymous nor for deleted items. -/
def masked (i : Item) : Bool := i.isAnonymous || i.deletedAt.isSome

/-- The authors whose profiles are looked up. -/
def profileIds (items : List Item) : List Id :=
  ((items.filter fun i => !masked i).map (·.authorId)).eraseDups

def profiles (w : World) (items : List Item) : List Profile :=
  if profileIds items = [] then [] else w.display (profileIds items)

def overlay (s : Db) (profiles : List Profile) (user : GatewayUser) (type : TargetType)
    (i : Item) : Overlay where
  authorId := if masked i then none else some i.authorId
  author := if masked i then none else profiles.find? fun p => decide (p.id = i.authorId)
  isMine := decide (user.id = some i.authorId)
  canManage := i.deletedAt.isNone && canManage i.authorId user
  canVote := i.votable && user.id.isSome && decide (user.id ≠ some i.authorId)
    && i.deletedAt.isNone
  myVote := user.id.bind fun u => (s.votes.get? (u, type, i.id)).map (·.voteType)

def discussionView (s : Db) (profiles : List Profile) (user : GatewayUser) (p : Discussion) :
    DiscussionView where
  toOverlay := overlay s profiles user .discussion p.item
  id := p.id
  title := p.title
  content := if p.deletedAt.isSome then deletedContent else p.content
  postType := p.postType
  status := p.status
  isAnonymous := p.isAnonymous || p.deletedAt.isSome
  roomId := p.roomId
  majorId := p.majorId
  curriculumId := p.curriculumId
  courseId := p.courseId
  curriculumCourseId := p.curriculumCourseId
  upvoteCount := p.upvoteCount
  downvoteCount := p.downvoteCount
  commentCount := p.commentCount
  answerCount := p.answerCount
  viewCount := p.viewCount
  acceptedCommentId := p.acceptedCommentId
  acceptedAnswerId := p.acceptedAnswerId
  contentVersion := p.contentVersion
  moderationStatus := p.moderationStatus
  visibility := p.visibility
  createdAt := p.createdAt
  deletedAt := p.deletedAt
  pendingRevision := if user.id = some p.authorId then some p.pendingRevision else none
  moderationNote := if user.id = some p.authorId ∨ user.isModerator then some p.moderationNote
    else none
  tags := s.tags.select fun t => decide (t.id ∈ s.tagIdsOf p.id)
  media := s.mediaOf p.id

/-- `discussionId` is the spelling that the entity at hand carries. -/
def commentView (s : Db) (profiles : List Profile) (user : GatewayUser) (discussionId : UuidText)
    (c : Comment) : CommentView where
  toOverlay := overlay s profiles user .comment c.item
  id := c.id
  discussionId := discussionId
  content := if c.deletedAt.isSome then deletedContent else c.content
  parentCommentId := c.parentCommentId
  isAnonymous := c.isAnonymous || c.deletedAt.isSome
  upvoteCount := c.upvoteCount
  downvoteCount := c.downvoteCount
  moderationStatus := c.moderationStatus
  visibility := c.visibility
  createdAt := c.createdAt
  deletedAt := c.deletedAt

def answerView (s : Db) (profiles : List Profile) (user : GatewayUser) (a : Answer) :
    AnswerView where
  toOverlay := overlay s profiles user .answer a.item
  id := a.id
  discussionId := a.discussionId
  content := if a.deletedAt.isSome then deletedContent else a.content
  isAnonymous := a.isAnonymous || a.deletedAt.isSome
  contentVersion := a.contentVersion
  upvoteCount := a.upvoteCount
  downvoteCount := a.downvoteCount
  moderationStatus := a.moderationStatus
  visibility := a.visibility
  createdAt := a.createdAt
  deletedAt := a.deletedAt

/-- `many(posts, user, TargetType.DISCUSSION)`. -/
def discussions (w : World) (s : Db) (user : GatewayUser) (posts : List Discussion) :
    List DiscussionView :=
  posts.map (discussionView s (profiles w (posts.map (·.item))) user)

/-- `many(comments, user, TargetType.COMMENT)` on rows that come from the database. -/
def comments (w : World) (s : Db) (user : GatewayUser) (comments : List Comment) :
    List CommentView :=
  comments.map fun c =>
    commentView s (profiles w (comments.map (·.item))) user (Id.text c.discussionId) c

/-- `many(answers, user, TargetType.ANSWER)`. -/
def answers (w : World) (s : Db) (user : GatewayUser) (answers : List Answer) : List AnswerView :=
  answers.map (answerView s (profiles w (answers.map (·.item))) user)

/-- The one element of `many([post], …)`. -/
def discussion (w : World) (s : Db) (user : GatewayUser) (post : Discussion) : DiscussionView :=
  discussionView s (profiles w [post.item]) user post

/-- The one element of `many([comment], …)`. -/
def comment (w : World) (s : Db) (user : GatewayUser) (discussionId : UuidText) (c : Comment) :
    CommentView :=
  commentView s (profiles w [c.item]) user discussionId c

/-- The one element of `many([answer], …)`. -/
def answer (w : World) (s : Db) (user : GatewayUser) (a : Answer) : AnswerView :=
  answerView s (profiles w [a.item]) user a

end ContentPresenter

/-! ## Pages

Sorted rows, cut into pages of `limit`, with the number of them all. -/

/-- `PaginatedResult`. -/
structure PaginatedResult (α : Type) where
  data : List α
  page : Nat
  limit : Nat
  totalItems : Nat
  totalPages : Nat
  deriving DecidableEq

/-- The columns by which the lists are sorted. -/
structure SortKey where
  rank : Int
  createdAt : Time
  id : Id

/-- `ORDER BY rank DESC, created_at DESC, id DESC`, with `created_at ASC` when `oldest`. -/
def SortKey.le (oldest : Bool) (a b : SortKey) : Bool :=
  decide (b.rank < a.rank ∨ (a.rank = b.rank ∧
    ((if oldest then a.createdAt < b.createdAt else b.createdAt < a.createdAt)
      ∨ (a.createdAt = b.createdAt ∧ b.id ≤ a.id))))

/-- `skip((page - 1) * limit).take(limit)`. -/
def pageOf {α : Type} (page limit : Nat) (rows : List α) : List α :=
  (rows.drop ((page - 1) * limit)).take limit

/-- `Math.ceil(totalItems / limit)`. -/
def totalPages (totalItems limit : Nat) : Nat := (totalItems + limit - 1) / limit

/-- The rows of a page are rows of the query. -/
theorem mem_of_mem_pageOf {α : Type} {rows : List α} {page limit : Nat} {x : α} (hx : x ∈ pageOf page limit rows) :
    x ∈ rows := List.mem_of_mem_drop (List.mem_of_mem_take hx)

/-- The first pages are the first rows. The induction is on the number of pages. -/
theorem flatMap_pageOf {α : Type} (rows : List α) (limit n : Nat) :
    ((List.range n).flatMap fun page => pageOf (page + 1) limit rows) = rows.take (n * limit) := by
  induction n with
  | zero =>
    rw [Nat.zero_mul]
    rfl
  | succ n ih =>
    rw [List.range_succ, List.flatMap_append, ih, Nat.succ_mul, List.take_add, List.flatMap_singleton, pageOf,
      Nat.add_sub_cancel]

/-- There are as many pages as the rows take. -/
theorem le_totalPages_mul {limit : Nat} (hlimit : 0 < limit) (n : Nat) : n ≤ totalPages n limit * limit := by
  have hmod := Nat.mod_lt (n + limit - 1) hlimit
  have hdiv := Nat.div_add_mod' (n + limit - 1) limit
  rw [totalPages]
  omega

/-! ## Attachments and mentions

The files of a post must be known to the media service and belong to its author; who is mentioned is read off the
text. -/

/-- `validate(ids, ownerId)` of `common/media-reference.service.ts`. -/
def MediaReferenceService.validate (w : World) (ids : List UuidText) (ownerId : Option Id) :
    Except HttpError Unit :=
  ids.forM fun id => do
    let asset ← match w.media id with
      | .unreachable => .error (.serviceUnavailable "Media service unavailable")
      | .notFound => .error (.badRequest "Attachment not found")
      | .failed => .error (.serviceUnavailable "Cannot verify attachment")
      | .ok asset => .ok asset
    require (asset.scanStatus = some "clean")
      (.badRequest "File chưa được quét virus. Vui lòng tải lại hoặc gỡ file.")
    require (ownerId.isSome → asset.uploadedBy = ownerId)
      (.forbidden "You can only attach your own files")

namespace MentionService

/-- `[a-zA-Z0-9_]`. -/
def isWordChar (c : Char) : Bool := c.isAlphanum || decide (c = '_')

/-- The matches of `/(?:^|\s)@([a-zA-Z0-9_]{3,20})\b/g`: `boundary` says that the text at hand
starts the content or follows white space. A run of more than twenty word characters has no
word boundary within reach, so it does not match at all. -/
def matches? (boundary : Bool) : List Char → List (List Char)
  | [] => []
  | c :: text =>
    let rest := matches? (Text.isSpace c) text
    let name := text.takeWhile isWordChar
    if boundary && decide (c = '@' ∧ 3 ≤ name.length ∧ name.length ≤ 20) then name :: rest
    else rest

def usernames (content : String) : List String :=
  (((matches? true content.toList).map String.ofList).eraseDups).take 20

/-- The users that are mentioned, other than the actor. -/
def mentioned (w : World) (content : String) (actorId : Id) : List ResolvedUser :=
  if usernames content = [] then []
  else (w.resolveUsernames (usernames content)).filter fun u => decide (u.id ≠ actorId)

def emit (w : World) (s : Db) (content : String) (actorId : Id) (context : EventData) : Db :=
  (mentioned w content actorId).foldl (fun s u => s.event "mention.created"
    ([("recipientId", .uuid (Id.text u.id)), ("actorId", .uuid (Id.text actorId)),
      ("mentionedUsername", .str u.username)] ++ context)) s

example : usernames "@lan hi @b @lan_2\n@lan" = ["lan", "lan_2"] := by decide

end MentionService

end AcaSocial
