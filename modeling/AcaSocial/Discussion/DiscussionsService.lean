import Mathlib.Data.List.Sort
import AcaSocial.Discussion.ContentPresenter
import AcaSocial.Discussion.RoomsService

/-!
# Discussions

`discussions/discussions.service.ts`. Every mutation is a transaction: its body is a `…Tx`
function of the state that it finds, and `commit` keeps or drops the state that the body leaves.

* **Reads** — `findAll`, `findOne`.
* **`create`**, **`update`** — `update` writes either a draft (`saveDraft`), which a moderator has
  to allow, or the post itself (`saveEdit`).
* **`remove`**, **`acceptAnswer`**, **`removeAcceptedAnswer`**, **`setStatus`**.
-/

namespace AcaSocial

/-- The answer or, failing that, the comment that a question has accepted. -/
inductive Accepted where
  | answer (a : AnswerView)
  | comment (c : CommentView)
  deriving DecidableEq

/-- The response of `findOne`. -/
structure DiscussionDetail extends DiscussionView where
  acceptedAnswer : Option Accepted
  deriving DecidableEq

/-- `[...ids].sort()`. The order of two uuids never matters to what is done with them; of two
spellings of one uuid the one with the upper-case letters comes first. -/
def sortIds (ids : List UuidText) : List UuidText :=
  ids.insertionSort fun a b => a.id < b.id ∨ (a.id = b.id ∧ b.upper ≤ a.upper)

namespace DiscussionsService

/-! ## Reads

The lists and the single post. What a user may not see is left out of the rows before the page is cut. -/

/-- The slugs of the `tag` filter. -/
def slugsOf (tag : String) : List String :=
  (((Text.splitOn ',' [] tag.toList).map Text.trim).filter (!·.isEmpty)).map String.ofList

/-- The room does not hide the post from the viewer. -/
def roomAdmits (s : Db) (user : GatewayUser) (d : Discussion) : Bool :=
  match d.roomId with
  | none => true
  | some r => decide (user.id = some d.authorId)
      || !((s.room? r).any fun room => decide (room.visibility = .privateRoom))
      || (user.id.bind (s.membership? r)).any fun m => decide (m.status = .active)

/-- The condition of the query of `findAll`. -/
def listed (w : World) (s : Db) (filter : FilterDiscussionDto) (user : GatewayUser)
    (d : Discussion) : Bool :=
  d.deletedAt.isNone
  && (user.isModerator || approved d || decide (user.id = some d.authorId))
  && filter.postType.all (fun t => decide (d.postType = t))
  && filter.roomId.all (fun r => decide (d.roomId = some r.id))
  && (user.isModerator || roomAdmits s user d)
  && filter.status.all (fun t => decide (d.status = t))
  && filter.authorId.all (fun a => decide (d.authorId = a.id ∧ d.isAnonymous = false))
  && filter.search.all (fun q => decide (q = "")
      || Text.ilike w.foldCase d.title ("%" ++ q ++ "%"))
  && filter.tag.all (fun t => (slugsOf t).isEmpty || (s.tags.rows.any fun t' =>
      decide (t'.id ∈ s.tagIdsOf d.id ∧ t'.slug ∈ slugsOf t)))

def sortKey (sort : SortBy) (d : Discussion) : SortKey where
  rank := match sort with
    | .mostVotes => (d.upvoteCount : Int) - d.downvoteCount
    | .mostComments => d.commentCount
    | .newest | .oldest => 0
  createdAt := d.createdAt
  id := d.id

def findAll (w : World) (s : Db) (filter : FilterDiscussionDto) (user : GatewayUser) :
    PaginatedResult DiscussionView :=
  let rows := (s.discussions.select (listed w s filter user)).mergeSort
    fun a b => (sortKey filter.sort a).le (decide (filter.sort = .oldest)) (sortKey filter.sort b)
  { data := ContentPresenter.discussions w s user (pageOf filter.page filter.limit rows)
    page := filter.page
    limit := filter.limit
    totalItems := rows.length
    totalPages := totalPages rows.length filter.limit }

/-- The accepted content of a question, as the viewer is shown it. -/
def acceptedView (w : World) (s : Db) (user : GatewayUser) (post : Discussion) :
    Option Accepted :=
  match post.acceptedAnswerId.bind s.answer? with
  | some a => some (.answer (ContentPresenter.answer w s user a))
  | none => (post.acceptedCommentId.bind s.comment?).map fun c =>
      .comment (ContentPresenter.comment w s user (Id.text c.discussionId) c)

/-- `findOne(id, user, false)`. -/
def findOne (w : World) (s : Db) (id : Id) (user : GatewayUser) :
    Except HttpError DiscussionDetail := do
  let post ← orThrow (s.post? id) (.notFound "Discussion not found")
  requireReadable post user
  RoomsService.requireVisible s post.roomId user
  return { ContentPresenter.discussion w s user post with
    acceptedAnswer := acceptedView w s user post }

/-- `findOne(id, user)`: a read that counts. -/
def view (w : World) (s : Db) (id : UuidText) (user : GatewayUser) :
    Outcome Db HttpError DiscussionDetail :=
  let body := do
    let detail ← findOne w s id.id user
    let post ← lockPost s id.id
    return (s.savePost { post with viewCount := post.viewCount + 1 }, detail)
  commit s body fun _ detail => .ok detail

/-! ## Tags and attachments

Named tags must exist, be approved and not be merged away; their counters follow the links. -/

/-- The tags with the given ids, all of them there and active. -/
def tags (s : Db) (ids : List UuidText) (e : HttpError) : Except HttpError (List Tag) := do
  let tags := s.tags.select fun t => decide (t.id ∈ ids.map (·.id))
  require (tags.length = ids.length ∧ ∀ t ∈ tags, t.status = .active) e
  return tags

def tagCounts (s : Db) (ids : List UuidText) (delta : Int) : Db :=
  (sortIds ids).foldl (fun s t => s.bumpTag delta t.id) s

def unavailableTags : HttpError := .badRequest "One or more active tags do not exist"

/-! ## Creation

The checks come first, in the order of the source, and then one transaction that inserts the post, its links, its
attachments and its events. -/

/-- `dto.curriculumCourseId ? await this.academic.context(dto.curriculumCourseId) : null`. -/
def selectedContext (w : World) : Option UuidText → Except HttpError (Option AcademicContext)
  | some c => (AcademicReferenceService.context w c).map some
  | none => .ok none

/-- The checks of `create` before it asks for the room. -/
def createPrelude (w : World) (user : GatewayUser) (dto : CreateDiscussionDto) :
    Except HttpError (Id × Option AcademicContext) := do
  let authorId ← authenticated user
  MediaReferenceService.validate w (dto.mediaIds.getD []) (some authorId)
  let selected ← selectedContext w dto.curriculumCourseId
  return (authorId, selected)

/-- The context that a course of the request names must be that of the room. -/
def checkContext (selected : Option AcademicContext) (binding : Option RoomAcademicBinding) :
    Except HttpError Unit := do
  require (∀ c ∈ selected, ∀ b ∈ binding, c.majorId = b.majorId)
    (.badRequest "Selected course does not belong to the room major")
  require (∀ c ∈ selected, ∀ b ∈ binding, ∀ i ∈ b.curriculumCourseId, c.curriculumCourseId = i)
    (.badRequest "Course room fixes the academic context")

/-- The row that `create` saves. -/
def newPost (w : World) (authorId : Id) (dto : CreateDiscussionDto)
    (selected : Option AcademicContext) (room : PostContext) (id : Id) : Discussion where
  id := id
  title := dto.title
  content := dto.content
  postType := dto.postType
  status := .open
  authorId := authorId
  isAnonymous := dto.isAnonymous.getD false
  roomId := some dto.roomId.id
  majorId := selected.map (·.majorId) <|> room.binding.map (·.majorId)
  curriculumId := selected.map (·.curriculumId) <|> room.binding.bind (·.curriculumId)
  courseId := selected.map (·.courseId) <|> room.binding.bind (·.courseId)
  curriculumCourseId := selected.map (·.curriculumCourseId)
    <|> room.binding.bind (·.curriculumCourseId)
  upvoteCount := 0
  downvoteCount := 0
  commentCount := 0
  answerCount := 0
  viewCount := 0
  acceptedCommentId := none
  acceptedAnswerId := none
  contentVersion := 1
  moderationStatus := .pending
  visibility := if room.requiresApproval then .held else .visible
  pendingRevision := none
  moderationNote := ""
  createdAt := w.now
  deletedAt := none

@[simp] theorem newPost_id (w : World) (authorId : Id) (dto : CreateDiscussionDto)
    (selected : Option AcademicContext) (room : PostContext) (id : Id) :
    (newPost w authorId dto selected room id).id = id := rfl

def createTx (w : World) (s : Db) (authorId : Id) (dto : CreateDiscussionDto)
    (selected : Option AcademicContext) (room : PostContext) : Except HttpError (Db × Id) := do
  let tagIds := (dto.tagIds.getD []).eraseDups
  let tags ← tags s tagIds unavailableTags
  let id := s.discussions.next
  let s := s.insertPost (newPost w authorId dto selected room)
    (newPost_id w authorId dto selected room)
  let s := s.setTags id (tags.map (·.id))
  let s := s.setMedia id (dto.mediaIds.getD [])
  let s := tagCounts s tagIds 1
  let s ← s.insertRevision ⟨id, 1, dto.title, dto.content, .semantic, authorId⟩
  let s := s.event "discussion.created" [("discussionId", .uuid (Id.text id)),
    ("title", .str dto.title), ("recipientId", .uuid (Id.text authorId))]
  return (s, id)

def create (w : World) (s : Db) (user : GatewayUser) (dto : CreateDiscussionDto) :
    Outcome Db HttpError DiscussionDetail :=
  attempt s (createPrelude w user dto) fun (authorId, selected) =>
    let s := RoomsService.autoJoin s dto.roomId.id authorId
    let body := do
      let room ← RoomsService.assertCanPost w s dto.roomId.id user
      checkContext selected room.binding
      createTx w s authorId dto selected room
    commit s body fun s id => findOne w s id user

/-! ## Editing

An edit is saved at once or becomes a draft, as the policy of the room and the role of the author decide. -/

/-- `policy?.requiresApproval`. -/
def requiresApproval (policy : Option PostContext) : Bool := policy.any (·.requiresApproval)

/-- The edit changes something that has to be looked at again. -/
def contentChanged (post : Discussion) (dto : UpdateDiscussionDto) : Bool :=
  decide ((∃ t ∈ dto.title, t ≠ post.title) ∨ (∃ c ∈ dto.content, c ≠ post.content)
    ∨ dto.tagIds.isSome ∨ dto.mediaIds.isSome
    ∨ (∃ a ∈ dto.isAnonymous, a ≠ post.isAnonymous)
    ∨ (post.pendingRevision.isSome ∧ (dto.title.isSome ∨ dto.content.isSome)))

/-- The draft that an edit leaves: what it names, over the previous draft, over the post. -/
def draftOf (s : Db) (post : Discussion) (dto : UpdateDiscussionDto) : PendingRevision :=
  let previous := post.pendingRevision
  { title := (dto.title <|> previous.map (·.title)).getD post.title
    content := (dto.content <|> previous.map (·.content)).getD post.content
    isAnonymous := (dto.isAnonymous <|> previous.map (·.isAnonymous)).getD post.isAnonymous
    tagIds := (dto.tagIds.map List.eraseDups <|> previous.map (·.tagIds)).getD
      ((s.tagIdsOf post.id).map Id.text)
    mediaIds := (dto.mediaIds <|> previous.map (·.mediaIds)).getD
      ((s.mediaOf post.id).map fun a => Id.text a.mediaId) }

/-- `if (tagIds !== undefined) await this.tags(m, tagIds)`. -/
def checkTags (s : Db) : Option (List UuidText) → Except HttpError Unit
  | some ids => (tags s ids.eraseDups unavailableTags).map fun _ => ()
  | none => .ok ()

/-- The post with a draft that waits for a moderator. -/
def withDraft (post : Discussion) (draft : PendingRevision) : Discussion :=
  { post with
    pendingRevision := some draft
    contentVersion := post.contentVersion + 1
    moderationStatus := .pending
    moderationNote := "" }

def saveDraft (s : Db) (editor : Id) (dto : UpdateDiscussionDto) (post : Discussion) :
    Except HttpError (Db × Unit) := do
  checkTags s dto.tagIds
  let draft := draftOf s post dto
  let post := withDraft post draft
  let s ← (s.savePost post).insertRevision ⟨post.id, post.contentVersion, draft.title,
    draft.content, dto.revisionType.getD .semantic, editor⟩
  return (s, ())

/-- Replace the tags of a post and move the counters of those that it loses and gains. The kept
ones are found by `tagIds.includes(t.id)`, a comparison of texts. -/
def retag (s : Db) (discussionId : Id) (ids : List UuidText) : Except HttpError Db := do
  let tags ← tags s ids unavailableTags
  let old := s.tagIdsOf discussionId
  let s := tagCounts s ((old.map Id.text).filter fun t => decide (t ∉ ids)) (-1)
  let s := tagCounts s (((tags.map (·.id)).filter fun t => decide (t ∉ old)).map Id.text) 1
  return s.setTags discussionId (tags.map (·.id))

/-- The tags of an edit, when it names any. -/
def retagTo (s : Db) (discussionId : Id) : Option (List UuidText) → Except HttpError Db
  | some ids => retag s discussionId ids.eraseDups
  | none => .ok s

/-- The media of an edit, when it names any. -/
def attachTo (s : Db) (discussionId : Id) : Option (List UuidText) → Db
  | some ids => s.setMedia discussionId ids
  | none => s

/-- The fields that the edit names. -/
def edited (dto : UpdateDiscussionDto) (post : Discussion) : Discussion :=
  { post with
    title := dto.title.getD post.title
    content := dto.content.getD post.content
    isAnonymous := dto.isAnonymous.getD post.isAnonymous }

/-- A new version of the post itself. -/
def newVersion (policy : Option PostContext) (post : Discussion) : Discussion :=
  { post with
    contentVersion := post.contentVersion + 1
    moderationStatus := .pending
    visibility := if requiresApproval policy ∨ post.visibility ≠ .visible then .held else .visible
    pendingRevision := none
    moderationNote := "" }

/-- The post without its accepted answer and comment. -/
def unaccepted (post : Discussion) : Discussion :=
  { post with
    acceptedAnswerId := none
    acceptedCommentId := none
    status := if post.acceptedAnswerId.isSome ∨ post.acceptedCommentId.isSome then .open
      else post.status }

/-- The row that an edit saves. -/
def editedPost (dto : UpdateDiscussionDto) (policy : Option PostContext) (post : Discussion) :
    Discussion :=
  if contentChanged post dto then unaccepted (newVersion policy (edited dto post))
  else edited dto post

/-- Content changes revoke acceptance so the author can reassess the answer. -/
def recordVersion (w : World) (s : Db) (editor : Id) (dto : UpdateDiscussionDto)
    (post : Discussion) : Except HttpError Db :=
  if contentChanged post dto then do
    let version := edited dto post
    let s ← s.insertRevision ⟨post.id, post.contentVersion + 1, version.title, version.content,
      dto.revisionType.getD .semantic, editor⟩
    return if post.acceptedAnswerId.isSome then
        s.revokeAcceptances post.id w.now editor "question_edited" else s
  else .ok s

def saveEdit (w : World) (s : Db) (editor : Id) (dto : UpdateDiscussionDto)
    (policy : Option PostContext) (post : Discussion) : Except HttpError (Db × Unit) := do
  let s ← retagTo s post.id dto.tagIds
  let s ← recordVersion w s editor dto post
  let s := s.savePost (editedPost dto policy post)
  return (attachTo s post.id dto.mediaIds, ())

/-- An edit of a visible post waits as a draft where approval is required or a draft waits. -/
def drafts (policy : Option PostContext) (post : Discussion) (dto : UpdateDiscussionDto) : Bool :=
  contentChanged post dto && (requiresApproval policy || post.pendingRevision.isSome)
    && decide (post.visibility = .visible)

def updateTx (w : World) (s : Db) (editor : Id) (dto : UpdateDiscussionDto)
    (policy : Option PostContext) (post : Discussion) : Except HttpError (Db × Unit) := do
  require (post.pendingRevision.isSome → dto.expectedVersion.isSome)
    (.conflict "Discussion changed; reload")
  require (∀ v ∈ dto.expectedVersion, post.contentVersion = v)
    (.conflict "Discussion changed; reload")
  if drafts policy post dto then saveDraft s editor dto post
  else saveEdit w s editor dto policy post

/-- The checks of `update` before it asks for the room. -/
def updatePrelude (w : World) (s : Db) (id : UuidText) (user : GatewayUser)
    (dto : UpdateDiscussionDto) : Except HttpError (Id × Discussion) := do
  let editor ← authenticated user
  MediaReferenceService.validate w (dto.mediaIds.getD []) (some editor)
  let post ← lockPost s id.id
  requireManager post.authorId user
  requireOpen post
  return (editor, post)

/-- The room is asked about the author, in the role of the editor. -/
def update (w : World) (s : Db) (id : UuidText) (user : GatewayUser) (dto : UpdateDiscussionDto) :
    Outcome Db HttpError DiscussionDetail :=
  attempt s (updatePrelude w s id user dto) fun (editor, post) =>
    let s := RoomsService.autoJoinTo s post.roomId post.authorId
    let body := do
      let policy ← RoomsService.assertCanPostTo w s post.roomId ⟨some post.authorId, user.role⟩
      updateTx w s editor dto policy post
    commit s body fun s _ => findOne w s id.id user

/-! ## The other mutations

Removing, accepting an answer, withdrawing the acceptance, and closing. -/

def removeTx (w : World) (s : Db) (id : UuidText) (user : GatewayUser) :
    Except HttpError (Db × Unit) := do
  let _ ← authenticated user
  let post ← lockPost s id.id
  requireManager post.authorId user
  let tagIds := (s.tagIdsOf post.id).map Id.text
  let s := s.savePost { post with deletedAt := some w.now }
  let s := s.event "content.deleted" [("entityType", .str "discussion"), ("entityId", .uuid id),
    ("roomId", (post.roomId.map fun r => Json.uuid (Id.text r)).getD .null)]
  return (tagCounts s tagIds (-1), ())

def remove (w : World) (s : Db) (id : UuidText) (user : GatewayUser) :
    Outcome Db HttpError String :=
  commit s (removeTx w s id user) fun _ _ => .ok "Discussion deleted successfully"

def requireQuestionOwner (post : Discussion) (user : GatewayUser) : Except HttpError Unit := do
  require (post.postType = .question) (.badRequest "Only questions can have accepted answers")
  require (user.id = some post.authorId)
    (.forbidden "Only the question author can accept answers")

def acceptAnswerTx (s : Db) (id : UuidText) (user : GatewayUser) (commentId : UuidText) :
    Except HttpError (Db × Unit) := do
  let _ ← authenticated user
  let post ← lockPost s id.id
  requireApproved post
  requireQuestionOwner post user
  requireOpen post
  let answer ← orThrow (s.comment? commentId.id) (.notFound "Answer not found")
  require (Id.text answer.discussionId = id ∧ answer.parentCommentId = none)
    (.badRequest "Only a root answer in this question can be accepted")
  require (answer.authorId ≠ post.authorId) (.badRequest "You cannot accept your own answer")
  if post.acceptedCommentId = some answer.id then return (s, ())
  else
    let s := s.savePost { post with acceptedCommentId := some answer.id, status := .solved }
    return (s.event "answer.accepted" [("discussionId", .uuid id),
      ("commentId", .uuid (Id.text answer.id)),
      ("recipientId", .uuid (Id.text answer.authorId))], ())

def acceptAnswer (w : World) (s : Db) (id : UuidText) (user : GatewayUser)
    (commentId : UuidText) : Outcome Db HttpError DiscussionDetail :=
  commit s (acceptAnswerTx s id user commentId) fun s _ => findOne w s id.id user

def removeAcceptedAnswerTx (s : Db) (id : UuidText) (user : GatewayUser) :
    Except HttpError (Db × Unit) := do
  let _ ← authenticated user
  let post ← lockPost s id.id
  requireQuestionOwner post user
  requireOpen post
  return (s.savePost { post with acceptedCommentId := none, status := .open }, ())

def removeAcceptedAnswer (w : World) (s : Db) (id : UuidText) (user : GatewayUser) :
    Outcome Db HttpError DiscussionDetail :=
  commit s (removeAcceptedAnswerTx s id user) fun s _ => findOne w s id.id user

/-- The post with the status that a moderator asks for. -/
def withStatus (post : Discussion) (status : PostStatus) : Discussion :=
  { post with
    status := if status = .open ∧ post.acceptedCommentId.isSome then .solved else status }

def setStatusTx (s : Db) (id : UuidText) (user : GatewayUser) (status : PostStatus) :
    Except HttpError (Db × Unit) := do
  let _ ← authenticated user
  require (status = .open ∨ status = .closed)
    (.badRequest "Use accept answer to solve a question")
  require user.isModerator (.forbidden "Only moderators can close or reopen discussions")
  let post ← lockPost s id.id
  return (s.savePost (withStatus post status), ())

def setStatus (w : World) (s : Db) (id : UuidText) (user : GatewayUser) (status : PostStatus) :
    Outcome Db HttpError DiscussionDetail :=
  commit s (setStatusTx s id user status) fun s _ => findOne w s id.id user

end DiscussionsService

end AcaSocial
