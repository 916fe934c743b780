import AcaSocial.Discussion.ContentPresenter
import AcaSocial.Discussion.RoomsService

/-!
# Answers

`answers/answers.service.ts`: answers to a question and the ledger of acceptances. The post
carries a pointer to the accepted answer, `answer_acceptances` has a row for every acceptance
there ever was, and a unique index allows one unrevoked row for each question.
-/

namespace AcaSocial

/-- An element of the response of `list`. -/
structure AnswerItem extends AnswerView where
  canAcceptAnswer : Bool
  deriving DecidableEq

namespace AnswersService

def canAccept (question : Discussion) (user : GatewayUser) : Bool :=
  decide (user.id.isSome ∧ (user.id = some question.authorId ∨ user.role = some .admin))

/-! ## Reads

Lists and single answers, for a user who may see the question. -/

/-- The entity itself, not a view of it. -/
def findOne (s : Db) (id : Id) : Except HttpError Answer :=
  orThrow (s.answer? id) (.notFound "Answer not found")

def list (w : World) (s : Db) (discussionId : UuidText) (user : GatewayUser) :
    Except HttpError (List AnswerItem) := do
  let question ← orThrow (s.post? discussionId.id) (.notFound "Question not found")
  requireReadable question user
  RoomsService.requireVisible s question.roomId user
  let answers := (s.answers.select fun a =>
      decide (a.discussionId = question.id ∧ a.deletedAt = none)).mergeSort
    fun a b => decide (a.createdAt ≤ b.createdAt)
  return (ContentPresenter.answers w s user answers).map fun a =>
    { a with canAcceptAnswer := canAccept question user }

/-! ## Mutations

Every mutation is a transaction over the question and the answer. -/

def lockAnswerAndQuestion (s : Db) (id : Id) : Except HttpError (Answer × Discussion) := do
  let existing ← orThrow (s.answer? id) (.notFound "Answer not found")
  let question ← lockPost s existing.discussionId
  let answer ← orThrow (s.answer? id) (.notFound "Answer not found")
  return (answer, question)

/-- It returns the answer and the question of the answer. -/
@[simp] theorem lockAnswerAndQuestion_eq_ok {s : Db} {i : Id} {a : Answer} {q : Discussion} :
    lockAnswerAndQuestion s i = .ok (a, q)
      ↔ s.answer? i = some a ∧ s.post? a.discussionId = some q := by
  simp only [lockAnswerAndQuestion, bind_eq_ok, orThrow_eq_ok, lockPost_eq_ok, pure_eq_ok,
    Prod.mk.injEq]
  constructor
  · rintro ⟨a', ha', q', hq', a'', ha'', rfl, rfl⟩
    obtain rfl : a' = a'' := Option.some.inj (ha'.symm.trans ha'')
    exact ⟨ha', hq'⟩
  · rintro ⟨ha, hq⟩
    exact ⟨a, ha, q, hq, a, ha, rfl, rfl⟩

/-- The question without its accepted answer. -/
def withdrawn (question : Discussion) : Discussion :=
  { question with acceptedAnswerId := none, status := .open }

/-- `revokeAcceptance`: the ledger and the pointer. -/
def revokeAcceptance (w : World) (s : Db) (question : Discussion) (actor : Id) (reason : String) :
    Db × Discussion :=
  if question.acceptedAnswerId.isNone then (s, question)
  else
    let s := s.revokeAcceptances question.id w.now actor reason
    (s.savePost (withdrawn question), withdrawn question)

/-- The row that `accept` saves. -/
def newAcceptance (w : World) (question : Discussion) (answer : Answer) (actor id : Id) :
    AnswerAcceptance where
  id := id
  discussionId := question.id
  answerId := answer.id
  questionVersion := question.contentVersion
  answerVersion := answer.contentVersion
  acceptedBy := actor
  acceptedAt := w.now
  revokedAt := none
  revokedBy := none
  revokeReason := none

/-- The new row has the key that it is given. -/
@[simp] theorem newAcceptance_id (w : World) (question : Discussion) (answer : Answer)
    (actor id : Id) : (newAcceptance w question answer actor id).id = id := rfl

/-- `manager.save(AnswerAcceptance, …)`, under the index `one_active_answer_acceptance`. -/
def insertAcceptance (w : World) (s : Db) (question : Discussion) (answer : Answer) (actor : Id) :
    Except HttpError Db := do
  require (s.activeAcceptances question.id = [])
    (.internal "duplicate key value violates unique constraint")
  return s.insertAcceptance (newAcceptance w question answer actor)
    (newAcceptance_id w question answer actor)

/-- The checks of `create` before it asks for the room. -/
def createPrelude (s : Db) (discussionId : UuidText) (user : GatewayUser) :
    Except HttpError (Id × Discussion) := do
  let authorId ← authenticated user
  let question ← lockPost s discussionId.id
  requireOpen question
  requireApproved question
  require (question.postType = .question) (.badRequest "Only questions accept answers")
  return (authorId, question)

/-- The row that `create` saves. -/
def newAnswer (w : World) (discussionId : Id) (dto : CreateAnswerDto) (authorId id : Id) :
    Answer where
  id := id
  discussionId := discussionId
  authorId := authorId
  content := dto.content
  isAnonymous := dto.isAnonymous.getD false
  contentVersion := 1
  moderationStatus := .approved
  visibility := .visible
  upvoteCount := 0
  downvoteCount := 0
  createdAt := w.now
  deletedAt := none

/-- The new row has the key that it is given. -/
@[simp] theorem newAnswer_id (w : World) (discussionId : Id) (dto : CreateAnswerDto)
    (authorId id : Id) : (newAnswer w discussionId dto authorId id).id = id := rfl

def createTx (w : World) (s : Db) (discussionId : UuidText) (dto : CreateAnswerDto)
    (authorId : Id) (question : Discussion) : Except HttpError (Db × Id) := do
  let id := s.answers.next
  let s := s.insertAnswer (newAnswer w discussionId.id dto authorId)
    (newAnswer_id w discussionId.id dto authorId)
  let s ← s.insertAnswerRevision ⟨id, 1, dto.content, .semantic, authorId⟩
  let s := s.savePost { question with answerCount := question.answerCount + 1 }
  let s := if question.authorId ≠ authorId then
      s.event "answer.created" [("recipientId", .uuid (Id.text question.authorId)),
        ("actorId", if dto.isAnonymous.getD false then .null else .uuid (Id.text authorId)),
        ("answerId", .uuid (Id.text id)), ("discussionId", .uuid discussionId),
        ("discussionTitle", .str question.title)]
    else s
  let s := MentionService.emit w s dto.content authorId
    [("entityType", .str "answer"), ("entityId", .uuid (Id.text id)),
      ("discussionId", .uuid discussionId), ("discussionTitle", .str question.title)]
  return (s, id)

def create (w : World) (s : Db) (discussionId : UuidText) (dto : CreateAnswerDto)
    (user : GatewayUser) : Outcome Db HttpError Answer :=
  attempt s (createPrelude s discussionId user) fun (authorId, question) =>
    let s := RoomsService.autoJoinTo s question.roomId authorId
    let body := do
      let _ ← RoomsService.assertCanPostTo w s question.roomId user
      createTx w s discussionId dto authorId question
    commit s body fun s id => findOne s id

/-- The answer with new content. -/
def revised (answer : Answer) (content : String) : Answer :=
  { answer with
    content
    contentVersion := answer.contentVersion + 1
    moderationStatus := .approved
    visibility := .visible }

def updateTx (w : World) (s : Db) (id : UuidText) (dto : UpdateAnswerDto) (user : GatewayUser) :
    Except HttpError (Db × Unit) := do
  let actor ← authenticated user
  let (answer, question) ← lockAnswerAndQuestion s id.id
  requireManager answer.authorId user
  requireOpen question
  require (answer.contentVersion = dto.expectedVersion) (.conflict "Answer changed; reload")
  if answer.content = dto.content then return (s, ())
  else
    let answer := revised answer dto.content
    let s ← (s.saveAnswer answer).insertAnswerRevision ⟨answer.id, answer.contentVersion,
      answer.content, dto.revisionType, actor⟩
    if dto.revisionType = .semantic ∧ question.acceptedAnswerId = some answer.id then
      return ((revokeAcceptance w s question actor "answer_edited").1, ())
    else return (s, ())

def update (w : World) (s : Db) (id : UuidText) (dto : UpdateAnswerDto) (user : GatewayUser) :
    Outcome Db HttpError Answer :=
  commit s (updateTx w s id dto user) fun s _ => findOne s id.id

def removeTx (w : World) (s : Db) (id : UuidText) (user : GatewayUser) :
    Except HttpError (Db × Unit) := do
  let actor ← authenticated user
  let (answer, question) ← lockAnswerAndQuestion s id.id
  requireManager answer.authorId user
  requireOpen question
  let (s, question) := if question.acceptedAnswerId = some answer.id then
      revokeAcceptance w s question actor "answer_deleted" else (s, question)
  let s := s.saveAnswer { answer with deletedAt := some w.now }
  let s := s.savePost { question with answerCount := max 0 (question.answerCount - 1) }
  return (s.event "content.deleted" [("entityType", .str "answer"), ("entityId", .uuid id),
    ("discussionId", .uuid (Id.text question.id))], ())

def remove (w : World) (s : Db) (id : UuidText) (user : GatewayUser) :
    Outcome Db HttpError String :=
  commit s (removeTx w s id user) fun _ _ => .ok "Answer deleted"

/-- The question with an accepted answer. -/
def solvedBy (question : Discussion) (answer : Answer) : Discussion :=
  { question with
    acceptedAnswerId := some answer.id
    acceptedCommentId := none
    status := .solved }

def acceptTx (w : World) (s : Db) (discussionId : UuidText) (dto : AcceptAnswerDto)
    (user : GatewayUser) : Except HttpError (Db × Unit) := do
  let actor ← authenticated user
  let question ← lockPost s discussionId.id
  requireOpen question
  require (question.postType = .question)
    (.badRequest "Only questions can have an accepted answer")
  require (canAccept question user)
    (.forbidden "Only the question author or an admin can accept an answer")
  requireApproved question
  let answer ← orThrow (s.answer? dto.answerId.id)
    (.badRequest "Answer does not belong to this question")
  require (answer.discussionId = question.id)
    (.badRequest "Answer does not belong to this question")
  require (answer.authorId ≠ actor) (.badRequest "You cannot accept your own answer")
  require (question.contentVersion = dto.expectedQuestionVersion
      ∧ answer.contentVersion = dto.expectedAnswerVersion)
    (.conflict "Question or answer changed; reload")
  let (s, question) := revokeAcceptance w s question actor "replaced"
  let s ← insertAcceptance w s question answer actor
  let s := s.savePost (solvedBy question answer)
  return (s.event "answer.accepted" [("discussionId", .uuid (Id.text question.id)),
    ("answerId", .uuid (Id.text answer.id)), ("answerVersion", .num answer.contentVersion),
    ("recipientId", .uuid (Id.text answer.authorId)), ("actorId", .uuid (Id.text actor)),
    ("discussionTitle", .str question.title)], ())

def accept (w : World) (s : Db) (discussionId : UuidText) (dto : AcceptAnswerDto)
    (user : GatewayUser) : Outcome Db HttpError Answer :=
  commit s (acceptTx w s discussionId dto user) fun s _ => findOne s dto.answerId.id

/-- The only mutation of a post's children that does not call `requireOpen`. -/
def removeAcceptanceTx (w : World) (s : Db) (discussionId : UuidText) (user : GatewayUser) :
    Except HttpError (Db × Unit) := do
  let actor ← authenticated user
  let question ← lockPost s discussionId.id
  require (canAccept question user)
    (.forbidden "Only the question author or an admin can revoke acceptance")
  return ((revokeAcceptance w s question actor "author_revoked").1, ())

def removeAcceptance (w : World) (s : Db) (discussionId : UuidText) (user : GatewayUser) :
    Outcome Db HttpError String :=
  commit s (removeAcceptanceTx w s discussionId user) fun _ _ => .ok "Acceptance revoked"

end AnswersService

end AcaSocial
