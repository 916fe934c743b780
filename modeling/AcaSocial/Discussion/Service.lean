import AcaSocial.Base.Run
import AcaSocial.Discussion.AnswersService
import AcaSocial.Discussion.CommentsService
import AcaSocial.Discussion.ModerationService

/-!
# The discussion service as a transition system

* **`Operation`** — the endpoints of the controllers with what they take from a request.
* **`Call`** — an operation, who asks for it, and what it finds outside the service.
* **`serve`** — the state and the response of a call; **`Db.step`** is the state alone.

Every call runs as one atomic transaction. The states that the service can reach are those of
`run Db.step Db.empty calls`.
-/

namespace AcaSocial

inductive RoomsOperation where
  | create (dto : CreateRoomDto)
  | join (id : UuidText)
  | addRule (id : UuidText) (dto : CreateRoomRuleDto)
  | updateMembership (id memberId : UuidText) (dto : UpdateMembershipDto)
  | updateStatus (id : UuidText) (status : RoomStatus)
  | updatePolicy (id : UuidText) (dto : UpdateRoomPolicyDto)

inductive DiscussionsOperation where
  | create (dto : CreateDiscussionDto)
  | findAll (filter : FilterDiscussionDto)
  | findOne (id : UuidText)
  | update (id : UuidText) (dto : UpdateDiscussionDto)
  | remove (id : UuidText)
  | acceptAnswer (id commentId : UuidText)
  | removeAcceptedAnswer (id : UuidText)
  | setStatus (id : UuidText) (status : PostStatus)

inductive AnswersOperation where
  | create (discussionId : UuidText) (dto : CreateAnswerDto)
  | list (discussionId : UuidText)
  | update (id : UuidText) (dto : UpdateAnswerDto)
  | remove (id : UuidText)
  | accept (discussionId : UuidText) (dto : AcceptAnswerDto)
  | removeAcceptance (discussionId : UuidText)

inductive CommentsOperation where
  | create (discussionId : UuidText) (dto : CreateCommentDto)
  | findAllByDiscussion (discussionId : UuidText) (filter : FilterCommentDto)
  | update (id : UuidText) (dto : UpdateCommentDto)
  | remove (id : UuidText)

inductive TagsOperation where
  | create (dto : CreateTagDto)
  | update (id : UuidText) (dto : UpdateTagDto)
  | remove (id : UuidText)
  | setStatus (id : UuidText) (active : Bool)
  | merge (id targetTagId : UuidText)

inductive Operation where
  | rooms (o : RoomsOperation)
  | discussions (o : DiscussionsOperation)
  | answers (o : AnswersOperation)
  | comments (o : CommentsOperation)
  | setVote (targetType : TargetType) (targetId : UuidText) (voteType : Option VoteType)
  | review (id : UuidText) (dto : ReviewContentDto)
  | tags (o : TagsOperation)

/-- What the operations respond with. -/
inductive Response where
  | room (r : Room)
  | membership (m : RoomMembership)
  | rule (r : RoomRule)
  | discussion (d : DiscussionDetail)
  | discussions (page : PaginatedResult DiscussionView)
  | answer (a : Answer)
  | answers (as : List AnswerItem)
  | comment (c : CommentView)
  | comments (page : PaginatedResult CommentItem)
  | vote (v : VoteResult)
  | review (status : ModerationStatus)
  | tag (t : Tag)
  | merged (source target : Tag)
  | message (m : String)
  deriving DecidableEq

structure Call where
  world : World
  user : GatewayUser
  operation : Operation

/-- The response of a read, which leaves the state alone. -/
def Outcome.ofRead {σ ε α : Type} (s : σ) (result : Except ε α) : Outcome σ ε α := ⟨s, result⟩

def RoomsOperation.serve (w : World) (s : Db) (user : GatewayUser) :
    RoomsOperation → Outcome Db HttpError Response
  | .create dto => (RoomsService.create w s dto user).map .room
  | .join id => (RoomsService.join s id user).map .membership
  | .addRule id dto => (RoomsService.addRule w s id dto user).map .rule
  | .updateMembership id m dto =>
    (RoomsService.updateMembership w s id m dto user).map .membership
  | .updateStatus id status => (RoomsService.updateStatus w s id status user).map .room
  | .updatePolicy id dto => (RoomsService.updatePolicy w s id dto user).map .room

def DiscussionsOperation.serve (w : World) (s : Db) (user : GatewayUser) :
    DiscussionsOperation → Outcome Db HttpError Response
  | .create dto => (DiscussionsService.create w s user dto).map .discussion
  | .findAll filter => .ofRead s (.ok (.discussions (DiscussionsService.findAll w s filter user)))
  | .findOne id => (DiscussionsService.view w s id user).map .discussion
  | .update id dto => (DiscussionsService.update w s id user dto).map .discussion
  | .remove id => (DiscussionsService.remove w s id user).map .message
  | .acceptAnswer id c => (DiscussionsService.acceptAnswer w s id user c).map .discussion
  | .removeAcceptedAnswer id =>
    (DiscussionsService.removeAcceptedAnswer w s id user).map .discussion
  | .setStatus id status => (DiscussionsService.setStatus w s id user status).map .discussion

def AnswersOperation.serve (w : World) (s : Db) (user : GatewayUser) :
    AnswersOperation → Outcome Db HttpError Response
  | .create d dto => (AnswersService.create w s d dto user).map .answer
  | .list d => .ofRead s ((AnswersService.list w s d user).map .answers)
  | .update id dto => (AnswersService.update w s id dto user).map .answer
  | .remove id => (AnswersService.remove w s id user).map .message
  | .accept d dto => (AnswersService.accept w s d dto user).map .answer
  | .removeAcceptance d => (AnswersService.removeAcceptance w s d user).map .message

def CommentsOperation.serve (w : World) (s : Db) (user : GatewayUser) :
    CommentsOperation → Outcome Db HttpError Response
  | .create d dto => (CommentsService.create w s d user dto).map .comment
  | .findAllByDiscussion d filter =>
    .ofRead s ((CommentsService.findAllByDiscussion w s d filter user).map .comments)
  | .update id dto => (CommentsService.update w s id user dto).map .comment
  | .remove id => (CommentsService.remove w s id user).map .message

def TagsOperation.serve (w : World) (s : Db) (user : GatewayUser) :
    TagsOperation → Outcome Db HttpError Response
  | .create dto => (TagsService.create w s dto user).map .tag
  | .update id dto => (TagsService.update s id dto user).map .tag
  | .remove id => (TagsService.remove s id user).map .message
  | .setStatus id active => (TagsService.setStatus s id active user).map .tag
  | .merge id target => (TagsService.merge s id target user).map fun (a, b) => .merged a b

def Operation.serve (w : World) (s : Db) (user : GatewayUser) :
    Operation → Outcome Db HttpError Response
  | .rooms o => o.serve w s user
  | .discussions o => o.serve w s user
  | .answers o => o.serve w s user
  | .comments o => o.serve w s user
  | .setVote type id v => (VotesService.setVote s type id user v).map .vote
  | .review id dto => (ModerationService.review w s id dto user).map .review
  | .tags o => o.serve w s user

def serve (s : Db) (c : Call) : Outcome Db HttpError Response :=
  c.operation.serve c.world s c.user

def Db.step (s : Db) (c : Call) : Db := (serve s c).state

/-- A moment at which no other service answers and no text has more than one form. -/
def World.quiet (now : Time) : World where
  now := now
  media := fun _ => .unreachable
  academicContext := fun _ => .unreachable
  major := fun _ => .unreachable
  display := fun _ => []
  resolveUsernames := fun _ => []
  toLowerCase := id
  normalizeNFD := id
  foldCase := id

/-- The state after a sequence of calls to the empty service. -/
def Db.after (calls : List Call) : Db := run Db.step Db.empty calls

/-! ## Calls for examples

A student, an administrator, and a forum with a question and an answer. -/

namespace Sample

def student (i : Id) : GatewayUser := ⟨some i, some .student⟩

def administrator : GatewayUser := ⟨some 9, some .admin⟩

/-- A call at a quiet moment. -/
def call (now : Time) (user : GatewayUser) (o : Operation) : Call := ⟨World.quiet now, user, o⟩

/-- The first room, `0`, is a public forum of student `1`. -/
def openForum : Call := call 0 (student 1) (.rooms (.create
  { slug := "nhom-hoc", name := "Nhóm học", roomType := .forum }))

/-- A student joins the room `0`. -/
def join (i : Id) : Call := call 1 (student i) (.rooms (.join (Id.text 0)))

/-- The first post, `0`, is a question of student `1`. -/
def ask : Call := call 1 (student 1) (.discussions (.create
  { roomId := Id.text 0, title := "Why is this graph planar?",
    content := "I do not see a drawing without a crossing.", postType := .question }))

/-- The first answer, `0`, is by student `3`. -/
def answer : Call := call 3 (student 3) (.answers (.create (Id.text 0)
  { content := "Contract the outer cycle first." }))

/-- The answer `0` to the question `0` is accepted. -/
def accept : Call := call 4 (student 1) (.answers (.accept (Id.text 0) ⟨Id.text 0, 1, 1⟩))

end Sample

end AcaSocial
