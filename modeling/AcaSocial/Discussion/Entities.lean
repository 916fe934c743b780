import AcaSocial.Base.Table

/-!
# The discussion service: rows and requests

The tables of `discussion_db` as the entities declare them, the request bodies that the DTOs
let through, and what the service asks of the other services.

* **Ids.** A uuid column holds a value, which PostgreSQL compares and prints without regard to
  how it was written. A client may spell the letters of a uuid in either case, and the service
  compares such texts with `===`. `Id` is the value of a column and `UuidText` the text of a
  request: a value together with the letters that are written in upper case. The database
  reads back `Id.text`, the spelling with none.
* **Unique constraints.** Every table is a `Table` under its primary key or unique constraint.
* **Left out.** Columns that no function of the service reads (the reserved AI and
  comment-lock columns, `updated_at`, the audit rows of policy changes).
-/

namespace AcaSocial

/-- The value of a uuid column. -/
abbrev Id := Nat

/-- Milliseconds. -/
abbrev Time := Nat

/-- A uuid as a client spells it: `upper` is the set of hex letters in upper case, as a bit
mask over the 32 digits. -/
structure UuidText where
  id : Id
  upper : Nat
  deriving DecidableEq

/-- The spelling in which PostgreSQL prints a uuid. -/
def Id.text (i : Id) : UuidText := ⟨i, 0⟩

/-- An identifier is read back from its text. -/
@[simp] theorem Id.text_id (i : Id) : (Id.text i).id = i := rfl

/-- Different identifiers have different texts, -/
theorem Id.text_injective : Function.Injective Id.text := fun _ _ h => congrArg UuidText.id h

/-- so their texts agree when they do. -/
@[simp] theorem Id.text_inj {i j : Id} : Id.text i = Id.text j ↔ i = j := Id.text_injective.eq_iff

/-! ## Errors

The exceptions of the services, with the texts that the client reads. -/

/-- The exceptions of `@nestjs/common` that the service throws, with their messages;
`internal` is any other error, which Nest answers with status 500. -/
inductive HttpError where
  | unauthorized (message : String)
  | forbidden (message : String)
  | notFound (message : String)
  | badRequest (message : String)
  | conflict (message : String)
  | serviceUnavailable (message : String)
  | internal (message : String)
  deriving DecidableEq

/-! ## Enumerations

The enumerations of the schema, as the columns store them. -/

inductive Role where
  | student | teacher | moderator | admin
  deriving DecidableEq

inductive PostType where
  | question | discussion
  deriving DecidableEq

inductive PostStatus where
  | open | solved | closed
  deriving DecidableEq

inductive ModerationStatus where
  | pending | approved | hidden
  deriving DecidableEq

inductive Visibility where
  | visible | held | hidden
  deriving DecidableEq

inductive RevisionType where
  | editorial | semantic
  deriving DecidableEq

inductive TargetType where
  | discussion | comment | answer
  deriving DecidableEq

inductive VoteType where
  | upvote | downvote
  deriving DecidableEq

inductive Decision where
  | allow | hide | hold
  deriving DecidableEq

inductive TagStatus where
  | active | inactive | merged
  deriving DecidableEq

inductive RoomType where
  | major | course | event | forum
  deriving DecidableEq

def RoomType.text : RoomType → String
  | .major => "major"
  | .course => "course"
  | .event => "event"
  | .forum => "forum"

inductive RoomVisibility where
  | publicRoom | restrictedRoom | privateRoom
  deriving DecidableEq

inductive MembershipPolicy where
  | open | approval | inviteOnly
  deriving DecidableEq

inductive PostingPolicy where
  | anyone | members | approved
  deriving DecidableEq

inductive ReviewPolicy where
  | direct | approval
  deriving DecidableEq

inductive RoomStatus where
  | draft | active | readOnly | archived
  deriving DecidableEq

inductive MemberRole where
  | owner | moderator | contributor | member
  deriving DecidableEq

inductive MemberStatus where
  | pending | active | muted | banned | left
  deriving DecidableEq

inductive PostPermission where
  | inherit | direct | approval | blocked
  deriving DecidableEq

inductive Severity where
  | low | medium | high
  deriving DecidableEq

/-! ## Rows

The entities of the service, field by field. -/

/-- `Discussion.pendingRevision`, a jsonb column: its ids keep the spelling of the request. -/
structure PendingRevision where
  title : String
  content : String
  isAnonymous : Bool
  tagIds : List UuidText
  mediaIds : List UuidText
  deriving DecidableEq

structure Discussion where
  id : Id
  title : String
  content : String
  postType : PostType
  status : PostStatus
  authorId : Id
  isAnonymous : Bool
  roomId : Option Id
  majorId : Option Id
  curriculumId : Option Id
  courseId : Option Id
  curriculumCourseId : Option Id
  upvoteCount : Nat
  downvoteCount : Nat
  commentCount : Int
  answerCount : Int
  viewCount : Nat
  acceptedCommentId : Option Id
  acceptedAnswerId : Option Id
  contentVersion : Nat
  moderationStatus : ModerationStatus
  visibility : Visibility
  pendingRevision : Option PendingRevision
  moderationNote : String
  createdAt : Time
  deletedAt : Option Time
  deriving DecidableEq

structure DiscussionRevision where
  discussionId : Id
  contentVersion : Nat
  title : String
  content : String
  revisionType : RevisionType
  editedBy : Id
  deriving DecidableEq

structure DiscussionMedia where
  discussionId : Id
  mediaId : Id
  sortOrder : Nat
  deriving DecidableEq

/-- A row of the join table `discussion_tags`. -/
structure DiscussionTag where
  discussionId : Id
  tagId : Id
  deriving DecidableEq

structure Comment where
  id : Id
  discussionId : Id
  authorId : Id
  content : String
  parentCommentId : Option Id
  isAnonymous : Bool
  upvoteCount : Nat
  downvoteCount : Nat
  moderationStatus : ModerationStatus
  visibility : Visibility
  createdAt : Time
  deletedAt : Option Time
  deriving DecidableEq

structure Answer where
  id : Id
  discussionId : Id
  authorId : Id
  content : String
  isAnonymous : Bool
  contentVersion : Nat
  moderationStatus : ModerationStatus
  visibility : Visibility
  upvoteCount : Nat
  downvoteCount : Nat
  createdAt : Time
  deletedAt : Option Time
  deriving DecidableEq

structure AnswerRevision where
  answerId : Id
  contentVersion : Nat
  content : String
  revisionType : RevisionType
  editedBy : Id
  deriving DecidableEq

structure AnswerAcceptance where
  id : Id
  discussionId : Id
  answerId : Id
  questionVersion : Nat
  answerVersion : Nat
  acceptedBy : Id
  acceptedAt : Time
  revokedAt : Option Time
  revokedBy : Option Id
  revokeReason : Option String
  deriving DecidableEq

structure Tag where
  id : Id
  name : String
  slug : String
  description : Option String
  usageCount : Int
  status : TagStatus
  mergedIntoTagId : Option Id
  createdAt : Time
  deriving DecidableEq

structure Vote where
  userId : Id
  targetType : TargetType
  targetId : Id
  voteType : VoteType
  deriving DecidableEq

structure ModerationReview where
  entityId : Id
  contentVersion : Nat
  decision : Decision
  note : String
  reviewerId : Id
  deriving DecidableEq

structure Room where
  id : Id
  slug : String
  name : String
  description : String
  roomType : RoomType
  parentRoomId : Option Id
  visibility : RoomVisibility
  membershipPolicy : MembershipPolicy
  postingPolicy : PostingPolicy
  reviewPolicy : ReviewPolicy
  policyLocked : Bool
  status : RoomStatus
  createdBy : Id
  startAt : Option Time
  endAt : Option Time
  rulesVersion : Nat
  deriving DecidableEq

structure RoomAcademicBinding where
  roomId : Id
  majorId : Id
  curriculumId : Option Id
  courseId : Option Id
  curriculumCourseId : Option Id
  deriving DecidableEq

structure RoomMembership where
  roomId : Id
  userId : Id
  role : MemberRole
  status : MemberStatus
  postPermission : PostPermission
  assignedBy : Option Id
  expiresAt : Option Time
  deriving DecidableEq

structure RoomRule where
  roomId : Id
  ruleCode : String
  version : Nat
  title : String
  description : String
  severity : Severity
  active : Bool
  deriving DecidableEq

/-! ## Outbox

The events that the operations leave for the other services. -/

/-- A JSON value of an event payload. User and row ids are uuids. -/
inductive Json where
  | null
  | bool (b : Bool)
  | num (n : Nat)
  | str (s : String)
  | uuid (t : UuidText)
  deriving DecidableEq

/-- `Record<string, unknown>`: the fields that are present, in order. -/
abbrev EventData := List (String × Json)

/-- A row of `discussion_outbox`. -/
structure OutboxEvent where
  id : Id
  eventType : String
  payload : EventData
  deriving DecidableEq

/-! ## The database

The tables of the service. -/

/-- The tables of what is posted. -/
structure Content where
  discussions : Serial Discussion Discussion.id
  revisions : Table (Id × Nat) DiscussionRevision fun r => (r.discussionId, r.contentVersion)
  media : List DiscussionMedia
  tags : Serial Tag Tag.id
  discussionTags : Table (Id × Id) DiscussionTag fun l => (l.discussionId, l.tagId)
  comments : Serial Comment Comment.id
  answers : Serial Answer Answer.id
  answerRevisions : Table (Id × Nat) AnswerRevision fun r => (r.answerId, r.contentVersion)
  acceptances : Serial AnswerAcceptance AnswerAcceptance.id
  votes : Table (Id × TargetType × Id) Vote fun v => (v.userId, v.targetType, v.targetId)
  reviews : List ModerationReview

/-- All the tables: those of the rooms, those of what is posted in them, and the outbox. -/
structure Db extends Content where
  rooms : Serial Room Room.id
  bindings : Table Id RoomAcademicBinding RoomAcademicBinding.roomId
  memberships : Table (Id × Id) RoomMembership fun m => (m.roomId, m.userId)
  rules : Table (Id × String × Nat) RoomRule fun r => (r.roomId, r.ruleCode, r.version)
  outbox : Serial OutboxEvent OutboxEvent.id

/-- The store before the first request. -/
def Db.empty : Db where
  rooms := ∅
  bindings := ∅
  memberships := ∅
  rules := ∅
  discussions := ∅
  revisions := ∅
  media := []
  tags := ∅
  discussionTags := ∅
  comments := ∅
  answers := ∅
  answerRevisions := ∅
  acceptances := ∅
  votes := ∅
  reviews := []
  outbox := ∅

/-! ## Requests

The bodies of the requests, as the validation pipe hands them on. -/

/-- The user that the gateway names in its headers. -/
structure GatewayUser where
  id : Option Id
  role : Option Role
  deriving DecidableEq

structure CreateDiscussionDto where
  roomId : UuidText
  curriculumCourseId : Option UuidText := none
  title : String
  content : String
  postType : PostType
  tagIds : Option (List UuidText) := none
  mediaIds : Option (List UuidText) := none
  isAnonymous : Option Bool := none
  deriving DecidableEq

structure UpdateDiscussionDto where
  expectedVersion : Option Nat := none
  revisionType : Option RevisionType := none
  title : Option String := none
  content : Option String := none
  tagIds : Option (List UuidText) := none
  mediaIds : Option (List UuidText) := none
  isAnonymous : Option Bool := none
  deriving DecidableEq

/-- `SortBy` of discussions; comments use it without `mostComments`. -/
inductive SortBy where
  | newest | oldest | mostVotes | mostComments
  deriving DecidableEq

structure FilterDiscussionDto where
  page : Nat := 1
  limit : Nat := 20
  roomId : Option UuidText := none
  postType : Option PostType := none
  status : Option PostStatus := none
  tag : Option String := none
  authorId : Option UuidText := none
  sort : SortBy := .newest
  search : Option String := none
  deriving DecidableEq

structure FilterCommentDto where
  page : Nat := 1
  limit : Nat := 20
  parentCommentId : Option UuidText := none
  sort : SortBy := .newest
  deriving DecidableEq

structure CreateAnswerDto where
  content : String
  isAnonymous : Option Bool := none
  deriving DecidableEq

structure UpdateAnswerDto where
  content : String
  expectedVersion : Nat
  revisionType : RevisionType
  deriving DecidableEq

structure AcceptAnswerDto where
  answerId : UuidText
  expectedQuestionVersion : Nat
  expectedAnswerVersion : Nat
  deriving DecidableEq

structure CreateCommentDto where
  content : String
  parentCommentId : Option UuidText := none
  isAnonymous : Option Bool := none
  deriving DecidableEq

structure UpdateCommentDto where
  content : Option String := none
  isAnonymous : Option Bool := none
  deriving DecidableEq

structure ReviewContentDto where
  expectedModerationStatus : Option ModerationStatus := none
  decision : Decision
  expectedVersion : Nat
  expectedContent : String
  note : Option String := none
  deriving DecidableEq

structure CreateTagDto where
  name : String
  slug : Option String := none
  description : Option String := none
  deriving DecidableEq

structure UpdateTagDto where
  name : Option String := none
  slug : Option String := none
  description : Option String := none
  deriving DecidableEq

structure CreateRoomDto where
  reviewPolicy : Option ReviewPolicy := none
  slug : String
  name : String
  description : Option String := none
  roomType : RoomType
  parentRoomId : Option UuidText := none
  majorId : Option UuidText := none
  curriculumCourseId : Option UuidText := none
  visibility : Option RoomVisibility := none
  postingPolicy : Option PostingPolicy := none
  membershipPolicy : Option MembershipPolicy := none
  startAt : Option Time := none
  endAt : Option Time := none
  deriving DecidableEq

structure CreateRoomRuleDto where
  ruleCode : String
  title : String
  description : String
  severity : Severity
  deriving DecidableEq

structure UpdateMembershipDto where
  postPermission : Option PostPermission := none
  role : MemberRole
  status : MemberStatus
  deriving DecidableEq

structure UpdateRoomPolicyDto where
  reviewPolicy : ReviewPolicy
  policyLocked : Option Bool := none
  deriving DecidableEq

/-! ## The other services

What the discussion service asks the academic and the media service for. -/

/-- `AcademicContext`: what the academic service knows of a curriculum course. -/
structure AcademicContext where
  curriculumCourseId : Id
  majorId : Id
  curriculumId : Id
  courseId : Id
  deriving DecidableEq

/-- An answer of the academic service over HTTP. -/
inductive Reply (α : Type) where
  | unreachable
  | notFound
  | failed
  | ok (a : α)
  deriving DecidableEq

/-- The fields that `MediaReferenceService` reads of an asset. -/
structure MediaAsset where
  uploadedBy : Option Id
  scanStatus : Option String
  deriving DecidableEq

/-- A row of `/internal/users/display`. -/
structure Profile where
  id : Id
  fullName : String
  deriving DecidableEq

/-- A row of `/internal/users/resolve-usernames`. -/
structure ResolvedUser where
  id : Id
  username : String
  deriving DecidableEq

/-- What one request finds outside the service: the clock, the answers of the other services
(the profile lookups are best effort, so a failed one is an empty list) and the Unicode tables
of the runtime and of PostgreSQL. -/
structure World where
  now : Time
  media : UuidText → Reply MediaAsset
  academicContext : UuidText → Reply AcademicContext
  major : UuidText → Reply Unit
  display : List Id → List Profile
  resolveUsernames : List String → List ResolvedUser
  toLowerCase : String → String
  normalizeNFD : String → String
  foldCase : Char → Char

end AcaSocial
