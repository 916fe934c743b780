import AcaSocial.Discussion.DiscussionsService

/-!
# Moderation and tags

`moderation/moderation.service.ts`: a review decides about a post, or about the draft that waits
on it. `tags/tags.service.ts`: the administration of tags, behind the guards of its controller.
-/

namespace AcaSocial

/-- `manager.save(ModerationReview, …)`. -/
def Db.insertReview (s : Db) (r : ModerationReview) : Db := { s with reviews := s.reviews ++ [r] }

namespace ModerationService

/-- The rooms whose posts the reviewer may decide about; `none` is all of them. -/
def scope (w : World) (s : Db) (user : GatewayUser) : Except HttpError (Option (List Id)) := do
  let _ ← authenticated user
  if user.isModerator then return none
  else
    let ids ← RoomsService.managedRoomIds w s user
    require (ids ≠ []) (.forbidden "Room manager role required")
    return some ids

/-- `note?.trim() ?? ''`. -/
def trimmedNote (note : Option String) : String :=
  String.ofList (Text.trim (note.getD "").toList)

/-- The draft that a review decides about. -/
def draftOf (post : Discussion) : Option PendingRevision :=
  if post.moderationStatus = .pending then post.pendingRevision else none

/-- The content that a review decides about. -/
def reviewedContent (post : Discussion) : String :=
  ((draftOf post).map (·.content)).getD post.content

def attachments (s : Db) (post : Discussion) : List UuidText :=
  match draftOf post with
  | some draft => draft.mediaIds
  | none => (s.mediaOf post.id).map fun a => Id.text a.mediaId

/-- The tags before and after, as texts, in the order in which they are locked. -/
def affected (s : Db) (discussionId : Id) (draft : PendingRevision) : List UuidText :=
  sortIds ((s.tagIdsOf discussionId).map Id.text ++ draft.tagIds).eraseDups

/-- `draft.tagIds.includes(tagId) - full.tags.some((t) => t.id === tagId)`. -/
def delta (s : Db) (discussionId : Id) (draft : PendingRevision) (tagId : UuidText) : Int :=
  (if tagId ∈ draft.tagIds then 1 else 0)
    - (if tagId ∈ (s.tagIdsOf discussionId).map Id.text then 1 else 0)

/-- The tags and media of an allowed draft. -/
def applyDraft (s : Db) (discussionId : Id) (draft : PendingRevision) : Except HttpError Db := do
  let tags ← DiscussionsService.tags s draft.tagIds (.badRequest "Thẻ chủ đề không còn khả dụng")
  let counted := (affected s discussionId draft).foldl
    (fun s' tagId => s'.bumpTag (delta s discussionId draft tagId) tagId.id) s
  return (counted.setTags discussionId (tags.map (·.id))).setMedia discussionId draft.mediaIds

/-- The post after the decision, as far as publication goes. -/
def decided (post : Discussion) (draft : Option PendingRevision) (decision : Decision) :
    Discussion :=
  match decision, draft with
  | .allow, some d =>
    { post with
      title := d.title
      content := d.content
      isAnonymous := d.isAnonymous
      pendingRevision := none
      moderationStatus := .approved
      visibility := .visible }
  | .allow, none => { post with moderationStatus := .approved, visibility := .visible }
  | _, some _ =>
    -- Rejection affects the proposed revision; the published version remains readable.
    if post.visibility = .visible then { post with moderationStatus := .approved }
    else { post with moderationStatus := .hidden, visibility := .hidden }
  | _, none => { post with moderationStatus := .hidden, visibility := .hidden }

section

variable (post : Discussion) (draft : Option PendingRevision) (decision : Decision)

/-- No decision touches the accepted answer, -/
@[simp] theorem decided_acceptedAnswerId :
    (decided post draft decision).acceptedAnswerId = post.acceptedAnswerId := by
  cases decision <;> cases draft <;> simp only [decided] <;> split <;> rfl

/-- nor the accepted comment, -/
@[simp] theorem decided_acceptedCommentId :
    (decided post draft decision).acceptedCommentId = post.acceptedCommentId := by
  cases decision <;> cases draft <;> simp only [decided] <;> split <;> rfl

/-- nor whether the post is open. -/
@[simp] theorem decided_status : (decided post draft decision).status = post.status := by
  cases decision <;> cases draft <;> simp only [decided] <;> split <;> rfl

end

/-- The post without its acceptances. -/
def unaccepted (post : Discussion) : Discussion :=
  { post with
    acceptedAnswerId := none
    acceptedCommentId := none
    status := if post.status = .solved then .open else post.status }

/-- The decision ends the acceptances of the post. -/
def revokes (post : Discussion) (decision : Decision) : Bool :=
  decide ((decision = .allow ∧ (draftOf post).isSome)
    ∨ (decided post (draftOf post) decision).visibility = .hidden)

/-- A decision that does not end the acceptances does not hide the post either. -/
theorem visible_of_not_revokes {post : Discussion} {decision : Decision}
    (h : ¬ revokes post decision) (hvisible : post.visibility = .visible) :
    (decided post (draftOf post) decision).visibility = .visible := by
  cases decision <;> cases hd : draftOf post <;> simp_all [revokes, decided]

def revokeReason (post : Discussion) : String :=
  if (draftOf post).isSome then "question_edited" else "moderation_hidden"

/-- The row that `review` saves. -/
def reviewedPost (post : Discussion) (dto : ReviewContentDto) : Discussion :=
  let reviewed := decided post (draftOf post) dto.decision
  { (if revokes post dto.decision then unaccepted reviewed else reviewed) with
    moderationNote := trimmedNote dto.note }

/-- The columns that a review may write. -/
theorem reviewedPost_eq (post : Discussion) (dto : ReviewContentDto) :
    reviewedPost post dto = { post with
      title := (reviewedPost post dto).title
      content := (reviewedPost post dto).content
      isAnonymous := (reviewedPost post dto).isAnonymous
      pendingRevision := (reviewedPost post dto).pendingRevision
      moderationStatus := (reviewedPost post dto).moderationStatus
      moderationNote := (reviewedPost post dto).moderationNote
      visibility := (reviewedPost post dto).visibility
      status := (reviewedPost post dto).status
      acceptedAnswerId := (reviewedPost post dto).acceptedAnswerId
      acceptedCommentId := (reviewedPost post dto).acceptedCommentId } := by
  have hdecided : ∀ draft, decided post draft dto.decision = { post with
      title := (decided post draft dto.decision).title
      content := (decided post draft dto.decision).content
      isAnonymous := (decided post draft dto.decision).isAnonymous
      pendingRevision := (decided post draft dto.decision).pendingRevision
      moderationStatus := (decided post draft dto.decision).moderationStatus
      visibility := (decided post draft dto.decision).visibility } := by
    intro draft
    cases dto.decision <;> cases draft <;> simp only [decided] <;> split <;> rfl
  unfold reviewedPost
  dsimp only
  rw [hdecided]
  split <;> rfl

/-- A review leaves the text of the post, unless it allows a draft. -/
theorem reviewedPost_kept (post : Discussion) (dto : ReviewContentDto)
    (h : dto.decision = .allow → draftOf post = none) :
    (reviewedPost post dto).title = post.title ∧ (reviewedPost post dto).content = post.content := by
  have hdecided : (decided post (draftOf post) dto.decision).title = post.title
      ∧ (decided post (draftOf post) dto.decision).content = post.content := by
    cases hdecision : dto.decision with
    | allow =>
      rw [h hdecision]
      exact ⟨rfl, rfl⟩
    | hold | hide =>
      cases draftOf post with
      | none => exact ⟨rfl, rfl⟩
      | some d =>
        simp only [decided]
        split <;> exact ⟨rfl, rfl⟩
  unfold reviewedPost
  dsimp only
  split <;> exact hdecided

/-- The text that an allowed post has is the one that was proposed. -/
theorem reviewedPost_allowed (post : Discussion) (dto : ReviewContentDto) (hallow : dto.decision = .allow) :
    (reviewedPost post dto).visibility = .visible ∧ (reviewedPost post dto).moderationStatus = .approved
      ∧ (reviewedPost post dto).title = ((draftOf post).map (·.title)).getD post.title
      ∧ (reviewedPost post dto).content = reviewedContent post := by
  unfold reviewedPost reviewedContent
  rw [hallow]
  dsimp only
  cases draftOf post with
  | some d => split <;> exact ⟨rfl, rfl, rfl, rfl⟩
  | none => split <;> exact ⟨rfl, rfl, rfl, rfl⟩

/-- A review deletes no post. -/
@[simp] theorem reviewedPost_deletedAt (post : Discussion) (dto : ReviewContentDto) :
    (reviewedPost post dto).deletedAt = post.deletedAt := by
  rw [reviewedPost_eq]

/-- What an `allow` does besides saving the post: its attachments are checked, and the tags and
media of the draft become those of the post. -/
def publish (w : World) (s : Db) (post : Discussion) (decision : Decision) :
    Except HttpError Db :=
  if decision = .allow then do
    MediaReferenceService.validate w (attachments s post) none
    match draftOf post with
    | some d => applyDraft s post.id d
    | none => return s
  else .ok s

def reviewTx (w : World) (s : Db) (id : UuidText) (dto : ReviewContentDto) (actor : Id)
    (scope : Option (List Id)) : Except HttpError (Db × ModerationStatus) := do
  let post ← lockPost s id.id
  require (∀ ids ∈ scope, ∃ r ∈ post.roomId, r ∈ ids) (.forbidden "Room manager role required")
  require (post.moderationStatus = dto.expectedModerationStatus.getD .pending
      ∧ post.contentVersion = dto.expectedVersion ∧ reviewedContent post = dto.expectedContent)
    (.conflict "Content changed; reload before reviewing")
  let s ← publish w s post dto.decision
  let s := if revokes post dto.decision then
      s.revokeAcceptances post.id w.now actor (revokeReason post)
    else s
  let reviewed := reviewedPost post dto
  let s := (s.savePost reviewed).insertReview
    ⟨post.id, reviewed.contentVersion, dto.decision, reviewed.moderationNote, actor⟩
  return (s, reviewed.moderationStatus)

def review (w : World) (s : Db) (id : UuidText) (dto : ReviewContentDto) (user : GatewayUser) :
    Outcome Db HttpError ModerationStatus :=
  let body := do
    let actor ← authenticated user
    let scope ← scope w s user
    require (dto.decision ≠ .allow → trimmedNote dto.note ≠ "")
      (.badRequest "Vui lòng nhập lý do xử lý")
    reviewTx w s id dto actor scope
  commit s body fun _ r => .ok r

end ModerationService

namespace TagsService

/-- `GatewayAuthGuard` and `RolesGuard` with `@Roles('admin', 'moderator')`. -/
def guarded (user : GatewayUser) : Except HttpError Unit := do
  let _ ← authenticated user
  require user.isModerator (.forbidden "Insufficient permissions")

def isSlugChar (c : Char) : Bool := c.isLower || c.isDigit

/-- `/^[a-z0-9]+(?:-[a-z0-9]+)*$/`. -/
def isSlug (slug : String) : Bool :=
  (Text.splitOn '-' [] slug.toList).all fun part => !part.isEmpty && part.all isSlugChar

/-- `replace(/[^a-z0-9]+/g, '-')`: `dashed` says that the run at hand is written. -/
def dashes (dashed : Bool) : List Char → List Char
  | [] => []
  | c :: text =>
    if isSlugChar c then c :: dashes false text
    else if dashed then dashes true text else '-' :: dashes true text

/-- `replace(/^-+|-+$/g, '')`. -/
def trimDashes (text : List Char) : List Char :=
  let isDash := fun c => decide (c = '-')
  ((text.dropWhile isDash).reverse.dropWhile isDash).reverse

/-- `replace(/đ/g, 'd').replace(/\+/g, 'p').replace(/#/g, 'sharp')`. -/
def transliterate (c : Char) : List Char :=
  if c = 'đ' then ['d'] else if c = '+' then ['p'] else if c = '#' then "sharp".toList else [c]

def generateSlug (w : World) (text : String) : String :=
  let lower := (w.toLowerCase text).toList.flatMap transliterate
  let bare := (w.normalizeNFD (String.ofList lower)).toList.filter fun c =>
    !decide (0x300 ≤ c.toNat ∧ c.toNat ≤ 0x36f)
  String.ofList (trimDashes (dashes false bare))

def duplicate : HttpError := .conflict "Tag name or slug already exists"

/-- PostgreSQL takes no text with a NUL. -/
def hasNul (text : String) : Bool := text.toList.contains '\x00'

/-- What the database says of the texts of a new tag. The columns hold 100 and 120 characters. -/
def checkColumns (dto : CreateTagDto) (slug : String) : Except HttpError Unit := do
  require (hasNul dto.name = false ∧ dto.description.any hasNul = false)
    (.internal "invalid byte sequence for encoding \"UTF8\": 0x00")
  require (dto.name.length ≤ 100) (.internal "value too long for type character varying(100)")
  require (slug.length ≤ 120) (.internal "value too long for type character varying(120)")

def create (w : World) (s : Db) (dto : CreateTagDto) (user : GatewayUser) :
    Outcome Db HttpError Tag :=
  let body := do
    guarded user
    let slug := match dto.slug with
      | some slug => if slug = "" then generateSlug w dto.name else slug
      | none => generateSlug w dto.name
    require (isSlug slug) (.badRequest "Tag name must produce a valid slug")
    checkColumns dto slug
    require (¬ s.tags.rows.any fun t => decide (t.name = dto.name ∨ t.slug = slug)) duplicate
    let tag : Id → Tag := fun id =>
      { id
        name := dto.name
        slug
        description := dto.description
        usageCount := 0
        status := .active
        mergedIntoTagId := none
        createdAt := w.now }
    let id := s.tags.next
    return ({ s with tags := s.tags.insert tag fun _ => rfl }, tag id)
  commit s body fun _ t => .ok t

def findTag (s : Db) (id : Id) : Except HttpError Tag :=
  orThrow (s.tags.get? id) (.notFound "Tag not found")

def saveTag (s : Db) (tag : Tag) : Db := { s with tags := s.tags.save tag }

def update (s : Db) (id : UuidText) (dto : UpdateTagDto) (user : GatewayUser) :
    Outcome Db HttpError Tag :=
  let body := do
    guarded user
    let tag ← findTag s id.id
    require (∀ slug ∈ dto.slug, slug = tag.slug) (.badRequest "Tag slugs cannot be changed")
    let tag := { tag with
      name := dto.name.getD tag.name
      description := dto.description <|> tag.description }
    require (¬ s.tags.rows.any fun t => decide (t.id ≠ tag.id ∧ t.name = tag.name)) duplicate
    return (saveTag s tag, tag)
  commit s body fun _ t => .ok t

/-- The foreign key `merged_into_tag_id` keeps a tag that others were merged into. -/
def remove (s : Db) (id : UuidText) (user : GatewayUser) : Outcome Db HttpError String :=
  let body := do
    guarded user
    let tag ← findTag s id.id
    require (¬ s.discussionTags.rows.any fun l =>
        decide (l.tagId = tag.id) && (s.post? l.discussionId).isSome)
      (.badRequest "Cannot delete tag that is currently in use")
    require (¬ s.tags.rows.any fun t => decide (t.id ≠ tag.id ∧ t.mergedIntoTagId = some tag.id))
      (.internal "update or delete on table \"tags\" violates foreign key constraint")
    return ({ s with
      discussionTags := s.discussionTags.erase fun l => decide (l.tagId = tag.id)
      tags := s.tags.erase fun t => decide (t.id = tag.id) }, ())
  commit s body fun _ _ => .ok "Tag deleted successfully"

/-- `PATCH /tags/:id/enable` and `/disable`. -/
def setStatus (s : Db) (id : UuidText) (active : Bool) (user : GatewayUser) :
    Outcome Db HttpError Tag :=
  let body := do
    guarded user
    let tag ← findTag s id.id
    require (tag.status ≠ .merged) (.badRequest "Merged tags cannot be reactivated")
    let tag := { tag with status := if active then .active else .inactive }
    return (saveTag s tag, tag)
  commit s body fun _ t => .ok t

/-- The number of rows of `discussion_tags` of a tag, those of deleted posts included. -/
def linkCount (s : Db) (tagId : Id) : Nat :=
  (s.discussionTags.select fun l => decide (l.tagId = tagId)).length

/-- The links after those to `source` have become links to `target`. -/
def moveLinks (s : Db) (source target : Id) : Db :=
  let moved := (s.discussionTags.select fun l => decide (l.tagId = source)).foldl
    (fun links l => links.insert ⟨l.discussionId, target⟩) s.discussionTags
  { s with discussionTags := moved.erase fun l => decide (l.tagId = source) }

def mergeTx (s : Db) (sourceId targetId : UuidText) : Except HttpError (Db × Tag × Tag) := do
  require (sourceId ≠ targetId) (.badRequest "Cannot merge a tag into itself")
  let tags := s.tags.select fun t => decide (t.id = sourceId.id ∨ t.id = targetId.id)
  let source ← orThrow (tags.find? fun t => decide (Id.text t.id = sourceId))
    (.notFound "Source or target tag not found")
  let target ← orThrow (tags.find? fun t => decide (Id.text t.id = targetId))
    (.notFound "Source or target tag not found")
  require (source.status ≠ .merged ∧ target.status = .active)
    (.badRequest "Source must not be merged and target must be active")
  let s := moveLinks s source.id target.id
  let source := { source with
    status := .merged, mergedIntoTagId := some target.id, usageCount := 0 }
  let target := { target with usageCount := linkCount s target.id }
  return (saveTag (saveTag s source) target, source, target)

def merge (s : Db) (sourceId targetId : UuidText) (user : GatewayUser) :
    Outcome Db HttpError (Tag × Tag) :=
  let body := do
    guarded user
    mergeTx s sourceId targetId
  commit s body fun _ r => .ok r

end TagsService

end AcaSocial
