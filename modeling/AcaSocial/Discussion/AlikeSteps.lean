import AcaSocial.Discussion.AlikeResponses
import AcaSocial.Discussion.Frames

/-!
# Calls on stores that look alike

Every operation on discussions, answers, comments and votes leaves stores alike, if they were, and
responds the same.

* `update` asks the room about the author of the post. What that makes of the edit of a moderator, a
  refusal, a draft or an edit of the post itself, is `editWay`, which has to be the same.
* Three operations on answers respond with the row itself, and so the same only where the authors
  are the same.
-/

namespace AcaSocial

variable {masks : Bool} {user : GatewayUser} {since : Id} {s s' : Db} {w : World}

namespace Db.Alike

/-! ## Discussions

The methods on posts in two stores that differ in authors that the viewer does not see. An edit is the one method that
asks the room about the author; the others compare the author with the viewer. -/

/-- The check of tags is the same in both stores. -/
theorem tags_congr (h : s.Alike masks user since s') (ids : List UuidText) (e : HttpError) :
    DiscussionsService.tags s' ids e = DiscussionsService.tags s ids e := by
  unfold DiscussionsService.tags
  rw [h.tags]

/-- A view of a post that was changed alike in both stores. -/
theorem commit_findOne (h : s.Alike masks user since s') {body body' : Except HttpError (Db × Unit)}
    (hbody : Related (fun a b => a.1.Alike masks user since b.1) body body') (i : Id) :
    (commit s body fun s _ => DiscussionsService.findOne w s i user).Alike (Db.Alike masks user since)
      (commit s' body' fun s _ => DiscussionsService.findOne w s i user) :=
  commit_alike h (hbody.imp fun _ _ hab => ⟨hab, (hab.findOne i).symm⟩)

/-- A new post of the viewer is the same row in both stores. -/
theorem createTx (h : s.Alike masks user since s') (author : Id) (dto : CreateDiscussionDto)
    (selected : Option AcademicContext) (room : PostContext) :
    Related (fun a b => a.1.Alike masks user since b.1 ∧ a.2 = b.2)
      (DiscussionsService.createTx w s author dto selected room)
      (DiscussionsService.createTx w s' author dto selected room) := by
  refine .bind_same (h.tags_congr _ _) fun tags _ => ?_
  have hinserted := h.insertPost (DiscussionsService.newPost w author dto selected room)
    (DiscussionsService.newPost_id w author dto selected room)
  have hnext : s'.discussions.next = s.discussions.next := h.discussions.next.symm
  dsimp only
  rw [hnext]
  have hcounted := ((hinserted.setTags s.discussions.next (tags.map (·.id))).setMedia
    s.discussions.next (dto.mediaIds.getD [])).tagCounts (dto.tagIds.getD []).eraseDups 1
  refine .bind (hcounted.insertRevision rfl) fun t t' ht => .ok ⟨ht.event _ fun _ => rfl, rfl⟩

/-- To post has the same result in both stores. -/
theorem create (h : s.Alike masks user since s') (dto : CreateDiscussionDto) :
    (DiscussionsService.create w s user dto).Alike (Db.Alike masks user since)
      (DiscussionsService.create w s' user dto) := by
  refine attempt_alike h (.of_eq (fun _ => rfl) rfl) ?_
  rintro ⟨author, selected⟩ _ rfl
  have hjoined := h.autoJoin dto.roomId.id author
  refine commit_alike hjoined ?_
  refine .bind_same (hjoined.assertCanPost w _) fun room _ => ?_
  refine .bind_same rfl fun _ _ => ?_
  refine (hjoined.createTx author dto selected room).imp fun a b hab => ⟨hab.1, ?_⟩
  rw [hab.2, hab.1.findOne]

/-- To look at a post counts a view in both stores or in none. -/
theorem view (h : s.Alike masks user since s') (id : UuidText) :
    (DiscussionsService.view w s id user).Alike (Db.Alike masks user since)
      (DiscussionsService.view w s' id user) := by
  refine commit_alike h ?_
  refine .bind_same (h.findOne id.id) fun detail _ => ?_
  refine .orThrow_bind (h.post? id.id) fun p p' _ _ hp => .ok ⟨h.savePost ?_, rfl⟩
  exact hp.frame (f := fun p => { p with viewCount := p.viewCount + 1 }) (fun _ _ _ _ _ => rfl)
    rfl rfl

/-- To remove a post has the same result in both stores. -/
theorem remove (h : s.Alike masks user since s') (id : UuidText) :
    (DiscussionsService.remove w s id user).Alike (Db.Alike masks user since)
      (DiscussionsService.remove w s' id user) := by
  refine commit_alike h ?_
  refine .bind_same rfl fun _ _ => ?_
  refine .orThrow_bind (h.post? id.id) fun p p' _ _ hp => ?_
  have hmanager : requireManager p'.authorId user = requireManager p.authorId user := by
    unfold requireManager
    rw [hp.canManage]
  refine .bind_same hmanager fun _ _ => .ok ⟨?_, rfl⟩
  have htagIds : s'.tagIdsOf p'.id = s.tagIdsOf p.id := by
    rw [Content.tagIdsOf, h.discussionTags, hp.id, Content.tagIdsOf]
  dsimp only
  rw [htagIds]
  have hdeleted := hp.frame (f := fun p => { p with deletedAt := some w.now })
    (fun _ _ _ _ _ => rfl) rfl rfl
  exact ((h.savePost hdeleted).event _ fun _ => by rw [hp.roomId]).tagCounts _ _

/-- Only its author accepts for a question, so both stores have the same question. -/
theorem requireQuestionOwner {p p' : Discussion} (hp : p.Alike masks user p') :
    DiscussionsService.requireQuestionOwner p' user
      = DiscussionsService.requireQuestionOwner p user := by
  unfold DiscussionsService.requireQuestionOwner
  simp only [hp.postType, hp.isAuthor]

/-- The check lets the author of a question through. -/
theorem isAuthor_of_owner {p : Discussion} {u : Unit}
    (howner : DiscussionsService.requireQuestionOwner p user = .ok u) :
    user.id = some p.authorId := by
  simp only [DiscussionsService.requireQuestionOwner, bind_eq_ok, require_eq_ok] at howner
  obtain ⟨-, -, hown⟩ := howner
  exact hown

/-- To accept a comment has the same result in both stores. -/
theorem acceptAnswer (h : s.Alike masks user since s') (id m : UuidText) :
    (DiscussionsService.acceptAnswer w s id user m).Alike (Db.Alike masks user since)
      (DiscussionsService.acceptAnswer w s' id user m) := by
  refine h.commit_findOne ?_ _
  refine .bind_same rfl fun _ _ => ?_
  refine .orThrow_bind (h.post? id.id) fun p p' _ _ hp => ?_
  refine .bind_same (by rw [requireApproved, hp.approved, requireApproved]) fun _ _ => ?_
  refine .bind_same (requireQuestionOwner hp) fun _ howner => ?_
  have huser := isAuthor_of_owner howner
  obtain rfl := hp.own (.inl huser)
  refine .bind_same rfl fun _ _ => ?_
  refine .orThrow_bind (h.comment? m.id) fun c c' _ _ hc => ?_
  have hlabels : c'.id = c.id ∧ c'.discussionId = c.discussionId
      ∧ c'.parentCommentId = c.parentCommentId := by
    rw [Comment.Alike.labels hc]
    exact ⟨rfl, rfl, rfl⟩
  have hauthor : c'.authorId ≠ p'.authorId ↔ c.authorId ≠ p'.authorId :=
    not_congr (hc.authorId_eq_iff huser)
  refine .require_bind (by rw [hlabels.2.1, hlabels.2.2]) fun _ => ?_
  refine .require_bind hauthor fun _ => ?_
  rw [hlabels.1]
  refine .ite Iff.rfl (fun _ => .ok h) fun _ => .ok ?_
  refine Db.Alike.event (h.savePost (.refl _)) _ fun hmasks => ?_
  have hsame : c'.authorId = c.authorId := hc.author (.inl hmasks)
  rw [hsame]

/-- To end the acceptance of a comment has the same result in both stores. -/
theorem removeAcceptedAnswer (h : s.Alike masks user since s') (id : UuidText) :
    (DiscussionsService.removeAcceptedAnswer w s id user).Alike (Db.Alike masks user since)
      (DiscussionsService.removeAcceptedAnswer w s' id user) := by
  refine h.commit_findOne ?_ _
  refine .bind_same rfl fun _ _ => ?_
  refine .orThrow_bind (h.post? id.id) fun p p' _ _ hp => ?_
  refine .bind_same (requireQuestionOwner hp) fun _ howner => ?_
  obtain rfl := hp.own (.inl (isAuthor_of_owner howner))
  exact .bind_same rfl fun _ _ => .ok (h.savePost (.refl _))

/-- To close a post has the same result in both stores. -/
theorem setStatus (h : s.Alike masks user since s') (id : UuidText) (status : PostStatus) :
    (DiscussionsService.setStatus w s id user status).Alike (Db.Alike masks user since)
      (DiscussionsService.setStatus w s' id user status) := by
  refine h.commit_findOne ?_ _
  refine .bind_same rfl fun _ _ => ?_
  refine .bind_same rfl fun _ _ => ?_
  refine .bind_same rfl fun _ _ => ?_
  refine .orThrow_bind (h.post? id.id) fun p p' _ _ hp => .ok (h.savePost ?_)
  exact hp.frame (f := fun p => DiscussionsService.withStatus p status) (fun _ _ _ _ _ => rfl) rfl rfl

/-! ## Edits of a post

Whoever may edit a post sees its text and its draft, so the two posts differ in their authors only,
and in these only for a moderator. -/

/-- The post with another author. -/
def signed (p : Discussion) (author : Id) : Discussion := { p with authorId := author }

/-- Who may manage a post sees all of it but the author. -/
theorem eq_signed {p p' : Discussion} (hp : p.Alike masks user p')
    (hmanage : AcaSocial.canManage p.authorId user) : p' = signed p p'.authorId := by
  rcases (canManage_iff.mp hmanage).2 with hown | hmoderator
  · rw [hp.own (.inl hown)]
    rfl
  · have htext := hp.text (.inr hmoderator)
    have hnote := hp.note hmoderator
    conv => lhs; rw [hp.labels, htext.1, htext.2, hnote.1, hnote.2]
    rfl

/-- A change of a post that keeps its author, and masks it if it was masked. -/
theorem frame_signed {p : Discussion} {author : Id} (hp : p.Alike masks user (signed p author))
    {f : Discussion → Discussion} (hf : ∀ a, f (signed p a) = signed (f p) a)
    (hkeep : masks = true → p.isAnonymous = true → (f p).isAnonymous = true ∨ author = p.authorId) :
    (f p).Alike masks user (f (signed p author)) := by
  have hauthor : (f p).authorId = p.authorId := by
    have hself : signed p p.authorId = p := rfl
    rw [← hself, hf, hself]
    rfl
  rw [hf]
  refine ⟨rfl, fun hown => ?_, fun _ => ⟨rfl, rfl⟩, fun _ => ⟨rfl, rfl⟩, rfl, fun hmask => ?_⟩
  · rw [hauthor] at hown
    have hsame : author = p.authorId := congrArg Discussion.authorId (hp.own hown)
    rw [hsame, ← hauthor]
    rfl
  · show author = (f p).authorId
    rw [hauthor]
    -- a post that is no longer masked is one whose author was the same before
    rcases hmask with hmask | hshown
    · exact hp.author (.inl hmask)
    · cases hm : masks with
      | false => exact hp.author (.inl hm)
      | true =>
        cases hanonymous : p.isAnonymous with
        | false => exact hp.author (.inr hanonymous)
        | true =>
          rcases hkeep hm hanonymous with hstill | hsame
          · cases hstill.symm.trans hshown
          · exact hsame

theorem tagIdsOf (h : s.Alike masks user since s') (i : Id) : s'.tagIdsOf i = s.tagIdsOf i := by
  rw [Content.tagIdsOf, h.discussionTags, Content.tagIdsOf]

/-- The tags of a post are replaced alike. -/
theorem retagTo (h : s.Alike masks user since s') (d : Id) (ids : Option (List UuidText)) :
    Related (Db.Alike masks user since) (DiscussionsService.retagTo s d ids)
      (DiscussionsService.retagTo s' d ids) := by
  cases ids with
  | none => exact .ok h
  | some ids =>
    refine .bind_same (h.tags_congr _ _) fun tags _ => .ok ?_
    rw [h.tagIdsOf]
    exact ((h.tagCounts _ _).tagCounts _ _).setTags _ _

/-- A version is recorded in both stores or in none. -/
theorem recordVersion (h : s.Alike masks user since s') (editor : Id) (dto : UpdateDiscussionDto)
    (p : Discussion) (author : Id) :
    Related (Db.Alike masks user since) (DiscussionsService.recordVersion w s editor dto p)
      (DiscussionsService.recordVersion w s' editor dto (signed p author)) := by
  refine .ite Iff.rfl (fun _ => ?_) fun _ => .ok h
  refine .bind (h.insertRevision rfl) fun t t' ht => ?_
  by_cases haccepted : p.acceptedAnswerId.isSome
  · have haccepted' : (signed p author).acceptedAnswerId.isSome := haccepted
    rw [if_pos haccepted, if_pos haccepted']
    exact .ok (ht.revokeAcceptances _ _ _ _)
  · have haccepted' : ¬ (signed p author).acceptedAnswerId.isSome := haccepted
    rw [if_neg haccepted, if_neg haccepted']
    exact .ok ht

/-- The media of a post are replaced alike. -/
theorem attachTo (h : s.Alike masks user since s') (d : Id) (ids : Option (List UuidText)) :
    (DiscussionsService.attachTo s d ids).Alike masks user since
      (DiscussionsService.attachTo s' d ids) := by
  cases ids with
  | none => exact h
  | some ids => exact h.setMedia d ids

/-- An edit does not depend on the author. -/
theorem editedPost_signed (dto : UpdateDiscussionDto) (policy : Option PostContext) (p : Discussion)
    (author : Id) : DiscussionsService.editedPost dto policy (signed p author)
      = signed (DiscussionsService.editedPost dto policy p) author := by
  have hchanged : DiscussionsService.contentChanged (signed p author) dto
      = DiscussionsService.contentChanged p dto := rfl
  unfold DiscussionsService.editedPost
  rw [hchanged]
  split <;> rfl

/-- The author stays masked unless the dto names the field. -/
theorem editedPost_isAnonymous (dto : UpdateDiscussionDto) (policy : Option PostContext)
    (p : Discussion) : (DiscussionsService.editedPost dto policy p).isAnonymous
      = dto.isAnonymous.getD p.isAnonymous := by
  unfold DiscussionsService.editedPost
  split <;> rfl

/-- The edit leaves an anonymous post anonymous, or the author is the same. -/
def Keeps (masks : Bool) (dto : UpdateDiscussionDto) (p : Discussion) (author : Id) : Prop :=
  masks = true → p.isAnonymous = true → dto.isAnonymous = some false → author = p.authorId

/-- Both edits fail alike, or both go through; then the stores are alike unless the edit shows a
masked author. -/
theorem saveEdit (h : s.Alike masks user since s') (editor : Id) (dto : UpdateDiscussionDto)
    (policy : Option PostContext) {p : Discussion} {author : Id}
    (hp : p.Alike masks user (signed p author)) :
    Related (fun a b => Keeps masks dto p author → a.1.Alike masks user since b.1)
      (DiscussionsService.saveEdit w s editor dto policy p)
      (DiscussionsService.saveEdit w s' editor dto policy (signed p author)) := by
  refine .bind (h.retagTo p.id dto.tagIds) fun t t' ht => ?_
  refine .bind (ht.recordVersion editor dto p author) fun t₁ t₁' ht₁ => .ok fun hkeep => ?_
  have hedited : (DiscussionsService.editedPost dto policy p).Alike masks user
      (DiscussionsService.editedPost dto policy (signed p author)) := by
    refine frame_signed hp (editedPost_signed dto policy p) fun hmasks hanonymous => ?_
    rw [editedPost_isAnonymous, hanonymous]
    cases hflag : dto.isAnonymous with
    | none => exact .inl rfl
    | some b =>
      cases b with
      | true => exact .inl rfl
      | false => exact .inr (hkeep hmasks hanonymous hflag)
  exact (ht₁.savePost hedited).attachTo _ _

/-- A draft does not depend on the author. -/
theorem draftOf_signed (h : s.Alike masks user since s') (p : Discussion) (author : Id)
    (dto : UpdateDiscussionDto) : DiscussionsService.draftOf s' (signed p author) dto
      = DiscussionsService.draftOf s p dto := by
  unfold DiscussionsService.draftOf
  simp only [signed, h.tagIdsOf, Content.mediaOf, h.media]
  rfl

/-- The check of the tags of a dto is the same in both stores. -/
theorem checkTags_congr (h : s.Alike masks user since s') (ids : Option (List UuidText)) :
    DiscussionsService.checkTags s' ids = DiscussionsService.checkTags s ids := by
  cases ids with
  | none => rfl
  | some ids => simp only [DiscussionsService.checkTags, h.tags_congr]

/-- A draft is kept under the post, which stays as anonymous as it was. -/
theorem saveDraft (h : s.Alike masks user since s') (editor : Id) (dto : UpdateDiscussionDto)
    {p : Discussion} {author : Id} (hp : p.Alike masks user (signed p author)) :
    Related (fun a b => a.1.Alike masks user since b.1)
      (DiscussionsService.saveDraft s editor dto p)
      (DiscussionsService.saveDraft s' editor dto (signed p author)) := by
  refine .bind_same (h.checkTags_congr _) fun _ _ => ?_
  rw [h.draftOf_signed]
  have hdraft := frame_signed (f := fun p => DiscussionsService.withDraft p
    (DiscussionsService.draftOf s p dto)) hp (fun _ => rfl) fun _ hanonymous => .inl hanonymous
  exact .bind ((h.savePost hdraft).insertRevision rfl) fun t t' ht => .ok ht

/-- Two answers of the room that keep an edit out of the drafts save the same row. -/
theorem editedPost_policy {policy policy' : Option PostContext} {dto : UpdateDiscussionDto} {p : Discussion}
    (hdirect : DiscussionsService.drafts policy p dto = false)
    (hdirect' : DiscussionsService.drafts policy' p dto = false) :
    DiscussionsService.editedPost dto policy' p = DiscussionsService.editedPost dto policy p := by
  unfold DiscussionsService.editedPost
  by_cases hchanged : DiscussionsService.contentChanged p dto = true
  · rw [if_pos hchanged, if_pos hchanged]
    by_cases hvisible : p.visibility = .visible
    · -- a visible post is saved only where no approval is required
      simp only [DiscussionsService.drafts, hchanged, hvisible, decide_true, Bool.true_and, Bool.and_true,
        Bool.or_eq_false_iff] at hdirect hdirect'
      simp only [DiscussionsService.newVersion, hdirect.1, hdirect'.1]
    · have hheld : (DiscussionsService.edited dto p).visibility ≠ .visible := hvisible
      simp only [DiscussionsService.newVersion, if_pos (Or.inr hheld)]
  · rw [if_neg hchanged, if_neg hchanged]

/-- An edit that goes the same way for both authors has the same result. -/
theorem updateTx (h : s.Alike masks user since s') (editor : Id) (dto : UpdateDiscussionDto)
    {policy policy' : Option PostContext} {p : Discussion} {author : Id}
    (hway : DiscussionsService.drafts policy' p dto = DiscussionsService.drafts policy p dto)
    (hp : p.Alike masks user (signed p author)) :
    Related (fun a b => (DiscussionsService.drafts policy p dto = false → Keeps masks dto p author) →
        a.1.Alike masks user since b.1)
      (DiscussionsService.updateTx w s editor dto policy p)
      (DiscussionsService.updateTx w s' editor dto policy' (signed p author)) := by
  refine .require_bind Iff.rfl fun _ => .require_bind Iff.rfl fun _ => ?_
  have hway' : DiscussionsService.drafts policy' (signed p author) dto = true
      ↔ DiscussionsService.drafts policy p dto = true := Bool.eq_iff_iff.mp hway
  refine .ite hway' (fun _ => ?_) fun hdirect => ?_
  · exact (h.saveDraft editor dto hp).imp fun _ _ hab _ => hab
  · rw [Bool.not_eq_true] at hdirect
    have hsame : DiscussionsService.saveEdit w s' editor dto policy' (signed p author)
        = DiscussionsService.saveEdit w s' editor dto policy (signed p author) := by
      have hedited : DiscussionsService.editedPost dto policy' (signed p author)
          = DiscussionsService.editedPost dto policy (signed p author) :=
        editedPost_policy hdirect (hway.trans hdirect)
      unfold DiscussionsService.saveEdit
      rw [hedited]
    rw [hsame]
    exact (h.saveEdit editor dto policy hp).imp fun _ _ hab hkeep => hab (hkeep hdirect)

end Db.Alike

/-- The answer of the room to the author of a post, with the role of the editor. -/
def roomPolicy (w : World) (s : Db) (role : Option Role) (p : Discussion) :
    Except HttpError (Option PostContext) :=
  RoomsService.assertCanPostTo w (RoomsService.autoJoinTo s p.roomId p.authorId) p.roomId
    ⟨some p.authorId, role⟩

/-- What an edit comes to by its first checks and the answer of the room: a draft, or an edit of the post itself. -/
def editWay (w : World) (s : Db) (id : UuidText) (user : GatewayUser) (dto : UpdateDiscussionDto) :
    Except HttpError Bool := do
  let edit ← DiscussionsService.updatePrelude w s id user dto
  let policy ← roomPolicy w s user.role edit.2
  return DiscussionsService.drafts policy edit.2 dto

/-- The edit takes the anonymity from a post: all its checks pass, it goes to the post itself, and
it clears the flag. -/
def unmasksPost (w : World) (s : Db) (id : UuidText) (user : GatewayUser)
    (dto : UpdateDiscussionDto) : Option Discussion :=
  match DiscussionsService.updatePrelude w s id user dto with
  | .ok (_, p) =>
    match roomPolicy w s user.role p with
    | .ok policy =>
      if p.isAnonymous = true ∧ dto.isAnonymous = some false
          ∧ DiscussionsService.drafts policy p dto = false
          ∧ (p.pendingRevision.isSome → dto.expectedVersion.isSome)
          ∧ (∀ v ∈ dto.expectedVersion, p.contentVersion = v)
          ∧ (DiscussionsService.checkTags s dto.tagIds).isOk
          ∧ s.revisions.get? (p.id, p.contentVersion + 1) = none then some p
      else none
    | .error _ => none
  | .error _ => none

namespace Db.Alike

/-- An edit of the post itself that went through has passed its checks. -/
theorem checks_of_saveEdit {editor : Id} {dto : UpdateDiscussionDto} {policy : Option PostContext}
    {p : Discussion} {a : Db × Unit} (hclears : p.isAnonymous = true ∧ dto.isAnonymous = some false)
    (h : DiscussionsService.saveEdit w s editor dto policy p = .ok a) :
    (DiscussionsService.checkTags s dto.tagIds).isOk
      ∧ s.revisions.get? (p.id, p.contentVersion + 1) = none := by
  have hchanged : DiscussionsService.contentChanged p dto = true := by
    refine decide_eq_true (.inr (.inr (.inr (.inr (.inl ⟨false, hclears.2, ?_⟩)))))
    rw [hclears.1]
    exact Bool.false_ne_true
  simp only [DiscussionsService.saveEdit, bind_eq_ok] at h
  obtain ⟨t, htags, t₁, hrecord, -⟩ := h
  have hrevisions : t.revisions = s.revisions := by rw [retagTo_eq htags]
  constructor
  · cases hids : dto.tagIds with
    | none => rfl
    | some ids =>
      rw [hids] at htags
      simp only [DiscussionsService.retagTo, DiscussionsService.retag, bind_eq_ok] at htags
      obtain ⟨tags, htags, -⟩ := htags
      rw [DiscussionsService.checkTags, htags]
      rfl
  · simp only [DiscussionsService.recordVersion, hchanged, if_true, bind_eq_ok,
      Db.insertRevision, require_eq_ok] at hrecord
    obtain ⟨_, ⟨_, hfree, -⟩, -⟩ := hrecord
    rw [← hrevisions]
    exact hfree

/-- The author joins the room, the viewer or, for a moderator, someone else, in both stores. -/
theorem autoJoin_author (h : s.Alike masks user since s') {p : Discussion} {author : Id}
    (hp : p.Alike masks user (signed p author)) :
    (RoomsService.autoJoinTo s p.roomId p.authorId).Alike masks user since
      (RoomsService.autoJoinTo s' p.roomId author) := by
  by_cases hown : user.id = some p.authorId
  · have hauthor : author = p.authorId := congrArg Discussion.authorId (hp.own (.inl hown))
    rw [hauthor]
    exact h.autoJoinTo p.roomId p.authorId
  · exact h.autoJoinTo_of_ne p.roomId hown (mt hp.isAuthor.mp hown)

/-- The room answers the same about the viewer. -/
theorem roomPolicy_own (h : s.Alike masks user since s') {p : Discussion} {author : Id}
    (hp : p.Alike masks user (signed p author)) (hown : user.id = some p.authorId) :
    roomPolicy w s' user.role (signed p author) = roomPolicy w s user.role p := by
  have hauthor : author = p.authorId := congrArg Discussion.authorId (hp.own (.inl hown))
  have huser : (⟨some p.authorId, user.role⟩ : GatewayUser) = user := by rw [← hown]
  rw [hauthor]
  unfold roomPolicy
  rw [huser]
  exact (congrArg _ huser).trans ((h.autoJoinTo p.roomId p.authorId).assertCanPostTo w _)

/-- Both edits pass the first checks, or fail alike. -/
theorem updatePrelude (h : s.Alike masks user since s') (id : UuidText)
    (dto : UpdateDiscussionDto) :
    Related (fun a b => a.1 = b.1 ∧ a.2.Alike masks user b.2
        ∧ AcaSocial.canManage a.2.authorId user
        ∧ s.post? id.id = some a.2 ∧ s'.post? id.id = some b.2)
      (DiscussionsService.updatePrelude w s id user dto)
      (DiscussionsService.updatePrelude w s' id user dto) := by
  refine .bind_same rfl fun editor _ => .bind_same rfl fun _ _ => ?_
  refine .orThrow_bind (h.post? id.id) fun p p' hp hp' hpp' => ?_
  refine .bind_same (by unfold requireManager; rw [hpp'.canManage]) fun _ hmanage => ?_
  rw [requireManager_eq_ok] at hmanage
  refine .bind_same (by unfold requireOpen; rw [hpp'.status]) fun _ _ => ?_
  exact .ok ⟨rfl, hpp', hmanage, hp, hp'⟩

/-- An edit comes to the same in both stores when the rooms answer a moderator alike about the two authors. -/
theorem editWay_congr (h : s.Alike masks user since s') (id : UuidText) (dto : UpdateDiscussionDto)
    (hpolicy : user.isModerator → ∀ p p', s.post? id.id = some p → s'.post? id.id = some p' →
      roomPolicy w s' user.role p' = roomPolicy w s user.role p) :
    editWay w s' id user dto = editWay w s id user dto := by
  refine (Related.eq ?_).symm
  refine .bind (h.updatePrelude id dto) ?_
  rintro ⟨editor, p⟩ ⟨editor', p'⟩ ⟨-, hpp', hmanage, hp, hp'⟩
  obtain ⟨author, rfl⟩ : ∃ author, p' = signed p author := ⟨_, eq_signed hpp' hmanage⟩
  have hpp' : p.Alike masks user (signed p author) := hpp'
  have hroom : roomPolicy w s' user.role (signed p author) = roomPolicy w s user.role p := by
    rcases (canManage_iff.mp hmanage).2 with hown | hmoderator
    · exact h.roomPolicy_own hpp' hown
    · exact hpolicy hmoderator p _ hp hp'
  exact .bind_same hroom fun policy _ => .ok rfl

/-- The answers of the room in two stores in which an edit comes to the same. -/
theorem roomPolicy_related {p : Discussion} {author : Id} {id : UuidText} {dto : UpdateDiscussionDto} {editor editor' : Id}
    (hprelude : DiscussionsService.updatePrelude w s id user dto = .ok (editor, p))
    (hprelude' : DiscussionsService.updatePrelude w s' id user dto = .ok (editor', signed p author))
    (hway : editWay w s' id user dto = editWay w s id user dto) :
    Related (fun policy policy' => DiscussionsService.drafts policy' p dto = DiscussionsService.drafts policy p dto)
      (roomPolicy w s user.role p) (roomPolicy w s' user.role (signed p author)) := by
  simp only [editWay, hprelude, hprelude', ok_bind] at hway
  cases hroom : roomPolicy w s user.role p with
  | error e =>
    cases hroom' : roomPolicy w s' user.role (signed p author) with
    | error e' =>
      rw [hroom, hroom'] at hway
      obtain rfl := Except.error.inj hway
      exact .error e'
    | ok policy' =>
      rw [hroom, hroom'] at hway
      cases hway
  | ok policy =>
    cases hroom' : roomPolicy w s' user.role (signed p author) with
    | error e' =>
      rw [hroom, hroom'] at hway
      cases hway
    | ok policy' =>
      rw [hroom, hroom'] at hway
      exact .ok (Except.ok.inj hway)

/-- An edit that comes to the same leaves stores alike, and responds the same, unless it takes the anonymity from a post
whose author differs. -/
theorem update (h : s.Alike masks user since s') (id : UuidText) (dto : UpdateDiscussionDto)
    (hway : editWay w s' id user dto = editWay w s id user dto)
    (hunmask : masks = true → ∀ p p', s.post? id.id = some p → s'.post? id.id = some p' →
      unmasksPost w s id user dto = some p → p'.authorId = p.authorId) :
    (DiscussionsService.update w s id user dto).Alike (Db.Alike masks user since)
      (DiscussionsService.update w s' id user dto) := by
  refine attempt_alike h ((h.updatePrelude id dto).imp_ok fun a b hok hok' hab => And.intro (And.intro hok hok') hab) ?_
  rintro ⟨editor, p⟩ ⟨editor', p'⟩ ⟨⟨hok, hok'⟩, heditor, hpp', hmanage, hp, hp'⟩
  obtain rfl : editor = editor' := heditor
  obtain ⟨author, rfl⟩ : ∃ author, p' = signed p author := ⟨_, eq_signed hpp' hmanage⟩
  have hpp' : p.Alike masks user (signed p author) := hpp'
  have hjoined := h.autoJoin_author hpp'
  refine hjoined.commit_findOne ?_ _
  refine .bind ((roomPolicy_related hok hok' hway).imp_ok fun policy policy' hallowed _ hsame =>
    And.intro hallowed hsame) ?_
  rintro policy policy' ⟨hallowed, hsame⟩
  refine (hjoined.updateTx editor dto hsame hpp').imp_ok fun a b ha _ hab => hab ?_
  -- an edit that went through has passed the checks of `unmasksPost`
  intro hdirect hmasks hanonymous hflag
  simp only [DiscussionsService.updateTx, bind_eq_ok, require_eq_ok, hdirect, Bool.false_eq_true,
    if_false] at ha
  obtain ⟨-, hexpected, -, hversion, hsave⟩ := ha
  have hchecks := checks_of_saveEdit ⟨hanonymous, hflag⟩ hsave
  have hjoinedTags : DiscussionsService.checkTags (RoomsService.autoJoinTo s p.roomId p.authorId)
      dto.tagIds = DiscussionsService.checkTags s dto.tagIds := by
    cases p.roomId <;> rfl
  have hjoinedRevisions : (RoomsService.autoJoinTo s p.roomId p.authorId).revisions
      = s.revisions := congrArg Content.revisions (autoJoinTo_toContent s p.roomId p.authorId)
  rw [hjoinedTags, hjoinedRevisions] at hchecks
  refine hunmask hmasks p _ hp hp' ?_
  simp only [unmasksPost, hok, hallowed]
  exact if_pos ⟨hanonymous, hflag, hdirect, hexpected, hversion, hchecks.1, hchecks.2⟩

end Db.Alike

end AcaSocial
