import AcaSocial.Discussion.AlikeSteps

/-!
# Drafts and edits of the post itself

A room that requires approval keeps the edit of a visible post as a draft, and another one has it saved in the post. Of
a draft nobody but the author of the post is shown anything.

* **`respondAs`** — the response to an edit that the room lets through, in either way.
* **`EditShows`** — saved in the post, the edit changes what others are shown of it.
* **`respondAs_eq_iff`** — otherwise the two responses to another moderator are the same.
-/

namespace AcaSocial

variable {user : GatewayUser} {s t : Db} {w : World}

/-- Who may see a room is read off the rooms and the memberships. -/
theorem requireVisible_congr {r : Option Id} (hrooms : t.rooms = s.rooms)
    (hmemberships : t.memberships = s.memberships) :
    RoomsService.requireVisible t r user = RoomsService.requireVisible s r user := by
  have hmembership : t.membership? = s.membership? := by
    funext r u
    rw [Db.membership?, hmemberships, Db.membership?]
  cases r with
  | none => rfl
  | some r => simp only [RoomsService.requireVisible, RoomsService.findOne, Db.room?, hrooms,
      hmembership]

namespace DiscussionsService

/-- The tags that a post shows. -/
def shownTags (s : Db) (d : Id) : List Tag := s.tags.select fun t => decide (t.id ∈ s.tagIdsOf d)

/-- What `updateTx` does with an edit that is kept as a draft, or saved in the post. -/
def editAs (w : World) (s : Db) (editor : Id) (dto : UpdateDiscussionDto) (post : Discussion) (draft : Bool) :
    Except HttpError (Db × Unit) := do
  require (post.pendingRevision.isSome → dto.expectedVersion.isSome) (.conflict "Discussion changed; reload")
  require (∀ v ∈ dto.expectedVersion, post.contentVersion = v) (.conflict "Discussion changed; reload")
  if draft then saveDraft s editor dto post else saveEdit w s editor dto none post

/-- The response to such an edit. -/
def respondAs (w : World) (s : Db) (i : Id) (user : GatewayUser) (editor : Id) (dto : UpdateDiscussionDto)
    (post : Discussion) (draft : Bool) : Except HttpError DiscussionDetail := do
  let edit ← editAs w s editor dto post draft
  findOne w edit.1 i user

/-- An edit that is saved in the post goes through, and changes what the post shows or takes an acceptance from it. -/
def EditShows (s : Db) (dto : UpdateDiscussionDto) (post : Discussion) : Prop :=
  (∀ v ∈ dto.expectedVersion, post.contentVersion = v)
    ∧ s.revisions.get? (post.id, post.contentVersion + 1) = none
    ∧ ∃ t, retagTo s post.id dto.tagIds = .ok t
      ∧ ¬ (edited dto post = post ∧ post.acceptedAnswerId = none ∧ post.acceptedCommentId = none
        ∧ shownTags t post.id = shownTags s post.id
        ∧ (attachTo t post.id dto.mediaIds).mediaOf post.id = s.mediaOf post.id)

/-- The answer of the room decides no more than the way of an edit. -/
theorem updateTx_eq (editor : Id) (dto : UpdateDiscussionDto) (policy : Option PostContext) (p : Discussion) :
    updateTx w s editor dto policy p = editAs w s editor dto p (drafts policy p dto) := by
  unfold updateTx editAs
  cases hway : drafts policy p dto with
  | true => rw [if_pos rfl, if_pos rfl]
  | false =>
    have hnone : drafts none p dto = false := by
      simp only [drafts, Bool.and_eq_false_iff, Bool.or_eq_false_iff] at hway ⊢
      exact hway.imp (Or.imp_right fun hnot => ⟨rfl, hnot.2⟩) id
    have hsave : saveEdit w s editor dto policy p = saveEdit w s editor dto none p := by
      unfold saveEdit
      rw [Db.Alike.editedPost_policy hnone hway]
    rw [hsave]

/-- The result of a transaction is that of its body, shown by the response. -/
theorem commit_result {σ ε α β : Type} (s : σ) (body : Except ε (σ × α)) (respond : σ → α → Except ε β) :
    (commit s body respond).result = body >>= fun a => respond a.1 a.2 := by
  cases body <;> rfl

/-- The response to an edit that the room lets through. -/
theorem update_result {id : UuidText} {dto : UpdateDiscussionDto} {editor : Id} {p : Discussion}
    {policy : Option PostContext} (hprelude : updatePrelude w s id user dto = .ok (editor, p))
    (hroom : roomPolicy w s user.role p = .ok policy) :
    (update w s id user dto).result = respondAs w (RoomsService.autoJoinTo s p.roomId p.authorId) id.id user editor dto p
      (drafts policy p dto) := by
  have hroom : RoomsService.assertCanPostTo w (RoomsService.autoJoinTo s p.roomId p.authorId) p.roomId
      ⟨some p.authorId, user.role⟩ = .ok policy := hroom
  simp only [update, hprelude, attempt, hroom, ok_bind, commit_result, updateTx_eq, respondAs]

/-- The response to an edit that the room refuses. -/
theorem update_result_error {id : UuidText} {dto : UpdateDiscussionDto} {e : HttpError}
    (hway : editWay w s id user dto = .error e) : (update w s id user dto).result = .error e := by
  unfold editWay at hway
  cases hprelude : updatePrelude w s id user dto with
  | error e' =>
    rw [hprelude] at hway
    obtain rfl := Except.error.inj hway
    simp only [update, hprelude, attempt]
  | ok edit =>
    obtain ⟨editor, p⟩ := edit
    rw [hprelude] at hway
    cases hroom : roomPolicy w s user.role p with
    | error e' =>
      simp only [hroom, ok_bind] at hway
      obtain rfl := Except.error.inj hway
      have hroom : RoomsService.assertCanPostTo w (RoomsService.autoJoinTo s p.roomId p.authorId) p.roomId
          ⟨some p.authorId, user.role⟩ = .error e' := hroom
      simp only [update, hprelude, attempt, hroom, commit_result]
      rfl
    | ok policy =>
      simp only [hroom, ok_bind] at hway
      cases hway

/-- Tags that an edit may name are those that a draft may name. -/
theorem checkTags_eq (s : Db) (d : Id) (ids : Option (List UuidText)) :
    checkTags s ids = (retagTo s d ids).map fun _ => () := by
  cases ids with
  | none => rfl
  | some ids =>
    cases htags : tags s ids.eraseDups unavailableTags <;>
      simp only [checkTags, retagTo, retag, htags] <;> rfl

section

variable {i editor : Id} {dto : UpdateDiscussionDto} {p : Discussion}

/-- The edit runs into a conflict, whichever way it takes. -/
theorem respondAs_conflict (hnone : p.pendingRevision = none)
    (hversion : ¬ ∀ v ∈ dto.expectedVersion, p.contentVersion = v) (draft : Bool) :
    respondAs w s i user editor dto p draft = .error (.conflict "Discussion changed; reload") := by
  have hdraft : p.pendingRevision.isSome → dto.expectedVersion.isSome := by simp [hnone]
  simp only [respondAs, editAs, require_bind, if_pos hdraft, if_neg hversion]
  rfl

/-- It names tags that it may not name. -/
theorem respondAs_tags {e : HttpError} (hnone : p.pendingRevision = none)
    (hversion : ∀ v ∈ dto.expectedVersion, p.contentVersion = v) (htags : retagTo s p.id dto.tagIds = .error e)
    (draft : Bool) : respondAs w s i user editor dto p draft = .error e := by
  have hdraft : p.pendingRevision.isSome → dto.expectedVersion.isSome := by simp [hnone]
  have hcheck : checkTags s dto.tagIds = .error e := by
    rw [checkTags_eq s p.id, htags]
    rfl
  simp only [respondAs, editAs, require_bind, if_pos hdraft, if_pos hversion]
  cases draft with
  | true =>
    simp only [if_true, saveDraft, hcheck]
    rfl
  | false =>
    simp only [Bool.false_eq_true, if_false, saveEdit, htags]
    rfl

/-- Its version has been recorded before. -/
theorem respondAs_recorded (hnone : p.pendingRevision = none) (hchanged : contentChanged p dto = true)
    (hversion : ∀ v ∈ dto.expectedVersion, p.contentVersion = v) (htags : retagTo s p.id dto.tagIds = .ok t)
    (hrecorded : s.revisions.get? (p.id, p.contentVersion + 1) ≠ none) (draft : Bool) :
    respondAs w s i user editor dto p draft
      = .error (.internal "duplicate key value violates unique constraint") := by
  have hdraft : p.pendingRevision.isSome → dto.expectedVersion.isSome := by simp [hnone]
  have hcheck : checkTags s dto.tagIds = .ok () := by
    rw [checkTags_eq s p.id, htags]
    rfl
  have hrevisions : t.revisions = s.revisions := by rw [retagTo_eq htags]
  -- both ways insert the revision under this number
  have hfail : ∀ (s' : Db) (r : DiscussionRevision), s'.revisions = s.revisions → r.discussionId = p.id →
      r.contentVersion = p.contentVersion + 1 →
      s'.insertRevision r = .error (.internal "duplicate key value violates unique constraint") := by
    intro s' r hsame hid hnumber
    rw [Db.insertRevision, hsame, hid, hnumber, require_bind, if_neg hrecorded]
  simp only [respondAs, editAs, require_bind, if_pos hdraft, if_pos hversion]
  cases draft with
  | true =>
    simp only [if_true, saveDraft, hcheck, ok_bind]
    rw [hfail (s.savePost (withDraft p (draftOf s p dto))) _ rfl rfl rfl]
    rfl
  | false =>
    simp only [Bool.false_eq_true, if_false, saveEdit, htags, ok_bind, recordVersion, hchanged, if_true]
    rw [hfail t _ hrevisions rfl rfl]
    rfl

/-! ### Edits that go through

What the two services answer to an edit that none of their checks stops: an edit that saves shows the new text, an
edit that asks for review shows the old one. -/

/-- A draft leaves all that the post shows as it was. -/
theorem saveDraft_ok (editor : Id) (hp : s.post? i = some p) (htags : retagTo s p.id dto.tagIds = .ok t)
    (hfree : s.revisions.get? (p.id, p.contentVersion + 1) = none) :
    ∃ s', saveDraft s editor dto p = .ok (s', ()) ∧ s'.post? i = some (withDraft p (draftOf s p dto))
      ∧ s' = { s with discussions := s'.discussions, revisions := s'.revisions } := by
  have hcheck : checkTags s dto.tagIds = .ok () := by
    rw [checkTags_eq s p.id, htags]
    rfl
  have hfree : (s.savePost (withDraft p (draftOf s p dto))).revisions.get?
      ((withDraft p (draftOf s p dto)).id, (withDraft p (draftOf s p dto)).contentVersion) = none := hfree
  simp only [saveDraft, hcheck, ok_bind, Db.insertRevision, require_bind, if_pos hfree]
  refine ⟨_, rfl, ?_, rfl⟩
  exact Db.post?_savePost hp rfl (Content.post?_eq_some.mp hp).2.2

/-- An edit of the post itself. -/
theorem saveEdit_saved (w : World) (editor : Id) (hp : s.post? i = some p) (hchanged : contentChanged p dto = true)
    (htags : retagTo s p.id dto.tagIds = .ok t)
    (hfree : s.revisions.get? (p.id, p.contentVersion + 1) = none) :
    ∃ s', saveEdit w s editor dto none p = .ok (s', ()) ∧ s'.post? i = some (editedPost dto none p)
      ∧ s'.rooms = s.rooms ∧ s'.memberships = s.memberships ∧ s'.votes = s.votes
      ∧ shownTags s' p.id = shownTags t p.id ∧ s'.mediaOf p.id = (attachTo t p.id dto.mediaIds).mediaOf p.id := by
  have hfree : t.revisions.get? (p.id, p.contentVersion + 1) = none := by
    rw [retagTo_eq htags]
    exact hfree
  obtain ⟨t₁, hrecord, hkept⟩ : ∃ t₁, recordVersion w t editor dto p = .ok t₁
      ∧ t₁ = { t with revisions := t₁.revisions, acceptances := t₁.acceptances } := by
    have hok : ∃ t₁, recordVersion w t editor dto p = .ok t₁ := by
      simp only [recordVersion, hchanged, if_true, Db.insertRevision, require_bind, if_pos hfree]
      exact ⟨_, rfl⟩
    obtain ⟨t₁, hrecord⟩ := hok
    exact ⟨t₁, hrecord, recordVersion_eq hrecord⟩
  have hedited : (editedPost dto none p).id = p.id ∧ (editedPost dto none p).deletedAt = none := by
    have hlive := (Content.post?_eq_some.mp hp).2.2
    unfold editedPost
    rw [if_pos hchanged]
    exact ⟨rfl, hlive⟩
  have hfound : t₁.post? i = some p := by
    rw [hkept, retagTo_eq htags]
    exact hp
  have hsaved := Db.post?_savePost hfound hedited.1 hedited.2
  simp only [saveEdit, htags, hrecord, ok_bind]
  refine ⟨_, rfl, ?_, ?_, ?_, ?_, ?_, ?_⟩
  · rw [attachTo_eq]
    exact hsaved
  · rw [attachTo_eq, hkept, retagTo_eq htags]
    rfl
  · rw [attachTo_eq, hkept, retagTo_eq htags]
    rfl
  · rw [attachTo_eq, hkept, retagTo_eq htags]
    rfl
  · rw [attachTo_eq, hkept]
    rfl
  · cases dto.mediaIds <;> (rw [hkept]; rfl)

/-- The view of a post that has been saved. -/
theorem findOne_saved (hmoderator : user.isModerator = true) (hp : t.post? i = some p)
    (hrooms : t.rooms = s.rooms) (hmemberships : t.memberships = s.memberships)
    (hvisible : RoomsService.requireVisible s p.roomId user = .ok ()) :
    findOne w t i user = .ok { ContentPresenter.discussion w t user p with acceptedAnswer := acceptedView w t user p } := by
  have hreadable : requireReadable p user = .ok () := requireReadable_eq_ok.mpr (.inr (.inl hmoderator))
  have hvisible : RoomsService.requireVisible t p.roomId user = .ok () :=
    (requireVisible_congr hrooms hmemberships).trans hvisible
  simp only [findOne, hp, orThrow_some, ok_bind, hreadable, hvisible]
  rfl

/-- Nobody but its author is shown the draft of a post. -/
theorem discussion_draft {s' : Db} {draft : Option PendingRevision} (hother : user.id ≠ some p.authorId)
    (hvotes : s'.votes = s.votes) (htags : shownTags s' p.id = shownTags s p.id) (hmedia : s'.mediaOf p.id = s.mediaOf p.id) :
    ContentPresenter.discussion w s' user { p with pendingRevision := draft } = ContentPresenter.discussion w s user p := by
  unfold shownTags at htags
  unfold ContentPresenter.discussion ContentPresenter.discussionView ContentPresenter.overlay
  dsimp only [Discussion.item]
  rw [hvotes, htags, hmedia, if_neg hother, if_neg hother]
  rfl

/-- **The two ways of an edit**: the responses to a moderator who has not written the post are the same, if and only if
the edit that is saved in the post shows nothing. -/
theorem respondAs_eq_iff (hmoderator : user.isModerator = true) (hother : user.id ≠ some p.authorId)
    (hp : s.post? i = some p) (hchanged : contentChanged p dto = true) (hnone : p.pendingRevision = none)
    (hvisible : p.visibility = .visible) (hroom : RoomsService.requireVisible s p.roomId user = .ok ()) :
    respondAs w s i user editor dto p false = respondAs w s i user editor dto p true ↔ ¬ EditShows s dto p := by
  by_cases hversion : ∀ v ∈ dto.expectedVersion, p.contentVersion = v
  swap
  · rw [respondAs_conflict hnone hversion, respondAs_conflict hnone hversion]
    exact iff_of_true rfl fun hshows => hversion hshows.1
  cases htags : retagTo s p.id dto.tagIds with
  | error e =>
    rw [respondAs_tags hnone hversion htags, respondAs_tags hnone hversion htags]
    refine iff_of_true rfl ?_
    rintro ⟨-, -, t, ht, -⟩
    cases htags.symm.trans ht
  | ok t =>
  by_cases hfree : s.revisions.get? (p.id, p.contentVersion + 1) = none
  swap
  · rw [respondAs_recorded hnone hchanged hversion htags hfree, respondAs_recorded hnone hchanged hversion htags hfree]
    exact iff_of_true rfl fun hshows => hfree hshows.2.1
  obtain ⟨d, hdraft, hdrafted, hkept⟩ := saveDraft_ok editor hp htags hfree
  obtain ⟨e, hedit, hedited, hrooms, hmemberships, hvotes, hshownTags, hshownMedia⟩ :=
    saveEdit_saved w editor hp hchanged htags hfree
  have hexpected : p.pendingRevision.isSome → dto.expectedVersion.isSome := by simp [hnone]
  have hsaved : editedPost dto none p = unaccepted (newVersion none (edited dto p)) := if_pos hchanged
  -- the two responses
  have hone : respondAs w s i user editor dto p true = .ok { ContentPresenter.discussion w d user
      (withDraft p (draftOf s p dto)) with acceptedAnswer := acceptedView w d user (withDraft p (draftOf s p dto)) } := by
    simp only [respondAs, editAs, require_bind, if_pos hexpected, if_pos hversion, if_true, hdraft, ok_bind]
    exact findOne_saved hmoderator hdrafted (by rw [hkept]) (by rw [hkept]) hroom
  have htwo : respondAs w s i user editor dto p false = .ok { ContentPresenter.discussion w e user
      (editedPost dto none p) with acceptedAnswer := acceptedView w e user (editedPost dto none p) } := by
    simp only [respondAs, editAs, require_bind, if_pos hexpected, if_pos hversion, Bool.false_eq_true, if_false, hedit,
      ok_bind]
    refine findOne_saved hmoderator hedited hrooms hmemberships ?_
    rw [hsaved]
    exact hroom
  rw [hone, htwo]
  have hlive : p.deletedAt = none := (Content.post?_eq_some.mp hp).2.2
  have hsame : shownTags d p.id = shownTags s p.id ∧ d.mediaOf p.id = s.mediaOf p.id ∧ d.votes = s.votes := by
    rw [hkept]
    exact ⟨rfl, rfl, rfl⟩
  constructor
  · rintro heq ⟨-, -, t', ht', hshows⟩
    obtain rfl := Except.ok.inj (htags.symm.trans ht')
    have heq := Except.ok.inj heq
    rw [hsaved] at heq
    -- what the two responses show, column by column
    have htitle : dto.title.getD p.title = p.title := congrArg (fun v => v.title) heq
    have hcontent : dto.content.getD p.content = p.content := by
      have hview : (if p.deletedAt.isSome then ContentPresenter.deletedContent else dto.content.getD p.content)
          = if p.deletedAt.isSome then ContentPresenter.deletedContent else p.content := congrArg (fun v => v.content) heq
      rw [hlive] at hview
      exact hview
    have hflag : dto.isAnonymous.getD p.isAnonymous = p.isAnonymous := by
      have hview : (dto.isAnonymous.getD p.isAnonymous || p.deletedAt.isSome) = (p.isAnonymous || p.deletedAt.isSome) :=
        congrArg (fun v => v.isAnonymous) heq
      rw [hlive, Option.isSome_none, Bool.or_false, Bool.or_false] at hview
      exact hview
    have hanswer : none = p.acceptedAnswerId := congrArg (fun v => v.acceptedAnswerId) heq
    have hcomment : none = p.acceptedCommentId := congrArg (fun v => v.acceptedCommentId) heq
    have htagged : shownTags e p.id = shownTags d p.id := congrArg (fun v => v.tags) heq
    have hmedia : e.mediaOf p.id = d.mediaOf p.id := congrArg (fun v => v.media) heq
    refine hshows ⟨?_, hanswer.symm, hcomment.symm, ?_, ?_⟩
    · unfold edited
      rw [htitle, hcontent, hflag]
    · rw [← hshownTags, htagged, hsame.1]
    · rw [← hshownMedia, hmedia, hsame.2.1]
  · intro hhidden
    obtain ⟨hunchanged, hanswer, hcomment, htagged, hmedia⟩ :=
      Classical.byContradiction fun hnot => hhidden ⟨hversion, hfree, t, htags, hnot⟩
    have hpost : editedPost dto none p = { withDraft p (draftOf s p dto) with pendingRevision := none } := by
      rw [hsaved, hunchanged]
      simp only [unaccepted, newVersion, withDraft, hanswer, hcomment, hvisible]
      rfl
    have hview : ContentPresenter.discussion w e user (editedPost dto none p)
        = ContentPresenter.discussion w d user (withDraft p (draftOf s p dto)) := by
      rw [hpost]
      refine discussion_draft hother (hvotes.trans hsame.2.2.symm) ?_ ?_
      · exact hshownTags.trans (htagged.trans hsame.1.symm)
      · exact hshownMedia.trans (hmedia.trans hsame.2.1.symm)
    have haccepted : acceptedView w e user (editedPost dto none p)
        = acceptedView w d user (withDraft p (draftOf s p dto)) := by
      rw [hpost]
      simp only [acceptedView, withDraft, hanswer, hcomment, Option.bind_none]
      rfl
    rw [hview, haccepted]

end

end DiscussionsService

/-! ## In two stores

The same edit of a signed and of an unsigned post. Every check reads the policy, the room and the closing of the post,
in none of which the two stores differ. -/

namespace Db.Alike

open DiscussionsService

variable {masks : Bool} {since : Id} {s' : Db} {p : Discussion} {author : Id}

/-- The responses to a draft are the same. -/
theorem respondAs_draft (h : s.Alike masks user since s') (hp : p.Alike masks user (signed p author)) (i editor : Id)
    (dto : UpdateDiscussionDto) :
    respondAs w s' i user editor dto (signed p author) true = respondAs w s i user editor dto p true := by
  refine (Related.eq ?_).symm
  have hedit : Related (fun a b => a.1.Alike masks user since b.1) (editAs w s editor dto p true)
      (editAs w s' editor dto (signed p author) true) :=
    .require_bind Iff.rfl fun _ => .require_bind Iff.rfl fun _ => h.saveDraft editor dto hp
  exact .bind hedit fun a b hab => .of_eq (fun _ => rfl) (hab.findOne i).symm

/-- An edit changes a signed row when it changes the unsigned one. -/
theorem edited_signed (dto : UpdateDiscussionDto) : edited dto (signed p author) = signed p author ↔ edited dto p = p := by
  constructor
  · intro h
    have hback : signed (signed (edited dto p) author) p.authorId = signed (signed p author) p.authorId :=
      congrArg (fun q => signed q p.authorId) h
    exact hback
  · intro h
    show signed (edited dto p) author = signed p author
    rw [h]

/-- The edit shows something in both stores, or in none. -/
theorem editShows (h : s.Alike masks user since s') (dto : UpdateDiscussionDto) :
    EditShows s' dto (signed p author) ↔ EditShows s dto p := by
  have htagged : ∀ {t t' : Db}, t.Alike masks user since t' → shownTags t' p.id = shownTags t p.id := by
    intro t t' ht
    unfold shownTags
    rw [ht.tags, ht.tagIdsOf]
  have hmedia : ∀ {t t' : Db}, t.Alike masks user since t' → t'.mediaOf p.id = t.mediaOf p.id := by
    intro t t' ht
    rw [Content.mediaOf, ht.media, Content.mediaOf]
  refine and_congr_right fun _ => and_congr (h.revisions.get?_eq_none_iff _) ?_
  -- the tags are found in both stores or in none
  rcases (h.retagTo p.id dto.tagIds).elim with ⟨e, hx, hy⟩ | ⟨t, t', hx, hy, ht⟩
  · have hy : DiscussionsService.retagTo s' (signed p author).id dto.tagIds = .error e := hy
    rw [hx, hy]
    refine iff_of_false ?_ ?_ <;> (rintro ⟨t, ht, -⟩; cases ht)
  · have hy : DiscussionsService.retagTo s' (signed p author).id dto.tagIds = .ok t' := hy
    -- nothing that the edit shows depends on the author
    have hpart : (edited dto (signed p author) = signed p author ∧ p.acceptedAnswerId = none ∧ p.acceptedCommentId = none
        ∧ shownTags t' p.id = shownTags s' p.id
        ∧ (DiscussionsService.attachTo t' p.id dto.mediaIds).mediaOf p.id = s'.mediaOf p.id)
      ↔ (edited dto p = p ∧ p.acceptedAnswerId = none ∧ p.acceptedCommentId = none
        ∧ shownTags t p.id = shownTags s p.id
        ∧ (DiscussionsService.attachTo t p.id dto.mediaIds).mediaOf p.id = s.mediaOf p.id) := by
      rw [edited_signed, htagged ht, htagged h, hmedia (ht.attachTo p.id dto.mediaIds), hmedia h]
    rw [hx, hy]
    constructor
    · rintro ⟨_, hok, hshows⟩
      obtain rfl := Except.ok.inj hok
      exact ⟨t, rfl, mt hpart.mpr hshows⟩
    · rintro ⟨_, hok, hshows⟩
      obtain rfl := Except.ok.inj hok
      exact ⟨t', rfl, mt hpart.mp hshows⟩

end Db.Alike

end AcaSocial
