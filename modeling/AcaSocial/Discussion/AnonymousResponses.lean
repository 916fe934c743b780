import AcaSocial.Discussion.AlikeChildren
import AcaSocial.Discussion.EditWays
import AcaSocial.Discussion.ThreadRefinement

/-!
# Anonymous authors in responses

What a viewer is told of two stores that differ in the authors of anonymous content.

* **`Db.SameMasked`** — the same store, but for the authors of anonymous posts, comments and
  answers, and what was recorded of them. The viewer is none of these authors.
* **`unmasked`** — three edits of a moderator and the acceptance of an answer respond with an author
  that the lists mask.
* **`SameEdit`** — whether an edit of a moderator waits as a draft is up to the room's rule for the
  author, and the response shows it.
* **`sameResponse_iff_unmasked`** — these calls are the only ones that tell the stores apart.
-/

namespace AcaSocial

instance : Authored Discussion where
  authorId := Discussion.authorId
  isAnonymous := Discussion.isAnonymous
  signed p author := { p with authorId := author }
  authorId_signed _ _ := rfl
  signed_authorId _ := rfl

/-- The same store, but for who wrote what is anonymous, and for what was recorded of it. -/
structure Db.SameMasked (user : GatewayUser) (s s' : Db) : Prop where
  tables : s' = { s with
    discussions := s'.discussions, comments := s'.comments, answers := s'.answers,
    revisions := s'.revisions, answerRevisions := s'.answerRevisions, reviews := s'.reviews,
    memberships := s'.memberships, outbox := s'.outbox }
  discussions : s.discussions.Alike (Authored.Alike true user) s'.discussions
  comments : s.comments.Alike (Authored.Alike true user) s'.comments
  answers : s.answers.Alike (Authored.Alike true user) s'.answers
  revisions : s.revisions.Alike (fun _ _ => True) s'.revisions
  answerRevisions : s.answerRevisions.Alike (fun _ _ => True) s'.answerRevisions
  memberships : ∀ u, user.id = some u → ∀ r, s'.membership? r u = s.membership? r u
  outbox : s'.outbox.next = s.outbox.next

variable {masks : Bool} {user : GatewayUser} {since : Id} {s s' t : Db} {w : World}

/-- Posts that differ in a masked author are alike. -/
theorem Authored.Alike.discussion {p p' : Discussion} (h : Authored.Alike true user p p') :
    p.Alike true user p' := by
  have hlabels : p' = { p with authorId := p'.authorId } := h.labels
  refine ⟨?_, h.own, fun _ => ?_, fun _ => ?_, ?_, h.author⟩
  · rw [hlabels]
    rfl
  all_goals rw [hlabels]
  · exact ⟨rfl, rfl⟩
  · exact ⟨rfl, rfl⟩

/-- Stores that differ in masked authors are alike. -/
theorem Db.SameMasked.alike (h : s.SameMasked user s') :
    s.Alike true user s.outbox.next s' where
  discussions := h.discussions.imp fun _ _ hp => hp.discussion
  comments := h.comments
  answers := h.answers
  revisions := h.revisions
  answerRevisions := h.answerRevisions
  media := by rw [h.tables]
  tags := by rw [h.tables]
  discussionTags := by rw [h.tables]
  acceptances := by rw [h.tables]
  votes := by rw [h.tables]
  rooms := by rw [h.tables]
  bindings := by rw [h.tables]
  memberships := h.memberships
  outbox := h.outbox
  started := Nat.le_refl _
  events := fun hmasks => (by cases hmasks)

/-! ## The calls that name a masked author

Four calls respond with a row as it is stored, or lift the mask of a row. `unmasked` evaluates the checks of these in
the state before the call. -/

/-- The author that a response names. -/
def Response.author : Response → Option Id
  | .discussion d => d.authorId
  | .answer a => some a.authorId
  | .comment c => c.authorId
  | _ => none

section Discussions

open DiscussionsService

/-- What an edit that lifts the mask has checked. -/
theorem checks_of_unmasksPost {id : UuidText} {dto : UpdateDiscussionDto} {p : Discussion}
    (h : unmasksPost w s id user dto = some p) :
    ∃ editor policy, updatePrelude w s id user dto = .ok (editor, p)
      ∧ roomPolicy w s user.role p = .ok policy ∧ p.isAnonymous = true
      ∧ dto.isAnonymous = some false ∧ drafts policy p dto = false
      ∧ (p.pendingRevision.isSome → dto.expectedVersion.isSome)
      ∧ (∀ v ∈ dto.expectedVersion, p.contentVersion = v) ∧ (checkTags s dto.tagIds).isOk
      ∧ s.revisions.get? (p.id, p.contentVersion + 1) = none := by
  unfold unmasksPost at h
  split at h
  · next editor q hprelude =>
    split at h
    · next policy hpolicy =>
      split at h
      · next hchecks =>
        obtain rfl := Option.some.inj h
        exact ⟨editor, policy, hprelude, hpolicy, hchecks⟩
      · cases h
    · cases h
  · cases h

/-- Tags that are checked can be set. -/
theorem retagTo_ok {d : Id} {ids : Option (List UuidText)} (h : (checkTags s ids).isOk) :
    ∃ t, retagTo s d ids = .ok t := by
  cases ids with
  | none => exact ⟨s, rfl⟩
  | some ids =>
    cases htags : tags s ids.eraseDups unavailableTags with
    | error e =>
      rw [checkTags, htags] at h
      cases h
    | ok tags =>
      simp only [retagTo, retag, htags, ok_bind]
      exact ⟨_, rfl⟩

/-- An edit of the post itself goes through, and the post is saved. -/
theorem saveEdit_ok (editor : Id) {dto : UpdateDiscussionDto} (policy : Option PostContext)
    {p : Discussion} (htags : (checkTags s dto.tagIds).isOk)
    (hfree : s.revisions.get? (p.id, p.contentVersion + 1) = none) :
    ∃ t, saveEdit w s editor dto policy p = .ok (t, ())
      ∧ t.discussions = s.discussions.save (editedPost dto policy p)
      ∧ t.rooms = s.rooms ∧ t.memberships = s.memberships := by
  obtain ⟨t, ht⟩ := retagTo_ok (d := p.id) htags
  have hfree : t.revisions.get? (p.id, p.contentVersion + 1) = none := by
    rw [retagTo_eq ht]
    exact hfree
  obtain ⟨t₁, ht₁⟩ : ∃ t₁, recordVersion w t editor dto p = .ok t₁ := by
    unfold recordVersion
    split
    · simp only [Db.insertRevision, require_bind, if_pos hfree]
      exact ⟨_, rfl⟩
    · exact ⟨t, rfl⟩
  have hkept : t₁.discussions = s.discussions ∧ t₁.rooms = s.rooms
      ∧ t₁.memberships = s.memberships := by
    rw [recordVersion_eq ht₁, retagTo_eq ht]
    exact ⟨rfl, rfl, rfl⟩
  refine ⟨attachTo (t₁.savePost (editedPost dto policy p)) p.id dto.mediaIds, ?_, ?_⟩
  · simp only [saveEdit, ht, ht₁, ok_bind]
    rfl
  · rw [← hkept.1, ← hkept.2.1, ← hkept.2.2]
    cases dto.mediaIds <;> exact ⟨rfl, rfl, rfl⟩

/-- A room in which the author may post is visible to the author and to a moderator. -/
theorem requireVisible_of_assertCanPostTo {r : Option Id} {author : Id}
    {policy : Option PostContext} (hmanage : canManage author user)
    (h : RoomsService.assertCanPostTo w s r ⟨some author, user.role⟩ = .ok policy) :
    RoomsService.requireVisible s r user = .ok () := by
  cases r with
  | none => rfl
  | some r =>
    cases hallowed : RoomsService.assertCanPost w s r ⟨some author, user.role⟩ with
    | error e =>
      rw [RoomsService.assertCanPostTo, hallowed] at h
      cases h
    | ok context =>
      simp only [RoomsService.assertCanPost, bind_eq_ok, authenticated_eq_ok, orThrow_eq_ok,
        require_eq_ok] at hallowed
      obtain ⟨actor, hactor, room, hroom, -, -, -, -, -, -, -, hprivate, -⟩ := hallowed
      obtain rfl : author = actor := Option.some.inj hactor
      have hid : room.id = r := (Table.get?_eq_some.mp hroom).2
      have hadmitted : room.visibility ≠ .privateRoom ∨ user.isModerator = true
          ∨ (user.id.bind (s.membership? room.id)).any fun m => decide (m.status = .active) := by
        -- the membership that posting asked for is the author's own
        rcases (canManage_iff.mp hmanage).2 with hown | hmoderator
        · refine (em (room.visibility = .privateRoom)).symm.imp_right fun hp => .inr ?_
          rw [hown, hid]
          exact hprivate hp
        · exact .inr (.inl hmoderator)
      simp only [RoomsService.requireVisible, RoomsService.findOne, hroom, orThrow_some, ok_bind,
        require_bind, if_pos hadmitted]
      rfl

/-- The edit responds with the author of the post. -/
theorem names_update {id : UuidText} {dto : UpdateDiscussionDto} {p : Discussion}
    (h : unmasksPost w s id user dto = some p) :
    ∃ d, (update w s id user dto).result = .ok d ∧ d.authorId = some p.authorId := by
  obtain ⟨editor, policy, hprelude, hroom, hanonymous, hflag, hdirect, hexpected, hversion, htags,
    hfree⟩ := checks_of_unmasksPost h
  obtain ⟨-, hp, hmanage, -⟩ := updatePrelude_eq_ok hprelude
  have hjoined := autoJoinTo_toContent s p.roomId p.authorId
  have hcheck : checkTags (RoomsService.autoJoinTo s p.roomId p.authorId) dto.tagIds
      = checkTags s dto.tagIds := by
    cases p.roomId <;> rfl
  have hfree : (RoomsService.autoJoinTo s p.roomId p.authorId).revisions.get?
      (p.id, p.contentVersion + 1) = none := by
    rw [hjoined]
    exact hfree
  -- nothing stops the transaction
  obtain ⟨t, hsave, hdiscussions, hrooms, hmemberships⟩ :=
    saveEdit_ok (w := w) editor policy (hcheck ▸ htags) hfree
  -- what it saves is signed
  have hedited : (editedPost dto policy p).isAnonymous = false
      ∧ (editedPost dto policy p).authorId = p.authorId
      ∧ (editedPost dto policy p).roomId = p.roomId ∧ (editedPost dto policy p).id = p.id
      ∧ (editedPost dto policy p).deletedAt = p.deletedAt := by
    unfold editedPost
    split <;> simp [unaccepted, newVersion, edited, hflag]
  have hlive := Content.post?_eq_some.mp hp
  have hsaved : t.post? id.id = some (editedPost dto policy p) := by
    have hsaves : t.post? id.id = (s.savePost (editedPost dto policy p)).post? id.id := by
      rw [Content.post?, hdiscussions, congrArg Content.discussions hjoined]
      rfl
    rw [hsaves]
    exact Db.post?_savePost hp hedited.2.2.2.1 (hedited.2.2.2.2.trans hlive.2.2)
  have hvisible : RoomsService.requireVisible t (editedPost dto policy p).roomId user = .ok () := by
    rw [hedited.2.2.1, requireVisible_congr hrooms hmemberships]
    exact requireVisible_of_assertCanPostTo hmanage hroom
  have hreadable : requireReadable (editedPost dto policy p) user = .ok () := by
    rw [requireReadable_eq_ok, hedited.2.1]
    exact .inr ((canManage_iff.mp hmanage).2.symm)
  have hbody : updateTx w (RoomsService.autoJoinTo s p.roomId p.authorId) editor dto policy p
      = .ok (t, ()) := by
    simp only [updateTx, require_bind, if_pos hexpected, if_pos hversion, hdirect,
      Bool.false_eq_true, if_false, hsave]
  -- and the response reads it back, for an editor who sees the post
  have hfound : ∃ d, findOne w t id.id user = .ok d ∧ d.authorId = some p.authorId := by
    simp only [findOne, hsaved, orThrow_some, ok_bind, hreadable, hvisible]
    refine ⟨_, rfl, ?_⟩
    simp [ContentPresenter.discussion, ContentPresenter.discussionView, ContentPresenter.overlay,
      ContentPresenter.masked, Discussion.item, hedited.1, hedited.2.1, hedited.2.2.2.2, hlive.2.2]
  have hroom : RoomsService.assertCanPostTo w (RoomsService.autoJoinTo s p.roomId p.authorId)
      p.roomId ⟨some p.authorId, user.role⟩ = .ok policy := hroom
  simp only [update, hprelude, attempt, hroom, ok_bind, hbody, commit_ok]
  exact hfound

end Discussions

/-- The edit responds with the author of the answer. -/
theorem names_updateAnswer {id : UuidText} {dto : UpdateAnswerDto} {a : Answer}
    (h : unmasksAnswer s id user dto = some a) :
    ∃ r, (AnswersService.update w s id dto user).result = .ok r ∧ r.authorId = a.authorId := by
  obtain ⟨q, hlock, hchecks⟩ : ∃ q, AnswersService.lockAnswerAndQuestion s id.id = .ok (a, q)
      ∧ a.isAnonymous = true ∧ canManage a.authorId user ∧ q.status ≠ .closed
      ∧ a.contentVersion = dto.expectedVersion
      ∧ (a.content = dto.content
        ∨ s.answerRevisions.get? (a.id, a.contentVersion + 1) = none) := by
    unfold unmasksAnswer at h
    split at h
    · next a' q hlock =>
      split at h
      · next hchecks =>
        obtain rfl := Option.some.inj h
        exact ⟨q, hlock, hchecks⟩
      · cases h
    · cases h
  obtain ⟨-, hmanage, hopen, hversion, hwritten⟩ := hchecks
  obtain ⟨t, ht, -⟩ := updateAnswerTx_ok (w := w) hlock hmanage hopen hversion hwritten
  obtain ⟨a', r, ha', hr, hauthor, -⟩ := Db.Alike.checks_of_updateAnswerTx ht
  obtain rfl := Option.some.inj
    ((AnswersService.lockAnswerAndQuestion_eq_ok.mp hlock).1.symm.trans ha')
  refine ⟨r, ?_, hauthor⟩
  simp only [AnswersService.update, ht, commit_ok, AnswersService.findOne, hr, orThrow_some]

/-- No acceptance is left after a revocation. -/
theorem activeAcceptances_revoke (s : Db) (d : Id) (now : Time) (actor : Id) (reason : String) :
    (s.revokeAcceptances d now actor reason).activeAcceptances d = [] := by
  refine List.filter_eq_nil_iff.mpr fun r hr => ?_
  obtain ⟨r₀, -, rfl⟩ := List.mem_map.mp hr
  unfold Db.revokedRow
  split
  · simp
  · next hother => simpa using hother

/-- An acceptance goes through when its checks pass and the question has no acceptance that stays. -/
theorem acceptTx_ok {d : UuidText} {dto : AcceptAnswerDto} {q : Discussion} {a : Answer} {actor : Id}
    (hactor : user.id = some actor) (hq : s.post? d.id = some q) (ha : s.answer? dto.answerId.id = some a)
    (hopen : q.status ≠ .closed) (htype : q.postType = .question) (hcan : AnswersService.canAccept q user)
    (happroved : approved q) (hd : a.discussionId = q.id) (hother : a.authorId ≠ actor)
    (hversions : q.contentVersion = dto.expectedQuestionVersion ∧ a.contentVersion = dto.expectedAnswerVersion)
    (hslot : q.acceptedAnswerId.isSome ∨ s.activeAcceptances q.id = []) :
    ∃ t, AnswersService.acceptTx w s d dto user = .ok (t, ()) := by
  simp only [AnswersService.acceptTx, authenticated, hactor, orThrow_some, ok_bind, lockPost, hq, ha, requireOpen,
    requireApproved, require_bind, if_pos hopen, if_pos htype, if_pos hcan, if_pos happroved, if_pos hd,
    if_pos hother, if_pos hversions]
  have hfree : (AnswersService.revokeAcceptance w s q actor "replaced").1.activeAcceptances
      (AnswersService.revokeAcceptance w s q actor "replaced").2.id = [] := by
    unfold AnswersService.revokeAcceptance
    cases haccepted : q.acceptedAnswerId with
    | none =>
      rw [haccepted] at hslot
      exact hslot.resolve_left Bool.false_ne_true
    | some i => exact activeAcceptances_revoke s q.id w.now actor "replaced"
  simp only [AnswersService.insertAcceptance, require_bind, if_pos hfree]
  exact ⟨_, rfl⟩

/-- The acceptance responds with the author of the answer. -/
theorem names_accept {d : UuidText} {dto : AcceptAnswerDto} {a : Answer}
    (h : unmasksAccepted s d user dto = some a) :
    ∃ r, (AnswersService.accept w s d dto user).result = .ok r ∧ r.authorId = a.authorId := by
  obtain ⟨q, hq, ha, hchecks⟩ : ∃ q, s.post? d.id = some q ∧ s.answer? dto.answerId.id = some a
      ∧ a.isAnonymous = true ∧ q.status ≠ .closed ∧ q.postType = .question
      ∧ AnswersService.canAccept q user ∧ approved q ∧ a.discussionId = q.id
      ∧ user.id ≠ some a.authorId
      ∧ (q.contentVersion = dto.expectedQuestionVersion
        ∧ a.contentVersion = dto.expectedAnswerVersion)
      ∧ (q.acceptedAnswerId.isSome ∨ s.activeAcceptances q.id = []) := by
    -- the checks, read off `unmasksAccepted`
    unfold unmasksAccepted at h
    split at h
    · next q a' hq ha =>
      split at h
      · next hchecks =>
        obtain rfl := Option.some.inj h
        exact ⟨q, hq, ha, hchecks⟩
      · cases h
    · cases h
  obtain ⟨-, hopen, htype, hcan, happroved, hd, hother, hversions, hslot⟩ := hchecks
  obtain ⟨actor, hactor⟩ : ∃ actor, user.id = some actor :=
    Option.isSome_iff_exists.mp (of_decide_eq_true hcan).1
  have hother : a.authorId ≠ actor := fun he => hother (by rw [hactor, he])
  obtain ⟨t, ht⟩ := acceptTx_ok (w := w) hactor hq ha hopen htype hcan happroved hd hother hversions hslot
  obtain ⟨a', ha', hr, -⟩ := Db.Alike.checks_of_acceptTx ht
  obtain rfl := Option.some.inj (ha.symm.trans ha')
  refine ⟨a, ?_, rfl⟩
  simp only [AnswersService.accept, ht, commit_ok, AnswersService.findOne, hr, orThrow_some]

/-- The edit responds with the author of the comment. -/
theorem names_updateComment {id : UuidText} {dto : UpdateCommentDto} {m : Comment}
    (h : unmasksComment s id user dto = some m) :
    ∃ v, (CommentsService.update w s id user dto).result = .ok v
      ∧ v.authorId = some m.authorId := by
  obtain ⟨p, hlock, hchecks⟩ : ∃ p, lockCommentPost s id.id = .ok (p, m)
      ∧ m.isAnonymous = true ∧ dto.isAnonymous = some false ∧ p.status ≠ .closed
      ∧ canManage m.authorId user := by
    unfold unmasksComment at h
    split at h
    · next p m' hlock =>
      split at h
      · next hchecks =>
        obtain rfl := Option.some.inj h
        exact ⟨p, hlock, hchecks⟩
      · cases h
    · cases h
  obtain ⟨-, hflag, hopen, hmanage⟩ := hchecks
  obtain ⟨actor, hactor⟩ := Option.isSome_iff_exists.mp (canManage_iff.mp hmanage).1
  have hmanager : requireManager m.authorId user = .ok () := requireManager_eq_ok.mpr hmanage
  have hlive := (Content.comment?_eq_some.mp (lockCommentPost_eq_ok.mp hlock).1).2.2
  have hedited : (CommentsService.edited m dto).isAnonymous = false
      ∧ (CommentsService.edited m dto).authorId = m.authorId
      ∧ (CommentsService.edited m dto).deletedAt = none := by
    unfold CommentsService.edited
    split <;> simp [hflag, hlive]
  -- every check of the method passes
  simp only [CommentsService.update, CommentsService.updateTx, authenticated, hactor, orThrow_some,
    ok_bind, hlock, requireOpen, require_bind, if_pos hopen, hmanager]
  refine ⟨_, rfl, ?_⟩
  simp [ContentPresenter.comment, ContentPresenter.commentView, ContentPresenter.overlay,
    ContentPresenter.masked, Comment.item, hedited.1, hedited.2.1, hedited.2.2]

/-- The calls that may show a masked author, and the others. -/
theorem unmasked_cases {P : Call → Prop}
    (post : ∀ w user id dto, P ⟨w, user, .discussions (.update id dto)⟩)
    (answer : ∀ w user id dto, P ⟨w, user, .answers (.update id dto)⟩)
    (accepted : ∀ w user d dto, P ⟨w, user, .answers (.accept d dto)⟩)
    (comment : ∀ w user id dto, P ⟨w, user, .comments (.update id dto)⟩)
    (other : ∀ c, (∀ s, unmasked s c = none) → (∀ s s', SameUnmasked s s' c) → P c) (c : Call) :
    P c := by
  obtain ⟨w, user, o⟩ := c
  cases o with
  | discussions o =>
    cases o with
    | update id dto => exact post w user id dto
    | _ => exact other _ (fun _ => rfl) fun _ _ => trivial
  | answers o =>
    cases o with
    | update id dto => exact answer w user id dto
    | accept d dto => exact accepted w user d dto
    | _ => exact other _ (fun _ => rfl) fun _ _ => trivial
  | comments o =>
    cases o with
    | update id dto => exact comment w user id dto
    | _ => exact other _ (fun _ => rfl) fun _ _ => trivial
  | _ => exact other _ (fun _ => rfl) fun _ _ => trivial

/-- A call that shows a masked author responds with it. -/
theorem names_of_unmasked {c : Call} {author : Id} (h : unmasked s c = some author) :
    ∃ r, (serve s c).result = .ok r ∧ r.author = some author := by
  cases c using unmasked_cases with
  | post w user id dto =>
    obtain ⟨p, hp, rfl⟩ := Option.map_eq_some_iff.mp h
    obtain ⟨d, hd, hauthor⟩ := names_update hp
    exact ⟨.discussion d, congrArg (Except.map Response.discussion) hd, hauthor⟩
  | answer w user id dto =>
    obtain ⟨a, ha, rfl⟩ := Option.map_eq_some_iff.mp h
    obtain ⟨r, hr, hauthor⟩ := names_updateAnswer (w := w) ha
    exact ⟨.answer r, congrArg (Except.map Response.answer) hr, congrArg some hauthor⟩
  | accepted w user d dto =>
    obtain ⟨a, ha, rfl⟩ := Option.map_eq_some_iff.mp h
    obtain ⟨r, hr, hauthor⟩ := names_accept (w := w) ha
    exact ⟨.answer r, congrArg (Except.map Response.answer) hr, congrArg some hauthor⟩
  | comment w user id dto =>
    obtain ⟨m, hm, rfl⟩ := Option.map_eq_some_iff.mp h
    obtain ⟨v, hv, hauthor⟩ := names_updateComment (w := w) hm
    exact ⟨.comment v, congrArg (Except.map Response.comment) hv, hauthor⟩
  | other c hnone => cases (hnone s).symm.trans h

/-! ## The same call on both stores -/

namespace Db.Alike

/-- An edit lifts the mask of alike posts in both stores or in none. -/
theorem unmasksPost (h : s.Alike masks user since s') (id : UuidText) (dto : UpdateDiscussionDto)
    (hway : editWay w s' id user dto = editWay w s id user dto) :
    Option.Rel (fun p p' => s'.post? id.id = some p' ∧ p.Alike masks user p')
      (AcaSocial.unmasksPost w s id user dto) (AcaSocial.unmasksPost w s' id user dto) := by
  unfold AcaSocial.unmasksPost
  rcases (h.updatePrelude (w := w) id dto).elim with ⟨e, hx, hy⟩ |
    ⟨⟨editor, p⟩, ⟨editor', p'⟩, hx, hy, -, hpp', hmanage, hp, hp'⟩
  · rw [hx, hy]
    exact .none
  · simp only [hx, hy]
    obtain ⟨author, rfl⟩ : ∃ author, p' = signed p author := ⟨_, eq_signed hpp' hmanage⟩
    have hpp' : p.Alike masks user (signed p author) := hpp'
    rcases (roomPolicy_related hx hy hway).elim with ⟨e, hroom, hroom'⟩ | ⟨policy, policy', hroom, hroom', hsame⟩
    · rw [hroom, hroom']
      exact .none
    · simp only [hroom, hroom']
      have hsame : DiscussionsService.drafts policy' (signed p author) dto
          = DiscussionsService.drafts policy p dto := hsame
      have hfree := h.revisions.get?_eq_none_iff (p.id, p.contentVersion + 1)
      refine some_ite_congr ?_ ⟨hp', hpp'⟩
      rw [h.checkTags_congr, hsame]
      exact and_congr_right fun _ => and_congr_right fun _ => and_congr_right fun _ =>
        and_congr_right fun _ => and_congr_right fun _ => and_congr_right fun _ => hfree

/-- An edit of an answer shows alike answers in both stores or in none. -/
theorem unmasksAnswer (h : s.Alike masks user since s') (id : UuidText) (dto : UpdateAnswerDto) :
    Option.Rel (fun a a' => s'.answer? id.id = some a' ∧ a.Alike masks user a')
      (AcaSocial.unmasksAnswer s id user dto) (AcaSocial.unmasksAnswer s' id user dto) := by
  unfold AcaSocial.unmasksAnswer
  rcases (h.lockedAnswer id.id).elim with ⟨e, hx, hy⟩ | ⟨⟨a, q⟩, ⟨a', q'⟩, hx, hy, ha, hq⟩
  · rw [hx, hy]
    exact .none
  · simp only [hx, hy]
    have ha : a.Alike masks user a' := ha
    have hmanage : AcaSocial.canManage a'.authorId user = AcaSocial.canManage a.authorId user :=
      Authored.Alike.canManage ha
    have hlabels : a'.isAnonymous = a.isAnonymous ∧ a'.content = a.content
        ∧ a'.contentVersion = a.contentVersion ∧ a'.id = a.id := by
      rw [Answer.Alike.labels ha]
      exact ⟨rfl, rfl, rfl, rfl⟩
    have hstatus : q'.status = q.status := hq.status
    refine some_ite_congr ?_ ⟨(AnswersService.lockAnswerAndQuestion_eq_ok.mp hy).1, ha⟩
    rw [hmanage, hstatus, hlabels.1, hlabels.2.1, hlabels.2.2.1, hlabels.2.2.2,
      h.answerRevisions.get?_eq_none_iff]

/-- An acceptance shows alike answers in both stores or in none. -/
theorem unmasksAccepted (h : s.Alike masks user since s') (d : UuidText) (dto : AcceptAnswerDto) :
    Option.Rel (fun a a' => s'.answer? dto.answerId.id = some a' ∧ a.Alike masks user a')
      (AcaSocial.unmasksAccepted s d user dto) (AcaSocial.unmasksAccepted s' d user dto) := by
  unfold AcaSocial.unmasksAccepted
  have hpost := h.post? d.id
  have hanswer := h.answer? dto.answerId.id
  cases hq : s.post? d.id <;> cases hq' : s'.post? d.id <;> rw [hq, hq'] at hpost
  case none.none => exact .none
  case none.some | some.none => cases hpost
  case some.some q q' =>
    cases ha : s.answer? dto.answerId.id <;> cases ha' : s'.answer? dto.answerId.id <;>
      rw [ha, ha'] at hanswer
    case none.none => exact .none
    case none.some | some.none => cases hanswer
    -- each check reads columns that both rows share, or compares the author with the viewer
    case some.some a a' =>
      obtain ⟨hpost⟩ := hpost
      obtain ⟨hanswer⟩ := hanswer
      have hlabels : a'.isAnonymous = a.isAnonymous ∧ a'.discussionId = a.discussionId
          ∧ a'.contentVersion = a.contentVersion := by
        rw [Answer.Alike.labels hanswer]
        exact ⟨rfl, rfl, rfl⟩
      have hother : user.id ≠ some a'.authorId ↔ user.id ≠ some a.authorId :=
        not_congr (Authored.Alike.isAuthor hanswer)
      have hslot : s'.activeAcceptances q.id = s.activeAcceptances q.id := by
        unfold Db.activeAcceptances
        rw [h.acceptances]
      refine some_ite_congr ?_ ⟨rfl, hanswer⟩
      rw [hlabels.1, hlabels.2.1, hlabels.2.2, hother, hpost.status, hpost.postType,
        canAccept hpost, hpost.approved, hpost.id, hpost.contentVersion, hpost.acceptedAnswerId,
        hslot]

/-- An edit of a comment lifts the mask of alike comments in both stores or in none. -/
theorem unmasksComment (h : s.Alike masks user since s') (id : UuidText) (dto : UpdateCommentDto) :
    Option.Rel (fun m m' => s'.comment? id.id = some m' ∧ m.Alike masks user m')
      (AcaSocial.unmasksComment s id user dto) (AcaSocial.unmasksComment s' id user dto) := by
  unfold AcaSocial.unmasksComment
  rcases (h.lockedComment id.id).elim with ⟨e, hx, hy⟩ | ⟨⟨p, m⟩, ⟨p', m'⟩, hx, hy, hm', hp, hm⟩
  · rw [hx, hy]
    exact .none
  · simp only [hx, hy]
    have hm : m.Alike masks user m' := hm
    have hmanage : AcaSocial.canManage m'.authorId user = AcaSocial.canManage m.authorId user :=
      Authored.Alike.canManage hm
    have hflag : m'.isAnonymous = m.isAnonymous := by rw [Comment.Alike.labels hm]
    have hstatus : p'.status = p.status := hp.status
    refine some_ite_congr ?_ ⟨hm', hm⟩
    rw [hmanage, hstatus, hflag]

/-- The call shows a masked author in both stores or in none. -/
theorem unmasked_isSome {c : Call} (h : s.Alike masks c.user since s')
    (hway : SameWay s s' c) : (unmasked s' c).isSome = (unmasked s c).isSome := by
  have hmap : ∀ {ρ : Type} {R : ρ → ρ → Prop} {o o' : Option ρ} {f g : ρ → Id}, Option.Rel R o o' →
      (o'.map g).isSome = (o.map f).isSome := by
    intro ρ R o o' f g hr
    cases hr <;> rfl
  cases c using unmasked_cases with
  | post w user id dto => exact hmap (h.unmasksPost id dto hway)
  | answer w user id dto => exact hmap (h.unmasksAnswer id dto)
  | accepted w user d dto => exact hmap (h.unmasksAccepted d dto)
  | comment w user id dto => exact hmap (h.unmasksComment id dto)
  | other c hnone => rw [hnone, hnone]

/-- If it shows the same one, the shown rows have the same author. -/
theorem sameUnmasked {c : Call} (h : s.Alike masks c.user since s') (hway : SameWay s s' c)
    (heq : unmasked s' c = unmasked s c) : SameUnmasked s s' c := by
  have hrows : ∀ {ρ : Type} [Authored ρ] {R : ρ → ρ → Prop} {o o' look : Option ρ},
      Option.Rel (fun r r' => look = some r' ∧ R r r') o o' →
      o'.map Authored.authorId = o.map Authored.authorId →
      ∀ r r', look = some r' → o = some r → Authored.authorId r' = Authored.authorId r := by
    intro ρ _ R o o' look hr heq r r' hlook ho
    cases hr with
    | none => cases ho
    | some hr =>
      obtain rfl := Option.some.inj ho
      obtain rfl := Option.some.inj (hr.1.symm.trans hlook)
      exact Option.some.inj heq
  cases c using unmasked_cases with
  | post w user id dto =>
    exact fun p p' _ hp' hshown => hrows (h.unmasksPost id dto hway) heq p p' hp' hshown
  | answer w user id dto =>
    exact fun a a' _ ha' hshown => hrows (h.unmasksAnswer id dto) heq a a' ha' hshown
  | accepted w user d dto =>
    exact fun a a' _ ha' hshown => hrows (h.unmasksAccepted d dto) heq a a' ha' hshown
  | comment w user id dto =>
    exact fun m m' _ hm' hshown => hrows (h.unmasksComment id dto) heq m m' hm' hshown
  | other c hnone hsame => exact hsame s s'

end Db.Alike

/-! ## Drafts

Whether an edit is kept as a draft is up to the posting rule of the room for the author of the post, so that a moderator
may be told the authors apart by it. -/

/-- The edit is one that shows something when it is saved in the post. -/
def showsEdit (w : World) (s : Db) (id : UuidText) (user : GatewayUser) (dto : UpdateDiscussionDto) : Prop :=
  ∃ edit, DiscussionsService.updatePrelude w s id user dto = .ok edit
    ∧ DiscussionsService.EditShows (RoomsService.autoJoinTo s edit.2.roomId edit.2.authorId) dto edit.2

/-- The viewer is permitted the same edits in both stores. -/
def SamePermission (s s' : Db) (c : Call) : Prop :=
  match c.operation with
  | .discussions (.update id dto) =>
    (editWay c.world s' id c.user dto).isOk = (editWay c.world s id c.user dto).isOk
  | _ => True

/-- An edit of a post comes to the same in both stores, or it is permitted in both and shows nothing in any case. -/
def SameEdit (s s' : Db) (c : Call) : Prop :=
  match c.operation with
  | .discussions (.update id dto) => editWay c.world s' id c.user dto = editWay c.world s id c.user dto
    ∨ ((editWay c.world s id c.user dto).isOk ∧ ¬ showsEdit c.world s id c.user dto)
  | _ => True

/-- An edit of the post itself that takes its anonymity shows something. -/
theorem editShows_of_unmasksPost {id : UuidText} {dto : UpdateDiscussionDto} {p q : Discussion} {editor : Id}
    (hprelude : DiscussionsService.updatePrelude w s id user dto = .ok (editor, p))
    (h : unmasksPost w s id user dto = some q) :
    DiscussionsService.EditShows (RoomsService.autoJoinTo s p.roomId p.authorId) dto p := by
  obtain ⟨editor', policy, hok, -, hanonymous, hflag, -, -, hversion, htags, hfree⟩ := checks_of_unmasksPost h
  obtain ⟨-, rfl⟩ := Prod.mk.inj (Except.ok.inj (hprelude.symm.trans hok))
  have hcheck : (DiscussionsService.checkTags (RoomsService.autoJoinTo s p.roomId p.authorId) dto.tagIds).isOk := by
    cases hroom : p.roomId <;> exact htags
  obtain ⟨t, ht⟩ := retagTo_ok (d := p.id) hcheck
  refine ⟨hversion, ?_, t, ht, fun hsame => ?_⟩
  · rw [congrArg Content.revisions (autoJoinTo_toContent s p.roomId p.authorId)]
    exact hfree
  · have hcleared : (DiscussionsService.edited dto p).isAnonymous = false := by
      simp [DiscussionsService.edited, hflag]
    rw [hsame.1, hanonymous] at hcleared
    cases hcleared

namespace Db.Alike

open DiscussionsService

/-- **An edit with two ways.** It is kept as a draft in one store and saved in the post in the other one: the responses are
the same if and only if it shows nothing, and then it takes the anonymity from no post. -/
theorem update_result_iff (h : s.Alike masks user since s') {id : UuidText} {dto : UpdateDiscussionDto} {b b' : Bool}
    (hway : editWay w s id user dto = .ok b) (hway' : editWay w s' id user dto = .ok b') (hne : b' ≠ b) :
    ((DiscussionsService.update w s' id user dto).result = (DiscussionsService.update w s id user dto).result ↔ ¬ showsEdit w s id user dto)
      ∧ (¬ showsEdit w s id user dto →
        AcaSocial.unmasksPost w s id user dto = none ∧ AcaSocial.unmasksPost w s' id user dto = none) := by
  rcases (h.updatePrelude (w := w) id dto).elim with ⟨e, hx, hy⟩ |
    ⟨⟨editor, p⟩, ⟨editor', p'⟩, hx, hy, heditor, hpp', hmanage, hp, hp'⟩
  · simp only [editWay, hx] at hway
    cases hway
  obtain rfl : editor = editor' := heditor
  obtain ⟨author, rfl⟩ : ∃ author, p' = signed p author := ⟨_, eq_signed hpp' hmanage⟩
  have hpp' : p.Alike masks user (signed p author) := hpp'
  have hmanage : AcaSocial.canManage p.authorId user := hmanage
  simp only [editWay, hx, hy, ok_bind] at hway hway'
  cases hroom : roomPolicy w s user.role p with
  | error e =>
    rw [hroom] at hway
    cases hway
  | ok policy =>
  cases hroom' : roomPolicy w s' user.role (signed p author) with
  | error e =>
    rw [hroom'] at hway'
    cases hway'
  | ok policy' =>
  rw [hroom] at hway
  rw [hroom'] at hway'
  have hway : drafts policy p dto = b := Except.ok.inj hway
  have hway' : drafts policy' p dto = b' := Except.ok.inj hway'
  -- the room has not been asked about the viewer
  have hother : user.id ≠ some p.authorId := by
    intro hown
    have hsame := hroom'.symm.trans ((h.roomPolicy_own hpp' hown).trans hroom)
    obtain rfl := Except.ok.inj hsame
    exact hne (hway'.symm.trans hway)
  have hmoderator : user.isModerator = true := (canManage_iff.mp hmanage).2.resolve_left hother
  -- an edit with two ways is one of a visible post without a draft
  obtain ⟨hchanged, hnone, hvisible⟩ : contentChanged p dto = true ∧ p.pendingRevision = none
      ∧ p.visibility = .visible := by
    have hboth : ∀ policy policy' : Option PostContext, drafts policy p dto = true → drafts policy' p dto = false →
        contentChanged p dto = true ∧ p.pendingRevision = none ∧ p.visibility = .visible := by
      intro policy policy' hdraft hdirect
      simp only [drafts, Bool.and_eq_true, decide_eq_true_eq] at hdraft
      obtain ⟨⟨hchanged, -⟩, hvisible⟩ := hdraft
      simp only [drafts, hchanged, hvisible, decide_true, Bool.true_and, Bool.and_true, Bool.or_eq_false_iff] at hdirect
      exact ⟨hchanged, Option.not_isSome_iff_eq_none.mp (by rw [hdirect.2]; exact Bool.false_ne_true), hvisible⟩
    cases b <;> cases b'
    · exact absurd rfl hne
    · exact hboth policy' policy hway' hway
    · exact hboth policy policy' hway hway'
    · exact absurd rfl hne
  have hjoined := h.autoJoin_author hpp'
  have hshows : showsEdit w s id user dto ↔ EditShows (RoomsService.autoJoinTo s p.roomId p.authorId) dto p := by
    constructor
    · rintro ⟨edit, hedit, hshows⟩
      obtain rfl := Except.ok.inj (hx.symm.trans hedit)
      exact hshows
    · exact fun hshows => ⟨(editor, p), hx, hshows⟩
  have hshows' : EditShows (RoomsService.autoJoinTo s' p.roomId author) dto (signed p author)
      ↔ EditShows (RoomsService.autoJoinTo s p.roomId p.authorId) dto p := hjoined.editShows dto
  constructor
  · rw [update_result hx hroom, update_result hy hroom', hshows, hway]
    have hway' : drafts policy' (signed p author) dto = b' := hway'
    rw [hway']
    have hdraft : respondAs w (RoomsService.autoJoinTo s' (signed p author).roomId (signed p author).authorId) id.id user
        editor dto (signed p author) true
        = respondAs w (RoomsService.autoJoinTo s p.roomId p.authorId) id.id user editor dto p true :=
      hjoined.respondAs_draft hpp' id.id editor dto
    cases b <;> cases b'
    · exact absurd rfl hne
    · -- the first store is the one without the draft
      have hfound : (RoomsService.autoJoinTo s p.roomId p.authorId).post? id.id = some p := by
        rw [Content.post?, congrArg Content.discussions (autoJoinTo_toContent s p.roomId p.authorId)]
        exact hp
      rw [hdraft, eq_comm]
      exact respondAs_eq_iff hmoderator hother hfound hchanged hnone hvisible
        (requireVisible_of_assertCanPostTo hmanage hroom)
    · have hfound : (RoomsService.autoJoinTo s' p.roomId author).post? id.id = some (signed p author) := by
        rw [Content.post?, congrArg Content.discussions (autoJoinTo_toContent s' p.roomId author)]
        exact hp'
      have hmanage' : AcaSocial.canManage (signed p author).authorId user := by
        rw [hpp'.canManage]
        exact hmanage
      rw [← hdraft, ← hshows']
      exact respondAs_eq_iff hmoderator (mt hpp'.isAuthor.mp hother) hfound hchanged hnone hvisible
        (requireVisible_of_assertCanPostTo hmanage' hroom')
    · exact absurd rfl hne
  · intro hhidden
    have hhidden := mt hshows.mpr hhidden
    constructor
    · exact Option.eq_none_iff_forall_ne_some.mpr fun q hq => hhidden (editShows_of_unmasksPost hx hq)
    · exact Option.eq_none_iff_forall_ne_some.mpr fun q hq => hhidden (hshows'.mp (editShows_of_unmasksPost hy hq))

/-- The same for an edit that the rooms answer differently in any way. -/
theorem update_iff (h : s.Alike true user since s') {id : UuidText} {dto : UpdateDiscussionDto}
    (hway : editWay w s' id user dto ≠ editWay w s id user dto)
    (hpermission : (editWay w s' id user dto).isOk = (editWay w s id user dto).isOk) :
    (serve s' ⟨w, user, .discussions (.update id dto)⟩).result = (serve s ⟨w, user, .discussions (.update id dto)⟩).result
      ↔ unmasked s' ⟨w, user, .discussions (.update id dto)⟩ = unmasked s ⟨w, user, .discussions (.update id dto)⟩
        ∧ SameEdit s s' ⟨w, user, .discussions (.update id dto)⟩ := by
  -- the results of the two services agree when those of the two edits do
  have hresults : (serve s' ⟨w, user, .discussions (.update id dto)⟩).result
        = (serve s ⟨w, user, .discussions (.update id dto)⟩).result
      ↔ (DiscussionsService.update w s' id user dto).result = (DiscussionsService.update w s id user dto).result := by
    refine ⟨fun heq => ?_, fun heq => congrArg (Except.map Response.discussion) heq⟩
    have heq : (DiscussionsService.update w s' id user dto).result.map Response.discussion
        = (DiscussionsService.update w s id user dto).result.map Response.discussion := heq
    cases hr : (DiscussionsService.update w s id user dto).result <;> cases hr' : (DiscussionsService.update w s' id user dto).result <;>
      rw [hr, hr'] at heq
    · exact congrArg Except.error (Except.error.inj heq)
    · cases heq
    · cases heq
    · exact congrArg Except.ok (Response.discussion.inj (Except.ok.inj heq))
  rw [hresults]
  -- both edits are turned away, or both go through
  cases hfirst : editWay w s id user dto with
  | error e =>
    cases hsecond : editWay w s' id user dto with
    | ok b' =>
      rw [hfirst, hsecond] at hpermission
      cases hpermission
    | error e' =>
      rw [hfirst, hsecond] at hway
      refine iff_of_false (fun heq => hway ?_) fun hboth => ?_
      · rw [update_result_error hfirst, update_result_error hsecond] at heq
        exact congrArg Except.error (Except.error.inj heq)
      · rcases hboth.2 with hsame | ⟨hok, -⟩
        · exact hway (hsecond.symm.trans (hsame.trans hfirst))
        · have hok : (editWay w s id user dto).isOk = true := hok
          rw [hfirst] at hok
          cases hok
  | ok b =>
    cases hsecond : editWay w s' id user dto with
    | error e' =>
      rw [hfirst, hsecond] at hpermission
      cases hpermission
    | ok b' =>
      rw [hfirst, hsecond] at hway
      obtain ⟨hiff, hnone⟩ := h.update_result_iff hfirst hsecond fun he => hway (congrArg Except.ok he)
      rw [hiff]
      constructor
      · intro hhidden
        obtain ⟨hu, hu'⟩ := hnone hhidden
        refine ⟨?_, .inr ⟨by rw [show editWay w s id user dto = .ok b from hfirst]; rfl, hhidden⟩⟩
        show (AcaSocial.unmasksPost w s' id user dto).map _ = (AcaSocial.unmasksPost w s id user dto).map _
        rw [hu, hu']
      · rintro ⟨-, hsame | ⟨-, hhidden⟩⟩
        · exact absurd (hsecond.symm.trans (hsame.trans hfirst)) hway
        · exact hhidden

end Db.Alike

/-- **Anonymous authors in responses.** Two stores respond differently exactly if the call shows a masked author, and a
different one, or if it is an edit of a post that shows something, and that the room keeps as a draft for one of the
authors only. -/
theorem sameResponse_iff_unmasked {c : Call} (h : s.SameMasked c.user s')
    (hcontent : c.operation.isContent = true) (hpermission : SamePermission s s' c) :
    (serve s' c).result = (serve s c).result ↔ unmasked s' c = unmasked s c ∧ SameEdit s s' c := by
  have halike := h.alike
  -- an edit that the room treats alike is one of the calls of `serve_alike`
  by_cases hway : SameWay s s' c
  · have hedit : SameEdit s s' c := by
      unfold SameWay at hway
      unfold SameEdit
      split
      · next id dto heq =>
        rw [heq] at hway
        exact .inl hway
      · trivial
    rw [and_iff_left hedit]
    constructor
    -- whoever is shown in both responses is the same user
    · intro hresult
      have hboth := halike.unmasked_isSome hway
      cases hu : unmasked s c with
      | none =>
        rw [hu] at hboth
        exact Option.not_isSome_iff_eq_none.mp (by rw [hboth]; exact Bool.false_ne_true)
      | some author =>
        rw [hu] at hboth
        obtain ⟨author', hu'⟩ := Option.isSome_iff_exists.mp hboth
        obtain ⟨r, hr, hauthor⟩ := names_of_unmasked hu
        obtain ⟨r', hr', hauthor'⟩ := names_of_unmasked hu'
        rw [hr, hr'] at hresult
        obtain rfl := Except.ok.inj hresult
        rw [hu', ← hauthor', hauthor]
    · intro hunmasked
      exact (serve_alike halike hcontent hway fun _ => halike.sameUnmasked hway hunmasked).result.symm
  · obtain ⟨w, user, o⟩ := c
    cases o with
    | discussions o =>
      cases o with
      | update id dto => exact halike.update_iff hway hpermission
      | _ => exact absurd trivial hway
    | _ => exact absurd trivial hway

namespace Sample

/-- The first answer, `0`, is anonymous. -/
def answerMasked (i : Id) : Call := call 3 (student i) (.answers (.create (Id.text 0)
  { content := "Contract the outer cycle first.", isAnonymous := some true }))

/-- The question `0` with an anonymous answer. -/
def answered (i : Id) : Db := Db.after [openForum, ask, join 3, join 4, answerMasked i]

end Sample

theorem sameMasked_answered :
    (Sample.answered 3).SameMasked (Sample.student 1) (Sample.answered 4) where
  tables := rfl
  discussions := .refl .refl _
  comments := .refl .refl _
  answers := by
    refine ⟨.cons ⟨rfl, rfl, fun hown => ?_, fun hmask => ?_⟩ .nil, rfl⟩
    · exact absurd hown (by decide)
    · exact absurd hmask (by decide)
  revisions := .refl (fun _ => trivial) _
  answerRevisions := .cons ⟨rfl, trivial⟩ .nil
  memberships := fun _ _ _ => rfl
  outbox := rfl

theorem sameResponse_iff_unmasked_answered :
    (serve (Sample.answered 4) Sample.accept).result = (serve (Sample.answered 3) Sample.accept).result
      ↔ unmasked (Sample.answered 4) Sample.accept = unmasked (Sample.answered 3) Sample.accept
        ∧ SameEdit (Sample.answered 3) (Sample.answered 4) Sample.accept :=
  sameResponse_iff_unmasked (c := Sample.accept) sameMasked_answered rfl trivial

/-- The asker learns from the acceptance who wrote the anonymous answer. -/
theorem not_sameResponse : ¬ ∀ (s s' : Db) (c : Call), s.SameMasked c.user s' →
    c.operation.isContent = true → SamePermission s s' c →
    (serve s' c).result = (serve s c).result := by
  intro h
  have hsame := h _ _ Sample.accept sameMasked_answered rfl trivial
  exact absurd (congrArg (fun r => r.toOption.bind Response.author) hsame) (by decide)

end AcaSocial
