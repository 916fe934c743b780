import AcaSocial.Discussion.Thread

/-!
# What a call leaves alone

* **`rooms_toContent`** — the operations on rooms leave what is posted alone.
* **`tally_step`** — most operations leave the votes, the tags and the links to tags alone.
* **`votes_step`** — only a vote changes the votes.
* **`revisions_step`**, **`answerRevisions_step`** — only a creation or an update of a post, or of
  an answer, records a revision of it.
-/

namespace AcaSocial

variable {w : World} {s s' : Db} {user : GatewayUser}

open CommentsService in
theorem notify_toContent {d : UuidText} {p : Discussion} {r : Id} {m : Comment}
    (h : notify s d p r m = .ok s') : s'.toContent = s.toContent := by
  unfold notify at h
  split at h
  · simp only [Except.ok.injEq] at h
    rw [h]
  · simp only [bind_eq_ok, pure_eq_ok] at h
    obtain ⟨_, -, rfl⟩ := h
    rfl

/-- The operations on rooms leave what is posted alone. -/
theorem rooms_toContent (o : RoomsOperation) :
    (o.serve w s user).state.toContent = s.toContent := by
  cases o with
  | create dto =>
    refine commit_frame (F := Db.toContent) rfl fun s' r h => ?_
    simp only [RoomsService.createTx, bind_eq_ok, pure_eq_ok, Prod.mk.injEq] at h
    obtain ⟨-, -, -, -, -, -, rfl, -⟩ := h
    rfl
  | join id =>
    show (RoomsService.join s id user).state.toContent = s.toContent
    rcases RoomsService.join_cases s id user with hsame | ⟨actor, room, m, -, -, -, hsaved⟩
    · rw [hsame]
    · rw [hsaved]
  | addRule id dto =>
    refine commit_frame (F := Db.toContent) rfl fun s' r h => ?_
    simp only [RoomsService.addRuleTx, bind_eq_ok, orThrow_eq_ok, pure_eq_ok, Prod.mk.injEq] at h
    obtain ⟨-, -, room, -, -, -, rfl, -⟩ := h
    rfl
  | updateMembership id m dto =>
    refine commit_frame (F := Db.toContent) rfl fun s' r h => ?_
    simp only [RoomsService.updateMembershipTx, bind_eq_ok, pure_eq_ok, Prod.mk.injEq] at h
    obtain ⟨-, -, -, -, -, -, -, -, -, -, -, -, rfl, -⟩ := h
    rfl
  | updateStatus id status =>
    refine commit_frame (F := Db.toContent) rfl fun s' r h => ?_
    simp only [bind_eq_ok, pure_eq_ok, Prod.mk.injEq] at h
    obtain ⟨-, -, -, -, rfl, -⟩ := h
    rfl
  | updatePolicy id dto =>
    refine commit_frame (F := Db.toContent) rfl fun s' r h => ?_
    simp only [RoomsService.updatePolicyTx, bind_eq_ok, pure_eq_ok, Prod.mk.injEq] at h
    obtain ⟨-, -, -, -, -, -, rfl, -⟩ := h
    rfl

/-! ## Parts of an edit

The direct path of an edit calls three methods, one for the tags, one for the version and one for the links to media.
Each writes the tables that its equation names. -/

section Edits

open DiscussionsService

/-- The counters of tags are written to the table of tags alone. -/
theorem tagCounts_eq (s : Db) (ids : List UuidText) (delta : Int) :
    tagCounts s ids delta = { s with tags := (tagCounts s ids delta).tags } := by
  unfold tagCounts
  induction sortIds ids generalizing s with
  | nil => rfl
  | cons t ts ih => exact ih (s.bumpTag delta t.id)

/-- The tags of an edit are kept in the tables of tags and links. -/
theorem retagTo_eq {d : Id} {ids : Option (List UuidText)} (h : retagTo s d ids = .ok s') :
    s' = { s with tags := s'.tags, discussionTags := s'.discussionTags } := by
  cases ids with
  | none =>
    obtain rfl := Except.ok.inj h
    rfl
  | some ids =>
    simp only [retagTo, retag, bind_eq_ok, pure_eq_ok] at h
    obtain ⟨tags, -, rfl⟩ := h
    rw [tagCounts_eq, tagCounts_eq]
    rfl

/-- The version of an edit is kept in the revisions, and may revoke an acceptance. -/
theorem recordVersion_eq {editor : Id} {dto : UpdateDiscussionDto} {p : Discussion}
    (h : recordVersion w s editor dto p = .ok s') :
    s' = { s with revisions := s'.revisions, acceptances := s'.acceptances } := by
  unfold recordVersion at h
  split at h
  · simp only [bind_eq_ok, Db.insertRevision, pure_eq_ok] at h
    obtain ⟨s₁, ⟨-, -, rfl⟩, rfl⟩ := h
    split <;> rfl
  · obtain rfl := Except.ok.inj h
    rfl

/-- The media of an edit are rows of their own table. -/
theorem attachTo_eq (s : Db) (d : Id) (ids : Option (List UuidText)) :
    attachTo s d ids = { s with media := (attachTo s d ids).media } := by
  cases ids <;> rfl

end Edits

/-! ## Votes, tags, links and revisions

`aside` has the votes, the tags, the links to them, the revisions, the rooms and the memberships. Most methods leave
all of it alone. What a method that records a revision leaves is one of the smaller parts. -/

/-- The tables that are counted. -/
def Content.tally (s : Content) : Serial Tag Tag.id
    × (Table (Id × Id) DiscussionTag fun l => (l.discussionId, l.tagId))
    × (Table (Id × TargetType × Id) Vote fun v => (v.userId, v.targetType, v.targetId)) :=
  (s.tags, s.discussionTags, s.votes)

/-- The tables of revisions. -/
def Content.history (s : Content) :
    (Table (Id × Nat) DiscussionRevision fun r => (r.discussionId, r.contentVersion))
    × (Table (Id × Nat) AnswerRevision fun r => (r.answerId, r.contentVersion)) :=
  (s.revisions, s.answerRevisions)

/-- A revision is inserted under a version that has none. -/
theorem insertRevision_eq {r : DiscussionRevision} (h : s.insertRevision r = .ok s') :
    s.revisions.get? (r.discussionId, r.contentVersion) = none
      ∧ s' = { s with revisions := s.revisions.insert r } := by
  simp only [Db.insertRevision, bind_eq_ok, require_eq_ok, pure_eq_ok] at h
  obtain ⟨-, hnew, rfl⟩ := h
  exact ⟨hnew, rfl⟩

/-- A revision of an answer is inserted under a version that has none. -/
theorem insertAnswerRevision_eq {r : AnswerRevision} (h : s.insertAnswerRevision r = .ok s') :
    s.answerRevisions.get? (r.answerId, r.contentVersion) = none
      ∧ s' = { s with answerRevisions := s.answerRevisions.insert r } := by
  simp only [Db.insertAnswerRevision, bind_eq_ok, require_eq_ok, pure_eq_ok] at h
  obtain ⟨-, hnew, rfl⟩ := h
  exact ⟨hnew, rfl⟩

/-- The rooms and who is in them. -/
def Db.seats (s : Db) := (s.rooms, s.memberships)

/-- The tables that few operations write. -/
def Db.aside (s : Db) := (s.tally, s.history, s.seats)

/-- What is left alone by a new comment. -/
def Content.besideComments (s : Content) := (s.tally, s.history)

/-- What is left alone by the operations on answers that record a revision. -/
def Content.besideAnswers (s : Content) := (s.tally, s.revisions)

/-- What is left alone by the operations on posts that record a revision. -/
def Content.besidePosts (s : Content) := (s.votes, s.answerRevisions)

/-- A transaction that leaves a part of what is posted alone. -/
theorem content_of_commit {τ α β : Type} (F : Content → τ) {s₀ : Db}
    {body : Except HttpError (Db × α)} {respond : Db → α → Except HttpError β}
    (hs : s₀.toContent = s.toContent)
    (h : ∀ s' a, body = .ok (s', a) → F s'.toContent = F s.toContent) :
    F (commit s₀ body respond).state.toContent = F s.toContent :=
  commit_frame (F := fun s : Db => F s.toContent) (congrArg F hs) h

section Discussions

open DiscussionsService

theorem view_aside (id : UuidText) : (view w s id user).state.aside = s.aside := by
  refine commit_frame (F := Db.aside) rfl fun s' a h => ?_
  simp only [bind_eq_ok, pure_eq_ok, Prod.mk.injEq] at h
  obtain ⟨-, -, -, -, rfl, -⟩ := h
  rfl

theorem acceptAnswer_aside (id m : UuidText) :
    (acceptAnswer w s id user m).state.aside = s.aside := by
  refine commit_frame (F := Db.aside) rfl fun s' a h => ?_
  simp only [acceptAnswerTx, bind_eq_ok] at h
  obtain ⟨_, -, p, -, -, -, -, -, -, -, m, -, -, -, -, -, h⟩ := h
  split at h <;> simp only [pure_eq_ok, Prod.mk.injEq] at h
  all_goals
    obtain ⟨rfl, -⟩ := h
    rfl

theorem removeAcceptedAnswer_aside (id : UuidText) :
    (removeAcceptedAnswer w s id user).state.aside = s.aside := by
  refine commit_frame (F := Db.aside) rfl fun s' a h => ?_
  simp only [removeAcceptedAnswerTx, bind_eq_ok, pure_eq_ok, Prod.mk.injEq] at h
  obtain ⟨-, -, -, -, -, -, -, -, rfl, -⟩ := h
  rfl

theorem setStatus_aside (id : UuidText) (status : PostStatus) :
    (setStatus w s id user status).state.aside = s.aside := by
  refine commit_frame (F := Db.aside) rfl fun s' a h => ?_
  simp only [setStatusTx, bind_eq_ok, pure_eq_ok, Prod.mk.injEq] at h
  obtain ⟨-, -, -, -, -, -, -, -, rfl, -⟩ := h
  rfl

end Discussions

section Answers

open AnswersService

@[simp] theorem revokeAcceptance_aside (q : Discussion) (actor : Id) (reason : String) :
    (revokeAcceptance w s q actor reason).1.aside = s.aside := by
  unfold revokeAcceptance
  split <;> rfl

/-- A new answer leaves the votes, the tags, the links to them and the revisions of posts. -/
theorem createAnswer_besideAnswers (d : UuidText) (dto : CreateAnswerDto) :
    (create w s d dto user).state.besideAnswers = s.besideAnswers := by
  refine attempt_frame (F := fun s : Db => s.besideAnswers) fun prelude _ => ?_
  obtain ⟨author, q⟩ := prelude
  have hs := autoJoinTo_toContent s q.roomId author
  have hbeside := congrArg Content.besideAnswers hs
  refine content_of_commit Content.besideAnswers hs fun s' a h => ?_
  simp only [bind_eq_ok, createTx, pure_eq_ok, Prod.mk.injEq] at h
  obtain ⟨-, -, s₁, hrev, rfl, -⟩ := h
  have hs₁ : s₁.besideAnswers = s.besideAnswers := by
    rw [(insertAnswerRevision_eq hrev).2]
    exact hbeside
  rw [emit_toContent, ← hs₁]
  split <;> rfl

/-- An edit of an answer leaves the votes, the tags, the revisions of posts and the rooms. -/
theorem updateAnswer_frame (id : UuidText) (dto : UpdateAnswerDto) :
    ((update w s id dto user).state.besideAnswers, (update w s id dto user).state.seats)
      = (s.besideAnswers, s.seats) := by
  refine commit_frame (F := fun s : Db => (s.besideAnswers, s.seats)) rfl fun s' a h => ?_
  simp only [updateTx, bind_eq_ok] at h
  obtain ⟨actor, -, ⟨a, q⟩, -, -, -, -, -, -, -, h⟩ := h
  split at h
  · simp only [pure_eq_ok, Prod.mk.injEq] at h
    obtain ⟨rfl, -⟩ := h
    rfl
  · simp only [bind_eq_ok] at h
    obtain ⟨s₁, hrev, h⟩ := h
    have hs₁ : (s₁.besideAnswers, s₁.seats) = (s.besideAnswers, s.seats) := by
      rw [(insertAnswerRevision_eq hrev).2]
      rfl
    split at h <;> simp only [pure_eq_ok, Prod.mk.injEq] at h <;> obtain ⟨rfl, -⟩ := h
    · have hrevoked := revokeAcceptance_aside (w := w) (s := s₁) q actor "answer_edited"
      exact (congrArg (fun t => ((t.1, t.2.1.1), t.2.2)) hrevoked).trans hs₁
    · exact hs₁

theorem removeAnswer_aside (id : UuidText) :
    (remove w s id user).state.aside = s.aside := by
  refine commit_frame (F := Db.aside) rfl fun s' a h => ?_
  simp only [removeTx, bind_eq_ok, pure_eq_ok, Prod.mk.injEq] at h
  obtain ⟨actor, -, ⟨a, q⟩, -, -, -, -, -, rfl, -⟩ := h
  split
  · exact revokeAcceptance_aside q actor "answer_deleted"
  · rfl

theorem acceptOf_aside (d : UuidText) (dto : AcceptAnswerDto) :
    (accept w s d dto user).state.aside = s.aside := by
  refine commit_frame (F := Db.aside) rfl fun s' a h => ?_
  simp only [acceptTx, insertAcceptance, bind_eq_ok, pure_eq_ok, Prod.mk.injEq] at h
  obtain ⟨actor, -, q, -, -, -, -, -, -, -, -, -, a, -, -, -, -, -, -, -, -, ⟨-, -, rfl⟩, rfl,
    -⟩ := h
  exact revokeAcceptance_aside q actor "replaced"

theorem removeAcceptance_aside (d : UuidText) :
    (removeAcceptance w s d user).state.aside = s.aside := by
  refine commit_frame (F := Db.aside) rfl fun s' a h => ?_
  simp only [removeAcceptanceTx, bind_eq_ok, pure_eq_ok, Prod.mk.injEq] at h
  obtain ⟨actor, -, q, -, -, -, rfl, -⟩ := h
  exact revokeAcceptance_aside q actor "author_revoked"

end Answers

section Comments

open CommentsService

/-- A new comment leaves the votes, the tags, the links to them and all revisions. -/
theorem createComment_besideComments (d : UuidText) (dto : CreateCommentDto) :
    (create w s d user dto).state.besideComments = s.besideComments := by
  refine attempt_frame (F := fun s : Db => s.besideComments) fun prelude _ => ?_
  obtain ⟨author, p⟩ := prelude
  have hs := autoJoinTo_toContent s p.roomId author
  have hbeside := congrArg Content.besideComments hs
  refine content_of_commit Content.besideComments hs fun s' a h => ?_
  simp only [bind_eq_ok, createTx, pure_eq_ok, Prod.mk.injEq] at h
  obtain ⟨-, -, parent, -, s₁, hnotify, rfl, -⟩ := h
  rw [emit_toContent, notify_toContent hnotify]
  exact hbeside

theorem updateComment_aside (id : UuidText) (dto : UpdateCommentDto) :
    (update w s id user dto).state.aside = s.aside := by
  refine commit_frame (F := Db.aside) rfl fun s' a h => ?_
  simp only [updateTx, bind_eq_ok, pure_eq_ok, Prod.mk.injEq] at h
  obtain ⟨-, -, ⟨p, m⟩, -, -, -, -, -, rfl, -⟩ := h
  split <;> rfl

theorem removeComment_aside (id : UuidText) :
    (remove w s id user).state.aside = s.aside := by
  refine commit_frame (F := Db.aside) rfl fun s' a h => ?_
  simp only [removeTx, bind_eq_ok, pure_eq_ok, Prod.mk.injEq] at h
  obtain ⟨-, -, ⟨p, m⟩, -, -, -, -, -, rfl, -⟩ := h
  rfl

end Comments

/-- The operation votes, administers tags, or publishes a post or takes it back. -/
def Operation.counts : Operation → Bool
  | .discussions (.create _) | .discussions (.update ..) | .discussions (.remove _)
  | .setVote .. | .review .. | .tags _ => true
  | _ => false

/-- The other operations leave the counted tables alone. -/
theorem tally_step {s : Db} {c : Call} (h : c.operation.counts = false) :
    (s.step c).tally = s.tally := by
  obtain ⟨w, user, o⟩ := c
  cases o with
  | rooms o => exact congrArg Content.tally (rooms_toContent o)
  | discussions o =>
    cases o with
    | create | update | remove => cases h
    | findAll filter => rfl
    | findOne id => exact congrArg Prod.fst (view_aside id)
    | acceptAnswer id m => exact congrArg Prod.fst (acceptAnswer_aside id m)
    | removeAcceptedAnswer id => exact congrArg Prod.fst (removeAcceptedAnswer_aside id)
    | setStatus id status => exact congrArg Prod.fst (setStatus_aside id status)
  | answers o =>
    cases o with
    | create d dto => exact congrArg Prod.fst (createAnswer_besideAnswers d dto)
    | list d => rfl
    | update id dto => exact congrArg (·.1.1) (updateAnswer_frame id dto)
    | remove id => exact congrArg Prod.fst (removeAnswer_aside id)
    | accept d dto => exact congrArg Prod.fst (acceptOf_aside d dto)
    | removeAcceptance d => exact congrArg Prod.fst (removeAcceptance_aside d)
  | comments o =>
    cases o with
    | create d dto => exact congrArg Prod.fst (createComment_besideComments d dto)
    | findAllByDiscussion d filter => rfl
    | update id dto => exact congrArg Prod.fst (updateComment_aside id dto)
    | remove id => exact congrArg Prod.fst (removeComment_aside id)
  | setVote | review | tags => cases h

/-! ## Votes and revisions

The tables of votes and of revisions have one writer each. -/

@[simp] theorem tagCounts_votes (s : Db) (ids : List UuidText) (delta : Int) :
    (DiscussionsService.tagCounts s ids delta).votes = s.votes := by
  rw [tagCounts_eq]

/-- What is left alone by the operations that publish a post or take it back. -/
def Db.besideTags (s : Db) := (s.votes, s.history, s.seats)

section Discussions

open DiscussionsService

/-- A new post leaves the votes and the revisions of answers. -/
theorem create_besidePosts (dto : CreateDiscussionDto) :
    (create w s user dto).state.besidePosts = s.besidePosts := by
  refine attempt_frame (F := fun s : Db => s.besidePosts) fun prelude _ => ?_
  obtain ⟨author, selected⟩ := prelude
  refine content_of_commit Content.besidePosts rfl fun s' a h => ?_
  simp only [createTx, bind_eq_ok, pure_eq_ok, Prod.mk.injEq] at h
  obtain ⟨room, -, -, -, tags, -, s₁, hrev, rfl, -⟩ := h
  rw [(insertRevision_eq hrev).2, tagCounts_eq]
  rfl

theorem attachTo_besidePosts (s : Db) (d : Id) (ids : Option (List UuidText)) :
    (attachTo s d ids).besidePosts = s.besidePosts := by
  cases ids <;> rfl

/-- An edit of a post leaves the votes and the revisions of answers. -/
theorem update_besidePosts (id : UuidText) (dto : UpdateDiscussionDto) :
    (update w s id user dto).state.besidePosts = s.besidePosts := by
  refine attempt_frame (F := fun s : Db => s.besidePosts) fun prelude _ => ?_
  obtain ⟨editor, p⟩ := prelude
  have hs := autoJoinTo_toContent s p.roomId p.authorId
  have hbeside : (RoomsService.autoJoinTo s p.roomId p.authorId).besidePosts = s.besidePosts :=
    congrArg Content.besidePosts hs
  refine content_of_commit Content.besidePosts hs fun s' a h => ?_
  simp only [updateTx, bind_eq_ok] at h
  obtain ⟨policy, -, -, -, -, -, h⟩ := h
  split at h
  · simp only [saveDraft, bind_eq_ok, pure_eq_ok, Prod.mk.injEq] at h
    obtain ⟨-, -, s₁, hrev, rfl, -⟩ := h
    rw [(insertRevision_eq hrev).2]
    exact hbeside
  · simp only [saveEdit, bind_eq_ok, pure_eq_ok, Prod.mk.injEq] at h
    obtain ⟨s₁, htags, s₂, hrev, rfl, -⟩ := h
    calc (attachTo (s₂.savePost (editedPost dto policy p)) p.id dto.mediaIds).besidePosts
        = s₂.besidePosts := attachTo_besidePosts _ _ _
      _ = s₁.besidePosts := by rw [recordVersion_eq hrev]; rfl
      _ = (RoomsService.autoJoinTo s p.roomId p.authorId).besidePosts := by
        rw [retagTo_eq htags]; rfl
      _ = s.besidePosts := hbeside

/-- A removal leaves the votes, the revisions and the rooms. It lowers the counters of the tags. -/
theorem remove_besideTags (id : UuidText) :
    (remove w s id user).state.besideTags = s.besideTags := by
  refine commit_frame (F := Db.besideTags) rfl fun s' a h => ?_
  simp only [removeTx, bind_eq_ok, pure_eq_ok, Prod.mk.injEq] at h
  obtain ⟨-, -, p, -, -, -, rfl, -⟩ := h
  rw [tagCounts_eq]
  rfl

end Discussions

section Administration

open ModerationService

theorem publish_besideTags {p : Discussion} {decision : Decision}
    (h : publish w s p decision = .ok s') : s'.besideTags = s.besideTags := by
  unfold publish at h
  split at h
  · simp only [bind_eq_ok] at h
    obtain ⟨-, -, h⟩ := h
    split at h
    · next d _ =>
      simp only [applyDraft, bind_eq_ok, pure_eq_ok] at h
      obtain ⟨tags, -, rfl⟩ := h
      exact foldl_frame (F := fun s : Db => s.besideTags)
        (f := fun (s' : Db) (t : UuidText) => s'.bumpTag (delta s p.id d t) t.id)
        (fun _ _ => rfl) _ _
    · simp only [pure_eq_ok] at h
      rw [h]
  · obtain rfl := Except.ok.inj h
    rfl

/-- A review leaves the votes, the revisions and the rooms. It writes tags when it publishes a draft. -/
theorem review_besideTags (id : UuidText) (dto : ReviewContentDto) :
    (review w s id dto user).state.besideTags = s.besideTags := by
  refine commit_frame (F := Db.besideTags) rfl fun s' a h => ?_
  simp only [reviewTx, bind_eq_ok, pure_eq_ok, Prod.mk.injEq] at h
  obtain ⟨actor, -, scope, -, -, -, p, -, -, -, -, -, s₁, hpublish, rfl, -⟩ := h
  refine Eq.trans ?_ (publish_besideTags hpublish)
  split <;> rfl

theorem tags_besideTags (o : TagsOperation) :
    (o.serve w s user).state.besideTags = s.besideTags := by
  cases o <;> refine commit_frame (F := Db.besideTags) rfl fun s' a h => ?_ <;>
    simp only [TagsService.mergeTx, bind_eq_ok, pure_eq_ok, Prod.mk.injEq] at h
  case create =>
    obtain ⟨-, -, -, -, -, -, -, -, rfl, -⟩ := h
    rfl
  case update =>
    obtain ⟨-, -, _, -, -, -, -, -, rfl, -⟩ := h
    rfl
  case remove =>
    obtain ⟨-, -, _, -, -, -, -, -, rfl, -⟩ := h
    rfl
  case setStatus =>
    obtain ⟨-, -, _, -, -, -, rfl, -⟩ := h
    rfl
  case merge =>
    obtain ⟨-, -, -, -, _, -, _, -, -, -, rfl, -⟩ := h
    rfl

end Administration

/-- Only a vote changes the votes. -/
theorem votes_step {s : Db} {c : Call} (h : ∀ type id v, c.operation ≠ .setVote type id v) :
    (s.step c).votes = s.votes := by
  cases hcounts : c.operation.counts with
  | false => exact congrArg (·.2.2) (tally_step hcounts)
  | true =>
    obtain ⟨w, user, o⟩ := c
    cases o with
    | discussions o =>
      cases o with
      | create dto => exact congrArg Prod.fst (create_besidePosts dto)
      | update id dto => exact congrArg Prod.fst (update_besidePosts id dto)
      | remove id => exact congrArg Prod.fst (remove_besideTags id)
      | _ => cases hcounts
    | setVote type id v => exact absurd rfl (h type id v)
    | review id dto => exact congrArg Prod.fst (review_besideTags id dto)
    | tags o => exact congrArg Prod.fst (tags_besideTags o)
    | _ => cases hcounts

/-- What a vote writes, it writes to the votes and the counters. -/
theorem setVote_frame (type : TargetType) (id : UuidText) (v : Option VoteType) :
    ((VotesService.setVote s type id user v).state.history,
      (VotesService.setVote s type id user v).state.seats) = (s.history, s.seats) := by
  refine commit_frame (F := fun s : Db => (s.history, s.seats)) rfl fun s' r h => ?_
  simp only [VotesService.setVoteTx, bind_eq_ok, pure_eq_ok, Prod.mk.injEq] at h
  obtain ⟨u, -, t, -, -, -, -, -, -, -, -, -, rfl, -⟩ := h
  cases t <;> cases v <;> rfl

/-- The operation creates or updates a post. -/
def Operation.writesPost : Operation → Bool
  | .discussions (.create _) | .discussions (.update ..) => true
  | _ => false

/-- The operation creates or updates an answer. -/
def Operation.writesAnswer : Operation → Bool
  | .answers (.create ..) | .answers (.update ..) => true
  | _ => false

/-- The other operations leave the revisions alone. -/
theorem history_step {s : Db} {c : Call} (hpost : c.operation.writesPost = false)
    (hanswer : c.operation.writesAnswer = false) : (s.step c).history = s.history := by
  obtain ⟨w, user, o⟩ := c
  cases o with
  | rooms o => exact congrArg Content.history (rooms_toContent o)
  | discussions o =>
    cases o with
    | create | update => cases hpost
    | findAll filter => rfl
    | findOne id => exact congrArg (·.2.1) (view_aside id)
    | remove id => exact congrArg (·.2.1) (remove_besideTags id)
    | acceptAnswer id m => exact congrArg (·.2.1) (acceptAnswer_aside id m)
    | removeAcceptedAnswer id => exact congrArg (·.2.1) (removeAcceptedAnswer_aside id)
    | setStatus id status => exact congrArg (·.2.1) (setStatus_aside id status)
  | answers o =>
    cases o with
    | create | update => cases hanswer
    | list d => rfl
    | remove id => exact congrArg (·.2.1) (removeAnswer_aside id)
    | accept d dto => exact congrArg (·.2.1) (acceptOf_aside d dto)
    | removeAcceptance d => exact congrArg (·.2.1) (removeAcceptance_aside d)
  | comments o =>
    cases o with
    | create d dto => exact congrArg Prod.snd (createComment_besideComments d dto)
    | findAllByDiscussion d filter => rfl
    | update id dto => exact congrArg (·.2.1) (updateComment_aside id dto)
    | remove id => exact congrArg (·.2.1) (removeComment_aside id)
  | setVote type id v => exact congrArg Prod.fst (setVote_frame type id v)
  | review id dto => exact congrArg (·.2.1) (review_besideTags id dto)
  | tags o => exact congrArg (·.2.1) (tags_besideTags o)

/-- Only a creation or an update of a post records a revision of it. -/
theorem revisions_step {s : Db} {c : Call} (hpost : c.operation.writesPost = false) :
    (s.step c).revisions = s.revisions := by
  cases hanswer : c.operation.writesAnswer with
  | false => exact congrArg Prod.fst (history_step hpost hanswer)
  | true =>
    obtain ⟨w, user, o⟩ := c
    cases o with
    | answers o =>
      cases o with
      | create d dto => exact congrArg Prod.snd (createAnswer_besideAnswers d dto)
      | update id dto => exact congrArg (·.1.2) (updateAnswer_frame id dto)
      | _ => cases hanswer
    | _ => cases hanswer

/-- Only edits of answers enter revisions of them. -/
theorem answerRevisions_step {s : Db} {c : Call} (hanswer : c.operation.writesAnswer = false) :
    (s.step c).answerRevisions = s.answerRevisions := by
  cases hpost : c.operation.writesPost with
  | false => exact congrArg Prod.snd (history_step hpost hanswer)
  | true =>
    obtain ⟨w, user, o⟩ := c
    cases o with
    | discussions o =>
      cases o with
      | create dto => exact congrArg Prod.snd (create_besidePosts dto)
      | update id dto => exact congrArg Prod.snd (update_besidePosts id dto)
      | _ => cases hpost
    | _ => cases hpost

end AcaSocial
