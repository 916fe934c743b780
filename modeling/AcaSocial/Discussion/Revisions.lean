import AcaSocial.Base.Versions
import AcaSocial.Discussion.AnonymousResponses

/-!
# The ledger of revisions

`discussion_revisions` and `answer_revisions` record what posts and answers were at each version.

* **`Content.revisionsOf`**, **`Content.answerRevisionsOf`** — the recorded versions of a row.
* **`posts_advance`**, **`answers_advance`** — a call leaves row and record alone, or adds the next
  version to both.
* **`revisions_complete`** — so the record is complete in every reachable state, and the version
  moves with the updates that count as changes, by one each.
-/

namespace AcaSocial

/-- The title and the content of the draft that waits, or else of the post. -/
def Discussion.latest (p : Discussion) : String × String :=
  match p.pendingRevision with
  | some d => (d.title, d.content)
  | none => (p.title, p.content)

/-- The version of the post and what it says there. -/
def Discussion.version (p : Discussion) : Nat × (String × String) := (p.contentVersion, p.latest)

def Answer.version (a : Answer) : Nat × String := (a.contentVersion, a.content)

/-- The recorded versions of a post. -/
def Content.revisionsOf (s : Content) (i : Id) : List (Nat × (String × String)) :=
  (s.revisions.select fun r => decide (r.discussionId = i)).map fun r =>
    (r.contentVersion, (r.title, r.content))

/-- The recorded versions of an answer. -/
def Content.answerRevisionsOf (s : Content) (k : Id) : List (Nat × String) :=
  (s.answerRevisions.select fun r => decide (r.answerId = k)).map fun r =>
    (r.contentVersion, r.content)

/-- What an update of a post may change of what it says: title, content, anonymity, draft, tags and
media. -/
def Thread.written (t : Thread) :
    Option (String × String × Bool × Option PendingRevision) × List Id × List DiscussionMedia :=
  (t.post.map fun p => (p.title, p.content, p.isAnonymous, p.pendingRevision), t.tagIds, t.media)

variable {w : World} {s s' t : Db} {user : GatewayUser} {c : Call} {i k : Id} {p : Discussion}

/-- The call is an update of the post `p` that goes through and counts as a change. -/
def Call.revises (s : Db) (c : Call) (p : Discussion) : Bool :=
  match c.operation with
  | .discussions (.update id dto) =>
    decide (id.id = p.id) && (serve s c).result.isOk && DiscussionsService.contentChanged p dto
  | _ => false

/-- The call is an update of the answer `a` that goes through and changes it. -/
def Call.revisesAnswer (s : Db) (c : Call) (a : Answer) : Bool :=
  match c.operation with
  | .answers (.update id dto) =>
    decide (id.id = a.id) && (serve s c).result.isOk && decide (a.content ≠ dto.content)
  | _ => false

/-! ## Rows of the record

What an insertion adds to the revisions of a post or of an answer, in the order of the insertions. -/

/-- A revision is added to the record of its own post. -/
theorem revisionsOf_insertRevision {r : DiscussionRevision} (h : s.insertRevision r = .ok s') :
    s'.revisionsOf i = s.revisionsOf i ++
      if r.discussionId = i then [(r.contentVersion, (r.title, r.content))] else [] := by
  obtain ⟨hnew, rfl⟩ := insertRevision_eq h
  simp only [Content.revisionsOf, Table.select, Table.rows_insert hnew, List.filter_append,
    List.map_append]
  congr 1
  by_cases hi : r.discussionId = i <;> simp [hi]

/-- A revision is added to the record of its own answer. -/
theorem answerRevisionsOf_insertAnswerRevision {r : AnswerRevision}
    (h : s.insertAnswerRevision r = .ok s') : s'.answerRevisionsOf k = s.answerRevisionsOf k ++
      if r.answerId = k then [(r.contentVersion, r.content)] else [] := by
  obtain ⟨hnew, rfl⟩ := insertAnswerRevision_eq h
  simp only [Content.answerRevisionsOf, Table.select, Table.rows_insert hnew, List.filter_append,
    List.map_append]
  congr 1
  by_cases hk : r.answerId = k <;> simp [hk]

/-! ## Operations that record nothing

Only a creation and an edit record a revision. The others leave the version of a row as it is. -/

/-- A review moves the latest text about, and leaves it as it is. -/
theorem reviewedPost_version (p : Discussion) (dto : ReviewContentDto) :
    (ModerationService.reviewedPost p dto).version = p.version := by
  have hdecided : (ModerationService.decided p (ModerationService.draftOf p) dto.decision).version
      = p.version := by
    unfold ModerationService.draftOf
    split
    · cases hd : p.pendingRevision with
      | none => cases dto.decision <;> rfl
      | some d =>
        cases dto.decision with
        | allow => simp [ModerationService.decided, Discussion.version, Discussion.latest, hd]
        | _ => simp only [ModerationService.decided]; split <;> rfl
    · cases dto.decision <;> rfl
  refine Eq.trans ?_ hdecided
  unfold ModerationService.reviewedPost
  dsimp only
  split <;> rfl

/-- Only a creation or an update changes the version of a post. -/
theorem ThreadStep.keepsVersion {t t' : Thread} (h : ThreadStep s c i t t')
    (hupdate : ∀ id dto, c.operation ≠ .discussions (.update id dto)) :
    t'.post.map Discussion.version = t.post.map Discussion.version
      ∨ t.post = none ∧ ∃ dto, c.operation = .discussions (.create dto) := by
  have hsaved : ∀ {q p' : Discussion}, t.Live q → t'.post = some p' →
      p'.version = q.version → t'.post.map Discussion.version = t.post.map Discussion.version := by
    intro q p' hq hp' hversion
    rw [hq.1, hp', Option.map_some, Option.map_some, hversion]
  cases h with
  | created hop _ hnew => exact .inr ⟨hnew.2, _, hop⟩
  | drafted hop | edited hop => exact absurd hop.1 (hupdate _ _)
  | reviewed _ hq => exact .inl (hsaved hq rfl (reviewedPost_version _ _))
  | commentRemoved _ hq =>
    refine .inl (hsaved hq rfl ?_)
    unfold CommentsService.uncommented
    split <;> rfl
  | viewed _ hq | removed _ hq | commentAccepted _ hq | acceptedCommentRemoved _ hq
  | statusSet _ hq | acceptanceRemoved _ hq | postVoted _ hq | acceptedAnswerUpdated _ hq
  | acceptedCommentUpdated _ hq | answerAccepted _ hq | answerCreated _ hq | commentCreated _ hq
  | answerRemoved _ hq | acceptedAnswerRemoved _ hq => exact .inl (hsaved hq rfl rfl)
  | same | answerUpdated | commentUpdated | answerVoted | commentVoted | tagMerged | tagRemoved =>
    exact .inl rfl

/-- Only a creation or an update changes the version of an answer. -/
theorem ThreadStep.keepsAnswerVersion {t' : Thread} (h : ThreadStep s c i (s.thread i) t')
    (hupdate : ∀ id dto, c.operation ≠ .answers (.update id dto)) :
    (t'.answers.get? k).map Answer.version = ((s.thread i).answers.get? k).map Answer.version
      ∨ (s.thread i).answers.get? k = none ∧ ∃ d dto, c.operation = .answers (.create d dto) := by
  have hsaved : ∀ {a a' : Answer} {id : UuidText}, (s.thread i).answer? id.id = some a →
      a'.id = a.id → a'.version = a.version →
      (((s.thread i).answers.save a').get? k).map Answer.version
        = ((s.thread i).answers.get? k).map Answer.version := by
    intro a a' id ha hid hversion
    have hget : (s.thread i).answers.get? id.id = some a := (Option.filter_eq_some_iff.mp ha).1
    rw [Table.get?_save, hid, (Table.get?_eq_some.mp hget).2]
    split
    · next hk =>
      rw [← hk, hget]
      exact congrArg some hversion
    · rfl
  cases h with
  | @answerCreated p d dto author n hop _ _ _ _ _ hnew =>
    -- the id of a new answer is not in use
    have hfresh : (s.thread i).answers.get? n = none := hnew ▸ answers_get?_next s i
    by_cases hk : n = k
    · exact .inr ⟨hk ▸ hfresh, d, dto, hop.1⟩
    · refine .inl (congrArg (Option.map Answer.version) ?_)
      exact (Table.get?_insert _ _ _).trans (if_neg hk)
  | answerUpdated hop | acceptedAnswerUpdated hop => exact absurd hop (hupdate _ _)
  -- votes, deletions and acceptances save the answer, and keep its text
  | answerVoted _ _ ha | answerRemoved _ _ ha | acceptedAnswerRemoved _ _ ha =>
    exact .inl (hsaved ha rfl rfl)
  | edited | answerAccepted | reviewed =>
    refine .inl ?_
    dsimp only [Thread.savePost, Thread.setMedia, Thread.setTags, Thread.insertAcceptance]
    split <;> rfl
  | _ => exact .inl rfl

/-- An answer keeps its version unless it is edited, and appears by its creation. -/
theorem answerVersion_step (hupdate : ∀ id dto, c.operation ≠ .answers (.update id dto)) :
    ((s.step c).answers.get? k).map Answer.version = (s.answers.get? k).map Answer.version
      ∨ s.answers.get? k = none ∧ ∃ d dto, c.operation = .answers (.create d dto) := by
  refine Table.get?_of_parts Answer.discussionId
    (R := fun x y => y.map Answer.version = x.map Answer.version
      ∨ x = none ∧ ∃ d dto, c.operation = .answers (.create d dto))
    (.inl rfl) ?_ fun i => (thread_step s c i).keepsAnswerVersion hupdate
  rintro r (hsame | ⟨hnone, -⟩)
  · cases hsame
  · cases hnone

/-! ## Posts

An edit that changes something that is recorded raises the version by one and records the new text under it.
`PostEdit` says what an edit has written, and `update_cases` that it has written this or nothing. -/

open DiscussionsService

/-- The record of a post is read from one table. -/
theorem revisionsOf_congr (h : s'.revisions = s.revisions) : s'.revisionsOf i = s.revisionsOf i := by
  rw [Content.revisionsOf, h, Content.revisionsOf]

/-- The edit `q` of the post `p` is saved, and recorded if it counts as a change. -/
structure PostEdit (s t : Db) (p q : Discussion) (changed : Bool) : Prop where
  discussions : t.discussions = s.discussions.save q
  rooms : t.rooms = s.rooms
  memberships : t.memberships = s.memberships
  id : q.id = p.id
  authorId : q.authorId = p.authorId
  roomId : q.roomId = p.roomId
  deletedAt : q.deletedAt = p.deletedAt
  contentVersion : q.contentVersion = p.contentVersion + if changed then 1 else 0
  latest : changed = false → q.latest = p.latest
  revisionsOf : ∀ i, t.revisionsOf i
    = s.revisionsOf i ++ if changed = true ∧ p.id = i then [q.version] else []

/-- A draft always records a revision. -/
theorem saveDraft_edit {editor : Id} {dto : UpdateDiscussionDto} {u : Unit}
    (h : saveDraft s editor dto p = .ok (t, u)) :
    PostEdit s t p (withDraft p (draftOf s p dto)) true := by
  simp only [saveDraft, bind_eq_ok, pure_eq_ok, Prod.mk.injEq] at h
  obtain ⟨-, -, s₁, hrev, rfl, -⟩ := h
  have hsaved := insertRevision_eq hrev
  refine ⟨?_, ?_, ?_, rfl, rfl, rfl, rfl, rfl, (fun h => by cases h), fun i => ?_⟩
  · rw [hsaved.2]; rfl
  · rw [hsaved.2]; rfl
  · rw [hsaved.2]; rfl
  · rw [revisionsOf_insertRevision hrev]
    simp only [true_and]
    rfl

/-- A field that names nothing new. -/
theorem getD_of_not_exists {α : Type} {o : Option α} {a : α} (h : ¬ ∃ b ∈ o, b ≠ a) :
    o.getD a = a := by
  cases o with
  | none => rfl
  | some b => exact not_not.mp fun hne => h ⟨b, rfl, hne⟩

/-- Without a change the edit writes what is there. -/
theorem edited_eq_self {dto : UpdateDiscussionDto} (h : contentChanged p dto = false) :
    edited dto p = p := by
  simp only [contentChanged, decide_eq_false_iff_not, not_or] at h
  obtain ⟨htitle, hcontent, -, -, hanonymous, -⟩ := h
  simp only [edited, getD_of_not_exists htitle, getD_of_not_exists hcontent,
    getD_of_not_exists hanonymous]

/-- An edit that changes nothing names neither tags nor media. -/
theorem named_of_not_contentChanged {dto : UpdateDiscussionDto} (h : contentChanged p dto = false) :
    dto.tagIds = none ∧ dto.mediaIds = none := by
  simp only [contentChanged, decide_eq_false_iff_not, not_or] at h
  obtain ⟨-, -, htags, hmedia, -, -⟩ := h
  exact ⟨by simpa using htags, by simpa using hmedia⟩

/-- The new version is recorded with the new text, if the edit changes something. -/
theorem recordVersion_revisionsOf {editor : Id} {dto : UpdateDiscussionDto}
    (h : recordVersion w s editor dto p = .ok t) : t.revisionsOf i = s.revisionsOf i ++
      if contentChanged p dto = true ∧ p.id = i then
        [(p.contentVersion + 1, ((edited dto p).title, (edited dto p).content))] else [] := by
  unfold recordVersion at h
  split at h
  · next hchanged =>
    simp only [bind_eq_ok, pure_eq_ok] at h
    obtain ⟨s₁, hrev, rfl⟩ := h
    simp only [hchanged, true_and]
    refine Eq.trans ?_ (revisionsOf_insertRevision hrev)
    split <;> rfl
  · next hchanged =>
    obtain rfl := Except.ok.inj h
    simp [hchanged]

/-- What the direct path writes of a post and of its record. -/
theorem saveEdit_edit {editor : Id} {dto : UpdateDiscussionDto} {policy : Option PostContext}
    {u : Unit} (h : saveEdit w s editor dto policy p = .ok (t, u)) :
    PostEdit s t p (editedPost dto policy p) (contentChanged p dto) := by
  simp only [saveEdit, bind_eq_ok, pure_eq_ok, Prod.mk.injEq] at h
  obtain ⟨s₁, htags, s₂, hrev, rfl, -⟩ := h
  -- an edit that withdraws the acceptance changes these columns no more than one that does not
  have hrow : (editedPost dto policy p).id = p.id ∧ (editedPost dto policy p).authorId = p.authorId
      ∧ (editedPost dto policy p).roomId = p.roomId
      ∧ (editedPost dto policy p).deletedAt = p.deletedAt := by
    unfold editedPost
    split <;> exact ⟨rfl, rfl, rfl, rfl⟩
  refine ⟨?_, ?_, ?_, hrow.1, hrow.2.1, hrow.2.2.1, hrow.2.2.2, ?_, fun hsame => ?_, fun i => ?_⟩
  · rw [attachTo_eq, recordVersion_eq hrev, retagTo_eq htags]
    rfl
  · rw [attachTo_eq, recordVersion_eq hrev, retagTo_eq htags]
    rfl
  · rw [attachTo_eq, recordVersion_eq hrev, retagTo_eq htags]
    rfl
  · unfold editedPost
    split <;> rfl
  · rw [editedPost, hsame]
    exact congrArg Discussion.latest (edited_eq_self hsame)
  · have hrecorded : (attachTo (s₂.savePost (editedPost dto policy p)) p.id dto.mediaIds).revisionsOf i
        = s₂.revisionsOf i := by
      rw [attachTo_eq]
      rfl
    have htagged : s₁.revisionsOf i = s.revisionsOf i := by
      rw [retagTo_eq htags]
      rfl
    rw [hrecorded, recordVersion_revisionsOf hrev, htagged]
    congr 1
    -- a version is recorded for a change only
    by_cases hchanged : contentChanged p dto = true
    · rw [editedPost, if_pos hchanged]
      rfl
    · simp [hchanged]

/-- What the transaction of an edit writes, as a draft or directly. -/
theorem updateTx_edit {editor : Id} {dto : UpdateDiscussionDto} {policy : Option PostContext}
    {u : Unit} (h : updateTx w s editor dto policy p = .ok (t, u)) :
    ∃ q, PostEdit s t p q (contentChanged p dto) := by
  simp only [updateTx, bind_eq_ok] at h
  obtain ⟨-, -, -, -, h⟩ := h
  split at h
  · next hdrafts =>
    have hchanged : contentChanged p dto = true := by
      simp only [drafts, Bool.and_eq_true] at hdrafts
      exact hdrafts.1.1
    exact ⟨_, hchanged ▸ saveDraft_edit h⟩
  · exact ⟨_, saveEdit_edit h⟩

/-- The response of an update whose transaction has gone through. -/
theorem PostEdit.findOne_isOk {q : Discussion} {changed : Bool} {policy : Option PostContext}
    (h : PostEdit s t p q changed) (hp : s.post? k = some p) (hmanage : canManage p.authorId user)
    (hpolicy : RoomsService.assertCanPostTo w s p.roomId ⟨some p.authorId, user.role⟩
      = .ok policy) : (findOne w t k user).isOk = true := by
  obtain ⟨hmem, rfl, hlive⟩ := Content.post?_eq_some.mp hp
  have hget : s.discussions.get? q.id = some p := by
    rw [h.id]
    exact Table.get?_eq_some.mpr ⟨hmem, rfl⟩
  have hsaved : t.post? p.id = some q := by
    rw [Content.post?, h.discussions, ← h.id, Serial.save_toTable, Table.get?_save_self hget]
    simp [Option.filter, h.deletedAt, hlive]
  have hvisible : RoomsService.requireVisible t q.roomId user = .ok () := by
    rw [h.roomId, requireVisible_congr h.rooms h.memberships]
    exact requireVisible_of_assertCanPostTo hmanage hpolicy
  have hreadable : requireReadable q user = .ok () := by
    rw [requireReadable_eq_ok, h.authorId]
    exact .inr (canManage_iff.mp hmanage).2.symm
  simp only [findOne, hsaved, orThrow_some, ok_bind, hreadable, hvisible]
  rfl

/-- An update fails and leaves what is posted alone, or goes through and responds. -/
theorem update_cases (w : World) (s : Db) (id : UuidText) (user : GatewayUser)
    (dto : UpdateDiscussionDto) :
    ((update w s id user dto).result.isOk = false
      ∧ (update w s id user dto).state.toContent = s.toContent)
    ∨ ((update w s id user dto).result.isOk = true ∧ ∃ p q, s.post? id.id = some p
      ∧ PostEdit (RoomsService.autoJoinTo s p.roomId p.authorId) (update w s id user dto).state p q
        (contentChanged p dto)) := by
  unfold update
  cases hprelude : updatePrelude w s id user dto with
  | error e => exact .inl ⟨rfl, rfl⟩
  | ok found =>
    obtain ⟨editor, p⟩ := found
    obtain ⟨-, hp, hmanage, -⟩ := updatePrelude_eq_ok hprelude
    have hjoined := autoJoinTo_toContent s p.roomId p.authorId
    simp only [attempt]
    -- what is done in the transaction, so that its two results are separate cases
    generalize hbody : (do
      let policy ← RoomsService.assertCanPostTo w (RoomsService.autoJoinTo s p.roomId p.authorId)
        p.roomId ⟨some p.authorId, user.role⟩
      updateTx w (RoomsService.autoJoinTo s p.roomId p.authorId) editor dto policy p) = body
    cases body with
    | error e => exact .inl ⟨rfl, hjoined⟩
    | ok done =>
      obtain ⟨t, u⟩ := done
      obtain ⟨policy, hpolicy, htx⟩ := bind_eq_ok.mp hbody
      obtain ⟨q, hedit⟩ := updateTx_edit htx
      have hp' : (RoomsService.autoJoinTo s p.roomId p.authorId).post? id.id = some p := by
        rw [hjoined]
        exact hp
      -- the response shows the post to its author or to a moderator, so it cannot fail
      exact .inr ⟨hedit.findOne_isOk hp' hmanage hpolicy, p, q, hp, hedit⟩

/-- What a call makes of a post and its record. -/
def Content.AdvancesPost (s s' : Content) (i : Id) : Prop :=
  Advance (s.revisionsOf i) ((s.discussions.get? i).map Discussion.version)
    (s'.revisionsOf i) ((s'.discussions.get? i).map Discussion.version)

theorem Content.AdvancesPost.of_eq {s s' : Content} (hrevisions : s'.revisionsOf i = s.revisionsOf i)
    (hversion : (s'.discussions.get? i).map Discussion.version
      = (s.discussions.get? i).map Discussion.version) : s.AdvancesPost s' i := by
  unfold Content.AdvancesPost
  rw [hrevisions, hversion]
  exact .same

/-- A new post begins with its first version. -/
theorem create_advances (dto : CreateDiscussionDto) :
    s.AdvancesPost (create w s user dto).state.toContent i := by
  refine attempt_induction (P := fun s' : Db => s.AdvancesPost s'.toContent i) .same
    fun prelude _ => ?_
  obtain ⟨author, selected⟩ := prelude
  refine commit_induction (P := fun s' : Db => s.AdvancesPost s'.toContent i) .same fun s' a h => ?_
  simp only [bind_eq_ok, createTx, pure_eq_ok, Prod.mk.injEq] at h
  obtain ⟨room, -, -, -, tags, -, s₁, hrev, rfl, -⟩ := h
  rw [tagCounts_eq] at hrev
  have hrevisions : s₁.revisionsOf i = s.revisionsOf i ++
      if s.discussions.next = i then [(1, (dto.title, dto.content))] else [] :=
    revisionsOf_insertRevision hrev
  have hposts : s₁.discussions = s.discussions.insert (newPost w author dto selected room)
      (newPost_id w author dto selected room) := by
    rw [(insertRevision_eq hrev).2]
    rfl
  unfold Content.AdvancesPost
  rw [event_toContent, hrevisions, hposts, Serial.get?_insert]
  split
  · next hi =>
    subst hi
    rw [s.discussions.get?_next]
    exact Advance.next _
  · rw [List.append_nil]
    exact .same

/-- An edit records the next version or changes none. -/
theorem update_advances (id : UuidText) (dto : UpdateDiscussionDto) :
    s.AdvancesPost (update w s id user dto).state.toContent i := by
  rcases update_cases w s id user dto with ⟨-, hsame⟩ | ⟨-, p, q, hp, hedit⟩
  · rw [hsame]
    exact .same
  · have hjoined := autoJoinTo_toContent s p.roomId p.authorId
    obtain ⟨hmem, -, -⟩ := Content.post?_eq_some.mp hp
    unfold Content.AdvancesPost
    rw [hedit.revisionsOf, hedit.discussions, hjoined, Serial.save_toTable, Table.get?_save, hedit.id]
    by_cases hi : p.id = i
    · subst hi
      have hget : s.discussions.get? p.id = some p := Table.get?_eq_some.mpr ⟨hmem, rfl⟩
      simp only [hget, if_true, and_true, Option.map_some]
      -- a text that differs makes a version, with its record
      cases hchanged : contentChanged p dto with
      | true =>
        have hversion : q.version = (nextVersion (some p.version), q.latest) :=
          congrArg (·, q.latest) (hedit.contentVersion.trans (by rw [hchanged]; rfl))
        rw [hversion]
        exact .next _
      | false =>
        have hversion : q.version = p.version :=
          Prod.ext (hedit.contentVersion.trans (by rw [hchanged]; rfl)) (hedit.latest hchanged)
        rw [hversion]
        simp only [Bool.false_eq_true, if_false, List.append_nil]
        exact .same
    · simp only [hi, and_false, if_false, List.append_nil]
      exact .same

/-- A call leaves a post and its record alone, or adds the next version to both. -/
theorem posts_advance (s : Db) (c : Call) (i : Id) : s.AdvancesPost (s.step c).toContent i := by
  cases hpost : c.operation.writesPost with
  | false =>
    refine .of_eq (revisionsOf_congr (revisions_step hpost)) ?_
    refine ((thread_step s c i).keepsVersion fun id dto hop => ?_).resolve_right ?_
    · rw [hop] at hpost
      cases hpost
    · rintro ⟨-, dto, hop⟩
      rw [hop] at hpost
      cases hpost
  | true =>
    obtain ⟨w, user, o⟩ := c
    cases o with
    | discussions o =>
      cases o with
      | create dto => exact create_advances dto
      | update id dto => exact update_advances id dto
      | _ => cases hpost
    | _ => cases hpost

/-- An update that counts as no change leaves everything that the post says alone. -/
theorem ThreadStep.written_of_update {t t' : Thread} (h : ThreadStep s c i t t') {id : UuidText}
    {dto : UpdateDiscussionDto} (hop : c.operation = .discussions (.update id dto)) :
    t'.written = t.written ∨ ∃ p, t.Live p ∧ id.id = i ∧ contentChanged p dto = true := by
  cases h with
  | same => exact .inl rfl
  -- only a change becomes a draft
  | @drafted p id' dto' _ hop' hp _ _ _ _ hdrafts =>
    have hsame := hop.symm.trans hop'.1
    simp only [Operation.discussions.injEq, DiscussionsOperation.update.injEq] at hsame
    obtain ⟨rfl, rfl⟩ := hsame
    simp only [drafts, Bool.and_eq_true] at hdrafts
    exact .inr ⟨p, hp, hop'.2, hdrafts.1.1⟩
  | @edited p id' dto' policy editor tagIds hop' hp _ _ _ _ _ htags =>
    have hsame := hop.symm.trans hop'.1
    simp only [Operation.discussions.injEq, DiscussionsOperation.update.injEq] at hsame
    obtain ⟨rfl, rfl⟩ := hsame
    cases hchanged : contentChanged p dto with
    | true => exact .inr ⟨p, hp, hop'.2, hchanged⟩
    | false =>
      refine .inl ?_
      have hnamed := named_of_not_contentChanged hchanged
      have htags : tagIds = t.tagIds := by
        rcases htags with ⟨-, hsame⟩ | ⟨ids, tags, hids, -⟩
        · exact hsame
        · cases hnamed.1.symm.trans hids
      simp only [Thread.written, Thread.setMedia, Thread.savePost, Thread.setTags, hp.1,
        Option.map_some, editedPost, hchanged, Bool.false_eq_true, if_false,
        edited_eq_self hchanged, htags, hnamed.2, false_and, Option.map_none, Option.getD_none]
  | statusSet hop' | removed hop' | commentAccepted hop' | acceptedCommentRemoved hop'
  | answerCreated hop' | answerAccepted hop' | acceptanceRemoved hop' | commentCreated hop'
  | postVoted hop' | reviewed hop' => cases hop.symm.trans hop'.1
  | created hop' | viewed hop' | answerUpdated hop' | acceptedAnswerUpdated hop' | answerRemoved hop'
  | acceptedAnswerRemoved hop' | commentUpdated hop' | acceptedCommentUpdated hop'
  | commentRemoved hop' | commentVoted hop' | answerVoted hop' | tagMerged hop'
  | tagRemoved hop' => cases hop.symm.trans hop'

/-- An update that changes what the post says is one that counts. -/
theorem revises_of_written (hp : s.discussions.get? i = some p) {id : UuidText}
    {dto : UpdateDiscussionDto} (hop : c.operation = .discussions (.update id dto))
    (hwritten : ((s.step c).thread i).written ≠ (s.thread i).written) : c.revises s p = true := by
  obtain ⟨q, hq, rfl, hchanged⟩ :=
    ((thread_step s c i).written_of_update hop).resolve_left hwritten
  obtain rfl : q = p := Option.some.inj (hq.1.symm.trans hp)
  have hid : q.id = id.id := (Table.get?_eq_some.mp hp).2
  obtain ⟨w, user, o⟩ := c
  obtain rfl : o = .discussions (.update id dto) := hop
  have hok : (update w s id user dto).result.isOk = true := by
    rcases update_cases w s id user dto with ⟨-, hsame⟩ | ⟨hok, -⟩
    · exact absurd (congrArg (fun t : Content => (t.thread id.id).written) hsame) hwritten
    · exact hok
  have hserved : (serve s ⟨w, user, .discussions (.update id dto)⟩).result.isOk = true :=
    isOk_map.trans hok
  simp only [Call.revises, hid, hserved, hchanged, decide_true, Bool.and_true]

/-- The version of a post moves by one with the updates that count, and with nothing else. -/
theorem contentVersion_step (hp : s.discussions.get? i = some p) :
    ∃ p', (s.step c).discussions.get? i = some p'
      ∧ p'.contentVersion = p.contentVersion + if c.revises s p then 1 else 0 := by
  have hid : p.id = i := (Table.get?_eq_some.mp hp).2
  -- an update is looked at in the method, every other call as a step of the thread
  by_cases hupdate : ∃ id dto, c.operation = .discussions (.update id dto)
  · obtain ⟨w, user, o⟩ := c
    obtain ⟨id, dto, rfl⟩ := hupdate
    have hserved : (serve s ⟨w, user, .discussions (.update id dto)⟩).result.isOk
        = (update w s id user dto).result.isOk := isOk_map
    simp only [Call.revises, hserved, hid]
    rcases update_cases w s id user dto with ⟨hfails, hsame⟩ | ⟨hok, q, q', hq, hedit⟩
    · refine ⟨p, (congrArg (fun t : Content => t.discussions.get? i) hsame).trans hp, ?_⟩
      simp [hfails]
    · obtain ⟨hmem, hqid, -⟩ := Content.post?_eq_some.mp hq
      have hjoined := autoJoinTo_toContent s q.roomId q.authorId
      show ∃ p', (update w s id user dto).state.discussions.get? i = some p' ∧ _
      rw [hedit.discussions, hjoined, Serial.save_toTable, Table.get?_save, hedit.id, hp]
      by_cases hi : id.id = i
      · obtain rfl : q = p :=
          Option.some.inj ((Table.get?_eq_some.mpr ⟨hmem, hqid.trans hi⟩).symm.trans hp)
        refine ⟨q', by simp [hid], ?_⟩
        simp [hedit.contentVersion, hok, hi]
      · refine ⟨p, ?_, by simp [hi]⟩
        rw [if_neg (hqid ▸ hi)]
  · have hrevises : c.revises s p = false := by
      unfold Call.revises
      split
      · next hop => exact absurd ⟨_, _, hop⟩ hupdate
      · rfl
    have hsame : ((s.step c).discussions.get? i).map Discussion.version
        = (s.discussions.get? i).map Discussion.version := by
      refine ((thread_step s c i).keepsVersion fun id dto hop =>
        hupdate ⟨id, dto, hop⟩).resolve_right ?_
      rintro ⟨hnone, -⟩
      cases hnone.symm.trans hp
    rw [hp, Option.map_some, Option.map_eq_some_iff] at hsame
    obtain ⟨p', hp', hversion⟩ := hsame
    exact ⟨p', hp', by rw [hrevises]; exact congrArg Prod.fst hversion⟩

/-! ## Answers

The same of answers, whose edits always record. -/

open AnswersService in
/-- The rows that the revocation of an acceptance leaves alone. -/
theorem revokeAcceptance_answers (w : World) (s : Db) (q : Discussion) (actor : Id)
    (reason : String) : (revokeAcceptance w s q actor reason).1.answers = s.answers
      ∧ (revokeAcceptance w s q actor reason).1.answerRevisions = s.answerRevisions := by
  unfold revokeAcceptance
  split <;> exact ⟨rfl, rfl⟩

/-- The record of an answer is read from one table. -/
theorem answerRevisionsOf_congr (h : s'.answerRevisions = s.answerRevisions) :
    s'.answerRevisionsOf k = s.answerRevisionsOf k := by
  rw [Content.answerRevisionsOf, h, Content.answerRevisionsOf]

/-- An update of an answer that goes through saves nothing, or the next version and its record. -/
theorem updateAnswerTx_cases {id : UuidText} {dto : UpdateAnswerDto} {u : Unit}
    (h : AnswersService.updateTx w s id dto user = .ok (t, u)) : ∃ a, s.answer? id.id = some a
      ∧ ((a.content = dto.content ∧ t = s)
        ∨ (a.content ≠ dto.content ∧ t.answers = s.answers.save (AnswersService.revised a dto.content)
          ∧ ∀ k, t.answerRevisionsOf k = s.answerRevisionsOf k ++
            if a.id = k then [(AnswersService.revised a dto.content).version] else [])) := by
  simp only [AnswersService.updateTx, bind_eq_ok] at h
  obtain ⟨actor, -, ⟨a, q⟩, hlock, -, -, -, -, -, -, h⟩ := h
  refine ⟨a, (AnswersService.lockAnswerAndQuestion_eq_ok.mp hlock).1, ?_⟩
  split at h
  · next hsame =>
    simp only [pure_eq_ok, Prod.mk.injEq] at h
    exact .inl ⟨hsame, h.1.symm⟩
  · next hchanged =>
    simp only [bind_eq_ok] at h
    obtain ⟨s₁, hrev, h⟩ := h
    have hanswers : s₁.answers = s.answers.save (AnswersService.revised a dto.content) := by
      rw [(insertAnswerRevision_eq hrev).2]
      rfl
    have hrevisions : ∀ k, s₁.answerRevisionsOf k = s.answerRevisionsOf k ++
        if a.id = k then [(AnswersService.revised a dto.content).version] else [] :=
      fun k => answerRevisionsOf_insertAnswerRevision hrev
    refine .inr ⟨hchanged, ?_⟩
    -- an accepted answer loses its acceptance, and keeps its versions
    split at h <;> simp only [pure_eq_ok, Prod.mk.injEq] at h <;> obtain ⟨rfl, -⟩ := h
    · have hkept := revokeAcceptance_answers w s₁ q actor "answer_edited"
      refine ⟨hkept.1.trans hanswers, fun k => ?_⟩
      rw [answerRevisionsOf_congr hkept.2, hrevisions]
    · exact ⟨hanswers, hrevisions⟩

/-- An update of an answer fails and leaves what is posted alone, or goes through and responds. -/
theorem updateAnswer_cases (w : World) (s : Db) (id : UuidText) (dto : UpdateAnswerDto)
    (user : GatewayUser) :
    ((AnswersService.update w s id dto user).result.isOk = false
      ∧ (AnswersService.update w s id dto user).state = s)
    ∨ ((AnswersService.update w s id dto user).result.isOk = true
      ∧ AnswersService.updateTx w s id dto user
        = .ok ((AnswersService.update w s id dto user).state, ())) := by
  unfold AnswersService.update
  cases htx : AnswersService.updateTx w s id dto user with
  | error e => exact .inl ⟨rfl, rfl⟩
  | ok done =>
    obtain ⟨t, u⟩ := done
    obtain ⟨a, r, -, hr, -⟩ := Db.Alike.checks_of_updateAnswerTx htx
    refine .inr ⟨?_, rfl⟩
    rw [commit_ok, AnswersService.findOne, hr]
    rfl

/-- What a call makes of an answer and its record. -/
def Content.AdvancesAnswer (s s' : Content) (k : Id) : Prop :=
  Advance (s.answerRevisionsOf k) ((s.answers.get? k).map Answer.version)
    (s'.answerRevisionsOf k) ((s'.answers.get? k).map Answer.version)

/-- A new answer begins with its first version. -/
theorem createAnswer_advances (d : UuidText) (dto : CreateAnswerDto) :
    s.AdvancesAnswer (AnswersService.create w s d dto user).state.toContent k := by
  refine attempt_induction (P := fun s' : Db => s.AdvancesAnswer s'.toContent k) .same
    fun prelude _ => ?_
  obtain ⟨author, q⟩ := prelude
  have hjoined := autoJoinTo_toContent s q.roomId author
  refine commit_induction (P := fun s' : Db => s.AdvancesAnswer s'.toContent k) ?_ fun s' a h => ?_
  · rw [hjoined]
    exact .same
  · simp only [bind_eq_ok, AnswersService.createTx, pure_eq_ok, Prod.mk.injEq] at h
    obtain ⟨-, -, s₁, hrev, rfl, -⟩ := h
    have hanswers : s₁.answers = (RoomsService.autoJoinTo s q.roomId author).answers.insert
        (AnswersService.newAnswer w d.id dto author)
        (AnswersService.newAnswer_id w d.id dto author) := by
      rw [(insertAnswerRevision_eq hrev).2]
      rfl
    have hrevisions : s₁.answerRevisionsOf k
        = (RoomsService.autoJoinTo s q.roomId author).answerRevisionsOf k ++
          if (RoomsService.autoJoinTo s q.roomId author).answers.next = k then [(1, dto.content)]
          else [] := answerRevisionsOf_insertAnswerRevision hrev
    -- the id is new, so the answer had no version
    have hadvance : s.AdvancesAnswer s₁.toContent k := by
      unfold Content.AdvancesAnswer
      rw [hrevisions, hanswers, hjoined, Serial.get?_insert]
      split
      · next hk =>
        subst hk
        rw [s.answers.get?_next]
        exact Advance.next _
      · rw [List.append_nil]
        exact .same
    rw [emit_toContent]
    split <;> exact hadvance

/-- An edit of an answer records the next version or changes none. -/
theorem updateAnswer_advances (id : UuidText) (dto : UpdateAnswerDto) :
    s.AdvancesAnswer (AnswersService.update w s id dto user).state.toContent k := by
  rcases updateAnswer_cases w s id dto user with ⟨-, hsame⟩ | ⟨-, htx⟩
  · rw [hsame]
    exact .same
  · obtain ⟨a, ha, ⟨-, hsame⟩ | ⟨-, hanswers, hrevisions⟩⟩ := updateAnswerTx_cases htx
    · rw [hsame]
      exact .same
    · obtain ⟨hmem, hid, -⟩ := Content.answer?_eq_some.mp ha
      have hget : s.answers.get? a.id = some a := Table.get?_eq_some.mpr ⟨hmem, rfl⟩
      unfold Content.AdvancesAnswer
      rw [hrevisions, hanswers, Serial.save_toTable, Table.get?_save]
      by_cases hk : a.id = k
      · subst hk
        have hrevised : (AnswersService.revised a dto.content).id = a.id := rfl
        rw [if_pos rfl, if_pos hrevised, hget]
        exact Advance.next _
      · have hrevised : (AnswersService.revised a dto.content).id ≠ k := hk
        rw [if_neg hk, if_neg hrevised, List.append_nil]
        exact .same

/-- A call leaves an answer and its record alone, or adds the next version to both. -/
theorem answers_advance (s : Db) (c : Call) (k : Id) :
    s.AdvancesAnswer (s.step c).toContent k := by
  cases hanswer : c.operation.writesAnswer with
  | false =>
    have hversion : ((s.step c).answers.get? k).map Answer.version
        = (s.answers.get? k).map Answer.version := by
      refine (answerVersion_step fun id dto hop => ?_).resolve_right ?_
      · rw [hop] at hanswer
        cases hanswer
      · rintro ⟨-, d, dto, hop⟩
        rw [hop] at hanswer
        cases hanswer
    unfold Content.AdvancesAnswer
    rw [answerRevisionsOf_congr (answerRevisions_step hanswer), hversion]
    exact .same
  | true =>
    obtain ⟨w, user, o⟩ := c
    cases o with
    | answers o =>
      cases o with
      | create d dto => exact createAnswer_advances d dto
      | update id dto => exact updateAnswer_advances id dto
      | _ => cases hanswer
    | _ => cases hanswer

/-- The version of an answer moves by one with the updates that change it, and its content with
nothing else. -/
theorem answer_contentVersion_step {a : Answer} (ha : s.answers.get? k = some a) :
    ∃ a', (s.step c).answers.get? k = some a'
      ∧ a'.contentVersion = a.contentVersion + (if c.revisesAnswer s a then 1 else 0)
      ∧ (c.revisesAnswer s a = false → a'.content = a.content) := by
  have hid : a.id = k := (Table.get?_eq_some.mp ha).2
  -- as for posts: an update, or any other call
  by_cases hupdate : ∃ id dto, c.operation = .answers (.update id dto)
  · obtain ⟨w, user, o⟩ := c
    obtain ⟨id, dto, rfl⟩ := hupdate
    have hserved : (serve s ⟨w, user, .answers (.update id dto)⟩).result.isOk
        = (AnswersService.update w s id dto user).result.isOk := isOk_map
    simp only [Call.revisesAnswer, hserved, hid]
    rcases updateAnswer_cases w s id dto user with ⟨hfails, hsame⟩ | ⟨hok, htx⟩
    · exact ⟨a, (congrArg (fun t : Db => t.answers.get? k) hsame).trans ha, by simp [hfails],
        fun _ => rfl⟩
    · obtain ⟨b, hb, hdone⟩ := updateAnswerTx_cases htx
      obtain ⟨hmem, hbid, -⟩ := Content.answer?_eq_some.mp hb
      show ∃ a', (AnswersService.update w s id dto user).state.answers.get? k = some a' ∧ _
      by_cases hk : id.id = k
      · obtain rfl : b = a :=
          Option.some.inj ((Table.get?_eq_some.mpr ⟨hmem, hbid.trans hk⟩).symm.trans ha)
        rcases hdone with ⟨hcontent, hsame⟩ | ⟨hcontent, hanswers, -⟩
        · exact ⟨b, by rw [hsame]; exact ha, by simp [hcontent], fun _ => rfl⟩
        · refine ⟨AnswersService.revised b dto.content, ?_, by
            simp [hok, hk, hcontent, AnswersService.revised], by simp [hok, hk, hcontent]⟩
          have hrevised : (AnswersService.revised b dto.content).id = k := hid
          rw [hanswers, Serial.save_toTable, Table.get?_save, if_pos hrevised, ha]
          rfl
      · have hother : b.id ≠ k := fun hb => hk (hbid.symm.trans hb)
        refine ⟨a, ?_, by simp [hk], fun _ => rfl⟩
        rcases hdone with ⟨-, hsame⟩ | ⟨-, hanswers, -⟩
        · rw [hsame]
          exact ha
        · have hrevised : (AnswersService.revised b dto.content).id ≠ k := hother
          rw [hanswers, Serial.save_toTable, Table.get?_save_of_ne hrevised]
          exact ha
  · have hrevises : c.revisesAnswer s a = false := by
      unfold Call.revisesAnswer
      split
      · next hop => exact absurd ⟨_, _, hop⟩ hupdate
      · rfl
    have hsame : ((s.step c).answers.get? k).map Answer.version
        = (s.answers.get? k).map Answer.version := by
      refine (answerVersion_step fun id dto hop => hupdate ⟨id, dto, hop⟩).resolve_right ?_
      rintro ⟨hnone, -⟩
      cases hnone.symm.trans ha
    rw [ha, Option.map_some, Option.map_eq_some_iff] at hsame
    obtain ⟨a', ha', hversion⟩ := hsame
    exact ⟨a', ha', by rw [hrevises]; exact congrArg Prod.fst hversion,
      fun _ => congrArg Prod.snd hversion⟩

/-! ## All runs

The record is complete from the empty store on: the versions of a row are `1`, `2` and so on, and the last one is the
one of the row. -/

/-- The record of a post ends with the version of the post. -/
theorem posts_logOf (calls : List Call) (i : Id) : LogOf ((Db.after calls).revisionsOf i)
    (((Db.after calls).discussions.get? i).map Discussion.version) := by
  have hempty : LogOf (Db.empty.revisionsOf i)
      ((Db.empty.discussions.get? i).map Discussion.version) := rfl
  exact run_invariant (P := fun s : Db =>
    LogOf (s.revisionsOf i) ((s.discussions.get? i).map Discussion.version))
    (fun s c h => (posts_advance s c i).logOf h) hempty calls

/-- The record of an answer ends with the version of the answer. -/
theorem answers_logOf (calls : List Call) (k : Id) : LogOf ((Db.after calls).answerRevisionsOf k)
    (((Db.after calls).answers.get? k).map Answer.version) := by
  have hempty : LogOf (Db.empty.answerRevisionsOf k)
      ((Db.empty.answers.get? k).map Answer.version) := rfl
  exact run_invariant (P := fun s : Db =>
    LogOf (s.answerRevisionsOf k) ((s.answers.get? k).map Answer.version))
    (fun s c h => (answers_advance s c k).logOf h) hempty calls

/-! ## Rows of the record, by their version

The record as a table. A version of a row is found with the text that the row had then. -/

/-- The record of a post has the rows of the table that are about it. -/
theorem mem_revisionsOf {s : Content} {n : Nat} {title content : String} :
    (n, (title, content)) ∈ s.revisionsOf i
      ↔ ∃ v, s.revisions.get? (i, n) = some v ∧ v.title = title ∧ v.content = content := by
  simp only [Content.revisionsOf, List.mem_map, Table.mem_select, decide_eq_true_eq, Prod.mk.injEq,
    Table.get?_eq_some, and_assoc]

/-- The revisions of every post are complete. -/
def RevisionsComplete (s : Db) : Prop :=
  ∀ i, LogOf (s.revisionsOf i) ((s.discussions.get? i).map Discussion.version)

/-- Completeness is kept by every call. -/
theorem RevisionsComplete.step (h : RevisionsComplete s) (c : Call) : RevisionsComplete (s.step c) :=
  fun i => (posts_advance s c i).logOf (h i)

/-- The revision with the version of a post has the latest text of it. -/
theorem RevisionsComplete.latest (h : RevisionsComplete s) {p : Discussion} (hp : s.post? i = some p) :
    ∃ v, s.revisions.get? (i, p.contentVersion) = some v ∧ v.title = p.latest.1 ∧ v.content = p.latest.2 := by
  obtain ⟨hmem, rfl, -⟩ := Content.post?_eq_some.mp hp
  have hlog := h p.id
  rw [Table.get?_eq_some.mpr ⟨hmem, rfl⟩] at hlog
  exact mem_revisionsOf.mp (Logged.last hlog)

/-- A revision that is recorded stays. -/
theorem revision_step {n : Nat} {v : DiscussionRevision} (h : s.revisions.get? (i, n) = some v) :
    ∃ v', (s.step c).revisions.get? (i, n) = some v' ∧ v'.title = v.title ∧ v'.content = v.content := by
  have hmem : (n, (v.title, v.content)) ∈ s.revisionsOf i := mem_revisionsOf.mpr ⟨v, h, rfl, rfl⟩
  exact mem_revisionsOf.mp ((posts_advance s c i).mem hmem)

/-- The record of every post and of every answer is complete. A call moves the version of a post by
one if it is an update that goes through and counts as a change, as every update does that changes
what the post says; it moves the version of an answer by one if it is an update that changes it. -/
theorem revisions_complete (calls : List Call) :
    (∀ i p, (Db.after calls).discussions.get? i = some p →
      Logged ((Db.after calls).revisionsOf i) p.contentVersion p.latest)
    ∧ (∀ c i p, (Db.after calls).discussions.get? i = some p →
      ∃ p', ((Db.after calls).step c).discussions.get? i = some p'
        ∧ p'.contentVersion = p.contentVersion + if c.revises (Db.after calls) p then 1 else 0)
    ∧ (∀ c i p id dto, (Db.after calls).discussions.get? i = some p →
      c.operation = .discussions (.update id dto) →
      (((Db.after calls).step c).thread i).written ≠ ((Db.after calls).thread i).written →
      c.revises (Db.after calls) p = true)
    ∧ (∀ k a, (Db.after calls).answers.get? k = some a →
      Logged ((Db.after calls).answerRevisionsOf k) a.contentVersion a.content)
    ∧ ∀ c k a, (Db.after calls).answers.get? k = some a →
      ∃ a', ((Db.after calls).step c).answers.get? k = some a'
        ∧ a'.contentVersion
          = a.contentVersion + (if c.revisesAnswer (Db.after calls) a then 1 else 0)
        ∧ (c.revisesAnswer (Db.after calls) a = false → a'.content = a.content) := by
  refine ⟨fun i p hp => ?_, fun c i p hp => contentVersion_step hp,
    fun c i p id dto hp hop hwritten => revises_of_written hp hop hwritten, fun k a ha => ?_,
    fun c k a ha => answer_contentVersion_step ha⟩
  · have hlog := posts_logOf calls i
    rw [hp] at hlog
    exact hlog
  · have hlog := answers_logOf calls k
    rw [ha] at hlog
    exact hlog

namespace Sample

/-- Student `1` names the attachments of the post `0`: none, as before. -/
def nameMedia : Call :=
  call 2 (student 1) (.discussions (.update (Id.text 0) { mediaIds := some [] }))

/-- Student `3` corrects the answer `0`. -/
def reword : Call :=
  call 4 (student 3) (.answers (.update (Id.text 0)
    { content := "Contract the inner cycle first.", expectedVersion := 1,
      revisionType := .editorial }))

end Sample

theorem revisions_complete_reworded :
    Logged ((Db.after [Sample.openForum, Sample.ask, Sample.answer, Sample.reword]).answerRevisionsOf 0)
      2 "Contract the inner cycle first." := by
  have hanswer : ((Db.after [Sample.openForum, Sample.ask, Sample.answer,
      Sample.reword]).answers.get? 0).map Answer.version
      = some (2, "Contract the inner cycle first.") := by decide
  obtain ⟨a, ha, hversion⟩ := Option.map_eq_some_iff.mp hanswer
  obtain ⟨h₁, h₂⟩ := Prod.mk.inj hversion
  have hlogged := (revisions_complete
    [Sample.openForum, Sample.ask, Sample.answer, Sample.reword]).2.2.2.1 0 a ha
  rw [h₁, h₂] at hlogged
  exact hlogged

/-- Naming the attachments that are there is a new version in which nothing is new. -/
theorem not_unwritten_unrevised : ¬ ∀ (calls : List Call) (c : Call) (i : Id),
    ((Db.after calls).discussions.get? i).isSome →
    (((Db.after calls).step c).thread i).written = ((Db.after calls).thread i).written →
    (((Db.after calls).step c).discussions.get? i).map (·.contentVersion)
      = ((Db.after calls).discussions.get? i).map (·.contentVersion) := by
  intro h
  have hsame := h [Sample.openForum, Sample.ask] Sample.nameMedia 0 (by decide) (by decide)
  exact absurd hsame (by decide)

end AcaSocial
