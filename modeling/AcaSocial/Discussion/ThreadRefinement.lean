import AcaSocial.Discussion.Frames
import AcaSocial.Discussion.ThreadStep

/-!
# The service refines the steps of a thread

`thread_step`: a call makes each thread take a `ThreadStep`. The proof goes service by service:
a transaction that succeeds is inverted into its guards and the state that it leaves, and the
frame lemmas of `Thread` say what each thread sees of that state.
-/

namespace AcaSocial

variable {w : World} {s s' : Db} {user : GatewayUser} {i : Id} {o : Operation}

/-! ## Found rows

What the service finds by an id is what the thread of its post has under the id. -/

theorem Content.post?_id {s : Content} {k : Id} {p : Discussion} (h : s.post? k = some p) :
    p.id = k := (Content.post?_eq_some.mp h).2.1

/-- The comments of a thread are those of its post. -/
theorem thread_comment?_eq_some {k : Id} {m : Comment} :
    (s.thread i).comment? k = some m ↔ s.comment? k = some m ∧ m.discussionId = i := by
  simp only [Thread.comment?, Content.comment?, Content.thread, Table.get?_restrict,
    Option.filter_eq_some_iff, decide_eq_true_eq]
  tauto

/-- The answers of a thread are those of its post. -/
theorem thread_answer?_eq_some {k : Id} {a : Answer} :
    (s.thread i).answer? k = some a ↔ s.answer? k = some a ∧ a.discussionId = i := by
  simp only [Thread.answer?, Content.answer?, Content.thread, Table.get?_restrict,
    Option.filter_eq_some_iff, decide_eq_true_eq]
  tauto

theorem thread_comment? {k : Id} {m : Comment} (h : s.comment? k = some m) :
    (s.thread m.discussionId).comment? k = some m := thread_comment?_eq_some.mpr ⟨h, rfl⟩

theorem thread_answer? {k : Id} {a : Answer} (h : s.answer? k = some a) :
    (s.thread a.discussionId).answer? k = some a := thread_answer?_eq_some.mpr ⟨h, rfl⟩

/-- The check of the tags that a dto names finds them all, active, and returns their rows. -/
theorem tags_eq_ok {ids : List UuidText} {e : HttpError} {tags : List Tag} :
    DiscussionsService.tags s ids e = .ok tags
      ↔ tags = (s.tags.select fun t => decide (t.id ∈ ids.map (·.id)))
        ∧ tags.length = ids.length ∧ ∀ t ∈ tags, t.status = .active := by
  simp only [DiscussionsService.tags, bind_eq_ok, require_eq_ok, pure_eq_ok]
  constructor
  · rintro ⟨-, ⟨hlen, hactive⟩, rfl⟩
    exact ⟨rfl, hlen, hactive⟩
  · rintro ⟨rfl, hlen, hactive⟩
    exact ⟨(), ⟨hlen, hactive⟩, rfl⟩

/-- No tag is returned twice. -/
theorem tags_nodup {ids : List UuidText} {e : HttpError} {tags : List Tag}
    (h : DiscussionsService.tags s ids e = .ok tags) : (tags.map (·.id)).Nodup := by
  obtain ⟨rfl, -⟩ := tags_eq_ok.mp h
  exact (List.filter_sublist.map Tag.id).nodup s.tags.nodup

/-! ## Transactions

A transaction takes a step of a thread when what it commits does: one that is rolled back leaves the stores as they
are. -/

/-- A call that leaves every thread as it was. -/
theorem ThreadStep.of_eq {c : Call} {t t' : Thread} (h : t' = t) : ThreadStep s c i t t' :=
  h ▸ .same

/-- It is enough to look at the body of a transaction that succeeds. -/
theorem ThreadStep.of_commit {α β : Type} {c : Call} {s₀ : Db}
    {body : Except HttpError (Db × α)} {respond : Db → α → Except HttpError β}
    (hs : s₀.toContent = s.toContent)
    (h : ∀ s' a, body = .ok (s', a) → ThreadStep s c i (s.thread i) (s'.thread i)) :
    ThreadStep s c i (s.thread i) ((commit s₀ body respond).state.thread i) := by
  rcases commit_state s₀ body respond with he | ⟨s', a, hbody, he⟩
  · rw [he, hs]
    exact .same
  · rw [he]
    exact h s' a hbody

/-- It is enough to look at a prelude that succeeds. -/
theorem ThreadStep.of_attempt {α β : Type} {c : Call} {x : Except HttpError α}
    {k : α → Outcome Db HttpError β}
    (h : ∀ a, x = .ok a → ThreadStep s c i (s.thread i) ((k a).state.thread i)) :
    ThreadStep s c i (s.thread i) ((attempt s x k).state.thread i) := by
  cases x with
  | error e => exact .same
  | ok a => exact h a rfl

/-- A call that saves one post. -/
theorem ThreadStep.of_savePost {c : Call} {s₁ : Db} {k : Id} {p p' : Discussion}
    (hs : s₁.toContent = s.toContent) (hp : s.post? k = some p) (hid : p'.id = p.id)
    (h : (s.thread k).Live p → ThreadStep s c k (s.thread k) ((s.thread k).savePost p')) :
    ThreadStep s c i (s.thread i) ((s₁.savePost p').thread i) := by
  rw [thread_savePost (hs ▸ hp) hid, hs]
  split
  · next hi => exact hi ▸ h (post?_iff_live.mp hp)
  · exact .same

/-! ## Discussions

One lemma for each method on posts. A method that writes no post leaves every thread, and one that writes a post takes
a step of the thread of this post and leaves the others. -/

section Discussions

open DiscussionsService

/-- To look at a post writes nothing. -/
theorem view_threadStep (id : UuidText) :
    ThreadStep s ⟨w, user, .discussions (.findOne id)⟩ i (s.thread i)
      ((view w s id user).state.thread i) := by
  refine .of_commit rfl fun s' a h => ?_
  simp only [bind_eq_ok, lockPost_eq_ok, pure_eq_ok, Prod.mk.injEq] at h
  obtain ⟨-, -, p, hp, rfl, -⟩ := h
  exact .of_savePost rfl hp rfl fun hlive => .viewed rfl hlive

/-- A removal deletes a post softly, or fails. -/
theorem remove_threadStep (id : UuidText) :
    ThreadStep s ⟨w, user, .discussions (.remove id)⟩ i (s.thread i)
      ((remove w s id user).state.thread i) := by
  refine .of_commit rfl fun s' a h => ?_
  simp only [removeTx, bind_eq_ok, lockPost_eq_ok, requireManager_eq_ok, pure_eq_ok,
    Prod.mk.injEq] at h
  obtain ⟨-, -, p, hp, -, hmanage, rfl, -⟩ := h
  rw [thread_tagCounts, event_toContent]
  exact .of_savePost rfl hp rfl fun hlive => .removed ⟨rfl, rfl⟩ hlive hmanage

/-- The acceptance of a comment writes the id of the comment into its post. -/
theorem acceptAnswer_threadStep (id commentId : UuidText) :
    ThreadStep s ⟨w, user, .discussions (.acceptAnswer id commentId)⟩ i (s.thread i)
      ((acceptAnswer w s id user commentId).state.thread i) := by
  refine .of_commit rfl fun s' a h => ?_
  simp only [acceptAnswerTx, bind_eq_ok, authenticated_eq_ok, lockPost_eq_ok,
    requireApproved_eq_ok, requireQuestionOwner, requireOpen_eq_ok, require_eq_ok,
    orThrow_eq_ok] at h
  obtain ⟨-, -, p, hp, -, happ, -, ⟨-, hq, howner⟩, -, hopen, m, hm, -, ⟨hd, hroot⟩, -, hauthor,
    h⟩ := h
  split at h <;> simp only [pure_eq_ok, Prod.mk.injEq] at h
  · obtain ⟨rfl, -⟩ := h
    exact .same
  · next hother =>
    obtain ⟨rfl, -⟩ := h
    rw [event_toContent]
    refine .of_savePost rfl hp rfl fun hlive => ?_
    obtain rfl := hd
    exact .commentAccepted ⟨rfl, rfl⟩ hlive happ hq howner hopen (thread_comment? hm) hroot
      hauthor hother

/-- The acceptance of a comment is taken back in its post. -/
theorem removeAcceptedAnswer_threadStep (id : UuidText) :
    ThreadStep s ⟨w, user, .discussions (.removeAcceptedAnswer id)⟩ i (s.thread i)
      ((removeAcceptedAnswer w s id user).state.thread i) := by
  refine .of_commit rfl fun s' a h => ?_
  simp only [removeAcceptedAnswerTx, bind_eq_ok, authenticated_eq_ok, lockPost_eq_ok,
    requireQuestionOwner, requireOpen_eq_ok, require_eq_ok, pure_eq_ok, Prod.mk.injEq] at h
  obtain ⟨-, -, p, hp, -, ⟨-, hq, howner⟩, -, hopen, rfl, -⟩ := h
  exact .of_savePost rfl hp rfl fun hlive => .acceptedCommentRemoved ⟨rfl, rfl⟩ hlive hq howner hopen

/-- A post is closed or opened again. -/
theorem setStatus_threadStep (id : UuidText) (status : PostStatus) :
    ThreadStep s ⟨w, user, .discussions (.setStatus id status)⟩ i (s.thread i)
      ((setStatus w s id user status).state.thread i) := by
  refine .of_commit rfl fun s' a h => ?_
  simp only [setStatusTx, bind_eq_ok, authenticated_eq_ok, lockPost_eq_ok, require_eq_ok,
    pure_eq_ok, Prod.mk.injEq] at h
  obtain ⟨u, hu, -, hstatus, -, hmod, p, hp, rfl, -⟩ := h
  exact .of_savePost rfl hp rfl fun hlive =>
    .statusSet ⟨rfl, rfl⟩ hlive ⟨by simp [hu], hmod⟩ hstatus

/-- The author of a new post is the user of the request. -/
theorem createPrelude_user {dto : CreateDiscussionDto} {author : Id}
    {selected : Option AcademicContext} (h : createPrelude w user dto = .ok (author, selected)) :
    user.id = some author := by
  simp only [createPrelude, bind_eq_ok, authenticated_eq_ok, pure_eq_ok, Prod.mk.injEq] at h
  obtain ⟨_, huser, -, -, -, -, rfl, -⟩ := h
  exact huser

/-- What the threads see of a creation. -/
theorem createTx_thread {s₀ : Db} {author k : Id} {dto : CreateDiscussionDto}
    {selected : Option AcademicContext} {room : PostContext} (hs : s₀.toContent = s.toContent)
    (h : createTx w s₀ author dto selected room = .ok (s', k)) : ∃ tags,
      DiscussionsService.tags s (dto.tagIds.getD []).eraseDups unavailableTags = .ok tags
      ∧ ∀ j, s'.thread j = if s.discussions.next = j then
          (((s.thread j).savePost (newPost w author dto selected room j)).setTags
            (tags.map (·.id))).setMedia (attached j (dto.mediaIds.getD []))
        else s.thread j := by
  simp only [createTx, bind_eq_ok, pure_eq_ok, Prod.mk.injEq] at h
  obtain ⟨tags, htags, s₁, hrev, rfl, -⟩ := h
  refine ⟨tags, ?_, fun j => ?_⟩
  · simpa only [DiscussionsService.tags, hs] using htags
  · rw [event_toContent, thread_insertRevision hrev, thread_tagCounts, thread_setMedia,
      thread_setTags (tags_nodup htags), thread_insertPost]
    simp only [hs]
    by_cases hj : s.discussions.next = j
    · subst hj
      simp only [if_true]
    · simp only [hj, if_false]

/-- A new post opens its thread, and leaves the others. -/
theorem create_threadStep (dto : CreateDiscussionDto) :
    ThreadStep s ⟨w, user, .discussions (.create dto)⟩ i (s.thread i)
      ((create w s user dto).state.thread i) := by
  refine .of_attempt fun prelude hprelude => ?_
  obtain ⟨author, selected⟩ := prelude
  refine .of_commit (autoJoin_toContent _ _ _) fun s' a h => ?_
  simp only [bind_eq_ok] at h
  obtain ⟨room, hroom, -, -, h⟩ := h
  obtain ⟨tags, htags, hthread⟩ := createTx_thread (autoJoin_toContent _ _ _) h
  rw [hthread]
  split
  · next hi =>
    exact .created rfl (createPrelude_user hprelude) ⟨hi.symm, hi ▸ s.discussions.get?_next⟩ hroom
      htags
  · exact .same

/-- What an edit has checked before its transaction. -/
theorem updatePrelude_eq_ok {id : UuidText} {dto : UpdateDiscussionDto} {editor : Id}
    {p : Discussion} (h : updatePrelude w s id user dto = .ok (editor, p)) :
    user.id = some editor ∧ s.post? id.id = some p ∧ canManage p.authorId user
      ∧ p.status ≠ .closed := by
  simp only [updatePrelude, bind_eq_ok, authenticated_eq_ok, lockPost_eq_ok,
    requireManager_eq_ok, requireOpen_eq_ok, pure_eq_ok, Prod.mk.injEq] at h
  obtain ⟨_, huser, -, -, _, hp, -, hmanage, -, hopen, rfl, rfl⟩ := h
  exact ⟨huser, hp, hmanage, hopen⟩

/-- What an update that answers has done. -/
theorem update_ok {id : UuidText} {dto : UpdateDiscussionDto} (h : (update w s id user dto).result.isOk = true) :
    ∃ editor p policy u, updatePrelude w s id user dto = .ok (editor, p)
      ∧ RoomsService.assertCanPostTo w (RoomsService.autoJoinTo s p.roomId p.authorId) p.roomId
        ⟨some p.authorId, user.role⟩ = .ok policy
      ∧ updateTx w (RoomsService.autoJoinTo s p.roomId p.authorId) editor dto policy p
        = .ok ((update w s id user dto).state, u) := by
  unfold update at h ⊢
  cases hprelude : updatePrelude w s id user dto with
  | error e =>
    rw [hprelude] at h
    cases h
  | ok found =>
    obtain ⟨editor, p⟩ := found
    rw [hprelude] at h
    simp only [attempt] at h ⊢
    generalize hbody : (do
      let policy ← RoomsService.assertCanPostTo w (RoomsService.autoJoinTo s p.roomId p.authorId)
        p.roomId ⟨some p.authorId, user.role⟩
      updateTx w (RoomsService.autoJoinTo s p.roomId p.authorId) editor dto policy p) = body at h
    cases body with
    | error e => cases h
    | ok done =>
      obtain ⟨policy, hpolicy, htx⟩ := bind_eq_ok.mp hbody
      exact ⟨editor, p, policy, done.2, rfl, hpolicy, htx⟩

/-- What the threads see of the tags that an edit names. -/
theorem retagTo_thread {d : Id} {tagIds : Option (List UuidText)}
    (h : retagTo s d tagIds = .ok s') : ∃ ids',
      ((tagIds = none ∧ ids' = (s.thread d).tagIds) ∨ ∃ ids tags, tagIds = some ids
          ∧ DiscussionsService.tags s ids.eraseDups unavailableTags = .ok tags
          ∧ ids' = tags.map (·.id))
      ∧ ∀ j, s'.thread j = if d = j then (s.thread j).setTags ids' else s.thread j := by
  cases tagIds with
  | none =>
    simp only [retagTo, Except.ok.injEq] at h
    subst h
    refine ⟨_, .inl ⟨rfl, rfl⟩, fun j => ?_⟩
    split
    · next hj => subst hj; rfl
    · rfl
  | some ids =>
    simp only [retagTo, retag, bind_eq_ok, pure_eq_ok] at h
    obtain ⟨tags, htags, rfl⟩ := h
    refine ⟨_, .inr ⟨ids, tags, rfl, htags, rfl⟩, fun j => ?_⟩
    rw [thread_setTags (tags_nodup htags), thread_tagCounts, thread_tagCounts]

/-- What the threads see of the version that an edit records. -/
theorem recordVersion_thread {editor : Id} {dto : UpdateDiscussionDto} {p : Discussion}
    (h : recordVersion w s editor dto p = .ok s') (j : Id) :
    s'.thread j = if p.id = j ∧ contentChanged p dto ∧ p.acceptedAnswerId.isSome then
        (s.thread j).revoke w.now editor "question_edited"
      else s.thread j := by
  unfold recordVersion at h
  split at h
  · next hchanged =>
    simp only [bind_eq_ok, pure_eq_ok] at h
    obtain ⟨s₁, hrev, rfl⟩ := h
    by_cases haccepted : p.acceptedAnswerId.isSome
    · rw [if_pos haccepted, thread_revokeAcceptances, thread_insertRevision hrev]
      simp [hchanged, haccepted]
    · rw [if_neg haccepted, thread_insertRevision hrev]
      simp [haccepted]
  · next hchanged =>
    simp only [Except.ok.injEq] at h
    subst h
    simp [hchanged]

/-- The links to media are those of one post, and they are replaced if the dto has any. -/
theorem attachTo_thread {d : Id} {mediaIds : Option (List UuidText)} (j : Id) :
    (attachTo s d mediaIds).thread j = if d = j then
        (s.thread j).setMedia ((mediaIds.map (attached d)).getD (s.thread j).media)
      else s.thread j := by
  cases mediaIds with
  | none => simp [attachTo, Thread.setMedia]
  | some ids => simp [attachTo, thread_setMedia]

theorem editedPost_id (dto : UpdateDiscussionDto) (policy : Option PostContext)
    (p : Discussion) : (editedPost dto policy p).id = p.id := by
  unfold editedPost
  split <;> rfl

/-- The draft of a post is read from its own tables. -/
theorem draftOf_congr {s₁ : Db} (h : s₁.toContent = s.toContent) (p : Discussion)
    (dto : UpdateDiscussionDto) : draftOf s₁ p dto = draftOf s p dto := by
  simp only [draftOf, h]

/-- The check of tags reads the table of tags alone. -/
theorem tags_congr {s₁ : Db} (h : s₁.toContent = s.toContent) (ids : List UuidText)
    (e : HttpError) : DiscussionsService.tags s₁ ids e = DiscussionsService.tags s ids e := by
  simp only [DiscussionsService.tags, h]

/-- What the direct path of an edit saves, with the tags that it has checked. -/
theorem saveEdit_thread {editor : Id} {dto : UpdateDiscussionDto} {policy : Option PostContext}
    {k : Id} {p : Discussion} {u : Unit} (hp : s.post? k = some p)
    (h : saveEdit w s editor dto policy p = .ok (s', u)) : ∃ tagIds,
      ((dto.tagIds = none ∧ tagIds = (s.thread k).tagIds) ∨ ∃ ids tags, dto.tagIds = some ids
          ∧ DiscussionsService.tags s ids.eraseDups unavailableTags = .ok tags
          ∧ tagIds = tags.map (·.id))
      ∧ ∀ j, s'.thread j = if k = j then
          ((((if contentChanged p dto ∧ p.acceptedAnswerId.isSome then
              (s.thread j).revoke w.now editor "question_edited" else s.thread j).setTags
              tagIds).savePost (editedPost dto policy p)).setMedia
            ((dto.mediaIds.map (attached j)).getD (s.thread j).media))
        else s.thread j := by
  obtain rfl := Content.post?_id hp
  simp only [saveEdit, bind_eq_ok, pure_eq_ok, Prod.mk.injEq] at h
  obtain ⟨s₁, htag, s₂, hrec, rfl, -⟩ := h
  obtain ⟨tagIds, htags, h₁⟩ := retagTo_thread htag
  refine ⟨tagIds, htags, fun j => ?_⟩
  have h₂ := recordVersion_thread hrec
  -- tags and versions are written before the post, which is still the one that was read
  have hp₂ : s₂.post? p.id = some p := by
    rw [post?_iff_live, h₂, h₁]
    have hlive := post?_iff_live.mp hp
    simp only [true_and, if_true]
    split <;> exact hlive
  rw [attachTo_thread, thread_savePost hp₂ (editedPost_id dto policy p), h₂, h₁]
  by_cases hj : p.id = j
  · subst hj
    simp only [true_and, if_true]
    split <;> rfl
  · simp [hj]

/-- An edit is a draft or is saved in its post. In both cases it is a step of the thread of the post. -/
theorem update_threadStep (id : UuidText) (dto : UpdateDiscussionDto) :
    ThreadStep s ⟨w, user, .discussions (.update id dto)⟩ i (s.thread i)
      ((update w s id user dto).state.thread i) := by
  refine .of_attempt fun prelude hprelude => ?_
  obtain ⟨editor, p⟩ := prelude
  obtain ⟨huser, hp, hmanage, hopen⟩ := updatePrelude_eq_ok hprelude
  have hs : (RoomsService.autoJoinTo s p.roomId p.authorId).toContent = s.toContent :=
    autoJoinTo_toContent _ _ _
  refine .of_commit hs fun s' a h => ?_
  simp only [bind_eq_ok, updateTx, require_eq_ok] at h
  obtain ⟨policy, hpolicy, -, -, -, hversion, h⟩ := h
  split at h
  · next hdrafts =>
    simp only [saveDraft, bind_eq_ok, pure_eq_ok, Prod.mk.injEq] at h
    obtain ⟨-, -, s₁, hrev, rfl, -⟩ := h
    rw [thread_insertRevision hrev, draftOf_congr hs]
    exact .of_savePost hs hp rfl fun hlive =>
      .drafted ⟨rfl, rfl⟩ hlive hmanage hopen hpolicy hversion hdrafts
  · next hdrafts =>
    -- the edit is saved in the post
    obtain ⟨tagIds, htags, hthread⟩ := saveEdit_thread (hs ▸ hp) h
    rw [hthread, hs]
    split
    · next hi =>
      subst hi
      simp only [tags_congr hs, hs] at htags
      exact .edited ⟨rfl, rfl⟩ (post?_iff_live.mp hp) hmanage hopen hpolicy hversion
        (by simpa using hdrafts) htags
    · exact .same

end Discussions

/-! ## Answers

An answer belongs to the thread of its question. Its acceptance writes the answer, the question and the book of
acceptances in one step. -/

section Answers

open AnswersService

/-- The post that the method hands on has lost its acceptance if it had one. -/
theorem revokeAcceptance_snd (s : Db) (q : Discussion) (actor : Id) (reason : String) :
    (revokeAcceptance w s q actor reason).2
      = if q.acceptedAnswerId.isSome then withdrawn q else q := by
  unfold revokeAcceptance
  cases q.acceptedAnswerId <;> rfl

/-- The acceptance ends in the book and in the post, and in no other thread. -/
theorem revokeAcceptance_thread {k : Id} {q : Discussion} (hq : s.post? k = some q)
    (actor : Id) (reason : String) (j : Id) :
    (revokeAcceptance w s q actor reason).1.thread j
      = if k = j ∧ q.acceptedAnswerId.isSome then
          ((s.thread j).revoke w.now actor reason).savePost (withdrawn q)
        else s.thread j := by
  obtain rfl := Content.post?_id hq
  have hq' : (s.revokeAcceptances q.id w.now actor reason).post? q.id = some q := hq
  unfold revokeAcceptance
  cases hacc : q.acceptedAnswerId with
  | none => simp
  | some a =>
    simp only [Option.isNone_some, Bool.false_eq_true, if_false, Option.isSome_some, and_true]
    rw [thread_savePost hq', thread_revokeAcceptances]
    · split <;> rfl
    · rfl

/-- What is stored of the post is what the method hands on. -/
theorem post?_revokeAcceptance {k : Id} {q : Discussion} (hq : s.post? k = some q)
    (actor : Id) (reason : String) :
    (revokeAcceptance w s q actor reason).1.post? k
      = some (revokeAcceptance w s q actor reason).2 := by
  have hlive := post?_iff_live.mp hq
  rw [revokeAcceptance_snd, post?_iff_live, revokeAcceptance_thread hq]
  cases hacc : q.acceptedAnswerId with
  | none => simpa using hlive
  | some a => exact ⟨by simp [Thread.savePost], hlive.2⟩

/-- What a new answer has checked before its transaction. -/
theorem createAnswerPrelude_eq_ok {d : UuidText} {author : Id} {q : Discussion}
    (h : createPrelude s d user = .ok (author, q)) :
    user.id = some author ∧ s.post? d.id = some q ∧ q.status ≠ .closed ∧ approved q
      ∧ q.postType = .question := by
  simp only [createPrelude, bind_eq_ok, authenticated_eq_ok, lockPost_eq_ok, requireOpen_eq_ok,
    requireApproved_eq_ok, require_eq_ok, pure_eq_ok, Prod.mk.injEq] at h
  obtain ⟨_, huser, _, hq, -, hopen, -, happ, -, hquestion, rfl, rfl⟩ := h
  exact ⟨huser, hq, hopen, happ, hquestion⟩

/-- A new answer is one of the thread of its question. -/
theorem createAnswer_threadStep (d : UuidText) (dto : CreateAnswerDto) :
    ThreadStep s ⟨w, user, .answers (.create d dto)⟩ i (s.thread i)
      ((create w s d dto user).state.thread i) := by
  refine .of_attempt fun prelude hprelude => ?_
  obtain ⟨author, q⟩ := prelude
  obtain ⟨huser, hq, hopen, happ, hquestion⟩ := createAnswerPrelude_eq_ok hprelude
  have hs := autoJoinTo_toContent s q.roomId author
  refine .of_commit hs fun s' a h => ?_
  simp only [bind_eq_ok, createTx, pure_eq_ok, Prod.mk.injEq] at h
  obtain ⟨-, -, s₁, hrev, rfl, -⟩ := h
  -- the row and its first version, in the thread of the question
  have hthread : ∀ j, s₁.thread j = if d.id = j then
      (s.thread j).insertAnswer (newAnswer w d.id dto author s.answers.next)
      else s.thread j := by
    intro j
    rw [thread_insertAnswerRevision hrev, thread_insertAnswer, hs]
    rfl
  have hq₁ : s₁.post? d.id = some q := by
    rw [post?_iff_live, hthread, if_pos rfl]
    exact post?_iff_live.mp hq
  -- the events that follow are no part of a thread
  have hsaved : ∀ s₂ : Db,
      s₂.toContent = (s₁.savePost { q with answerCount := q.answerCount + 1 }).toContent →
      ThreadStep s ⟨w, user, .answers (.create d dto)⟩ i (s.thread i) (s₂.thread i) := by
    intro s₂ hs₂
    rw [hs₂, thread_savePost hq₁, hthread]
    · split
      · next hi =>
        subst hi
        exact .answerCreated ⟨rfl, rfl⟩ (post?_iff_live.mp hq) huser hopen happ hquestion rfl
      · exact .same
    · rfl
  rw [emit_toContent]
  split
  · exact hsaved _ rfl
  · exact hsaved _ rfl

/-- An edit of an answer goes through when its checks hold and the next revision is free or not needed. -/
theorem updateAnswerTx_ok {id : UuidText} {dto : UpdateAnswerDto} {a : Answer} {q : Discussion}
    (hlock : lockAnswerAndQuestion s id.id = .ok (a, q)) (hmanage : canManage a.authorId user)
    (hopen : q.status ≠ .closed) (hversion : a.contentVersion = dto.expectedVersion)
    (hwritten : a.content = dto.content ∨ s.answerRevisions.get? (a.id, a.contentVersion + 1) = none) :
    ∃ t, updateTx w s id dto user = .ok (t, ())
      ∧ (a.content ≠ dto.content → t.answers = s.answers.save (revised a dto.content)) := by
  obtain ⟨actor, hactor⟩ := Option.isSome_iff_exists.mp (canManage_iff.mp hmanage).1
  have hmanager : requireManager a.authorId user = .ok () := requireManager_eq_ok.mpr hmanage
  simp only [updateTx, authenticated, hactor, orThrow_some, ok_bind, hlock, hmanager, requireOpen,
    require_bind, if_pos hopen, if_pos hversion]
  split
  · next hsame => exact ⟨_, rfl, fun hchanged => absurd hsame hchanged⟩
  · next hchanged =>
    have hfree : (s.saveAnswer (revised a dto.content)).answerRevisions.get?
        (a.id, a.contentVersion + 1) = none := hwritten.resolve_left hchanged
    obtain ⟨t, ht, hanswers⟩ : ∃ t, (s.saveAnswer (revised a dto.content)).insertAnswerRevision
        ⟨a.id, a.contentVersion + 1, dto.content, dto.revisionType, actor⟩ = .ok t
        ∧ t.answers = s.answers.save (revised a dto.content) := by
      simp only [Db.insertAnswerRevision, require_bind, if_pos hfree]
      exact ⟨_, rfl, rfl⟩
    -- the pointer of the question is all that a revocation saves besides
    have hrevoked : (revokeAcceptance w t q actor "answer_edited").1.answers = t.answers := by
      unfold revokeAcceptance
      split <;> rfl
    simp only [revised] at ht ⊢
    rw [ht]
    by_cases hrevokes : dto.revisionType = .semantic ∧ q.acceptedAnswerId = some a.id
    · exact ⟨_, if_pos hrevokes, fun _ => hrevoked.trans hanswers⟩
    · exact ⟨_, if_neg hrevokes, fun _ => hanswers⟩

/-- An edit of an answer takes its acceptance back, if it is the accepted one. -/
theorem updateAnswer_threadStep (id : UuidText) (dto : UpdateAnswerDto) :
    ThreadStep s ⟨w, user, .answers (.update id dto)⟩ i (s.thread i)
      ((update w s id dto user).state.thread i) := by
  refine .of_commit rfl fun s' u h => ?_
  simp only [updateTx, bind_eq_ok, authenticated_eq_ok, requireManager_eq_ok,
    requireOpen_eq_ok, require_eq_ok] at h
  obtain ⟨actor, huser, ⟨a, q⟩, hlock, -, hmanage, -, hopen, -, hversion, h⟩ := h
  obtain ⟨ha, hq⟩ := lockAnswerAndQuestion_eq_ok.mp hlock
  split at h
  · simp only [pure_eq_ok, Prod.mk.injEq] at h
    obtain ⟨rfl, -⟩ := h
    exact .same
  -- a new version, and the acceptance revoked if it was semantic
  · next hchanged =>
    simp only [bind_eq_ok] at h
    obtain ⟨s₁, hrev, h⟩ := h
    have hthread : ∀ j, s₁.thread j = if a.discussionId = j then
        (s.thread j).saveAnswer (revised a dto.content) else s.thread j := fun j => by
      rw [thread_insertAnswerRevision hrev]
      exact thread_saveAnswer ha rfl rfl
    have hq₁ : s₁.post? a.discussionId = some q := by
      rw [post?_iff_live, hthread, if_pos rfl]
      exact post?_iff_live.mp hq
    have hlive := post?_iff_live.mp hq
    split at h
    · next hacc =>
      simp only [pure_eq_ok, Prod.mk.injEq] at h
      obtain ⟨rfl, -⟩ := h
      have hacc : dto.revisionType = .semantic ∧ q.acceptedAnswerId = some a.id := hacc
      rw [revokeAcceptance_thread hq₁, hthread]
      by_cases hi : a.discussionId = i
      · subst hi
        simp only [hacc.2, Option.isSome_some, and_self, if_true]
        exact .acceptedAnswerUpdated rfl hlive (thread_answer? ha) hmanage hopen hversion
          hchanged hacc
      · simp only [hi, false_and, if_false]
        exact .same
    · next hacc =>
      simp only [pure_eq_ok, Prod.mk.injEq] at h
      obtain ⟨rfl, -⟩ := h
      rw [hthread]
      split
      · next hi =>
        subst hi
        exact .answerUpdated rfl hlive (thread_answer? ha) hmanage hopen hversion hchanged hacc
      · exact .same

/-- The post and the answer after the acceptance has been revoked, if it was this answer's. -/
theorem removeAnswer_thread {k : Id} {a : Answer} {now : Time} {s₁ : Db}
    {q₁ : Discussion} (ha : s₁.answer? k = some a) (hq : s₁.post? a.discussionId = some q₁)
    (j : Id) :
    ((s₁.saveAnswer { a with deletedAt := some now }).savePost
        { q₁ with answerCount := max 0 (q₁.answerCount - 1) }).thread j
      = if a.discussionId = j then
          ((s₁.thread j).saveAnswer { a with deletedAt := some now }).savePost
            { q₁ with answerCount := max 0 (q₁.answerCount - 1) }
        else s₁.thread j := by
  have hq' : (s₁.saveAnswer { a with deletedAt := some now }).post? a.discussionId = some q₁ := hq
  rw [thread_savePost hq', thread_saveAnswer ha]
  · split <;> rfl
  all_goals rfl

/-- A removal takes the acceptance of the answer back, and lowers the counter of the question. -/
theorem removeAnswer_threadStep (id : UuidText) :
    ThreadStep s ⟨w, user, .answers (.remove id)⟩ i (s.thread i)
      ((remove w s id user).state.thread i) := by
  refine .of_commit rfl fun s' u h => ?_
  simp only [removeTx, bind_eq_ok, authenticated_eq_ok, requireManager_eq_ok,
    requireOpen_eq_ok, pure_eq_ok, Prod.mk.injEq] at h
  obtain ⟨actor, huser, ⟨a, q⟩, hlock, -, hmanage, -, hopen, rfl, -⟩ := h
  obtain ⟨ha, hq⟩ := lockAnswerAndQuestion_eq_ok.mp hlock
  have hlive := post?_iff_live.mp hq
  rw [event_toContent]
  split
  -- the accepted answer: its acceptance ends first
  · next hacc =>
    have hacc : q.acceptedAnswerId = some a.id := hacc
    have ha₁ : (revokeAcceptance w s q actor "answer_deleted").1.answer? id.id = some a := by
      rw [← ha]
      unfold revokeAcceptance
      split <;> rfl
    rw [removeAnswer_thread ha₁ (post?_revokeAcceptance hq actor "answer_deleted"),
      revokeAcceptance_thread hq, revokeAcceptance_snd]
    simp only [hacc, Option.isSome_some, and_true, if_true]
    split
    · next hi =>
      subst hi
      exact .acceptedAnswerRemoved rfl hlive (thread_answer? ha) hmanage hopen hacc
    · exact .same
  · next hacc =>
    -- another answer: only the counter of the question moves
    rw [removeAnswer_thread ha hq]
    split
    · next hi =>
      subst hi
      exact .answerRemoved rfl hlive (thread_answer? ha) hmanage hopen hacc
    · exact .same

/-- A new acceptance and the post that it solves. -/
theorem accept_thread {k : Id} {q₁ : Discussion} {s₁ : Db} (hq : s₁.post? k = some q₁)
    (a : Answer) (actor j : Id) :
    ((s₁.insertAcceptance (newAcceptance w q₁ a actor) (newAcceptance_id w q₁ a actor)).savePost
        (solvedBy q₁ a)).thread j
      = if k = j then ((s₁.thread j).insertAcceptance
            (newAcceptance w q₁ a actor s₁.acceptances.next)).savePost (solvedBy q₁ a)
        else s₁.thread j := by
  obtain rfl := Content.post?_id hq
  have hq' : (s₁.insertAcceptance (newAcceptance w q₁ a actor)
      (newAcceptance_id w q₁ a actor)).post? q₁.id = some q₁ := hq
  rw [thread_savePost hq', thread_insertAcceptance]
  · by_cases hj : q₁.id = j <;> simp [hj, newAcceptance]
  · rfl

/-- An acceptance ends the one before it, and enters the answer in the question and in the book. -/
theorem acceptOf_threadStep (d : UuidText) (dto : AcceptAnswerDto) :
    ThreadStep s ⟨w, user, .answers (.accept d dto)⟩ i (s.thread i)
      ((accept w s d dto user).state.thread i) := by
  refine .of_commit rfl fun s' u h => ?_
  simp only [acceptTx, bind_eq_ok, authenticated_eq_ok, lockPost_eq_ok, requireOpen_eq_ok,
    requireApproved_eq_ok, require_eq_ok, orThrow_eq_ok, insertAcceptance, pure_eq_ok,
    Prod.mk.injEq] at h
  obtain ⟨actor, huser, q, hq, -, hopen, -, hquestion, -, hcan, -, happ, a, ha, -, hd, -, hauthor,
    -, hversions, _, ⟨-, -, rfl⟩, rfl, -⟩ := h
  obtain hqd := Content.post?_id hq
  have hnext : (revokeAcceptance w s q actor "replaced").1.acceptances.next
      = s.acceptances.next := by
    unfold revokeAcceptance
    split <;> rfl
  -- what was accepted before does not go into the new row
  have hrow : ∀ k, newAcceptance w (revokeAcceptance w s q actor "replaced").2 a actor k
      = newAcceptance w q a actor k := by
    intro k
    rw [revokeAcceptance_snd]
    split <;> rfl
  have hsolved : solvedBy (revokeAcceptance w s q actor "replaced").2 a = solvedBy q a := by
    rw [revokeAcceptance_snd]
    split <;> rfl
  rw [event_toContent, accept_thread (post?_revokeAcceptance hq actor "replaced"), hnext, hrow,
    hsolved, revokeAcceptance_thread hq]
  by_cases hi : d.id = i
  · subst hi
    simp only [true_and, if_true]
    have ha' : (s.thread d.id).answer? dto.answerId.id = some a :=
      (hd.trans hqd) ▸ thread_answer? ha
    have hstep : ThreadStep s ⟨w, user, .answers (.accept d dto)⟩ d.id (s.thread d.id) _ :=
      .answerAccepted ⟨rfl, rfl⟩ (post?_iff_live.mp hq) huser hopen hquestion hcan happ ha' hauthor
        hversions rfl
    -- with an acceptance that is replaced, or without
    by_cases hacc : q.acceptedAnswerId.isSome
    · rw [if_pos hacc] at hstep ⊢
      exact hstep
    · rw [if_neg hacc] at hstep ⊢
      exact hstep
  · simp only [hi, false_and, if_false]
    exact .same

/-- An acceptance ends, in the question and in the book. -/
theorem removeAcceptance_threadStep (d : UuidText) :
    ThreadStep s ⟨w, user, .answers (.removeAcceptance d)⟩ i (s.thread i)
      ((removeAcceptance w s d user).state.thread i) := by
  refine .of_commit rfl fun s' u h => ?_
  simp only [removeAcceptanceTx, bind_eq_ok, authenticated_eq_ok, lockPost_eq_ok, require_eq_ok,
    pure_eq_ok, Prod.mk.injEq] at h
  obtain ⟨actor, huser, q, hq, -, hcan, rfl, -⟩ := h
  rw [revokeAcceptance_thread hq]
  split
  · next hi =>
    obtain ⟨rfl, hacc⟩ := hi
    exact .acceptanceRemoved ⟨rfl, rfl⟩ (post?_iff_live.mp hq) hcan hacc
  · exact .same

end Answers

/-! ## Comments and votes

A comment and a vote are written to the thread that they belong to, with its counters. -/

section Comments

open CommentsService

/-- What a new comment has checked before its transaction. -/
theorem createCommentPrelude_eq_ok {d : UuidText} {author : Id} {p : Discussion}
    (h : createPrelude s d user = .ok (author, p)) :
    user.id = some author ∧ s.post? d.id = some p ∧ p.status ≠ .closed ∧ approved p := by
  simp only [createPrelude, bind_eq_ok, authenticated_eq_ok, lockPost_eq_ok, requireOpen_eq_ok,
    requireApproved_eq_ok, pure_eq_ok, Prod.mk.injEq] at h
  obtain ⟨_, huser, _, hp, -, hopen, -, happ, rfl, rfl⟩ := h
  exact ⟨huser, hp, hopen, happ⟩

/-- The parent of a comment is read from the content. -/
theorem parentOf_congr {s₁ : Db} (h : s₁.toContent = s.toContent) (d : UuidText)
    (dto : CreateCommentDto) : parentOf s₁ d dto = parentOf s d dto := by
  simp only [parentOf, h]

/-- A new comment is one of the thread of its post, whose counter it raises. -/
theorem createComment_threadStep (d : UuidText) (dto : CreateCommentDto) :
    ThreadStep s ⟨w, user, .comments (.create d dto)⟩ i (s.thread i)
      ((create w s d user dto).state.thread i) := by
  refine .of_attempt fun prelude hprelude => ?_
  obtain ⟨author, p⟩ := prelude
  obtain ⟨huser, hp, hopen, happ⟩ := createCommentPrelude_eq_ok hprelude
  have hs := autoJoinTo_toContent s p.roomId author
  refine .of_commit hs fun s' a h => ?_
  simp only [bind_eq_ok, createTx, pure_eq_ok, Prod.mk.injEq] at h
  obtain ⟨-, -, parent, hparent, s₁, hnotify, rfl, -⟩ := h
  rw [parentOf_congr hs] at hparent
  have hp' : ((RoomsService.autoJoinTo s p.roomId author).insertComment
      (newComment w d.id dto author parent)
      (newComment_id w d.id dto author parent)).post? d.id = some p := by
    rw [← hp, ← hs]; rfl
  rw [emit_toContent, notify_toContent hnotify, thread_savePost hp', thread_insertComment, hs]
  · by_cases hi : d.id = i
    · subst hi
      simp only [newComment, if_true]
      exact .commentCreated ⟨rfl, rfl⟩ (post?_iff_live.mp hp) huser hopen happ hparent rfl
    · simp only [hi, newComment, if_false]
      exact .same
  · rfl

/-- An edit of a comment writes its row. -/
theorem updateComment_threadStep (id : UuidText) (dto : UpdateCommentDto) :
    ThreadStep s ⟨w, user, .comments (.update id dto)⟩ i (s.thread i)
      ((update w s id user dto).state.thread i) := by
  refine .of_commit rfl fun s' u h => ?_
  simp only [updateTx, bind_eq_ok, authenticated_eq_ok, requireManager_eq_ok,
    requireOpen_eq_ok, pure_eq_ok, Prod.mk.injEq] at h
  obtain ⟨_, huser, ⟨p, m⟩, hlock, -, hopen, -, hmanage, rfl, -⟩ := h
  obtain ⟨hm, hp⟩ := lockCommentPost_eq_ok.mp hlock
  have hlive := post?_iff_live.mp hp
  split
  · next hacc =>
    have hm' : (s.savePost (unsolved p)).comment? id.id = some m := hm
    rw [thread_saveComment hm' (edited_id m dto) (edited_discussionId m dto), thread_savePost hp]
    · split
      · next hi =>
        subst hi
        exact .acceptedCommentUpdated rfl hlive (thread_comment? hm) hopen hmanage hacc
      · exact .same
    · rfl
  · next hacc =>
    rw [thread_saveComment hm (edited_id m dto) (edited_discussionId m dto)]
    split
    · next hi =>
      subst hi
      exact .commentUpdated rfl hlive (thread_comment? hm) hopen hmanage hacc
    · exact .same

/-- A removal deletes a comment softly, with the acceptance that it had. -/
theorem removeComment_threadStep (id : UuidText) :
    ThreadStep s ⟨w, user, .comments (.remove id)⟩ i (s.thread i)
      ((remove w s id user).state.thread i) := by
  refine .of_commit rfl fun s' u h => ?_
  simp only [removeTx, bind_eq_ok, authenticated_eq_ok, requireManager_eq_ok,
    requireOpen_eq_ok, pure_eq_ok, Prod.mk.injEq] at h
  obtain ⟨_, huser, ⟨p, m⟩, hlock, -, hopen, -, hmanage, rfl, -⟩ := h
  obtain ⟨hm, hp⟩ := lockCommentPost_eq_ok.mp hlock
  have hp' : (s.saveComment { m with deletedAt := some w.now }).post? m.discussionId = some p := hp
  rw [thread_savePost hp' (uncommented_id p id), thread_saveComment hm]
  · split
    · next hi =>
      subst hi
      exact .commentRemoved rfl (post?_iff_live.mp hp) (thread_comment? hm) hopen hmanage
    · exact .same
  all_goals rfl

open VotesService in
/-- A vote is written with the counters of what it is for. -/
theorem setVote_threadStep (type : TargetType) (id : UuidText) (v : Option VoteType) :
    ThreadStep s ⟨w, user, .setVote type id v⟩ i (s.thread i)
      ((setVote s type id user v).state.thread i) := by
  refine .of_commit rfl fun s' r h => ?_
  simp only [setVoteTx, bind_eq_ok, authenticated_eq_ok, requireOpen_eq_ok,
    requireApproved_eq_ok, require_eq_ok, pure_eq_ok, Prod.mk.injEq] at h
  obtain ⟨voter, -, target, hlock, -, hopen, -, happ, -, -, -, -, rfl, -⟩ := h
  -- the rows of `votes` are in no thread
  have hthread : ∀ j, (writeVote s voter type id.id v).thread j = s.thread j := by
    intro j
    cases v <;> rfl
  have hpost : ∀ k, (writeVote s voter type id.id v).post? k = s.post? k := by
    intro k
    cases v <;> rfl
  cases type with
  | discussion =>
    simp only [lockTarget, bind_eq_ok, lockPost_eq_ok, pure_eq_ok] at hlock
    obtain ⟨p, hp, rfl⟩ := hlock
    rw [Target.saveCounts, thread_savePost ((hpost _).trans hp), hthread]
    · split
      · next hi =>
        subst hi
        exact .postVoted ⟨rfl, rfl⟩ (post?_iff_live.mp hp) hopen happ
      · exact .same
    · rfl
  | comment =>
    simp only [lockTarget, bind_eq_ok, pure_eq_ok] at hlock
    obtain ⟨⟨p, m⟩, hlock, rfl⟩ := hlock
    obtain ⟨hm, hp⟩ := lockCommentPost_eq_ok.mp hlock
    have hm' : (writeVote s voter .comment id.id v).comment? id.id = some m := by
      rw [← hm]
      cases v <;> rfl
    rw [Target.saveCounts, thread_saveComment hm', hthread]
    · split
      · next hi =>
        subst hi
        exact .commentVoted rfl (post?_iff_live.mp hp) (thread_comment? hm) hopen happ
      · exact .same
    all_goals rfl
  | answer =>
    simp only [lockTarget, bind_eq_ok, lockPost_eq_ok, orThrow_eq_ok, pure_eq_ok] at hlock
    obtain ⟨a, ha, p, hp, a', ha', rfl⟩ := hlock
    obtain rfl : a = a' := Option.some.inj (ha.symm.trans ha')
    have ha' : (writeVote s voter .answer id.id v).answer? id.id = some a := by
      rw [← ha]
      cases v <;> rfl
    rw [Target.saveCounts, thread_saveAnswer ha', hthread]
    · split
      · next hi =>
        subst hi
        exact .answerVoted rfl (post?_iff_live.mp hp) (thread_answer? ha) hopen happ
      · exact .same
    all_goals rfl

end Comments

/-! ## Moderation, tags and rooms

A review writes its post, and tags when it publishes. The methods on rooms leave all threads. -/

section Administration

open ModerationService

theorem thread_foldl_bumpTag {f : UuidText → Int} (l : List UuidText) (s : Db) :
    (l.foldl (fun s t => s.bumpTag (f t) t.id) s).thread i = s.thread i :=
  foldl_frame (F := fun s : Db => s.thread i)
    (f := fun (s : Db) (t : UuidText) => s.bumpTag (f t) t.id) (fun _ _ => rfl) l s

/-- What the threads see of a published review. -/
theorem publish_thread {p : Discussion} {decision : Decision}
    (h : publish w s p decision = .ok s') : ∃ tagIds media,
      (decision ≠ .allow ∨ draftOf p = none →
        tagIds = (s.thread p.id).tagIds ∧ media = (s.thread p.id).media)
      ∧ (∀ d, decision = .allow → draftOf p = some d →
          media = attached p.id d.mediaIds ∧ ∃ tags e,
            DiscussionsService.tags s d.tagIds e = .ok tags ∧ tagIds = tags.map (·.id))
      ∧ ∀ j, s'.thread j = if p.id = j then ((s.thread j).setTags tagIds).setMedia media
          else s.thread j := by
  -- writing the tags and files that are there changes nothing
  have hkept : s' = s → ∀ j, s'.thread j = if p.id = j then
      ((s.thread j).setTags (s.thread p.id).tagIds).setMedia (s.thread p.id).media
      else s.thread j := by
    rintro rfl j
    split
    · next hj => subst hj; rfl
    · rfl
  unfold publish at h
  split at h
  · next hallow =>
    simp only [bind_eq_ok] at h
    obtain ⟨-, -, h⟩ := h
    -- published text has no draft to apply
    cases hdraft : draftOf p with
    | none =>
      rw [hdraft] at h
      simp only [pure_eq_ok] at h
      exact ⟨_, _, fun _ => ⟨rfl, rfl⟩, fun d _ hd => absurd hd (by simp), hkept h.symm⟩
    | some d =>
      rw [hdraft] at h
      simp only [applyDraft, bind_eq_ok, pure_eq_ok] at h
      obtain ⟨tags, htags, rfl⟩ := h
      refine ⟨tags.map (·.id), attached p.id d.mediaIds, fun h => ?_, fun d' _ hd' => ?_,
        fun j => ?_⟩
      · rcases h with h | h
        · exact absurd hallow h
        · exact absurd h (by simp)
      · obtain rfl := Option.some.inj hd'
        exact ⟨rfl, tags, _, htags, rfl⟩
      · rw [thread_setMedia, thread_setTags (tags_nodup htags), thread_foldl_bumpTag]
        split <;> rfl
  · next hallow =>
    simp only [Except.ok.injEq] at h
    exact ⟨_, _, fun _ => ⟨rfl, rfl⟩, fun d hd _ => absurd hd hallow, hkept h.symm⟩

theorem reviewedPost_id (p : Discussion) (dto : ReviewContentDto) :
    (reviewedPost p dto).id = p.id := by
  rw [reviewedPost_eq]

/-- What a review has checked, and what the threads see of it. -/
theorem reviewTx_thread {id : UuidText} {dto : ReviewContentDto} {actor : Id}
    {scope : Option (List Id)} {r : ModerationStatus}
    (h : reviewTx w s id dto actor scope = .ok (s', r)) : ∃ p s₁ tagIds media,
      s.post? id.id = some p
      ∧ (p.moderationStatus = dto.expectedModerationStatus.getD .pending
        ∧ p.contentVersion = dto.expectedVersion ∧ reviewedContent p = dto.expectedContent)
      ∧ publish w s p dto.decision = .ok s₁ ∧ s'.tags = s₁.tags
      ∧ (dto.decision ≠ .allow ∨ draftOf p = none →
        tagIds = (s.thread id.id).tagIds ∧ media = (s.thread id.id).media)
      ∧ (∀ d, dto.decision = .allow → draftOf p = some d →
          media = attached id.id d.mediaIds ∧ ∃ tags e,
            DiscussionsService.tags s d.tagIds e = .ok tags ∧ tagIds = tags.map (·.id))
      ∧ ∀ j, s'.thread j = if id.id = j then
          ((((if revokes p dto.decision then
              (s.thread j).revoke w.now actor (revokeReason p) else s.thread j).setTags
            tagIds).setMedia media).savePost (reviewedPost p dto))
        else s.thread j := by
  simp only [reviewTx, bind_eq_ok, lockPost_eq_ok, require_eq_ok, pure_eq_ok,
    Prod.mk.injEq] at h
  obtain ⟨p, hp, -, -, -, hstate, s₁, hpublish, rfl, -⟩ := h
  obtain ⟨tagIds, media, hkept, hdraft, h₁⟩ := publish_thread hpublish
  have hlive := post?_iff_live.mp hp
  have hpid := Content.post?_id hp
  have htags : ∀ s₂ : Db, (if revokes p dto.decision then
      s₁.revokeAcceptances p.id w.now actor (revokeReason p) else s₁) = s₂ → s₂.tags = s₁.tags := by
    rintro s₂ rfl
    split <;> rfl
  -- the state after the acceptances have been revoked, if they are
  generalize hs₂ : (if revokes p dto.decision then
    s₁.revokeAcceptances p.id w.now actor (revokeReason p) else s₁) = s₂
  have h₂ : ∀ j, s₂.thread j = if p.id = j then
      (((if revokes p dto.decision then (s.thread j).revoke w.now actor (revokeReason p)
        else s.thread j).setTags tagIds).setMedia media) else s.thread j := by
    intro j
    rw [← hs₂]
    by_cases hj : p.id = j
    · split <;> simp only [thread_revokeAcceptances, h₁, hj, if_true]
      rfl
    · split <;> simp only [thread_revokeAcceptances, h₁, hj, if_false]
  have hp₂ : s₂.post? id.id = some p := by
    rw [post?_iff_live, h₂, if_pos hpid]
    split <;> exact hlive
  rw [hpid] at hkept hdraft
  refine ⟨p, s₁, tagIds, media, hp, hstate, hpublish, htags s₂ hs₂, hkept, hdraft, fun j => ?_⟩
  rw [thread_insertReview, thread_savePost hp₂ (reviewedPost_id p dto), h₂, hpid]
  split <;> rfl

/-- A review decides on a post or on its draft. -/
theorem review_threadStep (id : UuidText) (dto : ReviewContentDto) :
    ThreadStep s ⟨w, user, .review id dto⟩ i (s.thread i)
      ((review w s id dto user).state.thread i) := by
  refine .of_commit rfl fun s' r h => ?_
  simp only [bind_eq_ok, authenticated_eq_ok] at h
  obtain ⟨actor, huser, scope, -, -, -, h⟩ := h
  obtain ⟨p, -, tagIds, media, hp, hstate, -, -, hkept, hdraft, hthread⟩ := reviewTx_thread h
  rw [hthread]
  split
  · next hi =>
    subst hi
    exact .reviewed ⟨rfl, rfl⟩ (post?_iff_live.mp hp) huser hstate hkept hdraft
  · exact .same

/-- A call whose transaction changes the tags themselves only. -/
theorem ThreadStep.of_tags {α β : Type} {c : Call} {body : Except HttpError (Db × α)}
    {respond : Db → α → Except HttpError β}
    (h : ∀ s' a, body = .ok (s', a) → ∃ tags, s' = { s with tags := tags }) :
    ThreadStep s c i (s.thread i) ((commit s body respond).state.thread i) :=
  .of_commit rfl fun s' a hbody => by
    obtain ⟨_, rfl⟩ := h s' a hbody
    exact .same

/-- The methods on rooms leave every thread. -/
theorem rooms_threadStep (o : RoomsOperation) :
    ThreadStep s ⟨w, user, .rooms o⟩ i (s.thread i) ((o.serve w s user).state.thread i) :=
  .of_eq (by rw [rooms_toContent])

/-- A tag that no live post has is removed, with the links of deleted posts. -/
theorem removeTag_threadStep (id : UuidText) :
    ThreadStep s ⟨w, user, .tags (.remove id)⟩ i (s.thread i)
      ((TagsService.remove s id user).state.thread i) := by
  refine .of_commit rfl fun s' u h => ?_
  simp only [bind_eq_ok, require_eq_ok, pure_eq_ok, Prod.mk.injEq] at h
  obtain ⟨-, -, tag, -, -, hunused, -, -, rfl, -⟩ := h
  by_cases hlive : ∃ p, (s.thread i).Live p
  · obtain ⟨p, hp⟩ := hlive
    refine .of_eq (Thread.ext rfl (congrArg (List.map _) (Table.select_erase ?_)) rfl rfl rfl rfl)
    intro l hl hli
    simp only [Bool.not_eq_true, List.any_eq_false, Bool.and_eq_true, decide_eq_true_eq,
      not_and] at hunused hli
    rw [decide_eq_false_iff_not]
    intro htag
    have := hunused l hl htag
    rw [hli, post?_iff_live.mpr hp] at this
    exact absurd this (by simp)
  · exact .tagRemoved rfl (not_exists.mp hlive)

/-- The methods on tags leave the posts, and write links only. -/
theorem tags_threadStep (o : TagsOperation) :
    ThreadStep s ⟨w, user, .tags o⟩ i (s.thread i) ((o.serve w s user).state.thread i) := by
  cases o with
  | create dto =>
    refine .of_tags fun s' r h => ?_
    simp only [bind_eq_ok, pure_eq_ok, Prod.mk.injEq] at h
    obtain ⟨-, -, -, -, -, -, -, -, rfl, -⟩ := h
    exact ⟨_, rfl⟩
  | update id dto =>
    refine .of_tags fun s' r h => ?_
    simp only [bind_eq_ok, pure_eq_ok, Prod.mk.injEq] at h
    obtain ⟨-, -, -, -, -, -, -, -, rfl, -⟩ := h
    exact ⟨_, rfl⟩
  | remove id => exact removeTag_threadStep id
  | setStatus id active =>
    refine .of_tags fun s' r h => ?_
    simp only [bind_eq_ok, pure_eq_ok, Prod.mk.injEq] at h
    obtain ⟨-, -, -, -, -, -, rfl, -⟩ := h
    exact ⟨_, rfl⟩
  | merge id target =>
    refine .of_commit rfl fun s' r h => ?_
    simp only [TagsService.mergeTx, bind_eq_ok, pure_eq_ok, Prod.mk.injEq] at h
    obtain ⟨-, -, -, -, -, -, -, -, -, -, rfl, -⟩ := h
    exact .tagMerged rfl

end Administration

/-! ## The service

Every call is one of these. -/

/-- Whatever the call, each thread takes a step. -/
theorem thread_step (s : Db) (c : Call) (i : Id) :
    ThreadStep s c i (s.thread i) ((s.step c).thread i) := by
  obtain ⟨w, user, o⟩ := c
  cases o with
  | rooms o => exact rooms_threadStep o
  | discussions o =>
    cases o with
    | create dto => exact create_threadStep dto
    | findAll filter => exact .same
    | findOne id => exact view_threadStep id
    | update id dto => exact update_threadStep id dto
    | remove id => exact remove_threadStep id
    | acceptAnswer id m => exact acceptAnswer_threadStep id m
    | removeAcceptedAnswer id => exact removeAcceptedAnswer_threadStep id
    | setStatus id status => exact setStatus_threadStep id status
  | answers o =>
    cases o with
    | create d dto => exact createAnswer_threadStep d dto
    | list d => exact .same
    | update id dto => exact updateAnswer_threadStep id dto
    | remove id => exact removeAnswer_threadStep id
    | accept d dto => exact acceptOf_threadStep d dto
    | removeAcceptance d => exact removeAcceptance_threadStep d
  | comments o =>
    cases o with
    | create d dto => exact createComment_threadStep d dto
    | findAllByDiscussion d filter => exact .same
    | update id dto => exact updateComment_threadStep id dto
    | remove id => exact removeComment_threadStep id
  | setVote type id v => exact setVote_threadStep type id v
  | review id dto => exact review_threadStep id dto
  | tags o => exact tags_threadStep o

end AcaSocial
