import AcaSocial.Discussion.ThreadRefinement

/-!
# The accepted answer and the status of a post

A post has two pointers, to an accepted comment and to an accepted answer, and a status that is
meant to be `solved` exactly when one of them is set.

* **`PointersAgree`** — the pointers and the status agree.
* **`Spoils`** — the three ways to break that: the operations of the comment feature look at
  their own pointer only, so on a post with an accepted answer they leave both pointers set, or
  an open post with one.
* **`pointersAgree_always_iff`** — nothing else breaks it, in any run.
-/

namespace AcaSocial

/-- At most one pointer is set, and a post that is not closed is solved iff one is. -/
def PointersAgree (p : Discussion) : Prop :=
  ¬ (p.acceptedAnswerId.isSome ∧ p.acceptedCommentId.isSome)
    ∧ (p.status ≠ .closed →
        (p.status = .solved ↔ p.acceptedAnswerId.isSome ∨ p.acceptedCommentId.isSome))

instance (p : Discussion) : Decidable (PointersAgree p) := by
  unfold PointersAgree; infer_instance

/-- The pointers and the status of every live post agree. -/
def AllPointersAgree (s : Db) : Prop := ∀ i p, s.post? i = some p → PointersAgree p

/-- The call is an operation of the comment feature that goes through on a post with an accepted
answer: accepting a comment, withdrawing the accepted comment, or reopening the post. -/
def Spoils (s : Db) (c : Call) : Prop :=
  match c.operation with
  | .discussions (.acceptAnswer id m) => ∃ p, s.post? id.id = some p ∧ p.acceptedAnswerId.isSome
      ∧ approved p ∧ p.postType = .question ∧ c.user.id = some p.authorId ∧ p.status ≠ .closed
      ∧ ∃ a, s.comment? m.id = some a ∧ Id.text a.discussionId = id ∧ a.parentCommentId = none
          ∧ a.authorId ≠ p.authorId
  | .discussions (.removeAcceptedAnswer id) => ∃ p, s.post? id.id = some p
      ∧ p.acceptedAnswerId.isSome ∧ p.postType = .question ∧ c.user.id = some p.authorId
      ∧ p.status ≠ .closed
  | .discussions (.setStatus id status) => ∃ p, s.post? id.id = some p
      ∧ p.acceptedAnswerId.isSome ∧ status = .open ∧ c.user.id.isSome ∧ c.user.isModerator
  | _ => False

/-! ## Steps that keep the agreement

A question has one solution or none. Most steps write both columns together. -/

namespace PointersAgree

variable {p q : Discussion}

/-- The agreement is about three columns. -/
theorem congr (h : PointersAgree p) (hanswer : q.acceptedAnswerId = p.acceptedAnswerId)
    (hcomment : q.acceptedCommentId = p.acceptedCommentId) (hstatus : q.status = p.status) :
    PointersAgree q := by
  unfold PointersAgree
  rw [hanswer, hcomment, hstatus]
  exact h

/-- A post that has accepted nothing and is not solved. -/
theorem of_none (hanswer : q.acceptedAnswerId = none) (hcomment : q.acceptedCommentId = none)
    (hstatus : q.status ≠ .solved) : PointersAgree q := by
  simp [PointersAgree, hanswer, hcomment, hstatus]

/-- A question with an accepted answer has no accepted comment. -/
theorem comment_eq_none (h : PointersAgree p) (ha : p.acceptedAnswerId.isSome) :
    p.acceptedCommentId = none := by
  rw [← Option.not_isSome_iff_eq_none]
  exact fun hc => h.1 ⟨ha, hc⟩

/-- A question with an accepted comment has no accepted answer. -/
theorem answer_eq_none (h : PointersAgree p) (hc : p.acceptedCommentId.isSome) :
    p.acceptedAnswerId = none := by
  rw [← Option.not_isSome_iff_eq_none]
  exact fun ha => h.1 ⟨ha, hc⟩

/-- A new version of a post has accepted nothing. -/
theorem editedPost (h : PointersAgree p) (hopen : p.status ≠ .closed)
    (dto : UpdateDiscussionDto) (policy : Option PostContext) :
    PointersAgree (DiscussionsService.editedPost dto policy p) := by
  have hstatus : (DiscussionsService.unaccepted p).status ≠ .solved := by
    unfold DiscussionsService.unaccepted
    intro hsolved
    simp only at hsolved
    split at hsolved
    · cases hsolved
    · next hnone => exact hnone ((h.2 hopen).mp hsolved)
  unfold DiscussionsService.editedPost
  split
  · exact of_none rfl rfl hstatus
  · exact h.congr rfl rfl rfl

/-- A review keeps both pointers and the status, or clears all three. -/
theorem reviewedPost (h : PointersAgree p) (dto : ReviewContentDto) :
    PointersAgree (ModerationService.reviewedPost p dto) := by
  unfold ModerationService.reviewedPost
  dsimp only
  split
  · refine of_none rfl rfl ?_
    intro hsolved
    simp only [ModerationService.unaccepted] at hsolved
    split at hsolved
    · cases hsolved
    · next hnot => exact hnot hsolved
  · exact h.congr (by simp) (by simp) (by simp)

/-- Withdrawing the accepted comment leaves nothing accepted. -/
theorem unsolved (h : PointersAgree p) (hc : p.acceptedCommentId.isSome) :
    PointersAgree (CommentsService.unsolved p) :=
  of_none (h.answer_eq_none hc) rfl (fun h => (by cases h))

/-- Withdrawing the accepted answer leaves nothing accepted. -/
theorem withdrawn (h : PointersAgree p) (ha : p.acceptedAnswerId.isSome) :
    PointersAgree (AnswersService.withdrawn p) :=
  of_none rfl (h.comment_eq_none ha) (fun h => (by cases h))

/-- Deleting a comment withdraws it or leaves the pointers alone. -/
theorem uncommented (h : PointersAgree p) (id : UuidText) :
    PointersAgree (CommentsService.uncommented p id) := by
  unfold CommentsService.uncommented
  split
  · next haccepted =>
    have hsome : p.acceptedCommentId.isSome := by
      obtain ⟨k, hk, -⟩ := Option.map_eq_some_iff.mp haccepted
      simp [hk]
    exact (h.unsolved hsome).congr rfl rfl rfl
  · exact h.congr rfl rfl rfl

/-- Reopening a post without an accepted answer returns it to the status that its accepted
comment calls for. -/
theorem reopened (h : p.acceptedAnswerId = none) :
    PointersAgree (DiscussionsService.withStatus p .open) := by
  cases hc : p.acceptedCommentId <;>
    simp [PointersAgree, DiscussionsService.withStatus, h, hc]

/-- An accepted answer replaces an accepted comment. -/
theorem solvedBy (p : Discussion) (a : Answer) : PointersAgree (AnswersService.solvedBy p a) := by
  simp [PointersAgree, AnswersService.solvedBy]

end PointersAgree

/-- A step that does not spoil the agreement keeps it. -/
theorem pointersAgree_step {s : Db} {c : Call} {i : Id} {t' : Thread}
    (h : ThreadStep s c i (s.thread i) t') (hsafe : ¬ Spoils s c)
    (hinv : ∀ p, (s.thread i).Live p → PointersAgree p) :
    ∀ p, t'.Live p → PointersAgree p := by
  intro p' hp'
  cases h with
  | same => exact hinv p' hp'
  | created =>
    simp only [Thread.live_setMedia, Thread.live_setTags, Thread.live_savePost] at hp'
    obtain ⟨rfl, -⟩ := hp'
    exact .of_none rfl rfl (fun h => (by cases h))
  | viewed _ hp =>
    obtain ⟨rfl, -⟩ := Thread.live_savePost.mp hp'
    exact (hinv _ hp).congr rfl rfl rfl
  | drafted _ hp =>
    obtain ⟨rfl, -⟩ := Thread.live_savePost.mp hp'
    exact (hinv _ hp).congr rfl rfl rfl
  | edited _ hp _ hopen =>
    simp only [Thread.live_setMedia, Thread.live_savePost] at hp'
    obtain ⟨rfl, -⟩ := hp'
    exact (hinv _ hp).editedPost hopen _ _
  | removed _ hp =>
    obtain ⟨rfl, hlive⟩ := Thread.live_savePost.mp hp'
    exact absurd hlive (by simp)
  -- the three operations that spoil the agreement would have to meet an accepted answer
  | @commentAccepted p id commentId a hop hp happ hquestion howner hopen ha hroot hauthor =>
    obtain ⟨rfl, -⟩ := Thread.live_savePost.mp hp'
    obtain ⟨hop, rfl⟩ := hop
    have hnone : p.acceptedAnswerId = none := by
      by_contra hsome
      refine hsafe ?_
      simp only [Spoils, hop]
      refine ⟨p, post?_iff_live.mpr hp, Option.isSome_iff_ne_none.mpr hsome, happ, hquestion,
        howner, hopen, a, ?_⟩
      obtain ⟨ha, hd⟩ := thread_comment?_eq_some.mp ha
      exact ⟨ha, congrArg Id.text hd, hroot, hauthor⟩
    simp [PointersAgree, hnone]
  | @acceptedCommentRemoved p id hop hp hquestion howner hopen =>
    obtain ⟨rfl, -⟩ := Thread.live_savePost.mp hp'
    obtain ⟨hop, rfl⟩ := hop
    have hnone : p.acceptedAnswerId = none := by
      by_contra hsome
      refine hsafe ?_
      simp only [Spoils, hop]
      exact ⟨p, post?_iff_live.mpr hp, Option.isSome_iff_ne_none.mpr hsome, hquestion, howner,
        hopen⟩
    exact .of_none hnone rfl (fun h => (by cases h))
  | @statusSet p id status hop hp huser hstatus =>
    obtain ⟨rfl, -⟩ := Thread.live_savePost.mp hp'
    obtain ⟨hop, rfl⟩ := hop
    obtain rfl | rfl := hstatus
    · have hnone : p.acceptedAnswerId = none := by
        by_contra hsome
        refine hsafe ?_
        simp only [Spoils, hop]
        exact ⟨p, post?_iff_live.mpr hp, Option.isSome_iff_ne_none.mpr hsome, trivial, huser⟩
      exact .reopened hnone
    · exact ⟨(hinv _ hp).1, fun h => absurd (by simp [DiscussionsService.withStatus]) h⟩
  -- counters only
  | answerCreated _ hp | commentCreated _ hp | postVoted _ hp =>
    obtain ⟨rfl, -⟩ := Thread.live_savePost.mp hp'
    exact (hinv _ hp).congr rfl rfl rfl
  | answerUpdated | commentUpdated | commentVoted | answerVoted | tagMerged | tagRemoved =>
    exact hinv _ hp'
  -- the answer is withdrawn with its acceptance
  | acceptedAnswerUpdated _ hp _ _ _ _ _ haccepted =>
    obtain ⟨rfl, -⟩ := Thread.live_savePost.mp hp'
    exact (hinv _ hp).withdrawn (by simp [haccepted.2])
  | answerRemoved _ hp =>
    obtain ⟨rfl, -⟩ := Thread.live_savePost.mp hp'
    exact (hinv _ hp).congr rfl rfl rfl
  | acceptedAnswerRemoved _ hp _ _ _ haccepted =>
    obtain ⟨rfl, -⟩ := Thread.live_savePost.mp hp'
    exact ((hinv _ hp).withdrawn (by simp [haccepted])).congr rfl rfl rfl
  | answerAccepted =>
    obtain ⟨rfl, -⟩ := Thread.live_savePost.mp hp'
    exact .solvedBy _ _
  | acceptanceRemoved _ hp _ haccepted =>
    obtain ⟨rfl, -⟩ := Thread.live_savePost.mp hp'
    exact (hinv _ hp).withdrawn haccepted
  | acceptedCommentUpdated _ hp _ _ _ haccepted =>
    obtain ⟨rfl, -⟩ := Thread.live_savePost.mp (Thread.live_saveComment.mp hp')
    obtain ⟨k, hk, -⟩ := Option.map_eq_some_iff.mp haccepted.2
    exact (hinv _ hp).unsolved (by simp [hk])
  | commentRemoved _ hp =>
    obtain ⟨rfl, -⟩ := Thread.live_savePost.mp hp'
    exact (hinv _ hp).uncommented _
  | reviewed _ hp =>
    obtain ⟨rfl, -⟩ := Thread.live_savePost.mp hp'
    exact (hinv _ hp).reviewedPost _

/-! ## Calls that spoil it

The three operations of the time when comments were accepted, each with the state in which it spoils the agreement. -/

/-- The call leaves the post `q` in the place of `p`, and the pointers of `q` do not agree. -/
theorem not_pointersAgree_of_savePost {s s' : Db} {k : Id} {p q : Discussion}
    (hs' : s'.toContent = (s.savePost q).toContent) (hp : s.post? k = some p)
    (hid : q.id = p.id) (hlive : q.deletedAt = none) (hq : ¬ PointersAgree q) :
    ¬ AllPointersAgree s' := by
  intro h
  refine hq (h k q (post?_iff_live.mpr ?_))
  rw [hs', thread_savePost hp hid, if_pos rfl]
  exact Thread.live_savePost.mpr ⟨rfl, hlive⟩

section

variable {w : World} {s : Db} {user : GatewayUser} {id : UuidText} {p : Discussion}

open DiscussionsService

/-- Accepting a comment goes through on a post with an accepted answer. -/
theorem acceptAnswer_state {m : UuidText} {a : Comment} (hp : s.post? id.id = some p)
    (happ : approved p) (hquestion : p.postType = .question) (howner : user.id = some p.authorId)
    (hopen : p.status ≠ .closed) (ha : s.comment? m.id = some a)
    (hroot : Id.text a.discussionId = id ∧ a.parentCommentId = none)
    (hauthor : a.authorId ≠ p.authorId) (hother : p.acceptedCommentId ≠ some a.id) :
    (acceptAnswer w s id user m).state.toContent
      = (s.savePost { p with acceptedCommentId := some a.id, status := .solved }).toContent := by
  have hbody : acceptAnswerTx s id user m
      = .ok ((s.savePost { p with acceptedCommentId := some a.id, status := .solved }).event
        "answer.accepted" [("discussionId", .uuid id), ("commentId", .uuid (Id.text a.id)),
          ("recipientId", .uuid (Id.text a.authorId))], ()) := by
    simp only [acceptAnswerTx, bind_eq_ok, authenticated_eq_ok, lockPost_eq_ok,
      requireApproved_eq_ok, requireQuestionOwner, requireOpen_eq_ok, require_eq_ok,
      orThrow_eq_ok]
    refine ⟨_, howner, p, hp, (), happ, (), ⟨(), hquestion, howner⟩, (), hopen, a, ha, (),
      hroot, (), hauthor, ?_⟩
    rw [if_neg hother]
    rfl
  exact (congrArg Db.toContent (commit_state_of_ok hbody)).trans (event_toContent _ _ _)

/-- What is left of a question when the acceptance of its comment ends. -/
theorem removeAcceptedAnswer_state (hp : s.post? id.id = some p)
    (hquestion : p.postType = .question) (howner : user.id = some p.authorId)
    (hopen : p.status ≠ .closed) :
    (removeAcceptedAnswer w s id user).state
      = s.savePost { p with acceptedCommentId := none, status := .open } := by
  refine commit_state_of_ok (a := ()) ?_
  simp only [removeAcceptedAnswerTx, bind_eq_ok, authenticated_eq_ok, lockPost_eq_ok,
    requireQuestionOwner, requireOpen_eq_ok, require_eq_ok]
  exact ⟨_, howner, p, hp, (), ⟨(), hquestion, howner⟩, (), hopen, rfl⟩

/-- What is left of a question when its status is set. -/
theorem setStatus_state {status : PostStatus} (hp : s.post? id.id = some p)
    (huser : user.id.isSome ∧ user.isModerator) (hstatus : status = .open ∨ status = .closed) :
    (setStatus w s id user status).state = s.savePost (withStatus p status) := by
  obtain ⟨u, hu⟩ := Option.isSome_iff_exists.mp huser.1
  refine commit_state_of_ok (a := ()) ?_
  simp only [setStatusTx, bind_eq_ok, authenticated_eq_ok, lockPost_eq_ok, require_eq_ok]
  exact ⟨u, hu, (), hstatus, (), huser.2, p, hp, rfl⟩

end

/-- A call that spoils the agreement leaves a post whose pointers do not agree. -/
theorem not_pointersAgree_step {s : Db} {c : Call} (hinv : AllPointersAgree s)
    (h : Spoils s c) : ¬ AllPointersAgree (s.step c) := by
  obtain ⟨w, user, o⟩ := c
  unfold Spoils at h
  split at h
  -- a comment is accepted beside the answer, so both pointers are set
  · next id m hop =>
    obtain rfl : o = _ := hop
    obtain ⟨p, hp, hset, happ, hquestion, howner, hopen, a, ha, hd, hroot, hauthor⟩ := h
    have hnone : p.acceptedCommentId = none := (hinv _ _ hp).comment_eq_none hset
    refine not_pointersAgree_of_savePost (acceptAnswer_state hp happ hquestion howner hopen ha
      ⟨hd, hroot⟩ hauthor (by simp [hnone])) hp rfl (Content.post?_eq_some.mp hp).2.2 ?_
    simp [PointersAgree, hset]
  -- the post is open again, with its accepted answer still set
  · next id hop =>
    obtain rfl : o = _ := hop
    obtain ⟨p, hp, hset, hquestion, howner, hopen⟩ := h
    refine not_pointersAgree_of_savePost (congrArg Db.toContent
      (removeAcceptedAnswer_state hp hquestion howner hopen)) hp rfl
      (Content.post?_eq_some.mp hp).2.2 ?_
    simp [PointersAgree, hset]
  -- a status is set by hand: it is no longer the one that the pointers say
  · next id status hop =>
    obtain rfl : o = _ := hop
    obtain ⟨p, hp, hset, rfl, huser⟩ := h
    have hnone : p.acceptedCommentId = none := (hinv _ _ hp).comment_eq_none hset
    refine not_pointersAgree_of_savePost (congrArg Db.toContent
      (setStatus_state hp huser (.inl rfl))) hp rfl (Content.post?_eq_some.mp hp).2.2 ?_
    simp [PointersAgree, DiscussionsService.withStatus, hset, hnone]
  · exact h.elim

/-! ## Runs

The agreement holds along a run exactly as long as no call spoils it. -/

theorem allPointersAgree_empty : AllPointersAgree Db.empty :=
  fun _ _ h => (by cases h)

/-- One call keeps the agreement exactly when it does not spoil it. -/
theorem allPointersAgree_step {s : Db} {c : Call} (hinv : AllPointersAgree s) :
    AllPointersAgree (s.step c) ↔ ¬ Spoils s c := by
  refine ⟨fun h hspoils => not_pointersAgree_step hinv hspoils h, fun hsafe i p hp => ?_⟩
  exact pointersAgree_step (thread_step s c i) hsafe
    (fun q hq => hinv i q (post?_iff_live.mpr hq)) p (post?_iff_live.mp hp)

/-- The pointers and the status agree all along a run exactly when no call of the comment
feature goes through on a post with an accepted answer. -/
theorem pointersAgree_always_iff (calls : List Call) :
    Always Db.step AllPointersAgree Db.empty calls
      ↔ Meets Db.step (fun s c => ¬ Spoils s c) Db.empty calls :=
  always_iff_meets (fun _ _ _ hinv => allPointersAgree_step hinv) allPointersAgree_empty

/-- After the answer of student `3`, its asker accepts the comment of student `2` as well. -/
theorem not_pointersAgree_after :
    ¬ ∀ calls i p, (Db.after calls).post? i = some p → PointersAgree p := by
  intro h
  have := h [Sample.openForum, Sample.ask,
    Sample.call 2 (Sample.student 2) (.comments (.create (Id.text 0)
      { content := "Try K5 minus an edge." })),
    Sample.answer, Sample.accept,
    Sample.call 5 (Sample.student 1) (.discussions (.acceptAnswer (Id.text 0) (Id.text 0)))] 0
  revert this
  decide

end AcaSocial
