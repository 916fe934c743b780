import AcaSocial.Discussion.AnonymousResponses
import AcaSocial.Discussion.Feed

/-!
# The capabilities that responses report

The responses of the lists and of the detail page tell a viewer what it may do. The presenter and the lists
compute these flags, the operations check their own guards.

* **`Flag`** — a flag of an item, with the operation that it promises.
* **`Reported`** — a response reports the flag.
* **`Flag.sound`** — the guards that the flag leaves out.

`flags_sound_iff` says that the promised operation goes through exactly when the guards that the flag leaves
out would pass.
-/

namespace AcaSocial

variable {w w' : World} {s : Db} {user : GatewayUser}

/-! ## Flags

The flags `canEdit`, `canVote` and `canAccept` of a response, and the operation that each of them announces. -/

/-- A flag of an item in a response. -/
inductive Flag where
  /-- `canVote` of a post in `findAll`. -/
  | feed (id : Id)
  /-- `canVote` of the post of `findOne`. -/
  | detail (id : Id)
  /-- `canVote` of the answer or the comment that the post of `findOne` has accepted. -/
  | acceptedAnswer (id : Id)
  | acceptedComment (id : Id)
  /-- `canVote` and `canAccept` in `findAllByDiscussion`. -/
  | comment (discussionId id : Id)
  | canAccept (discussionId id : Id)
  /-- `canVote` and `canAcceptAnswer` in `list`. -/
  | answer (discussionId id : Id)
  | canAcceptAnswer (discussionId id : Id)

/-- The version of the content of a post or an answer. -/
def Db.postVersion (s : Db) (i : Id) : Nat := ((s.post? i).map (·.contentVersion)).getD 0

def Db.answerVersion (s : Db) (i : Id) : Nat := ((s.answer? i).map (·.contentVersion)).getD 0

/-- The operation that a flag promises: a vote, or the acceptance with the current versions. -/
def Flag.operation (s : Db) (v : VoteType) : Flag → Operation
  | .feed i | .detail i => .setVote .discussion (Id.text i) (some v)
  | .acceptedAnswer i | .answer _ i => .setVote .answer (Id.text i) (some v)
  | .acceptedComment i | .comment _ i => .setVote .comment (Id.text i) (some v)
  | .canAccept d i => .discussions (.acceptAnswer (Id.text d) (Id.text i))
  | .canAcceptAnswer d i =>
    .answers (.accept (Id.text d) ⟨Id.text i, s.postVersion d, s.answerVersion i⟩)

/-- A call succeeds. -/
def Succeeds (s : Db) (c : Call) : Prop := ∃ r, (serve s c).result = .ok r

/-- A response to the viewer reports the flag. -/
inductive Reported (w : World) (s : Db) (user : GatewayUser) : Flag → Prop where
  | feed {filter : FilterDiscussionDto} {page : PaginatedResult DiscussionView} {view : DiscussionView}
      (h : (serve s ⟨w, user, .discussions (.findAll filter)⟩).result = .ok (.discussions page))
      (hview : view ∈ page.data) (hflag : view.canVote) : Reported w s user (.feed view.id)
  | detail {id : UuidText} {detail : DiscussionDetail}
      (h : (serve s ⟨w, user, .discussions (.findOne id)⟩).result = .ok (.discussion detail))
      (hflag : detail.canVote) : Reported w s user (.detail detail.id)
  | acceptedAnswer {id : UuidText} {detail : DiscussionDetail} {view : AnswerView}
      (h : (serve s ⟨w, user, .discussions (.findOne id)⟩).result = .ok (.discussion detail))
      (hview : detail.acceptedAnswer = some (.answer view)) (hflag : view.canVote) :
      Reported w s user (.acceptedAnswer view.id)
  | acceptedComment {id : UuidText} {detail : DiscussionDetail} {view : CommentView}
      (h : (serve s ⟨w, user, .discussions (.findOne id)⟩).result = .ok (.discussion detail))
      (hview : detail.acceptedAnswer = some (.comment view)) (hflag : view.canVote) :
      Reported w s user (.acceptedComment view.id)
  | comment {id : UuidText} {filter : FilterCommentDto} {page : PaginatedResult CommentItem} {item : CommentItem}
      (h : (serve s ⟨w, user, .comments (.findAllByDiscussion id filter)⟩).result = .ok (.comments page))
      (hitem : item ∈ page.data) (hflag : item.canVote) : Reported w s user (.comment id.id item.id)
  | canAccept {id : UuidText} {filter : FilterCommentDto} {page : PaginatedResult CommentItem}
      {item : CommentItem}
      (h : (serve s ⟨w, user, .comments (.findAllByDiscussion id filter)⟩).result = .ok (.comments page))
      (hitem : item ∈ page.data) (hflag : item.canAccept) : Reported w s user (.canAccept id.id item.id)
  | answer {id : UuidText} {items : List AnswerItem} {item : AnswerItem}
      (h : (serve s ⟨w, user, .answers (.list id)⟩).result = .ok (.answers items))
      (hitem : item ∈ items) (hflag : item.canVote) : Reported w s user (.answer id.id item.id)
  | canAcceptAnswer {id : UuidText} {items : List AnswerItem} {item : AnswerItem}
      (h : (serve s ⟨w, user, .answers (.list id)⟩).result = .ok (.answers items))
      (hitem : item ∈ items) (hflag : item.canAcceptAnswer) : Reported w s user (.canAcceptAnswer id.id item.id)

/-- The post takes votes and acceptances. -/
def Discussion.takesVotes (p : Discussion) : Prop := p.status ≠ .closed ∧ approved p

/-- The guards of the operation that its flag leaves out. Accepted content may belong to any post as far as
the response goes, and a post of the feed may name a room that is not there. -/
def Flag.sound (s : Db) (user : GatewayUser) : Flag → Prop
  | .feed i => ∃ p, s.post? i = some p ∧ p.status ≠ .closed ∧ ∀ r ∈ p.roomId, (s.room? r).isSome
  | .detail i => ∃ p, s.post? i = some p ∧ p.status ≠ .closed
  | .acceptedAnswer i => ∃ a p, s.answer? i = some a ∧ s.post? a.discussionId = some p
    ∧ p.takesVotes ∧ RoomsService.requireVisible s p.roomId user = .ok ()
  | .acceptedComment i => ∃ c p, s.comment? i = some c ∧ s.post? c.discussionId = some p
    ∧ p.takesVotes ∧ RoomsService.requireVisible s p.roomId user = .ok ()
  | .comment d _ | .canAccept d _ => ∃ p, s.post? d = some p ∧ approved p
  | .answer d _ => ∃ p, s.post? d = some p ∧ p.takesVotes
  | .canAcceptAnswer d i => ∃ q a, s.post? d = some q ∧ s.answer? i = some a ∧ q.takesVotes
    ∧ q.postType = .question ∧ user.id ≠ some a.authorId
    ∧ (q.acceptedAnswerId.isSome ∨ s.activeAcceptances q.id = [])

/-! ## The guards of the operations

When the operations succeed, in terms of the rows that they lock. -/

/-- A mapped call succeeds when the call does. -/
theorem map_succeeds_iff {α β : Type} {o : Outcome Db HttpError α} {f : α → β} :
    (∃ r, (o.map f).result = .ok r) ↔ ∃ a, o.result = .ok a := by
  obtain ⟨state, result⟩ := o
  cases result with
  | error e => exact iff_of_false (by rintro ⟨r, hr⟩; cases hr) (by rintro ⟨a, ha⟩; cases ha)
  | ok a => exact ⟨fun _ => ⟨a, rfl⟩, fun _ => ⟨f a, rfl⟩⟩

theorem map_inj {α β : Type} {x : Except HttpError α} {f : α → β} (hf : Function.Injective f) {a : α}
    (h : x.map f = .ok (f a)) : x = .ok a := by
  cases x with
  | error e => cases h
  | ok a' => exact congrArg Except.ok (hf (Except.ok.inj h))

theorem map_result_inj {α β : Type} {o : Outcome Db HttpError α} {f : α → β} (hf : Function.Injective f) {a : α}
    (h : (o.map f).result = .ok (f a)) : o.result = .ok a := by
  obtain ⟨state, result⟩ := o
  exact map_inj hf h

/-- What `setVote` is about, and its post. -/
def VoteOn (s : Db) : TargetType → Id → Id → Discussion → Prop
  | .discussion, i, author, p => s.post? i = some p ∧ p.authorId = author
  | .comment, i, author, p => ∃ c, s.comment? i = some c ∧ s.post? c.discussionId = some p ∧ c.authorId = author
  | .answer, i, author, p => ∃ a, s.answer? i = some a ∧ s.post? a.discussionId = some p ∧ a.authorId = author

/-- What is voted on belongs to one post. -/
theorem VoteOn.post_unique {type : TargetType} {i author author' : Id} {p p' : Discussion}
    (h : VoteOn s type i author p) (h' : VoteOn s type i author' p') : p = p' := by
  cases type with
  | discussion => exact Option.some.inj (h.1.symm.trans h'.1)
  | comment =>
    obtain ⟨c, hc, hp, -⟩ := h
    obtain ⟨c', hc', hp', -⟩ := h'
    obtain rfl := Option.some.inj (hc.symm.trans hc')
    exact Option.some.inj (hp.symm.trans hp')
  | answer =>
    obtain ⟨a, ha, hp, -⟩ := h
    obtain ⟨a', ha', hp', -⟩ := h'
    obtain rfl := Option.some.inj (ha.symm.trans ha')
    exact Option.some.inj (hp.symm.trans hp')

/-- A vote on an answer is one in the thread of its question. -/
theorem voteOn_answer {i author : Id} {a : Answer} {p : Discussion} (ha : s.answer? i = some a) :
    VoteOn s .answer i author p ↔ s.post? a.discussionId = some p ∧ a.authorId = author := by
  constructor
  · rintro ⟨a', ha', hp, hauthor⟩
    obtain rfl := Option.some.inj (ha.symm.trans ha')
    exact ⟨hp, hauthor⟩
  · rintro ⟨hp, hauthor⟩
    exact ⟨a, ha, hp, hauthor⟩

/-- A vote on a comment is one in the thread of its post. -/
theorem voteOn_comment {i author : Id} {c : Comment} {p : Discussion} (hc : s.comment? i = some c) :
    VoteOn s .comment i author p ↔ s.post? c.discussionId = some p ∧ c.authorId = author := by
  constructor
  · rintro ⟨c', hc', hp, hauthor⟩
    obtain rfl := Option.some.inj (hc.symm.trans hc')
    exact ⟨hp, hauthor⟩
  · rintro ⟨hp, hauthor⟩
    exact ⟨c, hc, hp, hauthor⟩

/-- The method locks what is voted on, with its post. -/
theorem lockTarget_iff {type : TargetType} {i author : Id} {p : Discussion} :
    VoteOn s type i author p ↔ ∃ t, VotesService.lockTarget s type i = .ok t ∧ t.post = p ∧ t.authorId = author := by
  cases type with
  | discussion =>
    simp only [VoteOn, VotesService.lockTarget, bind_eq_ok, lockPost_eq_ok, pure_eq_ok]
    constructor
    · rintro ⟨hp, rfl⟩
      exact ⟨_, ⟨p, hp, rfl⟩, rfl, rfl⟩
    · rintro ⟨t, ⟨p', hp, rfl⟩, rfl, rfl⟩
      exact ⟨hp, rfl⟩
  | comment =>
    simp only [VoteOn, VotesService.lockTarget, bind_eq_ok, pure_eq_ok, Prod.exists, lockCommentPost_eq_ok]
    constructor
    · rintro ⟨c, hc, hp, rfl⟩
      exact ⟨_, ⟨p, c, ⟨hc, hp⟩, rfl⟩, rfl, rfl⟩
    · rintro ⟨t, ⟨p', c, ⟨hc, hp⟩, rfl⟩, rfl, rfl⟩
      exact ⟨c, hc, hp, rfl⟩
  | answer =>
    simp only [VoteOn, VotesService.lockTarget, bind_eq_ok, orThrow_eq_ok, lockPost_eq_ok, pure_eq_ok]
    constructor
    · rintro ⟨a, ha, hp, rfl⟩
      exact ⟨_, ⟨a, ha, p, hp, a, ha, rfl⟩, rfl, rfl⟩
    · rintro ⟨t, ⟨a, ha, p', hp, a', ha', rfl⟩, rfl, rfl⟩
      obtain rfl := Option.some.inj (ha.symm.trans ha')
      exact ⟨a, ha, hp, rfl⟩

/-- **A vote goes through** when its post is open, approved and visible, and the content another user's. -/
theorem vote_succeeds_iff {type : TargetType} {i : Id} {v : VoteType} :
    Succeeds s ⟨w, user, .setVote type (Id.text i) (some v)⟩
      ↔ ∃ u author p, user.id = some u ∧ VoteOn s type i author p ∧ p.takesVotes
        ∧ RoomsService.requireVisible s p.roomId user = .ok () ∧ author ≠ u := by
  have hserve : Succeeds s ⟨w, user, .setVote type (Id.text i) (some v)⟩
      ↔ ∃ x, VotesService.setVoteTx s type (Id.text i) user (some v) = .ok x := by
    show (∃ r, ((VotesService.setVote s type (Id.text i) user (some v)).map Response.vote).result = .ok r) ↔ _
    rw [map_succeeds_iff, VotesService.setVote]
    cases VotesService.setVoteTx s type (Id.text i) user (some v) with
    | error e => exact iff_of_false (by rintro ⟨r, hr⟩; cases hr) (by rintro ⟨x, hx⟩; cases hx)
    | ok x => exact ⟨fun _ => ⟨x, rfl⟩, fun _ => ⟨_, rfl⟩⟩
  rw [hserve]
  simp only [VotesService.setVoteTx, bind_eq_ok, authenticated_eq_ok, requireOpen_eq_ok, requireApproved_eq_ok,
    require_eq_ok, pure_eq_ok]
  constructor
  · rintro ⟨x, u, huser, t, hlock, -, hopen, -, happroved, ⟨⟩, hvisible, -, hauthor, -⟩
    exact ⟨u, t.authorId, t.post, huser, lockTarget_iff.mpr ⟨t, hlock, rfl, rfl⟩, ⟨hopen, happroved⟩, hvisible,
      hauthor⟩
  · rintro ⟨u, author, p, huser, hon, ⟨hopen, happroved⟩, hvisible, hauthor⟩
    obtain ⟨t, hlock, rfl, rfl⟩ := lockTarget_iff.mp hon
    exact ⟨_, u, huser, t, hlock, (), hopen, (), happroved, (), hvisible, (), hauthor, rfl⟩

/-- What the presenter reports: the item is not deleted, and of another user than the viewer. -/
theorem canVote_iff {profiles : List Profile} {type : TargetType} {i : Item} :
    (ContentPresenter.overlay s profiles user type i).canVote
      ↔ i.votable ∧ (∃ u, user.id = some u ∧ i.authorId ≠ u) ∧ i.deletedAt = none := by
  simp only [ContentPresenter.overlay, Bool.and_eq_true, decide_eq_true_eq, Option.isNone_iff_eq_none]
  constructor
  · rintro ⟨⟨⟨hvotable, hsome⟩, hother⟩, hlive⟩
    obtain ⟨u, huser⟩ := Option.isSome_iff_exists.mp hsome
    exact ⟨hvotable, ⟨u, huser, fun he => hother (by rw [huser, he])⟩, hlive⟩
  · rintro ⟨hvotable, ⟨u, huser, hother⟩, hlive⟩
    refine ⟨⟨⟨hvotable, by rw [huser]; rfl⟩, fun he => hother ?_⟩, hlive⟩
    exact (Option.some.inj (huser.symm.trans he)).symm

/-- A vote on content of another user goes through when its post takes it and is visible. -/
theorem vote_of_other {type : TargetType} {i u author : Id} {v : VoteType} {p : Discussion}
    (huser : user.id = some u) (hon : VoteOn s type i author p) (hother : author ≠ u) :
    Succeeds s ⟨w, user, .setVote type (Id.text i) (some v)⟩
      ↔ p.takesVotes ∧ RoomsService.requireVisible s p.roomId user = .ok () := by
  rw [vote_succeeds_iff]
  constructor
  · rintro ⟨u', author', p', -, hon', htakes, hvisible, -⟩
    obtain rfl : p = p' := VoteOn.post_unique hon hon'
    exact ⟨htakes, hvisible⟩
  · rintro ⟨htakes, hvisible⟩
    exact ⟨u, author, p, huser, hon, htakes, hvisible, hother⟩

/-! ## Posts

The flags of a post, and of the answer or comment that it shows as accepted. -/

/-- `canVote` in the feed leaves out whether the post is closed. -/
theorem feed_flag {filter : FilterDiscussionDto} {view : DiscussionView} {v : VoteType}
    (hview : view ∈ (DiscussionsService.findAll w s filter user).data) (hflag : view.canVote) :
    Succeeds s ⟨w', user, .setVote .discussion (Id.text view.id) (some v)⟩ ↔ (Flag.feed view.id).sound s user := by
  obtain ⟨d, hd, rfl⟩ := List.mem_map.mp hview
  have hrow := List.mem_mergeSort.mp ((mem_of_mem_pageOf hd))
  obtain ⟨hmem, hlisted⟩ := Table.mem_select.mp hrow
  obtain ⟨happroved, ⟨u, huser, hother⟩, hlive⟩ := canVote_iff.mp hflag
  obtain ⟨-, -, hroom⟩ := of_listed hlisted
  have hpost : s.post? d.id = some d := Content.post?_eq_some.mpr ⟨hmem, rfl, hlive⟩
  -- the query has checked the room, if it is there
  have hvisible : RoomsService.requireVisible s d.roomId user = .ok () ↔ ∀ r ∈ d.roomId, (s.room? r).isSome := by
    rw [requireVisible_eq_ok]
    refine forall₂_congr fun r hr => ?_
    cases hfound : s.room? r with
    | none => simp
    | some room =>
      refine iff_of_true ⟨room, rfl, ?_⟩ rfl
      rcases hroom with hmoderator | hadmits
      · exact .inr (.inl hmoderator)
      · rcases (roomAdmits_iff hr).mp hadmits with hauthor | hpublic | hmember
        · exact absurd (Option.some.inj (huser.symm.trans hauthor)).symm hother
        · exact .inl (hpublic room hfound)
        · exact .inr (.inr hmember)
  have hon : VoteOn s .discussion d.id d.authorId d := ⟨hpost, rfl⟩
  refine (vote_of_other huser hon hother).trans ?_
  rw [hvisible]
  constructor
  · rintro ⟨⟨hopen, -⟩, hthere⟩
    exact ⟨d, hpost, hopen, hthere⟩
  · rintro ⟨p, hp, hopen, hthere⟩
    obtain rfl := Option.some.inj (hpost.symm.trans hp)
    exact ⟨⟨hopen, happroved⟩, hthere⟩

/-- `canVote` of the detail leaves out whether the post is closed. -/
theorem detail_flag {i : Id} {detail : DiscussionDetail} {v : VoteType}
    (h : DiscussionsService.findOne w s i user = .ok detail) (hflag : detail.canVote) :
    Succeeds s ⟨w', user, .setVote .discussion (Id.text detail.id) (some v)⟩
      ↔ (Flag.detail detail.id).sound s user := by
  obtain ⟨d, hpost, -, hvisible, rfl⟩ := detail_eq_ok.mp h
  obtain ⟨happroved, ⟨u, huser, hother⟩, -⟩ := canVote_iff.mp hflag
  have hid : s.post? d.id = some d := by
    rw [(Content.post?_eq_some.mp hpost).2.1]
    exact hpost
  have hon : VoteOn s .discussion d.id d.authorId d := ⟨hid, rfl⟩
  refine (vote_of_other huser hon hother).trans ?_
  constructor
  · rintro ⟨⟨hopen, -⟩, -⟩
    exact ⟨d, hid, hopen⟩
  · rintro ⟨p, hp, hopen⟩
    obtain rfl := Option.some.inj (hid.symm.trans hp)
    exact ⟨⟨hopen, happroved⟩, hvisible⟩

/-- The accepted content of a detail is stored. -/
theorem acceptedView_answer {d : Discussion} {view : AnswerView}
    (h : DiscussionsService.acceptedView w s user d = some (.answer view)) :
    ∃ a, s.answer? a.id = some a ∧ view = ContentPresenter.answer w s user a := by
  unfold DiscussionsService.acceptedView at h
  split at h
  · next a ha =>
    obtain rfl := Accepted.answer.inj (Option.some.inj h)
    obtain ⟨i, -, hi⟩ := Option.bind_eq_some_iff.mp ha
    refine ⟨a, ?_, rfl⟩
    rw [(Content.answer?_eq_some.mp hi).2.1]
    exact hi
  · obtain ⟨c, -, hc⟩ := Option.map_eq_some_iff.mp h
    cases hc

/-- An accepted comment that is shown is there. -/
theorem acceptedView_comment {d : Discussion} {view : CommentView}
    (h : DiscussionsService.acceptedView w s user d = some (.comment view)) :
    ∃ c, s.comment? c.id = some c ∧ view = ContentPresenter.comment w s user (Id.text c.discussionId) c := by
  unfold DiscussionsService.acceptedView at h
  split at h
  · cases Option.some.inj h
  · obtain ⟨c, hc, hview⟩ := Option.map_eq_some_iff.mp h
    obtain rfl := Accepted.comment.inj hview
    obtain ⟨i, -, hi⟩ := Option.bind_eq_some_iff.mp hc
    refine ⟨c, ?_, rfl⟩
    rw [(Content.comment?_eq_some.mp hi).2.1]
    exact hi

/-- `canVote` of an accepted answer leaves out its post. -/
theorem acceptedAnswer_flag {i : Id} {detail : DiscussionDetail} {view : AnswerView} {v : VoteType}
    (h : DiscussionsService.findOne w s i user = .ok detail)
    (hview : detail.acceptedAnswer = some (.answer view)) (hflag : view.canVote) :
    Succeeds s ⟨w', user, .setVote .answer (Id.text view.id) (some v)⟩
      ↔ (Flag.acceptedAnswer view.id).sound s user := by
  obtain ⟨d, -, -, -, rfl⟩ := detail_eq_ok.mp h
  obtain ⟨a, ha, rfl⟩ := acceptedView_answer hview
  obtain ⟨-, ⟨u, huser, hother⟩, -⟩ := canVote_iff.mp hflag
  constructor
  · intro hvote
    obtain ⟨-, author, p, -, hon, htakes, hvisible, -⟩ := vote_succeeds_iff.mp hvote
    exact ⟨a, p, ha, ((voteOn_answer ha).mp hon).1, htakes, hvisible⟩
  · rintro ⟨a', p, ha', hp, hsound⟩
    obtain rfl := Option.some.inj (ha.symm.trans ha')
    exact (vote_of_other huser ((voteOn_answer ha).mpr ⟨hp, rfl⟩) hother).mpr hsound

theorem acceptedComment_flag {i : Id} {detail : DiscussionDetail} {view : CommentView} {v : VoteType}
    (h : DiscussionsService.findOne w s i user = .ok detail)
    (hview : detail.acceptedAnswer = some (.comment view)) (hflag : view.canVote) :
    Succeeds s ⟨w', user, .setVote .comment (Id.text view.id) (some v)⟩
      ↔ (Flag.acceptedComment view.id).sound s user := by
  obtain ⟨d, -, -, -, rfl⟩ := detail_eq_ok.mp h
  obtain ⟨c, hc, rfl⟩ := acceptedView_comment hview
  obtain ⟨-, ⟨u, huser, hother⟩, -⟩ := canVote_iff.mp hflag
  constructor
  · intro hvote
    obtain ⟨-, author, p, -, hon, htakes, hvisible, -⟩ := vote_succeeds_iff.mp hvote
    exact ⟨c, p, hc, ((voteOn_comment hc).mp hon).1, htakes, hvisible⟩
  · rintro ⟨c', p, hc', hp, hsound⟩
    obtain rfl := Option.some.inj (hc.symm.trans hc')
    exact (vote_of_other huser ((voteOn_comment hc).mpr ⟨hp, rfl⟩) hother).mpr hsound

/-! ## Comments -/

theorem mem_zipWith_map {α β γ : Type} {f : α → β} {g : α → β → γ} {l : List α} {x : γ}
    (h : x ∈ List.zipWith g l (l.map f)) : ∃ a ∈ l, x = g a (f a) := by
  rw [List.zipWith_map_right, List.zipWith_self] at h
  obtain ⟨a, ha, rfl⟩ := List.mem_map.mp h
  exact ⟨a, ha, rfl⟩

/-- An item of the list is of a comment on the post, which the viewer may read. -/
theorem mem_comments {id : UuidText} {filter : FilterCommentDto} {page : PaginatedResult CommentItem}
    {item : CommentItem} (h : CommentsService.findAllByDiscussion w s id filter user = .ok page)
    (hitem : item ∈ page.data) :
    ∃ p c profiles, s.post? id.id = some p ∧ Readable user p ∧ RoomsService.requireVisible s p.roomId user = .ok ()
      ∧ c ∈ s.comments ∧ c.discussionId = id.id
      ∧ item = CommentsService.item s p user c
        (ContentPresenter.commentView s profiles user (Id.text c.discussionId) c) := by
  simp only [CommentsService.findAllByDiscussion, bind_eq_ok, orThrow_eq_ok, requireReadable_eq_ok, require_eq_ok,
    pure_eq_ok] at h
  obtain ⟨p, hp, -, hreadable, ⟨⟩, hvisible, -, -, rfl⟩ := h
  obtain ⟨c, hc, hview⟩ := mem_zipWith_map hitem
  obtain ⟨hmem, hlisted⟩ := Table.mem_select.mp (List.mem_mergeSort.mp (mem_of_mem_pageOf hc))
  exact ⟨p, c, _, hp, hreadable, hvisible, hmem, (of_decide_eq_true hlisted).1, hview⟩

/-- `canVote` of a comment leaves out whether the post is approved. -/
theorem comment_flag {id : UuidText} {filter : FilterCommentDto} {page : PaginatedResult CommentItem}
    {item : CommentItem} {v : VoteType} (h : CommentsService.findAllByDiscussion w s id filter user = .ok page)
    (hitem : item ∈ page.data) (hflag : item.canVote) :
    Succeeds s ⟨w', user, .setVote .comment (Id.text item.id) (some v)⟩
      ↔ (Flag.comment id.id item.id).sound s user := by
  obtain ⟨p, c, profiles, hp, -, hvisible, hc, hd, rfl⟩ := mem_comments h hitem
  have hboth := Bool.and_eq_true_iff.mp hflag
  have hopen : p.status ≠ .closed := of_decide_eq_true hboth.2
  obtain ⟨-, ⟨u, huser, hother⟩, hlive⟩ := canVote_iff.mp hboth.1
  have hcomment : s.comment? c.id = some c := Content.comment?_eq_some.mpr ⟨hc, rfl, hlive⟩
  have hpost : s.post? c.discussionId = some p := by
    rw [hd]
    exact hp
  refine (vote_of_other huser ((voteOn_comment hcomment).mpr ⟨hpost, rfl⟩) hother).trans ?_
  constructor
  · rintro ⟨⟨-, happroved⟩, -⟩
    exact ⟨p, hp, happroved⟩
  · rintro ⟨p', hp', happroved⟩
    obtain rfl := Option.some.inj (hp.symm.trans hp')
    exact ⟨⟨hopen, happroved⟩, hvisible⟩

/-- The acceptance of a root comment of another user by the author of an open question that it may see: it
goes through when the question is approved. -/
theorem acceptAnswer_succeeds_iff {d : Id} {p : Discussion} {c : Comment} (hp : s.post? d = some p)
    (hvisible : RoomsService.requireVisible s p.roomId user = .ok ()) (hc : s.comment? c.id = some c)
    (hd : c.discussionId = d) (hroot : c.parentCommentId = none) (htype : p.postType = .question)
    (hopen : p.status ≠ .closed) (howner : user.id = some p.authorId) (hother : c.authorId ≠ p.authorId) :
    Succeeds s ⟨w, user, .discussions (.acceptAnswer (Id.text d) (Id.text c.id))⟩ ↔ approved p := by
  have hserve : Succeeds s ⟨w, user, .discussions (.acceptAnswer (Id.text d) (Id.text c.id))⟩
      ↔ ∃ detail, (DiscussionsService.acceptAnswer w s (Id.text d) user (Id.text c.id)).result = .ok detail := by
    show (∃ r, ((DiscussionsService.acceptAnswer w s (Id.text d) user (Id.text c.id)).map
      Response.discussion).result = .ok r) ↔ _
    exact map_succeeds_iff
  rw [hserve]
  have hlock : lockPost s (Id.text d).id = .ok p := lockPost_eq_ok.mpr hp
  have hauth : authenticated user = .ok p.authorId := authenticated_eq_ok.mpr howner
  have hfound : s.comment? (Id.text c.id).id = some c := hc
  have hplace : Id.text c.discussionId = Id.text d ∧ c.parentCommentId = none := ⟨congrArg Id.text hd, hroot⟩
  have htx : DiscussionsService.acceptAnswerTx s (Id.text d) user (Id.text c.id) = (do
      requireApproved p
      if p.acceptedCommentId = some c.id then return (s, ())
      else
        let s := s.savePost { p with acceptedCommentId := some c.id, status := .solved }
        return (s.event "answer.accepted" [("discussionId", .uuid (Id.text d)),
          ("commentId", .uuid (Id.text c.id)), ("recipientId", .uuid (Id.text c.authorId))], ())) := by
    simp only [DiscussionsService.acceptAnswerTx, hauth, hlock, ok_bind, DiscussionsService.requireQuestionOwner,
      if_pos htype, require, if_pos howner, requireOpen, if_pos hopen, hfound, orThrow_some,
      if_pos hplace, if_pos hother]
  unfold DiscussionsService.acceptAnswer
  rw [htx]
  by_cases happroved : approved p
  · refine iff_of_true ?_ happroved
    have hok : requireApproved p = .ok () := requireApproved_eq_ok.mpr happroved
    rw [hok, ok_bind]
    -- the question is shown to its author, accepted or not
    have hshown : ∀ (t : Db) (p' : Discussion), t.post? d = some p' → p'.authorId = p.authorId →
        p'.roomId = p.roomId → t.rooms = s.rooms → t.memberships = s.memberships →
        ∃ detail, DiscussionsService.findOne w t d user = .ok detail := by
      intro t p' hp' hauthor hroom hrooms hmemberships
      refine ⟨_, detail_eq_ok.mpr ⟨p', hp', .inr (.inr ?_), ?_, rfl⟩⟩
      · rw [hauthor]
        exact howner
      · rw [hroom, requireVisible_congr hrooms hmemberships]
        exact hvisible
    split
    · exact hshown s p hp rfl rfl rfl rfl
    · exact hshown _ _ (Db.post?_savePost hp rfl (Content.post?_eq_some.mp hp).2.2) rfl rfl rfl rfl
  · refine iff_of_false ?_ happroved
    have herror : requireApproved p = .error (.badRequest "Post awaits approval") := if_neg happroved
    rw [herror]
    rintro ⟨detail, hdetail⟩
    cases hdetail

/-- `canAccept` leaves out whether the question is approved. -/
theorem canAccept_flag {id : UuidText} {filter : FilterCommentDto} {page : PaginatedResult CommentItem}
    {item : CommentItem} (h : CommentsService.findAllByDiscussion w s id filter user = .ok page)
    (hitem : item ∈ page.data) (hflag : item.canAccept) :
    Succeeds s ⟨w', user, .discussions (.acceptAnswer (Id.text id.id) (Id.text item.id))⟩
      ↔ (Flag.canAccept id.id item.id).sound s user := by
  obtain ⟨p, c, profiles, hp, -, hvisible, hc, hd, rfl⟩ := mem_comments h hitem
  obtain ⟨hlive, hroot, htype, hopen, howner, hother⟩ := of_decide_eq_true hflag
  have hcomment : s.comment? c.id = some c := Content.comment?_eq_some.mpr ⟨hc, rfl, hlive⟩
  have hother : c.authorId ≠ p.authorId := fun he => hother (by rw [he, howner])
  refine (acceptAnswer_succeeds_iff hp hvisible hcomment hd hroot htype hopen howner hother).trans ?_
  constructor
  · exact fun happroved => ⟨p, hp, happroved⟩
  · rintro ⟨p', hp', happroved⟩
    obtain rfl := Option.some.inj (hp.symm.trans hp')
    exact happroved

/-! ## Answers -/

/-- An item of the list is of an answer to the question, which the viewer may read. -/
theorem mem_answers {id : UuidText} {items : List AnswerItem} {item : AnswerItem}
    (h : AnswersService.list w s id user = .ok items) (hitem : item ∈ items) :
    ∃ q a profiles, s.post? id.id = some q ∧ RoomsService.requireVisible s q.roomId user = .ok ()
      ∧ s.answer? a.id = some a ∧ a.discussionId = q.id
      ∧ item = { ContentPresenter.answerView s profiles user a with
        canAcceptAnswer := AnswersService.canAccept q user } := by
  simp only [AnswersService.list, bind_eq_ok, orThrow_eq_ok, requireReadable_eq_ok, pure_eq_ok] at h
  obtain ⟨q, hq, -, -, ⟨⟩, hvisible, rfl⟩ := h
  obtain ⟨view, hview, rfl⟩ := List.mem_map.mp hitem
  obtain ⟨a, ha, rfl⟩ := List.mem_map.mp hview
  obtain ⟨hmem, hlisted⟩ := Table.mem_select.mp (List.mem_mergeSort.mp ha)
  obtain ⟨hd, hlive⟩ := of_decide_eq_true hlisted
  exact ⟨q, a, _, hq, hvisible, Content.answer?_eq_some.mpr ⟨hmem, rfl, hlive⟩, hd, rfl⟩

/-- `canVote` of an answer leaves out whether the question is open and approved. -/
theorem answer_flag {id : UuidText} {items : List AnswerItem} {item : AnswerItem} {v : VoteType}
    (h : AnswersService.list w s id user = .ok items) (hitem : item ∈ items) (hflag : item.canVote) :
    Succeeds s ⟨w', user, .setVote .answer (Id.text item.id) (some v)⟩
      ↔ (Flag.answer id.id item.id).sound s user := by
  obtain ⟨q, a, profiles, hq, hvisible, ha, hd, rfl⟩ := mem_answers h hitem
  obtain ⟨-, ⟨u, huser, hother⟩, -⟩ := canVote_iff.mp hflag
  have hpost : s.post? a.discussionId = some q := by
    rw [hd, (Content.post?_eq_some.mp hq).2.1]
    exact hq
  refine (vote_of_other huser ((voteOn_answer ha).mpr ⟨hpost, rfl⟩) hother).trans ?_
  constructor
  · rintro ⟨htakes, -⟩
    exact ⟨q, hq, htakes⟩
  · rintro ⟨q', hq', htakes⟩
    obtain rfl := Option.some.inj (hq.symm.trans hq')
    exact ⟨htakes, hvisible⟩

/-- The acceptance of an answer to the question with the current versions, by a user who may accept there. -/
theorem accept_succeeds_iff {d : Id} {q : Discussion} {a : Answer} (hq : s.post? d = some q)
    (ha : s.answer? a.id = some a) (hd : a.discussionId = q.id) (hcan : AnswersService.canAccept q user) :
    Succeeds s ⟨w, user, .answers (.accept (Id.text d) ⟨Id.text a.id, q.contentVersion, a.contentVersion⟩)⟩
      ↔ q.takesVotes ∧ q.postType = .question ∧ user.id ≠ some a.authorId
        ∧ (q.acceptedAnswerId.isSome ∨ s.activeAcceptances q.id = []) := by
  obtain ⟨actor, hactor⟩ := Option.isSome_iff_exists.mp (of_decide_eq_true hcan).1
  have hserve : Succeeds s ⟨w, user, .answers (.accept (Id.text d)
        ⟨Id.text a.id, q.contentVersion, a.contentVersion⟩)⟩ ↔ ∃ answer, (AnswersService.accept w s (Id.text d)
        ⟨Id.text a.id, q.contentVersion, a.contentVersion⟩ user).result = .ok answer := by
    show (∃ r, ((AnswersService.accept w s (Id.text d) ⟨Id.text a.id, q.contentVersion, a.contentVersion⟩
      user).map Response.answer).result = .ok r) ↔ _
    exact map_succeeds_iff
  rw [hserve, AnswersService.accept]
  constructor
  -- the checks of the transaction, one after the other
  · rintro ⟨answer, hanswer⟩
    cases htx : AnswersService.acceptTx w s (Id.text d) ⟨Id.text a.id, q.contentVersion, a.contentVersion⟩ user with
    | error e =>
      rw [htx] at hanswer
      cases hanswer
    | ok x =>
      simp only [AnswersService.acceptTx, bind_eq_ok, authenticated_eq_ok, lockPost_eq_ok, requireOpen_eq_ok,
        require_eq_ok, requireApproved_eq_ok, orThrow_eq_ok, pure_eq_ok] at htx
      obtain ⟨u, hu, q', hq', -, hopen, -, htype, -, -, -, happroved, a', ha', -, -, -, hother, -, -, t, hinsert,
        -⟩ := htx
      obtain rfl := Option.some.inj (hq.symm.trans hq')
      obtain rfl := Option.some.inj (ha.symm.trans ha')
      refine ⟨⟨hopen, happroved⟩, htype, ?_, ?_⟩
      · rw [hu]
        exact fun he => hother (Option.some.inj he).symm
      · -- without an accepted answer nothing is revoked before the row is inserted
        simp only [AnswersService.insertAcceptance, bind_eq_ok, require_eq_ok] at hinsert
        obtain ⟨-, hnone, -⟩ := hinsert
        cases haccepted : q.acceptedAnswerId with
        | some i => exact .inl rfl
        | none =>
          refine .inr ?_
          rw [AnswersService.revokeAcceptance, haccepted] at hnone
          exact hnone
  -- and nothing else stops it
  · rintro ⟨⟨hopen, happroved⟩, htype, hother, hslot⟩
    have hother : a.authorId ≠ actor := fun he => hother (by rw [hactor, he])
    obtain ⟨t, ht⟩ : ∃ t, AnswersService.acceptTx w s (Id.text d)
        ⟨Id.text a.id, q.contentVersion, a.contentVersion⟩ user = .ok (t, ()) :=
      acceptTx_ok hactor hq ha hopen htype hcan happroved hd hother ⟨rfl, rfl⟩ hslot
    obtain ⟨a', -, hr, -⟩ := Db.Alike.checks_of_acceptTx ht
    refine ⟨a', ?_⟩
    rw [ht, commit_ok]
    exact orThrow_eq_ok.mpr hr

/-- `canAcceptAnswer` only looks at who asked. -/
theorem canAcceptAnswer_flag {id : UuidText} {items : List AnswerItem} {item : AnswerItem} {v : VoteType}
    (h : AnswersService.list w s id user = .ok items) (hitem : item ∈ items) (hflag : item.canAcceptAnswer) :
    Succeeds s ⟨w', user, (Flag.canAcceptAnswer id.id item.id).operation s v⟩
      ↔ (Flag.canAcceptAnswer id.id item.id).sound s user := by
  obtain ⟨q, a, profiles, hq, -, ha, hd, rfl⟩ := mem_answers h hitem
  have hversions : (Flag.canAcceptAnswer id.id a.id).operation s v
      = .answers (.accept (Id.text id.id) ⟨Id.text a.id, q.contentVersion, a.contentVersion⟩) := by
    show Operation.answers (.accept _ ⟨_, s.postVersion id.id, s.answerVersion a.id⟩) = _
    rw [Db.postVersion, Db.answerVersion, hq, ha]
    rfl
  show Succeeds s ⟨w', user, (Flag.canAcceptAnswer id.id a.id).operation s v⟩ ↔ _
  rw [hversions]
  refine (accept_succeeds_iff hq ha hd hflag).trans ?_
  constructor
  · exact fun hsound => ⟨q, a, hq, ha, hsound⟩
  · rintro ⟨q', a', hq', ha', hsound⟩
    obtain rfl := Option.some.inj (hq.symm.trans hq')
    obtain rfl := Option.some.inj (ha.symm.trans ha')
    exact hsound

/-! ## All flags -/

/-- **Capability flags.** A flag that a response reports to a viewer is sound, that is the operation that it
promises goes through for this viewer in the same state, exactly when the guards pass that the flag leaves
out. -/
theorem flags_sound_iff {f : Flag} (h : Reported w s user f) (v : VoteType) :
    Succeeds s ⟨w', user, f.operation s v⟩ ↔ f.sound s user := by
  cases h with
  | feed h hview hflag =>
    obtain rfl := Response.discussions.inj (Except.ok.inj h)
    exact feed_flag hview hflag
  | detail h hflag => exact detail_flag (view_eq_ok.mp (map_result_inj (fun _ _ => Response.discussion.inj) h)) hflag
  | acceptedAnswer h hview hflag => exact acceptedAnswer_flag (view_eq_ok.mp (map_result_inj (fun _ _ => Response.discussion.inj) h)) hview hflag
  | acceptedComment h hview hflag => exact acceptedComment_flag (view_eq_ok.mp (map_result_inj (fun _ _ => Response.discussion.inj) h)) hview hflag
  | comment h hitem hflag => exact comment_flag (map_inj (fun _ _ => Response.comments.inj) h) hitem hflag
  | canAccept h hitem hflag => exact canAccept_flag (map_inj (fun _ _ => Response.comments.inj) h) hitem hflag
  | answer h hitem hflag => exact answer_flag (map_inj (fun _ _ => Response.answers.inj) h) hitem hflag
  | canAcceptAnswer h hitem hflag => exact canAcceptAnswer_flag (map_inj (fun _ _ => Response.answers.inj) h) hitem hflag

/-! ## Samples -/

namespace Sample

/-- The question `0` of student `1`, open and then closed by an administrator. -/
def asked : List Call := [openForum, ask]

def closed : List Call := asked ++ [call 3 administrator (.discussions (.setStatus (Id.text 0) .closed))]

/-- Student `2` reads the question. -/
def read : Call := call 4 (student 2) (.discussions (.findOne (Id.text 0)))

end Sample

/-- The page of the post `0` reports `canVote`. -/
def Sample.mayVote (s : Db) : Bool :=
  match (serve s Sample.read).result with
  | .ok (.discussion detail) => detail.canVote && decide (detail.id = 0)
  | _ => false

theorem reported_mayVote (h : Sample.mayVote s) :
    Reported (World.quiet 4) s (Sample.student 2) (.detail 0) := by
  unfold Sample.mayVote at h
  split at h
  · next detail hread =>
    obtain ⟨hflag, hid⟩ := Bool.and_eq_true_iff.mp h
    rw [← of_decide_eq_true hid]
    exact .detail hread hflag
  · exact absurd h Bool.false_ne_true

theorem flags_sound_asked :
    Succeeds (Db.after Sample.asked) ⟨World.quiet 5, Sample.student 2, .setVote .discussion (Id.text 0) (some .upvote)⟩ :=
  (flags_sound_iff (reported_mayVote (by decide)) .upvote).mpr
    ⟨(Db.after Sample.asked).discussions.rows.head (by decide), by decide, by decide⟩

/-- The closed question reports `canVote`, and a vote on it is refused. -/
theorem not_flags_sound :
    Reported (World.quiet 4) (Db.after Sample.closed) (Sample.student 2) (.detail 0)
      ∧ ¬ Succeeds (Db.after Sample.closed)
        ⟨World.quiet 5, Sample.student 2, (Flag.detail 0).operation (Db.after Sample.closed) .upvote⟩ := by
  refine ⟨reported_mayVote (by decide), ?_⟩
  rintro ⟨r, hr⟩
  have herror : (serve (Db.after Sample.closed)
      ⟨World.quiet 5, Sample.student 2, .setVote .discussion (Id.text 0) (some .upvote)⟩).result
        = .error (.badRequest "This discussion is closed") := by decide
  cases herror.symm.trans hr

end AcaSocial
