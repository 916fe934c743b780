import AcaSocial.Discussion.Alike

/-!
# What a viewer is shown of stores that look alike

The presenter shows the same of rows that look alike, as long as a post is shown to those only who
may read it; and so every read of the service responds the same.
-/

namespace AcaSocial

open List

variable {masks : Bool} {user : GatewayUser} {since : Id} {s s' : Db} {w : World}

/-! ## The presenter

What a viewer is shown of a row. A masked author is shown under the same name in both stores, and a text that the
viewer does not see is left out in both. -/

/-- The same item, but for the author of a masked one. -/
structure Item.Alike (user : GatewayUser) (i i' : Item) : Prop where
  labels : i' = { i with authorId := i'.authorId }
  mine : user.id = some i'.authorId ↔ user.id = some i.authorId
  author : ContentPresenter.masked i = false → i'.authorId = i.authorId

/-- The presenter is given alike items for alike posts. -/
theorem Discussion.Alike.item {p p' : Discussion} (h : p.Alike masks user p') :
    p.item.Alike user p'.item := by
  refine ⟨?_, h.isAuthor, fun hmask => h.author (.inr (Bool.or_eq_false_iff.mp hmask).1)⟩
  rw [h.labels]
  rfl

/-- The presenter is given alike items for alike comments. -/
theorem Comment.Alike.item {c c' : Comment} (h : c.Alike masks user c') :
    c.item.Alike user c'.item := by
  refine ⟨?_, h.isAuthor, fun hmask => h.author (.inr (Bool.or_eq_false_iff.mp hmask).1)⟩
  rw [Comment.Alike.labels h]
  rfl

/-- The presenter is given alike items for alike answers. -/
theorem Answer.Alike.item {a a' : Answer} (h : a.Alike masks user a') :
    a.item.Alike user a'.item := by
  refine ⟨?_, h.isAuthor, fun hmask => h.author (.inr (Bool.or_eq_false_iff.mp hmask).1)⟩
  rw [Answer.Alike.labels h]
  rfl

namespace ContentPresenter

/-- An item is masked in both stores or in neither. -/
theorem masked_congr {i i' : Item} (h : i.Alike user i') : masked i' = masked i := by
  rw [h.labels]
  rfl

/-- No profile of a masked author is asked for. -/
theorem profiles_congr {items items' : List Item} (h : Forall₂ (Item.Alike user) items items') :
    profiles w items' = profiles w items := by
  have hauthors : (items'.filter fun i => !masked i).map (·.authorId)
      = (items.filter fun i => !masked i).map (·.authorId) := by
    induction h with
    | nil => rfl
    | @cons i i' items items' hi _ ih =>
      rw [filter_cons, filter_cons, masked_congr hi]
      cases hmask : masked i with
      | true => exact ih
      | false =>
        show i'.authorId :: _ = i.authorId :: _
        rw [hi.author hmask, ih]
  unfold profiles profileIds
  rw [hauthors]

/-- The overlay of an item is the same in both stores. -/
theorem overlay_congr (h : s.Alike masks user since s') {i i' : Item} (hi : i.Alike user i')
    (profiles : List Profile) (type : TargetType) :
    overlay s' profiles user type i' = overlay s profiles user type i := by
  have hmanage : canManage i'.authorId user = canManage i.authorId user :=
    decide_eq_decide.mpr (and_congr_right fun _ => or_congr_left hi.mine)
  have hid : i'.id = i.id := by rw [hi.labels]
  have hdeleted : i'.deletedAt = i.deletedAt := by rw [hi.labels]
  have hvotable : i'.votable = i.votable := by rw [hi.labels]
  have hauthor : ∀ {α : Type} (f : Id → Option α), (if masked i then none else f i'.authorId)
      = if masked i then none else f i.authorId := by
    intro α f
    cases hmask : masked i with
    | true => rfl
    | false => rw [hi.author hmask]
  unfold overlay
  simp only [masked_congr hi, hauthor some,
    hauthor fun a => profiles.find? fun p => decide (p.id = a), hi.mine, ne_eq, hmanage, hid,
    hdeleted, hvotable, h.votes]

/-- A post is shown alike to those who may read it. -/
theorem discussionView_congr (h : s.Alike masks user since s') {p p' : Discussion}
    (hp : p.Alike masks user p')
    (hreadable : approved p ∨ user.isModerator ∨ user.id = some p.authorId)
    (profiles : List Profile) :
    discussionView s' profiles user p' = discussionView s profiles user p := by
  have hoverlay := overlay_congr h hp.item profiles .discussion
  -- the texts agree for everyone who may read them
  have htext : p'.title = p.title ∧ p'.content = p.content := by
    rcases hreadable with happroved | hmoderator | hown
    · exact hp.text (.inl (of_decide_eq_true happroved).2)
    · exact hp.text (.inr hmoderator)
    · rw [hp.own (.inl hown)]
      exact ⟨rfl, rfl⟩
  -- the author's own fields
  have hdraft : (if user.id = some p'.authorId then some p'.pendingRevision else none)
      = if user.id = some p.authorId then some p.pendingRevision else none := by
    by_cases hown : user.id = some p.authorId
    · rw [hp.own (.inl hown)]
    · rw [if_neg hown, if_neg (mt hp.isAuthor.mp hown)]
  have hnote : (if user.id = some p'.authorId ∨ user.isModerator then some p'.moderationNote
      else none) = if user.id = some p.authorId ∨ user.isModerator then some p.moderationNote
      else none := by
    by_cases hown : user.id = some p.authorId
    · rw [hp.own (.inl hown)]
    · simp only [hown, mt hp.isAuthor.mp hown, false_or]
      split
      · next hmoderator => rw [(hp.note hmoderator).1]
      · rfl
  unfold discussionView
  rw [hoverlay, htext.1, htext.2, hdraft, hnote, hp.labels]
  simp only [Discussion.disguise, Content.tagIdsOf, Content.mediaOf, h.tags, h.discussionTags,
    h.media]
  rfl

/-- A comment is shown alike. -/
theorem commentView_congr (h : s.Alike masks user since s') {c c' : Comment}
    (hc : c.Alike masks user c') (profiles : List Profile) (d : UuidText) :
    commentView s' profiles user d c' = commentView s profiles user d c := by
  have hoverlay := overlay_congr h (Comment.Alike.item hc) profiles .comment
  unfold commentView
  rw [hoverlay, Comment.Alike.labels hc]

/-- An answer is shown alike. -/
theorem answerView_congr (h : s.Alike masks user since s') {a a' : Answer}
    (ha : a.Alike masks user a') (profiles : List Profile) :
    answerView s' profiles user a' = answerView s profiles user a := by
  have hoverlay := overlay_congr h (Answer.Alike.item ha) profiles .answer
  unfold answerView
  rw [hoverlay, Answer.Alike.labels ha]

theorem comment_congr (h : s.Alike masks user since s') {c c' : Comment}
    (hc : c.Alike masks user c') (d : UuidText) :
    comment w s' user d c' = comment w s user d c := by
  unfold comment
  rw [profiles_congr (.cons (Comment.Alike.item hc) .nil), commentView_congr h hc]

theorem answer_congr (h : s.Alike masks user since s') {a a' : Answer}
    (ha : a.Alike masks user a') : answer w s' user a' = answer w s user a := by
  unfold answer
  rw [profiles_congr (.cons (Answer.Alike.item ha) .nil), answerView_congr h ha]

/-- A post is shown alike to those who may read it. -/
theorem discussion_congr (h : s.Alike masks user since s') {p p' : Discussion}
    (hp : p.Alike masks user p')
    (hreadable : approved p ∨ user.isModerator ∨ user.id = some p.authorId) :
    discussion w s' user p' = discussion w s user p := by
  unfold discussion
  rw [profiles_congr (.cons hp.item .nil), discussionView_congr h hp hreadable]

/-- Pages of comments or of answers. -/
theorem comments_congr (h : s.Alike masks user since s') {cs cs' : List Comment}
    (hcs : Forall₂ (Comment.Alike masks user) cs cs') :
    comments w s' user cs' = comments w s user cs := by
  have hitems : Forall₂ (Item.Alike user) (cs.map (·.item)) (cs'.map (·.item)) := by
    rw [forall₂_map_left_iff, forall₂_map_right_iff]
    exact hcs.imp fun _ _ hc => Comment.Alike.item hc
  unfold comments
  rw [profiles_congr hitems]
  refine (map_eq_map_of_forall₂ hcs fun c c' hc => ?_).symm
  have hd : c'.discussionId = c.discussionId := by rw [Comment.Alike.labels hc]
  rw [hd, commentView_congr h hc]

/-- Lists of answers are shown alike. -/
theorem answers_congr (h : s.Alike masks user since s') {as as' : List Answer}
    (has : Forall₂ (Answer.Alike masks user) as as') :
    answers w s' user as' = answers w s user as := by
  have hitems : Forall₂ (Item.Alike user) (as.map (·.item)) (as'.map (·.item)) := by
    rw [forall₂_map_left_iff, forall₂_map_right_iff]
    exact has.imp fun _ _ ha => Answer.Alike.item ha
  unfold answers
  rw [profiles_congr hitems]
  exact (map_eq_map_of_forall₂ has fun a a' ha => (answerView_congr h ha _).symm).symm

/-- Lists of posts are shown alike. -/
theorem discussions_congr (h : s.Alike masks user since s') {ps ps' : List Discussion}
    (hps : Forall₂ (fun p p' => (approved p ∨ user.isModerator ∨ user.id = some p.authorId)
      ∧ p.Alike masks user p') ps ps') :
    discussions w s' user ps' = discussions w s user ps := by
  have hitems : Forall₂ (Item.Alike user) (ps.map (·.item)) (ps'.map (·.item)) := by
    rw [forall₂_map_left_iff, forall₂_map_right_iff]
    exact hps.imp fun _ _ hp => hp.2.item
  unfold discussions
  rw [profiles_congr hitems]
  exact (map_eq_map_of_forall₂ hps fun p p' hp =>
    (discussionView_congr h hp.2 hp.1 _).symm).symm

end ContentPresenter

/-! ## Reads

The methods that only read return the same to the viewer in both stores. -/

/-- The same pages are cut from related lists. -/
theorem forall₂_pageOf {α : Type} {R : α → α → Prop} {l l' : List α} (page limit : Nat)
    (h : Forall₂ R l l') : Forall₂ R (pageOf page limit l) (pageOf page limit l') :=
  forall₂_take limit (forall₂_drop ((page - 1) * limit) h)

namespace Db.Alike

/-- A post may be read in both stores or in neither. -/
theorem requireReadable {p p' : Discussion} (hp : p.Alike masks user p') :
    AcaSocial.requireReadable p' user = AcaSocial.requireReadable p user := by
  unfold AcaSocial.requireReadable
  simp only [hp.approved, hp.isAuthor]

/-- The accepted answer or comment, shown alike. -/
theorem acceptedView (h : s.Alike masks user since s') {p p' : Discussion}
    (hp : p.Alike masks user p') :
    DiscussionsService.acceptedView w s' user p' = DiscussionsService.acceptedView w s user p := by
  have hcomment : (p.acceptedCommentId.bind s'.comment?).map (fun c =>
        Accepted.comment (ContentPresenter.comment w s' user (Id.text c.discussionId) c))
      = (p.acceptedCommentId.bind s.comment?).map fun c =>
        Accepted.comment (ContentPresenter.comment w s user (Id.text c.discussionId) c) := by
    cases p.acceptedCommentId with
    | none => rfl
    | some i =>
      refine map_congr (h.comment? i) fun c c' hc => ?_
      have hd : c'.discussionId = c.discussionId := by rw [Comment.Alike.labels hc]
      rw [hd, ContentPresenter.comment_congr h hc]
  unfold DiscussionsService.acceptedView
  rw [hp.acceptedAnswerId, hp.acceptedCommentId]
  cases p.acceptedAnswerId with
  | none => exact hcomment
  | some i =>
    have hfound := h.answer? i
    dsimp only [Option.bind_some]
    generalize s.answer? i = o, s'.answer? i = o' at hfound ⊢
    cases hfound with
    | none => exact hcomment
    | some ha => exact congrArg (some ∘ Accepted.answer) (ContentPresenter.answer_congr h ha)

/-- A post is returned alike. -/
theorem findOne (h : s.Alike masks user since s') (i : Id) :
    DiscussionsService.findOne w s' i user = DiscussionsService.findOne w s i user := by
  refine (Related.eq ?_).symm
  refine .orThrow_bind (h.post? i) fun p p' _ _ hp => ?_
  refine .bind_same (requireReadable hp) fun _ hreadable => ?_
  rw [requireReadable_eq_ok] at hreadable
  refine .bind_same (by rw [hp.roomId, h.requireVisible]) fun _ _ => .ok ?_
  rw [ContentPresenter.discussion_congr h hp hreadable, h.acceptedView hp]

/-- The filters look at no hidden text and at no masked author. -/
theorem listed (h : s.Alike masks user since s') (filter : FilterDiscussionDto) {p p' : Discussion}
    (hp : p.Alike masks user p') :
    DiscussionsService.listed w s' filter user p' = DiscussionsService.listed w s filter user p := by
  have hadmits : DiscussionsService.roomAdmits s' user p' = DiscussionsService.roomAdmits s user p := by
    unfold DiscussionsService.roomAdmits
    rw [hp.roomId]
    cases p.roomId with
    | none => rfl
    | some r =>
      simp only [hp.isAuthor, h.room?]
      congr 2
      exact h.membership r
  have hlabels : p'.deletedAt = p.deletedAt ∧ p'.postType = p.postType ∧ p'.roomId = p.roomId
      ∧ p'.status = p.status ∧ p'.isAnonymous = p.isAnonymous ∧ p'.id = p.id := by
    rw [hp.labels]
    exact ⟨rfl, rfl, rfl, rfl, rfl, rfl⟩
  have hauthor : ∀ a : UuidText, decide (p'.authorId = a.id ∧ p.isAnonymous = false)
      = decide (p.authorId = a.id ∧ p.isAnonymous = false) := by
    intro a
    refine decide_eq_decide.mpr (and_congr_left fun hnamed => ?_)
    rw [hp.author (.inr hnamed)]
  -- the title is looked at last, when the post is known to be one that the viewer may read
  cases hreadable : user.isModerator || approved p || decide (user.id = some p.authorId) with
  | false => simp [DiscussionsService.listed, hp.approved, hp.isAuthor, hreadable]
  | true =>
    have htitle : p'.title = p.title := by
      rw [Bool.or_eq_true, Bool.or_eq_true, decide_eq_true_eq] at hreadable
      rcases hreadable with (hmoderator | happroved) | hown
      · exact (hp.text (.inr hmoderator)).1
      · exact (hp.text (.inl (of_decide_eq_true happroved).2)).1
      · rw [hp.own (.inl hown)]
    unfold DiscussionsService.listed Content.tagIdsOf
    simp only [hadmits, hlabels, hauthor, htitle, hp.approved, hp.isAuthor, h.tags,
      h.discussionTags]

/-- The list, its totals and its pages. -/
theorem findAll (h : s.Alike masks user since s') (filter : FilterDiscussionDto) :
    DiscussionsService.findAll w s' filter user = DiscussionsService.findAll w s filter user := by
  -- the order of the page is by columns that both rows share
  have hkeys : ∀ p p' q q' : Discussion, p.Alike masks user p' → q.Alike masks user q' →
      (DiscussionsService.sortKey filter.sort p).le (decide (filter.sort = .oldest))
          (DiscussionsService.sortKey filter.sort q)
        = (DiscussionsService.sortKey filter.sort p').le (decide (filter.sort = .oldest))
          (DiscussionsService.sortKey filter.sort q') := by
    intro p p' q q' hp hq
    rw [hp.labels, hq.labels]
    rfl
  have hrows := forall₂_mergeSort
    (h.discussions.rows.select fun p p' hp => (h.listed (w := w) filter hp).symm) hkeys
  have hpage := forall₂_pageOf filter.page filter.limit hrows
  -- who is listed a post may read its text
  have hreadable : ∀ p ∈ pageOf filter.page filter.limit
      ((s.discussions.select (DiscussionsService.listed w s filter user)).mergeSort fun a b =>
        (DiscussionsService.sortKey filter.sort a).le (decide (filter.sort = .oldest))
          (DiscussionsService.sortKey filter.sort b)),
      approved p ∨ user.isModerator ∨ user.id = some p.authorId := by
    intro p hp
    have hlisted := (Table.mem_select.mp (mem_mergeSort.mp (mem_of_mem_drop (mem_of_mem_take hp)))).2
    simp only [DiscussionsService.listed, Bool.and_eq_true, Bool.or_eq_true,
      decide_eq_true_eq] at hlisted
    tauto
  unfold DiscussionsService.findAll
  simp only
  rw [ContentPresenter.discussions_congr h ((forall₂_and_left _ _).mpr ⟨hreadable, hpage⟩),
    hrows.length_eq]

/-- Who may accept an answer is the same in both stores. -/
theorem canAccept {p p' : Discussion} (hp : p.Alike masks user p') :
    AnswersService.canAccept p' user = AnswersService.canAccept p user :=
  decide_eq_decide.mpr (and_congr_right fun _ => or_congr_left hp.isAuthor)

/-- The answers to a question. -/
theorem list (h : s.Alike masks user since s') (d : UuidText) :
    AnswersService.list w s' d user = AnswersService.list w s d user := by
  refine (Related.eq ?_).symm
  refine .orThrow_bind (h.post? d.id) fun p p' _ _ hp => ?_
  refine .bind_same (requireReadable hp) fun _ _ => ?_
  refine .bind_same (by rw [hp.roomId, h.requireVisible]) fun _ _ => .ok ?_
  have hselect : ∀ a a' : Answer, a.Alike masks user a' →
      decide (a.discussionId = p.id ∧ a.deletedAt = none)
        = decide (a'.discussionId = p'.id ∧ a'.deletedAt = none) := by
    intro a a' ha
    rw [Answer.Alike.labels ha, hp.id]
  have hkeys : ∀ a a' b b' : Answer, a.Alike masks user a' → b.Alike masks user b' →
      decide (a.createdAt ≤ b.createdAt) = decide (a'.createdAt ≤ b'.createdAt) := by
    intro a a' b b' ha hb
    rw [Answer.Alike.labels ha, Answer.Alike.labels hb]
  have hrows := forall₂_mergeSort (h.answers.rows.select hselect) hkeys
  rw [ContentPresenter.answers_congr h hrows, canAccept hp]

/-- The replies to a comment are as many. -/
theorem replyCount (h : s.Alike masks user since s') (c : Id) :
    CommentsService.replyCount s' c = CommentsService.replyCount s c := by
  have hselect : ∀ m m' : Comment, m.Alike masks user m' →
      decide (m.parentCommentId = some c) = decide (m'.parentCommentId = some c) := by
    intro m m' hm
    rw [Comment.Alike.labels hm]
  exact (h.comments.rows.select hselect).length_eq.symm

/-- What the list of comments adds to them. -/
theorem commentItem (h : s.Alike masks user since s') {p p' : Discussion}
    (hp : p.Alike masks user p') {c c' : Comment} (hc : c.Alike masks user c') (v : CommentView) :
    CommentsService.item s' p' user c' v = CommentsService.item s p user c v := by
  have hauthor : some c'.authorId ≠ user.id ↔ some c.authorId ≠ user.id :=
    not_congr ⟨fun h => (hc.isAuthor.mp h.symm).symm, fun h => (hc.isAuthor.mpr h.symm).symm⟩
  unfold CommentsService.item
  simp only [hp.postType, hp.status, hp.isAuthor, hauthor, h.replyCount]

/-- The comments of a post, their totals and their pages. -/
theorem findAllByDiscussion (h : s.Alike masks user since s') (d : UuidText)
    (filter : FilterCommentDto) :
    CommentsService.findAllByDiscussion w s' d filter user
      = CommentsService.findAllByDiscussion w s d filter user := by
  have hparent : (∀ q : UuidText, ((s'.comments.get? q.id).any fun c =>
      decide (c.discussionId = d.id)) = (s.comments.get? q.id).any fun c =>
        decide (c.discussionId = d.id)) := by
    intro q
    exact any_congr (h.comments.rows.get? q.id) fun c c' hc => by rw [Comment.Alike.labels hc]
  refine (Related.eq ?_).symm
  refine .orThrow_bind (h.post? d.id) fun p p' _ _ hp => ?_
  refine .bind_same (requireReadable hp) fun _ _ => ?_
  refine .bind_same (by rw [hp.roomId, h.requireVisible]) fun _ _ => ?_
  refine .require_bind (by simp only [hparent]) fun _ => .ok ?_
  -- the same comments are selected, in the same order
  have hselect : ∀ c c' : Comment, c.Alike masks user c' →
      CommentsService.listed s d.id (filter.parentCommentId.map (·.id)) c
        = CommentsService.listed s' d.id (filter.parentCommentId.map (·.id)) c' := by
    intro c c' hc
    unfold CommentsService.listed
    rw [Comment.Alike.labels hc, h.replyCount]
  have hkeys : ∀ c c' e e' : Comment, c.Alike masks user c' → e.Alike masks user e' →
      (CommentsService.sortKey filter.sort c).le (decide (filter.sort = .oldest))
          (CommentsService.sortKey filter.sort e)
        = (CommentsService.sortKey filter.sort c').le (decide (filter.sort = .oldest))
          (CommentsService.sortKey filter.sort e') := by
    intro c c' e e' hc he
    rw [Comment.Alike.labels hc, Comment.Alike.labels he]
    rfl
  have hrows := forall₂_mergeSort (h.comments.rows.select hselect) hkeys
  have hpage := forall₂_pageOf filter.page filter.limit hrows
  -- and each is shown alike
  have hitems : ∀ {cs cs' : List Comment} (vs : List CommentView),
      Forall₂ (Comment.Alike masks user) cs cs' →
      zipWith (CommentsService.item s' p' user) cs' vs
        = zipWith (CommentsService.item s p user) cs vs := by
    intro cs cs' vs hcs
    induction hcs generalizing vs with
    | nil => rfl
    | cons hc _ ih =>
      cases vs with
      | nil => rfl
      | cons v vs => rw [zipWith_cons_cons, zipWith_cons_cons, h.commentItem hp hc, ih]
  rw [ContentPresenter.comments_congr h hpage, hitems _ hpage, hrows.length_eq]

end Db.Alike

end AcaSocial
