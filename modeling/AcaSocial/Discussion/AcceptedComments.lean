import AcaSocial.Discussion.AcceptanceLedger
import AcaSocial.Discussion.Revisions

/-!
# The accepted comment of a question

A question points to the comment that its author has accepted. An edit or a deletion of that comment, an edit of
the question and its hiding all clear the pointer.

* **`Db.stepNoting`** — a call, beside what the accepted comment of each post said when it was accepted.
* **`AcceptedReal`** — an accepted comment is a live root comment of a visible question, by another user, and
  says what it said.
* **`Misspells`** — the call edits or deletes an accepted comment under an id with an upper-case letter. The
  service compares that spelling with the pointer, and leaves the pointer.

`accepted_comments_real` says that the last is all that can break the second.
-/

namespace AcaSocial

variable {s : Db} {c : Call} {i k : Id}

/-- The comment that a live post has accepted. -/
def Content.acceptedComment (s : Content) (i : Id) : Option Id := (s.post? i).bind (·.acceptedCommentId)

/-- What the accepted comment of a post says. -/
def Content.acceptedText (s : Content) (i : Id) : String :=
  (((s.acceptedComment i).bind s.comment?).map (·.content)).getD ""

/-- One call. A pointer that it sets is an acceptance, and what the comment says then is noted. -/
def Db.stepNoting (q : Db × (Id → String)) (c : Call) : Db × (Id → String) :=
  let s := q.1.step c
  (s, fun i => if s.acceptedComment i = q.1.acceptedComment i then q.2 i else s.acceptedText i)

/-- The post `p` is a visible question, and `k` is a live root comment of it by another user that says `text`. -/
structure Thread.Accepts (t : Thread) (p : Discussion) (k : Id) (text : String) : Prop where
  question : p.postType = .question
  visible : p.visibility = .visible
  comment : ∃ m, t.comment? k = some m ∧ m.parentCommentId = none ∧ m.authorId ≠ p.authorId ∧ m.content = text

/-- Every accepted comment of a live post is real, and says what it said when it was accepted. -/
def AcceptedReal (q : Db × (Id → String)) : Prop := ∀ i p k, q.1.post? i = some p →
  p.acceptedCommentId = some k → (q.1.thread i).Accepts p k (q.2 i)

/-- The comment is the accepted one of its post, and the call may change it. -/
def Call.reaches (s : Db) (c : Call) (m : Comment) : Prop :=
  ∃ p, s.post? m.discussionId = some p ∧ p.acceptedCommentId = some m.id ∧ p.status ≠ .closed
    ∧ canManage m.authorId c.user

/-- The call changes or deletes an accepted comment whose id it spells in another way than the database. -/
def Misspells (s : Db) (c : Call) : Prop :=
  match c.operation with
  | .comments (.update id dto) => id ≠ Id.text id.id
      ∧ ∃ m, s.comment? id.id = some m ∧ c.reaches s m ∧ CommentsService.contentChanged m dto
  | .comments (.remove id) => id ≠ Id.text id.id ∧ ∃ m, s.comment? id.id = some m ∧ c.reaches s m
  | _ => False

/-! ## Comments of a thread

What a write makes of the comments that are found. -/

namespace Thread

variable {t t' : Thread} {p q : Discussion} {text : String}

theorem comment?_id {m : Comment} (h : t.comment? k = some m) : m.id = k :=
  (Table.get?_eq_some.mp (Option.filter_eq_some_iff.mp h).1).2

theorem comment?_saveComment_of_ne {m : Comment} (h : m.id ≠ k) :
    (t.saveComment m).comment? k = t.comment? k := by
  simp only [comment?, saveComment, Table.get?_save_of_ne h]

/-- A comment that is saved and not deleted is found. -/
theorem comment?_saveComment_self {m m₀ : Comment} (h : t.comment? m.id = some m₀)
    (hlive : m.deletedAt = none) : (t.saveComment m).comment? m.id = some m := by
  have hget : t.comments.get? m.id = some m₀ := (Option.filter_eq_some_iff.mp h).1
  simp [comment?, saveComment, Table.get?_save_self hget, hlive]

/-- A new comment hides none. -/
theorem comment?_insertComment {m m₀ : Comment} (h : t.comment? k = some m₀) :
    (t.insertComment m).comment? k = some m₀ := by
  have hget : t.comments.get? k = some m₀ := (Option.filter_eq_some_iff.mp h).1
  have hlive := (Option.filter_eq_some_iff.mp h).2
  simp only [comment?, insertComment, Table.get?_insert, hget]
  split <;> simpa [Option.filter_eq_some_iff] using hlive

namespace Accepts

/-- The post keeps its author and what it is, and the comment its own. -/
theorem congr (h : t.Accepts p k text) (htype : q.postType = p.postType)
    (hvisible : p.visibility = .visible → q.visibility = .visible) (hauthor : q.authorId = p.authorId)
    (hkept : ∀ m, t.comment? k = some m → ∃ m', t'.comment? k = some m'
      ∧ m'.parentCommentId = m.parentCommentId ∧ m'.authorId = m.authorId ∧ m'.content = m.content) :
    t'.Accepts q k text := by
  obtain ⟨m, hm, hroot, hother, htext⟩ := h.comment
  obtain ⟨m', hm', hparent, hby, hsays⟩ := hkept m hm
  refine ⟨htype.trans h.question, hvisible h.visible, m', hm', hparent.trans hroot, ?_, hsays.trans htext⟩
  rw [hby, hauthor]
  exact hother

/-- The comments of the thread are what they were. -/
theorem of_comments (h : t.Accepts p k text) (htype : q.postType = p.postType)
    (hvisible : p.visibility = .visible → q.visibility = .visible) (hauthor : q.authorId = p.authorId)
    (hcomments : t'.comments = t.comments) : t'.Accepts q k text :=
  h.congr htype hvisible hauthor fun m hm => ⟨m, by rw [← hm, comment?, comment?, hcomments], rfl, rfl, rfl⟩

/-- A comment is saved with the author, the parent and the content that it had. -/
theorem saveComment {m₀ m : Comment} {j : Id} (h : t.Accepts p k text) (hm : t.comment? j = some m₀)
    (hid : m.id = m₀.id) (hlive : m.deletedAt = none) (hparent : m.parentCommentId = m₀.parentCommentId)
    (hauthor : m.authorId = m₀.authorId) (hkept : m₀.id = k → m.content = m₀.content) :
    (t.saveComment m).Accepts p k text := by
  refine h.congr rfl id rfl fun m₁ hm₁ => ?_
  by_cases hk : m.id = k
  · -- the comment at hand is the saved one
    subst hk
    have hj : m₀.id = j := comment?_id hm
    have hsame : t.comment? m.id = some m₀ := by rw [hid, hj, hm]
    obtain rfl := Option.some.inj (hsame.symm.trans hm₁)
    exact ⟨m, comment?_saveComment_self hsame hlive, hparent, hauthor, hkept hid.symm⟩
  · exact ⟨m₁, (comment?_saveComment_of_ne hk).trans hm₁, rfl, rfl, rfl⟩

end Accepts

/-- The accepted comments of the live post of `t`. -/
def AllAccepted (t : Thread) (text : String) : Prop :=
  ∀ p k, t.Live p → p.acceptedCommentId = some k → t.Accepts p k text

/-- The accepted comment is real, and if it was accepted before, it says `text` still. -/
def AcceptsStill (t t' : Thread) (text : String) (p : Discussion) (k : Id) : Prop :=
  ∃ text', t'.Accepts p k text' ∧ ∀ q, t.Live q → q.acceptedCommentId = some k → text' = text

end Thread

/-! ## Steps

The accepted comment of a post is a comment of its thread. Each step keeps this, unless the request misspells an id.
-/

open Thread DiscussionsService CommentsService

/-- An edit that changes nothing leaves the post as it was. -/
theorem editedPost_eq_self {dto : UpdateDiscussionDto} {p : Discussion} (policy : Option PostContext)
    (h : DiscussionsService.contentChanged p dto = false) : editedPost dto policy p = p := by
  rw [editedPost, if_neg (by simp [h]), edited_eq_self h]

/-- A pointer that a review leaves belongs to a post that stays visible. -/
theorem reviewedPost_accepted {p : Discussion} {dto : ReviewContentDto}
    (h : (ModerationService.reviewedPost p dto).acceptedCommentId = some k) :
    p.acceptedCommentId = some k
      ∧ (p.visibility = .visible → (ModerationService.reviewedPost p dto).visibility = .visible) := by
  unfold ModerationService.reviewedPost at h ⊢
  dsimp only at h ⊢
  split at h
  · cases h
  · next hkept =>
    rw [if_neg hkept]
    rw [ModerationService.decided_acceptedCommentId] at h
    exact ⟨h, ModerationService.visible_of_not_revokes hkept⟩

/-- A step keeps accepted comments real, and as they were, unless the call misspells one that it changes. -/
theorem accepted_step {t' : Thread} {text : String} (h : ThreadStep s c i (s.thread i) t')
    (hsafe : ¬ Misspells s c) (hinv : (s.thread i).AllAccepted text) :
    ∀ p k, t'.Live p → p.acceptedCommentId = some k → (s.thread i).AcceptsStill t' text p k := by
  intro p' k hp' hk
  -- the pointer is that of the post before
  have hstill : ∀ {p : Discussion}, (s.thread i).Live p → p.acceptedCommentId = some k →
      ((s.thread i).Accepts p k text → t'.Accepts p' k text) → (s.thread i).AcceptsStill t' text p' k :=
    fun hp hpk hkeep => ⟨text, hkeep (hinv _ k hp hpk), fun _ _ _ => rfl⟩
  have hreach : ∀ {p : Discussion} {m : Comment} {id : UuidText}, (s.thread i).Live p →
      (s.thread i).comment? id.id = some m → m.id = k → p.acceptedCommentId = some k → p.status ≠ .closed →
      canManage m.authorId c.user → s.comment? id.id = some m ∧ c.reaches s m := by
    intro p m id hp hm hmk hpk hopen hmanage
    obtain ⟨hrow, hd⟩ := thread_comment?_eq_some.mp hm
    exact ⟨hrow, p, hd ▸ post?_iff_live.mpr hp, hmk ▸ hpk, hopen, hmanage⟩
  cases h with
  | same | tagMerged | tagRemoved => exact hstill hp' hk fun h => h.of_comments rfl id rfl rfl
  | answerUpdated => exact hstill hp' hk fun h => h.of_comments rfl id rfl rfl
  | created =>
    simp only [live_setMedia, live_setTags, live_savePost] at hp'
    obtain ⟨rfl, -⟩ := hp'
    cases hk
  | viewed _ hp | drafted _ hp | statusSet _ hp | answerCreated _ hp | acceptedAnswerUpdated _ hp
  | answerRemoved _ hp | acceptedAnswerRemoved _ hp | acceptanceRemoved _ hp | postVoted _ hp =>
    obtain ⟨rfl, -⟩ := live_savePost.mp hp'
    exact hstill hp hk fun h => h.of_comments rfl id rfl rfl
  | @edited p id dto policy _ _ _ hp =>
    simp only [live_setMedia, live_savePost] at hp'
    obtain ⟨rfl, -⟩ := hp'
    by_cases hchanged : DiscussionsService.contentChanged p dto = true
    · rw [editedPost, if_pos hchanged] at hk
      cases hk
    · have hsame := editedPost_eq_self policy (Bool.eq_false_iff.mpr hchanged)
      have hpk : p.acceptedCommentId = some k := by rw [← hk, hsame]
      refine hstill hp hpk fun h => h.of_comments (by rw [hsame]) (fun hv => ?_) (by rw [hsame]) ?_
      · rw [hsame]
        exact hv
      dsimp only [Thread.savePost, Thread.setMedia, Thread.setTags]
      split <;> rfl
  | removed =>
    obtain ⟨rfl, hlive⟩ := live_savePost.mp hp'
    cases hlive
  | @commentAccepted p id commentId a _ hp happroved hquestion _ _ ha hroot hauthor hother =>
    obtain ⟨rfl, -⟩ := live_savePost.mp hp'
    obtain rfl : a.id = k := Option.some.inj hk
    refine ⟨a.content, ⟨hquestion, (of_decide_eq_true happroved).2, a, ?_, hroot, hauthor, rfl⟩,
      fun q hq hqk => ?_⟩
    · rw [comment?_id ha]
      exact ha
    · -- the comment was not the accepted one
      obtain rfl := hp.unique hq
      exact absurd hqk hother
  | acceptedCommentRemoved | answerAccepted =>
    obtain ⟨rfl, -⟩ := live_savePost.mp hp'
    cases hk
  | commentCreated _ hp =>
    obtain ⟨rfl, -⟩ := live_savePost.mp hp'
    exact hstill hp hk fun h => h.congr rfl id rfl fun m hm => ⟨m, comment?_insertComment hm, rfl, rfl, rfl⟩
  | @commentUpdated p m id dto hop hp hm hopen hmanage hkept =>
    refine hstill hp' hk fun h => ?_
    obtain rfl := hp.unique hp'
    have hlive := Thread.comment?_live hm
    have hfields : (CommentsService.edited m dto).deletedAt = m.deletedAt
        ∧ (CommentsService.edited m dto).parentCommentId = m.parentCommentId
        ∧ (CommentsService.edited m dto).authorId = m.authorId := by
      unfold CommentsService.edited
      split <;> exact ⟨rfl, rfl, rfl⟩
    refine h.saveComment hm (edited_id m dto) (hfields.1.trans hlive) hfields.2.1 hfields.2.2 fun hmk => ?_
    -- an accepted comment is not changed here: its id is not misspelled
    have hunchanged : CommentsService.contentChanged m dto = false := by
      by_contra hchanged
      rw [Bool.not_eq_false] at hchanged
      obtain ⟨hrow, hreaches⟩ := hreach hp hm hmk hk hopen hmanage
      have hid : m.id = id.id := comment?_id hm
      have hspelled : id = Id.text id.id := by
        by_contra hne
        apply hsafe
        unfold Misspells
        rw [hop]
        exact ⟨hne, m, hrow, hreaches, hchanged⟩
      apply hkept
      refine ⟨hchanged, ?_⟩
      rw [hk, Option.map_some, ← hmk, hid, ← hspelled]
    rw [CommentsService.edited, if_neg (by simp [hunchanged])]
  | acceptedCommentUpdated =>
    obtain ⟨rfl, -⟩ := live_savePost.mp (live_saveComment.mp hp')
    cases hk
  | @commentRemoved p m id hop hp hm hopen hmanage =>
    obtain ⟨rfl, -⟩ := live_savePost.mp hp'
    by_cases haccepted : p.acceptedCommentId.map Id.text = some id
    · rw [uncommented, if_pos haccepted] at hk
      cases hk
    · have hsame : uncommented p id = fewerComments p := by rw [uncommented, if_neg haccepted]
      have hpk : p.acceptedCommentId = some k := by
        rw [hsame] at hk
        exact hk
      refine hstill hp hpk fun h => h.congr (by rw [hsame]; rfl) (fun hv => ?_) (by rw [hsame]; rfl)
        fun m₁ hm₁ => ?_
      · rw [uncommented_visibility]
        exact hv
      -- the deleted comment is another one: the id of an accepted one is not misspelled
      have hne : m.id ≠ k := by
        intro hmk
        obtain ⟨hrow, hreaches⟩ := hreach hp hm hmk hpk hopen hmanage
        have hid : m.id = id.id := comment?_id hm
        have hspelled : id = Id.text id.id := by
          by_contra hne
          apply hsafe
          unfold Misspells
          rw [hop]
          exact ⟨hne, m, hrow, hreaches⟩
        apply haccepted
        rw [hpk, Option.map_some, ← hmk, hid, ← hspelled]
      have hother : ((s.thread i).saveComment { m with deletedAt := some c.world.now }).comment? k
          = (s.thread i).comment? k := comment?_saveComment_of_ne hne
      exact ⟨m₁, hother.trans hm₁, rfl, rfl, rfl⟩
  | commentVoted _ hp hm =>
    have hlive := Thread.comment?_live hm
    exact hstill hp' hk fun h => h.saveComment hm rfl hlive rfl rfl fun _ => rfl
  | answerVoted => exact hstill hp' hk fun h => h.of_comments rfl id rfl rfl
  | reviewed _ hp =>
    obtain ⟨rfl, -⟩ := live_savePost.mp hp'
    obtain ⟨hpk, hvisible⟩ := reviewedPost_accepted hk
    refine hstill hp hpk fun h => h.of_comments ?_ hvisible ?_ ?_
    · rw [ModerationService.reviewedPost_eq]
    · rw [ModerationService.reviewedPost_eq]
    · dsimp only [Thread.savePost, Thread.setMedia, Thread.setTags]
      split <;> rfl

/-! ## Calls that misspell

The id of the path is compared as a text with the stored one, so that another spelling of it is not seen to be the
accepted one. -/

/-- The accepted comment of a post that is there. -/
theorem acceptedComment_eq_some : s.acceptedComment i = some k
    ↔ ∃ p, (s.thread i).Live p ∧ p.acceptedCommentId = some k := by
  rw [Content.acceptedComment, Option.bind_eq_some_iff]
  constructor
  · rintro ⟨p, hp, hk⟩
    exact ⟨p, post?_iff_live.mp hp, hk⟩
  · rintro ⟨p, hp, hk⟩
    exact ⟨p, post?_iff_live.mpr hp, hk⟩

/-- Where the pointer of a post is as before, what was noted is. -/
theorem stepNoting_of_pointer {q : Db × (Id → String)}
    (h : (q.1.step c).acceptedComment i = q.1.acceptedComment i) : (Db.stepNoting q c).2 i = q.2 i := if_pos h

/-- The id of an accepted comment, spelled in another way, is not the pointer. -/
theorem not_pointer_of_misspelled {p : Discussion} {m : Comment} {id : UuidText} (hne : id ≠ Id.text id.id)
    (hpointer : p.acceptedCommentId = some m.id) : p.acceptedCommentId.map Id.text ≠ some id := by
  intro hsame
  rw [hpointer, Option.map_some] at hsame
  have hid := Option.some.inj hsame
  apply hne
  rw [← hid, Id.text_id]

/-- A misspelled edit leaves the pointer to a comment that says something else. -/
theorem not_acceptedReal_update {q : Db × (Id → String)} {id : UuidText} {dto : UpdateCommentDto} {m : Comment}
    (hinv : AcceptedReal q) (hop : c.operation = .comments (.update id dto)) (hne : id ≠ Id.text id.id)
    (hm : q.1.comment? id.id = some m) (hreaches : c.reaches q.1 m)
    (hchanged : CommentsService.contentChanged m dto) : ¬ AcceptedReal (Db.stepNoting q c) := by
  obtain ⟨p, hp, hpointer, hopen, hmanage⟩ := hreaches
  obtain ⟨user, huser⟩ := Option.isSome_iff_exists.mp (canManage_iff.mp hmanage).1
  have hstate : q.1.step c = q.1.saveComment (CommentsService.edited m dto) := by
    obtain ⟨w, u, o⟩ := c
    obtain rfl : o = _ := hop
    show (CommentsService.update w q.1 id u dto).state = _
    refine commit_state_of_ok (a := CommentsService.edited m dto) ?_
    simp only [CommentsService.updateTx, bind_eq_ok, authenticated_eq_ok, requireManager_eq_ok,
      requireOpen_eq_ok]
    refine ⟨user, huser, (p, m), lockCommentPost_eq_ok.mpr ⟨hm, hp⟩, (), hopen, (), hmanage, ?_⟩
    rw [if_neg fun h => not_pointer_of_misspelled hne hpointer h.2]
    rfl
  have hthread : (q.1.step c).thread m.discussionId
      = (q.1.thread m.discussionId).saveComment (CommentsService.edited m dto) := by
    rw [hstate, thread_saveComment hm (edited_id m dto) (edited_discussionId m dto), if_pos rfl]
  have hlive := post?_iff_live.mp hp
  have hnoted : (Db.stepNoting q c).2 m.discussionId = q.2 m.discussionId := by
    apply stepNoting_of_pointer
    rw [hstate]
    rfl
  intro hreal
  -- the comment said what was noted, and says something else
  have hid : m.id = id.id := (Content.comment?_eq_some.mp hm).2.1
  obtain ⟨m₀, hm₀, -, -, hsaid⟩ := (hinv _ p m.id hp hpointer).comment
  have hsame : (q.1.thread m.discussionId).comment? m.id = some m := hid ▸ thread_comment? hm
  obtain rfl := Option.some.inj (hsame.symm.trans hm₀)
  have hp' : (q.1.step c).post? m.discussionId = some p := by
    rw [hstate]
    exact hp
  obtain ⟨m₁, hm₁, -, -, hsays⟩ := (hreal _ p m.id hp' hpointer).comment
  have hafter : ((q.1.step c).thread m.discussionId).comment? m.id = some (CommentsService.edited m dto) := by
    have hdeleted : (CommentsService.edited m dto).deletedAt = none := by
      have hm' := Thread.comment?_live hsame
      unfold CommentsService.edited
      split <;> exact hm'
    have hold : (q.1.thread m.discussionId).comment? (CommentsService.edited m dto).id = some m := by
      rw [edited_id]
      exact hsame
    rw [hthread, ← edited_id m dto]
    exact comment?_saveComment_self hold hdeleted
  obtain rfl := Option.some.inj (hafter.symm.trans hm₁)
  rw [hnoted, ← hsaid] at hsays
  obtain ⟨text, htext, hdiffers⟩ := of_decide_eq_true hchanged
  rw [Option.mem_def] at htext
  apply hdiffers
  rw [← hsays, CommentsService.edited, if_pos hchanged]
  show text = dto.content.getD m.content
  rw [htext]
  rfl

/-- A deletion that passes its checks marks the row and counts it out of the post. -/
theorem removeComment_step {id : UuidText} {m : Comment} {p : Discussion} (hop : c.operation = .comments (.remove id))
    (hm : s.comment? id.id = some m) (hp : s.post? m.discussionId = some p) (hopen : p.status ≠ .closed)
    (hmanage : canManage m.authorId c.user) :
    s.step c = (s.saveComment { m with deletedAt := some c.world.now }).savePost (uncommented p id) := by
  obtain ⟨user, huser⟩ := Option.isSome_iff_exists.mp (canManage_iff.mp hmanage).1
  obtain ⟨w, u, o⟩ := c
  obtain rfl : o = _ := hop
  show (CommentsService.remove w s id u).state = _
  refine commit_state_of_ok (a := ()) ?_
  simp only [CommentsService.removeTx, bind_eq_ok, authenticated_eq_ok, requireManager_eq_ok, requireOpen_eq_ok]
  exact ⟨user, huser, (p, m), lockCommentPost_eq_ok.mpr ⟨hm, hp⟩, (), hopen, (), hmanage, rfl⟩

/-- A misspelled deletion leaves the pointer to a comment that is gone. -/
theorem not_acceptedReal_remove {q : Db × (Id → String)} {id : UuidText} {m : Comment}
    (hop : c.operation = .comments (.remove id)) (hne : id ≠ Id.text id.id)
    (hm : q.1.comment? id.id = some m) (hreaches : c.reaches q.1 m) : ¬ AcceptedReal (Db.stepNoting q c) := by
  obtain ⟨p, hp, hpointer, hopen, hmanage⟩ := hreaches
  have huncommented : uncommented p id = fewerComments p := by
    rw [uncommented, if_neg (not_pointer_of_misspelled hne hpointer)]
  have hstate := removeComment_step hop hm hp hopen hmanage
  rw [huncommented] at hstate
  intro hreal
  have hlive : (fewerComments p).deletedAt = none := (post?_iff_live.mp hp).2
  have hp' : (q.1.step c).post? m.discussionId = some (fewerComments p) := by
    rw [hstate]
    have hp₁ : (q.1.saveComment { m with deletedAt := some c.world.now }).post? m.discussionId = some p := hp
    exact Db.post?_savePost hp₁ rfl hlive
  obtain ⟨m₁, hm₁, -⟩ := (hreal _ (fewerComments p) m.id hp' hpointer).comment
  -- the row is there, but deleted
  obtain ⟨hrow, -⟩ := thread_comment?_eq_some.mp hm₁
  obtain ⟨hmem, hid, hm₁live⟩ := Content.comment?_eq_some.mp hrow
  have hmem : m₁ ∈ (q.1.step c).comments := hmem
  rw [hstate] at hmem
  rcases Serial.mem_save.mp hmem with ⟨rfl, -⟩ | ⟨-, hother⟩
  · cases hm₁live
  · exact hother hid

/-! ## Runs

The accepted comment is there along a run exactly as long as no request misspells. -/

/-- **One call.** Accepted comments stay real exactly when it does not misspell one that it changes. -/
theorem acceptedReal_step {q : Db × (Id → String)} (hinv : AcceptedReal q) :
    AcceptedReal (Db.stepNoting q c) ↔ ¬ Misspells q.1 c := by
  constructor
  -- a misspelt identifier passes the comparison with the stored one, and the pointer stays
  · intro hreal hmisspells
    unfold Misspells at hmisspells
    split at hmisspells
    · next id dto hop =>
      obtain ⟨hne, m, hm, hreaches, hchanged⟩ := hmisspells
      exact not_acceptedReal_update hinv hop hne hm hreaches hchanged hreal
    · next id hop =>
      obtain ⟨hne, m, hm, hreaches⟩ := hmisspells
      exact not_acceptedReal_remove hop hne hm hreaches hreal
    · exact hmisspells
  -- otherwise the pointer is where the thread has it
  · intro hsafe i p k hp hk
    have hlive := post?_iff_live.mp hp
    obtain ⟨text, haccepts, hsame⟩ := accepted_step (thread_step q.1 c i) hsafe
      (fun p k hp hk => hinv i p k (post?_iff_live.mpr hp) hk) p k hlive hk
    have hpointer : (q.1.step c).acceptedComment i = some k := acceptedComment_eq_some.mpr ⟨p, hlive, hk⟩
    have hnoted : (Db.stepNoting q c).2 i = text := by
      by_cases hbefore : (q.1.step c).acceptedComment i = q.1.acceptedComment i
      · -- it was accepted before
        obtain ⟨p₀, hp₀, hk₀⟩ := acceptedComment_eq_some.mp (hbefore.symm.trans hpointer)
        rw [stepNoting_of_pointer hbefore, hsame p₀ hp₀ hk₀]
      · obtain ⟨m, hm, -, -, htext⟩ := haccepts.comment
        obtain ⟨hrow, -⟩ := thread_comment?_eq_some.mp hm
        show (if _ then _ else (q.1.step c).acceptedText i) = text
        rw [if_neg hbefore, Content.acceptedText, hpointer, Option.bind_some, hrow, ← htext]
        rfl
    rw [hnoted]
    exact haccepts

/-- The accepted comments are real in every state of a run, and say what they said when they were accepted,
exactly when no call of it changes or deletes one under an id with an upper-case letter. -/
theorem accepted_comments_real (calls : List Call) :
    Always Db.stepNoting AcceptedReal (Db.empty, fun _ => "") calls
      ↔ Meets Db.stepNoting (fun q c => ¬ Misspells q.1 c) (Db.empty, fun _ => "") calls :=
  always_iff_meets (fun _ _ _ hinv => acceptedReal_step hinv) fun _ _ _ hp => (by cases hp)

/-- Noting what was accepted changes nothing. -/
theorem run_stepNoting_fst (calls : List Call) (q : Db × (Id → String)) :
    (run Db.stepNoting q calls).1 = run Db.step q.1 calls := by
  induction calls generalizing q with
  | nil => rfl
  | cons c calls ih => exact ih _

namespace Sample

/-- Student `2` comments on the question `0`, and its asker accepts the comment. -/
def acceptComment : List Call :=
  [openForum, ask, call 2 (student 2) (.comments (.create (Id.text 0) { content := "Try K5 minus an edge." })),
    call 3 (student 1) (.discussions (.acceptAnswer (Id.text 0) (Id.text 0)))]

/-- Student `2` edits the comment `0`, with an upper-case letter in its id. -/
def shoutEdit : Call := call 4 (student 2) (.comments (.update ⟨0, 1⟩ { content := some "It is not planar." }))

end Sample

/-- The asker has accepted a comment, and its author turns it around. -/
theorem not_accepted_comments_real :
    ¬ ∀ calls : List Call, AcceptedReal (run Db.stepNoting (Db.empty, fun _ => "") calls) := by
  intro h
  have hreal := h (Sample.acceptComment ++ [Sample.shoutEdit])
  have hpost : ((run Db.stepNoting (Db.empty, fun _ => "")
      (Sample.acceptComment ++ [Sample.shoutEdit])).1.post? 0).bind (·.acceptedCommentId) = some 0 := by decide
  obtain ⟨p, hp, hk⟩ := Option.bind_eq_some_iff.mp hpost
  obtain ⟨m, hm, -, -, htext⟩ := (hreal 0 p 0 hp hk).comment
  have hsays : ((run Db.stepNoting (Db.empty, fun _ => "") (Sample.acceptComment
      ++ [Sample.shoutEdit])).1.comment? 0).map (·.content) = some "It is not planar." := by decide
  rw [(thread_comment?_eq_some.mp hm).1, Option.map_some, htext] at hsays
  exact absurd hsays (by decide)

end AcaSocial
