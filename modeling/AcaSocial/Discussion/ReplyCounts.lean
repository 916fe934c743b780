import AcaSocial.Discussion.AcademicRooms
import AcaSocial.Discussion.AcceptedComments
import AcaSocial.Discussion.CommentTrees

/-!
# The number of replies

Beside each comment, `findAllByDiscussion` shows how many replies it has. The number counts every row below the
comment. The list of the replies has the rows that are not deleted, or that have replies of their own.

* **`RepliesCounted`** — whoever is shown a number of replies is shown as many replies below.
* **`NoneHidden`** — every deleted reply has replies of its own.
* **`DeletesLeaf`** — the call deletes a reply that has none.

`replies_counted_iff` says that the calls of the last kind are what makes the numbers wrong.
-/

namespace AcaSocial

variable {w : World} {s s' : Db} {user : GatewayUser} {c : Call} {i k : Id}

open CommentsService

/-- Whoever is shown the number of replies of a comment is shown as many when they list them. -/
def RepliesCounted (s : Db) : Prop :=
  ∀ w d user filter result, findAllByDiscussion w s d filter user = .ok result → ∀ item ∈ result.data,
    ∀ below : FilterCommentDto, below.parentCommentId.map (·.id) = some item.id →
      ∃ replies, findAllByDiscussion w s d below user = .ok replies ∧ replies.totalItems = item.replyCount

/-- The comment has a reply, deleted or not. -/
def Content.HasReply (s : Content) (k : Id) : Prop := ∃ reply ∈ s.comments, reply.parentCommentId = some k

/-- A reply that is deleted has replies of its own, and so is still listed. -/
def Content.NoneHidden (s : Content) : Prop :=
  ∀ m ∈ s.comments, m.parentCommentId ≠ none → m.deletedAt = none ∨ s.HasReply m.id

/-- The call deletes a reply that has no replies itself: the reply and its post are there, the post is open, and the
user may delete the reply. -/
def Call.DeletesLeaf (c : Call) (s : Db) : Prop :=
  ∃ id m p, c.operation = .comments (.remove id) ∧ s.comment? id.id = some m
    ∧ s.post? m.discussionId = some p ∧ m.parentCommentId ≠ none ∧ ¬ s.HasReply m.id
    ∧ p.status ≠ .closed ∧ canManage m.authorId c.user

/-! ## Counting

The count that the source stores, and the number of the replies that are listed. -/

/-- The level below a comment has all its replies exactly when each of them is listed. -/
theorem level_length_iff (hrooted : s.Rooted) {sort : SortBy} {q : Comment} (hq : q ∈ s.comments) :
    (level s q.discussionId sort (some q.id)).length = replyCount s q.id
      ↔ ∀ m ∈ s.comments, m.parentCommentId = some q.id → m.deletedAt = none ∨ s.HasReply m.id := by
  have hlisted : s.comments.select (listed s q.discussionId (some q.id))
      = (s.comments.select fun m => decide (m.parentCommentId = some q.id)).filter
        fun m => decide (m.deletedAt = none ∨ 0 < replyCount s m.id) := by
    rw [Table.select, Table.select, List.filter_filter]
    refine List.filter_congr fun m hm => ?_
    rw [listed, ← Bool.decide_and, decide_eq_decide]
    constructor
    · rintro ⟨-, hparent, hshown⟩
      exact ⟨hshown, hparent⟩
    · rintro ⟨hshown, hparent⟩
      obtain ⟨q', hq', hid, hd, -⟩ := hrooted m hm q.id hparent
      obtain rfl : q' = q := Table.eq_of_key_eq hq' hq hid
      exact ⟨hd.symm, hparent, hshown⟩
  rw [level, List.length_mergeSort, hlisted, replyCount, List.length_filter_eq_length_iff]
  simp only [Table.mem_select, decide_eq_true_eq, replyCount_pos, and_imp]
  rfl

/-- The numbers are right while no reply is hidden. -/
theorem repliesCounted_of_noneHidden (hrooted : s.Rooted) (h : s.NoneHidden) : RepliesCounted s := by
  intro w d user filter result hresult item hitem below hbelow
  obtain ⟨p, hopens, rfl⟩ := findAllByDiscussion_eq_ok.mp hresult
  obtain ⟨_, m, _, _, _, _, hm, hd, rfl⟩ := mem_comments hresult hitem
  have hopens' : Opens s d below user p := by
    refine ⟨hopens.post, hopens.readable, hopens.visible, fun u hu => ?_⟩
    rw [Option.mem_def.mp hu] at hbelow
    exact ⟨m, hm, (Option.some.inj hbelow).symm, hd⟩
  refine ⟨_, findAllByDiscussion_eq_ok.mpr ⟨p, hopens', rfl⟩, ?_⟩
  show (level s d.id below.sort (below.parentCommentId.map (·.id))).length = replyCount s m.id
  rw [hbelow, ← hd]
  refine (level_length_iff hrooted hm).mpr fun reply hreply hparent => h reply hreply ?_
  rw [hparent]
  intro h
  cases h

/-! ## What calls keep

A reply that is deleted and has replies itself is listed as a tombstone. One without is not, and is counted all the
same. -/

namespace Thread

/-- Every deleted reply of the thread has replies in it. -/
def NoneHidden (t : Thread) : Prop :=
  ∀ m ∈ t.comments, m.parentCommentId ≠ none →
    m.deletedAt = none ∨ ∃ reply ∈ t.comments, reply.parentCommentId = some m.id

variable {t t' : Thread}

/-- What is hidden depends on the comments alone. -/
theorem NoneHidden.of_comments (h : t.NoneHidden) (hcomments : t'.comments = t.comments) : t'.NoneHidden := by
  rw [NoneHidden, hcomments]
  exact h

/-- A comment is saved with its parent, and is live as before or else no leaf of the thread. -/
theorem NoneHidden.saveComment {m m₀ : Comment} (h : t.NoneHidden) (hm : t.comment? k = some m₀)
    (hid : m.id = m₀.id) (hparent : m.parentCommentId = m₀.parentCommentId)
    (hshown : m.parentCommentId ≠ none →
      m.deletedAt = none ∨ ∃ reply ∈ t.comments, reply.parentCommentId = some m.id) :
    (t.saveComment m).NoneHidden := by
  have hm₀ : m₀ ∈ t.comments := (Table.get?_eq_some.mp (Option.filter_eq_some_iff.mp hm).1).1
  have hreply : ∀ j, (∃ reply ∈ t.comments, reply.parentCommentId = some j) →
      ∃ reply ∈ t.comments.save m, reply.parentCommentId = some j := by
    rintro j ⟨reply, hreply, hj⟩
    by_cases hsame : reply.id = m.id
    · obtain rfl : reply = m₀ := Table.eq_of_key_eq hreply hm₀ (hsame.trans hid)
      exact ⟨m, Table.mem_save_self hm₀ hid.symm, hparent.trans hj⟩
    · exact ⟨reply, Table.mem_save.mpr (.inr ⟨hreply, hsame⟩), hj⟩
  intro m₁ hm₁ hm₁parent
  rcases Table.mem_save.mp hm₁ with ⟨rfl, -⟩ | ⟨hm₁, -⟩
  · exact (hshown hm₁parent).imp_right (hreply m₁.id)
  · exact (h m₁ hm₁ hm₁parent).imp_right (hreply m₁.id)

/-- A comment is added that is not deleted. -/
theorem NoneHidden.insertComment {m : Comment} (h : t.NoneHidden) (hlive : m.deletedAt = none) :
    (t.insertComment m).NoneHidden := by
  intro m₁ hm₁ hm₁parent
  rcases Table.mem_insert.mp hm₁ with hm₁ | ⟨rfl, -⟩
  · refine (h m₁ hm₁ hm₁parent).imp_right ?_
    rintro ⟨reply, hreply, hj⟩
    exact ⟨reply, Table.mem_insert.mpr (.inl hreply), hj⟩
  · exact .inl hlive

end Thread

open Thread

/-- The replies of a comment are in its thread. -/
theorem hasReply_iff (hrooted : s.Rooted) {m : Comment} (hm : m ∈ s.comments) :
    s.HasReply m.id
      ↔ ∃ reply ∈ (s.thread m.discussionId).comments, reply.parentCommentId = some m.id := by
  constructor
  · rintro ⟨reply, hreply, hparent⟩
    obtain ⟨m', hm', hid, hd, -⟩ := hrooted reply hreply m.id hparent
    obtain rfl : m' = m := Table.eq_of_key_eq hm' hm hid
    exact ⟨reply, mem_thread_comments.mpr ⟨hreply, hd.symm⟩, hparent⟩
  · rintro ⟨reply, hreply, hparent⟩
    exact ⟨reply, (mem_thread_comments.mp hreply).1, hparent⟩

/-- Nothing is hidden when it is not in any thread. -/
theorem noneHidden_iff (hrooted : s.Rooted) : s.NoneHidden ↔ ∀ i, (s.thread i).NoneHidden := by
  constructor
  · intro h i m hm hparent
    obtain ⟨hmem, rfl⟩ := mem_thread_comments.mp hm
    exact (h m hmem hparent).imp_right (hasReply_iff hrooted hmem).mp
  · intro h m hm hparent
    refine (h m.discussionId m (mem_thread_comments.mpr ⟨hm, rfl⟩) hparent).imp_right ?_
    exact (hasReply_iff hrooted hm).mpr

/-- **One step** that deletes no leaf hides no reply. -/
theorem noneHidden_step {t' : Thread} (hrooted : s.Rooted) (hstep : ThreadStep s c i (s.thread i) t')
    (hleaf : ¬ c.DeletesLeaf s) (h : (s.thread i).NoneHidden) : t'.NoneHidden := by
  have hlive : ∀ {j m}, (s.thread i).comment? j = some m → m.deletedAt = none := fun hm => comment?_live hm
  cases hstep with
  | edited | reviewed | answerAccepted => exact h.of_comments (children_ite_revoke _ _ _ _).1
  | commentCreated => exact (h.insertComment rfl).of_comments rfl
  | @commentUpdated p m id dto _ _ hm =>
    have hdeleted : (CommentsService.edited m dto).deletedAt = none := (edited_deletedAt m dto).trans (hlive hm)
    refine h.saveComment hm (edited_id _ _) ?_ fun _ => .inl hdeleted
    unfold CommentsService.edited
    split <;> rfl
  | @acceptedCommentUpdated p m id dto _ _ hm =>
    have hdeleted : (CommentsService.edited m dto).deletedAt = none := (edited_deletedAt m dto).trans (hlive hm)
    refine (h.saveComment hm (edited_id _ _) ?_ fun _ => .inl hdeleted).of_comments rfl
    unfold CommentsService.edited
    split <;> rfl
  | @commentRemoved p m id hop hp hm hopen hmanage =>
    obtain ⟨hrow, hd⟩ := thread_comment?_eq_some.mp hm
    have hmem : m ∈ s.comments := (Content.comment?_eq_some.mp hrow).1
    have hid : m.id = id.id := (Content.comment?_eq_some.mp hrow).2.1
    have hsaved : ((s.thread i).saveComment { m with deletedAt := some c.world.now }).NoneHidden := by
      refine h.saveComment hm rfl rfl fun hparent => .inr ?_
      -- a reply that is deleted has replies, or else the call deletes a leaf
      by_contra hnone
      refine hleaf ⟨id, m, p, hop, hrow, post?_iff_live.mpr (hd ▸ hp), hparent, fun hreply => hnone ?_, hopen,
        hmanage⟩
      exact hd ▸ (hasReply_iff hrooted hmem).mp hreply
    exact hsaved.of_comments rfl
  | @commentVoted p m up down id v _ _ hm =>
    have hdeleted : m.deletedAt = none := hlive hm
    exact h.saveComment hm rfl rfl fun _ => .inl hdeleted
  | _ => exact h.of_comments rfl

/-- A call that deletes no such reply hides nothing. -/
theorem noneHidden_call (hrooted : s.Rooted) (h : s.NoneHidden) (hleaf : ¬ c.DeletesLeaf s) :
    (s.step c).NoneHidden :=
  (noneHidden_iff (rooted_call hrooted)).mpr fun i =>
    noneHidden_step hrooted (thread_step s c i) hleaf ((noneHidden_iff hrooted).mp h i)

/-! ## Rooms of posts

The room of a post stays, so that the post can be opened. -/

/-- The room of every post is there. -/
def Housed (s : Db) : Prop :=
  ∀ i p r, s.discussions.get? i = some p → p.roomId = some r → (s.room? r).isSome

/-- A room that is there stays there. -/
theorem RoomStep.room_isSome {r : Id} {t t' : Roll} (h : RoomStep c r t t') (hroom : t.room.isSome) :
    t'.room.isSome := by
  cases h with
  | same => exact hroom
  | created | described | policyUpdated => rfl
  | admitted | joined | membershipUpdated => exact hroom

/-- Rooms stay, and posts stay in their rooms. -/
theorem housed_call (h : Housed s) : Housed (s.step c) := by
  have hstays : ∀ r, (s.room? r).isSome → ((s.step c).room? r).isSome :=
    fun r hr => (room_step s c r).room_isSome hr
  intro i q r hq hr
  apply hstays
  by_cases hcreate : ∃ dto, c.operation = .discussions (.create dto)
  · obtain ⟨w, user, o⟩ := c
    obtain ⟨dto, rfl⟩ := hcreate
    rcases createPost_cases dto hq with hq | hnew
    · exact h i q r hq hr
    · obtain ⟨hroom, hthere⟩ := hnew.room
      obtain rfl := Option.some.inj (hr.symm.trans hroom)
      exact hthere
  · obtain ⟨p, hp, hsame⟩ := keptPost (keepsPosts fun dto hop => hcreate ⟨dto, hop⟩) hq
    exact h i p r hp ((congrArg Prod.fst hsame).symm.trans hr)

theorem housed_empty : Housed Db.empty := fun _ p _ hp => absurd hp.symm (Option.some_ne_none p)

/-- An administrator can list the comments of every post that is not deleted. -/
theorem opens_administrator (h : Housed s) {p : Discussion} (hp : s.post? i = some p)
    {filter : FilterCommentDto}
    (hparent : ∀ u ∈ filter.parentCommentId, ∃ m ∈ s.comments, m.id = u.id ∧ m.discussionId = i) :
    Opens s (Id.text i) filter Sample.administrator p := by
  refine ⟨hp, .inr (.inl rfl), requireVisible_eq_ok.mpr fun r hr => ?_, hparent⟩
  have hpost : s.discussions.get? i = some p := (Option.filter_eq_some_iff.mp hp).1
  obtain ⟨room, hroom⟩ := Option.isSome_iff_exists.mp (h i p r hpost hr)
  exact ⟨room, hroom, .inr (.inl rfl)⟩

/-! ## Runs

The two numbers agree along a run exactly as long as no reply without replies is deleted. -/

/-- A deleted leaf is counted to an administrator, and not listed. -/
theorem not_repliesCounted_of_leaf (hrooted : s.Rooted) (hhoused : Housed s) (hleaf : c.DeletesLeaf s) :
    ¬ RepliesCounted (s.step c) := by
  obtain ⟨id, m, p, hop, hm, hp, hparent, hnone, hopen, hmanage⟩ := hleaf
  obtain ⟨hmem, -, -⟩ := Content.comment?_eq_some.mp hm
  obtain ⟨j, hj⟩ := Option.ne_none_iff_exists'.mp hparent
  have hstate := removeComment_step hop hm hp hopen hmanage
  have hrooted' : (s.step c).Rooted := rooted_call hrooted
  have hhoused' : Housed (s.step c) := housed_call hhoused
  -- what is left of the reply, its parent and its post
  have hleft : { m with deletedAt := some c.world.now } ∈ (s.step c).comments := by
    rw [hstate]
    exact Serial.mem_save.mpr (.inl ⟨rfl, m, hmem, rfl⟩)
  have hnone' : ¬ (s.step c).HasReply m.id := by
    rintro ⟨reply, hreply, hreplyTo⟩
    rw [hstate] at hreply
    rcases Serial.mem_save.mp hreply with ⟨rfl, -⟩ | ⟨hreply, -⟩
    · exact hnone ⟨m, hmem, hreplyTo⟩
    · exact hnone ⟨reply, hreply, hreplyTo⟩
  obtain ⟨q, hq, rfl, hd, -⟩ := hrooted' _ hleft j hj
  obtain ⟨p', hp'⟩ : ∃ p', (s.step c).post? m.discussionId = some p' := by
    refine ⟨uncommented p id, ?_⟩
    rw [hstate]
    have hp₁ : (s.saveComment { m with deletedAt := some c.world.now }).post? m.discussionId = some p := hp
    refine Db.post?_savePost hp₁ (uncommented_id p id) ?_
    rw [uncommented_deletedAt]
    exact (post?_iff_live.mp hp).2
  intro hcounted
  -- the page of the parent
  have hlevel : q ∈ level (s.step c) m.discussionId .newest q.parentCommentId :=
    mem_level.mpr ⟨hq, CommentsService.listed_iff.mpr ⟨hd, rfl, .inr ⟨_, hleft, hj⟩⟩⟩
  obtain ⟨page, hpage⟩ := (exists_mem_pageOf Nat.one_pos).mpr hlevel
  have hspelled : (q.parentCommentId.map Id.text).map (·.id) = q.parentCommentId := by
    rw [Option.map_map]
    exact Option.map_id'
  have hopens : Opens (s.step c) (Id.text m.discussionId)
      { page := page + 1, limit := 1, parentCommentId := q.parentCommentId.map Id.text }
      Sample.administrator p' := by
    refine opens_administrator hhoused' hp' fun u hu => ?_
    obtain ⟨g, hg, rfl⟩ := Option.map_eq_some_iff.mp hu
    obtain ⟨q₀, hq₀, hid, hd₀, -⟩ := hrooted' q hq g hg
    exact ⟨q₀, hq₀, hid, hd₀.trans hd⟩
  rw [← hspelled] at hpage
  have hshown : ∃ item ∈ (CommentsService.page c.world (s.step c) (Id.text m.discussionId)
      { page := page + 1, limit := 1, parentCommentId := q.parentCommentId.map Id.text }
      Sample.administrator p').data, item.id = q.id ∧ item.replyCount = replyCount (s.step c) q.id :=
    exists_mem_page hpage
  obtain ⟨item, hitem, hid, hcount⟩ := hshown
  -- the list of its replies
  obtain ⟨replies, hreplies, htotal⟩ := hcounted c.world _ _ _ _
    (findAllByDiscussion_eq_ok.mpr ⟨p', hopens, rfl⟩) item hitem { parentCommentId := some (Id.text q.id) }
    (congrArg some hid.symm)
  obtain ⟨_, -, rfl⟩ := findAllByDiscussion_eq_ok.mp hreplies
  rw [hcount] at htotal
  have htotal : (level (s.step c) m.discussionId .newest (some q.id)).length = replyCount (s.step c) q.id := htotal
  rw [← hd] at htotal
  rcases (level_length_iff hrooted' hq).mp htotal _ hleft hj with hlive | hreply
  · cases hlive
  · exact hnone' hreply

/-- **The numbers of replies are right** in every state of a run exactly when no call of it deletes a reply that
has no replies. -/
theorem replies_counted_iff (calls : List Call) :
    Always Db.step RepliesCounted Db.empty calls ↔ Meets Db.step (fun s c => ¬ c.DeletesLeaf s) Db.empty calls := by
  constructor
  · intro hcounted
    have hkeep : ∀ (s : Db) (c : Call), s.Rooted ∧ Housed s → (s.step c).Rooted ∧ Housed (s.step c) :=
      fun s c h => ⟨rooted_call h.1, housed_call h.2⟩
    refine hcounted.meets_of_next hkeep (fun s c h hnext hleaf => ?_) ⟨rooted_empty, housed_empty⟩
    exact not_repliesCounted_of_leaf h.1 h.2 hleaf hnext
  · intro hmeets
    have hinv : Always Db.step (fun s => s.Rooted ∧ s.NoneHidden) Db.empty calls :=
      always_of_meets (fun c _ s h hleaf => ⟨rooted_call h.1, noneHidden_call h.1 h.2 hleaf⟩)
        ⟨rooted_empty, fun m hm => absurd hm (Table.not_mem_empty m)⟩ hmeets
    exact hinv.imp fun s h => repliesCounted_of_noneHidden h.1 h.2

/-! ## A deleted reply

The count after the deletion of the only reply. -/

namespace Sample

/-- Student `2` comments on the question `0`, student `3` replies, and deletes the reply. -/
def deletedReply : List Call := [
  openForum, join 2, join 3, ask,
  call 2 (student 2) (.comments (.create (Id.text 0) { content := "Which graph do you mean?" })),
  call 3 (student 3) (.comments (.create (Id.text 0)
    { content := "The one of the lecture.", parentCommentId := some (Id.text 0) })),
  call 4 (student 3) (.comments (.remove (Id.text 1)))]

end Sample

/-- One reply is counted, and none is listed. -/
theorem not_replies_counted_deletedReply : ¬ Always Db.step RepliesCounted Db.empty Sample.deletedReply := by
  intro h
  have hcounted : RepliesCounted (Db.after Sample.deletedReply) := h.last
  have hlist : (findAllByDiscussion (World.quiet 5) (Db.after Sample.deletedReply) (Id.text 0) {}
      (Sample.student 1)).map (fun result => result.data.map fun item => (item.id, item.replyCount))
        = .ok [(0, 1)] := by decide +kernel
  obtain ⟨result, hresult, hitems⟩ := map_eq_ok.mp hlist
  obtain ⟨item, hitem, he⟩ := List.mem_map.mp (hitems ▸ List.mem_singleton_self ((0, 1) : Id × Nat))
  obtain ⟨hid, hcount⟩ := Prod.mk.inj he
  obtain ⟨replies, hreplies, htotal⟩ := hcounted _ _ _ _ _ hresult item hitem
    { parentCommentId := some (Id.text 0) } (congrArg some hid.symm)
  have hnone : (findAllByDiscussion (World.quiet 5) (Db.after Sample.deletedReply) (Id.text 0)
      { parentCommentId := some (Id.text 0) } (Sample.student 1)).map (fun result => result.totalItems)
        = .ok 0 := by decide +kernel
  rw [hreplies] at hnone
  have hzero : replies.totalItems = 0 := Except.ok.inj hnone
  exact absurd (hzero.symm.trans (htotal.trans hcount)) (by decide)

end AcaSocial
