import AcaSocial.Base.Stamps
import AcaSocial.Discussion.Publication
import AcaSocial.Discussion.Revisions
import AcaSocial.Discussion.TitleSearch

/-!
# The queue of the moderators

`queue` lists the posts of a state of moderation, and a review names the state and the version of the entry that it is about.
Between the two, authors edit and other moderators review.

* **`ModerationService.queue`** — the method. The times of the last update and the texts of ids are parameters.
* **`Thread.proposal`** — title, content and media that an allowing review makes public.
* **`Discussion.stamp`** — it grows with the version and with the first decision about it.

`reviewed_as_shown` says that what is made public is what the queue has shown, whatever was done in between, and
`queue_complete` that the pages show every post of the moderator's rooms once.
-/

namespace AcaSocial

variable {w : World} {s s' : Db} {user : GatewayUser} {c : Call} {i : Id} {p q : Discussion} {t t' : Thread}

/-! ## The method

`ModerationService.pending` filters, orders and cuts the posts that a manager may see. -/

def ModerationStatus.parse (text : String) : Option ModerationStatus :=
  if text = "pending" then some .pending
  else if text = "approved" then some .approved
  else if text = "hidden" then some .hidden
  else none

structure QueueEntry where
  id : Id
  title : String
  content : String
  contentVersion : Nat
  createdAt : Time
  updatedAt : Time
  author : Option Profile
  authorId : Option Id
  isAnonymous : Bool
  roomId : Option Id
  roomName : String
  moderationStatus : ModerationStatus
  visibility : Visibility
  isRevision : Bool
  moderationNote : String
  media : List UuidText
  reviews : List ModerationReview
deriving DecidableEq

structure QueueCounts where
  pending : Nat
  approved : Nat
  hidden : Nat
deriving DecidableEq

def QueueCounts.of (counts : QueueCounts) : ModerationStatus → Nat
  | .pending => counts.pending
  | .approved => counts.approved
  | .hidden => counts.hidden

structure Queue where
  data : List QueueEntry
  counts : QueueCounts
  page : Nat
  totalItems : Nat
  totalPages : Nat
deriving DecidableEq

/-- The part of a request to the queue that selects posts. -/
structure QueueFilter where
  roomId : Option UuidText := none
  search : String := ""

namespace ModerationService

variable (idText : Id → String) (updatedAt : Id → Time)

/-- `search.trim().slice(0, 200)`. Half a surrogate pair is sent as `U+FFFD`. -/
def clipped (search : String) : String :=
  let text := Text.trim search.toList
  String.ofList ((Text.sliceUtf16 200 text).getD (((Text.sliceUtf16 199 text).getD []) ++ ['\uFFFD']))

/-- The condition of the query without the state of moderation. -/
def queued (w : World) (scope : Option (List Id)) (filter : QueueFilter) (post : Discussion) : Bool :=
  let matches? (text : String) := Text.ilike w.foldCase text ("%" ++ clipped filter.search ++ "%")
  post.deletedAt.isNone
    && scope.all (fun ids => post.roomId.any fun r => decide (r ∈ ids))
    && filter.roomId.all (fun r => decide (post.roomId = some r.id))
    && (decide (Text.trim filter.search.toList = []) || matches? post.title
      || post.pendingRevision.any (fun d => matches? d.title) || matches? (idText post.authorId))

/-- `ORDER BY updated_at, id`, with the last update first unless the posts are pending. -/
def queueLe (status : ModerationStatus) (a b : Discussion) : Bool :=
  decide ((if status = .pending then updatedAt a.id < updatedAt b.id else updatedAt b.id < updatedAt a.id)
    ∨ (updatedAt a.id = updatedAt b.id ∧ a.id ≤ b.id))

def queueRows (w : World) (s : Db) (scope : Option (List Id)) (filter : QueueFilter) (status : ModerationStatus) :
    List Discussion :=
  (s.discussions.select fun post => queued idText w scope filter post && decide (post.moderationStatus = status)).mergeSort
    (queueLe updatedAt status)

def queueEntry (s : Db) (post : Discussion) (presented : DiscussionView) : QueueEntry where
  id := post.id
  title := ((draftOf post).map (·.title)).getD post.title
  content := reviewedContent post
  contentVersion := post.contentVersion
  createdAt := post.createdAt
  updatedAt := updatedAt post.id
  author := presented.author
  authorId := if post.isAnonymous then none else some post.authorId
  isAnonymous := post.isAnonymous
  roomId := post.roomId
  roomName := ((post.roomId.bind s.room?).map (·.name)).getD "Room cũ"
  moderationStatus := post.moderationStatus
  visibility := post.visibility
  isRevision := (draftOf post).isSome
  moderationNote := post.moderationNote
  media := attachments s post
  reviews := s.reviews.reverse.filter fun r => decide (r.entityId = post.id)

/-- A page, with the counts of the whole query. -/
def queuePage (w : World) (s : Db) (user : GatewayUser) (scope : Option (List Id)) (filter : QueueFilter)
    (status : ModerationStatus) (page : Nat) : Queue :=
  let count := fun state =>
    (s.discussions.select fun post => queued idText w scope filter post && decide (post.moderationStatus = state)).length
  let rows := queueRows idText updatedAt w s scope filter status
  let posts := pageOf page 30 rows
  { data := List.zipWith (queueEntry updatedAt s) posts (ContentPresenter.discussions w s user posts)
    counts := ⟨count .pending, count .approved, count .hidden⟩
    page
    totalItems := rows.length
    totalPages := totalPages rows.length 30 }

/-- The text of the status is checked after the scope. -/
def queue (w : World) (s : Db) (user : GatewayUser) (status : String) (page : Nat) (filter : QueueFilter) :
    Except HttpError Queue := do
  let scope ← scope w s user
  let status ← orThrow (ModerationStatus.parse status) (.badRequest "Invalid status")
  return queuePage idText updatedAt w s user scope filter status page

end ModerationService

open ModerationService DiscussionsService

/-! ## What a review makes public

A review publishes the post as it is or its draft, and refuses when either has changed since. -/

/-- Title, content and media, in the draft if one is reviewed. -/
def Thread.proposal (t : Thread) (p : Discussion) : String × String × List Id :=
  match ModerationService.draftOf p with
  | some d => (d.title, d.content, d.mediaIds.map (·.id))
  | none => (p.title, p.content, t.media.map (·.mediaId))

/-- Of two versions the later has the greater stamp, and of one version the state after a decision. -/
def Discussion.stamp (p : Discussion) : Nat := 2 * p.contentVersion + if p.moderationStatus = .pending then 0 else 1

/-- The post of a thread, with the thread. -/
def Content.row (s : Content) (i : Id) : Option (Thread × Discussion) := (s.thread i).post.map fun p => (s.thread i, p)

/-- What a step makes of a post. -/
def Thread.PostLater (t : Thread) (p : Discussion) (t' : Thread) (q : Discussion) : Prop :=
  Later (fun r : Thread × Discussion => r.2.stamp) (fun r => r.1.proposal r.2) (t, p) (t', q)

/-- A later version of a post that has the same version has the same texts. -/
theorem Thread.PostLater.of_columns (hversion : q.contentVersion = p.contentVersion)
    (hstatus : q.moderationStatus = p.moderationStatus) (htitle : q.title = p.title) (hcontent : q.content = p.content)
    (hdraft : q.pendingRevision = p.pendingRevision) (hmedia : t'.media = t.media) : t.PostLater p t' q := by
  refine .inr ⟨?_, ?_⟩
  · show p.stamp = q.stamp
    rw [Discussion.stamp, Discussion.stamp, hversion, hstatus]
  · show t.proposal p = t'.proposal q
    rw [Thread.proposal, Thread.proposal, ModerationService.draftOf, ModerationService.draftOf, hstatus, hdraft, htitle,
      hcontent, hmedia]

/-- The version has grown. -/
theorem Thread.PostLater.of_version (hversion : q.contentVersion = p.contentVersion + 1) : t.PostLater p t' q := by
  refine .inl ?_
  show p.stamp < q.stamp
  rw [Discussion.stamp, Discussion.stamp, hversion]
  split <;> split <;> omega

/-- After a decision a post is no longer pending, and has the version that it had. -/
theorem reviewedPost_decided (p : Discussion) (dto : ReviewContentDto) :
    (reviewedPost p dto).moderationStatus ≠ .pending ∧ (reviewedPost p dto).contentVersion = p.contentVersion := by
  have hdecided : ∀ draft, (decided p draft dto.decision).moderationStatus ≠ .pending
      ∧ (decided p draft dto.decision).contentVersion = p.contentVersion := by
    intro draft
    refine ⟨?_, ?_⟩
    · cases dto.decision <;> cases draft <;> simp only [decided] <;> (try split) <;> simp
    · cases dto.decision <;> cases draft <;> simp only [decided] <;> split <;> rfl
  unfold reviewedPost
  dsimp only
  split
  · exact hdecided _
  · exact hdecided _

/-- **One step.** A post stays, and has other contents for the moderators under a greater stamp only. -/
theorem ThreadStep.postLater (h : ThreadStep s c i t t') (hp : t.post = some p) :
    ∃ q, t'.post = some q ∧ t.PostLater p t' q := by
  have hlive : ∀ {p'}, t.Live p' → p' = p := fun hp' => Option.some.inj (hp'.1.symm.trans hp)
  cases h with
  | same | answerUpdated | commentUpdated | answerVoted | commentVoted | tagMerged | tagRemoved =>
    exact ⟨p, hp, .of_columns rfl rfl rfl rfl rfl rfl⟩
  | created hop huser hnew => cases hnew.2.symm.trans hp
  | drafted hop hp' =>
    obtain rfl := hlive hp'
    exact ⟨_, rfl, .of_version rfl⟩
  -- a changed text has a new version, and so a greater stamp
  | @edited p' id dto policy editor tagIds hop hp' =>
    obtain rfl := hlive hp'
    refine ⟨_, rfl, ?_⟩
    cases hchanged : contentChanged p' dto with
    | true =>
      refine .of_version ?_
      rw [editedPost, if_pos hchanged]
      rfl
    | false =>
      have hsame : editedPost dto policy p' = p' := by
        rw [editedPost, if_neg (by rw [hchanged]; exact Bool.false_ne_true), edited_eq_self hchanged]
      rw [hsame, (named_of_not_contentChanged hchanged).2]
      exact .of_columns rfl rfl rfl rfl rfl rfl
  | @reviewed p' id dto actor reason tagIds media hop hp' huser hstate hkept hdraft =>
    obtain rfl := hlive hp'
    refine ⟨_, rfl, ?_⟩
    obtain ⟨hdecided, hversion⟩ := reviewedPost_decided p' dto
    -- a decision ends the waiting, which the stamp counts
    by_cases hpending : p'.moderationStatus = .pending
    · refine .inl ?_
      show p'.stamp < (reviewedPost p' dto).stamp
      rw [Discussion.stamp, Discussion.stamp, hversion, if_pos hpending, if_neg hdecided]
      omega
    · -- a decision about published text
      have hnone : ModerationService.draftOf p' = none := if_neg hpending
      have hnone' : ModerationService.draftOf (reviewedPost p' dto) = none := if_neg hdecided
      obtain ⟨htitle, hcontent⟩ := reviewedPost_kept p' dto fun _ => hnone
      refine .inr ⟨?_, ?_⟩
      · show p'.stamp = (reviewedPost p' dto).stamp
        rw [Discussion.stamp, Discussion.stamp, hversion, if_neg hpending, if_neg hdecided]
      · show t.proposal p' = Thread.proposal _ (reviewedPost p' dto)
        rw [Thread.proposal, Thread.proposal, hnone, hnone', htitle, hcontent]
        show (p'.title, p'.content, t.media.map (·.mediaId)) = (p'.title, p'.content, media.map (·.mediaId))
        rw [(hkept (.inr hnone)).2]
  | commentRemoved hop hp' =>
    obtain rfl := hlive hp'
    refine ⟨_, rfl, ?_⟩
    unfold CommentsService.uncommented
    split <;> exact .of_columns rfl rfl rfl rfl rfl rfl
  | answerAccepted hop hp' =>
    obtain rfl := hlive hp'
    refine ⟨_, rfl, .of_columns rfl rfl rfl rfl rfl ?_⟩
    dsimp only [Thread.savePost, Thread.insertAcceptance]
    split <;> rfl
  -- columns that the queue does not show
  | viewed _ hp' | removed _ hp' | commentAccepted _ hp' | acceptedCommentRemoved _ hp' | statusSet _ hp'
  | acceptanceRemoved _ hp' | postVoted _ hp' | acceptedAnswerUpdated _ hp' | acceptedCommentUpdated _ hp'
  | answerCreated _ hp' | commentCreated _ hp' | answerRemoved _ hp' | acceptedAnswerRemoved _ hp' =>
    obtain rfl := hlive hp'
    exact ⟨_, rfl, .of_columns rfl rfl rfl rfl rfl rfl⟩

/-- **A run.** -/
theorem row_later {a : Thread × Discussion} (ha : s.row i = some a) (calls : List Call) :
    ∃ b, (run Db.step s calls).row i = some b ∧ a.1.PostLater a.2 b.1 b.2 := by
  have hstep : ∀ (s : Db) (c : Call) a, s.row i = some a →
      ∃ b, (s.step c).row i = some b ∧ a.1.PostLater a.2 b.1 b.2 := by
    intro s c a ha
    obtain ⟨p, hp, rfl⟩ := Option.map_eq_some_iff.mp ha
    obtain ⟨q, hq, hlater⟩ := (thread_step s c i).postLater hp
    exact ⟨_, Option.map_eq_some_iff.mpr ⟨q, hq, rfl⟩, hlater⟩
  exact Later.of_run hstep ha calls

/-! ## What the queue has shown

What a manager has seen in the queue is what a review publishes, if it names the version and the text. -/

namespace ModerationService

variable {idText : Id → String} {updatedAt : Id → Time} {text : String} {page : Nat} {filter : QueueFilter} {shown : Queue}

/-- What a request has checked, and what it answers. -/
theorem queue_eq_ok : queue idText updatedAt w s user text page filter = .ok shown ↔ ∃ ids status,
    scope w s user = .ok ids ∧ ModerationStatus.parse text = some status
      ∧ queuePage idText updatedAt w s user ids filter status page = shown := by
  simp only [queue, bind_eq_ok, orThrow_eq_ok, pure_eq_ok]
  constructor
  · rintro ⟨ids, hscope, status, hstatus, h⟩
    exact ⟨ids, status, hscope, hstatus, h⟩
  · rintro ⟨ids, status, hscope, hstatus, h⟩
    exact ⟨ids, hscope, status, hstatus, h⟩

/-- An entry is about a row, with what the presenter makes of this row. -/
theorem entries_eq (posts : List Discussion) :
    List.zipWith (queueEntry updatedAt s) posts (ContentPresenter.discussions w s user posts)
      = posts.map fun p => queueEntry updatedAt s p
          (ContentPresenter.discussionView s (ContentPresenter.profiles w (posts.map (·.item))) user p) := by
  rw [ContentPresenter.discussions, List.zipWith_map_right, List.zipWith_self]

/-- The entries are those of the posts, in their order. -/
theorem ids_entries (posts : List Discussion) :
    (List.zipWith (queueEntry updatedAt s) posts (ContentPresenter.discussions w s user posts)).map (·.id)
      = posts.map (·.id) := by
  rw [entries_eq, List.map_map]
  rfl

/-- The rows of the queue. -/
theorem mem_queueRows {ids : Option (List Id)} {status : ModerationStatus} :
    p ∈ queueRows idText updatedAt w s ids filter status ↔
      p ∈ s.discussions.rows ∧ queued idText w ids filter p = true ∧ p.moderationStatus = status := by
  rw [queueRows, (List.mergeSort_perm _ _).mem_iff, Table.select, List.mem_filter, Bool.and_eq_true, decide_eq_true_iff]

/-- An entry shows what the thread of its post proposes. -/
theorem shown_of_mem (hshown : queue idText updatedAt w s user text page filter = .ok shown) {e : QueueEntry}
    (he : e ∈ shown.data) : ∃ p, s.post? e.id = some p ∧ e.contentVersion = p.contentVersion
      ∧ e.moderationStatus = p.moderationStatus
      ∧ (e.title, e.content, e.media.map (·.id)) = (s.thread e.id).proposal p := by
  obtain ⟨ids, status, -, -, rfl⟩ := queue_eq_ok.mp hshown
  rw [queuePage, entries_eq] at he
  obtain ⟨p, hp, rfl⟩ := List.mem_map.mp he
  obtain ⟨hrow, hqueued, -⟩ := mem_queueRows.mp (mem_of_mem_pageOf hp)
  have hlive : p.deletedAt = none := by
    rw [queued] at hqueued
    simp only [Bool.and_eq_true, Option.isNone_iff_eq_none] at hqueued
    exact hqueued.1.1.1
  refine ⟨p, Content.post?_eq_some.mpr ⟨hrow, rfl, hlive⟩, rfl, rfl, ?_⟩
  show (((draftOf p).map (·.title)).getD p.title, reviewedContent p, (attachments s p).map (·.id))
    = (s.thread p.id).proposal p
  rw [Thread.proposal, reviewedContent, attachments]
  cases draftOf p with
  | some d => rfl
  | none =>
    show (p.title, p.content, ((s.mediaOf p.id).map fun a => Id.text a.mediaId).map (·.id))
      = (p.title, p.content, (s.mediaOf p.id).map (·.mediaId))
    rw [List.map_map]
    rfl

end ModerationService

/-- The links of a post are those that were named. -/
theorem attached_mediaIds (ids : List UuidText) : (attached i ids).map (·.mediaId) = ids.map (·.id) := by
  rw [attached, List.map_map]
  exact (List.map_map (f := Prod.fst) (g := UuidText.id)).symm.trans (congrArg _ (List.zipIdx_map_fst 0 ids))

/-- A review whose transaction goes through. -/
theorem review_of_tx {id : UuidText} {dto : ReviewContentDto} {r : ModerationStatus} {actor : Id}
    {ids : Option (List Id)} (hactor : authenticated user = .ok actor) (hscope : scope w s user = .ok ids)
    (hnote : dto.decision ≠ .allow → trimmedNote dto.note ≠ "") (htx : reviewTx w s id dto actor ids = .ok (s', r)) :
    review w s id dto user = ⟨s', .ok r⟩ := by
  rw [review, hactor, ok_bind, hscope, ok_bind, require_bind, if_pos hnote, htx, commit_ok]

/-- No other review is answered. -/
theorem tx_of_review {id : UuidText} {dto : ReviewContentDto} {r : ModerationStatus}
    (h : (review w s id dto user).result = .ok r) : ∃ actor ids, scope w s user = .ok ids
      ∧ reviewTx w s id dto actor ids = .ok ((review w s id dto user).state, r) := by
  cases hactor : authenticated user with
  | error e => rw [review, hactor] at h; cases h
  | ok actor =>
    cases hscope : scope w s user with
    | error e => rw [review, hactor, ok_bind, hscope] at h; cases h
    | ok ids =>
      by_cases hnote : dto.decision ≠ .allow → trimmedNote dto.note ≠ ""
      · cases htx : reviewTx w s id dto actor ids with
        | error e => rw [review, hactor, ok_bind, hscope, ok_bind, require_bind, if_pos hnote, htx] at h; cases h
        | ok a =>
          rw [review_of_tx hactor hscope hnote htx] at h ⊢
          exact ⟨actor, ids, rfl, htx.trans (congrArg _ (Prod.ext rfl (Except.ok.inj h)))⟩
      · rw [review, hactor, ok_bind, hscope, ok_bind, require_bind, if_neg hnote] at h
        cases h

/-- **What an accepted review makes public** is what it has found. -/
theorem review_allowed {id : UuidText} {dto : ReviewContentDto} {r : ModerationStatus} (hallow : dto.decision = .allow)
    (h : (review w s id dto user).result = .ok r) : ∃ p q, s.post? id.id = some p
      ∧ p.moderationStatus = dto.expectedModerationStatus.getD .pending ∧ p.contentVersion = dto.expectedVersion
      ∧ (review w s id dto user).state.post? id.id = some q ∧ q.visibility = .visible ∧ q.moderationStatus = .approved
      ∧ (q.title, q.content, ((review w s id dto user).state.mediaOf id.id).map (·.mediaId))
        = (s.thread id.id).proposal p := by
  obtain ⟨actor, ids, -, hbody⟩ := tx_of_review h
  generalize (review w s id dto user).state = s' at hbody ⊢
  obtain ⟨p, -, tagIds, media, hp, hstate, -, -, hkept, hdraft, hthread⟩ := reviewTx_thread hbody
  obtain ⟨hvisible, happroved, htitle, hcontent⟩ := reviewedPost_allowed p dto hallow
  have hthread := hthread id.id
  rw [if_pos rfl] at hthread
  have hdeleted : (reviewedPost p dto).deletedAt = none := by
    rw [reviewedPost_deletedAt]
    exact (Content.post?_eq_some.mp hp).2.2
  have hq : s'.post? id.id = some (reviewedPost p dto) := by
    rw [post?_iff_live, hthread]
    exact ⟨rfl, hdeleted⟩
  refine ⟨p, _, hp, hstate.1, hstate.2.1, hq, hvisible, happroved, ?_⟩
  have hmedia : (s'.mediaOf id.id) = media := congrArg Thread.media hthread
  rw [hmedia, htitle, hcontent, reviewedContent, Thread.proposal]
  -- what is proposed is the draft, if there is one
  cases hd : draftOf p with
  | some d =>
    obtain ⟨rfl, -⟩ := hdraft d hallow hd
    show (d.title, d.content, (attached id.id d.mediaIds).map (·.mediaId)) = (d.title, d.content, d.mediaIds.map (·.id))
    rw [attached_mediaIds]
  | none =>
    rw [(hkept (.inr hd)).2]
    rfl

/-- **What the queue has shown is what becomes public.** A moderator has read an entry of the queue, and calls are served
after that. A review that names the version and the state of the entry, and allows it, either fails or makes the title,
the content and the media of the entry public. -/
theorem reviewed_as_shown {idText : Id → String} {updatedAt : Id → Time} {text : String} {page : Nat}
    {filter : QueueFilter} {shown : Queue} {e : QueueEntry}
    (hshown : ModerationService.queue idText updatedAt w s user text page filter = .ok shown) (he : e ∈ shown.data)
    (calls : List Call) {w' : World} {reviewer : GatewayUser} {id : UuidText} {dto : ReviewContentDto}
    {r : ModerationStatus} (hreview : (review w' (run Db.step s calls) id dto reviewer).result = .ok r)
    (hid : id.id = e.id) (hversion : dto.expectedVersion = e.contentVersion)
    (hstatus : dto.expectedModerationStatus.getD .pending = e.moderationStatus) (hallow : dto.decision = .allow) :
    ∃ q, (review w' (run Db.step s calls) id dto reviewer).state.post? e.id = some q
      ∧ q.visibility = .visible ∧ q.moderationStatus = .approved ∧ q.title = e.title ∧ q.content = e.content
      ∧ ((review w' (run Db.step s calls) id dto reviewer).state.mediaOf e.id).map (·.mediaId) = e.media.map (·.id) := by
  obtain ⟨p, hp, hpversion, hpstatus, hproposal⟩ := shown_of_mem hshown he
  obtain ⟨p', q, hp', hp'status, hp'version, hq, hvisible, happroved, hpublic⟩ := review_allowed hallow hreview
  rw [hid] at hp' hq hpublic
  -- the row that the review finds comes after the row of the entry
  have hrow : s.row e.id = some (s.thread e.id, p) := Option.map_eq_some_iff.mpr ⟨p, (post?_iff_live.mp hp).1, rfl⟩
  obtain ⟨b, hb, hlater⟩ := row_later hrow calls
  have hrow' : (run Db.step s calls).row e.id = some ((run Db.step s calls).thread e.id, p') :=
    Option.map_eq_some_iff.mpr ⟨p', (post?_iff_live.mp hp').1, rfl⟩
  obtain rfl := Option.some.inj (hrow'.symm.trans hb)
  have hstamp : p.stamp = p'.stamp := by
    rw [Discussion.stamp, Discussion.stamp, hp'version, hversion, hpversion, hp'status, hstatus, hpstatus]
  have hsame : (s.thread e.id).proposal p = ((run Db.step s calls).thread e.id).proposal p' := hlater.value_eq hstamp
  have hall := hpublic.trans (hsame.symm.trans hproposal.symm)
  simp only [Prod.mk.injEq] at hall
  exact ⟨q, hq, hvisible, happroved, hall⟩

namespace Sample

/-- The question `0` waits for a decision. -/
def waiting : Db := Db.after [moderatedForum, ask]

theorem waiting_shown : ModerationService.queue (fun _ => "") id (World.quiet 3) waiting administrator "pending" 1 {}
    = .ok (queuePage (fun _ => "") id (World.quiet 3) waiting administrator none {} .pending 1) :=
  queue_eq_ok.mpr ⟨none, .pending, rfl, rfl, rfl⟩

/-- A decision about the question `0`. -/
def decides (decision : Decision) : ReviewContentDto where
  decision
  expectedVersion := 1
  expectedContent := "I do not see a drawing without a crossing."
  note := some "It is about lectures."

/-- Student `2` asks as well. -/
def asksToo : Call := call 3 (student 2) (.discussions (.create
  { roomId := Id.text 0, title := "Is every tree planar?", content := "I think that it is.", postType := .question }))

end Sample

/-- A query that finds one post has one entry. -/
theorem mem_data_of_select {idText : Id → String} {updatedAt : Id → Time} {filter : QueueFilter} {ids : Option (List Id)}
    {status : ModerationStatus} (h : (s.discussions.select fun post =>
      queued idText w ids filter post && decide (post.moderationStatus = status)) = [p]) :
    ∃ e ∈ (queuePage idText updatedAt w s user ids filter status 1).data, e.id = p.id := by
  have hrows : queueRows idText updatedAt w s ids filter status = [p] := by
    rw [queueRows, h, List.mergeSort_singleton]
  rw [queuePage, hrows, entries_eq]
  exact ⟨_, List.mem_singleton_self _, rfl⟩

theorem reviewed_as_shown_waiting : ∃ shown e q,
    ModerationService.queue (fun _ => "") id (World.quiet 3) Sample.waiting Sample.administrator "pending" 1 {} = .ok shown
    ∧ e ∈ shown.data ∧ (review (World.quiet 4) (run Db.step Sample.waiting [Sample.asksToo]) (Id.text 0)
      (Sample.decides .allow) Sample.administrator).state.post? e.id = some q
    ∧ q.visibility = .visible ∧ q.title = e.title ∧ q.content = e.content := by
  obtain ⟨p, hp⟩ : ∃ p, Sample.waiting.post? 0 = some p := Option.isSome_iff_exists.mp (by decide)
  have hcolumns : ∀ p ∈ Sample.waiting.post? 0, p.id = 0 ∧ p.contentVersion = 1 ∧ p.moderationStatus = .pending := by decide
  obtain ⟨hpid, hpversion, hpstatus⟩ := hcolumns p hp
  have hselect : (Sample.waiting.discussions.select fun post =>
      queued (fun _ => "") (World.quiet 3) none {} post && decide (post.moderationStatus = .pending)) = [p] := by
    have hone : (Sample.waiting.discussions.select fun post =>
        queued (fun _ => "") (World.quiet 3) none {} post && decide (post.moderationStatus = .pending))
          = (Sample.waiting.post? 0).toList := by decide
    rw [hone, hp]
    rfl
  -- the entry of the only post that waits
  have hentry : ∃ e ∈ (queuePage (fun _ => "") id (World.quiet 3) Sample.waiting Sample.administrator none {} .pending
      1).data, e.id = p.id := mem_data_of_select hselect
  obtain ⟨e, he, hid⟩ := hentry
  obtain ⟨p', hp', heversion, hestatus, -⟩ := shown_of_mem Sample.waiting_shown he
  obtain rfl : p = p' := by
    rw [hid, hpid, hp] at hp'
    exact Option.some.inj hp'
  have hreview : (review (World.quiet 4) (run Db.step Sample.waiting [Sample.asksToo]) (Id.text 0)
      (Sample.decides .allow) Sample.administrator).result = .ok .approved := by decide
  obtain ⟨q, hq, hvisible, -, htitle, hcontent, -⟩ := reviewed_as_shown Sample.waiting_shown he [Sample.asksToo] hreview
    (hid.trans hpid).symm (heversion.trans hpversion).symm (hestatus.trans hpstatus).symm rfl
  exact ⟨_, e, q, Sample.waiting_shown, he, hq, hvisible, htitle, hcontent⟩

/-! ## All pages of the queue

Every post that waits is on a page of the queue of each manager who may see it. -/

namespace ModerationService

variable {idText : Id → String} {updatedAt : Id → Time} {text : String} {page : Nat} {filter : QueueFilter} {shown : Queue}

/-- The entries of the first pages, page after page. -/
def entries (idText : Id → String) (updatedAt : Id → Time) (w : World) (s : Db) (user : GatewayUser) (text : String)
    (filter : QueueFilter) (pages : Nat) : List QueueEntry :=
  (List.range pages).flatMap fun page =>
    ((queue idText updatedAt w s user text (page + 1) filter).toOption.map (·.data)).getD []

/-- The pages have the rows of the query, one after the other. -/
theorem ids_entries_eq {ids : Option (List Id)} {status : ModerationStatus} (hscope : scope w s user = .ok ids)
    (hstatus : ModerationStatus.parse text = some status)
    (hshown : queue idText updatedAt w s user text page filter = .ok shown) :
    (entries idText updatedAt w s user text filter shown.totalPages).map (fun e => (e.id, e.updatedAt))
      = (queueRows idText updatedAt w s ids filter status).map fun p => (p.id, updatedAt p.id) := by
  have hpage : ∀ page, (((queue idText updatedAt w s user text (page + 1) filter).toOption.map (·.data)).getD []).map
      (fun e => (e.id, e.updatedAt))
      = (pageOf (page + 1) 30 (queueRows idText updatedAt w s ids filter status)).map fun p => (p.id, updatedAt p.id) := by
    intro page
    have hqueue : queue idText updatedAt w s user text (page + 1) filter
        = .ok (queuePage idText updatedAt w s user ids filter status (page + 1)) :=
      queue_eq_ok.mpr ⟨ids, status, hscope, hstatus, rfl⟩
    rw [hqueue]
    show (List.zipWith (queueEntry updatedAt s) _ (ContentPresenter.discussions w s user _)).map _ = _
    rw [entries_eq, List.map_map]
    rfl
  have htotal : shown.totalPages = totalPages (queueRows idText updatedAt w s ids filter status).length 30 := by
    obtain ⟨ids', status', hscope', hstatus', rfl⟩ := queue_eq_ok.mp hshown
    obtain rfl := Except.ok.inj (hscope.symm.trans hscope')
    obtain rfl := Option.some.inj (hstatus.symm.trans hstatus')
    rfl
  rw [entries, List.map_flatMap, List.flatMap_congr fun page _ => hpage page, ← List.map_flatMap,
    flatMap_pageOf, htotal]
  exact congrArg _ (List.take_of_length_le (le_totalPages_mul (by omega) _))

/-- The status is read from its name. -/
theorem parse_pending {status : ModerationStatus} (h : ModerationStatus.parse text = some status) :
    status = .pending ↔ text = "pending" := by
  rw [ModerationStatus.parse] at h
  by_cases hpending : text = "pending"
  · rw [if_pos hpending] at h
    exact iff_of_true (Option.some.inj h).symm hpending
  · rw [if_neg hpending] at h
    refine iff_of_false (fun hstatus => ?_) hpending
    subst hstatus
    split at h
    · cases h
    · split at h <;> cases h

/-- The oldest post comes first while posts wait, and the newest one otherwise. -/
theorem queueLe_iff {status : ModerationStatus} {a b : Discussion} : queueLe updatedAt status a b = true ↔
    (if status = .pending then updatedAt a.id < updatedAt b.id else updatedAt b.id < updatedAt a.id)
      ∨ (updatedAt a.id = updatedAt b.id ∧ a.id ≤ b.id) := by
  rw [queueLe, decide_eq_true_iff]

/-- The order is by two numbers, up or down by the first. -/
theorem queueLe_trans {status : ModerationStatus} {a b c : Discussion} (hab : queueLe updatedAt status a b = true)
    (hbc : queueLe updatedAt status b c = true) : queueLe updatedAt status a c = true := by
  have hup : ∀ x y z i j k : Nat, (x < y ∨ x = y ∧ i ≤ j) → (y < z ∨ y = z ∧ j ≤ k) → x < z ∨ x = z ∧ i ≤ k := by omega
  have hdown : ∀ x y z i j k : Nat, (y < x ∨ x = y ∧ i ≤ j) → (z < y ∨ y = z ∧ j ≤ k) → z < x ∨ x = z ∧ i ≤ k := by omega
  rw [queueLe_iff] at hab hbc ⊢
  by_cases hpending : status = .pending
  · rw [if_pos hpending] at hab hbc ⊢
    exact hup _ _ _ _ _ _ hab hbc
  · rw [if_neg hpending] at hab hbc ⊢
    exact hdown _ _ _ _ _ _ hab hbc

/-- Two posts are always in order, one way or the other. -/
theorem queueLe_total (status : ModerationStatus) (a b : Discussion) :
    (queueLe updatedAt status a b || queueLe updatedAt status b a) = true := by
  have hup : ∀ x y i j : Nat, (x < y ∨ x = y ∧ i ≤ j) ∨ (y < x ∨ y = x ∧ j ≤ i) := by omega
  have hdown : ∀ x y i j : Nat, (y < x ∨ x = y ∧ i ≤ j) ∨ (x < y ∨ y = x ∧ j ≤ i) := by omega
  rw [Bool.or_eq_true, queueLe_iff, queueLe_iff]
  by_cases hpending : status = .pending
  · rw [if_pos hpending, if_pos hpending]
    exact hup _ _ _ _
  · rw [if_neg hpending, if_neg hpending]
    exact hdown _ _ _ _

/-- The rows of the queue are in order. -/
theorem queueRows_pairwise {ids : Option (List Id)} {status : ModerationStatus} :
    (queueRows idText updatedAt w s ids filter status).Pairwise fun a b => queueLe updatedAt status a b = true :=
  List.pairwise_mergeSort (fun a b c hab hbc => queueLe_trans (a := a) (b := b) (c := c) hab hbc) (queueLe_total status) _

/-- The last update first, unless the posts are pending. -/
theorem updatedAt_le {status : ModerationStatus} {a b : Discussion} (hab : queueLe updatedAt status a b = true) :
    if status = .pending then updatedAt a.id ≤ updatedAt b.id else updatedAt b.id ≤ updatedAt a.id := by
  rw [queueLe_iff] at hab
  by_cases hpending : status = .pending
  · rw [if_pos hpending] at hab ⊢
    exact hab.elim Nat.le_of_lt fun h => Nat.le_of_eq h.1
  · rw [if_neg hpending] at hab ⊢
    exact hab.elim Nat.le_of_lt fun h => Nat.le_of_eq h.1.symm

/-- A review that rejects a post goes through when it names the post as it is. -/
theorem reject_eq_ok {ids : Option (List Id)} {id : UuidText} {dto : ReviewContentDto} {actor : Id}
    (hreject : dto.decision ≠ .allow) :
    (∃ s' r, reviewTx w s id dto actor ids = .ok (s', r)) ↔ ∃ p, s.post? id.id = some p
      ∧ (∀ rooms ∈ ids, ∃ r ∈ p.roomId, r ∈ rooms) ∧ p.moderationStatus = dto.expectedModerationStatus.getD .pending
      ∧ p.contentVersion = dto.expectedVersion ∧ reviewedContent p = dto.expectedContent := by
  have hpublish : ∀ p, publish w s p dto.decision = .ok s := fun p => if_neg hreject
  simp only [reviewTx, bind_eq_ok, lockPost_eq_ok, require_eq_ok, hpublish, ok_bind, pure_eq_ok]
  constructor
  · rintro ⟨s', r, p, hp, -, hscope, -, hstate, -⟩
    exact ⟨p, hp, hscope, hstate⟩
  · rintro ⟨p, hp, hscope, hstate⟩
    exact ⟨_, _, p, hp, (), hscope, (), hstate, rfl⟩

/-- The condition of the query without a room and a text to look for. -/
theorem queued_all {ids : Option (List Id)} {p : Discussion} :
    queued idText w ids {} p = true ↔ p.deletedAt = none ∧ ∀ rooms ∈ ids, ∃ r ∈ p.roomId, r ∈ rooms := by
  have hempty : Text.trim ({} : QueueFilter).search.toList = [] := rfl
  simp only [queued, hempty, decide_true, Bool.true_or, Bool.and_true, Option.all_none, Bool.and_eq_true,
    Option.isNone_iff_eq_none, Option.all_eq_true, Option.any_eq_true, decide_eq_true_iff]
  rfl

end ModerationService

/-- **The queue is what the moderator decides about.** All pages of a queue together have each post once that a review by
the same moderator can reject in this state of moderation, and no others; the last update orders them. -/
theorem queue_complete {idText : Id → String} {updatedAt : Id → Time} {text : String} {page : Nat} {shown : Queue}
    (hshown : ModerationService.queue idText updatedAt w s user text page {} = .ok shown) :
    let all := ModerationService.entries idText updatedAt w s user text {} shown.totalPages
    (all.map (·.id)).Nodup ∧ all.length = shown.totalItems
      ∧ (all.Pairwise fun a b => if text = "pending" then a.updatedAt ≤ b.updatedAt else b.updatedAt ≤ a.updatedAt)
      ∧ ∀ i, i ∈ all.map (·.id) ↔ ∃ dto r, dto.decision ≠ .allow
          ∧ ModerationStatus.parse text = some (dto.expectedModerationStatus.getD .pending)
          ∧ (review w s (Id.text i) dto user).result = .ok r := by
  intro all
  obtain ⟨ids, status, hscope, hstatus, hvalue⟩ := queue_eq_ok.mp hshown
  have hall : all.map (fun e => (e.id, e.updatedAt))
      = (queueRows idText updatedAt w s ids {} status).map fun p => (p.id, updatedAt p.id) :=
    ids_entries_eq hscope hstatus hshown
  have hids : all.map (·.id) = (queueRows idText updatedAt w s ids {} status).map (·.id) := by
    have hfst := congrArg (List.map Prod.fst) hall
    rwa [List.map_map, List.map_map] at hfst
  have hmem : ∀ i, i ∈ all.map (·.id) ↔ ∃ p, s.post? i = some p ∧ (∀ rooms ∈ ids, ∃ r ∈ p.roomId, r ∈ rooms)
      ∧ p.moderationStatus = status := by
    intro i
    rw [hids]
    simp only [List.mem_map, mem_queueRows, queued_all]
    constructor
    · rintro ⟨p, ⟨hrow, ⟨hlive, hrooms⟩, hpstatus⟩, hid⟩
      exact ⟨p, Content.post?_eq_some.mpr ⟨hrow, hid, hlive⟩, hrooms, hpstatus⟩
    · rintro ⟨p, hp, hrooms, hpstatus⟩
      obtain ⟨hrow, hid, hlive⟩ := Content.post?_eq_some.mp hp
      exact ⟨p, ⟨hrow, ⟨hlive, hrooms⟩, hpstatus⟩, hid⟩
  refine ⟨?_, ?_, ?_, fun i => (hmem i).trans ⟨?_, ?_⟩⟩
  · rw [hids]
    have hrows : ((s.discussions.select fun p => queued idText w ids {} p && decide (p.moderationStatus = status)).map
        (·.id)).Nodup := s.discussions.nodup.sublist (List.filter_sublist.map _)
    exact ((List.mergeSort_perm _ _).map _).nodup_iff.mpr hrows
  · have hlength := congrArg List.length hall
    rw [List.length_map, List.length_map] at hlength
    rw [hlength, ← hvalue]
    rfl
  · have hpairs : ((queueRows idText updatedAt w s ids {} status).map fun p => (p.id, updatedAt p.id)).Pairwise fun a b =>
        if text = "pending" then a.2 ≤ b.2 else b.2 ≤ a.2 := by
      rw [List.pairwise_map]
      refine queueRows_pairwise.imp fun {a b} hab => ?_
      have hle := updatedAt_le hab
      simp only [parse_pending hstatus] at hle
      exact hle
    rw [← hall, List.pairwise_map] at hpairs
    exact hpairs
  · rintro ⟨p, hp, hrooms, hpstatus⟩
    -- the review names the post as it is
    have hactor : ∃ actor, authenticated user = .ok actor := by
      rw [scope] at hscope
      obtain ⟨actor, hactor, -⟩ := bind_eq_ok.mp hscope
      exact ⟨actor, hactor⟩
    obtain ⟨actor, hactor⟩ := hactor
    have hnote : trimmedNote (some "No") ≠ "" := by decide
    obtain ⟨dto, hdecision, hdtostatus, hversion, hcontent, hnote⟩ : ∃ dto : ReviewContentDto, dto.decision = .hide
        ∧ dto.expectedModerationStatus = some status ∧ dto.expectedVersion = p.contentVersion
        ∧ dto.expectedContent = reviewedContent p ∧ trimmedNote dto.note ≠ "" :=
      ⟨{ expectedModerationStatus := some status, decision := .hide, expectedVersion := p.contentVersion
         expectedContent := reviewedContent p, note := some "No" }, rfl, rfl, rfl, rfl, hnote⟩
    have hreject : dto.decision ≠ .allow := by
      rw [hdecision]
      decide
    have htx : ∃ s' r, reviewTx w s (Id.text i) dto actor ids = .ok (s', r) :=
      (reject_eq_ok hreject).mpr
        ⟨p, hp, hrooms, by rw [hdtostatus]; exact hpstatus, hversion.symm, hcontent.symm⟩
    obtain ⟨s', r, htx⟩ := htx
    refine ⟨dto, r, hreject, ?_, ?_⟩
    · rw [hdtostatus]
      exact hstatus
    · rw [review_of_tx hactor hscope (fun _ => hnote) htx]
  · rintro ⟨dto, r, hreject, hdto, hreview⟩
    obtain ⟨actor, ids', hscope', htx⟩ := tx_of_review hreview
    obtain rfl := Except.ok.inj (hscope.symm.trans hscope')
    obtain ⟨p, hp, hrooms, hpstatus, -⟩ := (reject_eq_ok hreject).mp ⟨_, r, htx⟩
    exact ⟨p, hp, hrooms, hpstatus.trans (Option.some.inj (hdto.symm.trans hstatus))⟩

theorem queue_complete_waiting : ∃ shown,
    ModerationService.queue (fun _ => "") id (World.quiet 3) Sample.waiting Sample.administrator "pending" 1 {} = .ok shown
    ∧ (ModerationService.entries (fun _ => "") id (World.quiet 3) Sample.waiting Sample.administrator "pending" {}
        shown.totalPages).length = shown.totalItems
    ∧ 0 ∈ (ModerationService.entries (fun _ => "") id (World.quiet 3) Sample.waiting Sample.administrator "pending" {}
        shown.totalPages).map (·.id) := by
  obtain ⟨-, hlength, -, hmem⟩ := queue_complete Sample.waiting_shown
  refine ⟨_, Sample.waiting_shown, hlength, (hmem 0).mpr ⟨Sample.decides .hide, .hidden, ?_, rfl, ?_⟩⟩
  · decide
  · decide

end AcaSocial
