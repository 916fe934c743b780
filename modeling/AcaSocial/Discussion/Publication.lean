import AcaSocial.Discussion.ThreadRefinement

/-!
# Publication under approval

Where the author of a post has to wait for approval, what the post shows is what a moderator has
allowed.

* **`underApproval`** — the call, if it creates or edits the post, is evaluated with
  `requiresApproval`.
* **`Allows`** — the call is an `allow` of what the moderator has read.
* **`ReviewedStep`** — the post becomes visible, and changes while it is, by such a call only.
-/

namespace AcaSocial

open DiscussionsService

/-- The decision of the room, if it lets the post through, asks for approval. -/
def asksApproval : Except HttpError (Option PostContext) → Bool
  | .ok policy => requiresApproval policy
  | .error _ => true

/-- The call does not create or edit the post `i`, or the room asks for approval of it. -/
def underApproval (i : Id) (s : Db) (c : Call) : Bool :=
  match c.operation with
  | .discussions (.create dto) => decide (i ≠ s.discussions.next) || c.user.id.all fun author =>
      asksApproval (RoomsService.assertCanPostTo c.world
        (RoomsService.autoJoin s dto.roomId.id author) (some dto.roomId.id) c.user)
  | .discussions (.update id _) => decide (id.id ≠ i) || (s.post? i).all fun p =>
      asksApproval (RoomsService.assertCanPostTo c.world
        (RoomsService.autoJoinTo s p.roomId p.authorId) p.roomId ⟨some p.authorId, c.user.role⟩)
  | _ => true

/-- The call is a successful `allow` of the version of the post `i` that is there, and of the
content that `p'` shows. -/
def Allows (s : Db) (c : Call) (i : Id) (p' : Discussion) : Prop :=
  ∃ id dto p status, c.operation = .review id dto ∧ id.id = i ∧ dto.decision = .allow
    ∧ (serve s c).result = .ok (.review status) ∧ s.post? i = some p
    ∧ dto.expectedVersion = p.contentVersion ∧ dto.expectedContent = p'.content

/-- The call shows the post `i`, and changes what it shows, only by allowing it. The merging of
tags is left aside. -/
structure ReviewedStep (i : Id) (s : Db) (c : Call) : Prop where
  shown : ∀ p', (s.step c).discussions.get? i = some p' → p'.visibility = .visible →
    (∃ p, s.discussions.get? i = some p ∧ p.visibility = .visible) ∨ Allows s c i p'
  kept : ∀ p p', s.discussions.get? i = some p → p.visibility = .visible →
    (s.step c).discussions.get? i = some p' →
    (p'.title = p.title ∧ p'.content = p.content ∧ p'.isAnonymous = p.isAnonymous
      ∧ (s.step c).mediaOf i = s.mediaOf i
      ∧ (p.deletedAt = none → (∃ id target, c.operation = .tags (.merge id target))
        ∨ (s.step c).tagIdsOf i = s.tagIdsOf i))
    ∨ Allows s c i p'

/-! ## Steps of the thread

A post under approval is published by a review and by nothing else, and what a review publishes is the draft that it
looked at. -/

namespace Thread

/-- The call does not show the thread, nor change what it shows. -/
def Undisturbed (c : Call) (t t' : Thread) : Prop :=
  ∀ p', t'.post = some p' →
    (p'.visibility = .visible → ∃ p, t.post = some p ∧ p.visibility = .visible)
    ∧ ∀ p, t.post = some p → p.visibility = .visible →
      p'.title = p.title ∧ p'.content = p.content ∧ p'.isAnonymous = p.isAnonymous
      ∧ t'.media = t.media
      ∧ (p.deletedAt = none → (∃ id target, c.operation = .tags (.merge id target))
        ∨ t'.tagIds = t.tagIds)

namespace Undisturbed

variable {c : Call} {t t' : Thread} {p q : Discussion}

/-- The row of the post is saved with the same text. -/
theorem of_post (hp : t.Live p) (hq : t'.post = some q)
    (hshown : q.visibility = .visible → p.visibility = .visible)
    (htext : q.title = p.title ∧ q.content = p.content ∧ q.isAnonymous = p.isAnonymous)
    (hmedia : t'.media = t.media) (htags : t'.tagIds = t.tagIds) : Undisturbed c t t' := by
  intro p' hp'
  obtain rfl := Option.some.inj (hq.symm.trans hp')
  refine ⟨fun h => ⟨p, hp.1, hshown h⟩, fun p₀ hp₀ _ => ?_⟩
  obtain rfl := Option.some.inj (hp.1.symm.trans hp₀)
  exact ⟨htext.1, htext.2.1, htext.2.2, hmedia, fun _ => .inr htags⟩

/-- The row of the post and its media stay as they are. -/
theorem of_post_eq (hpost : t'.post = t.post) (hmedia : t'.media = t.media)
    (htags : ∀ p, t.Live p → (∃ id target, c.operation = .tags (.merge id target))
      ∨ t'.tagIds = t.tagIds) : Undisturbed c t t' := by
  intro p' hp'
  rw [hpost] at hp'
  refine ⟨fun h => ⟨p', hp', h⟩, fun p hp _ => ?_⟩
  obtain rfl := Option.some.inj (hp.symm.trans hp')
  exact ⟨rfl, rfl, rfl, hmedia, fun hlive => htags p ⟨hp, hlive⟩⟩

/-- The post is hidden before and after. -/
theorem of_hidden (hp : t.Live p) (hhidden : p.visibility ≠ .visible) (hq : t'.post = some q)
    (hq' : q.visibility ≠ .visible) : Undisturbed c t t' := by
  intro p' hp'
  obtain rfl := Option.some.inj (hq.symm.trans hp')
  refine ⟨fun h => absurd h hq', fun p₀ hp₀ h => ?_⟩
  obtain rfl := Option.some.inj (hp.1.symm.trans hp₀)
  exact absurd h hhidden

end Undisturbed

end Thread

/-- An edit that does not change what is looked at leaves it as it was. -/
theorem same_of_not_contentChanged {p : Discussion} {dto : UpdateDiscussionDto}
    (h : contentChanged p dto = false) :
    (edited dto p).title = p.title ∧ (edited dto p).content = p.content
      ∧ (edited dto p).isAnonymous = p.isAnonymous ∧ dto.tagIds = none ∧ dto.mediaIds = none := by
  simp only [contentChanged, decide_eq_false_iff_not, not_or, not_exists, not_and,
    Option.mem_def, ne_eq, not_not, Option.not_isSome_iff_eq_none] at h
  obtain ⟨htitle, hcontent, htags, hmedia, hanon, -⟩ := h
  refine ⟨?_, ?_, ?_, htags, hmedia⟩
  · cases ht : dto.title with
    | none => simp [edited, ht]
    | some x => simp [edited, ht, htitle x ht]
  · cases ht : dto.content with
    | none => simp [edited, ht]
    | some x => simp [edited, ht, hcontent x ht]
  · cases ht : dto.isAnonymous with
    | none => simp [edited, ht]
    | some x => simp [edited, ht, hanon x ht]

/-- An edit under approval that writes the post itself leaves a visible post as it was, and a
hidden one hidden. -/
theorem undisturbed_editedPost {c : Call} {t t' : Thread} {p : Discussion}
    {dto : UpdateDiscussionDto} {policy : Option PostContext} (hp : t.Live p)
    (hpolicy : requiresApproval policy) (hdrafts : drafts policy p dto = false)
    (hq : t'.post = some (editedPost dto policy p))
    (hmedia : dto.mediaIds = none → t'.media = t.media)
    (htags : dto.tagIds = none → t'.tagIds = t.tagIds) : t.Undisturbed c t' := by
  unfold editedPost at hq
  by_cases hchanged : contentChanged p dto
  · rw [if_pos hchanged] at hq
    have hhidden : p.visibility ≠ .visible := by
      simpa [drafts, hchanged, hpolicy] using hdrafts
    exact .of_hidden hp hhidden hq (by simp [unaccepted, newVersion, hpolicy])
  · rw [if_neg hchanged] at hq
    obtain ⟨htitle, hcontent, hanon, hnotags, hnomedia⟩ :=
      same_of_not_contentChanged (by simpa using hchanged)
    exact .of_post hp hq id ⟨htitle, hcontent, hanon⟩ (hmedia hnomedia) (htags hnotags)

/-- A decision other than `allow` leaves the text, and shows nothing that was hidden. -/
theorem reviewedPost_of_ne_allow {p : Discussion} {dto : ReviewContentDto}
    (h : dto.decision ≠ .allow) :
    ((ModerationService.reviewedPost p dto).visibility = .visible → p.visibility = .visible)
      ∧ (ModerationService.reviewedPost p dto).title = p.title
      ∧ (ModerationService.reviewedPost p dto).content = p.content
      ∧ (ModerationService.reviewedPost p dto).isAnonymous = p.isAnonymous := by
  have hdecided : ∀ draft, ModerationService.decided p draft dto.decision = p
      ∨ ModerationService.decided p draft dto.decision = { p with moderationStatus := .approved }
      ∨ ModerationService.decided p draft dto.decision
        = { p with moderationStatus := .hidden, visibility := .hidden } := by
    intro draft
    cases hd : dto.decision with
    | allow => exact absurd hd h
    | hold | hide =>
      cases draft with
      | none => exact .inr (.inr rfl)
      | some d =>
        simp only [ModerationService.decided]
        split
        · exact .inr (.inl rfl)
        · exact .inr (.inr rfl)
  unfold ModerationService.reviewedPost
  obtain hp | hp | hp := hdecided (ModerationService.draftOf p) <;> simp only [hp] <;> split <;>
    simp [ModerationService.unaccepted]

/-- A call under approval leaves what a thread shows alone, or it is an `allow`. -/
theorem undisturbed_or_allows {s : Db} {c : Call} {i : Id} {t' : Thread}
    (h : ThreadStep s c i (s.thread i) t') (hpolicy : underApproval i s c) :
    (s.thread i).Undisturbed c t' ∨ ∃ id dto p, c.operation = .review id dto ∧ id.id = i
      ∧ dto.decision = .allow ∧ s.post? i = some p ∧ dto.expectedVersion = p.contentVersion
      ∧ ∀ p', t'.post = some p' → dto.expectedContent = p'.content := by
  cases h with
  | same => exact .inl (.of_post_eq rfl rfl fun _ _ => .inr rfl)
  -- a post that waits for approval is not visible
  | @created dto author selected room tags hop huser hnew hroom =>
    have happroval : room.requiresApproval := by
      simpa [underApproval, hop, huser, hnew.1, RoomsService.assertCanPostTo, hroom, asksApproval,
        requiresApproval, Except.map] using hpolicy
    refine .inl fun p' hp' => ?_
    obtain rfl := Option.some.inj hp'
    refine ⟨fun hv => absurd hv (by simp [newPost, happroval]), fun p hp => ?_⟩
    rw [hnew.2] at hp
    cases hp
  -- an edit under approval that is not kept as a draft changes nothing
  | @edited p id dto policy editor tagIds hop hp _ _ hroom _ hdrafts htags =>
    have happroval : requiresApproval policy := by
      simpa [underApproval, hop, post?_iff_live.mpr hp, hroom, asksApproval] using hpolicy
    refine .inl (undisturbed_editedPost hp happroval hdrafts rfl ?_ ?_)
    · intro hnone
      rw [hnone]
      rfl
    · intro hnone
      obtain ⟨-, htags⟩ | ⟨_, _, hsome, -⟩ := htags
      · exact htags
      · rw [hnone] at hsome
        cases hsome
  | answerUpdated | commentUpdated | commentVoted | answerVoted =>
    exact .inl (.of_post_eq rfl rfl fun _ _ => .inr rfl)
  | viewed _ hp | drafted _ hp | removed _ hp | commentAccepted _ hp | acceptedCommentRemoved _ hp
  | statusSet _ hp | answerCreated _ hp | answerRemoved _ hp | commentCreated _ hp
  | postVoted _ hp | acceptedCommentUpdated _ hp | acceptedAnswerUpdated _ hp
  | acceptedAnswerRemoved _ hp | acceptanceRemoved _ hp =>
    exact .inl (.of_post hp rfl id ⟨rfl, rfl, rfl⟩ rfl rfl)
  | answerAccepted _ hp =>
    refine .inl (.of_post hp rfl id ⟨rfl, rfl, rfl⟩ ?_ ?_) <;> split <;> rfl
  | commentRemoved _ hp =>
    refine .inl (.of_post hp rfl ?_ ?_ rfl rfl) <;>
      unfold CommentsService.uncommented <;> split
    exacts [id, id, ⟨rfl, rfl, rfl⟩, ⟨rfl, rfl, rfl⟩]
  | @reviewed p id dto actor reason tagIds media hop hp _ hstate hkept =>
    -- any other decision at most hides the post
    by_cases hallow : dto.decision = .allow
    · refine .inr ⟨id, dto, p, hop.1, hop.2, hallow, post?_iff_live.mpr hp, hstate.2.1.symm,
        fun p' hp' => ?_⟩
      obtain rfl := Option.some.inj hp'
      rw [(ModerationService.reviewedPost_allowed p dto hallow).2.2.2, hstate.2.2]
    · obtain ⟨hshown, htext⟩ := reviewedPost_of_ne_allow hallow
      obtain ⟨rfl, rfl⟩ := hkept (.inl hallow)
      refine .inl (.of_post hp rfl hshown htext ?_ ?_) <;> split <;> rfl
  | tagMerged hop => exact .inl (.of_post_eq rfl rfl fun _ _ => .inl ⟨_, _, hop⟩)
  | tagRemoved _ hdead => exact .inl (.of_post_eq rfl rfl fun p hp => absurd hp (hdead p))

/-! ## Runs

The steps put together: as long as the room asks for approval, the visible text of a post is one that a moderator
allowed. -/

/-- A call under approval shows the post, and changes what it shows, only by allowing it. -/
theorem reviewedStep_of_underApproval {s : Db} {c : Call} {i : Id} (h : underApproval i s c) :
    ReviewedStep i s c := by
  have hsame : s.step c = s → ReviewedStep i s c := fun hs => by
    refine ⟨fun p' hp' hv => .inl ⟨p', hs ▸ hp', hv⟩, fun p p' hp _ hp' => .inl ?_⟩
    rw [hs] at hp' ⊢
    obtain rfl := Option.some.inj (hp.symm.trans hp')
    exact ⟨rfl, rfl, rfl, rfl, fun _ => .inr rfl⟩
  obtain hkept | ⟨id, dto, p, hop, hid, hallow, hp, hversion, hcontent⟩ :=
    undisturbed_or_allows (thread_step s c i) h
  · exact ⟨fun p' hp' hv => .inl ((hkept p' hp').1 hv),
      fun p p' hp hv hp' => .inl ((hkept p' hp').2 p hp hv)⟩
  · obtain ⟨w, user, o⟩ := c
    obtain rfl : o = .review id dto := hop
    cases hr : (ModerationService.review w s id dto user).result with
    | error e => exact hsame (commit_state_of_error hr)
    | ok status =>
      have hresult : (serve s ⟨w, user, .review id dto⟩).result = .ok (.review status) :=
        congrArg (Except.map Response.review) hr
      have hallows : ∀ p', (s.step ⟨w, user, .review id dto⟩).discussions.get? i = some p' →
          Allows s ⟨w, user, .review id dto⟩ i p' := fun p' hp' =>
        ⟨id, dto, p, status, rfl, hid, hallow, hresult, hp, hversion, hcontent p' hp'⟩
      exact ⟨fun p' hp' _ => .inr (hallows p' hp'), fun _ p' _ _ hp' => .inr (hallows p' hp')⟩

/-- In a run in which every creation and edit of a post is evaluated with `requiresApproval`, the
post is shown, and what it shows is changed, only by a moderator who allows what is published. -/
theorem reviewed_of_underApproval (i : Id) (calls : List Call)
    (h : Meets Db.step (fun s c => underApproval i s c) Db.empty calls) :
    Meets Db.step (ReviewedStep i) Db.empty calls :=
  h.imp fun _ _ => reviewedStep_of_underApproval

namespace Sample

/-- The first room, `0`, where posts wait for approval. -/
def moderatedForum : Call := call 0 (student 1) (.rooms (.create
  { slug := "nhom-hoc", name := "Nhóm học", roomType := .forum, reviewPolicy := some .approval }))

/-- Student `1` gives the post `0` a new text. -/
def rewrite (version : Nat) (content : String) : Call :=
  call 3 (student 1) (.discussions (.update (Id.text 0)
    { content := some content, expectedVersion := some version }))

/-- The administrator allows a version of the post `0`. -/
def allow (version : Nat) (content : String) : Call :=
  call 4 administrator (.review (Id.text 0)
    { decision := .allow, expectedVersion := version, expectedContent := content })

/-- A question waits, is allowed, and gets a draft that is allowed as well. -/
def moderated : List Call :=
  [moderatedForum, ask, allow 1 "I do not see a drawing without a crossing.",
    rewrite 1 "I do not see how to draw it in the plane.",
    allow 2 "I do not see how to draw it in the plane."]

end Sample

/-- A post in a moderated forum, rewritten, and allowed by a moderator as rewritten. -/
theorem reviewed_moderated : Meets Db.step (ReviewedStep 0) Db.empty Sample.moderated
    ∧ ((Db.after Sample.moderated).post? 0).any fun p => decide (p.visibility = .visible
      ∧ p.content = "I do not see how to draw it in the plane.") :=
  ⟨reviewed_of_underApproval 0 Sample.moderated (by decide), by decide⟩

end AcaSocial
