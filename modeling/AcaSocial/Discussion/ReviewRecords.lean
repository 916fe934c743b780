import AcaSocial.Discussion.Publication
import AcaSocial.Discussion.Registers
import AcaSocial.Discussion.Revisions

/-!
# What the records of reviews name

A review of a post records the version that it judged, and `discussion_revisions` what the post was at each
version. A rejected draft stays on its post with the version that it was given, and a later review, which judges
the published text, records that version too.

* **`Db.stepReviewing`** — a call, beside the content that each review was submitted with.
* **`ReviewsNamed`** — the version of every recorded review has the content that was submitted.
* **`ReviewsStale`** — the call is a review of published text while a rejected draft of another content waits.

`reviews_named` says that the last is all that can break the second.
-/

namespace AcaSocial

variable {w : World} {s s' t : Db} {user : GatewayUser} {c : Call} {i : Id}

/-! ## The records and what was submitted

Every review is kept beside the text that its moderator had before them, and names the version of the post or answer
that the decision was about. -/

/-- The content that the review of a call was submitted with. -/
def Call.expectedContent (c : Call) : String :=
  match c.operation with
  | .review _ dto => dto.expectedContent
  | _ => ""

/-- One call. The reviews that it records are noted with the content that they were submitted with. -/
def Db.stepReviewing (q : Db × List (ModerationReview × String)) (c : Call) :
    Db × List (ModerationReview × String) :=
  let s := q.1.step c
  (s, q.2 ++ (s.reviews.drop q.1.reviews.length).map fun r => (r, c.expectedContent))

/-- The noted reviews are those that are recorded, and the revision of the reviewed post with the version of the
record has the content that the review was submitted with. -/
structure ReviewsNamed (q : Db × List (ModerationReview × String)) : Prop where
  recorded : q.2.map Prod.fst = q.1.reviews
  named : ∀ r ∈ q.2, ∃ v, q.1.revisions.get? (r.1.entityId, r.1.contentVersion) = some v ∧ v.content = r.2

/-- The review of the post `p` passes the checks that come before what it decides. -/
structure Reviewable (s : Db) (c : Call) (dto : ReviewContentDto) (p : Discussion) : Prop where
  user : c.user.id.isSome
  scope : ∃ scope, ModerationService.scope c.world s c.user = .ok scope
    ∧ ∀ ids ∈ scope, ∃ r ∈ p.roomId, r ∈ ids
  note : dto.decision ≠ .allow → ModerationService.trimmedNote dto.note ≠ ""
  state : p.moderationStatus = dto.expectedModerationStatus.getD .pending
    ∧ p.contentVersion = dto.expectedVersion ∧ ModerationService.reviewedContent p = dto.expectedContent
  attachments : dto.decision = .allow →
    MediaReferenceService.validate c.world (ModerationService.attachments s p) none = .ok ()

/-- The call is a review of published text, while a draft that was rejected, of another content, waits. -/
def ReviewsStale (s : Db) (c : Call) : Prop :=
  match c.operation with
  | .review id dto => ∃ p d, s.post? id.id = some p ∧ Reviewable s c dto p ∧ p.moderationStatus ≠ .pending
      ∧ p.pendingRevision = some d ∧ d.content ≠ p.content
  | _ => False

/-- The row that a review of the post `p` records. -/
def reviewRow (p : Discussion) (dto : ReviewContentDto) (actor : Id) : ModerationReview :=
  ⟨p.id, p.contentVersion, dto.decision, ModerationService.trimmedNote dto.note, actor⟩

open ModerationService

/-- The rows that a review leaves, once what it decides is written. -/
theorem reviewTx_reviews {id : UuidText} {dto : ReviewContentDto} (actor : Id) {scope : Option (List Id)}
    {p : Discussion} (hp : s.post? id.id = some p) (hscope : ∀ ids ∈ scope, ∃ r ∈ p.roomId, r ∈ ids)
    (hstate : p.moderationStatus = dto.expectedModerationStatus.getD .pending
      ∧ p.contentVersion = dto.expectedVersion ∧ reviewedContent p = dto.expectedContent)
    (hpublish : publish w s p dto.decision = .ok t) : ∃ s', s'.reviews = s.reviews ++ [reviewRow p dto actor]
      ∧ reviewTx w s id dto actor scope = .ok (s', (reviewedPost p dto).moderationStatus) := by
  have hversion : (reviewedPost p dto).contentVersion = p.contentVersion :=
    congrArg Prod.fst (reviewedPost_version p dto)
  have hnote : (reviewedPost p dto).moderationNote = trimmedNote dto.note := rfl
  have hrevoked : (if revokes p dto.decision then t.revokeAcceptances p.id w.now actor (revokeReason p)
      else t).reviews = s.reviews := by
    have hsame : t.reviews = s.reviews := congrArg Prod.fst (publish_registers hpublish)
    rw [← hsame]
    split <;> rfl
  refine ⟨((if revokes p dto.decision then t.revokeAcceptances p.id w.now actor (revokeReason p)
    else t).savePost (reviewedPost p dto)).insertReview (reviewRow p dto actor), ?_, ?_⟩
  · show (if revokes p dto.decision then t.revokeAcceptances p.id w.now actor (revokeReason p)
      else t).reviews ++ [reviewRow p dto actor] = _
    rw [hrevoked]
  · simp only [reviewTx, lockPost_eq_ok.mpr hp, ok_bind, require_bind, if_pos hscope, if_pos hstate, hpublish,
      hversion, hnote]
    rfl

/-- **What a review records.** Nothing, or the version of the post that it judged. -/
theorem review_records {id : UuidText} {dto : ReviewContentDto} (hop : c.operation = .review id dto) :
    (s.step c).reviews = s.reviews ∨ ∃ p actor, s.post? id.id = some p ∧ Reviewable s c dto p
      ∧ (s.step c).reviews = s.reviews ++ [reviewRow p dto actor] := by
  obtain ⟨w, user, o⟩ := c
  obtain rfl : o = _ := hop
  refine commit_induction (P := fun s' : Db => s'.reviews = s.reviews ∨ ∃ p actor, s.post? id.id = some p
    ∧ Reviewable s ⟨w, user, .review id dto⟩ dto p ∧ s'.reviews = s.reviews ++ [reviewRow p dto actor])
    (.inl rfl) fun s' r h => ?_
  simp only [bind_eq_ok, authenticated_eq_ok, require_eq_ok] at h
  obtain ⟨actor, huser, scope, hscope, -, hnote, h⟩ := h
  have htx := h
  simp only [reviewTx, bind_eq_ok, lockPost_eq_ok, require_eq_ok] at h
  obtain ⟨p, hp, -, hroom, -, hstate, t, hpublish, -⟩ := h
  obtain ⟨s₁, hs₁, hok⟩ := reviewTx_reviews actor hp hroom hstate hpublish
  obtain ⟨rfl, -⟩ := Prod.mk.inj (Except.ok.inj (hok.symm.trans htx))
  refine .inr ⟨p, actor, hp, ⟨Option.isSome_of_eq_some huser, ⟨scope, hscope, hroom⟩, hnote, hstate, ?_⟩, hs₁⟩
  intro hallow
  rw [publish, if_pos hallow] at hpublish
  obtain ⟨u, hu, -⟩ := bind_eq_ok.mp hpublish
  exact hu

/-- A review that passes its checks, while no draft is pending, goes through. -/
theorem reviews_of_reviewable {id : UuidText} {dto : ReviewContentDto} {p : Discussion}
    (hop : c.operation = .review id dto) (hp : s.post? id.id = some p) (h : Reviewable s c dto p)
    (hdraft : draftOf p = none) : ∃ actor, (s.step c).reviews = s.reviews ++ [reviewRow p dto actor] := by
  obtain ⟨w, user, o⟩ := c
  obtain rfl : o = _ := hop
  obtain ⟨actor, huser⟩ := Option.isSome_iff_exists.mp h.user
  obtain ⟨scope, hscope, hroom⟩ := h.scope
  have hpublish : publish w s p dto.decision = .ok s := by
    unfold publish
    split
    · next hallow =>
      rw [h.attachments hallow, ok_bind, hdraft]
      rfl
    · rfl
  obtain ⟨s', hs', htx⟩ := reviewTx_reviews actor hp hroom h.state hpublish
  refine ⟨actor, ?_⟩
  show (review w s id dto user).state.reviews = _
  have hbody : (do
      let actor ← authenticated user
      let scope ← ModerationService.scope w s user
      require (dto.decision ≠ Decision.allow → trimmedNote dto.note ≠ "") (.badRequest "Vui lòng nhập lý do xử lý")
      reviewTx w s id dto actor scope) = .ok (s', (reviewedPost p dto).moderationStatus) := by
    rw [authenticated_eq_ok.mpr huser, ok_bind, hscope, ok_bind, require_bind, if_pos h.note, htx]
  exact (congrArg (fun s : Db => s.reviews) (commit_state_of_ok hbody)).trans hs'

/-- What a review judges is the latest text, unless a rejected draft waits. -/
theorem reviewedContent_eq_latest {p : Discussion} :
    reviewedContent p = p.latest.2
      ↔ ¬ (p.moderationStatus ≠ .pending ∧ ∃ d, p.pendingRevision = some d ∧ d.content ≠ p.content) := by
  unfold reviewedContent draftOf Discussion.latest
  cases p.pendingRevision with
  | none => simp
  | some d => by_cases hpending : p.moderationStatus = .pending <;> simp [hpending, eq_comm]

/-! ## Runs

A draft is numbered when it is submitted, so a review names the text that was shown unless a draft was rejected in
between. -/

section Step

variable {q : Db × List (ModerationReview × String)}

/-- A call that records no review notes none. -/
theorem stepReviewing_of_same (h : (q.1.step c).reviews = q.1.reviews) :
    Db.stepReviewing q c = (q.1.step c, q.2) := by
  unfold Db.stepReviewing
  simp only [h, List.drop_length, List.map_nil, List.append_nil]

/-- The review that a call records is noted with the content that it was submitted with. -/
theorem stepReviewing_of_recorded {r : ModerationReview} (h : (q.1.step c).reviews = q.1.reviews ++ [r]) :
    Db.stepReviewing q c = (q.1.step c, q.2 ++ [(r, c.expectedContent)]) := by
  unfold Db.stepReviewing
  simp only [h, List.drop_left, List.map_cons, List.map_nil]

/-- A review keeps the version that it names. -/
theorem ReviewsNamed.keep (h : ReviewsNamed q) {r : ModerationReview × String} (hr : r ∈ q.2) :
    ∃ v, (q.1.step c).revisions.get? (r.1.entityId, r.1.contentVersion) = some v ∧ v.content = r.2 := by
  obtain ⟨v, hv, hcontent⟩ := h.named r hr
  obtain ⟨v', hv', -, hsame⟩ := revision_step hv
  exact ⟨v', hv', hsame.trans hcontent⟩

/-- A call that writes no review keeps them all. -/
theorem ReviewsNamed.of_same (h : ReviewsNamed q) (hsame : (q.1.step c).reviews = q.1.reviews) :
    ReviewsNamed (Db.stepReviewing q c) := by
  rw [stepReviewing_of_same hsame]
  exact ⟨h.recorded.trans hsame.symm, fun r hr => h.keep hr⟩

/-- A review that is recorded is named exactly when what it judged is the latest text of the post. -/
theorem reviewsNamed_recorded (hlog : RevisionsComplete q.1) (h : ReviewsNamed q) {id : UuidText}
    {dto : ReviewContentDto} {p : Discussion} {actor : Id} (hop : c.operation = .review id dto)
    (hp : q.1.post? id.id = some p) (hreviewable : Reviewable q.1 c dto p)
    (hrecorded : (q.1.step c).reviews = q.1.reviews ++ [reviewRow p dto actor]) :
    ReviewsNamed (Db.stepReviewing q c) ↔ reviewedContent p = p.latest.2 := by
  have hexpected : c.expectedContent = reviewedContent p := by
    rw [Call.expectedContent, hop]
    exact hreviewable.state.2.2.symm
  obtain ⟨-, hid, -⟩ := Content.post?_eq_some.mp hp
  -- the version that was submitted is recorded, and a review keeps it
  obtain ⟨v, hv, -, hlatest⟩ := hlog.latest hp
  obtain ⟨v', hv', -, hsame⟩ := revision_step (c := c) hv
  rw [← hid] at hv'
  rw [stepReviewing_of_recorded hrecorded, hexpected]
  constructor
  -- the record names the version, so what was judged is its text
  · intro hnamed
    obtain ⟨u, hu, hcontent⟩ := hnamed.named (reviewRow p dto actor, reviewedContent p)
      (List.mem_append_right _ (List.mem_singleton_self _))
    obtain rfl := Option.some.inj (hv'.symm.trans hu)
    rw [← hlatest, ← hsame]
    exact hcontent.symm
  · intro hjudged
    refine ⟨?_, fun r hr => ?_⟩
    · show (q.2 ++ [(reviewRow p dto actor, reviewedContent p)]).map Prod.fst = (q.1.step c).reviews
      rw [List.map_append, h.recorded, hrecorded]
      rfl
    · rcases List.mem_append.mp hr with hr | hr
      · exact h.keep hr
      · obtain rfl := List.mem_singleton.mp hr
        exact ⟨v', hv', by rw [hjudged, hsame, hlatest]⟩

/-- **One call.** The records keep naming what was submitted exactly when it is no stale review. -/
theorem reviewsNamed_step (hlog : RevisionsComplete q.1) (h : ReviewsNamed q) :
    ReviewsNamed (Db.stepReviewing q c) ↔ ¬ ReviewsStale q.1 c := by
  by_cases hreview : ∃ id dto, c.operation = .review id dto
  · obtain ⟨id, dto, hop⟩ := hreview
    have hstale : ReviewsStale q.1 c ↔ ∃ p d, q.1.post? id.id = some p ∧ Reviewable q.1 c dto p
        ∧ p.moderationStatus ≠ .pending ∧ p.pendingRevision = some d ∧ d.content ≠ p.content := by
      rw [ReviewsStale, hop]
    rcases review_records (s := q.1) hop with hsame | ⟨p, actor, hp, hreviewable, hrecorded⟩
    · -- the review does not go through, so it is not stale: a stale one would
      refine iff_of_true (h.of_same hsame) fun hst => ?_
      obtain ⟨p, d, hp, hreviewable, hpending, -⟩ := hstale.mp hst
      obtain ⟨actor, hrecorded⟩ := reviews_of_reviewable hop hp hreviewable (if_neg hpending)
      rw [hsame] at hrecorded
      exact absurd hrecorded (by simp)
    · rw [reviewsNamed_recorded hlog h hop hp hreviewable hrecorded, reviewedContent_eq_latest, hstale]
      apply not_congr
      constructor
      · rintro ⟨hpending, d, hd, hcontent⟩
        exact ⟨p, d, hp, hreviewable, hpending, hd, hcontent⟩
      · rintro ⟨p', d, hp', -, hpending, hd, hcontent⟩
        obtain rfl := Option.some.inj (hp.symm.trans hp')
        exact ⟨hpending, d, hd, hcontent⟩
  · refine iff_of_true (h.of_same (reviews_step fun id dto hop => hreview ⟨id, dto, hop⟩)) fun hst => ?_
    unfold ReviewsStale at hst
    split at hst
    · next id dto hop => exact hreview ⟨id, dto, hop⟩
    · exact hst

end Step

/-- Every recorded review names, in every state of a run, the version with the content that it was submitted with,
exactly when no review of the run judges published text while a rejected draft of another content waits. -/
theorem reviews_named (calls : List Call) : Always Db.stepReviewing ReviewsNamed (Db.empty, []) calls
    ↔ Meets Db.stepReviewing (fun q c => ¬ ReviewsStale q.1 c) (Db.empty, []) calls := by
  have hempty : RevisionsComplete Db.empty := fun i => posts_logOf [] i
  refine always_iff_meets_of_invariant (Q := fun q => RevisionsComplete q.1) (d := fun _ _ => True)
    (fun c q hlog _ => hlog.step c) (fun c q hlog _ h => reviewsNamed_step hlog h) hempty
    ⟨rfl, fun r hr => (by cases hr)⟩ (.of_forall (fun _ _ => trivial) _ _)

namespace Sample

/-- The administrator decides about a version of the post `0`, in a state of moderation. -/
def reviewAs (status : ModerationStatus) (decision : Decision) (version : Nat) (content : String) : Call :=
  call 4 administrator (.review (Id.text 0)
    { expectedModerationStatus := some status, decision := decision, expectedVersion := version,
      expectedContent := content, note := some "Off topic." })

/-- A question is allowed; a draft of another text is rejected; then the question that is out is hidden. -/
def rejectedDraft : List Call :=
  [moderatedForum, ask, allow 1 "I do not see a drawing without a crossing.", rewrite 1 "Buy my graphs.",
    reviewAs .pending .hold 2 "Buy my graphs.",
    reviewAs .approved .hide 2 "I do not see a drawing without a crossing."]

end Sample

/-- The record of the second review names the draft that the first one rejected. -/
theorem not_reviews_named :
    ¬ ∀ calls : List Call, ReviewsNamed (run Db.stepReviewing (Db.empty, []) calls) := by
  intro h
  have hnamed := (h Sample.rejectedDraft).named
    (⟨0, 2, .hide, "Off topic.", 9⟩, "I do not see a drawing without a crossing.") (by decide)
  obtain ⟨v, hv, hcontent⟩ := hnamed
  have hrecorded : ((run Db.stepReviewing (Db.empty, []) Sample.rejectedDraft).1.revisions.get? (0, 2)).map
      (·.content) = some "Buy my graphs." := by decide
  rw [hv, Option.map_some, hcontent] at hrecorded
  exact absurd hrecorded (by decide)

end AcaSocial
