import AcaSocial.Discussion.ThreadRefinement

/-!
# What is checked of attachments

A file is attached to a post, or named in its draft, only after the media service has answered for it.

* **`World.vouches`** — the answer that `MediaReferenceService` asks for.
* **`Checked`** — every file that the call names has such an answer. A call that is not checked does nothing.
* **`Thread.attaches`**, **`Thread.names`** — the files of a live post, and those of its draft as the author spells them.

`attaches_step` and `names_step` say where each of them comes from.
-/

namespace AcaSocial

open DiscussionsService ModerationService

variable {w : World} {s s' : Db} {c : Call} {i m : Id} {u : UuidText} {p : Discussion} {t t' : Thread}

/-- The media service has a clean file under this id. -/
def World.vouches (w : World) (u : UuidText) : Prop :=
  ∃ asset, w.media u = .ok asset ∧ asset.scanStatus = some "clean"

/-- What the reference check lets through, the media service has vouched for, file by file. -/
theorem vouches_of_validate {ids : List UuidText} {ownerId : Option Id}
    (h : MediaReferenceService.validate w ids ownerId = .ok ()) : ∀ u ∈ ids, w.vouches u := by
  induction ids with
  | nil => exact fun _ hu => absurd hu List.not_mem_nil
  | cons id ids ih =>
    unfold MediaReferenceService.validate at h
    rw [List.forM_eq_forM, List.forM_cons] at h
    obtain ⟨_, hfirst, hrest⟩ := bind_eq_ok.mp h
    have hhead : w.vouches id := by
      cases hmedia : w.media id with
      | ok asset =>
        rw [hmedia] at hfirst
        simp only [ok_bind, bind_eq_ok, require_eq_ok] at hfirst
        exact ⟨asset, hmedia, hfirst.choose_spec.1⟩
      | unreachable | notFound | failed =>
        rw [hmedia] at hfirst
        cases hfirst
    intro u hu
    rcases List.mem_cons.mp hu with rfl | hu
    · exact hhead
    · exact ih hrest u hu

/-- The media service has answered for the files that the call names, and for those that an allowed review publishes. -/
def Checked (s : Db) (c : Call) : Prop :=
  match c.operation with
  | .discussions (.create dto) => ∀ u ∈ dto.mediaIds.getD [], c.world.vouches u
  | .discussions (.update _ dto) => ∀ u ∈ dto.mediaIds.getD [], c.world.vouches u
  | .review id dto => dto.decision = .allow → ∀ p, s.post? id.id = some p → ∀ u ∈ attachments s p, c.world.vouches u
  | _ => True

/-- **The checks.** A call that is not checked leaves everything as it is. -/
theorem checked_or_same (s : Db) (c : Call) : Checked s c ∨ s.step c = s := by
  obtain ⟨w, user, o⟩ := c
  cases o with
  | discussions o =>
    cases o with
    | create dto =>
      show Checked s ⟨w, user, .discussions (.create dto)⟩ ∨ (create w s user dto).state = s
      -- the files are checked before anything is written
      refine attempt_induction (P := fun s' => Checked s ⟨w, user, .discussions (.create dto)⟩ ∨ s' = s) (.inr rfl)
        fun prelude hprelude => .inl ?_
      simp only [createPrelude, bind_eq_ok] at hprelude
      obtain ⟨author, -, _, hvalid, -⟩ := hprelude
      exact vouches_of_validate hvalid
    | update id dto =>
      show Checked s ⟨w, user, .discussions (.update id dto)⟩ ∨ (update w s id user dto).state = s
      refine attempt_induction (P := fun s' => Checked s ⟨w, user, .discussions (.update id dto)⟩ ∨ s' = s) (.inr rfl)
        fun prelude hprelude => .inl ?_
      simp only [updatePrelude, bind_eq_ok] at hprelude
      obtain ⟨editor, -, _, hvalid, -⟩ := hprelude
      exact vouches_of_validate hvalid
    | _ => exact .inl trivial
  | review id dto =>
    show Checked s ⟨w, user, .review id dto⟩ ∨ (review w s id dto user).state = s
    refine commit_induction (P := fun s' => Checked s ⟨w, user, .review id dto⟩ ∨ s' = s) (.inr rfl)
      fun s' r hbody => .inl ?_
    simp only [bind_eq_ok, reviewTx, lockPost_eq_ok] at hbody
    obtain ⟨-, -, -, -, -, -, p, hp, -, -, -, -, t, hpublish, -⟩ := hbody
    -- a review that publishes a draft asks again for the files of the draft
    intro hallow q hq
    obtain rfl : p = q := Option.some.inj (hp.symm.trans hq)
    rw [publish, if_pos hallow] at hpublish
    obtain ⟨_, hvalid, -⟩ := bind_eq_ok.mp hpublish
    exact vouches_of_validate hvalid
  | _ => exact .inl trivial

/-! ## Attachments and drafts

The files of a post come from two places: the rows of `discussion_media`, and a draft that waits for review. -/

/-- The file is attached to the post, which is live. -/
def Thread.attaches (t : Thread) (m : Id) : Prop := (∃ p, t.Live p) ∧ ∃ a ∈ t.media, a.mediaId = m

/-- The draft of the post, which is live, names the file. -/
def Thread.names (t : Thread) (u : UuidText) : Prop := ∃ p d, t.Live p ∧ p.pendingRevision = some d ∧ u ∈ d.mediaIds

/-- A row that `attached` makes is for one of the identifiers of the request. -/
theorem mem_attached {ids : List UuidText} {a : DiscussionMedia} (ha : a ∈ attached i ids) : ∃ u ∈ ids, u.id = a.mediaId := by
  obtain ⟨⟨u, k⟩, hu, rfl⟩ := List.mem_map.mp ha
  exact ⟨u, (List.mem_zipIdx' hu).2 ▸ List.getElem_mem _, rfl⟩

/-- A review takes a draft away or leaves it. -/
theorem reviewedPost_pendingRevision (p : Discussion) (dto : ReviewContentDto) :
    (reviewedPost p dto).pendingRevision = none ∨ (reviewedPost p dto).pendingRevision = p.pendingRevision := by
  have hdecided : ∀ draft, (decided p draft dto.decision).pendingRevision = none
      ∨ (decided p draft dto.decision).pendingRevision = p.pendingRevision := by
    intro draft
    cases hd : dto.decision <;> cases draft
    case allow.some d => exact .inl rfl
    all_goals
      refine .inr ?_
      simp only [decided]
      try (split <;> rfl)
  unfold reviewedPost
  dsimp only
  split
  · exact hdecided _
  · exact hdecided _

/-- A post that is saved with the draft that it had. -/
theorem Thread.names.of_post {q : Discussion} (h : t'.names u) (hp : t.Live p) (hpost : t'.post = some q)
    (hdraft : q.pendingRevision = none ∨ q.pendingRevision = p.pendingRevision) : t.names u := by
  obtain ⟨q', d, hq, hd, hu⟩ := h
  obtain rfl : q = q' := Option.some.inj (hpost.symm.trans hq.1)
  rcases hdraft with hnone | hsame
  · cases hnone.symm.trans hd
  · exact ⟨p, d, hp, hsame.symm.trans hd, hu⟩

/-- **One step.** A file that is attached was attached before, or the media service has answered for it. -/
theorem ThreadStep.attaches (h : ThreadStep s c i (s.thread i) t') (hc : Checked s c) (ha : t'.attaches m) :
    (s.thread i).attaches m ∨ ∃ u, c.world.vouches u ∧ u.id = m := by
  obtain ⟨⟨p', hp'⟩, a, ha, rfl⟩ := ha
  cases h with
  | same => exact .inl ⟨⟨p', hp'⟩, a, ha, rfl⟩
  | created hop =>
    obtain ⟨u, hu, hid⟩ := mem_attached ha
    rw [Checked, hop] at hc
    exact .inr ⟨u, hc u hu, hid⟩
  | @edited p id dto policy editor tagIds hop hp =>
    -- an edit that names no files keeps them
    cases hids : dto.mediaIds with
    | none =>
      rw [hids] at ha
      refine .inl ⟨⟨p, hp⟩, a, ?_, rfl⟩
      exact ha
    | some ids =>
      rw [hids] at ha
      obtain ⟨u, hu, hid⟩ := mem_attached ha
      rw [Checked, hop.1] at hc
      exact .inr ⟨u, hc u (by rw [hids]; exact hu), hid⟩
  | @reviewed p id dto actor reason tagIds media hop hp huser hstate hkept hdraft =>
    -- a review that publishes a draft has checked its files again
    by_cases hpublished : dto.decision = .allow ∧ (draftOf p).isSome
    · obtain ⟨hallow, hsome⟩ := hpublished
      obtain ⟨d, hd⟩ := Option.isSome_iff_exists.mp hsome
      obtain ⟨rfl, -⟩ := hdraft d hallow hd
      obtain ⟨u, hu, hid⟩ := mem_attached ha
      rw [Checked, hop.1] at hc
      refine .inr ⟨u, hc hallow p (post?_iff_live.mpr (hop.2 ▸ hp)) u ?_, hid⟩
      rw [attachments, hd]
      exact hu
    · have hsame : media = (s.thread i).media := by
        refine (hkept ?_).2
        by_cases hallow : dto.decision = .allow
        · exact .inr (Option.not_isSome_iff_eq_none.mp fun hsome => hpublished ⟨hallow, hsome⟩)
        · exact .inl hallow
      refine .inl ⟨⟨p, hp⟩, a, ?_, rfl⟩
      rw [← hsame]
      exact ha
  | viewed _ hp | removed _ hp | commentAccepted _ hp | acceptedCommentRemoved _ hp | statusSet _ hp | acceptanceRemoved _ hp
  | postVoted _ hp | acceptedAnswerUpdated _ hp | acceptedCommentUpdated _ hp | answerCreated _ hp
  | commentCreated _ hp | answerRemoved _ hp | acceptedAnswerRemoved _ hp | drafted _ hp | answerUpdated _ hp
  | commentUpdated _ hp | commentRemoved _ hp | answerVoted _ hp | commentVoted _ hp => exact .inl ⟨⟨_, hp⟩, a, ha, rfl⟩
  | answerAccepted _ hp =>
    refine .inl ⟨⟨_, hp⟩, a, ?_, rfl⟩
    revert ha
    dsimp only [Thread.savePost, Thread.insertAcceptance]
    split <;> exact id
  | tagMerged | tagRemoved => exact .inl ⟨⟨p', hp'⟩, a, ha, rfl⟩

/-- The draft of an edit names what the edit names, or what the draft before it named, or what is attached. -/
theorem mem_draftOf {dto : UpdateDiscussionDto} (hp : (s.thread i).Live p)
    (hu : u ∈ (DiscussionsService.draftOf s p dto).mediaIds) : u ∈ dto.mediaIds.getD [] ∨ (s.thread i).names u
      ∨ ((s.thread i).attaches u.id ∧ u = Id.text u.id) := by
  have hid : p.id = i := (Table.get?_eq_some.mp hp.1).2
  have hu : u ∈ (dto.mediaIds <|> p.pendingRevision.map (·.mediaIds)).getD
      ((s.mediaOf p.id).map fun a => Id.text a.mediaId) := hu
  cases hids : dto.mediaIds with
  | some ids =>
    rw [hids] at hu
    exact .inl hu
  | none =>
    rw [hids] at hu
    refine .inr ?_
    cases hdraft : p.pendingRevision with
    | some d =>
      rw [hdraft] at hu
      exact .inl ⟨p, d, hp, hdraft, hu⟩
    | none =>
      rw [hdraft, hid] at hu
      obtain ⟨a, ha, rfl⟩ := List.mem_map.mp hu
      exact .inr ⟨⟨⟨p, hp⟩, a, ha, rfl⟩, rfl⟩

/-- **One step.** A file that a draft names was named before, or the media service has answered for it, or it was attached. -/
theorem ThreadStep.names (h : ThreadStep s c i (s.thread i) t') (hc : Checked s c) (hn : t'.names u) :
    (s.thread i).names u ∨ c.world.vouches u ∨ ((s.thread i).attaches u.id ∧ u = Id.text u.id) := by
  cases h with
  | same | tagMerged | tagRemoved => exact .inl hn
  -- a new post has no draft
  | created =>
    obtain ⟨q, d, hq, hd, -⟩ := hn
    obtain rfl := Option.some.inj hq.1
    cases hd
  | @drafted p id dto policy hop hp =>
    obtain ⟨q, d, hq, hd, hu⟩ := hn
    obtain rfl := Option.some.inj hq.1
    obtain rfl := Option.some.inj hd
    -- a file of the draft is named by the edit, or was there before
    refine (mem_draftOf hp hu).elim (fun hnamed => .inr (.inl ?_)) fun hor => hor.imp_right .inr
    rw [Checked, hop.1] at hc
    exact hc u hnamed
  | @edited p id dto policy editor tagIds hop hp =>
    refine .inl (hn.of_post hp rfl ?_)
    unfold editedPost
    split
    · exact .inl rfl
    · exact .inr rfl
  | @reviewed p id dto actor reason tagIds media hop hp =>
    exact .inl (hn.of_post hp rfl (reviewedPost_pendingRevision p dto))
  | answerUpdated _ hp | commentUpdated _ hp | answerVoted _ hp | commentVoted _ hp => exact .inl hn
  | viewed _ hp | removed _ hp | commentAccepted _ hp | acceptedCommentRemoved _ hp | statusSet _ hp | acceptanceRemoved _ hp
  | postVoted _ hp | acceptedAnswerUpdated _ hp | acceptedCommentUpdated _ hp | answerCreated _ hp | answerAccepted _ hp
  | commentCreated _ hp | answerRemoved _ hp | acceptedAnswerRemoved _ hp => exact .inl (hn.of_post hp rfl (.inr rfl))
  | @commentRemoved p m id hop hp => exact .inl (hn.of_post hp rfl (.inr (by unfold CommentsService.uncommented; split <;> rfl)))

/-! ## One call

No call makes a post attach a file that the reference check has not seen; only the spelling of a draft can get lost,
when the rows are made from it. -/

/-- A post attaches after a call what it attached before, or what the call's own check let through. -/
theorem attaches_step (ha : ((s.step c).thread i).attaches m) :
    (s.thread i).attaches m ∨ ∃ u, c.world.vouches u ∧ u.id = m := by
  rcases checked_or_same s c with hc | hsame
  · exact (thread_step s c i).attaches hc ha
  · rw [hsame] at ha
    exact .inl ha

/-- A draft names after a call what it named before, what the check let through, or, after a rejected review, the
stored spelling of a file attached. -/
theorem names_step (hn : ((s.step c).thread i).names u) :
    (s.thread i).names u ∨ c.world.vouches u ∨ ((s.thread i).attaches u.id ∧ u = Id.text u.id) := by
  rcases checked_or_same s c with hc | hsame
  · exact (thread_step s c i).names hc hn
  · rw [hsame] at hn
    exact .inl hn

end AcaSocial
