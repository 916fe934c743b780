import AcaSocial.Discussion.TagUsage

/-!
# The usage counts of tags, along a run

What each operation does to the counters and to the links, and from it that the counters are
exact in every state of a run whose calls do not miscount.
-/

namespace AcaSocial

open DiscussionsService

/-- A merge in which a deleted post is linked to one of the two tags, or an edit of the post itself
that misspells a tag which it keeps. Both with the checks that they have to pass. -/
def miscounts (s : Db) (c : Call) : Bool :=
  match c.operation with
  | .tags (.merge source target) =>
    c.user.id.isSome && c.user.isModerator && decide (source ≠ target)
      && (s.tags.get? source.id).any
        (fun t => decide (Id.text t.id = source ∧ t.status ≠ .merged))
      && (s.tags.get? target.id).any
        (fun t => decide (Id.text t.id = target ∧ t.status = .active))
      && s.discussionTags.rows.any fun l =>
        decide (l.tagId = source.id ∨ l.tagId = target.id) && (s.post? l.discussionId).isNone
  | .discussions (.update id dto) =>
    match updatePrelude c.world s id c.user dto, dto.tagIds with
    | .ok (_, p), some ids =>
      match RoomsService.assertCanPostTo c.world
        (RoomsService.autoJoinTo s p.roomId p.authorId) p.roomId ⟨some p.authorId, c.user.role⟩ with
      | .ok policy =>
        !drafts policy p dto && (p.pendingRevision.isNone || dto.expectedVersion.isSome)
          && dto.expectedVersion.all (fun v => decide (p.contentVersion = v))
          && (DiscussionsService.tags s ids.eraseDups unavailableTags).isOk
          && misspells s p.id ids.eraseDups
      | .error _ => false
    | _, _ => false
  | _ => false

section Operations

variable {w : World} {s s' s₁ : Db} {user : GatewayUser} {us : List (Id × Int)}

/-! ## Calls that count

A call on posts changes links and counters together. `Follows` says that it does so in the order in which the updates
are listed, and `Tracks` that it does so or does nothing. -/

/-- Updates of counters read the table of tags alone. -/
theorem bumps_tags_congr (h : s₁.tags = s.tags) (us : List (Id × Int)) :
    (s₁.bumps us).tags = (s.bumps us).tags := by
  induction us generalizing s s₁ with
  | nil => exact h
  | cons u us ih =>
    apply ih
    show s₁.tags.modify _ _ = s.tags.modify _ _
    rw [h]

/-- A call that leaves what is posted follows no update. -/
theorem Follows.of_toContent (h : s'.toContent = s.toContent) : Follows s s' [] := by
  refine ⟨congrArg Content.tags h, fun k => ?_, fun i k hk => .inl (h ▸ hk)⟩
  rw [total_nil, add_zero]
  exact congrArg (fun c : Content => (c.usage k : Int)) h

/-- A call that changes one thread, with updates that add up to the change of its links. -/
theorem Follows.of_thread {d : Id} (htags : s'.tags = (s.bumps us).tags)
    (hothers : ∀ i, i ≠ d → s'.thread i = s.thread i)
    (htotal : ∀ k, total us k + (if (s.thread d).links k then 1 else 0)
      = if (s'.thread d).links k then 1 else 0)
    (hlinked : ∀ k ∈ (s'.thread d).tagIds, k ∈ (s.thread d).tagIds ∨ (s.tags.get? k).isSome) :
    Follows s s' us := by
  refine ⟨htags, fun k => ?_, fun i k hk => ?_⟩
  · have husage : (s'.usage k : Int) + (if (s.thread d).links k then 1 else 0)
        = s.usage k + (if (s'.thread d).links k then 1 else 0) :=
      usage_of_thread fun i hi => by rw [hothers i hi]
    have := htotal k
    omega
  · by_cases hi : i = d
    · subst hi
      exact hlinked k hk
    · exact .inl (hothers i hi ▸ hk)

/-- The call leaves everything as it was, or makes its updates and keeps the links in step. -/
def Tracks (s s' : Db) (us : List (Id × Int)) : Prop := Follows s s' [] ∨ Follows s s' us

/-- What a transaction tracks is what it commits. -/
theorem Tracks.of_commit {α β : Type} {s₀ : Db} {body : Except HttpError (Db × α)}
    {respond : Db → α → Except HttpError β} (hs : s₀.toContent = s.toContent)
    (h : ∀ s' a, body = .ok (s', a) → Tracks s s' us) :
    Tracks s (commit s₀ body respond).state us :=
  commit_induction (P := fun s' => Tracks s s' us) (.inl (.of_toContent hs)) h

/-- A check in front of a call may refuse it. -/
theorem Tracks.of_attempt {α β : Type} {x : Except HttpError α} {k : α → Outcome Db HttpError β}
    (h : ∀ a, x = .ok a → Tracks s (k a).state us) : Tracks s (attempt s x k).state us :=
  attempt_induction (P := fun s' => Tracks s s' us) (.inl (.of_toContent rfl)) h

theorem insertRevision_tags {r : DiscussionRevision} (h : s.insertRevision r = .ok s') :
    s'.tags = s.tags := by
  simp only [Db.insertRevision, bind_eq_ok, require_eq_ok, pure_eq_ok] at h
  obtain ⟨-, -, rfl⟩ := h
  rfl

/-- A new post counts its tags up. -/
theorem create_tracks (dto : CreateDiscussionDto) :
    Tracks s (create w s user dto).state
      (counterUpdates s ⟨w, user, .discussions (.create dto)⟩) := by
  refine .of_attempt fun prelude _ => .of_commit (autoJoin_toContent _ _ _) fun s' k h => ?_
  obtain ⟨author, selected⟩ := prelude
  simp only [bind_eq_ok] at h
  obtain ⟨room, -, -, -, h⟩ := h
  obtain ⟨tags, htags, hthread⟩ := createTx_thread (autoJoin_toContent _ _ _) h
  have hcounters : s'.tags
      = (s.bumps (countingUpdates (dto.tagIds.getD []).eraseDups 1)).tags := by
    simp only [createTx, bind_eq_ok, pure_eq_ok, Prod.mk.injEq] at h
    obtain ⟨_, -, s₁, hrev, rfl, -⟩ := h
    have hs₁ := insertRevision_tags hrev
    rw [tagCounts_eq_bumps] at hs₁
    exact hs₁.trans (bumps_tags_congr (by rfl) _)
  have hpost : (s.thread s.discussions.next).post = none := s.discussions.get?_next
  refine .inr (.of_thread (d := s.discussions.next) hcounters (fun i hi => ?_) (fun k => ?_)
    fun k hk => .inr ?_)
  · rw [hthread, if_neg (Ne.symm hi)]
  · rw [counterUpdates, total_countingUpdates, countP_tags htags, hthread, if_pos rfl]
    simp [Thread.links, hpost, Thread.setMedia, Thread.setTags, Thread.savePost, newPost]
  · rw [hthread, if_pos rfl] at hk
    exact tags_exist htags hk

/-- A deleted post counts its tags down. -/
theorem remove_tracks (id : UuidText) :
    Tracks s (remove w s id user).state
      (counterUpdates s ⟨w, user, .discussions (.remove id)⟩) := by
  refine .of_commit rfl fun s' u h => ?_
  simp only [removeTx, bind_eq_ok, lockPost_eq_ok, pure_eq_ok, Prod.mk.injEq] at h
  obtain ⟨-, -, p, hp, -, -, rfl, -⟩ := h
  have hpid := Content.post?_id hp
  have hlive := post?_iff_live.mp hp
  have hthread : ∀ j, (tagCounts ((s.savePost { p with deletedAt := some w.now }).event
      "content.deleted" [("entityType", .str "discussion"), ("entityId", .uuid id),
        ("roomId", (p.roomId.map fun r => Json.uuid (Id.text r)).getD .null)])
      ((s.tagIdsOf p.id).map Id.text) (-1)).thread j = if id.id = j then
        (s.thread j).savePost { p with deletedAt := some w.now } else s.thread j := by
    intro j
    rw [thread_tagCounts, event_toContent, thread_savePost hp]
    rfl
  simp only [counterUpdates, hp]
  refine .inr (.of_thread (d := id.id) ?_ (fun i hi => ?_) (fun k => ?_) fun k hk => .inl ?_)
  · rw [tagCounts_eq_bumps]
    exact bumps_tags_congr (by rfl) _
  · rw [hthread, if_neg (Ne.symm hi)]
  -- a tag of the post has one link of live posts less
  · rw [total_countingUpdates, countP_text, (tagIdsOf_nodup s p.id).count, hthread, if_pos rfl,
      hpid]
    have htags : (s.thread id.id).tagIds = s.tagIdsOf id.id := rfl
    by_cases hk : k ∈ s.tagIdsOf id.id <;>
      simp [Thread.links, hlive.1, hlive.2, htags, Thread.savePost, hk]
  · rw [hthread, if_pos rfl] at hk
    exact hk

/-! ## Edits

An edit that names tags adds and removes the links in which the lists differ. -/

/-- The updates of an edit are read from the links. -/
theorem retagUpdates_congr (hs : s₁.toContent = s.toContent) (d : Id) (ids : List UuidText) :
    retagUpdates s₁ d ids = retagUpdates s d ids := by
  simp only [retagUpdates, hs]

/-- The counters after an edit of the post itself. -/
theorem saveEdit_tags {editor : Id} {dto : UpdateDiscussionDto} {policy : Option PostContext}
    {p : Discussion} {u : Unit} (h : saveEdit w s editor dto policy p = .ok (s', u)) :
    s'.tags = (s.bumps ((dto.tagIds.map fun ids => retagUpdates s p.id ids.eraseDups).getD [])).tags := by
  simp only [saveEdit, bind_eq_ok, pure_eq_ok, Prod.mk.injEq] at h
  obtain ⟨s₁, htag, s₂, hrec, rfl, -⟩ := h
  -- the record of the version touches no tag
  have h₂ : s₂.tags = s₁.tags := by
    unfold recordVersion at hrec
    split at hrec
    · simp only [bind_eq_ok, pure_eq_ok] at hrec
      obtain ⟨s₃, hrev, rfl⟩ := hrec
      have h₃ := insertRevision_tags hrev
      split
      · exact h₃
      · exact h₃
    · rw [Except.ok.inj hrec]
  -- the tags that are named are found, and the counters bumped for each
  have h₁ : s₁.tags
      = (s.bumps ((dto.tagIds.map fun ids => retagUpdates s p.id ids.eraseDups).getD [])).tags := by
    cases hids : dto.tagIds with
    | none =>
      rw [hids] at htag
      rw [← Except.ok.inj htag]
      rfl
    | some ids =>
      rw [hids] at htag
      simp only [retagTo, retag, bind_eq_ok, pure_eq_ok] at htag
      obtain ⟨tags, htags, rfl⟩ := htag
      obtain ⟨rfl, -⟩ := tags_eq_ok.mp htags
      simp only [tagCounts_eq_bumps, ← bumps_append]
      rfl
  rw [← h₁, ← h₂]
  cases dto.mediaIds <;> rfl

/-- A draft waits, and the post keeps its tags. -/
theorem saveDraft_follows {editor : Id} {dto : UpdateDiscussionDto} {p : Discussion} {u : Unit}
    {k : Id} (hs : s₁.toContent = s.toContent) (hp : s.post? k = some p)
    (h : saveDraft s₁ editor dto p = .ok (s', u)) : Follows s s' [] := by
  simp only [saveDraft, bind_eq_ok, pure_eq_ok, Prod.mk.injEq] at h
  obtain ⟨-, -, s₂, hrev, rfl, -⟩ := h
  have hthread : ∀ j, s₂.thread j = if k = j then
      (s.thread j).savePost (withDraft p (draftOf s₁ p dto)) else s.thread j := by
    intro j
    rw [thread_insertRevision hrev, thread_savePost (hs ▸ hp), hs]
    rfl
  have hlive := post?_iff_live.mp hp
  refine .of_thread (d := k) ?_ (fun i hi => ?_) (fun j => ?_) fun j hj => .inl ?_
  · have htags : s₁.tags = s.tags := congrArg Content.tags hs
    exact (insertRevision_tags hrev).trans htags
  · rw [hthread, if_neg (Ne.symm hi)]
  · rw [hthread, if_pos rfl, total_nil, zero_add]
    simp [Thread.links, hlive.1, hlive.2, Thread.savePost, withDraft]
  · rw [hthread, if_pos rfl] at hj
    exact hj

/-- An edit of the post itself moves the counters with the links, unless it misspells a tag. -/
theorem saveEdit_follows {editor : Id} {dto : UpdateDiscussionDto} {policy : Option PostContext}
    {p : Discussion} {u : Unit} {k : Id} (hs : s₁.toContent = s.toContent)
    (hp : s.post? k = some p) (h : saveEdit w s₁ editor dto policy p = .ok (s', u))
    (hspelled : ∀ ids tags, dto.tagIds = some ids →
      DiscussionsService.tags s ids.eraseDups unavailableTags = .ok tags →
      misspells s p.id ids.eraseDups = false) :
    Follows s s' ((dto.tagIds.map fun ids => retagUpdates s p.id ids.eraseDups).getD []) := by
  obtain ⟨tagIds, htags, hthread⟩ := saveEdit_thread (hs ▸ hp) h
  simp only [hs, tags_congr hs] at htags hthread
  have hcounters := saveEdit_tags h
  simp only [retagUpdates_congr hs] at hcounters
  have hlive := post?_iff_live.mp hp
  have hdeleted : (editedPost dto policy p).deletedAt = none := by
    unfold editedPost
    split <;> exact hlive.2
  -- the links after the edit, and before
  have hlinks : ∀ j, (s'.thread k).links j = decide (j ∈ tagIds) := by
    intro j
    rw [hthread, if_pos rfl]
    show ((editedPost dto policy p).deletedAt.isNone && decide (j ∈ tagIds)) = decide (j ∈ tagIds)
    rw [hdeleted]
    rfl
  have hold : ∀ j, (s.thread k).links j = decide (j ∈ s.tagIdsOf p.id) := by
    intro j
    have hids : (s.thread k).tagIds = s.tagIdsOf p.id := by
      rw [Content.post?_id hp]
      rfl
    simp [Thread.links, hlive.1, hlive.2, hids]
  have hnew : (s'.thread k).tagIds = tagIds := by
    rw [hthread, if_pos rfl]
    rfl
  refine .of_thread (d := k) (hcounters.trans (bumps_tags_congr (congrArg Content.tags hs) _))
    (fun i hi => by rw [hthread, if_neg (Ne.symm hi)]) (fun j => ?_) fun j hj => ?_
  -- the counters moved by as much as the links did
  · rw [hlinks, hold]
    rcases htags with ⟨hnone, rfl⟩ | ⟨ids, tags, hsome, htags, rfl⟩
    · have hids : (s.thread k).tagIds = s.tagIdsOf p.id := by
        rw [Content.post?_id hp]
        rfl
      simp [hnone, hids]
    · have htotal := total_retagUpdates htags (hspelled ids tags hsome htags) j
      simpa [hsome] using htotal
  · rw [hnew] at hj
    rcases htags with ⟨-, rfl⟩ | ⟨ids, tags, -, htags, rfl⟩
    · exact .inl hj
    · exact .inr (tags_exist htags hj)

/-- The updates of an edit are those between the two lists of tags. -/
theorem counterUpdates_update {id : UuidText} {p : Discussion} (hp : s.post? id.id = some p)
    (dto : UpdateDiscussionDto) :
    counterUpdates s ⟨w, user, .discussions (.update id dto)⟩
      = (dto.tagIds.map fun ids => retagUpdates s p.id ids.eraseDups).getD [] := by
  simp only [counterUpdates, hp]
  cases dto.tagIds <;> rfl

/-- An edit makes its updates of the counters, misspelled or not. -/
theorem update_counters (id : UuidText) (dto : UpdateDiscussionDto) :
    (update w s id user dto).state.tags = s.tags
      ∨ (update w s id user dto).state.tags
        = (s.bumps (counterUpdates s ⟨w, user, .discussions (.update id dto)⟩)).tags := by
  refine attempt_induction (P := fun s' : Db => s'.tags = s.tags ∨ s'.tags = _) (.inl rfl)
    fun prelude hprelude => ?_
  obtain ⟨editor, p⟩ := prelude
  have hp := (updatePrelude_eq_ok hprelude).2.1
  have hs := autoJoinTo_toContent s p.roomId p.authorId
  refine commit_induction (P := fun s' : Db => s'.tags = s.tags ∨ s'.tags = _)
    (.inl (congrArg Content.tags hs)) fun s' u h => ?_
  simp only [bind_eq_ok, updateTx, require_eq_ok] at h
  obtain ⟨policy, -, -, -, -, -, h⟩ := h
  split at h
  · exact .inl (saveDraft_follows hs hp h).tags
  · have htags := saveEdit_tags h
    simp only [retagUpdates_congr hs] at htags
    rw [counterUpdates_update hp]
    exact .inr (htags.trans (bumps_tags_congr (congrArg Content.tags hs) _))

/-- An edit keeps the counters in step with the links, unless it misspells a tag. -/
theorem update_tracks (id : UuidText) (dto : UpdateDiscussionDto)
    (hsafe : miscounts s ⟨w, user, .discussions (.update id dto)⟩ = false) :
    Tracks s (update w s id user dto).state
      (counterUpdates s ⟨w, user, .discussions (.update id dto)⟩) := by
  refine .of_attempt fun prelude hprelude => ?_
  obtain ⟨editor, p⟩ := prelude
  obtain ⟨-, hp, -, -⟩ := updatePrelude_eq_ok hprelude
  refine .of_commit (autoJoinTo_toContent _ _ _) fun s' u h => ?_
  simp only [bind_eq_ok, updateTx, require_eq_ok] at h
  obtain ⟨policy, hpolicy, -, hexpected, -, hversion, h⟩ := h
  split at h
  · exact .inl (saveDraft_follows (autoJoinTo_toContent _ _ _) hp h)
  · next hdrafts =>
    have hfollows := saveEdit_follows (autoJoinTo_toContent _ _ _) hp h fun ids tags hids htags => by
      -- an edit that spells a tag another way would be a miscount of this call
      by_contra hmisspells
      refine Bool.false_ne_true (hsafe.symm.trans ?_)
      have hnone : p.pendingRevision.isNone || dto.expectedVersion.isSome := by
        cases hpending : p.pendingRevision with
        | none => rfl
        | some d => simpa using hexpected (by simp [hpending])
      have hversions : dto.expectedVersion.all fun v => decide (p.contentVersion = v) := by
        cases hv : dto.expectedVersion with
        | none => rfl
        | some v => exact decide_eq_true (hversion v hv)
      simp only [miscounts, hprelude, hids, hpolicy, htags, hnone, hversions, Bool.and_true,
        Except.isOk, Except.toBool]
      rw [Bool.not_eq_true] at hdrafts
      rw [Bool.not_eq_false] at hmisspells
      rw [hdrafts, hmisspells]
      rfl
    refine .inr ?_
    rw [counterUpdates_update hp]
    exact hfollows

/-! ## Reviews

A review that publishes a draft does the same for the tags of the draft. -/

/-- The counters after a review: an allowed draft counts, nothing else does. -/
theorem publish_tags {p : Discussion} {decision : Decision}
    (h : ModerationService.publish w s p decision = .ok s') :
    (s'.tags = s.tags ∧ (decision ≠ .allow ∨ ModerationService.draftOf p = none))
      ∨ ∃ d, decision = .allow ∧ ModerationService.draftOf p = some d
        ∧ s'.tags = (s.bumps (draftUpdates s p.id d)).tags := by
  unfold ModerationService.publish at h
  split at h
  · next hallow =>
    simp only [bind_eq_ok] at h
    obtain ⟨-, -, h⟩ := h
    cases hdraft : ModerationService.draftOf p with
    | none =>
      rw [hdraft] at h
      simp only [pure_eq_ok] at h
      exact .inl ⟨by rw [h], .inr rfl⟩
    | some d =>
      rw [hdraft] at h
      simp only [ModerationService.applyDraft, bind_eq_ok, pure_eq_ok] at h
      obtain ⟨tags, -, rfl⟩ := h
      refine .inr ⟨d, hallow, rfl, ?_⟩
      simp only [Db.bumps, draftUpdates, List.foldl_map]
      rfl
  · next hallow => exact .inl ⟨by rw [Except.ok.inj h], .inl hallow⟩

/-- A review moves the counters as the draft that it allows moves the links. -/
theorem review_tracks (id : UuidText) (dto : ReviewContentDto) :
    Tracks s (ModerationService.review w s id dto user).state
      (counterUpdates s ⟨w, user, .review id dto⟩) := by
  refine .of_commit rfl fun s' r h => ?_
  simp only [bind_eq_ok, authenticated_eq_ok] at h
  obtain ⟨actor, -, scope, -, -, -, h⟩ := h
  obtain ⟨p, s₁, tagIds, media, hp, -, hpublish, hs₁, hkept, hdraft, hthread⟩ := reviewTx_thread h
  have hlive := post?_iff_live.mp hp
  have hpid := Content.post?_id hp
  have hothers : ∀ i, i ≠ id.id → s'.thread i = s.thread i := fun i hi => by
    rw [hthread, if_neg (Ne.symm hi)]
  have hids : (s'.thread id.id).tagIds = tagIds := by
    rw [hthread, if_pos rfl]
    rfl
  have hlinks : ∀ j, (s'.thread id.id).links j = decide (j ∈ tagIds) := by
    intro j
    rw [hthread, if_pos rfl]
    show ((ModerationService.reviewedPost p dto).deletedAt.isNone && decide (j ∈ tagIds))
      = decide (j ∈ tagIds)
    rw [ModerationService.reviewedPost_deletedAt, hlive.2]
    rfl
  have hold : ∀ j, (s.thread id.id).links j = decide (j ∈ s.tagIdsOf p.id) := by
    intro j
    rw [hpid]
    show ((s.thread id.id).post.any _ && decide (j ∈ s.tagIdsOf id.id)) = _
    rw [hlive.1]
    simp [hlive.2]
  -- nothing is published, or the draft is
  rcases publish_tags hpublish with ⟨htags, hsame⟩ | ⟨d, hallow, hd, htags⟩
  · obtain ⟨rfl, -⟩ := hkept hsame
    refine .inl (.of_thread (hs₁.trans htags) hothers (fun j => ?_) fun j hj => .inl (hids ▸ hj))
    rw [hlinks, hold, hpid, total_nil, zero_add]
    rfl
  · obtain ⟨-, tags, e, hfound, rfl⟩ := hdraft d hallow hd
    refine .inr (.of_thread (d := id.id) ?_ hothers (fun j => ?_) fun j hj => .inr ?_)
    · simp only [counterUpdates, hp, hd]
      exact hs₁.trans htags
    · have htotal := total_draftUpdates (d := p.id) hfound j
      simp only [counterUpdates, hp, hd]
      simpa [hlinks, hold] using htotal
    · exact tags_exist hfound (hids ▸ hj)

/-! ## The administration of tags

The methods on tags, which write counters only when they merge. -/

/-- The counters are exact and every link is to a tag that is there. -/
structure TagsExact (s : Db) : Prop where
  exact : UsageExact s
  links : LinksToTags s

/-- The counter and the id of a saved tag are those of the tag that was there. -/
theorem TagsExact.saveTag (hs : TagsExact s) {t t₀ : Tag} (ht₀ : t₀ ∈ s.tags) (hid : t.id = t₀.id)
    (hcount : t.usageCount = t₀.usageCount) : TagsExact (TagsService.saveTag s t) := by
  refine ⟨fun t' ht' => ?_, fun i k hk => ?_⟩
  · show t'.usageCount = s.usage t'.id
    rcases Serial.mem_save.mp ht' with ⟨rfl, -⟩ | ⟨ht', -⟩
    · rw [hcount, hid]
      exact hs.exact t₀ ht₀
    · exact hs.exact t' ht'
  · have hget : (s.tags.get? k).isSome := hs.links i k hk
    show ((s.tags.toTable.save t).get? k).isSome
    rw [Table.get?_save]
    split
    · simpa using hget
    · exact hget

/-- A new tag is not linked to anything. -/
theorem createTag_exact (hs : TagsExact s) (dto : CreateTagDto) :
    TagsExact (TagsService.create w s dto user).state := by
  refine commit_induction hs fun s' t h => ?_
  simp only [bind_eq_ok, pure_eq_ok, Prod.mk.injEq] at h
  obtain ⟨-, -, -, -, -, -, -, -, rfl, -⟩ := h
  refine ⟨fun t ht => ?_, fun i k hk => ?_⟩
  · show t.usageCount = s.usage t.id
    rcases Serial.mem_insert.mp ht with ht | rfl
    · exact hs.exact t ht
    · -- a link to the new tag would be to a tag that is not there
      have hnone : s.usage s.tags.next = 0 := by
        rw [← card_linkedTo, Finset.card_eq_zero, Finset.eq_empty_iff_forall_notMem]
        intro i hi
        have hlink := (Bool.and_eq_true_iff.mp (mem_linkedTo.mp hi)).2
        have := hs.links i s.tags.next (of_decide_eq_true hlink)
        rw [s.tags.get?_next] at this
        cases this
      show (0 : Int) = s.usage s.tags.next
      rw [hnone]
      rfl
  · have hget : (s.tags.get? k).isSome := hs.links i k hk
    obtain ⟨t, ht⟩ := Option.isSome_iff_exists.mp hget
    rw [Serial.get?_insert_of_some ht]
    rfl

/-- To rename a tag leaves its counter. -/
theorem updateTag_exact (hs : TagsExact s) (id : UuidText) (dto : UpdateTagDto) :
    TagsExact (TagsService.update s id dto user).state := by
  refine commit_induction hs fun s' t h => ?_
  simp only [TagsService.findTag, bind_eq_ok, orThrow_eq_ok, pure_eq_ok, Prod.mk.injEq] at h
  obtain ⟨-, -, t₀, ht₀, -, -, -, -, rfl, -⟩ := h
  exact hs.saveTag (Table.get?_eq_some.mp ht₀).1 rfl rfl

/-- To deactivate a tag leaves its counter. -/
theorem setTagStatus_exact (hs : TagsExact s) (id : UuidText) (active : Bool) :
    TagsExact (TagsService.setStatus s id active user).state := by
  refine commit_induction hs fun s' t h => ?_
  simp only [TagsService.findTag, bind_eq_ok, orThrow_eq_ok, pure_eq_ok, Prod.mk.injEq] at h
  obtain ⟨-, -, t₀, ht₀, -, -, rfl, -⟩ := h
  exact hs.saveTag (Table.get?_eq_some.mp ht₀).1 rfl rfl

/-- A tag goes with its links, which are links of deleted posts. -/
theorem removeTag_exact (hs : TagsExact s) (id : UuidText) :
    TagsExact (TagsService.remove s id user).state := by
  refine commit_induction hs fun s' u h => ?_
  simp only [TagsService.findTag, bind_eq_ok, orThrow_eq_ok, pure_eq_ok, Prod.mk.injEq] at h
  obtain ⟨-, -, t₀, -, -, -, -, -, rfl, -⟩ := h
  refine ⟨fun t ht => ?_, fun i k hk => ?_⟩
  · obtain ⟨ht, hne⟩ := Serial.mem_erase.mp ht
    have hne : t.id ≠ t₀.id := by simpa using hne
    rw [hs.exact t ht]
    refine congrArg (fun l : List DiscussionTag => (l.length : Int)) (Table.select_erase ?_).symm
    intro l _ hl
    have htag := of_decide_eq_true (Bool.and_eq_true_iff.mp hl).1
    simp [htag, hne]
  · obtain ⟨hl, hne⟩ := Table.mem_erase.mp (mem_tagIdsOf.mp hk)
    have hne : k ≠ t₀.id := by simpa using hne
    have hget : (s.tags.get? k).isSome := hs.links i k (mem_tagIdsOf.mpr hl)
    obtain ⟨t, ht⟩ := Option.isSome_iff_exists.mp hget
    have hid := (Table.get?_eq_some.mp ht).2
    show ((s.tags.toTable.erase _).get? k).isSome
    rw [Table.get?_erase, ht]
    simp [Option.filter, hid, hne]

/-! ## Merges

A merge moves the links of one tag to another, leaves out those that are there already, and recounts. -/

/-- A link is its key, so inserting it adds it. -/
theorem mem_insert_link {links : Table (Id × Id) DiscussionTag fun l => (l.discussionId, l.tagId)}
    {r l : DiscussionTag} : l ∈ links.insert r ↔ l ∈ links ∨ l = r := by
  rw [Table.mem_insert]
  constructor
  · exact Or.imp_right And.left
  · rintro (hl | rfl)
    · exact .inl hl
    · by_cases hold : ∃ r₀ ∈ links, (r₀.discussionId, r₀.tagId) = (l.discussionId, l.tagId)
      · obtain ⟨r₀, hr₀, hk⟩ := hold
        simp only [Prod.mk.injEq] at hk
        obtain ⟨d, t⟩ := r₀
        obtain ⟨rfl, rfl⟩ := hk
        exact .inl hr₀
      · exact .inr ⟨rfl, fun r₀ hr₀ hk => hold ⟨r₀, hr₀, hk⟩⟩

/-- The links after a merge. -/
theorem mem_moveLinks {source target : Id} {l : DiscussionTag} :
    l ∈ (TagsService.moveLinks s source target).discussionTags
      ↔ l.tagId ≠ source ∧ (l ∈ s.discussionTags
        ∨ l.tagId = target ∧ ⟨l.discussionId, source⟩ ∈ s.discussionTags) := by
  have hfold : ∀ (moved : List DiscussionTag)
      (links : Table (Id × Id) DiscussionTag fun l => (l.discussionId, l.tagId)),
      l ∈ moved.foldl (fun links l => links.insert ⟨l.discussionId, target⟩) links
        ↔ l ∈ links ∨ l.tagId = target ∧ ∃ l₀ ∈ moved, l₀.discussionId = l.discussionId := by
    intro moved
    -- over the links of the source, each of which is inserted for the target
    induction moved with
    | nil => simp
    | cons l₀ moved ih =>
      intro links
      rw [List.foldl_cons, ih, mem_insert_link]
      obtain ⟨d, t⟩ := l
      simp only [DiscussionTag.mk.injEq, List.mem_cons, exists_eq_or_imp]
      constructor
      · rintro ((h | ⟨rfl, rfl⟩) | ⟨ht, h⟩)
        · exact .inl h
        · exact .inr ⟨rfl, .inl rfl⟩
        · exact .inr ⟨ht, .inr h⟩
      · rintro (h | ⟨rfl, h | h⟩)
        · exact .inl (.inl h)
        · exact .inl (.inr ⟨h.symm, rfl⟩)
        · exact .inr ⟨rfl, h⟩
  have hsource : (∃ l₀ ∈ s.discussionTags.select (fun l => decide (l.tagId = source)),
      l₀.discussionId = l.discussionId) ↔ (⟨l.discussionId, source⟩ : DiscussionTag)
        ∈ s.discussionTags := by
    constructor
    · rintro ⟨⟨d, t⟩, hl₀, rfl⟩
      obtain ⟨hmem, ht⟩ := Table.mem_select.mp hl₀
      obtain rfl := of_decide_eq_true ht
      exact hmem
    · intro h
      exact ⟨_, Table.mem_select.mpr ⟨h, decide_eq_true rfl⟩, rfl⟩
  show l ∈ Table.erase _ _ ↔ _
  rw [Table.mem_erase, hfold, hsource, decide_eq_false_iff_not, and_comm]

/-- What a merge makes of its source. -/
def mergedSource (source : Tag) (target : Id) : Tag :=
  { source with status := .merged, mergedIntoTagId := some target, usageCount := 0 }

/-- What a merge makes of its target. -/
def mergedTarget (target : Tag) (count : Nat) : Tag := { target with usageCount := count }

/-- What a merge has checked, and what it leaves. -/
theorem mergeTx_eq_ok {sourceId targetId : UuidText} {source' target' : Tag}
    (h : TagsService.mergeTx s sourceId targetId = .ok (s', source', target')) :
    ∃ source target, s.tags.get? sourceId.id = some source ∧ s.tags.get? targetId.id = some target
      ∧ sourceId ≠ targetId ∧ Id.text source.id = sourceId ∧ Id.text target.id = targetId
      ∧ source.status ≠ .merged ∧ target.status = .active
      ∧ source' = mergedSource source target.id
      ∧ target' = mergedTarget target
        (TagsService.linkCount (TagsService.moveLinks s source.id target.id) target.id)
      ∧ s' = TagsService.saveTag (TagsService.saveTag
          (TagsService.moveLinks s source.id target.id) source') target' := by
  simp only [TagsService.mergeTx, bind_eq_ok, require_eq_ok, orThrow_eq_ok, pure_eq_ok,
    Prod.mk.injEq] at h
  obtain ⟨-, hne, source, hsource, target, htarget, -, ⟨hsource', htarget'⟩, rfl, rfl, rfl⟩ := h
  have hfound : ∀ {t : Tag} {id : UuidText},
      (s.tags.select fun t => decide (t.id = sourceId.id ∨ t.id = targetId.id)).find?
        (fun t => decide (Id.text t.id = id)) = some t →
      s.tags.get? id.id = some t ∧ Id.text t.id = id := by
    intro t id hfind
    have hfound := List.find?_some hfind
    have hid : Id.text t.id = id := of_decide_eq_true hfound
    have hmem := (Table.mem_select.mp (List.mem_of_find?_eq_some hfind)).1
    exact ⟨Table.get?_eq_some.mpr ⟨hmem, congrArg UuidText.id hid⟩, hid⟩
  have hs := hfound hsource
  have ht := hfound htarget
  exact ⟨source, target, hs.1, ht.1, hne, hs.2, ht.2, hsource', htarget', rfl, rfl, rfl⟩

/-- The links that a merge leaves to its target are of live posts, when those to its source and
its target were. -/
theorem usage_moveLinks_target {source target : Id}
    (hlive : ∀ l ∈ s.discussionTags, l.tagId = source ∨ l.tagId = target →
      (s.post? l.discussionId).isSome) :
    TagsService.linkCount (TagsService.moveLinks s source target) target
      = (TagsService.moveLinks s source target).usage target := by
  refine congrArg List.length (List.filter_congr fun l hl => ?_)
  show decide (l.tagId = target)
    = (decide (l.tagId = target) && (s.post? l.discussionId).isSome)
  by_cases htag : l.tagId = target
  · have hpost : (s.post? l.discussionId).isSome := by
      rcases (mem_moveLinks.mp hl).2 with hold | ⟨-, hmoved⟩
      · exact hlive l hold (.inr htag)
      · exact hlive ⟨l.discussionId, source⟩ hmoved (.inl rfl)
    rw [hpost, Bool.and_true]
  · rw [decide_eq_false htag, Bool.false_and]

/-- The merged tag has no links left. -/
theorem usage_moveLinks_source (s : Db) (source target : Id) :
    (TagsService.moveLinks s source target).usage source = 0 := by
  refine List.length_eq_zero_iff.mpr (List.filter_eq_nil_iff.mpr fun l hl htag => ?_)
  exact (mem_moveLinks.mp hl).1 (of_decide_eq_true (Bool.and_eq_true_iff.mp htag).1)

/-- Other tags have the links that they had. -/
theorem usage_moveLinks_of_ne {source target k : Id} (hs : k ≠ source) (ht : k ≠ target) :
    (TagsService.moveLinks s source target).usage k = s.usage k := by
  refine usage_congr fun i => ?_
  have htag : k ∈ (TagsService.moveLinks s source target).tagIdsOf i ↔ k ∈ s.tagIdsOf i := by
    rw [mem_tagIdsOf, mem_moveLinks, mem_tagIdsOf]
    simp [hs, ht]
  show (_ && decide (k ∈ (TagsService.moveLinks s source target).tagIdsOf i))
    = (_ && decide (k ∈ s.tagIdsOf i))
  rw [decide_eq_decide.mpr htag]
  rfl

theorem saveTag_isSome (s : Db) (t : Tag) (k : Id) :
    ((TagsService.saveTag s t).tags.get? k).isSome = (s.tags.get? k).isSome :=
  Table.isSome_get?_save s.tags.toTable t k

/-- Where no deleted post is linked to the two tags, the links that a merge counts are those of
live posts. -/
theorem merge_exact (hs : TagsExact s) (sourceId targetId : UuidText)
    (hsafe : miscounts s ⟨w, user, .tags (.merge sourceId targetId)⟩ = false) :
    TagsExact (TagsService.merge s sourceId targetId user).state := by
  refine commit_induction hs fun s' saved h => ?_
  obtain ⟨source', target'⟩ := saved
  simp only [TagsService.guarded, bind_eq_ok, authenticated_eq_ok, require_eq_ok] at h
  obtain ⟨-, ⟨actor, hactor, hmoderator⟩, h⟩ := h
  obtain ⟨source, target, hgs, hgt, hne, hsid, htid, hsource, htarget, rfl, htarget', rfl⟩ :=
    mergeTx_eq_ok h
  have hid : target'.id = target.id := by
    rw [htarget']
    rfl
  have hcount : target'.usageCount
      = TagsService.linkCount (TagsService.moveLinks s source.id target.id) target.id := by
    rw [htarget']
    rfl
  have hlive : ∀ l ∈ s.discussionTags, l.tagId = source.id ∨ l.tagId = target.id →
      (s.post? l.discussionId).isSome := by
    intro l hl htag
    by_contra hdead
    -- then the merge is one of those that miscount
    have hany : (s.discussionTags.rows.any fun l =>
        decide (l.tagId = sourceId.id ∨ l.tagId = targetId.id)
          && (s.post? l.discussionId).isNone) := by
      rw [← hsid, ← htid]
      refine List.any_eq_true.mpr ⟨l, hl, Bool.and_eq_true_iff.mpr ⟨decide_eq_true htag, ?_⟩⟩
      simpa using hdead
    refine Bool.false_ne_true (hsafe.symm.trans ?_)
    simp only [miscounts, hactor, hmoderator, hgs, hgt, Option.any_some, hany]
    simp [hne, hsid, htid, hsource, htarget]
  have husage : ∀ k, Content.usage (TagsService.saveTag (TagsService.saveTag
      (TagsService.moveLinks s source.id target.id) (mergedSource source target.id)) target').toContent k
      = (TagsService.moveLinks s source.id target.id).usage k := fun _ => rfl
  refine ⟨fun t ht => ?_, fun i k hk => ?_⟩
  · rw [husage]
    rcases Serial.mem_save.mp ht with ⟨rfl, -⟩ | ⟨ht, htne⟩
    · rw [hcount, hid, usage_moveLinks_target hlive]
    · rcases Serial.mem_save.mp ht with ⟨rfl, -⟩ | ⟨ht, hsne⟩
      · exact congrArg Nat.cast (usage_moveLinks_source s source.id target.id).symm
      · have hsne : t.id ≠ source.id := hsne
        rw [usage_moveLinks_of_ne hsne (hid ▸ htne)]
        exact hs.exact t ht
  · rw [saveTag_isSome, saveTag_isSome]
    show (s.tags.get? k).isSome
    rcases (mem_moveLinks.mp (mem_tagIdsOf.mp hk)).2 with hold | ⟨rfl, -⟩
    · exact hs.links i k (mem_tagIdsOf.mpr hold)
    · have htarget := Table.get?_eq_some.mp hgt
      rw [htarget.2, hgt]
      rfl

/-! ## Votes

Votes leave tags alone. -/

theorem setVote_follows (type : TargetType) (id : UuidText) (v : Option VoteType) :
    Follows s (s.step ⟨w, user, .setVote type id v⟩) [] := by
  have hframe : ((s.step ⟨w, user, .setVote type id v⟩).tags,
      (s.step ⟨w, user, .setVote type id v⟩).discussionTags) = (s.tags, s.discussionTags) := by
    refine commit_frame (F := fun s : Db => (s.tags, s.discussionTags)) rfl fun s' r h => ?_
    simp only [VotesService.setVoteTx, bind_eq_ok, pure_eq_ok, Prod.mk.injEq] at h
    obtain ⟨-, -, target, -, -, -, -, -, -, -, -, -, rfl, -⟩ := h
    have hsaved : ∀ s : Db, ∀ up down, ((target.saveCounts s up down).tags,
        (target.saveCounts s up down).discussionTags) = (s.tags, s.discussionTags) := by
      intro s up down
      cases target <;> rfl
    rw [hsaved]
    cases v <;> rfl
  exact .of_labels (congrArg Prod.fst hframe) (congrArg Prod.snd hframe) (fun _ h => (by cases h))
    fun _ h => (by cases h)

end Operations

/-! ## Runs

The counters are exact along every run in which no update is clamped at zero. -/

variable {s s' : Db} {us : List (Id × Int)} {c : Call}

/-- Updates that follow the links keep the counters exact, if none is clamped. -/
theorem TagsExact.of_follows (hs : TagsExact s) (h : Follows s s' us)
    (hstays : Stays (fun k => (s.usage k : Int)) us) : TagsExact s' := by
  have hkeeps := h.keeps hs.exact hs.links hstays
  exact ⟨hkeeps.1, hkeeps.2⟩

/-- A call keeps the counters exact, if no update of it is clamped. -/
theorem TagsExact.of_tracks (hs : TagsExact s) (h : Tracks s (s.step c) (counterUpdates s c)) :
    TagsExact (s.step c) := by
  rcases h with h | h
  · exact hs.of_follows h trivial
  · exact hs.of_follows h (stays_counterUpdates s c)

theorem tagsExact_empty : TagsExact Db.empty :=
  ⟨fun _ h => (by cases h), fun _ _ h => (by cases h)⟩

/-- A call that does not miscount keeps the counters exact. -/
theorem tagsExact_step (hs : TagsExact s) (hsafe : miscounts s c = false) :
    TagsExact (s.step c) := by
  cases hcounts : c.operation.counts with
  -- a call that counts nothing writes neither tags nor links nor posts
  | false =>
    have htally := tally_step (s := s) hcounts
    refine hs.of_follows (.of_labels (congrArg Prod.fst htally) (congrArg (·.2.1) htally)
      (fun dto he => ?_) fun id he => ?_) trivial
    · rw [he] at hcounts
      cases hcounts
    · rw [he] at hcounts
      cases hcounts
  | true =>
    obtain ⟨w, user, o⟩ := c
    cases o with
    | discussions o =>
      cases o with
      | create dto => exact hs.of_tracks (create_tracks dto)
      | update id dto => exact hs.of_tracks (update_tracks id dto hsafe)
      | remove id => exact hs.of_tracks (remove_tracks id)
      | _ => cases hcounts
    | setVote type id v => exact hs.of_follows (setVote_follows type id v) trivial
    | review id dto => exact hs.of_tracks (review_tracks id dto)
    | tags o =>
      cases o with
      | create dto => exact createTag_exact hs dto
      | update id dto => exact updateTag_exact hs id dto
      | remove id => exact removeTag_exact hs id
      | setStatus id active => exact setTagStatus_exact hs id active
      | merge id target => exact merge_exact hs id target hsafe
    | _ => cases hcounts

/-- A call that does not administer tags makes the updates of `counterUpdates`, or none. -/
theorem counters_step (h : ∀ o, c.operation ≠ .tags o) :
    (s.step c).tags = s.tags ∨ (s.step c).tags = (s.bumps (counterUpdates s c)).tags := by
  have htracks : ∀ {s' : Db} {us : List (Id × Int)}, Tracks s s' us →
      s'.tags = s.tags ∨ s'.tags = (s.bumps us).tags :=
    Or.imp Follows.tags Follows.tags
  cases hcounts : c.operation.counts with
  | false => exact .inl (congrArg Prod.fst (tally_step hcounts))
  | true =>
    obtain ⟨w, user, o⟩ := c
    cases o with
    | discussions o =>
      cases o with
      | create dto => exact htracks (create_tracks dto)
      | update id dto => exact update_counters id dto
      | remove id => exact htracks (remove_tracks id)
      | _ => cases hcounts
    | setVote type id v => exact .inl (setVote_follows type id v).tags
    | review id dto => exact htracks (review_tracks id dto)
    | tags o => exact absurd rfl (h o)
    | _ => cases hcounts

/-- Along a run whose calls do not miscount, every tag counts the live discussions that are linked
to it, and no update of a counter is clamped. -/
theorem usageExact_of_meets {calls : List Call}
    (h : Meets Db.step (fun s c => miscounts s c = false) Db.empty calls) :
    Always Db.step UsageExact Db.empty calls
      ∧ Meets Db.step (fun s c => Unclamped s (counterUpdates s c)) Db.empty calls := by
  have hexact : Always Db.step TagsExact Db.empty calls :=
    always_of_meets (fun _ _ _ hs hsafe => tagsExact_step hs hsafe) tagsExact_empty h
  refine ⟨hexact.imp fun _ hs => hs.exact, hexact.meets fun s c hs => ?_⟩
  have hcounts : Counts s fun k => (s.usage k : Int) := hs.exact
  exact (hcounts.bumps (stays_counterUpdates s c)).1

namespace Sample

/-- Two tags, `0` and `1`, and a post of student `1` with the first. -/
def tagged : List Call :=
  [call 0 administrator (.tags (.create { slug := "do-thi", name := "Đồ thị" })),
    call 0 administrator (.tags (.create { slug := "graphs", name := "Graphs" })),
    openForum,
    call 1 (student 1) (.discussions (.create
      { roomId := Id.text 0, title := "Why is this graph planar?",
        content := "I do not see a drawing without a crossing.", postType := .question,
        tagIds := some [Id.text 0] }))]

/-- The author deletes the post. -/
def delete : Call := call 2 (student 1) (.discussions (.remove (Id.text 0)))

/-- The administrator merges the first tag into the second. -/
def mergeTags : Call := call 3 administrator (.tags (.merge (Id.text 0) (Id.text 1)))

end Sample

theorem usageExact_merged :
    Always Db.step UsageExact Db.empty (Sample.tagged ++ [Sample.mergeTags])
      ∧ Meets Db.step (fun s c => Unclamped s (counterUpdates s c)) Db.empty
        (Sample.tagged ++ [Sample.mergeTags]) :=
  usageExact_of_meets (by decide)

/-- After a merge, the tag counts a post that was deleted before. -/
theorem not_usageExact_after : ¬ ∀ calls, UsageExact (Db.after calls) := by
  intro h
  have := h (Sample.tagged ++ [Sample.delete, Sample.mergeTags])
  revert this
  decide

end AcaSocial
