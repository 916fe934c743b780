import AcaSocial.Base.Forest
import AcaSocial.Discussion.TagUsageRuns

/-!
# Merged tags

`tags.merge` gives the links of one tag to another and leaves the first as `merged`, with a pointer to the second,
which may be merged in its turn.

* **`TagsStep`** — what a call can do to tags and links, said once; `tags_step` says that it can do nothing else.
* **`MergesResolved`** — following the pointers ends at a tag that is not merged, and merged tags are out of use.
* **`merges_resolved`** — this holds in every run, and a merge moves exactly the links of its source.
-/

namespace AcaSocial

open DiscussionsService

variable {w : World} {s s' : Db} {user : GatewayUser} {c : Call} {us : List (Id × Int)}

/-! ## Updates of counters

The calls on posts write counters, and raise no counter of a tag that is not active. -/

/-- Only the counters of active tags are counted up. -/
def RaisesActive (s : Db) (us : List (Id × Int)) : Prop :=
  ∀ u ∈ us, 0 < u.2 → ∃ t, s.tags.get? u.1 = some t ∧ t.status = .active

/-- An update writes the counter of one tag. -/
theorem get?_bumpTag {delta : Int} {j k : Id} : (s.bumpTag delta j).tags.get? k
    = (s.tags.get? k).map fun t => if t.id = j then { t with usageCount := max (t.usageCount + delta) 0 } else t :=
  Table.get?_modify _ _ (fun t => by split <;> rfl) _

/-- Updates of counters write nothing else, and a counter at zero that is not counted up stays there. -/
theorem get?_bumps {k : Id} {t' : Tag} (h : (s.bumps us).tags.get? k = some t') :
    ∃ t, s.tags.get? k = some t ∧ t'.status = t.status ∧ t'.mergedIntoTagId = t.mergedIntoTagId
      ∧ (t.usageCount = 0 → (∀ u ∈ us, u.1 = k → u.2 ≤ 0) → t'.usageCount = 0) := by
  induction us generalizing s with
  | nil => exact ⟨t', h, rfl, rfl, fun hzero _ => hzero⟩
  | cons u us ih =>
    obtain ⟨t₁, ht₁, hstatus, hmerged, hcount⟩ := ih h
    rw [get?_bumpTag, Option.map_eq_some_iff] at ht₁
    obtain ⟨t, ht, rfl⟩ := ht₁
    have hid : t.id = k := (Table.get?_eq_some.mp ht).2
    refine ⟨t, ht, ?_, ?_, fun hzero hdown => hcount ?_ fun u' hu' => hdown u' (List.mem_cons_of_mem u hu')⟩
    · rw [hstatus]
      split <;> rfl
    · rw [hmerged]
      split <;> rfl
    · by_cases hk : t.id = u.1
      · have hle := hdown u List.mem_cons_self (hk.symm.trans hid)
        rw [if_pos hk]
        show max (t.usageCount + u.2) 0 = 0
        omega
      · rw [if_neg hk]
        exact hzero

/-- The tags that a check has found are there and active. -/
theorem tags_active {ids : List UuidText} {e : HttpError} {tags : List Tag}
    (h : DiscussionsService.tags s ids e = .ok tags) {k : Id} (hk : k ∈ tags.map (·.id)) :
    ∃ t, s.tags.get? k = some t ∧ t.status = .active := by
  obtain ⟨htags, -, hactive⟩ := tags_eq_ok.mp h
  obtain ⟨t, ht, rfl⟩ := List.mem_map.mp hk
  have hmem : t ∈ s.tags := by
    rw [htags] at ht
    exact (Table.mem_select.mp ht).1
  exact ⟨t, Table.get?_key hmem, hactive t ht⟩

/-- Decrements raise nothing. -/
theorem raisesActive_neg (ids : List UuidText) : RaisesActive s (countingUpdates ids (-1)) := by
  intro u hu hpos
  obtain ⟨t, -, rfl⟩ := mem_countingUpdates.mp hu
  cases hpos

/-- A new post raises the counters of active tags. -/
theorem raisesActive_create {ids : List UuidText} {e : HttpError} {tags : List Tag}
    (h : DiscussionsService.tags s ids e = .ok tags) : RaisesActive s (countingUpdates ids 1) := by
  intro u hu _
  obtain ⟨t, ht, rfl⟩ := mem_countingUpdates.mp hu
  exact tags_active h ((tags_perm h).mem_iff.mpr (List.mem_map_of_mem ht))

/-- An edit raises the counters of active tags. -/
theorem raisesActive_retag {d : Id} {ids : List UuidText} {e : HttpError} {tags : List Tag}
    (h : DiscussionsService.tags s ids e = .ok tags) : RaisesActive s (retagUpdates s d ids) := by
  intro u hu hpos
  rcases List.mem_append.mp hu with hu | hu
  · exact raisesActive_neg _ u hu hpos
  · obtain ⟨t, ht, rfl⟩ := mem_countingUpdates.mp hu
    obtain ⟨k, hk, rfl⟩ := List.mem_map.mp ht
    have hk := (List.mem_filter.mp hk).1
    rw [← (tags_eq_ok.mp h).1] at hk
    exact tags_active h hk

/-- A published draft raises the counters of active tags. -/
theorem raisesActive_draft {d : Id} {draft : PendingRevision} {e : HttpError} {tags : List Tag}
    (h : DiscussionsService.tags s draft.tagIds e = .ok tags) : RaisesActive s (draftUpdates s d draft) := by
  intro u hu hpos
  obtain ⟨t, -, rfl⟩ := List.mem_map.mp hu
  have hpos : 0 < ModerationService.delta s d draft t := hpos
  have hmem : t ∈ draft.tagIds := by
    by_contra hnot
    rw [ModerationService.delta, if_neg hnot] at hpos
    split at hpos <;> omega
  exact tags_active h ((tags_perm h).mem_iff.mpr (List.mem_map_of_mem hmem))

/-! ## Steps

What a call does to the table of tags: it adds tags, writes counters, or does what a method on tags does. -/

/-- What a call can do to tags and their links. -/
inductive TagsStep (s s' : Db) : Prop where
  | counted (us : List (Id × Int)) (htags : s'.tags = (s.bumps us).tags) (hraises : RaisesActive s us)
      (hlinks : ∀ l ∈ s'.discussionTags, l ∈ s.discussionTags
        ∨ ∃ t, s.tags.get? l.tagId = some t ∧ t.status = .active)
  | created (t : Tag) (hid : t.id = s.tags.next) (hfresh : t.status = .active ∧ t.mergedIntoTagId = none)
      (htags : ∀ k, s'.tags.get? k = if s.tags.next = k then some t else s.tags.get? k)
      (hnext : s.tags.next ≤ s'.tags.next) (hlinks : s'.discussionTags = s.discussionTags)
  | saved (t₀ t : Tag) (ht₀ : s.tags.get? t.id = some t₀)
      (hkept : t.mergedIntoTagId = t₀.mergedIntoTagId ∧ t.usageCount = t₀.usageCount)
      (hstatus : t.status = t₀.status ∨ t.status ≠ .merged ∧ t₀.status ≠ .merged)
      (htags : s'.tags = s.tags.save t) (hlinks : s'.discussionTags = s.discussionTags)
  | removed (t : Tag) (ht : s.tags.get? t.id = some t)
      (hkey : ∀ t' ∈ s.tags, t'.id ≠ t.id → t'.mergedIntoTagId ≠ some t.id)
      (htags : ∀ k, s'.tags.get? k = if k = t.id then none else s.tags.get? k)
      (hnext : s.tags.next ≤ s'.tags.next) (hlinks : ∀ l, l ∈ s'.discussionTags ↔ l ∈ s.discussionTags ∧ l.tagId ≠ t.id)
  | merged (source target target' : Tag) (hsource : s.tags.get? source.id = some source)
      (htarget : s.tags.get? target.id = some target) (hne : source.id ≠ target.id)
      (hstatus : source.status ≠ .merged ∧ target.status = .active)
      (hsaved : target'.id = target.id ∧ target'.status = target.status
        ∧ target'.mergedIntoTagId = target.mergedIntoTagId)
      (htags : s'.tags = (s.tags.save (mergedSource source target.id)).save target')
      (hlinks : s'.discussionTags = (TagsService.moveLinks s source.id target.id).discussionTags)

/-- A call that is no administration of tags links to what was linked, or to an active tag. -/
theorem linked_step (h : ∀ o, c.operation ≠ .tags o) {l : DiscussionTag} (hl : l ∈ (s.step c).discussionTags) :
    l ∈ s.discussionTags ∨ ∃ t, s.tags.get? l.tagId = some t ∧ t.status = .active := by
  -- the links of one post: what the step of its thread adds has been looked up as active
  have hthread : ∀ {t t' : Thread} {i k : Id}, ThreadStep s c i t t' → k ∈ t'.tagIds →
      k ∈ t.tagIds ∨ ∃ t, s.tags.get? k = some t ∧ t.status = .active := by
    intro t t' i k hstep hk
    cases hstep with
    | created _ _ _ _ htags => exact .inr (tags_active htags hk)
    | edited _ _ _ _ _ _ _ htags =>
      rcases htags with ⟨-, rfl⟩ | ⟨ids, tags, -, htags, rfl⟩
      · exact .inl hk
      · exact .inr (tags_active htags hk)
    | @reviewed p id dto actor reason tagIds media _ _ _ _ hkept hdraft =>
      -- only an accepted draft sets tags
      by_cases hallow : dto.decision = .allow
      · cases hd : ModerationService.draftOf p with
        | none =>
          obtain ⟨rfl, -⟩ := hkept (.inr hd)
          left
          split at hk <;> exact hk
        | some d =>
          obtain ⟨-, tags, e, htags, rfl⟩ := hdraft d hallow hd
          exact .inr (tags_active htags hk)
      · obtain ⟨rfl, -⟩ := hkept (.inl hallow)
        left
        split at hk <;> exact hk
    | answerAccepted =>
      left
      split at hk <;> exact hk
    | tagMerged hop | tagRemoved hop => exact absurd hop (h _)
    | _ => exact .inl hk
  have hlink := hthread (thread_step s c l.discussionId) (mem_tagIdsOf.mpr hl)
  exact hlink.imp_left mem_tagIdsOf.mp

/-- A call on something else leaves the tags. -/
theorem TagsStep.of_same (htags : (s.step c).tags = s.tags) (h : ∀ o, c.operation ≠ .tags o) :
    TagsStep s (s.step c) :=
  .counted [] htags (fun _ hu => (by cases hu)) fun _ => linked_step h

section Operations

/-- A new post leaves the tags or counts its own. -/
theorem createOf_counts (dto : CreateDiscussionDto) : (create w s user dto).state.tags = s.tags
    ∨ ∃ us, (create w s user dto).state.tags = (s.bumps us).tags ∧ RaisesActive s us := by
  refine attempt_induction (P := fun s' : Db => s'.tags = s.tags ∨ ∃ us, s'.tags = (s.bumps us).tags
    ∧ RaisesActive s us) (.inl rfl) fun prelude _ => ?_
  obtain ⟨author, selected⟩ := prelude
  have hs := autoJoin_toContent s dto.roomId.id author
  refine commit_induction (P := fun s' : Db => s'.tags = s.tags ∨ ∃ us, s'.tags = (s.bumps us).tags
    ∧ RaisesActive s us) (.inl (congrArg Content.tags hs)) fun s' k h => ?_
  simp only [bind_eq_ok, createTx, pure_eq_ok, Prod.mk.injEq] at h
  obtain ⟨room, -, -, -, tags, htags, s₁, hrev, rfl, -⟩ := h
  have hs₁ := insertRevision_tags hrev
  rw [tagCounts_eq_bumps] at hs₁
  rw [tags_congr hs] at htags
  exact .inr ⟨_, hs₁.trans (bumps_tags_congr (by rfl) _), raisesActive_create htags⟩

/-- An edit leaves the tags or counts those that change. -/
theorem updateOf_counts (id : UuidText) (dto : UpdateDiscussionDto) : (update w s id user dto).state.tags = s.tags
    ∨ ∃ us, (update w s id user dto).state.tags = (s.bumps us).tags ∧ RaisesActive s us := by
  refine attempt_induction (P := fun s' : Db => s'.tags = s.tags ∨ ∃ us, s'.tags = (s.bumps us).tags
    ∧ RaisesActive s us) (.inl rfl) fun prelude hprelude => ?_
  obtain ⟨editor, p⟩ := prelude
  have hp := (updatePrelude_eq_ok hprelude).2.1
  have hs := autoJoinTo_toContent s p.roomId p.authorId
  refine commit_induction (P := fun s' : Db => s'.tags = s.tags ∨ ∃ us, s'.tags = (s.bumps us).tags
    ∧ RaisesActive s us) (.inl (congrArg Content.tags hs)) fun s' u h => ?_
  simp only [bind_eq_ok, updateTx, require_eq_ok] at h
  obtain ⟨policy, -, -, -, -, -, h⟩ := h
  split at h
  · exact .inl (saveDraft_follows hs hp h).tags
  · have htags := saveEdit_tags h
    simp only [retagUpdates_congr hs] at htags
    refine .inr ⟨_, htags.trans (bumps_tags_congr (congrArg Content.tags hs) _), ?_⟩
    cases hids : dto.tagIds with
    | none => exact fun _ hu => (by cases hu)
    | some ids =>
      obtain ⟨tagIds, hfound, -⟩ := saveEdit_thread (hs ▸ hp) h
      rcases hfound with ⟨hnone, -⟩ | ⟨ids', tags, hsome, hfound, -⟩
      · cases hids.symm.trans hnone
      · obtain rfl := Option.some.inj (hids.symm.trans hsome)
        rw [tags_congr hs] at hfound
        exact raisesActive_retag hfound

/-- A review leaves the tags or counts those that change. -/
theorem reviewOf_counts (id : UuidText) (dto : ReviewContentDto) :
    (ModerationService.review w s id dto user).state.tags = s.tags
      ∨ ∃ us, (ModerationService.review w s id dto user).state.tags = (s.bumps us).tags ∧ RaisesActive s us := by
  refine commit_induction (P := fun s' : Db => s'.tags = s.tags ∨ ∃ us, s'.tags = (s.bumps us).tags
    ∧ RaisesActive s us) (.inl rfl) fun s' r h => ?_
  simp only [bind_eq_ok, authenticated_eq_ok] at h
  obtain ⟨actor, -, scope, -, -, -, h⟩ := h
  obtain ⟨p, s₁, tagIds, media, -, -, hpublish, hs₁, -, hdraft, -⟩ := reviewTx_thread h
  rcases publish_tags hpublish with ⟨htags, -⟩ | ⟨d, hallow, hd, htags⟩
  · exact .inl (hs₁.trans htags)
  · obtain ⟨-, tags, e, hfound, -⟩ := hdraft d hallow hd
    exact .inr ⟨_, hs₁.trans htags, raisesActive_draft hfound⟩

/-- A tag is saved with its pointer and its counter. -/
theorem TagsStep.of_save {t₀ t : Tag} {k : Id} (ht₀ : s.tags.get? k = some t₀) (hid : t.id = t₀.id)
    (hkept : t.mergedIntoTagId = t₀.mergedIntoTagId ∧ t.usageCount = t₀.usageCount)
    (hstatus : t.status = t₀.status ∨ t.status ≠ .merged ∧ t₀.status ≠ .merged) :
    TagsStep s (TagsService.saveTag s t) := by
  refine .saved t₀ t ?_ hkept hstatus rfl rfl
  rw [hid, (Table.get?_eq_some.mp ht₀).2]
  exact ht₀

/-- The methods on tags do what they say. -/
theorem tagsOf_step (o : TagsOperation) : TagsStep s (s.step ⟨w, user, .tags o⟩) := by
  have hsame : TagsStep s s := .counted [] rfl (fun _ hu => (by cases hu)) fun _ => .inl
  cases o with
  | create dto =>
    show TagsStep s (TagsService.create w s dto user).state
    refine commit_induction (P := TagsStep s) hsame fun s' t h => ?_
    simp only [bind_eq_ok, pure_eq_ok, Prod.mk.injEq] at h
    obtain ⟨-, -, -, -, -, -, -, -, rfl, ht⟩ := h
    refine .created t ?_ ⟨?_, ?_⟩ (fun k => ?_) (Nat.le_succ _) rfl
    · rw [← ht]
    · rw [← ht]
    · rw [← ht]
    · show (s.tags.insert _ _).get? k = _
      rw [Serial.get?_insert]
      split
      · next hk => rw [← hk, ht]
      · rfl
  | update id dto =>
    show TagsStep s (TagsService.update s id dto user).state
    refine commit_induction (P := TagsStep s) hsame fun s' t h => ?_
    simp only [TagsService.findTag, bind_eq_ok, orThrow_eq_ok, pure_eq_ok, Prod.mk.injEq] at h
    obtain ⟨-, -, t₀, ht₀, -, -, -, -, rfl, -⟩ := h
    exact .of_save ht₀ rfl ⟨rfl, rfl⟩ (.inl rfl)
  -- the status is saved for tags that are not merged only
  | setStatus id active =>
    show TagsStep s (TagsService.setStatus s id active user).state
    refine commit_induction (P := TagsStep s) hsame fun s' t h => ?_
    simp only [TagsService.findTag, bind_eq_ok, orThrow_eq_ok, require_eq_ok, pure_eq_ok, Prod.mk.injEq] at h
    obtain ⟨-, -, t₀, ht₀, -, hopen, rfl, -⟩ := h
    refine .of_save ht₀ rfl ⟨rfl, rfl⟩ (.inr ⟨?_, hopen⟩)
    cases active <;> intro h <;> cases h
  -- the foreign key keeps tags that others were merged into
  | remove id =>
    show TagsStep s (TagsService.remove s id user).state
    refine commit_induction (P := TagsStep s) hsame fun s' u h => ?_
    simp only [TagsService.findTag, bind_eq_ok, orThrow_eq_ok, require_eq_ok, pure_eq_ok, Prod.mk.injEq] at h
    obtain ⟨-, -, t, ht, -, -, -, hkey, rfl, -⟩ := h
    have hid := (Table.get?_eq_some.mp ht).2
    refine .removed t (hid ▸ ht) (fun t' ht' hne hinto => ?_) (fun k => ?_) (Nat.le_refl _) fun l => ?_
    · apply hkey
      exact List.any_eq_true.mpr ⟨t', ht', decide_eq_true ⟨hne, hinto⟩⟩
    · show (s.tags.toTable.erase _).get? k = _
      rw [Table.get?_erase]
      cases hk : s.tags.get? k with
      | none => simp [Option.filter]
      | some t₁ =>
        have hid₁ : t₁.id = k := (Table.get?_eq_some.mp hk).2
        by_cases heq : k = t.id <;> simp [Option.filter, hid₁, heq]
    · show l ∈ s.discussionTags.erase _ ↔ _
      rw [Table.mem_erase, decide_eq_false_iff_not]
  | merge id target =>
    show TagsStep s (TagsService.merge s id target user).state
    refine commit_induction (P := TagsStep s) hsame fun s' saved h => ?_
    obtain ⟨source', target'⟩ := saved
    obtain ⟨-, -, h⟩ := bind_eq_ok.mp h
    obtain ⟨source, tgt, hsource, htarget, hne, hsid, htid, hstatus, hactive, rfl, rfl, rfl⟩ := mergeTx_eq_ok h
    refine .merged source tgt (mergedTarget tgt _) ?_ ?_ (fun he => hne ?_) ⟨hstatus, hactive⟩ ⟨rfl, rfl, rfl⟩ rfl rfl
    · rw [(Table.get?_eq_some.mp hsource).2]
      exact hsource
    · rw [(Table.get?_eq_some.mp htarget).2]
      exact htarget
    · rw [← hsid, ← htid, he]

end Operations

/-- **What a call does to tags and links.** -/
theorem tags_step (s : Db) (c : Call) : TagsStep s (s.step c) := by
  obtain ⟨w, user, o⟩ := c
  -- the operations on posts change counters at most
  have hcounts : (∀ o', o ≠ .tags o') → ((s.step ⟨w, user, o⟩).tags = s.tags
      ∨ ∃ us, (s.step ⟨w, user, o⟩).tags = (s.bumps us).tags ∧ RaisesActive s us) →
      TagsStep s (s.step ⟨w, user, o⟩) := by
    rintro ho (hsame | ⟨us, htags, hraises⟩)
    · exact .of_same hsame ho
    · exact .counted us htags hraises fun _ => linked_step ho
  cases o with
  | tags o => exact tagsOf_step o
  | discussions o =>
    cases o with
    | create dto => exact hcounts (fun _ h => by cases h) (createOf_counts dto)
    | update id dto => exact hcounts (fun _ h => by cases h) (updateOf_counts id dto)
    | remove id =>
      refine hcounts (fun _ h => by cases h) ?_
      -- a deletion only counts down, so it raises no counter of a merged tag
      have htracks : Tracks s (DiscussionsService.remove w s id user).state
          (counterUpdates s ⟨w, user, .discussions (.remove id)⟩) := remove_tracks id
      rcases htracks with h | h
      · exact .inl h.tags
      · refine .inr ⟨_, h.tags, ?_⟩
        unfold counterUpdates
        dsimp only
        split
        · exact raisesActive_neg _
        · exact fun _ hu => (by cases hu)
    | _ => exact .of_same (congrArg Prod.fst (tally_step (by rfl))) (fun _ h => by cases h)
  | review id dto => exact hcounts (fun _ h => by cases h) (reviewOf_counts id dto)
  | setVote type id v => exact .of_same (setVote_follows type id v).tags (fun _ h => by cases h)
  | _ => exact .of_same (congrArg Prod.fst (tally_step (by rfl))) (fun _ h => by cases h)

/-! ## The invariant

A merged tag has no links, leads to a tag, and stays merged. -/

/-- The tag that a tag was merged into. -/
def mergedInto (s : Db) (k : Id) : Option Id := (s.tags.get? k).bind (·.mergedIntoTagId)

/-- Following the pointers ends, and a merged tag has a pointer, no links and no uses. -/
structure MergesResolved (s : Db) : Prop where
  pointer : ∀ t ∈ s.tags, t.status = .merged ↔ t.mergedIntoTagId.isSome
  target : ∀ t ∈ s.tags, ∀ k, t.mergedIntoTagId = some k → (s.tags.get? k).isSome
  forest : Forest (mergedInto s)
  unlinked : ∀ l ∈ s.discussionTags, ∀ t, s.tags.get? l.tagId = some t → t.status ≠ .merged
  there : ∀ l ∈ s.discussionTags, (s.tags.get? l.tagId).isSome
  unused : ∀ t ∈ s.tags, t.status = .merged → t.usageCount = 0

/-- Tags with the status and the pointer that they had, of which the merged ones are not used more. -/
theorem MergesResolved.of_same (h : MergesResolved s)
    (htags : ∀ k t', s'.tags.get? k = some t' → ∃ t, s.tags.get? k = some t
      ∧ t'.mergedIntoTagId = t.mergedIntoTagId ∧ (t'.status = .merged ↔ t.status = .merged)
      ∧ (t.status = .merged → t.usageCount = 0 → t'.usageCount = 0))
    (hthere : ∀ k, (s'.tags.get? k).isSome = (s.tags.get? k).isSome)
    (hlinks : ∀ l ∈ s'.discussionTags, l ∈ s.discussionTags ∨ ∃ t, s.tags.get? l.tagId = some t ∧ t.status = .active) :
    MergesResolved s' := by
  have hmem : ∀ t' ∈ s'.tags, ∃ t ∈ s.tags, t'.mergedIntoTagId = t.mergedIntoTagId
      ∧ (t'.status = .merged ↔ t.status = .merged) ∧ (t.status = .merged → t.usageCount = 0 → t'.usageCount = 0) := by
    intro t' ht'
    obtain ⟨t, ht, hrest⟩ := htags t'.id t' (Table.get?_key ht')
    exact ⟨t, (Table.get?_eq_some.mp ht).1, hrest⟩
  -- the pointers have not moved, so the forest is the same
  have hnext : mergedInto s' = mergedInto s := by
    funext k
    show (s'.tags.get? k).bind _ = (s.tags.get? k).bind _
    cases ht' : s'.tags.get? k with
    | none =>
      have hnone := hthere k
      rw [ht'] at hnone
      rw [Option.isSome_eq_false_iff.mp hnone.symm |> Option.isNone_iff_eq_none.mp]
    | some t' =>
      obtain ⟨t, ht, hinto, -⟩ := htags k t' ht'
      rw [ht]
      exact hinto
  constructor
  · intro t' ht'
    obtain ⟨t, ht, hinto, hstatus, -⟩ := hmem t' ht'
    rw [hstatus, hinto, h.pointer t ht]
  · intro t' ht' k hk
    obtain ⟨t, ht, hinto, -⟩ := hmem t' ht'
    rw [hthere]
    exact h.target t ht k (hinto ▸ hk)
  · rw [hnext]
    exact h.forest
  · intro l hl t' ht'
    obtain ⟨t, ht, -, hstatus, -⟩ := htags _ _ ht'
    rw [Ne, hstatus]
    rcases hlinks l hl with hl | ⟨t₀, ht₀, hactive⟩
    · exact h.unlinked l hl t ht
    · obtain rfl := Option.some.inj (ht.symm.trans ht₀)
      rw [hactive]
      intro h
      cases h
  · intro l hl
    rw [hthere]
    rcases hlinks l hl with hl | ⟨t₀, ht₀, -⟩
    · exact h.there l hl
    · rw [ht₀]
      rfl
  · intro t' ht' hmerged
    obtain ⟨t, ht, -, hstatus, hcount⟩ := hmem t' ht'
    exact hcount (hstatus.mp hmerged) (h.unused t ht (hstatus.mp hmerged))

/-- A new tag points to nothing, and nothing is linked to it. -/
theorem MergesResolved.created (h : MergesResolved s) {t : Tag} (hid : t.id = s.tags.next)
    (hfresh : t.status = .active ∧ t.mergedIntoTagId = none)
    (htags : ∀ k, s'.tags.get? k = if s.tags.next = k then some t else s.tags.get? k)
    (hlinks : s'.discussionTags = s.discussionTags) : MergesResolved s' := by
  have hold : ∀ {k t₀}, s.tags.get? k = some t₀ → s'.tags.get? k = some t₀ := by
    intro k t₀ ht₀
    rw [htags, if_neg, ht₀]
    intro he
    rw [← he, s.tags.get?_next] at ht₀
    cases ht₀
  have hmem : ∀ t' ∈ s'.tags, t' = t ∨ t' ∈ s.tags := by
    intro t' ht'
    have hget : s'.tags.get? t'.id = some t' := Table.get?_key ht'
    rw [htags] at hget
    split at hget
    · exact .inl (Option.some.inj hget).symm
    · exact .inr (Table.get?_eq_some.mp hget).1
  -- a new tag has no pointer
  have hnext : mergedInto s' = mergedInto s := by
    funext k
    show (s'.tags.get? k).bind _ = (s.tags.get? k).bind _
    rw [htags]
    split
    · next hk =>
      rw [← hk, s.tags.get?_next]
      exact hfresh.2
    · rfl
  constructor
  · intro t' ht'
    rcases hmem t' ht' with rfl | ht'
    · rw [hfresh.1, hfresh.2]
      exact iff_of_false (fun h => by cases h) (fun h => by cases h)
    · exact h.pointer t' ht'
  · intro t' ht' k hk
    rcases hmem t' ht' with rfl | ht'
    · cases hfresh.2.symm.trans hk
    · obtain ⟨t₀, ht₀⟩ := Option.isSome_iff_exists.mp (h.target t' ht' k hk)
      exact Option.isSome_of_eq_some (hold ht₀)
  · rw [hnext]
    exact h.forest
  · intro l hl t' ht'
    rw [hlinks] at hl
    obtain ⟨t₀, ht₀⟩ := Option.isSome_iff_exists.mp (h.there l hl)
    obtain rfl := Option.some.inj ((hold ht₀).symm.trans ht')
    exact h.unlinked l hl t₀ ht₀
  · intro l hl
    rw [hlinks] at hl
    obtain ⟨t₀, ht₀⟩ := Option.isSome_iff_exists.mp (h.there l hl)
    exact Option.isSome_of_eq_some (hold ht₀)
  · intro t' ht' hmerged
    rcases hmem t' ht' with rfl | ht'
    · cases hfresh.1.symm.trans hmerged
    · exact h.unused t' ht' hmerged

/-- A tag that nothing was merged into goes with its links. -/
theorem MergesResolved.removed (h : MergesResolved s) {t : Tag}
    (hkey : ∀ t' ∈ s.tags, t'.id ≠ t.id → t'.mergedIntoTagId ≠ some t.id)
    (htags : ∀ k, s'.tags.get? k = if k = t.id then none else s.tags.get? k)
    (hlinks : ∀ l, l ∈ s'.discussionTags ↔ l ∈ s.discussionTags ∧ l.tagId ≠ t.id) : MergesResolved s' := by
  have hmem : ∀ t' ∈ s'.tags, t' ∈ s.tags ∧ t'.id ≠ t.id := by
    intro t' ht'
    have hget : s'.tags.get? t'.id = some t' := Table.get?_key ht'
    rw [htags] at hget
    split at hget
    · cases hget
    · next hne => exact ⟨(Table.get?_eq_some.mp hget).1, hne⟩
  -- the pointer of the tag goes with it
  have hnext : mergedInto s' = Function.update (mergedInto s) t.id none := by
    funext k
    show (s'.tags.get? k).bind _ = _
    rw [htags]
    by_cases hk : k = t.id
    · rw [if_pos hk, hk, update_self]
      rfl
    · rw [if_neg hk, update_of_ne hk]
      rfl
  constructor
  · intro t' ht'
    exact h.pointer t' (hmem t' ht').1
  · intro t' ht' k hk
    obtain ⟨ht', hne⟩ := hmem t' ht'
    rw [htags, if_neg]
    · exact h.target t' ht' k hk
    · intro he
      exact hkey t' ht' hne (he ▸ hk)
  · rw [hnext]
    exact h.forest.update_none t.id
  · intro l hl t' ht'
    obtain ⟨hl, hne⟩ := (hlinks l).mp hl
    rw [htags, if_neg hne] at ht'
    exact h.unlinked l hl t' ht'
  · intro l hl
    obtain ⟨hl, hne⟩ := (hlinks l).mp hl
    rw [htags, if_neg hne]
    exact h.there l hl
  · intro t' ht' hmerged
    exact h.unused t' (hmem t' ht').1 hmerged

/-- What a merge makes of the tags. -/
theorem get?_merged {source target target' : Tag} (hsource : s.tags.get? source.id = some source)
    (htarget : s.tags.get? target.id = some target) (hne : source.id ≠ target.id) (hid : target'.id = target.id)
    (htags : s'.tags = (s.tags.save (mergedSource source target.id)).save target') (k : Id) :
    s'.tags.get? k = if k = target.id then some target' else if k = source.id then
      some (mergedSource source target.id) else s.tags.get? k := by
  rw [htags]
  show ((s.tags.toTable.save (mergedSource source target.id)).save target').get? k = _
  rw [Table.get?_save, Table.get?_save]
  have hsid : (mergedSource source target.id).id = source.id := rfl
  rw [hid, hsid]
  by_cases hk : target.id = k
  · subst hk
    rw [if_pos rfl, if_pos rfl, if_neg hne, htarget]
    rfl
  · rw [if_neg hk, if_neg (Ne.symm hk)]
    by_cases hk' : source.id = k
    · subst hk'
      rw [if_pos rfl, if_pos rfl, hsource]
      rfl
    · rw [if_neg hk', if_neg (Ne.symm hk')]

/-- A merge makes one tree of two, and leaves no link to its source. -/
theorem MergesResolved.merged (h : MergesResolved s) {source target target' : Tag}
    (hsource : s.tags.get? source.id = some source) (htarget : s.tags.get? target.id = some target)
    (hne : source.id ≠ target.id) (hstatus : source.status ≠ .merged ∧ target.status = .active)
    (hsaved : target'.id = target.id ∧ target'.status = target.status
      ∧ target'.mergedIntoTagId = target.mergedIntoTagId)
    (htags : s'.tags = (s.tags.save (mergedSource source target.id)).save target')
    (hlinks : s'.discussionTags = (TagsService.moveLinks s source.id target.id).discussionTags) :
    MergesResolved s' := by
  have hget := get?_merged hsource htarget hne hsaved.1 htags
  -- source and target are both roots before
  have hroot : ∀ {t : Tag}, t ∈ s.tags → t.status ≠ .merged → t.mergedIntoTagId = none := by
    intro t ht hopen
    have hnone := mt (h.pointer t ht).mpr hopen
    simpa using hnone
  have hsourceRoot := hroot (Table.get?_eq_some.mp hsource).1 hstatus.1
  have htargetRoot : target.mergedIntoTagId = none := by
    apply hroot (Table.get?_eq_some.mp htarget).1
    rw [hstatus.2]
    intro h
    cases h
  have hmem : ∀ t' ∈ s'.tags, t' = target' ∨ t' = mergedSource source target.id ∨ t' ∈ s.tags := by
    intro t' ht'
    have hkey : s'.tags.get? t'.id = some t' := Table.get?_key ht'
    rw [hget] at hkey
    split at hkey
    · exact .inl (Option.some.inj hkey).symm
    · split at hkey
      · exact .inr (.inl (Option.some.inj hkey).symm)
      · exact .inr (.inr (Table.get?_eq_some.mp hkey).1)
  have hthere : ∀ {k}, (s.tags.get? k).isSome → (s'.tags.get? k).isSome := by
    intro k hk
    rw [hget]
    split
    · rfl
    · split
      · rfl
      · exact hk
  -- one pointer is new
  have hnext : mergedInto s' = Function.update (mergedInto s) source.id (some target.id) := by
    funext k
    show (s'.tags.get? k).bind _ = _
    rw [hget]
    by_cases hk : k = target.id
    · subst hk
      rw [if_pos rfl, update_of_ne (Ne.symm hne), mergedInto, htarget]
      show target'.mergedIntoTagId = target.mergedIntoTagId
      exact hsaved.2.2
    · rw [if_neg hk]
      by_cases hk' : k = source.id
      · subst hk'
        rw [if_pos rfl, update_self]
        rfl
      · rw [if_neg hk', update_of_ne hk']
        rfl
  constructor
  · intro t' ht'
    rcases hmem t' ht' with rfl | rfl | ht'
    · rw [hsaved.2.1, hsaved.2.2]
      exact h.pointer target (Table.get?_eq_some.mp htarget).1
    · exact iff_of_true rfl rfl
    · exact h.pointer t' ht'
  · intro t' ht' k hk
    rcases hmem t' ht' with rfl | rfl | ht'
    · cases (hsaved.2.2.trans htargetRoot).symm.trans hk
    · obtain rfl := Option.some.inj hk
      exact hthere (Option.isSome_of_eq_some htarget)
    · exact hthere (h.target t' ht' k hk)
  · -- the way from the target ends there, and does not pass the source
    rw [hnext]
    have hend : EndsAt (mergedInto s) target.id target.id := by
      apply EndsAt.here
      rw [mergedInto, htarget]
      exact htargetRoot
    refine (forest_update_iff h.forest).mpr fun hreach => ?_
    exact hne ((hend.of_reaches hreach).of_root (by rw [mergedInto, hsource]; exact hsourceRoot)).symm
  · intro l hl t' ht'
    rw [hlinks] at hl
    obtain ⟨hother, hl⟩ := mem_moveLinks.mp hl
    rw [hget, if_neg (c := l.tagId = source.id) hother] at ht'
    split at ht'
    · obtain rfl := Option.some.inj ht'
      rw [hsaved.2.1, hstatus.2]
      intro h
      cases h
    · next htag =>
      rcases hl with hl | ⟨htag', -⟩
      · exact h.unlinked l hl t' ht'
      · exact absurd htag' htag
  · intro l hl
    rw [hlinks] at hl
    obtain ⟨-, hl | ⟨htag, -⟩⟩ := mem_moveLinks.mp hl
    · exact hthere (h.there l hl)
    · rw [htag]
      exact hthere (Option.isSome_of_eq_some htarget)
  · intro t' ht' hmerged
    rcases hmem t' ht' with rfl | rfl | ht'
    · rw [hsaved.2.1, hstatus.2] at hmerged
      cases hmerged
    · rfl
    · exact h.unused t' ht' hmerged

/-! ## Runs

The invariant holds along every run, and gives where a merge leads in the end. -/

/-- One call keeps the invariant. -/
theorem mergesResolved_step (h : MergesResolved s) : MergesResolved (s.step c) := by
  cases tags_step s c with
  | counted us htags hraises hlinks =>
    have hget : ∀ k, (s.step c).tags.get? k = (s.bumps us).tags.get? k := fun k => by rw [htags]
    refine h.of_same (fun k t' ht' => ?_) (fun k => ?_) hlinks
    · rw [hget] at ht'
      obtain ⟨t, ht, hstatus, hinto, hcount⟩ := get?_bumps ht'
      refine ⟨t, ht, hinto, by rw [hstatus], fun hmerged hzero => hcount hzero fun u hu hk => ?_⟩
      -- an update that counts a merged tag up would be one of an active tag
      by_contra hup
      obtain ⟨t₀, ht₀, hactive⟩ := hraises u hu (not_le.mp hup)
      rw [hk, ht] at ht₀
      rw [Option.some.inj ht₀, hactive] at hmerged
      cases hmerged
    · rw [hget, get?_bumps_isSome]
  | created t hid hfresh htags _ hlinks => exact h.created hid hfresh htags hlinks
  | saved t₀ t ht₀ hkept hstatus htags hlinks =>
    refine h.of_same (fun k t' ht' => ?_) (fun k => ?_) fun l hl => .inl (hlinks ▸ hl)
    · rw [htags] at ht'
      have ht' : (s.tags.toTable.save t).get? k = some t' := ht'
      by_cases hk : t.id = k
      · subst hk
        obtain rfl := Option.some.inj ((Table.get?_save_self ht₀).symm.trans ht')
        refine ⟨t₀, ht₀, hkept.1, ?_, fun _ hzero => hkept.2.trans hzero⟩
        rcases hstatus with hsame | ⟨hnew, hold⟩
        · rw [hsame]
        · exact iff_of_false hnew hold
      · rw [Table.get?_save_of_ne hk] at ht'
        exact ⟨t', ht', rfl, Iff.rfl, fun _ hzero => hzero⟩
    · rw [htags]
      exact Table.isSome_get?_save s.tags.toTable t k
  | removed t _ hkey htags _ hlinks => exact h.removed hkey htags hlinks
  | merged source target target' hsource htarget hne hstatus hsaved htags hlinks =>
    exact h.merged hsource htarget hne hstatus hsaved htags hlinks

/-- **The invariant of every run.** -/
theorem mergesResolved_after (calls : List Call) : MergesResolved (Db.after calls) := by
  have hempty : MergesResolved Db.empty := by
    refine ⟨fun _ h => (by cases h), fun _ h => (by cases h), fun k => ⟨k, .here rfl⟩, fun _ h => (by cases h),
      fun _ h => (by cases h), fun _ h => (by cases h)⟩
  exact run_invariant (fun _ _ h => mergesResolved_step h) hempty calls

/-- Following the pointers from a tag ends at a tag. -/
theorem MergesResolved.end_there (h : MergesResolved s) {k r : Id} (hend : EndsAt (mergedInto s) k r)
    (hk : (s.tags.get? k).isSome) : (s.tags.get? r).isSome := by
  induction hend with
  | here _ => exact hk
  | @there a b r hab _ ih =>
    obtain ⟨t, ht, hinto⟩ := Option.bind_eq_some_iff.mp hab
    exact ih (h.target t (Table.get?_eq_some.mp ht).1 b hinto)

/-- The tag where the pointers end is not merged. -/
theorem MergesResolved.resolved (h : MergesResolved s) {k : Id} (hk : (s.tags.get? k).isSome) :
    ∃ r t, EndsAt (mergedInto s) k r ∧ s.tags.get? r = some t ∧ t.status ≠ .merged := by
  obtain ⟨r, hend⟩ := h.forest k
  obtain ⟨t, ht⟩ := Option.isSome_iff_exists.mp (h.end_there hend hk)
  refine ⟨r, t, hend, ht, fun hmerged => ?_⟩
  have hroot : mergedInto s r = none := hend.root
  rw [mergedInto, ht] at hroot
  have hsome := (h.pointer t (Table.get?_eq_some.mp ht).1).mp hmerged
  rw [Option.bind_some] at hroot
  rw [hroot] at hsome
  cases hsome

/-- A key that was handed out belongs to a merged tag, or to none. -/
def StaysMerged (s : Db) (k : Id) : Prop :=
  k < s.tags.next ∧ ∀ t, s.tags.get? k = some t → t.status = .merged

theorem bumps_next (us : List (Id × Int)) : (s.bumps us).tags.next = s.tags.next := by
  induction us generalizing s with
  | nil => rfl
  | cons u us ih => exact ih

/-- No call takes the status `merged` from a tag. -/
theorem staysMerged_step {k : Id} (h : StaysMerged s k) : StaysMerged (s.step c) k := by
  obtain ⟨hlt, hmerged⟩ := h
  cases tags_step s c with
  | counted us htags _ _ =>
    refine ⟨?_, fun t' ht' => ?_⟩
    · rw [htags, bumps_next]
      exact hlt
    · rw [htags] at ht'
      obtain ⟨t, ht, hstatus, -⟩ := get?_bumps ht'
      rw [hstatus]
      exact hmerged t ht
  | created t _ _ htags hnext _ =>
    refine ⟨Nat.lt_of_lt_of_le hlt hnext, fun t' ht' => ?_⟩
    rw [htags, if_neg (Nat.ne_of_gt hlt)] at ht'
    exact hmerged t' ht'
  | saved t₀ t ht₀ _ hstatus htags _ =>
    refine ⟨?_, fun t' ht' => ?_⟩
    · rw [htags]
      exact hlt
    · rw [htags] at ht'
      have ht' : (s.tags.toTable.save t).get? k = some t' := ht'
      by_cases hk : t.id = k
      · subst hk
        obtain rfl := Option.some.inj ((Table.get?_save_self ht₀).symm.trans ht')
        rcases hstatus with hsame | ⟨-, hold⟩
        · rw [hsame]
          exact hmerged t₀ ht₀
        · exact absurd (hmerged t₀ ht₀) hold
      · rw [Table.get?_save_of_ne hk] at ht'
        exact hmerged t' ht'
  | removed t _ _ htags hnext _ =>
    refine ⟨Nat.lt_of_lt_of_le hlt hnext, fun t' ht' => ?_⟩
    rw [htags] at ht'
    split at ht'
    · cases ht'
    · exact hmerged t' ht'
  | merged source target target' hsource htarget hne hstatus hsaved htags _ =>
    refine ⟨?_, fun t' ht' => ?_⟩
    · rw [htags]
      exact hlt
    · rw [get?_merged hsource htarget hne hsaved.1 htags] at ht'
      split at ht'
      · next hk =>
        -- the target was active, so it is another tag
        have hold := hmerged target (hk ▸ htarget)
        rw [hstatus.2] at hold
        cases hold
      · split at ht'
        · obtain rfl := Option.some.inj ht'
          rfl
        · exact hmerged t' ht'

/-- A merge that goes through maps the tags of every discussion. -/
theorem tagIdsOf_merge {a b : UuidText} (hop : c.operation = .tags (.merge a b))
    (hok : (serve s c).result.isOk = true) (d k : Id) : k ∈ (s.step c).tagIdsOf d
      ↔ ∃ j ∈ s.tagIdsOf d, (if j = a.id then b.id else j) = k := by
  obtain ⟨w, user, o⟩ := c
  obtain rfl : o = _ := hop
  have hok : (TagsService.merge s a b user).result.isOk = true := isOk_map.symm.trans hok
  show k ∈ (TagsService.merge s a b user).state.tagIdsOf d ↔ _
  unfold TagsService.merge at hok ⊢
  generalize hbody : (do
    TagsService.guarded user
    TagsService.mergeTx s a b) = body at hok ⊢
  cases body with
  | error e => cases hok
  | ok done =>
    obtain ⟨s', source', target'⟩ := done
    obtain ⟨-, -, h⟩ := bind_eq_ok.mp hbody
    obtain ⟨source, target, -, -, hne, hsid, htid, -, -, rfl, rfl, rfl⟩ := mergeTx_eq_ok h
    have hids : source.id ≠ target.id := fun he => hne (by rw [← hsid, ← htid, he])
    have ha : a.id = source.id := congrArg UuidText.id hsid.symm
    have hb : b.id = target.id := congrArg UuidText.id htid.symm
    show k ∈ (TagsService.moveLinks s source.id target.id).tagIdsOf d ↔ _
    rw [mem_tagIdsOf, mem_moveLinks, ha, hb]
    -- a link that is there after the merge was there before, or was a link of the source
    constructor
    · rintro ⟨hother, hl | ⟨rfl, hl⟩⟩
      · exact ⟨k, mem_tagIdsOf.mpr hl, if_neg hother⟩
      · exact ⟨source.id, mem_tagIdsOf.mpr hl, if_pos rfl⟩
    · rintro ⟨j, hj, hk⟩
      have hl := mem_tagIdsOf.mp hj
      split at hk
      · next he =>
        subst he hk
        exact ⟨Ne.symm hids, .inr ⟨rfl, hl⟩⟩
      · next hother =>
        subst hk
        exact ⟨hother, .inl hl⟩

/-- In every reachable state, following `mergedIntoTagId` from a tag ends at a tag that is not merged. A merged tag has
no links and a counter of zero, and keeps its status whatever is called later. A merge that goes through maps the tags
of every discussion, each of which has a tag once. -/
theorem merges_resolved (calls : List Call) :
    (∀ k, ((Db.after calls).tags.get? k).isSome → ∃ r t, EndsAt (mergedInto (Db.after calls)) k r
      ∧ (Db.after calls).tags.get? r = some t ∧ t.status ≠ .merged)
    ∧ (∀ k t, (Db.after calls).tags.get? k = some t → t.status = .merged →
      (∀ l ∈ (Db.after calls).discussionTags, l.tagId ≠ k) ∧ t.usageCount = 0
        ∧ ∀ later t', (Db.after (calls ++ later)).tags.get? k = some t' → t'.status = .merged)
    ∧ ∀ c a b, c.operation = .tags (.merge a b) → (serve (Db.after calls) c).result.isOk = true →
      ∀ d, (((Db.after calls).step c).tagIdsOf d).Nodup
        ∧ ∀ k, k ∈ ((Db.after calls).step c).tagIdsOf d
          ↔ ∃ j ∈ (Db.after calls).tagIdsOf d, (if j = a.id then b.id else j) = k := by
  have hresolved := mergesResolved_after calls
  refine ⟨fun k hk => hresolved.resolved hk, fun k t ht hmerged => ⟨fun l hl hk => ?_, ?_, fun later t' ht' => ?_⟩,
    fun c a b hop hok d => ⟨tagIdsOf_nodup _ d, tagIdsOf_merge hop hok d⟩⟩
  · exact hresolved.unlinked l hl t (hk ▸ ht) hmerged
  · exact hresolved.unused t (Table.get?_eq_some.mp ht).1 hmerged
  · have hkey : k < (Db.after calls).tags.next := by
      obtain ⟨hmem, rfl⟩ := Table.get?_eq_some.mp ht
      exact (Db.after calls).tags.fresh t hmem
    have hnow : StaysMerged (Db.after calls) k := by
      refine ⟨hkey, fun t₀ ht₀ => ?_⟩
      obtain rfl := Option.some.inj (ht.symm.trans ht₀)
      exact hmerged
    have hrun : Db.after (calls ++ later) = run Db.step (Db.after calls) later := run_append _ _ _
    rw [hrun] at ht'
    exact (run_invariant (P := fun s => StaysMerged s k) (fun _ _ h => staysMerged_step h) hnow later).2 t' ht'

/-- The first tag has been merged into the second. -/
theorem merges_resolved_merged :
    ∃ r t, EndsAt (mergedInto (Db.after (Sample.tagged ++ [Sample.mergeTags]))) 0 r
      ∧ (Db.after (Sample.tagged ++ [Sample.mergeTags])).tags.get? r = some t ∧ t.status ≠ .merged :=
  (merges_resolved (Sample.tagged ++ [Sample.mergeTags])).1 0 (by decide)

end AcaSocial
