import AcaSocial.Discussion.TagMerges

/-!
# The two ways of publishing tags

Where posts need no approval an edit publishes its tags itself; elsewhere they wait in a draft, and a review publishes
them.

* **`Db.count?`** — the counter of a tag, and what updates make of it: each is clamped at zero.
* **`update_direct`**, **`update_drafted`**, **`review_published`** — the counters and the links after each of the steps.
* **`PublishedAlike`** — both ways leave the same links and counters, and the counters move with the links.
* **`publishes_alike`** — exactly when they do: a tag that the edit keeps is spelled as the database spells it, unless it
  counts no post, and a tag that the edit drops counts one at least.
-/

namespace AcaSocial

open DiscussionsService

/-- The counter of a tag. -/
def Db.count? (s : Db) (k : Id) : Option Int := (s.tags.get? k).map (·.usageCount)

/-- The counters of the tags move as the links of the post to them do. -/
def MovesWithLinks (s s' : Db) (d : Id) : Prop :=
  ∀ k, s'.count? k
    = (s.count? k).map fun u => u + (if k ∈ s'.tagIdsOf d then 1 else 0) - (if k ∈ s.tagIdsOf d then 1 else 0)

/-- The post `d` is published from `s` in the one state and in the other, with the same tags. -/
structure PublishedAlike (s direct reviewed : Db) (d : Id) : Prop where
  links : ∀ i k, k ∈ direct.tagIdsOf i ↔ k ∈ reviewed.tagIdsOf i
  counts : ∀ k, direct.count? k = reviewed.count? k
  directMoves : MovesWithLinks s direct d
  reviewedMoves : MovesWithLinks s reviewed d

/-- **The tags of a post that `tagIds` count right**: those that it keeps are spelled as the database spells them or count
no post, and those that it drops count one at least. -/
def CountsRight (s : Db) (d : Id) (tagIds : List UuidText) : Prop :=
  ∀ t ∈ s.tags, t.id ∈ s.tagIdsOf d →
    if t.id ∈ tagIds.map (·.id) then Id.text t.id ∈ tagIds ∨ t.usageCount = 0 else 1 ≤ t.usageCount

instance (s : Db) (d : Id) (tagIds : List UuidText) : Decidable (CountsRight s d tagIds) :=
  inferInstanceAs (Decidable (∀ t ∈ s.tags.rows, _ → _))

/-- The edit leaves a draft: the room asks for approval, or a draft waits already. -/
def takesDraft (w : World) (s : Db) (id : UuidText) (user : GatewayUser) (dto : UpdateDiscussionDto) : Bool :=
  match updatePrelude w s id user dto with
  | .ok (_, p) =>
    match RoomsService.assertCanPostTo w (RoomsService.autoJoinTo s p.roomId p.authorId) p.roomId
      ⟨some p.authorId, user.role⟩ with
    | .ok policy => drafts policy p dto
    | .error _ => false
  | .error _ => false

section

variable {w : World} {s s' : Db} {user : GatewayUser} {us : List (Id × Int)} {d k : Id}

/-! ## Counters

The counter of a tag, if the tag is there. -/

/-- Counters are read from the table of tags. -/
theorem count?_congr (h : s'.tags = s.tags) (k : Id) : s'.count? k = s.count? k := by
  unfold Db.count?
  rw [h]

/-- The counter of a tag that is there. -/
theorem count?_key {t : Tag} (ht : t ∈ s.tags) : s.count? t.id = some t.usageCount := by
  unfold Db.count?
  rw [Table.get?_key ht]
  rfl

/-- Updates change the counter of a tag one after the other. -/
theorem count?_bumps (s : Db) (us : List (Id × Int)) (k : Id) :
    (s.bumps us).count? k = (s.count? k).map fun u => clamped u (changesOf us k) := by
  induction us generalizing s with
  | nil =>
    show s.count? k = (s.count? k).map id
    rw [Option.map_id]
    rfl
  | cons u us ih =>
    have hstep : (s.bumpTag u.2 u.1).count? k
        = (s.count? k).map fun v => if u.1 = k then max (v + u.2) 0 else v := by
      unfold Db.count?
      rw [get?_bumpTag, Option.map_map, Option.map_map]
      cases hget : s.tags.get? k with
      | none => rfl
      | some t =>
        have hid : t.id = k := (Table.get?_eq_some.mp hget).2
        simp only [Option.map_some, Function.comp_apply, hid, eq_comm (a := k)]
        split <;> rfl
    show ((s.bumpTag u.2 u.1).bumps us).count? k = _
    rw [ih, hstep, Option.map_map, changesOf_cons]
    congr 1
    funext v
    show clamped (if u.1 = k then max (v + u.2) 0 else v) (changesOf us k) = _
    split
    · rfl
    · rfl

/-- Every change that counting some tags makes to a counter is the same one. -/
theorem mem_changesOf_counting {ids : List UuidText} {delta e : Int}
    (h : e ∈ changesOf (countingUpdates ids delta) k) : e = delta := by
  obtain ⟨u, hu, rfl⟩ := List.mem_map.mp h
  obtain ⟨t, -, rfl⟩ := mem_countingUpdates.mp (List.mem_filter.mp hu).1
  rfl

/-- **The counter of a tag after an edit on the direct way**: down for a tag whose text the edit does not name, and up for
one that the post did not have. -/
theorem clamped_retagUpdates {ids : List UuidText} {tags : List Tag} {u : Int} (hu : 0 ≤ u)
    (htags : DiscussionsService.tags s ids unavailableTags = .ok tags) (k : Id) :
    clamped u (changesOf (retagUpdates s d ids) k)
      = max (u - if k ∈ s.tagIdsOf d ∧ Id.text k ∉ ids then 1 else 0) 0
        + if k ∈ tags.map (·.id) ∧ k ∉ s.tagIdsOf d then 1 else 0 := by
  have hselect : (s.tags.select fun t => decide (t.id ∈ ids.map (·.id))) = tags := (tags_eq_ok.mp htags).1.symm
  rw [retagUpdates, hselect, changesOf_append, clamped_append]
  have hdown := (clamped_down hu fun e (he : e ∈ changesOf (countingUpdates
    (((s.tagIdsOf d).map Id.text).filter fun t => decide (t ∉ ids)) (-1)) k) => by
      rw [mem_changesOf_counting he]
      decide).1
  rw [hdown, sum_changesOf, total_countingUpdates, countP_dropped (tagIdsOf_nodup s d)]
  rw [clamped_eq_max (Int.le_max_right _ _), sum_changesOf, total_countingUpdates, countP_added (tags_nodup htags)]
  · split <;> split <;> omega
  · -- the counter goes up only
    refine List.pairwise_of_forall_mem_list fun e he e' _ hlt => ?_
    rw [mem_changesOf_counting he] at hlt
    exact absurd hlt (by decide)

/-- Sorted texts stand in the order of their uuids, those of one uuid with the upper-case letters first. -/
theorem pairwise_sortIds (ids : List UuidText) :
    (sortIds ids).Pairwise fun a b => a.id < b.id ∨ (a.id = b.id ∧ b.upper ≤ a.upper) := by
  have htotal : ∀ i j m n : Nat, (i < j ∨ i = j ∧ n ≤ m) ∨ (j < i ∨ j = i ∧ m ≤ n) := by omega
  have htrans : ∀ i j l m n o : Nat, (i < j ∨ i = j ∧ n ≤ m) → (j < l ∨ j = l ∧ o ≤ n) →
      (i < l ∨ i = l ∧ o ≤ m) := by omega
  have : Std.Total fun a b : UuidText => a.id < b.id ∨ (a.id = b.id ∧ b.upper ≤ a.upper) :=
    ⟨fun a b => htotal a.id b.id a.upper b.upper⟩
  have : IsTrans UuidText fun a b => a.id < b.id ∨ (a.id = b.id ∧ b.upper ≤ a.upper) :=
    ⟨fun a b c => htrans a.id b.id c.id a.upper b.upper c.upper⟩
  exact List.pairwise_insertionSort _ ids

/-- Of the texts that a review counts, the one of the database comes last among those of its tag, and it is the only one
that can be counted down. -/
theorem pairwise_draftUpdates (s : Db) (d : Id) (draft : PendingRevision) (k : Id) :
    (changesOf (draftUpdates s d draft) k).Pairwise fun e e' => e < 0 → e' ≤ 0 := by
  have hsorted := pairwise_sortIds ((s.tagIdsOf d).map Id.text ++ draft.tagIds).eraseDups
  unfold changesOf draftUpdates
  rw [List.filter_map, List.map_map, List.pairwise_map]
  refine (hsorted.filter _).imp_of_mem fun {a b} ha hb hle hlt => ?_
  have hak : a.id = k := of_decide_eq_true (List.mem_filter.mp ha).2
  have hbk : b.id = k := of_decide_eq_true (List.mem_filter.mp hb).2
  have hlt : ModerationService.delta s d draft a < 0 := hlt
  show ModerationService.delta s d draft b ≤ 0
  -- a text that is counted down comes from the database
  have hprinted : a.upper = 0 := by
    unfold ModerationService.delta at hlt
    split at hlt
    · split at hlt <;> exact absurd hlt (by decide)
    · split at hlt
      · next hold =>
        obtain ⟨j, -, rfl⟩ := List.mem_map.mp hold
        rfl
      · exact absurd hlt (by decide)
  -- what comes later has as many capitals at least, and it has none
  have hsame : b = a := by
    obtain ⟨ia, ua⟩ := a
    obtain ⟨ib, ub⟩ := b
    rcases hle with hlt' | ⟨-, hle⟩
    · exact absurd (hak.trans hbk.symm) (Nat.ne_of_lt hlt')
    · obtain rfl : ua = 0 := hprinted
      obtain rfl : ub = 0 := Nat.le_zero.mp hle
      exact congrArg (UuidText.mk · 0) (hbk.trans hak.symm)
  rw [hsame]
  exact Int.le_of_lt hlt

/-- **The counter of a tag after a review**: clamped once. -/
theorem clamped_draftUpdates {draft : PendingRevision} {e : HttpError} {tags : List Tag} {u : Int} (hu : 0 ≤ u)
    (htags : DiscussionsService.tags s draft.tagIds e = .ok tags) (k : Id) :
    clamped u (changesOf (draftUpdates s d draft) k)
      = max (u + (if k ∈ tags.map (·.id) then 1 else 0) - if k ∈ s.tagIdsOf d then 1 else 0) 0 := by
  rw [clamped_eq_max hu (pairwise_draftUpdates s d draft k), sum_changesOf]
  have htotal := total_draftUpdates (d := d) htags k
  congr 1
  omega

/-! ## The steps

A post comes to its tags by a creation, by an edit or by the review of a draft. Each counts the same way. -/

/-- An update that answers has gone the way that its post and its room say. -/
theorem takesDraft_eq {id : UuidText} {dto : UpdateDiscussionDto} {editor : Id} {p : Discussion}
    {policy : Option PostContext} (hprelude : updatePrelude w s id user dto = .ok (editor, p))
    (hpolicy : RoomsService.assertCanPostTo w (RoomsService.autoJoinTo s p.roomId p.authorId) p.roomId
      ⟨some p.authorId, user.role⟩ = .ok policy) :
    takesDraft w s id user dto = drafts policy p dto := by
  unfold takesDraft
  simp only [hprelude, hpolicy]

/-- **The direct way**: the tags of the edit become those of the post. -/
theorem update_direct {id : UuidText} {dto : UpdateDiscussionDto} {ids : List UuidText} (hids : dto.tagIds = some ids)
    (hok : (update w s id user dto).result.isOk = true) (hdirect : takesDraft w s id user dto = false) :
    ∃ tags, DiscussionsService.tags s ids.eraseDups unavailableTags = .ok tags
      ∧ (update w s id user dto).state.tags = (s.bumps (retagUpdates s id.id ids.eraseDups)).tags
      ∧ ∀ i, (update w s id user dto).state.tagIdsOf i = if id.id = i then tags.map (·.id) else s.tagIdsOf i := by
  obtain ⟨editor, p, policy, u, hprelude, hpolicy, htx⟩ := update_ok hok
  rw [takesDraft_eq hprelude hpolicy] at hdirect
  have hp := (updatePrelude_eq_ok hprelude).2.1
  have hs := autoJoinTo_toContent s p.roomId p.authorId
  generalize (update w s id user dto).state = s₁ at htx ⊢
  simp only [updateTx, hdirect, bind_eq_ok] at htx
  obtain ⟨-, -, -, -, htx⟩ := htx
  have hcounters := saveEdit_tags htx
  obtain ⟨tagIds, hnamed, hthread⟩ := saveEdit_thread (hs ▸ hp) htx
  rw [hids] at hnamed hcounters
  rw [Option.map_some, Option.getD_some, retagUpdates_congr hs, Content.post?_id hp] at hcounters
  rcases hnamed with ⟨hnone, -⟩ | ⟨ids', tags, hsome, hfound, rfl⟩
  · cases hnone
  obtain rfl := Option.some.inj hsome
  refine ⟨tags, tags_congr hs _ _ ▸ hfound, hcounters.trans (bumps_tags_congr (congrArg Content.tags hs) _), fun i => ?_⟩
  show (s₁.thread i).tagIds = _
  rw [hthread]
  split
  · rfl
  · show Content.tagIdsOf _ i = _
    rw [hs]

/-- **The other way**: the tags of the edit wait in a draft. -/
theorem update_drafted {id : UuidText} {dto : UpdateDiscussionDto} {ids : List UuidText} (hids : dto.tagIds = some ids)
    (hok : (update w s id user dto).result.isOk = true) (hdraft : takesDraft w s id user dto = true) :
    (update w s id user dto).state.tags = s.tags
      ∧ (∀ i, (update w s id user dto).state.tagIdsOf i = s.tagIdsOf i)
      ∧ ∃ q d, (update w s id user dto).state.post? id.id = some q ∧ ModerationService.draftOf q = some d
        ∧ d.tagIds = ids.eraseDups := by
  obtain ⟨editor, p, policy, u, hprelude, hpolicy, htx⟩ := update_ok hok
  rw [takesDraft_eq hprelude hpolicy] at hdraft
  have hp := (updatePrelude_eq_ok hprelude).2.1
  have hs := autoJoinTo_toContent s p.roomId p.authorId
  generalize (update w s id user dto).state = s₁ at htx ⊢
  simp only [updateTx, hdraft, bind_eq_ok] at htx
  obtain ⟨-, -, -, -, htx⟩ := htx
  have hfollows := saveDraft_follows hs hp htx
  simp only [if_true, saveDraft, bind_eq_ok, pure_eq_ok, Prod.mk.injEq] at htx
  obtain ⟨-, -, s₂, hrev, rfl, -⟩ := htx
  have hfound : (RoomsService.autoJoinTo s p.roomId p.authorId).post? id.id = some p := hs ▸ hp
  -- only the draft of the post changes, in its own thread
  have hthread : ∀ j, s₂.thread j = if id.id = j then (s.thread j).savePost (withDraft p (draftOf s p dto))
      else s.thread j := by
    intro j
    rw [thread_insertRevision hrev, thread_savePost hfound (by rfl), draftOf_congr hs, hs]
  refine ⟨hfollows.tags, fun i => ?_, withDraft p (draftOf s p dto), draftOf s p dto, ?_, rfl, ?_⟩
  · show (s₂.thread i).tagIds = _
    rw [hthread]
    split <;> rfl
  · rw [post?_iff_live, hthread, if_pos rfl]
    exact ⟨rfl, (post?_iff_live.mp hp).2⟩
  · unfold draftOf
    rw [hids]
    rfl

/-- What a review that answers has done. -/
theorem review_ok {id : UuidText} {dto : ReviewContentDto}
    (h : (ModerationService.review w s id dto user).result.isOk = true) :
    ∃ actor scope r, ModerationService.reviewTx w s id dto actor scope
      = .ok ((ModerationService.review w s id dto user).state, r) := by
  unfold ModerationService.review at h ⊢
  dsimp only at h ⊢
  generalize hbody : (do
    let actor ← authenticated user
    let scope ← ModerationService.scope w s user
    require (dto.decision ≠ Decision.allow → ModerationService.trimmedNote dto.note ≠ "")
      (.badRequest "Vui lòng nhập lý do xử lý")
    ModerationService.reviewTx w s id dto actor scope : Except HttpError (Db × ModerationStatus)) = body at h ⊢
  cases body with
  | error e => cases h
  | ok done =>
    simp only [bind_eq_ok] at hbody
    obtain ⟨actor, -, scope, -, -, -, htx⟩ := hbody
    exact ⟨actor, scope, done.2, htx⟩

/-- **The review that allows a draft**: the tags of the draft become those of the post. -/
theorem review_published {id : UuidText} {dto : ReviewContentDto} {q : Discussion} {draft : PendingRevision}
    (hq : s.post? id.id = some q) (hdraft : ModerationService.draftOf q = some draft) (hallow : dto.decision = Decision.allow)
    (hok : (ModerationService.review w s id dto user).result.isOk = true) :
    ∃ tags e, DiscussionsService.tags s draft.tagIds e = .ok tags
      ∧ (ModerationService.review w s id dto user).state.tags = (s.bumps (draftUpdates s id.id draft)).tags
      ∧ ∀ i, (ModerationService.review w s id dto user).state.tagIdsOf i
        = if id.id = i then tags.map (·.id) else s.tagIdsOf i := by
  obtain ⟨actor, scope, r, htx⟩ := review_ok hok
  generalize (ModerationService.review w s id dto user).state = s₁ at htx ⊢
  obtain ⟨q', s₂, tagIds, media, hq', -, hpublish, hs₂, -, hpublished, hthread⟩ := reviewTx_thread htx
  obtain rfl := Option.some.inj (hq.symm.trans hq')
  obtain ⟨-, tags, e, hfound, rfl⟩ := hpublished draft hallow hdraft
  refine ⟨tags, e, hfound, ?_, fun i => ?_⟩
  · rcases publish_tags hpublish with ⟨-, hnot⟩ | ⟨d, -, hd, htags⟩
    · rcases hnot with hnot | hnone
      · exact absurd hallow hnot
      · cases hdraft.symm.trans hnone
    · obtain rfl := Option.some.inj (hdraft.symm.trans hd)
      rw [Content.post?_id hq] at htags
      exact hs₂.trans htags
  · show (s₁.thread i).tagIds = _
    rw [hthread]
    split <;> rfl

/-! ## Both ways

A draft that is published leaves the links and the counters that the direct edit would leave. -/

/-- The updates of a draft are read from the links. -/
theorem draftUpdates_congr {s₁ : Db} (h : s₁.tagIdsOf d = s.tagIdsOf d) (draft : PendingRevision) :
    draftUpdates s₁ d draft = draftUpdates s d draft := by
  unfold draftUpdates ModerationService.affected ModerationService.delta
  rw [h]

/-- One counter: the direct way takes it down for a text that is not named, the other way clamps once. -/
theorem moves_iff {old new named : Prop} [Decidable old] [Decidable new] [Decidable named] {u : Int} (hu : 0 ≤ u)
    (hnamed : named → new) :
    (max (u - if old ∧ ¬ named then 1 else 0) 0 + (if new ∧ ¬ old then 1 else 0)
          = u + (if new then 1 else 0) - (if old then 1 else 0)
        ∧ max (u + (if new then 1 else 0) - if old then 1 else 0) 0
          = u + (if new then 1 else 0) - if old then 1 else 0)
      ↔ (old → if new then named ∨ u = 0 else 1 ≤ u) := by
  by_cases hold : old
  · by_cases hnew : new
    · by_cases hname : named
      · simp only [hold, hnew, hname, not_true_eq_false, and_false, if_true, if_false, true_implies, true_or, iff_true]
        omega
      · simp only [hold, hnew, hname, not_true_eq_false, not_false_eq_true, and_self, and_false, if_true, if_false,
          true_implies, false_or]
        omega
    · have hname : ¬ named := fun h => hnew (hnamed h)
      simp only [hold, hnew, hname, not_false_eq_true, and_self, if_true, if_false, true_implies, false_and]
      omega
  · simp only [hold, false_and, not_false_eq_true, and_true, if_false, false_implies, iff_true]
    split <;> omega

/-- **When both ways of publishing tags agree** and move the counters with the links. The states `s` and `s₂` have the same
tags and links; in the one the edit goes the direct way, and in the other it leaves a draft, which a review then allows. -/
theorem publishes_alike (w w₂ w₃ : World) (s s₂ : Db) (user reviewer : GatewayUser) (id : UuidText)
    (dto : UpdateDiscussionDto) (ids : List UuidText) (review : ReviewContentDto) (hids : dto.tagIds = some ids)
    (hcounts : ∀ t ∈ s.tags, 0 ≤ t.usageCount) (htags : s₂.tags = s.tags) (hlinks : s₂.discussionTags = s.discussionTags)
    (hdirect : takesDraft w s id user dto = false) (hdraft : takesDraft w₂ s₂ id user dto = true)
    (hallow : review.decision = .allow) (hok : (update w s id user dto).result.isOk = true)
    (hdrafted : (update w₂ s₂ id user dto).result.isOk = true)
    (hreviewed : (ModerationService.review w₃ (update w₂ s₂ id user dto).state id review reviewer).result.isOk = true) :
    PublishedAlike s (update w s id user dto).state
        (ModerationService.review w₃ (update w₂ s₂ id user dto).state id review reviewer).state id.id
      ↔ CountsRight s id.id ids := by
  obtain ⟨tags, hfound, hcount₁, hlink₁⟩ := update_direct hids hok hdirect
  obtain ⟨hsame, hlink₂, q, draft, hq, hdraftOf, hdraftIds⟩ := update_drafted hids hdrafted hdraft
  obtain ⟨tags', e, hfound', hcount₃, hlink₃⟩ := review_published hq hdraftOf hallow hreviewed
  generalize (ModerationService.review w₃ (update w₂ s₂ id user dto).state id review reviewer).state = s₃' at *
  generalize (update w s id user dto).state = s₁' at *
  generalize (update w₂ s₂ id user dto).state = s₂' at *
  -- the review finds the tags and the links that the edit found
  have htags₂ : s₂'.tags = s.tags := hsame.trans htags
  have hold : ∀ i, s₂'.tagIdsOf i = s.tagIdsOf i := by
    intro i
    rw [hlink₂, Content.tagIdsOf, hlinks, Content.tagIdsOf]
  obtain rfl : tags' = tags := by
    rw [(tags_eq_ok.mp hfound').1, (tags_eq_ok.mp hfound).1, htags₂, hdraftIds]
  have hfound₃ : DiscussionsService.tags s draft.tagIds e = .ok tags' := by
    rw [← hfound']
    simp only [DiscussionsService.tags, htags₂]
  have hnew : ∀ k, k ∈ tags'.map (·.id) ↔ k ∈ ids.map (·.id) := by
    intro k
    rw [(tags_perm hfound).mem_iff]
    simp only [List.mem_map, List.mem_eraseDups]
  have hcount₁ : ∀ k, s₁'.count? k = (s.count? k).map fun u =>
      clamped u (changesOf (retagUpdates s id.id ids.eraseDups) k) := fun k =>
    (count?_congr hcount₁ k).trans (count?_bumps s _ k)
  have hcount₃ : ∀ k, s₃'.count? k = (s.count? k).map fun u =>
      clamped u (changesOf (draftUpdates s id.id draft) k) := fun k => by
    rw [count?_congr hcount₃ k, count?_bumps, count?_congr htags₂, draftUpdates_congr (hold id.id)]
  have hlinked₁ : s₁'.tagIdsOf id.id = tags'.map (·.id) := by
    rw [hlink₁, if_pos rfl]
  have hlinked₃ : s₃'.tagIdsOf id.id = tags'.map (·.id) := by
    rw [hlink₃, if_pos rfl]
  have hmoves : ∀ t ∈ s.tags, (clamped t.usageCount (changesOf (retagUpdates s id.id ids.eraseDups) t.id)
        = t.usageCount + (if t.id ∈ tags'.map (·.id) then 1 else 0) - (if t.id ∈ s.tagIdsOf id.id then 1 else 0)
      ∧ clamped t.usageCount (changesOf (draftUpdates s id.id draft) t.id)
        = t.usageCount + (if t.id ∈ tags'.map (·.id) then 1 else 0) - (if t.id ∈ s.tagIdsOf id.id then 1 else 0))
      ↔ (t.id ∈ s.tagIdsOf id.id →
        if t.id ∈ ids.map (·.id) then Id.text t.id ∈ ids ∨ t.usageCount = 0 else 1 ≤ t.usageCount) := by
    intro t ht
    have hu := hcounts t ht
    rw [clamped_retagUpdates hu hfound, clamped_draftUpdates hu hfound₃]
    simp only [hnew, List.mem_eraseDups]
    exact moves_iff hu fun hnamed => List.mem_map.mpr ⟨_, hnamed, rfl⟩
  have hlookup : ∀ k u, s.count? k = some u → ∃ t ∈ s.tags, t.id = k ∧ t.usageCount = u := by
    intro k u hk
    obtain ⟨t, ht, rfl⟩ := Option.map_eq_some_iff.mp hk
    obtain ⟨hmem, hid⟩ := Table.get?_eq_some.mp ht
    exact ⟨t, hmem, hid, rfl⟩
  constructor
  · intro h t ht
    refine (hmoves t ht).mp ⟨?_, ?_⟩
    · have hmove := h.directMoves t.id
      rw [hcount₁, count?_key ht, hlinked₁] at hmove
      exact Option.some.inj hmove
    · have hmove := h.reviewedMoves t.id
      rw [hcount₃, count?_key ht, hlinked₃] at hmove
      exact Option.some.inj hmove
  · intro h
    have hboth := fun t ht => (hmoves t ht).mpr (h t ht)
    have hdirectMoves : MovesWithLinks s s₁' id.id := by
      intro k
      rw [hcount₁, hlinked₁]
      cases hk : s.count? k with
      | none => rfl
      | some u =>
        obtain ⟨t, ht, rfl, rfl⟩ := hlookup k u hk
        exact congrArg some (hboth t ht).1
    have hreviewedMoves : MovesWithLinks s s₃' id.id := by
      intro k
      rw [hcount₃, hlinked₃]
      cases hk : s.count? k with
      | none => rfl
      | some u =>
        obtain ⟨t, ht, rfl, rfl⟩ := hlookup k u hk
        exact congrArg some (hboth t ht).2
    refine ⟨fun i k => ?_, fun k => ?_, hdirectMoves, hreviewedMoves⟩
    · rw [hlink₁, hlink₃, hold]
    · rw [hdirectMoves, hreviewedMoves, hlinked₁, hlinked₃]

/-! ## Counters of reachable states

No counter is below zero. -/

/-- Updates keep the counters above zero. -/
theorem nonneg_bumps (h : ∀ t ∈ s.tags, 0 ≤ t.usageCount) (us : List (Id × Int)) :
    ∀ t ∈ (s.bumps us).tags, 0 ≤ t.usageCount := by
  induction us generalizing s with
  | nil => exact h
  | cons u us ih =>
    refine ih fun t ht => ?_
    obtain ⟨t₀, ht₀, rfl⟩ := mem_bumpTag.mp ht
    split
    · exact Int.le_max_right _ _
    · exact h t₀ ht₀

/-- A save keeps the counters above zero. -/
theorem nonneg_saveTag (h : ∀ t ∈ s.tags, 0 ≤ t.usageCount) {t₀ : Tag} (ht₀ : 0 ≤ t₀.usageCount) :
    ∀ t ∈ (TagsService.saveTag s t₀).tags, 0 ≤ t.usageCount := by
  intro t ht
  rcases Serial.mem_save.mp ht with ⟨rfl, -⟩ | ⟨ht, -⟩
  · exact ht₀
  · exact h t ht

/-- No call takes a counter below zero. -/
theorem nonneg_step {c : Call} (h : ∀ t ∈ s.tags, 0 ≤ t.usageCount) : ∀ t ∈ (s.step c).tags, 0 ≤ t.usageCount := by
  by_cases hop : ∃ o, c.operation = .tags o
  · obtain ⟨w, user, op⟩ := c
    obtain ⟨o, rfl⟩ := hop
    cases o with
    | create dto =>
      refine commit_induction (P := fun s' : Db => ∀ t ∈ s'.tags, 0 ≤ t.usageCount) h fun s' t hbody => ?_
      simp only [bind_eq_ok, pure_eq_ok, Prod.mk.injEq] at hbody
      obtain ⟨-, -, -, -, -, -, -, -, rfl, -⟩ := hbody
      intro t ht
      rcases Serial.mem_insert.mp ht with ht | rfl
      · exact h t ht
      · exact Int.le_refl 0
    | update id dto =>
      refine commit_induction (P := fun s' : Db => ∀ t ∈ s'.tags, 0 ≤ t.usageCount) h fun s' t hbody => ?_
      simp only [TagsService.findTag, bind_eq_ok, orThrow_eq_ok, pure_eq_ok, Prod.mk.injEq] at hbody
      obtain ⟨-, -, t₀, ht₀, -, -, -, -, rfl, -⟩ := hbody
      exact nonneg_saveTag h (h t₀ (Table.get?_eq_some.mp ht₀).1)
    | setStatus id active =>
      refine commit_induction (P := fun s' : Db => ∀ t ∈ s'.tags, 0 ≤ t.usageCount) h fun s' t hbody => ?_
      simp only [TagsService.findTag, bind_eq_ok, orThrow_eq_ok, pure_eq_ok, Prod.mk.injEq] at hbody
      obtain ⟨-, -, t₀, ht₀, -, -, rfl, -⟩ := hbody
      exact nonneg_saveTag h (h t₀ (Table.get?_eq_some.mp ht₀).1)
    | remove id =>
      refine commit_induction (P := fun s' : Db => ∀ t ∈ s'.tags, 0 ≤ t.usageCount) h fun s' u hbody => ?_
      simp only [TagsService.findTag, bind_eq_ok, orThrow_eq_ok, pure_eq_ok, Prod.mk.injEq] at hbody
      obtain ⟨-, -, t₀, -, -, -, -, -, rfl, -⟩ := hbody
      exact fun t ht => h t (Serial.mem_erase.mp ht).1
    | merge id target =>
      refine commit_induction (P := fun s' : Db => ∀ t ∈ s'.tags, 0 ≤ t.usageCount) h fun s' saved hbody => ?_
      obtain ⟨source', target'⟩ := saved
      obtain ⟨-, -, hbody⟩ := bind_eq_ok.mp hbody
      obtain ⟨source, tgt, -, -, -, -, -, -, -, rfl, rfl, rfl⟩ := mergeTx_eq_ok hbody
      -- the source counts none, and the target as many as there are links
      exact nonneg_saveTag (nonneg_saveTag h (Int.le_refl 0)) (Int.natCast_nonneg _)
  · rcases counters_step (s := s) (c := c) fun o ho => hop ⟨o, ho⟩ with htags | htags
    · rw [htags]
      exact h
    · rw [htags]
      exact nonneg_bumps h _

/-- The counters of every reachable state are numbers of posts. -/
theorem counters_nonneg (calls : List Call) : ∀ t ∈ (Db.after calls).tags, 0 ≤ t.usageCount := by
  have hempty : ∀ t ∈ Db.empty.tags, 0 ≤ t.usageCount := fun _ h => (by cases h)
  exact run_invariant (P := fun s : Db => ∀ t ∈ s.tags, 0 ≤ t.usageCount) (fun _ _ h => nonneg_step h) hempty calls

end

namespace Sample

/-- The room `0` asks for approval from now on. -/
def askApproval : Call :=
  call 2 (student 1) (.rooms (.updatePolicy (Id.text 0) { reviewPolicy := .approval }))

/-- The author gives the post `0` other tags. -/
def retagged (ids : List UuidText) : UpdateDiscussionDto := { tagIds := some ids, expectedVersion := some 1 }

def allowRetagged : ReviewContentDto :=
  { decision := .allow, expectedVersion := 2, expectedContent := "I do not see a drawing without a crossing." }

/-- The state after the direct way. -/
def publishedDirectly (ids : List UuidText) : Db :=
  (update (World.quiet 3) (Db.after tagged) (Id.text 0) (student 1) (retagged ids)).state

/-- The state after a draft and its review. -/
def publishedByReview (ids : List UuidText) : Db :=
  (ModerationService.review (World.quiet 4)
    (update (World.quiet 3) (Db.after (tagged ++ [askApproval])) (Id.text 0) (student 1) (retagged ids)).state
    (Id.text 0) allowRetagged administrator).state

end Sample

/-- The tag `1` takes the place of the tag `0`. -/
theorem publishes_alike_other : PublishedAlike (Db.after Sample.tagged) (Sample.publishedDirectly [Id.text 1])
    (Sample.publishedByReview [Id.text 1]) 0 :=
  (publishes_alike (World.quiet 3) (World.quiet 3) (World.quiet 4) (Db.after Sample.tagged)
    (Db.after (Sample.tagged ++ [Sample.askApproval])) (Sample.student 1) Sample.administrator (Id.text 0)
    (Sample.retagged [Id.text 1]) [Id.text 1] Sample.allowRetagged rfl (counters_nonneg _) rfl rfl (by decide) (by decide)
    rfl (by decide) (by decide) (by decide)).mpr (by decide)

/-- The kept tag is spelled in upper case: the direct way counts it down, and the review leaves it. -/
theorem not_publishes_alike :
    (update (World.quiet 3) (Db.after Sample.tagged) (Id.text 0) (Sample.student 1)
        (Sample.retagged [⟨0, 1⟩])).result.isOk = true
      ∧ (Sample.publishedDirectly [⟨0, 1⟩]).count? 0 = some 0
      ∧ (Sample.publishedByReview [⟨0, 1⟩]).count? 0 = some 1
      ∧ ¬ PublishedAlike (Db.after Sample.tagged) (Sample.publishedDirectly [⟨0, 1⟩])
        (Sample.publishedByReview [⟨0, 1⟩]) 0 := by
  have hdirect : (Sample.publishedDirectly [⟨0, 1⟩]).count? 0 = some 0 := by decide
  have hreview : (Sample.publishedByReview [⟨0, 1⟩]).count? 0 = some 1 := by decide
  refine ⟨by decide, hdirect, hreview, fun h => ?_⟩
  have hcounts := h.counts 0
  rw [hdirect, hreview] at hcounts
  cases hcounts

end AcaSocial
