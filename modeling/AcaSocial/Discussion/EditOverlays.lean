import Mathlib.Data.Finset.Dedup
import AcaSocial.Discussion.Revisions
import AcaSocial.Discussion.TagUsage

/-!
# Edits overlay what they name

What a post says in effect is its draft, if it has one, and otherwise what is published. An edit names some of it.

* **`Effective`** — title, content, anonymity, tags and media, with **`Effective.overlay`**: those that an edit names,
  over the others.
* **`updated_thread`** — what an update that goes through makes of the post: a draft, or a new version of the post itself.
* **`Overlays`** — what the edit finds in the draft. An edit that counts as none leaves it, and an edit of a hidden post
  drops it.
* **`update_overlays`** — exactly then an edit overlays what it names.
-/

namespace AcaSocial

open DiscussionsService

/-- What a post says: in its draft, or published. -/
@[ext] structure Effective where
  title : String
  content : String
  isAnonymous : Bool
  tagIds : Finset Id
  mediaIds : List Id
  deriving DecidableEq

/-- The fields that an edit names, over the others. -/
def Effective.overlay (e : Effective) (dto : UpdateDiscussionDto) : Effective where
  title := dto.title.getD e.title
  content := dto.content.getD e.content
  isAnonymous := dto.isAnonymous.getD e.isAnonymous
  tagIds := (dto.tagIds.map fun ids => (ids.map (·.id)).toFinset).getD e.tagIds
  mediaIds := (dto.mediaIds.map fun ids => ids.map (·.id)).getD e.mediaIds

def PendingRevision.proposed (d : PendingRevision) : Effective where
  title := d.title
  content := d.content
  isAnonymous := d.isAnonymous
  tagIds := (d.tagIds.map (·.id)).toFinset
  mediaIds := d.mediaIds.map (·.id)

namespace Thread

variable {t t' : Thread} {p : Discussion} {dto : UpdateDiscussionDto} {policy : Option PostContext}

/-- What the readers of the post are shown. -/
def published (t : Thread) (p : Discussion) : Effective where
  title := p.title
  content := p.content
  isAnonymous := p.isAnonymous
  tagIds := t.tagIds.toFinset
  mediaIds := t.media.map (·.mediaId)

/-- What the post says in effect. -/
def effective (t : Thread) (p : Discussion) : Effective := (p.pendingRevision.map PendingRevision.proposed).getD (t.published p)

/-- The draft and the published post agree in what the edit does not name. -/
def SameBeside (t : Thread) (p : Discussion) (dto : UpdateDiscussionDto) (d : PendingRevision) : Prop :=
  (dto.title = none → p.title = d.title) ∧ (dto.content = none → p.content = d.content)
    ∧ (dto.isAnonymous = none → p.isAnonymous = d.isAnonymous)
    ∧ (dto.tagIds = none → (t.published p).tagIds = d.proposed.tagIds)
    ∧ (dto.mediaIds = none → (t.published p).mediaIds = d.proposed.mediaIds)

/-- **What a draft must be for an edit to overlay it.** An edit that counts as no change may name the anonymity of the
draft only. An edit that does count goes into the draft of a visible post; on a post that is not visible the draft must
agree with it in all else. -/
def Overlays (t : Thread) (p : Discussion) (dto : UpdateDiscussionDto) : Prop :=
  ∀ d ∈ p.pendingRevision, if contentChanged p dto then p.visibility = .visible ∨ t.SameBeside p dto d
    else ∀ a ∈ dto.isAnonymous, a = d.isAnonymous

instance (t : Thread) (p : Discussion) (dto : UpdateDiscussionDto) (d : PendingRevision) :
    Decidable (t.SameBeside p dto d) :=
  inferInstanceAs (Decidable ((_ → _) ∧ (_ → _) ∧ (_ → _) ∧ (_ → _) ∧ (_ → _)))

instance (t : Thread) (p : Discussion) (dto : UpdateDiscussionDto) : Decidable (t.Overlays p dto) :=
  inferInstanceAs (Decidable (∀ d ∈ p.pendingRevision, _))

/-- The thread after an update that goes through: with a draft, or with a new version of the post. -/
inductive Updated (t : Thread) (p : Discussion) (dto : UpdateDiscussionDto) (policy : Option PostContext) : Thread → Prop where
  | drafted {t' : Thread} {draft : PendingRevision} (hdrafts : drafts policy p dto)
      (hdraft : draft.proposed = (t.effective p).overlay dto) (hpost : t'.post = some (withDraft p draft)) :
      Updated t p dto policy t'
  | edited {t' : Thread} (hdrafts : drafts policy p dto = false) (hpost : t'.post = some (editedPost dto policy p))
      (hpublished : t'.published (editedPost dto policy p) = (t.published p).overlay dto) : Updated t p dto policy t'

end Thread

section

variable {w : World} {s s' : Db} {user : GatewayUser} {p : Discussion} {dto : UpdateDiscussionDto}
  {policy : Option PostContext}

/-- Naming a tag twice names the same set of tags. -/
theorem toFinset_eraseDups (ids : List UuidText) :
    (ids.eraseDups.map (·.id)).toFinset = (ids.map (·.id)).toFinset := by
  ext k
  simp only [List.mem_toFinset, List.mem_map, List.mem_eraseDups]

/-- A draft says what the edit names, over what the post said in effect. -/
theorem proposed_draftOf (s : Db) (p : Discussion) (dto : UpdateDiscussionDto) :
    (draftOf s p dto).proposed = ((s.thread p.id).effective p).overlay dto := by
  unfold draftOf PendingRevision.proposed Thread.effective Effective.overlay Thread.published
  cases hprevious : p.pendingRevision with
  -- the first draft starts from the post and its links
  | none =>
    refine Effective.ext ?_ ?_ ?_ ?_ ?_
    · cases dto.title <;> rfl
    · cases dto.content <;> rfl
    · cases dto.isAnonymous <;> rfl
    · cases dto.tagIds with
      | none =>
        show (((s.tagIdsOf p.id).map Id.text).map (·.id)).toFinset = (s.tagIdsOf p.id).toFinset
        rw [List.map_map]
        exact congrArg List.toFinset (List.map_id _)
      | some ids => exact toFinset_eraseDups ids
    · cases dto.mediaIds with
      | none =>
        show ((s.mediaOf p.id).map fun a => Id.text a.mediaId).map (·.id) = (s.mediaOf p.id).map (·.mediaId)
        rw [List.map_map]
        rfl
      | some ids => rfl
  -- a later draft starts from the one before
  | some d =>
    refine Effective.ext ?_ ?_ ?_ ?_ ?_
    · cases dto.title <;> rfl
    · cases dto.content <;> rfl
    · cases dto.isAnonymous <;> rfl
    · cases dto.tagIds with
      | none => rfl
      | some ids => exact toFinset_eraseDups ids
    · cases dto.mediaIds <;> rfl

/-- The texts of an edit of the post itself. -/
theorem texts_editedPost (dto : UpdateDiscussionDto) (policy : Option PostContext) (p : Discussion) :
    (editedPost dto policy p).title = dto.title.getD p.title
      ∧ (editedPost dto policy p).content = dto.content.getD p.content
      ∧ (editedPost dto policy p).isAnonymous = dto.isAnonymous.getD p.isAnonymous := by
  unfold editedPost
  split <;> exact ⟨rfl, rfl, rfl⟩

/-- An edit of the post itself publishes what it names, over what was published. -/
theorem published_saveEdit {editor : Id} {k : Id} {u : Unit} (hp : s.post? k = some p)
    (h : saveEdit w s editor dto policy p = .ok (s', u)) :
    (s'.thread k).post = some (editedPost dto policy p)
      ∧ (s'.thread k).published (editedPost dto policy p) = ((s.thread k).published p).overlay dto := by
  obtain ⟨tagIds, htags, hthread⟩ := saveEdit_thread hp h
  have hk := hthread k
  rw [if_pos rfl] at hk
  rw [hk]
  refine ⟨rfl, ?_⟩
  obtain ⟨htitle, hcontent, hanonymous⟩ := texts_editedPost dto policy p
  refine Effective.ext htitle hcontent hanonymous ?_ ?_
  · show tagIds.toFinset = (dto.tagIds.map fun ids => (ids.map (·.id)).toFinset).getD (s.thread k).tagIds.toFinset
    -- tags that are named twice are linked once
    rcases htags with ⟨hnone, rfl⟩ | ⟨ids, tags, hsome, hfound, rfl⟩
    · rw [hnone]
      rfl
    · rw [hsome]
      show (tags.map (·.id)).toFinset = (ids.map (·.id)).toFinset
      rw [← toFinset_eraseDups]
      exact List.toFinset_eq_of_perm _ _ (tags_perm hfound)
  · show ((dto.mediaIds.map (attached k)).getD (s.thread k).media).map (·.mediaId)
      = (dto.mediaIds.map fun ids => ids.map (·.id)).getD ((s.thread k).media.map (·.mediaId))
    cases dto.mediaIds with
    | none => rfl
    | some ids =>
      show (ids.zipIdx.map fun m => (⟨k, m.1.id, m.2⟩ : DiscussionMedia)).map (·.mediaId) = ids.map (·.id)
      rw [List.map_map]
      exact (List.map_map (f := Prod.fst) (g := UuidText.id)).symm.trans (congrArg _ (List.zipIdx_map_fst 0 ids))

/-- **An update that goes through** leaves a draft or a new version of the post. -/
theorem updated_thread {id : UuidText} (hp : s.post? id.id = some p) (hok : (update w s id user dto).result.isOk = true) :
    ∃ policy, (s.thread id.id).Updated p dto policy ((update w s id user dto).state.thread id.id) := by
  obtain ⟨editor, p', policy, u, hprelude, -, htx⟩ := update_ok hok
  obtain rfl : p' = p := Option.some.inj ((updatePrelude_eq_ok hprelude).2.1.symm.trans hp)
  have hjoined := autoJoinTo_toContent s p'.roomId p'.authorId
  generalize (update w s id user dto).state = t at htx ⊢
  simp only [updateTx, bind_eq_ok, require_eq_ok] at htx
  obtain ⟨-, -, -, -, htx⟩ := htx
  refine ⟨policy, ?_⟩
  split at htx
  · next hdrafts =>
    simp only [saveDraft, bind_eq_ok, pure_eq_ok, Prod.mk.injEq] at htx
    obtain ⟨-, -, s₁, hrev, rfl, -⟩ := htx
    have hfound : (RoomsService.autoJoinTo s p'.roomId p'.authorId).post? id.id = some p' := hjoined ▸ hp
    have hsaved : ((RoomsService.autoJoinTo s p'.roomId p'.authorId).savePost
        (withDraft p' (draftOf s p' dto))).thread id.id = _ := thread_savePost hfound rfl
    refine .drafted hdrafts (Content.post?_id hp ▸ proposed_draftOf s p' dto) ?_
    rw [thread_insertRevision hrev, draftOf_congr hjoined, hsaved, if_pos rfl]
    rfl
  · next hdrafts =>
    obtain ⟨hpost, hpublished⟩ := published_saveEdit (hjoined ▸ hp) htx
    rw [hjoined] at hpublished
    exact .edited (by simpa using hdrafts) hpost hpublished

/-- Where an edit says the same over two texts, these agree in what it does not name. -/
theorem overlay_eq_iff {t : Thread} {d : PendingRevision} :
    (t.published p).overlay dto = d.proposed.overlay dto ↔ t.SameBeside p dto d := by
  have hfield : ∀ {α : Type} (o : Option α) (a b : α), o.getD a = o.getD b ↔ (o = none → a = b) := by
    intro α o a b
    cases o with
    | none => exact ⟨fun h _ => h, fun h => h rfl⟩
    | some x => exact ⟨fun _ h => (by cases h), fun _ => rfl⟩
  have hmap : ∀ {α β : Type} (o : Option α) (f : α → β), o.map f = none ↔ o = none :=
    fun o f => Option.map_eq_none_iff
  rw [Effective.ext_iff]
  unfold Effective.overlay Thread.SameBeside
  simp only [hfield, hmap]
  rfl

/-- An edit that counts as no change of a post with a draft names its anonymity at most. -/
theorem overlay_of_not_contentChanged {d : PendingRevision} (hd : p.pendingRevision = some d)
    (h : contentChanged p dto = false) :
    d.proposed.overlay dto = { d.proposed with isAnonymous := dto.isAnonymous.getD d.isAnonymous } := by
  have hnamed : dto.title = none ∧ dto.content = none := by
    simp only [contentChanged, hd, decide_eq_false_iff_not, not_or, not_and] at h
    obtain ⟨-, -, -, -, -, hnone⟩ := h
    simpa using hnone rfl
  obtain ⟨htags, hmedia⟩ := named_of_not_contentChanged h
  unfold Effective.overlay
  rw [hnamed.1, hnamed.2, htags, hmedia]
  rfl

/-- **When an edit overlays what it names**: exactly when the draft, if there is one, lets it. -/
theorem update_overlays (w : World) (s : Db) (user : GatewayUser) (id : UuidText) (dto : UpdateDiscussionDto)
    (p : Discussion) (hp : s.post? id.id = some p) (hok : (update w s id user dto).result.isOk = true) :
    ∃ q, (update w s id user dto).state.post? id.id = some q
      ∧ (((update w s id user dto).state.thread id.id).effective q = ((s.thread id.id).effective p).overlay dto
        ↔ (s.thread id.id).Overlays p dto) := by
  obtain ⟨policy, hupdated⟩ := updated_thread hp hok
  have hlive : p.deletedAt = none := (Content.post?_eq_some.mp hp).2.2
  generalize (update w s id user dto).state = s' at hupdated ⊢
  generalize ht : s.thread id.id = t at hupdated ⊢
  generalize ht' : s'.thread id.id = t' at hupdated ⊢
  have hfound : ∀ q : Discussion, t'.post = some q → q.deletedAt = none → s'.post? id.id = some q :=
    fun q hpost hq => post?_iff_live.mpr (ht' ▸ ⟨hpost, hq⟩)
  cases hupdated with
  -- a draft takes up what the author sees, and the request over it
  | drafted hdrafts hdraft hpost =>
    refine ⟨_, hfound _ hpost hlive, iff_of_true hdraft fun d _ => ?_⟩
    simp only [drafts, Bool.and_eq_true, decide_eq_true_eq] at hdrafts
    rw [if_pos hdrafts.1.1]
    exact .inl hdrafts.2
  | edited hdrafts hpost hpublished =>
    have hrow : (editedPost dto policy p).deletedAt = none := by
      unfold editedPost
      split <;> exact hlive
    refine ⟨_, hfound _ hpost hrow, ?_⟩
    by_cases hchanged : contentChanged p dto = true
    · -- the post has no draft any more
      have hnone : (editedPost dto policy p).pendingRevision = none := by
        rw [editedPost, if_pos hchanged]
        rfl
      have hnow : t'.effective (editedPost dto policy p) = (t.published p).overlay dto := by
        rw [← hpublished, Thread.effective, hnone]
        rfl
      rw [hnow]
      unfold Thread.Overlays Thread.effective
      cases hd : p.pendingRevision with
      | none => exact iff_of_true rfl fun d hmem => (by cases hmem)
      | some d =>
        have hhidden : p.visibility ≠ .visible := by
          simpa [drafts, hchanged, hd] using hdrafts
        -- a draft is lost when the edit is saved, unless it says nothing else
        show _ = d.proposed.overlay dto ↔ _
        rw [overlay_eq_iff]
        refine ⟨fun hsame d' hmem => ?_, fun h => ?_⟩
        · cases Option.some.inj hmem
          rw [if_pos hchanged]
          exact .inr hsame
        · have hd' := h d rfl
          rw [if_pos hchanged] at hd'
          exact hd'.resolve_left hhidden
    · have hunchanged : contentChanged p dto = false := by simpa using hchanged
      -- nothing to save, so the draft stays as it is
      have hself : editedPost dto policy p = p := by
        rw [editedPost, if_neg hchanged]
        exact edited_eq_self hunchanged
      rw [hself] at hpublished ⊢
      unfold Thread.Overlays Thread.effective
      cases hd : p.pendingRevision with
      | none => exact iff_of_true hpublished fun d hmem => (by cases hmem)
      | some d =>
        have hiff : d.proposed = d.proposed.overlay dto ↔ ∀ a ∈ dto.isAnonymous, a = d.isAnonymous := by
          rw [overlay_of_not_contentChanged hd hunchanged]
          cases dto.isAnonymous with
          | none => exact iff_of_true rfl fun a ha => (by cases ha)
          | some b =>
            constructor
            · intro hsame a ha
              rw [← Option.some.inj ha]
              exact (congrArg Effective.isAnonymous hsame).symm
            · intro h
              rw [h b rfl]
              rfl
        show d.proposed = d.proposed.overlay dto ↔ _
        rw [hiff]
        refine ⟨fun h d' hmem => ?_, fun h => ?_⟩
        · cases Option.some.inj hmem
          rw [if_neg hchanged]
          exact h
        · have hd' := h d rfl
          rw [if_neg hchanged] at hd'
          exact hd'

end

namespace Sample

/-- A question in a room where posts wait for approval, which is allowed. -/
def approvedQuestion : List Call :=
  [call 0 (student 1) (.rooms (.create
      { slug := "nhom-hoc", name := "Nhóm học", roomType := .forum, reviewPolicy := some .approval })),
    ask,
    call 2 administrator (.review (Id.text 0)
      { decision := .allow, expectedVersion := 1, expectedContent := "I do not see a drawing without a crossing." })]

/-- An edit of the question by its author. -/
def edit (dto : UpdateDiscussionDto) : Call := call 3 (student 1) (.discussions (.update (Id.text 0) dto))

/-- The administrator rejects what the question says. -/
def reject (status : ModerationStatus) (content : String) : Call :=
  call 4 administrator (.review (Id.text 0)
    { decision := .hide, expectedModerationStatus := some status, expectedVersion := 2, expectedContent := content
      note := some "Off topic" })

/-- The question has a draft that makes it anonymous. -/
def anonymousDraft : List Call := approvedQuestion ++ [edit { isAnonymous := some true, expectedVersion := some 1 }]

/-- The draft of the question is rejected, and then the question is. -/
def draftOfHidden : List Call :=
  approvedQuestion ++ [edit { content := some "I do not see how to draw it in the plane.", expectedVersion := some 1 },
    reject .pending "I do not see how to draw it in the plane.",
    reject .approved "I do not see a drawing without a crossing."]

def retitle : UpdateDiscussionDto := { title := some "Is this graph planar?", expectedVersion := some 2 }

def unmask : UpdateDiscussionDto := { isAnonymous := some false, expectedVersion := some 2 }

/-- What the author's edit makes of the question after some calls. -/
def edited (calls : List Call) (dto : UpdateDiscussionDto) : Outcome Db HttpError DiscussionDetail :=
  update (World.quiet 5) (Db.after calls) (Id.text 0) (student 1) dto

/-- What the question says after the edit, and what it should say. -/
def said (calls : List Call) (dto : UpdateDiscussionDto) : Option Effective × Option Effective :=
  (((edited calls dto).state.post? 0).map ((edited calls dto).state.thread 0).effective,
    ((Db.after calls).post? 0).map fun p => (((Db.after calls).thread 0).effective p).overlay dto)

end Sample

/-- The title goes into the draft. -/
theorem update_overlays_retitled :
    (Sample.said Sample.anonymousDraft Sample.retitle).1 = (Sample.said Sample.anonymousDraft Sample.retitle).2 := by
  have hfound : ((Db.after Sample.anonymousDraft).post? 0).isSome = true := by decide
  obtain ⟨p, hp⟩ := Option.isSome_iff_exists.mp hfound
  have hdraft : ((Db.after Sample.anonymousDraft).post? 0).all (fun p =>
      decide (((Db.after Sample.anonymousDraft).thread 0).Overlays p Sample.retitle)) = true := by decide
  rw [hp] at hdraft
  obtain ⟨q, hq, hiff⟩ := update_overlays (World.quiet 5) (Db.after Sample.anonymousDraft) (Sample.student 1) (Id.text 0)
    Sample.retitle p hp (by decide)
  have hq : (Sample.edited Sample.anonymousDraft Sample.retitle).state.post? 0 = some q := hq
  unfold Sample.said
  rw [hq, hp]
  exact congrArg some (hiff.mpr (of_decide_eq_true hdraft))

/-- A draft stays anonymous when the edit says otherwise, and the text of a draft is lost when its post is hidden and the
edit names the title. -/
theorem not_update_overlays :
    ((Sample.edited Sample.anonymousDraft Sample.unmask).result.isOk = true
        ∧ (Sample.said Sample.anonymousDraft Sample.unmask).1 ≠ (Sample.said Sample.anonymousDraft Sample.unmask).2)
      ∧ (Sample.edited Sample.draftOfHidden Sample.retitle).result.isOk = true
        ∧ (Sample.said Sample.draftOfHidden Sample.retitle).1 ≠ (Sample.said Sample.draftOfHidden Sample.retitle).2 := by
  decide

end AcaSocial
