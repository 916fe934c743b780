import AcaSocial.Discussion.Service

/-!
# Threads

A discussion with everything that hangs on it: the abstract state of which the tables are the
interleaving. Every operation of the service acts on one thread (the administration of tags is
the exception), and the lemmas below say how each write to the tables is seen by each thread.

* **`Thread`**, **`Content.thread`** — the thread of a discussion in a state of the tables.
* **`Thread.savePost`**, **`saveComment`**, … — the writes on a thread.
* **`thread_*`** — the thread with the id of the written row sees the write, the others do not
  see anything.
-/

namespace AcaSocial

@[ext] structure Thread where
  post : Option Discussion
  tagIds : List Id
  media : List DiscussionMedia
  comments : Table Id Comment Comment.id
  answers : Table Id Answer Answer.id
  acceptances : Table Id AnswerAcceptance AnswerAcceptance.id

/-- The thread of the discussion `i`. -/
def Content.thread (s : Content) (i : Id) : Thread where
  post := s.discussions.get? i
  tagIds := s.tagIdsOf i
  media := s.mediaOf i
  comments := s.comments.restrict fun c => decide (c.discussionId = i)
  answers := s.answers.restrict fun a => decide (a.discussionId = i)
  acceptances := s.acceptances.restrict fun r => decide (r.discussionId = i)

namespace Thread

def savePost (t : Thread) (p : Discussion) : Thread := { t with post := some p }

def saveComment (t : Thread) (c : Comment) : Thread := { t with comments := t.comments.save c }

def insertComment (t : Thread) (c : Comment) : Thread :=
  { t with comments := t.comments.insert c }

def saveAnswer (t : Thread) (a : Answer) : Thread := { t with answers := t.answers.save a }

def insertAnswer (t : Thread) (a : Answer) : Thread := { t with answers := t.answers.insert a }

def insertAcceptance (t : Thread) (r : AnswerAcceptance) : Thread :=
  { t with acceptances := t.acceptances.insert r }

/-- The acceptance, revoked if it was not yet. -/
def revoked (now : Time) (actor : Id) (reason : String) (r : AnswerAcceptance) :
    AnswerAcceptance :=
  if r.revokedAt = none then
    { r with revokedAt := some now, revokedBy := some actor, revokeReason := some reason }
  else r

@[simp] theorem revoked_id (now : Time) (actor : Id) (reason : String) (r : AnswerAcceptance) :
    (revoked now actor reason r).id = r.id := by
  unfold revoked; split <;> rfl

/-- Revoke the acceptance there is. -/
def revoke (t : Thread) (now : Time) (actor : Id) (reason : String) : Thread :=
  { t with acceptances := t.acceptances.modify (revoked now actor reason) (revoked_id _ _ _) }

/-- The rows after a revocation are the old ones, revoked where they were active. -/
theorem mem_revoke {t : Thread} {now : Time} {actor : Id} {reason : String}
    {r : AnswerAcceptance} : r ∈ (t.revoke now actor reason).acceptances
      ↔ ∃ r₀ ∈ t.acceptances, revoked now actor reason r₀ = r :=
  Table.mem_modify (revoked_id now actor reason)

def setTags (t : Thread) (ids : List Id) : Thread := { t with tagIds := ids }

/-- The live answer `k` of the thread. -/
def answer? (t : Thread) (k : Id) : Option Answer :=
  (t.answers.get? k).filter (·.deletedAt.isNone)

/-- The live comment `k` of the thread. -/
def comment? (t : Thread) (k : Id) : Option Comment :=
  (t.comments.get? k).filter (·.deletedAt.isNone)

end Thread

/-! ## What a thread sees of a write

A write to a table is a write to the thread that the row belongs to, and nothing to the other threads. These equations
let the proofs about one thread forget the tables. -/

section Frames

variable {s s' : Db} {i : Id}

/-- The next comment is in no thread yet. -/
theorem comments_get?_next (s : Db) (i : Id) : (s.thread i).comments.get? s.comments.next = none :=
  (Table.get?_restrict _ _ _).trans (by rw [s.comments.get?_next]; rfl)

/-- The next id of an answer is free in every thread. -/
theorem answers_get?_next (s : Db) (i : Id) : (s.thread i).answers.get? s.answers.next = none :=
  (Table.get?_restrict _ _ _).trans (by rw [s.answers.get?_next]; rfl)

/-- A write that a function of the state does not see, made for every element of a list. -/
theorem foldl_frame {σ τ α : Type} {F : σ → τ} {f : σ → α → σ} (h : ∀ s a, F (f s a) = F s)
    (l : List α) (s : σ) : F (l.foldl f s) = F s := by
  induction l generalizing s with
  | nil => rfl
  | cons a l ih => rw [List.foldl_cons, ih, h]

@[simp] theorem event_toContent (s : Db) (eventType : String) (data : EventData) :
    (s.event eventType data).toContent = s.toContent := rfl

@[simp] theorem emit_toContent (w : World) (s : Db) (content : String) (actorId : Id)
    (context : EventData) :
    (MentionService.emit w s content actorId context).toContent = s.toContent := by
  unfold MentionService.emit
  exact foldl_frame (fun _ _ => event_toContent _ _ _) _ _

@[simp] theorem autoJoin_toContent (s : Db) (roomId userId : Id) :
    (RoomsService.autoJoin s roomId userId).toContent = s.toContent := rfl

@[simp] theorem autoJoinTo_toContent (s : Db) (roomId : Option Id) (userId : Id) :
    (RoomsService.autoJoinTo s roomId userId).toContent = s.toContent := by
  cases roomId <;> rfl

/-- A save of a post is seen in its own thread. -/
theorem thread_savePost {k : Id} {p p₀ : Discussion} (h : s.post? k = some p₀)
    (hid : p.id = p₀.id) :
    (s.savePost p).thread i = if k = i then (s.thread i).savePost p else s.thread i := by
  obtain ⟨hp₀, rfl, -⟩ := Content.post?_eq_some.mp h
  split
  · next hi =>
    subst hi
    refine Thread.ext ?_ rfl rfl rfl rfl rfl
    rw [← hid]
    exact Table.get?_save_self (hid ▸ Table.get?_key hp₀)
  · next hi =>
    refine Thread.ext ?_ rfl rfl rfl rfl rfl
    exact Table.get?_save_of_ne (hid ▸ hi)

/-- The part of the new row is that of the old one. -/
theorem part_eq {ρ : Type} {key part : ρ → Id} {t : Table Id ρ key} {r r₀ : ρ}
    (h : t.get? (key r) = some r₀) (hpart : part r₀ = part r) (i : Id) :
    ∀ r' ∈ t, key r' = key r → decide (part r' = i) = decide (part r = i) := by
  intro r' hr' hk
  obtain rfl : r' = r₀ := by
    have := Table.get?_key hr'
    rw [hk, h] at this
    exact (Option.some.inj this).symm
  rw [hpart]

/-- A save of a comment is seen in the thread of its post. -/
theorem thread_saveComment {k : Id} {c c₀ : Comment} (h : s.comment? k = some c₀)
    (hid : c.id = c₀.id) (hd : c.discussionId = c₀.discussionId) :
    (s.saveComment c).thread i
      = if c₀.discussionId = i then (s.thread i).saveComment c else s.thread i := by
  obtain ⟨hc₀, rfl, -⟩ := Content.comment?_eq_some.mp h
  have hpart := part_eq (hid ▸ Table.get?_key hc₀) hd.symm i
  split
  · next hi => exact Thread.ext rfl rfl rfl (Table.restrict_save hpart) rfl rfl
  · next hi =>
    exact Thread.ext rfl rfl rfl
      (Table.restrict_save_of_not (by simpa [hd] using hi) hpart) rfl rfl

/-- A save of an answer is seen in the thread of its post. -/
theorem thread_saveAnswer {k : Id} {a a₀ : Answer} (h : s.answer? k = some a₀)
    (hid : a.id = a₀.id) (hd : a.discussionId = a₀.discussionId) :
    (s.saveAnswer a).thread i
      = if a₀.discussionId = i then (s.thread i).saveAnswer a else s.thread i := by
  obtain ⟨ha₀, rfl, -⟩ := Content.answer?_eq_some.mp h
  have hpart := part_eq (hid ▸ Table.get?_key ha₀) hd.symm i
  split
  · next hi => exact Thread.ext rfl rfl rfl rfl (Table.restrict_save hpart) rfl
  · next hi =>
    exact Thread.ext rfl rfl rfl rfl
      (Table.restrict_save_of_not (by simpa [hd] using hi) hpart) rfl

/-- A new comment is seen in the thread of its post. -/
theorem thread_insertComment {mk : Nat → Comment} {hmk : ∀ k, (mk k).id = k} :
    (s.insertComment mk hmk).thread i
      = if (mk s.comments.next).discussionId = i then
          (s.thread i).insertComment (mk s.comments.next)
        else s.thread i := by
  have hnew : s.comments.get? (mk s.comments.next).id = none := by
    rw [hmk]; exact s.comments.get?_next
  split
  · next hi =>
    exact Thread.ext rfl rfl rfl (Table.restrict_insert hnew (by simpa using hi)) rfl rfl
  · next hi =>
    exact Thread.ext rfl rfl rfl (Table.restrict_insert_of_not (by simpa using hi)) rfl rfl

/-- A new answer is seen in the thread of its post. -/
theorem thread_insertAnswer {mk : Nat → Answer} {hmk : ∀ k, (mk k).id = k} :
    (s.insertAnswer mk hmk).thread i
      = if (mk s.answers.next).discussionId = i then
          (s.thread i).insertAnswer (mk s.answers.next)
        else s.thread i := by
  have hnew : s.answers.get? (mk s.answers.next).id = none := by
    rw [hmk]; exact s.answers.get?_next
  split
  · next hi =>
    exact Thread.ext rfl rfl rfl rfl (Table.restrict_insert hnew (by simpa using hi)) rfl
  · next hi =>
    exact Thread.ext rfl rfl rfl rfl (Table.restrict_insert_of_not (by simpa using hi)) rfl

/-- A new acceptance is seen in the thread of its post. -/
theorem thread_insertAcceptance {mk : Nat → AnswerAcceptance} {hmk : ∀ k, (mk k).id = k} :
    (s.insertAcceptance mk hmk).thread i
      = if (mk s.acceptances.next).discussionId = i then
          (s.thread i).insertAcceptance (mk s.acceptances.next)
        else s.thread i := by
  have hnew : s.acceptances.get? (mk s.acceptances.next).id = none := by
    rw [hmk]; exact s.acceptances.get?_next
  split
  · next hi =>
    exact Thread.ext rfl rfl rfl rfl rfl (Table.restrict_insert hnew (by simpa using hi))
  · next hi =>
    exact Thread.ext rfl rfl rfl rfl rfl (Table.restrict_insert_of_not (by simpa using hi))

/-- The acceptances of a post end in its own thread. -/
theorem thread_revokeAcceptances {d actor : Id} {now : Time} {reason : String} :
    (s.revokeAcceptances d now actor reason).thread i
      = if d = i then (s.thread i).revoke now actor reason else s.thread i := by
  have hid := Db.revokedRow_id d now actor reason
  have hkeep : ∀ r : AnswerAcceptance,
      decide ((Db.revokedRow d now actor reason r).discussionId = i)
        = decide (r.discussionId = i) := by
    intro r; unfold Db.revokedRow; split <;> rfl
  split
  · next hi =>
    subst hi
    refine Thread.ext rfl rfl rfl rfl rfl ((Table.restrict_modify hid hkeep).trans
      (Table.modify_congr hid (Thread.revoked_id now actor reason) fun r hr => ?_))
    have hr : r.discussionId = d := by simpa using (Table.mem_restrict.mp hr).2
    simp [Thread.revoked, Db.revokedRow, hr]
  · next hi =>
    refine Thread.ext rfl rfl rfl rfl rfl ((Table.restrict_modify hid hkeep).trans
      (Table.modify_id hid fun r hr => ?_))
    have hr : r.discussionId = i := by simpa using (Table.mem_restrict.mp hr).2
    exact if_neg fun h => hi (h.1.symm.trans hr)

/-- A new discussion appears in its own thread. -/
theorem thread_insertPost {mk : Nat → Discussion} {hmk : ∀ k, (mk k).id = k} :
    (s.insertPost mk hmk).thread i
      = if s.discussions.next = i then (s.thread i).savePost (mk i) else s.thread i := by
  have hget := Serial.get?_insert s.discussions mk hmk i
  split
  · next hi =>
    rw [if_pos hi] at hget
    exact Thread.ext hget rfl rfl rfl rfl rfl
  · next hi =>
    rw [if_neg hi] at hget
    exact Thread.ext hget rfl rfl rfl rfl rfl

@[simp] theorem thread_insertReview (s : Db) (r : ModerationReview) :
    (s.insertReview r).thread i = s.thread i := rfl

@[simp] theorem thread_bumpTag (s : Db) (delta : Int) (tagId : Id) :
    (s.bumpTag delta tagId).thread i = s.thread i := rfl

@[simp] theorem thread_tagCounts (s : Db) (ids : List UuidText) (delta : Int) :
    (DiscussionsService.tagCounts s ids delta).thread i = s.thread i := by
  unfold DiscussionsService.tagCounts
  exact foldl_frame (F := fun s : Db => s.thread i)
    (f := fun (s : Db) (t : UuidText) => s.bumpTag delta t.id) (fun _ _ => rfl) _ _

/-- Revisions belong to no thread. -/
theorem thread_insertRevision {r : DiscussionRevision} (h : s.insertRevision r = .ok s') :
    s'.thread i = s.thread i := by
  simp only [Db.insertRevision, bind_eq_ok, require_eq_ok, pure_eq_ok] at h
  obtain ⟨-, -, rfl⟩ := h
  rfl

/-- Revisions of answers belong to no thread. -/
theorem thread_insertAnswerRevision {r : AnswerRevision} (h : s.insertAnswerRevision r = .ok s') :
    s'.thread i = s.thread i := by
  simp only [Db.insertAnswerRevision, bind_eq_ok, require_eq_ok, pure_eq_ok] at h
  obtain ⟨-, -, rfl⟩ := h
  rfl

/-! ## Tags and media

The links of a post are replaced as a whole. -/

/-- Links that are not there yet are all added. -/
theorem rows_foldl_insert_link {d : Id} {ids : List Id} (hids : ids.Nodup)
    {links : Table (Id × Id) DiscussionTag fun l => (l.discussionId, l.tagId)}
    (hnew : ∀ t ∈ ids, links.get? (d, t) = none) :
    (ids.foldl (fun links t => links.insert ⟨d, t⟩) links).rows
      = links.rows ++ ids.map fun t => ⟨d, t⟩ := by
  induction ids generalizing links with
  | nil => simp
  | cons t ids ih =>
    obtain ⟨ht, hids⟩ := List.nodup_cons.mp hids
    have hrows : (links.insert ⟨d, t⟩).rows = links.rows ++ [⟨d, t⟩] :=
      Table.rows_insert (hnew t (by simp))
    rw [List.foldl_cons, ih hids, hrows, List.map_cons, List.append_assoc]
    · rfl
    · intro t' ht'
      rw [Table.get?_insert, if_neg, hnew t' (List.mem_cons_of_mem t ht')]
      rintro ⟨-, rfl⟩
      exact ht ht'

/-- The tags of a post are replaced in its own thread. -/
theorem thread_setTags {d : Id} {ids : List Id} (hids : ids.Nodup) :
    (s.setTags d ids).thread i = if d = i then (s.thread i).setTags ids else s.thread i := by
  -- the links of the post are deleted first, so none of the new keys is taken
  have hnone : ∀ t ∈ ids,
      (s.discussionTags.erase fun l => decide (l.discussionId = d)).get? (d, t) = none := by
    intro t _
    rw [Table.get?_eq_none]
    intro l hl hk
    have hl := (Table.mem_erase.mp hl).2
    simp only [Prod.mk.injEq] at hk
    simp [hk.1] at hl
  have hrows := rows_foldl_insert_link hids hnone
  have htags : (s.setTags d ids).tagIdsOf i
      = ((s.discussionTags.erase fun l => decide (l.discussionId = d)).select
          fun l => decide (l.discussionId = i)).map (·.tagId)
        ++ ((ids.map fun t => (⟨d, t⟩ : DiscussionTag)).filter
          fun l => decide (l.discussionId = i)).map (·.tagId) := by
    simp only [Content.tagIdsOf, Db.setTags, Table.select, hrows, List.filter_append,
      List.map_append]
  split
  · next hi =>
    subst hi
    refine Thread.ext rfl (htags.trans ?_) rfl rfl rfl rfl
    have hnone : (s.discussionTags.erase fun l => decide (l.discussionId = d)).select
        (fun l => decide (l.discussionId = d)) = [] := by
      simp [Table.erase, Table.select, List.filter_filter]
    simp [hnone, Thread.setTags, List.filter_map, Function.comp_def]
  · next hi =>
    refine Thread.ext rfl (htags.trans ?_) rfl rfl rfl rfl
    -- the links of another post are not those that are deleted
    rw [Table.select_erase (by rintro l - hl; simp at hl ⊢; exact fun h => hi (h ▸ hl))]
    simp [hi, List.filter_map, Function.comp_def, Content.thread, Content.tagIdsOf]

/-- The rows of `discussion_media` that an attachment writes. -/
def attached (discussionId : Id) (mediaIds : List UuidText) : List DiscussionMedia :=
  mediaIds.zipIdx.map fun (m, sortOrder) => ⟨discussionId, m.id, sortOrder⟩

def Thread.setMedia (t : Thread) (media : List DiscussionMedia) : Thread :=
  { t with media := media }

/-- The media of a post are replaced in its own thread. -/
theorem thread_setMedia {d : Id} {mediaIds : List UuidText} :
    (s.setMedia d mediaIds).thread i
      = if d = i then (s.thread i).setMedia (attached d mediaIds) else s.thread i := by
  have hmedia : (s.setMedia d mediaIds).mediaOf i
      = (s.media.filter fun a => decide (a.discussionId = i) && decide (a.discussionId ≠ d))
        ++ (attached d mediaIds).filter fun a => decide (a.discussionId = i) := by
    simp only [Content.mediaOf, Db.setMedia, List.filter_append, List.filter_filter]
    rfl
  have hattached : ∀ a ∈ attached d mediaIds, a.discussionId = d := by
    intro a ha
    obtain ⟨x, -, rfl⟩ := List.mem_map.mp ha
    rfl
  split
  · next hi =>
    subst hi
    refine Thread.ext rfl rfl (hmedia.trans ?_) rfl rfl rfl
    -- none of the old rows of the post is left
    have hold : (s.media.filter fun a =>
        decide (a.discussionId = d) && decide (a.discussionId ≠ d)) = [] := by
      simp
    have hnew : ((attached d mediaIds).filter fun a => decide (a.discussionId = d))
        = attached d mediaIds :=
      List.filter_eq_self.mpr fun a ha => by simp [hattached a ha]
    rw [hold, hnew, List.nil_append]
    rfl
  · next hi =>
    refine Thread.ext rfl rfl (hmedia.trans ?_) rfl rfl rfl
    have hnew : ((attached d mediaIds).filter fun a => decide (a.discussionId = i)) = [] :=
      List.filter_eq_nil_iff.mpr fun a ha => by simp [hattached a ha, hi]
    rw [hnew, List.append_nil]
    refine List.filter_congr fun a _ => ?_
    by_cases ha : a.discussionId = i
    · simp [ha, Ne.symm hi]
    · simp [ha]

end Frames

end AcaSocial
