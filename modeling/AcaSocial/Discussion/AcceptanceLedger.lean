import AcaSocial.Discussion.ThreadRefinement

/-!
# The ledger of acceptances

A question points to its accepted answer, and `answer_acceptances` records every acceptance.

* **`Thread.Backs`** — the unrevoked rows of a thread are what the pointer of its post says.
* **`backs_step`** — every step of a thread keeps this.
* **`AnswerAcceptance.KeptFrom`** — a row is never changed, but for being revoked once.
* **`acceptance_ledger`** — both, in every run.
-/

namespace AcaSocial

namespace Thread

/-- The acceptances that are not revoked. -/
def active (t : Thread) : List AnswerAcceptance :=
  t.acceptances.select fun r => decide (r.revokedAt = none)

/-- The pointer of `p` is the only unrevoked acceptance, of an answer of the thread which is
not by the one who accepted it; without a pointer there is none. -/
structure Backs (t : Thread) (p : Discussion) : Prop where
  none : p.acceptedAnswerId = none → t.active = []
  some : ∀ k, p.acceptedAnswerId = some k → ∃ r a, t.active = [r] ∧ r.answerId = k
    ∧ t.answer? k = some a ∧ r.acceptedBy ≠ a.authorId ∧ p.visibility = .visible

/-- The ledger backs the live post, and is empty before there is a post. -/
def Ledger (t : Thread) : Prop := (t.post = .none → t.active = []) ∧ ∀ p, t.Live p → t.Backs p

variable {t t' : Thread} {p q : Discussion}

/-! ## Writes to the ledger and to the answers

What a write to the book of acceptances or to an answer makes of the active rows and of the answers that are found. -/

/-- After a revocation no acceptance is active. -/
@[simp] theorem active_revoke (now : Time) (actor : Id) (reason : String) :
    (t.revoke now actor reason).active = [] := by
  refine List.filter_eq_nil_iff.mpr fun r hr => ?_
  obtain ⟨r₀, -, rfl⟩ := mem_revoke.mp hr
  unfold revoked
  split
  · simp
  · next h => simp [h]

/-- A new acceptance is one more active one. -/
theorem active_insertAcceptance {r : AnswerAcceptance} (hnew : t.acceptances.get? r.id = .none)
    (hr : r.revokedAt = .none) : (t.insertAcceptance r).active = t.active ++ [r] := by
  simp only [active, insertAcceptance, Table.select, Table.rows_insert hnew, List.filter_append]
  simp [hr]

theorem answer?_saveAnswer_of_ne {a : Answer} {k : Id} (h : a.id ≠ k) :
    (t.saveAnswer a).answer? k = t.answer? k := by
  simp only [answer?, saveAnswer, Table.get?_save_of_ne h]

/-- An answer that is saved and not deleted is found. -/
theorem answer?_saveAnswer_self {a a₀ : Answer} (h : t.answer? a.id = .some a₀)
    (hlive : a.deletedAt = .none) : (t.saveAnswer a).answer? a.id = .some a := by
  have hget : t.answers.get? a.id = .some a₀ := (Option.filter_eq_some_iff.mp h).1
  simp [answer?, saveAnswer, Table.get?_save_self hget, hlive]

/-- A new answer hides none. -/
theorem answer?_insertAnswer {a a₀ : Answer} {k : Id} (h : t.answer? k = .some a₀) :
    (t.insertAnswer a).answer? k = .some a₀ := by
  have hget : t.answers.get? k = .some a₀ := (Option.filter_eq_some_iff.mp h).1
  have hlive := (Option.filter_eq_some_iff.mp h).2
  simp only [answer?, insertAnswer, Table.get?_insert, hget]
  split <;> simpa [Option.filter_eq_some_iff] using hlive

theorem answer?_id {a : Answer} {k : Id} (h : t.answer? k = .some a) : a.id = k :=
  (Table.get?_eq_some.mp (Option.filter_eq_some_iff.mp h).1).2

theorem answer?_live {a : Answer} {k : Id} (h : t.answer? k = .some a) : a.deletedAt = .none := by
  simpa using (Option.filter_eq_some_iff.mp h).2

theorem comment?_live {m : Comment} {k : Id} (h : t.comment? k = .some m) : m.deletedAt = .none := by
  simpa using (Option.filter_eq_some_iff.mp h).2

/-- An accepted answer stays where it is, by the same author. -/
def Keeps (t t' : Thread) (p : Discussion) : Prop :=
  ∀ k a, p.acceptedAnswerId = .some k → t.answer? k = .some a →
    ∃ a', t'.answer? k = .some a' ∧ a'.authorId = a.authorId

theorem Keeps.of_eq (h : t'.answers = t.answers) : t.Keeps t' p := by
  intro k a _ ha
  exact ⟨a, by rw [← ha]; simp only [answer?, h], rfl⟩

/-- The save of an answer keeps the accepted one, if it deletes another one. -/
theorem Keeps.saveAnswer {k : Id} {a₀ a : Answer} (ha : t.answer? k = .some a₀)
    (hid : a.id = a₀.id) (hauthor : a.authorId = a₀.authorId)
    (h : a.deletedAt = .none ∨ p.acceptedAnswerId ≠ .some a₀.id) : t.Keeps (t.saveAnswer a) p := by
  intro j a₁ hj ha₁
  obtain rfl := answer?_id ha
  by_cases hk : a.id = j
  · subst hk
    have hlive := h.resolve_right (fun hne => hne (hid ▸ hj))
    rw [hid, ha] at ha₁
    obtain rfl := Option.some.inj ha₁
    exact ⟨a, answer?_saveAnswer_self (hid ▸ ha) hlive, hauthor⟩
  · exact ⟨a₁, (answer?_saveAnswer_of_ne hk).trans ha₁, rfl⟩

/-- A new answer keeps the accepted one. -/
theorem Keeps.insertAnswer (a : Answer) : t.Keeps (t.insertAnswer a) p :=
  fun _ a₀ _ ha => ⟨a₀, answer?_insertAnswer ha, rfl⟩

namespace Backs

/-- A post that has accepted nothing, with a ledger in which nothing is accepted. -/
theorem of_none (hpointer : q.acceptedAnswerId = .none) (hactive : t.active = []) : t.Backs q where
  none _ := hactive
  some k hk := by rw [hpointer] at hk; cases hk

/-- The pointer, the ledger and the accepted answer stay as they are. -/
theorem congr (h : t.Backs p) (hpointer : q.acceptedAnswerId = p.acceptedAnswerId)
    (hvisible : p.visibility = .visible → q.visibility = .visible) (hactive : t'.active = t.active)
    (hkeeps : t.Keeps t' p) : t'.Backs q where
  none hnone := hactive.trans (h.none (hpointer ▸ hnone))
  some k hk := by
    rw [hpointer] at hk
    obtain ⟨r, a, hr, hrk, ha, hauthor, hv⟩ := h.some k hk
    obtain ⟨a', ha', hsame⟩ := hkeeps k a hk ha
    exact ⟨r, a', hactive.trans hr, hrk, ha', hsame ▸ hauthor, hvisible hv⟩

/-- Without a pointer, or after the acceptances have been revoked, nothing is accepted. -/
theorem active_ite (h : t.Backs p) (now : Time) (actor : Id) (reason : String) :
    (if p.acceptedAnswerId.isSome then t.revoke now actor reason else t).active = [] := by
  split
  · exact active_revoke _ _ _
  · next hnone => exact h.none (by simpa using hnone)

/-- An acceptance becomes the only unrevoked row. -/
theorem solvedBy {a : Answer} {w : World} {actor k : Id} (h : t.Backs p)
    (happroved : approved p) (ha : t.answer? a.id = .some a) (hauthor : a.authorId ≠ actor)
    (hnew : t.acceptances.get? k = .none) :
    (((if p.acceptedAnswerId.isSome then t.revoke w.now actor "replaced" else t).insertAcceptance
      (AnswersService.newAcceptance w p a actor k)).savePost (AnswersService.solvedBy p a)).Backs
      (AnswersService.solvedBy p a) where
  none hnone := (by cases hnone)
  some j hj := by
    obtain rfl : a.id = j := Option.some.inj hj
    refine ⟨AnswersService.newAcceptance w p a actor k, a, ?_, rfl, ?_, hauthor.symm, ?_⟩
    · have hfresh : (if p.acceptedAnswerId.isSome then t.revoke w.now actor "replaced"
          else t).acceptances.get? k = .none := by
        split
        · exact (Table.get?_modify _ _ (revoked_id _ _ _) _).trans (by rw [hnew]; rfl)
        · exact hnew
      refine (active_insertAcceptance hfresh rfl).trans ?_
      rw [h.active_ite, List.nil_append]
    · refine Eq.trans ?_ ha
      split <;> rfl
    · exact (of_decide_eq_true happroved).2

end Backs

end Thread

/-! ## Steps

The ledger and the pointer of a post agree after a step, whichever it is: either both are left alone, or both are
written. -/

open Thread DiscussionsService AnswersService CommentsService

/-- Only the administration of tags touches a thread without a post. -/
theorem ThreadStep.of_post_none {s : Db} {c : Call} {i : Id} {t t' : Thread}
    (h : ThreadStep s c i t t') (hnone : t'.post = none) : ∃ ids, t' = t.setTags ids := by
  cases h with
  | same => exact ⟨t.tagIds, rfl⟩
  | tagMerged | tagRemoved => exact ⟨_, rfl⟩
  | answerUpdated _ hp | commentUpdated _ hp | commentVoted _ hp | answerVoted _ hp =>
    cases hp.1.symm.trans hnone
  | _ => cases hnone

/-- An edit of the post ends its acceptance or keeps pointer and visibility. -/
theorem backs_editedPost {t : Thread} {p : Discussion} (h : t.Backs p) (now : Time) (editor : Id)
    (dto : UpdateDiscussionDto) (policy : Option PostContext) :
    (if contentChanged p dto ∧ p.acceptedAnswerId.isSome then
      t.revoke now editor "question_edited" else t).Backs (editedPost dto policy p) := by
  unfold editedPost
  by_cases hchanged : contentChanged p dto
  · simp only [hchanged, true_and, if_true]
    exact .of_none rfl (h.active_ite _ _ _)
  · simp only [hchanged, if_false, Bool.false_eq_true, false_and]
    exact h.congr rfl id rfl (.of_eq rfl)

/-- A review ends the acceptance or keeps the post visible. -/
theorem backs_reviewedPost {t : Thread} {p : Discussion} (h : t.Backs p) (now : Time)
    (actor : Id) (reason : String) (dto : ReviewContentDto) :
    (if ModerationService.revokes p dto.decision then t.revoke now actor reason else t).Backs
      (ModerationService.reviewedPost p dto) := by
  unfold ModerationService.reviewedPost
  dsimp only
  split
  · exact .of_none rfl (active_revoke _ _ _)
  · next hkept =>
    exact h.congr (by simp) (ModerationService.visible_of_not_revokes hkept) rfl (.of_eq rfl)

theorem acceptances_get?_next (s : Db) (i : Id) :
    (s.thread i).acceptances.get? s.acceptances.next = none :=
  (Table.get?_restrict _ _ _).trans (by rw [s.acceptances.get?_next]; rfl)

/-- A step keeps the ledger behind the live post. -/
theorem backs_step {s : Db} {c : Call} {i : Id} {t' : Thread}
    (h : ThreadStep s c i (s.thread i) t') (hinv : (s.thread i).Ledger) :
    ∀ p, t'.Live p → t'.Backs p := by
  intro p' hp'
  cases h with
  | same => exact hinv.2 p' hp'
  -- a new post has no acceptance
  | created _ _ hnew =>
    simp only [live_setMedia, live_setTags, live_savePost] at hp'
    obtain ⟨rfl, -⟩ := hp'
    exact .of_none rfl (hinv.1 hnew.2)
  | viewed _ hp | drafted _ hp =>
    obtain ⟨rfl, -⟩ := live_savePost.mp hp'
    exact (hinv.2 _ hp).congr rfl id rfl (.of_eq rfl)
  | edited _ hp =>
    simp only [live_setMedia, live_savePost] at hp'
    obtain ⟨rfl, -⟩ := hp'
    exact (backs_editedPost (hinv.2 _ hp) _ _ _ _).congr rfl id rfl (.of_eq rfl)
  | removed =>
    obtain ⟨rfl, hlive⟩ := live_savePost.mp hp'
    cases hlive
  | commentAccepted _ hp | acceptedCommentRemoved _ hp | statusSet _ hp | postVoted _ hp
  | commentCreated _ hp =>
    obtain ⟨rfl, -⟩ := live_savePost.mp hp'
    exact (hinv.2 _ hp).congr rfl id rfl (.of_eq rfl)
  | answerCreated _ hp =>
    obtain ⟨rfl, -⟩ := live_savePost.mp hp'
    exact (hinv.2 _ hp).congr rfl id rfl (.insertAnswer _)
  | answerUpdated _ _ ha =>
    have hlive := answer?_live ha
    exact (hinv.2 _ hp').congr rfl id rfl (.saveAnswer ha rfl rfl (.inl hlive))
  -- the acceptance is revoked together with the pointer
  | acceptedAnswerUpdated =>
    obtain ⟨rfl, -⟩ := live_savePost.mp hp'
    exact .of_none rfl (active_revoke _ _ _)
  | answerRemoved _ hp ha _ _ hkept =>
    obtain ⟨rfl, -⟩ := live_savePost.mp hp'
    exact (hinv.2 _ hp).congr rfl id rfl (.saveAnswer ha rfl rfl (.inr hkept))
  | acceptedAnswerRemoved =>
    obtain ⟨rfl, -⟩ := live_savePost.mp hp'
    exact .of_none rfl (active_revoke _ _ _)
  -- the new row is the one that the pointer names
  | answerAccepted _ hp _ _ _ _ happroved ha hauthor _ hnew =>
    obtain ⟨rfl, -⟩ := live_savePost.mp hp'
    exact (hinv.2 _ hp).solvedBy happroved (answer?_id ha ▸ ha) hauthor (hnew ▸ acceptances_get?_next s i)
  | acceptanceRemoved =>
    obtain ⟨rfl, -⟩ := live_savePost.mp hp'
    exact .of_none rfl (active_revoke _ _ _)
  -- a comment is accepted without a row
  | commentUpdated _ hp | commentVoted _ hp =>
    exact (hinv.2 _ hp').congr rfl id rfl (.of_eq rfl)
  | acceptedCommentUpdated _ hp =>
    obtain ⟨rfl, -⟩ := live_savePost.mp (live_saveComment.mp hp')
    exact (hinv.2 _ hp).congr rfl id rfl (.of_eq rfl)
  | commentRemoved _ hp =>
    obtain ⟨rfl, -⟩ := live_savePost.mp hp'
    exact (hinv.2 _ hp).congr (by simp) (by simp) rfl (.of_eq rfl)
  | answerVoted _ _ ha =>
    have hlive := answer?_live ha
    exact (hinv.2 _ hp').congr rfl id rfl (.saveAnswer ha rfl rfl (.inl hlive))
  | reviewed _ hp =>
    obtain ⟨rfl, -⟩ := live_savePost.mp hp'
    exact (backs_reviewedPost (hinv.2 _ hp) _ _ _ _).congr rfl id rfl (.of_eq rfl)
  | tagMerged | tagRemoved => exact (hinv.2 _ hp').congr rfl id rfl (.of_eq rfl)

/-- What there is before the first post has no acceptances either. -/
theorem ledger_step {s : Db} {c : Call} {i : Id} (hinv : (s.thread i).Ledger) :
    ((s.step c).thread i).Ledger := by
  have hstep := thread_step s c i
  refine ⟨fun hnone => ?_, backs_step hstep hinv⟩
  obtain ⟨ids, hids⟩ := hstep.of_post_none hnone
  rw [hids] at hnone ⊢
  exact hinv.1 hnone

/-! ## Rows are kept

An acceptance is never deleted. It is revoked once, and has then a time, an actor and a reason. -/

/-- The row `r'` is `r`, or `r` revoked. -/
structure AnswerAcceptance.KeptFrom (r' r : AnswerAcceptance) : Prop where
  id : r'.id = r.id
  discussionId : r'.discussionId = r.discussionId
  answerId : r'.answerId = r.answerId
  questionVersion : r'.questionVersion = r.questionVersion
  answerVersion : r'.answerVersion = r.answerVersion
  acceptedBy : r'.acceptedBy = r.acceptedBy
  acceptedAt : r'.acceptedAt = r.acceptedAt
  revoked : r.revokedAt ≠ none → r' = r

namespace AnswerAcceptance.KeptFrom

theorem refl (r : AnswerAcceptance) : r.KeptFrom r :=
  ⟨rfl, rfl, rfl, rfl, rfl, rfl, rfl, fun _ => rfl⟩

theorem trans {r r' r'' : AnswerAcceptance} (h' : r''.KeptFrom r') (h : r'.KeptFrom r) :
    r''.KeptFrom r where
  id := h'.id.trans h.id
  discussionId := h'.discussionId.trans h.discussionId
  answerId := h'.answerId.trans h.answerId
  questionVersion := h'.questionVersion.trans h.questionVersion
  answerVersion := h'.answerVersion.trans h.answerVersion
  acceptedBy := h'.acceptedBy.trans h.acceptedBy
  acceptedAt := h'.acceptedAt.trans h.acceptedAt
  revoked hr := by
    have heq := h.revoked hr
    exact (h'.revoked (heq ▸ hr)).trans heq

/-- A revocation writes the three columns of an active row and no other. -/
theorem revokedRow (now : Time) (actor : Id) (reason : String) (r : AnswerAcceptance) :
    (Thread.revoked now actor reason r).KeptFrom r := by
  unfold Thread.revoked
  split
  · next h => exact ⟨rfl, rfl, rfl, rfl, rfl, rfl, rfl, fun hr => absurd h hr⟩
  · exact .refl r

end AnswerAcceptance.KeptFrom

/-- Every row of the ledger of `t` is still in that of `t'`. -/
def Thread.KeepsRows (t t' : Thread) : Prop :=
  ∀ r ∈ t.acceptances, ∃ r' ∈ t'.acceptances, r'.KeptFrom r

namespace Thread.KeepsRows

variable {t t' : Thread}

theorem of_eq (h : t'.acceptances = t.acceptances) : t.KeepsRows t' :=
  fun r hr => ⟨r, h ▸ hr, .refl r⟩

/-- Rows are kept by a revocation. -/
theorem revoke (now : Time) (actor : Id) (reason : String) :
    t.KeepsRows (t.revoke now actor reason) :=
  fun r hr => ⟨revoked now actor reason r, mem_revoke.mpr ⟨r, hr, rfl⟩,
    .revokedRow now actor reason r⟩

theorem ite (d : Prop) [Decidable d] (now : Time) (actor : Id) (reason : String) :
    t.KeepsRows (if d then t.revoke now actor reason else t) := by
  split
  · exact revoke now actor reason
  · exact of_eq rfl

/-- Rows are kept by an insertion. -/
theorem insertAcceptance (h : t.KeepsRows t') (r₀ : AnswerAcceptance) :
    t.KeepsRows (t'.insertAcceptance r₀) := by
  intro r hr
  obtain ⟨r', hr', hkept⟩ := h r hr
  exact ⟨r', Table.mem_insert.mpr (.inl hr'), hkept⟩

end Thread.KeepsRows

/-- A step only adds rows to the ledger and revokes them. -/
theorem keepsRows_step {s : Db} {c : Call} {i : Id} {t t' : Thread} (h : ThreadStep s c i t t') :
    t.KeepsRows t' := by
  cases h with
  | edited | reviewed => exact .ite _ _ _ _
  | acceptedAnswerUpdated | acceptedAnswerRemoved | acceptanceRemoved => exact .revoke _ _ _
  | answerAccepted => exact .insertAcceptance (.ite _ _ _ _) _
  | _ => exact .of_eq rfl

/-- The book of a thread has the rows of its post. -/
theorem mem_thread_acceptances {s : Db} {i : Id} {r : AnswerAcceptance} :
    r ∈ (s.thread i).acceptances ↔ r ∈ s.acceptances ∧ r.discussionId = i := by
  refine Table.mem_restrict.trans ?_
  rw [decide_eq_true_eq, Serial.mem_toTable]

/-- A call keeps every row of the ledger. -/
theorem keptFrom_step {s : Db} {c : Call} {r : AnswerAcceptance} (hr : r ∈ s.acceptances) :
    ∃ r' ∈ (s.step c).acceptances, r'.KeptFrom r := by
  obtain ⟨r', hr', hkept⟩ := keepsRows_step (thread_step s c r.discussionId) r
    (mem_thread_acceptances.mpr ⟨hr, rfl⟩)
  exact ⟨r', (mem_thread_acceptances.mp hr').1, hkept⟩

/-- A run keeps every row of the ledger. -/
theorem keptFrom_run (calls : List Call) {s : Db} {r : AnswerAcceptance}
    (hr : r ∈ s.acceptances) : ∃ r' ∈ (run Db.step s calls).acceptances, r'.KeptFrom r := by
  induction calls generalizing s r with
  | nil => exact ⟨r, hr, .refl r⟩
  | cons c calls ih =>
    obtain ⟨r₁, hr₁, h₁⟩ := keptFrom_step (c := c) hr
    obtain ⟨r₂, hr₂, h₂⟩ := ih hr₁
    exact ⟨r₂, hr₂, h₂.trans h₁⟩

/-! ## Runs

The invariant holds of the thread of every post, from the empty store on. -/

/-- The rows of `answer_acceptances` of a post are what its pointer says. -/
structure LedgerAgrees (s : Db) (q : Discussion) : Prop where
  active_iff : s.activeAcceptances q.id ≠ [] ↔ q.acceptedAnswerId.isSome
  accepted : ∀ k, q.acceptedAnswerId = some k →
    ∃ r a, s.activeAcceptances q.id = [r] ∧ r.answerId = k ∧ s.answer? k = some a
      ∧ a.discussionId = q.id ∧ r.acceptedBy ≠ a.authorId ∧ q.visibility = .visible

/-- The active rows of a post are those of its thread. -/
theorem activeAcceptances_eq (s : Db) (i : Id) :
    s.activeAcceptances i = (s.thread i).active := by
  simp only [Db.activeAcceptances, Thread.active, Content.thread, Table.select, Table.restrict,
    List.filter_filter]
  exact List.filter_congr fun r _ => by rw [Bool.decide_and, Bool.and_comm]

/-- The invariant of a thread is what the service promises of its post. -/
theorem Thread.Ledger.agrees {s : Db} {i : Id} {q : Discussion} (h : (s.thread i).Ledger)
    (hq : s.post? i = some q) : LedgerAgrees s q := by
  obtain rfl := Content.post?_id hq
  have hbacks := h.2 q (post?_iff_live.mp hq)
  have haccepted : ∀ k, q.acceptedAnswerId = some k →
      ∃ r a, s.activeAcceptances q.id = [r] ∧ r.answerId = k ∧ s.answer? k = some a
        ∧ a.discussionId = q.id ∧ r.acceptedBy ≠ a.authorId ∧ q.visibility = .visible := by
    intro k hk
    obtain ⟨r, a, hr, hrk, ha, hrest⟩ := hbacks.some k hk
    obtain ⟨ha, hd⟩ := thread_answer?_eq_some.mp ha
    exact ⟨r, a, (activeAcceptances_eq s q.id).trans hr, hrk, ha, hd, hrest⟩
  refine ⟨?_, haccepted⟩
  cases hpointer : q.acceptedAnswerId with
  | none => simp [activeAcceptances_eq, hbacks.none hpointer]
  | some k =>
    obtain ⟨r, a, hr, -⟩ := haccepted k hpointer
    simp [hr]

/-- The ledger is kept along every run. -/
theorem ledger_after (calls : List Call) (i : Id) : ((Db.after calls).thread i).Ledger := by
  have hempty : ∀ j, (Db.empty.thread j).Ledger :=
    fun j => ⟨fun _ => rfl, fun _ hp => (by cases hp.1)⟩
  exact run_invariant (P := fun s : Db => ∀ j, (s.thread j).Ledger)
    (fun s c h j => ledger_step (h j)) hempty calls i

/-- In every reachable state the unrevoked acceptances of a live post are what its pointer says,
and whatever is called later, every acceptance keeps what it recorded. -/
theorem acceptance_ledger (calls : List Call) :
    (∀ i q, (Db.after calls).post? i = some q → LedgerAgrees (Db.after calls) q)
      ∧ ∀ later, ∀ r ∈ (Db.after calls).acceptances,
        ∃ r' ∈ (Db.after (calls ++ later)).acceptances, r'.KeptFrom r := by
  refine ⟨fun i q hq => (ledger_after calls i).agrees hq, fun later r hr => ?_⟩
  have hrun : Db.after (calls ++ later) = run Db.step (Db.after calls) later :=
    run_append _ _ _
  rw [hrun]
  exact keptFrom_run later hr

end AcaSocial
