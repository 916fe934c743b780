import AcaSocial.Discussion.AcceptanceLedger
import AcaSocial.Discussion.Publication
import AcaSocial.Discussion.Revisions

/-!
# What an acceptance names

An acceptance records the version of the question and that of the answer. The version of a question counts its
drafts, also one that was rejected and waits.

* **`AcceptanceNamed`** — the versions of a row are what the question says and what the answer said, but for
  editorial changes.
* **`AcceptsStale`** — the call accepts an answer while a draft with another text waits on the question.

`acceptances_named` says that the last is all that can break the first.
-/

namespace AcaSocial

variable {w : World} {s s' : Db} {c : Call} {i : Id}

/-- The recorded version of the question is what it publishes. That of the answer is recorded, and whatever was
recorded of the answer since then is editorial. -/
structure AcceptanceNamed (s : Db) (r : AnswerAcceptance) : Prop where
  question : ∃ p v, s.discussions.get? r.discussionId = some p
    ∧ s.revisions.get? (r.discussionId, r.questionVersion) = some v ∧ v.title = p.title ∧ v.content = p.content
  answer : (s.answerRevisions.get? (r.answerId, r.answerVersion)).isSome
  later : ∀ u ∈ s.answerRevisions, u.answerId = r.answerId → r.answerVersion < u.contentVersion →
    u.revisionType = .editorial

def AcceptancesNamed (s : Db) : Prop := ∀ r ∈ s.acceptances, r.revokedAt = none → AcceptanceNamed s r

open AnswersService in
/-- The acceptance of the answer `a` to the question `p` passes its checks. -/
structure Acceptable (s : Db) (c : Call) (dto : AcceptAnswerDto) (p : Discussion) (a : Answer) : Prop where
  isOpen : p.status ≠ .closed
  question : p.postType = .question
  can : canAccept p c.user
  approved : AcaSocial.approved p
  answer : s.answer? dto.answerId.id = some a ∧ a.discussionId = p.id
  author : ∃ actor, c.user.id = some actor ∧ a.authorId ≠ actor
  versions : p.contentVersion = dto.expectedQuestionVersion ∧ a.contentVersion = dto.expectedAnswerVersion

/-- The call accepts an answer to a question on which a draft waits that has another title or content. -/
def AcceptsStale (s : Db) (c : Call) : Prop :=
  match c.operation with
  | .answers (.accept d dto) => ∃ p a draft, s.post? d.id = some p ∧ Acceptable s c dto p a
      ∧ p.pendingRevision = some draft ∧ ¬ (draft.title = p.title ∧ draft.content = p.content)
  | _ => False

/-! ## The rows of a thread

The acceptances of a thread are of its answers, each of a version that the answer had. -/

namespace Thread

/-- The acceptances of a thread are of its answers. -/
def OfAnswers (t : Thread) : Prop := ∀ r ∈ t.acceptances, (t.answers.get? r.answerId).isSome

namespace OfAnswers

variable {t : Thread}

/-- A revocation keeps the answer and the version of a row. -/
theorem revoke (h : t.OfAnswers) (now : Time) (actor : Id) (reason : String) :
    (t.revoke now actor reason).OfAnswers := by
  intro r hr
  obtain ⟨r₀, hr₀, rfl⟩ := mem_revoke.mp hr
  rw [(AnswerAcceptance.KeptFrom.revokedRow now actor reason r₀).answerId]
  exact h r₀ hr₀

theorem ite (h : t.OfAnswers) (d : Prop) [Decidable d] (now : Time) (actor : Id) (reason : String) :
    (if d then t.revoke now actor reason else t).OfAnswers := by
  split
  · exact h.revoke now actor reason
  · exact h

/-- A save of an answer keeps it in its thread. -/
theorem saveAnswer (h : t.OfAnswers) (a : Answer) : (t.saveAnswer a).OfAnswers := by
  intro r hr
  show ((t.answers.save a).get? r.answerId).isSome
  rw [Table.isSome_get?_save]
  exact h r hr

/-- A new answer takes none away. -/
theorem insertAnswer (h : t.OfAnswers) (a : Answer) : (t.insertAnswer a).OfAnswers := by
  intro r hr
  show ((t.answers.insert a).get? r.answerId).isSome
  rw [Table.get?_insert]
  split
  · rfl
  · exact h r hr

end OfAnswers

end Thread

open Thread DiscussionsService AnswersService

/-- A step of a thread keeps its acceptances. -/
theorem ofAnswers_step {t t' : Thread} (h : ThreadStep s c i t t') (hinv : t.OfAnswers) : t'.OfAnswers := by
  cases h with
  | edited => exact hinv.ite _ _ _ _
  | reviewed => exact hinv.ite _ _ _ _
  | answerCreated => exact hinv.insertAnswer _
  | answerUpdated | answerVoted => exact hinv.saveAnswer _
  | answerRemoved => exact hinv.saveAnswer _
  | acceptedAnswerUpdated => exact (hinv.saveAnswer _).revoke _ _ _
  | acceptedAnswerRemoved => exact (hinv.revoke _ _ _).saveAnswer _
  | acceptanceRemoved => exact hinv.revoke _ _ _
  | @answerAccepted p a d dto actor k _ _ _ _ _ _ _ ha =>
    intro r hr
    have hanswers : ∀ d : Prop, [Decidable d] →
        (if d then t.revoke c.world.now actor "replaced" else t).answers = t.answers := by
      intro d _
      split <;> rfl
    show ((if _ then _ else _ : Thread).answers.get? r.answerId).isSome
    rw [hanswers]
    rcases Table.mem_insert.mp hr with hr | ⟨rfl, -⟩
    · have hold := hinv.ite (p.acceptedAnswerId.isSome = true) c.world.now actor "replaced" r hr
      rw [hanswers] at hold
      exact hold
    · show (t.answers.get? a.id).isSome
      rw [answer?_id ha, (Option.filter_eq_some_iff.mp ha).1]
      rfl
  | _ => exact hinv

/-- The post of the thread says what it said. -/
def Thread.SaysStill (t t' : Thread) : Prop :=
  ∀ p, t.post = some p → ∃ p', t'.post = some p' ∧ p'.title = p.title ∧ p'.content = p.content

/-- The call accepted an answer, and `r` is the row of it. -/
def Thread.AcceptedAs (s : Db) (c : Call) (i : Id) (t t' : Thread) (r : AnswerAcceptance) : Prop :=
  ∃ d dto p a actor, c.operation = .answers (.accept d dto) ∧ d.id = i ∧ t.Live p
    ∧ t.answer? dto.answerId.id = some a ∧ (canAccept p c.user ∧ p.status ≠ .closed ∧ p.postType = .question
      ∧ approved p ∧ c.user.id = some actor ∧ a.authorId ≠ actor ∧ p.contentVersion = dto.expectedQuestionVersion
      ∧ a.contentVersion = dto.expectedAnswerVersion)
    ∧ r = newAcceptance c.world p a actor s.acceptances.next ∧ t'.post = some (AnswersService.solvedBy p a)

theorem not_mem_active_ite {t : Thread} {p : Discussion} {r : AnswerAcceptance} (hinv : t.Ledger) (hp : t.Live p)
    (now : Time) (actor : Id) (reason : String) :
    r ∉ (if p.acceptedAnswerId.isSome then t.revoke now actor reason else t).active := by
  rw [(hinv.2 p hp).active_ite]
  exact List.not_mem_nil

/-- **Where an unrevoked acceptance comes from.** It was there, and the post says what it said, or the call made it. -/
theorem active_origin {t' : Thread} (h : ThreadStep s c i (s.thread i) t') (hinv : (s.thread i).Ledger)
    {r : AnswerAcceptance} (hr : r ∈ t'.active) :
    (r ∈ (s.thread i).active ∧ (s.thread i).SaysStill t') ∨ AcceptedAs s c i (s.thread i) t' r := by
  have hsaved : ∀ {p p' : Discussion}, (s.thread i).Live p → t'.post = some p' → p'.title = p.title →
      p'.content = p.content → (s.thread i).SaysStill t' := by
    intro p p' hp hp' htitle hcontent q hq
    obtain rfl := Option.some.inj (hp.1.symm.trans hq)
    exact ⟨p', hp', htitle, hcontent⟩
  cases h with
  | same => exact .inl ⟨hr, fun p hp => ⟨p, hp, rfl, rfl⟩⟩
  | created _ _ hnew =>
    refine .inl ⟨hr, fun p hp => ?_⟩
    cases hnew.2.symm.trans hp
  | @edited p id dto policy editor tagIds _ hp =>
    by_cases hchanged : contentChanged p dto
    · -- a change revokes what there was
      simp only [hchanged, true_and] at hr
      exact absurd hr (not_mem_active_ite hinv hp _ _ _)
    -- without a change of the text, title and content are as before
    · have hfalse : contentChanged p dto = false := Bool.eq_false_iff.mpr hchanged
      simp only [hfalse, Bool.false_eq_true, false_and, if_false] at hr
      refine .inl ⟨hr, hsaved hp rfl ?_ ?_⟩
      · rw [editedPost, if_neg hchanged, edited_eq_self hfalse]
      · rw [editedPost, if_neg hchanged, edited_eq_self hfalse]
  | @reviewed p id dto actor reason ids media _ hp =>
    -- a decision revokes when it changes what is shown
    by_cases hrevokes : ModerationService.revokes p dto.decision
    · simp only [hrevokes, if_true] at hr
      have hnone : r ∈ ((s.thread i).revoke c.world.now actor reason).active := hr
      rw [active_revoke] at hnone
      cases hnone
    · have hfalse := Bool.eq_false_iff.mpr hrevokes
      simp only [hfalse, Bool.false_eq_true, if_false] at hr
      have hkept := ModerationService.reviewedPost_kept p dto fun hallow =>
        Option.not_isSome_iff_eq_none.mp fun hdraft => hrevokes (decide_eq_true (.inl ⟨hallow, hdraft⟩))
      exact .inl ⟨hr, hsaved hp rfl hkept.1 hkept.2⟩
  | acceptedAnswerUpdated | acceptedAnswerRemoved | acceptanceRemoved =>
    have hnone := active_revoke (t := s.thread i) c.world.now _ _ ▸ hr
    cases hnone
  | @answerAccepted p a d dto actor k hop hp huser hopen hquestion hcan happroved ha hauthor hversions hnew =>
    subst hnew
    -- whatever was accepted before has been revoked, so the new row is the only one
    have hnone : (if p.acceptedAnswerId.isSome then (s.thread i).revoke c.world.now actor "replaced"
        else s.thread i).active = [] := (hinv.2 p hp).active_ite _ _ _
    have hfresh : (if p.acceptedAnswerId.isSome then (s.thread i).revoke c.world.now actor "replaced"
        else s.thread i).acceptances.get? s.acceptances.next = none := by
      split
      · exact (Table.get?_modify _ _ (revoked_id _ _ _) _).trans (by rw [acceptances_get?_next]; rfl)
      · exact acceptances_get?_next s i
    have hactive := active_insertAcceptance (r := newAcceptance c.world p a actor s.acceptances.next) hfresh rfl
    rw [hnone, List.nil_append] at hactive
    obtain rfl := List.mem_singleton.mp (hactive ▸ hr)
    exact .inr ⟨d, dto, p, a, actor, hop.1, hop.2, hp, ha,
      ⟨hcan, hopen, hquestion, happroved, huser, hauthor, hversions⟩, rfl, rfl⟩
  | @commentRemoved p _ _ _ hp =>
    refine .inl ⟨hr, hsaved hp rfl ?_ ?_⟩
    · unfold CommentsService.uncommented
      split <;> rfl
    · unfold CommentsService.uncommented
      split <;> rfl
  | viewed _ hp | drafted _ hp | removed _ hp | commentAccepted _ hp | acceptedCommentRemoved _ hp
  | statusSet _ hp | postVoted _ hp | acceptedCommentUpdated _ hp | answerCreated _ hp | commentCreated _ hp
  | answerRemoved _ hp => exact .inl ⟨hr, hsaved hp rfl rfl rfl⟩
  | answerUpdated | commentUpdated | answerVoted | commentVoted | tagMerged | tagRemoved =>
    exact .inl ⟨hr, fun p hp => ⟨p, hp, rfl, rfl⟩⟩

/-! ## The versions of answers

The version that an acceptance names is on record. -/

/-- The record of an answer has the rows of the table that are about it. -/
theorem mem_answerRevisionsOf {k : Id} {n : Nat} {content : String} :
    (n, content) ∈ s.answerRevisionsOf k ↔ ∃ u, s.answerRevisions.get? (k, n) = some u ∧ u.content = content := by
  simp only [Content.answerRevisionsOf, List.mem_map, Table.mem_select, decide_eq_true_eq, Prod.mk.injEq,
    Table.get?_eq_some, and_assoc]

/-- A version that is recorded stays recorded. -/
theorem answerRevision_step {k : Id} {n : Nat} (h : (s.answerRevisions.get? (k, n)).isSome) :
    ((s.step c).answerRevisions.get? (k, n)).isSome := by
  obtain ⟨u, hu⟩ := Option.isSome_iff_exists.mp h
  have hmem : (n, u.content) ∈ s.answerRevisionsOf k := mem_answerRevisionsOf.mpr ⟨u, hu, rfl⟩
  obtain ⟨u', hu', -⟩ := mem_answerRevisionsOf.mp ((answers_advance s c k).mem hmem)
  exact Option.isSome_of_eq_some hu'

/-- A semantic update of the accepted answer leaves no acceptance of the question. -/
theorem revoked_of_updateTx {q : Discussion} {actor : Id} {r : AnswerAcceptance} (hpointer : q.acceptedAnswerId.isSome)
    (hr : r ∈ (revokeAcceptance w s q actor "answer_edited").1.acceptances) (hq : r.discussionId = q.id) :
    r.revokedAt ≠ none := by
  intro hactive
  have hsome : q.acceptedAnswerId.isNone = false := Option.isNone_eq_false_iff.mpr hpointer
  simp only [revokeAcceptance, hsome, Bool.false_eq_true, if_false] at hr
  have hmem : r ∈ ((s.revokeAcceptances q.id w.now actor "answer_edited").thread q.id).acceptances :=
    mem_thread_acceptances.mpr ⟨hr, hq⟩
  rw [thread_revokeAcceptances, if_pos rfl] at hmem
  have hnone : r ∈ ((s.thread q.id).revoke w.now actor "answer_edited").active :=
    Table.mem_select.mpr ⟨hmem, decide_eq_true hactive⟩
  rw [active_revoke] at hnone
  cases hnone

/-- **Where a recorded version of an answer comes from.** It was recorded, or the answer is new, or the call updates
the answer; then the acceptances of its question are revoked if that is semantic and the answer was accepted. -/
theorem answerRevision_origin {u : AnswerRevision} (hu : u ∈ (s.step c).answerRevisions) :
    u ∈ s.answerRevisions ∨ u.answerId = s.answers.next
      ∨ ∃ a q type, s.answer? u.answerId = some a ∧ s.post? a.discussionId = some q ∧ u.revisionType = type
        ∧ (type = .semantic → q.acceptedAnswerId = some a.id →
          ∀ r ∈ (s.step c).acceptances, r.discussionId = q.id → r.revokedAt ≠ none) := by
  -- two operations record versions: a new answer has its first one, an update the next one
  cases hanswer : c.operation.writesAnswer with
  | false =>
    have hsame : (s.step c).answerRevisions = s.answerRevisions := answerRevisions_step hanswer
    exact .inl (hsame ▸ hu)
  | true =>
    obtain ⟨w, user, o⟩ := c
    cases o with
    | answers o =>
      cases o with
      | create d dto =>
        refine (attempt_induction (P := fun t : Db => ∀ u ∈ t.answerRevisions,
          u ∈ s.answerRevisions ∨ u.answerId = s.answers.next) (fun u hu => .inl hu) ?_ u hu).imp_right .inl
        intro ⟨author, q⟩ _
        have hjoined := autoJoinTo_toContent s q.roomId author
        refine commit_induction (P := fun t : Db => ∀ u ∈ t.answerRevisions,
          u ∈ s.answerRevisions ∨ u.answerId = s.answers.next) ?_ fun t a h => ?_
        · rw [hjoined]
          exact fun u hu => .inl hu
        · simp only [bind_eq_ok, AnswersService.createTx, pure_eq_ok, Prod.mk.injEq] at h
          obtain ⟨-, -, s₁, hrev, rfl, -⟩ := h
          intro u hu
          have hmem : u ∈ s₁.answerRevisions := by
            rw [emit_toContent] at hu
            split at hu <;> exact hu
          rw [(insertAnswerRevision_eq hrev).2] at hmem
          rcases Table.mem_insert.mp hmem with hold | ⟨rfl, -⟩
          · have hold : u ∈ (RoomsService.autoJoinTo s q.roomId author).answerRevisions := hold
            rw [hjoined] at hold
            exact .inl hold
          · right
            show (RoomsService.autoJoinTo s q.roomId author).answers.next = _
            rw [hjoined]
      | update id dto =>
        rcases updateAnswer_cases w s id dto user with ⟨-, hsame⟩ | ⟨-, htx⟩
        · have hu : u ∈ (AnswersService.update w s id dto user).state.answerRevisions := hu
          rw [hsame] at hu
          exact .inl hu
        · have hstate : s.step ⟨w, user, .answers (.update id dto)⟩
              = (AnswersService.update w s id dto user).state := rfl
          rw [hstate] at hu ⊢
          generalize (AnswersService.update w s id dto user).state = t at htx hu
          simp only [AnswersService.updateTx, bind_eq_ok] at htx
          obtain ⟨actor, -, ⟨a, q⟩, hlock, -, -, -, -, -, -, h⟩ := htx
          obtain ⟨ha, hq⟩ := AnswersService.lockAnswerAndQuestion_eq_ok.mp hlock
          have hid : a.id = id.id := (Content.answer?_eq_some.mp ha).2.1
          split at h
          -- the text is what it was, and nothing is recorded
          · obtain ⟨rfl, -⟩ := Prod.mk.inj (pure_eq_ok.mp h)
            exact .inl hu
          · obtain ⟨s₁, hrev, h⟩ := bind_eq_ok.mp h
            have hrevisions : t.answerRevisions = s₁.answerRevisions := by
              split at h <;> obtain ⟨rfl, -⟩ := Prod.mk.inj (pure_eq_ok.mp h)
              · exact (revokeAcceptance_answers w s₁ q actor "answer_edited").2
              · rfl
            rw [hrevisions, (insertAnswerRevision_eq hrev).2] at hu
            rcases Table.mem_insert.mp hu with hold | ⟨rfl, -⟩
            · exact .inl hold
            · refine .inr (.inr ⟨a, q, dto.revisionType, ?_, hq, rfl, fun hsemantic hpointer => ?_⟩)
              · show s.answer? a.id = some a
                rw [hid]
                exact ha
              · rw [if_pos ⟨hsemantic, hpointer⟩] at h
                obtain ⟨rfl, -⟩ := Prod.mk.inj (pure_eq_ok.mp h)
                exact fun r hr hrq => revoked_of_updateTx (Option.isSome_of_eq_some hpointer) hr hrq
      | _ => cases hanswer
    | _ => cases hanswer

/-! ## Runs

The history of acceptances is complete along every run. -/

/-- What holds of ledger and revisions in every run. -/
structure AcceptanceHistory (s : Db) : Prop where
  posts : RevisionsComplete s
  answers : ∀ k, LogOf (s.answerRevisionsOf k) ((s.answers.get? k).map Answer.version)
  ledger : ∀ i, (s.thread i).Ledger
  ofAnswers : ∀ i, (s.thread i).OfAnswers

/-- A call keeps the history. -/
theorem AcceptanceHistory.step (h : AcceptanceHistory s) (c : Call) : AcceptanceHistory (s.step c) where
  posts := h.posts.step c
  answers k := (answers_advance s c k).logOf (h.answers k)
  ledger i := ledger_step (h.ledger i)
  ofAnswers i := ofAnswers_step (thread_step s c i) (h.ofAnswers i)

theorem AcceptanceHistory.empty : AcceptanceHistory Db.empty where
  posts i := posts_logOf [] i
  answers k := answers_logOf [] k
  ledger i := ledger_after [] i
  ofAnswers _ := fun _ hr => (by cases hr)

/-- The active acceptances of a thread are those of its post. -/
theorem mem_thread_active {r : AnswerAcceptance} :
    r ∈ (s.thread i).active ↔ r ∈ s.acceptances ∧ r.discussionId = i ∧ r.revokedAt = none := by
  rw [Thread.active, Table.mem_select, mem_thread_acceptances, decide_eq_true_eq, and_assoc]

/-- The answer of an unrevoked acceptance is what the question, if it is live, points to. -/
theorem AcceptanceHistory.pointer (h : AcceptanceHistory s) {r : AnswerAcceptance} {q : Discussion} {a : Answer}
    (hr : r ∈ (s.thread i).active) (ha : s.answer? r.answerId = some a) (hq : s.post? a.discussionId = some q) :
    q.id = r.discussionId ∧ q.acceptedAnswerId = some a.id := by
  obtain ⟨-, hi, -⟩ := mem_thread_active.mp hr
  obtain ⟨hmem, hid, -⟩ := Content.answer?_eq_some.mp ha
  -- the answer is of the thread
  obtain ⟨b, hb⟩ := Option.isSome_iff_exists.mp (h.ofAnswers i r (Table.mem_select.mp hr).1)
  obtain ⟨hb, hof⟩ := Option.filter_eq_some_iff.mp ((Table.get?_restrict _ _ _).symm.trans hb)
  obtain rfl : a = b := Option.some.inj ((Table.get?_eq_some.mpr ⟨hmem, hid⟩).symm.trans hb)
  have hof : a.discussionId = i := of_decide_eq_true hof
  subst hof
  refine ⟨(Content.post?_id hq).trans hi.symm, ?_⟩
  have hbacks := (h.ledger a.discussionId).2 q (post?_iff_live.mp hq)
  cases hpointer : q.acceptedAnswerId with
  | none =>
    rw [hbacks.none hpointer] at hr
    cases hr
  | some k =>
    obtain ⟨r₀, -, hactive, hk, -⟩ := hbacks.some k hpointer
    rw [hactive] at hr
    obtain rfl := List.mem_singleton.mp hr
    rw [hid, hk]

/-- An acceptance that was named, and is not revoked, is named. -/
theorem AcceptanceNamed.keep (hhistory : AcceptanceHistory s) {r : AnswerAcceptance} (h : AcceptanceNamed s r)
    (hr : r ∈ (s.thread i).active) (hr' : r ∈ ((s.step c).thread i).active)
    (hstill : (s.thread i).SaysStill ((s.step c).thread i)) : AcceptanceNamed (s.step c) r := by
  obtain ⟨-, rfl, -⟩ := mem_thread_active.mp hr
  refine ⟨?_, answerRevision_step h.answer, fun u hu hanswer hlater => ?_⟩
  · obtain ⟨p, v, hp, hv, htitle, hcontent⟩ := h.question
    obtain ⟨p', hp', htitle', hcontent'⟩ := hstill p hp
    obtain ⟨v', hv', hsame⟩ := revision_step (c := c) hv
    exact ⟨p', v', hp', hv', by rw [hsame.1, htitle, htitle'], by rw [hsame.2, hcontent, hcontent']⟩
  · rcases answerRevision_origin hu with hold | hnew | ⟨a, q, type, ha, hq, htype, hrevoked⟩
    · exact h.later u hold hanswer hlater
    · -- the answer of the row is not a new one
      have hthere := hhistory.ofAnswers r.discussionId r (Table.mem_select.mp hr).1
      rw [← hanswer, hnew, answers_get?_next] at hthere
      cases hthere
    · obtain ⟨hqr, hpointer⟩ := hhistory.pointer hr (hanswer ▸ ha) hq
      rw [htype]
      cases type with
      | editorial => rfl
      | semantic =>
        obtain ⟨hmem, -, hactive⟩ := mem_thread_active.mp hr'
        exact absurd hactive (hrevoked rfl hpointer r hmem hqr.symm)

/-- An acceptance is named exactly when the question publishes the latest text of it. -/
theorem acceptanceNamed_accepted (hhistory : AcceptanceHistory s) {r : AnswerAcceptance}
    (h : AcceptedAs s c i (s.thread i) ((s.step c).thread i) r) {p : Discussion} (hp : (s.thread i).Live p) :
    AcceptanceNamed (s.step c) r ↔ p.latest = (p.title, p.content) := by
  obtain ⟨d, dto, p', a, actor, hop, rfl, hp', ha, -, rfl, hpost⟩ := h
  obtain rfl := hp.unique hp'
  have hid : p.id = d.id := Content.post?_id (post?_iff_live.mpr hp)
  obtain ⟨v, hv, htitle, hcontent⟩ := hhistory.posts.latest (post?_iff_live.mpr hp)
  obtain ⟨v', hv', htitle', hcontent'⟩ := revision_step (c := c) hv
  rw [← hid] at hv' hpost
  have hpost : (s.step c).discussions.get? p.id = some (AnswersService.solvedBy p a) := hpost
  constructor
  -- the version of the post is recorded with the latest text, the draft if there is one
  · intro hnamed
    obtain ⟨p', u, hp', hu, htitle₁, hcontent₁⟩ := hnamed.question
    obtain rfl := Option.some.inj (hpost.symm.trans hp')
    obtain rfl := Option.some.inj (hv'.symm.trans hu)
    refine Prod.ext ?_ ?_
    · rw [← htitle, ← htitle', htitle₁]
      rfl
    · rw [← hcontent, ← hcontent', hcontent₁]
      rfl
  · intro hlatest
    have hanswer : s.answers.get? a.id = some a := by
      obtain ⟨hmem, -⟩ := Content.answer?_eq_some.mp (thread_answer?_eq_some.mp ha).1
      exact Table.get?_eq_some.mpr ⟨hmem, rfl⟩
    have hlog := hhistory.answers a.id
    rw [hanswer] at hlog
    have hlogged : Logged (s.answerRevisionsOf a.id) a.contentVersion a.content := hlog
    refine ⟨⟨AnswersService.solvedBy p a, v', hpost, hv', ?_, ?_⟩, ?_, fun u hu hof hlater => ?_⟩
    · rw [htitle', htitle, hlatest]
      rfl
    · rw [hcontent', hcontent, hlatest]
      rfl
    · obtain ⟨u, hu, -⟩ := mem_answerRevisionsOf.mp hlogged.last
      exact answerRevision_step (Option.isSome_of_eq_some hu)
    · -- no version of the answer is later than the one that is accepted
      have hsame : (s.step c).answerRevisions = s.answerRevisions := answerRevisions_step (by rw [hop]; rfl)
      rw [hsame] at hu
      have hof : u.answerId = a.id := hof
      have hmem : (u.contentVersion, u.content) ∈ s.answerRevisionsOf a.id :=
        mem_answerRevisionsOf.mpr ⟨u, Table.get?_eq_some.mpr ⟨hu, by rw [hof]⟩, rfl⟩
      have hle := (hlogged.mem_iff.mp ⟨u.content, hmem⟩).2
      have hlater : a.contentVersion < u.contentVersion := hlater
      omega

/-- An acceptance that passes its checks adds a row. -/
theorem accepted_of_acceptable (hhistory : AcceptanceHistory s) {d : UuidText} {dto : AcceptAnswerDto}
    {p : Discussion} {a : Answer} (hop : c.operation = .answers (.accept d dto)) (hp : s.post? d.id = some p)
    (h : Acceptable s c dto p a) : ∃ r ∈ ((s.step c).thread d.id).active, r ∉ (s.thread d.id).active := by
  obtain ⟨w, user, o⟩ := c
  obtain rfl : o = _ := hop
  obtain ⟨actor, huser, hauthor⟩ := h.author
  have huser : user.id = some actor := huser
  have hid := Content.post?_id hp
  -- after the revocation nothing is accepted, so the index is not violated
  have hindex : (revokeAcceptance w s p actor "replaced").1.activeAcceptances
      (revokeAcceptance w s p actor "replaced").2.id = [] := by
    have hrevoked : (revokeAcceptance w s p actor "replaced").2.id = d.id := by
      rw [revokeAcceptance_snd, ← hid]
      split <;> rfl
    rw [hrevoked, activeAcceptances_eq, revokeAcceptance_thread hp]
    split
    · exact active_revoke _ _ _
    · next hnone =>
      refine ((hhistory.ledger d.id).2 p (post?_iff_live.mp hp)).none ?_
      simpa using hnone
  obtain ⟨s', htx⟩ : ∃ s', acceptTx w s d dto user = .ok (s', ()) := by
    simp only [acceptTx, bind_eq_ok, authenticated_eq_ok, lockPost_eq_ok, requireOpen_eq_ok, requireApproved_eq_ok,
      require_eq_ok, orThrow_eq_ok, AnswersService.insertAcceptance, pure_eq_ok, Prod.mk.injEq]
    exact ⟨_, actor, huser, p, hp, (), h.isOpen, (), h.question, (), h.can, (), h.approved, a, h.answer.1, (),
      h.answer.2, (), hauthor, (), h.versions, _, ⟨(), hindex, rfl⟩, rfl, trivial⟩
  have hstate : Db.step s ⟨w, user, .answers (.accept d dto)⟩ = s' := by
    show (accept w s d dto user).state = s'
    exact commit_state_of_ok htx
  rw [hstate]
  simp only [acceptTx, bind_eq_ok, authenticated_eq_ok, lockPost_eq_ok, orThrow_eq_ok,
    AnswersService.insertAcceptance, pure_eq_ok, Prod.mk.injEq, huser, hp, h.answer.1, Option.some.injEq,
    exists_eq_left'] at htx
  obtain ⟨-, -, -, -, -, -, -, -, -, -, -, -, -, -, _, ⟨-, -, rfl⟩, rfl, -⟩ := htx
  have hnext : (revokeAcceptance w s p actor "replaced").1.acceptances.next = s.acceptances.next := by
    unfold revokeAcceptance
    split <;> rfl
  have hpid : (revokeAcceptance w s p actor "replaced").2.id = d.id := by
    rw [revokeAcceptance_snd, ← hid]
    split <;> rfl
  refine ⟨newAcceptance w (revokeAcceptance w s p actor "replaced").2 a actor
    (revokeAcceptance w s p actor "replaced").1.acceptances.next, mem_thread_active.mpr ⟨?_, hpid, rfl⟩, fun hold => ?_⟩
  · apply Serial.mem_insert.mpr
    · exact .inr rfl
    · exact newAcceptance_id w _ a actor
  · have hnone := Table.get?_key (mem_thread_acceptances.mp (Table.mem_select.mp hold).1).1
    rw [newAcceptance_id, hnext, s.acceptances.get?_next] at hnone
    cases hnone

/-- **One call.** The acceptances stay named exactly when it is no stale one. -/
theorem acceptancesNamed_step (hhistory : AcceptanceHistory s) (hinv : AcceptancesNamed s) :
    AcceptancesNamed (s.step c) ↔ ¬ AcceptsStale s c := by
  constructor
  -- a stale acceptance is one that its version does not name
  · intro hnamed hstale
    unfold AcceptsStale at hstale
    split at hstale
    · next d dto hop =>
      obtain ⟨p, a, draft, hp, hacceptable, hdraft, hdiffers⟩ := hstale
      obtain ⟨r, hr, hnew⟩ := accepted_of_acceptable hhistory hop hp hacceptable
      rcases active_origin (thread_step s c d.id) (hhistory.ledger d.id) hr with ⟨hold, -⟩ | haccepted
      · exact hnew hold
      · obtain ⟨hmem, -, hactive⟩ := mem_thread_active.mp hr
        have hlatest := (acceptanceNamed_accepted hhistory haccepted (post?_iff_live.mp hp)).mp (hnamed r hmem hactive)
        rw [Discussion.latest, hdraft] at hlatest
        exact hdiffers (Prod.mk.inj hlatest)
    · exact hstale
  · intro hfresh r hr hactive
    -- an acceptance was there before the call, or the call has made it
    have hr' : r ∈ ((s.step c).thread r.discussionId).active := mem_thread_active.mpr ⟨hr, rfl, hactive⟩
    rcases active_origin (thread_step s c r.discussionId) (hhistory.ledger _) hr' with ⟨hold, hstill⟩ | haccepted
    · obtain ⟨hmem, -, -⟩ := mem_thread_active.mp hold
      exact (hinv r hmem hactive).keep hhistory hold hr' hstill
    · have hcopy := haccepted
      obtain ⟨d, dto, p, a, actor, hop, hd, hp, ha, ⟨hcan, hopen, hquestion, happroved, huser, hauthor, hversions⟩,
        -, -⟩ := hcopy
      refine (acceptanceNamed_accepted hhistory haccepted hp).mpr ?_
      have hpost : s.post? d.id = some p := post?_iff_live.mpr (hd ▸ hp)
      obtain ⟨ha, hof⟩ := thread_answer?_eq_some.mp ha
      unfold Discussion.latest
      cases hdraft : p.pendingRevision with
      | none => rfl
      -- a draft is the latest text, and it would have to differ
      | some draft =>
        by_contra hdiffers
        apply hfresh
        rw [AcceptsStale, hop]
        refine ⟨p, a, draft, hpost, ⟨hopen, hquestion, hcan, happroved, ⟨ha, ?_⟩, ⟨actor, huser, hauthor⟩, hversions⟩,
          hdraft, fun hsame => hdiffers (Prod.ext hsame.1 hsame.2)⟩
        rw [hof, ← hd, Content.post?_id hpost]

/-- The unrevoked acceptances name, in every state of a run, the versions that they accepted, exactly when no call of
the run accepts an answer to a question on which a draft with another title or content waits. -/
theorem acceptances_named (calls : List Call) :
    Always Db.step AcceptancesNamed Db.empty calls ↔ Meets Db.step (fun s c => ¬ AcceptsStale s c) Db.empty calls :=
  always_iff_meets_of_invariant (Q := AcceptanceHistory) (d := fun _ _ => True) (fun c _ h _ => h.step c)
    (fun _ _ hhistory _ hinv => acceptancesNamed_step hhistory hinv) .empty (fun _ hr => (by cases hr))
    (.of_forall (fun _ _ => trivial) _ _)

namespace Sample

/-- A question is allowed, its draft of another text is rejected, and then an answer to it is accepted. -/
def acceptedBesideDraft : List Call :=
  [moderatedForum, ask, allow 1 "I do not see a drawing without a crossing.", answer, rewrite 1 "Buy my graphs.",
    call 4 administrator (.review (Id.text 0)
      { decision := .hold, expectedVersion := 2, expectedContent := "Buy my graphs.", note := some "Off topic." }),
    call 5 (student 1) (.answers (.accept (Id.text 0) ⟨Id.text 0, 2, 1⟩))]

end Sample

/-- The acceptance names the draft that was rejected. -/
theorem not_acceptances_named : ¬ ∀ calls : List Call, AcceptancesNamed (Db.after calls) := by
  intro h
  have hrow : ∃ r ∈ (Db.after Sample.acceptedBesideDraft).acceptances, r.revokedAt = none ∧ r.discussionId = 0
      ∧ r.questionVersion = 2 := by decide
  obtain ⟨r, hr, hactive, hquestion, hversion⟩ := hrow
  obtain ⟨p, v, hp, hv, -, hcontent⟩ := (h Sample.acceptedBesideDraft r hr hactive).question
  rw [hquestion, hversion] at hv
  rw [hquestion] at hp
  have hdraft : ((Db.after Sample.acceptedBesideDraft).revisions.get? (0, 2)).map (·.content)
      = some "Buy my graphs." := by decide
  have hsame : ((Db.after Sample.acceptedBesideDraft).discussions.get? 0).map (·.content)
      = some "I do not see a drawing without a crossing." := by decide
  rw [hv, Option.map_some, hcontent] at hdraft
  rw [hp, Option.map_some, hdraft] at hsame
  exact absurd hsame (by decide)

end AcaSocial
