import AcaSocial.Discussion.AlikeSteps

/-!
# Answers, comments and votes on stores that look alike

* `update` and `accept` of answers respond with the row itself, so the same only if they do not
  name a masked author.
* `update` of a comment may take the anonymity from it.

The checks that such a call has to pass are `unmasksAnswer`, `unmasksAccepted` and
`unmasksComment`.
-/

namespace AcaSocial

variable {masks : Bool} {user : GatewayUser} {since : Id} {s s' : Db} {w : World}

/-- The edit responds with a masked answer: all its checks pass. -/
def unmasksAnswer (s : Db) (id : UuidText) (user : GatewayUser) (dto : UpdateAnswerDto) :
    Option Answer :=
  match AnswersService.lockAnswerAndQuestion s id.id with
  | .ok (a, q) =>
    if a.isAnonymous = true ∧ canManage a.authorId user ∧ q.status ≠ .closed
        ∧ a.contentVersion = dto.expectedVersion
        ∧ (a.content = dto.content
          ∨ s.answerRevisions.get? (a.id, a.contentVersion + 1) = none) then some a
    else none
  | .error _ => none

/-- The acceptance responds with a masked answer: all its checks pass. -/
def unmasksAccepted (s : Db) (d : UuidText) (user : GatewayUser) (dto : AcceptAnswerDto) :
    Option Answer :=
  match s.post? d.id, s.answer? dto.answerId.id with
  | some q, some a =>
    if a.isAnonymous = true ∧ q.status ≠ .closed ∧ q.postType = .question
        ∧ AnswersService.canAccept q user ∧ approved q ∧ a.discussionId = q.id
        ∧ user.id ≠ some a.authorId
        ∧ (q.contentVersion = dto.expectedQuestionVersion
          ∧ a.contentVersion = dto.expectedAnswerVersion)
        ∧ (q.acceptedAnswerId.isSome ∨ s.activeAcceptances q.id = []) then some a
    else none
  | _, _ => none

/-- The edit takes the anonymity from a comment: all its checks pass. -/
def unmasksComment (s : Db) (id : UuidText) (user : GatewayUser) (dto : UpdateCommentDto) :
    Option Comment :=
  match lockCommentPost s id.id with
  | .ok (p, c) =>
    if c.isAnonymous = true ∧ dto.isAnonymous = some false ∧ p.status ≠ .closed
        ∧ canManage c.authorId user then some c
    else none
  | .error _ => none

namespace Db.Alike

/-- A post is open in both stores or in none. -/
theorem requireOpen {p p' : Discussion} (hp : p.Alike masks user p') :
    AcaSocial.requireOpen p' = AcaSocial.requireOpen p := by
  unfold AcaSocial.requireOpen
  rw [hp.status]

/-- A post is approved in both stores or in none. -/
theorem requireApproved {p p' : Discussion} (hp : p.Alike masks user p') :
    AcaSocial.requireApproved p' = AcaSocial.requireApproved p := by
  unfold AcaSocial.requireApproved
  rw [hp.approved]

/-- The titles of approved posts are the same. -/
theorem title {p p' : Discussion} (hp : p.Alike masks user p') (happroved : approved p) :
    p'.title = p.title := (hp.text (.inl (of_decide_eq_true happroved).2)).1

/-- The viewer manages both rows or neither. -/
theorem requireManager_congr {ρ : Type} [Authored ρ] {r r' : ρ}
    (hr : Authored.Alike masks user r r') :
    requireManager (Authored.authorId r') user = requireManager (Authored.authorId r) user := by
  unfold requireManager
  rw [hr.canManage]

/-! ## Answers

The methods on answers in two stores that differ in authors that the viewer does not see. Where the author of an
answer is compared with the viewer, the comparison has the same result in both. -/

/-- The row itself is the same where the author is. -/
theorem rawAnswer (h : s.Alike masks user since s') (i : Id)
    (hauthor : ∀ a a', s.answer? i = some a → s'.answer? i = some a' → a.Alike masks user a' →
      a'.authorId = a.authorId) :
    AnswersService.findOne s' i = AnswersService.findOne s i := by
  have hfound := h.answer? i
  unfold AnswersService.findOne
  cases ha : s.answer? i <;> cases ha' : s'.answer? i <;> rw [ha, ha'] at hfound
  · cases hfound
  · cases hfound
  · cases hfound with
    | some haa' =>
      rw [Answer.Alike.labels haa', hauthor _ _ ha ha' haa']

/-- Both find the answer and its question, or neither does. -/
theorem lockedAnswer (h : s.Alike masks user since s') (i : Id) :
    Related (fun x y => x.1.Alike masks user y.1 ∧ x.2.Alike masks user y.2)
      (AnswersService.lockAnswerAndQuestion s i) (AnswersService.lockAnswerAndQuestion s' i) := by
  refine .orThrow_bind (h.answer? i) fun a a' _ _ ha => ?_
  have hd : a'.discussionId = a.discussionId := by rw [Answer.Alike.labels ha]
  rw [hd]
  refine .orThrow_bind (h.post? a.discussionId) fun q q' _ _ hq => ?_
  exact .orThrow_bind (h.answer? i) fun b b' _ _ hb => .ok ⟨hb, hq⟩

/-- An answer is found alive with its question in both stores or in none. -/
theorem lockAnswerAndQuestion {β : Type} {Q : β → β → Prop} (h : s.Alike masks user since s')
    (i : Id) {k k' : Answer × Discussion → Except HttpError β}
    (hk : ∀ a q a' q', AnswersService.lockAnswerAndQuestion s i = .ok (a, q) →
      a.Alike masks user a' → q.Alike masks user q' → Related Q (k (a, q)) (k' (a', q'))) :
    Related Q (AnswersService.lockAnswerAndQuestion s i >>= k)
      (AnswersService.lockAnswerAndQuestion s' i >>= k') := by
  refine .bind ((h.lockedAnswer i).imp_ok fun x y hx _ hxy => And.intro hx hxy) ?_
  rintro ⟨a, q⟩ ⟨a', q'⟩ ⟨hx, ha, hq⟩
  exact hk a q a' q' hx ha hq

/-- A revocation leaves stores and questions alike. -/
theorem revokeAcceptance (h : s.Alike masks user since s') {q q' : Discussion}
    (hq : q.Alike masks user q') (actor : Id) (reason : String) :
    (AnswersService.revokeAcceptance w s q actor reason).1.Alike masks user since
        (AnswersService.revokeAcceptance w s' q' actor reason).1
      ∧ (AnswersService.revokeAcceptance w s q actor reason).2.Alike masks user
        (AnswersService.revokeAcceptance w s' q' actor reason).2 := by
  unfold AnswersService.revokeAcceptance
  rw [hq.acceptedAnswerId, hq.id]
  split
  · exact ⟨h, hq⟩
  · have hwithdrawn := hq.frame (f := AnswersService.withdrawn) (fun _ _ _ _ _ => rfl) rfl rfl
    exact ⟨(h.revokeAcceptances _ _ _ _).savePost hwithdrawn, hwithdrawn⟩

theorem insertAnswerRevision_answers {t : Db} {r : AnswerRevision}
    (h : s.insertAnswerRevision r = .ok t) : t.answers = s.answers := by
  simp only [Db.insertAnswerRevision, bind_eq_ok, require_eq_ok, pure_eq_ok] at h
  obtain ⟨-, -, rfl⟩ := h
  rfl

/-- The row that a creation responds with. -/
theorem answer_of_createTx {t : Db} {i author : Id} {d : UuidText} {dto : CreateAnswerDto}
    {q : Discussion} (h : AnswersService.createTx w s d dto author q = .ok (t, i)) :
    t.answer? i = some (AnswersService.newAnswer w d.id dto author i) := by
  simp only [AnswersService.createTx, bind_eq_ok, pure_eq_ok, Prod.mk.injEq] at h
  obtain ⟨s₁, hrevision, rfl, rfl⟩ := h
  have hanswers : s₁.answers = s.answers.insert (AnswersService.newAnswer w d.id dto author)
      (AnswersService.newAnswer_id w d.id dto author) := insertAnswerRevision_answers hrevision
  rw [emit_toContent]
  have hfound : s₁.answer? s.answers.next
      = some (AnswersService.newAnswer w d.id dto author s.answers.next) := by
    rw [Content.answer?, hanswers, Serial.get?_insert, if_pos rfl]
    rfl
  split
  · exact hfound
  · exact hfound

/-- A new answer of the viewer is the same row in both stores. -/
theorem createAnswerTx (h : s.Alike masks user since s') (d : UuidText) (dto : CreateAnswerDto)
    {author : Id} (huser : user.id = some author) {q q' : Discussion} (hq : q.Alike masks user q')
    (happroved : approved q) :
    Related (fun a b => a.1.Alike masks user since b.1 ∧ a.2 = b.2)
      (AnswersService.createTx w s d dto author q)
      (AnswersService.createTx w s' d dto author q') := by
  have hinserted := h.insertAnswer (AnswersService.newAnswer w d.id dto author)
    (AnswersService.newAnswer_id w d.id dto author)
  have hnext : s'.answers.next = s.answers.next := h.answers.next.symm
  have htitle : q'.title = q.title := title hq happroved
  unfold AnswersService.createTx
  dsimp only
  rw [hnext]
  refine .bind (hinserted.insertAnswerRevision _) fun t t' ht => .ok ⟨?_, rfl⟩
  have hcounted := ht.savePost (hq.frame (f := fun q => { q with answerCount := q.answerCount + 1 })
    (fun _ _ _ _ _ => rfl) rfl rfl)
  refine Db.Alike.emit ?_ w _ _ fun _ => by rw [htitle]
  have hother : q'.authorId ≠ author ↔ q.authorId ≠ author :=
    not_congr (hq.authorId_eq_iff huser)
  by_cases hne : q.authorId ≠ author
  · rw [if_pos hne, if_pos (hother.mpr hne)]
    refine hcounted.event _ fun hmasks => ?_
    rw [hq.author (.inl hmasks), htitle]
  · rw [if_neg hne, if_neg (mt hother.mp hne)]
    exact hcounted

/-- The new row is the viewer's own. -/
theorem createAnswer (h : s.Alike masks user since s') (d : UuidText) (dto : CreateAnswerDto) :
    (AnswersService.create w s d dto user).Alike (Db.Alike masks user since)
      (AnswersService.create w s' d dto user) := by
  have hprelude : Related (fun a b => a.1 = b.1 ∧ user.id = some a.1 ∧ approved a.2
        ∧ a.2.Alike masks user b.2)
      (AnswersService.createPrelude s d user) (AnswersService.createPrelude s' d user) := by
    -- none of the checks reads a text or an author that is hidden
    refine .bind_same rfl fun author hauthor => ?_
    rw [authenticated_eq_ok] at hauthor
    refine .orThrow_bind (h.post? d.id) fun q q' _ _ hq => ?_
    refine .bind_same (requireOpen hq) fun _ _ => ?_
    refine .bind_same (requireApproved hq) fun _ happroved => ?_
    rw [requireApproved_eq_ok] at happroved
    refine .require_bind (by rw [hq.postType]) fun _ => .ok ⟨rfl, hauthor, happroved, hq⟩
  refine attempt_alike h hprelude ?_
  rintro ⟨author, q⟩ ⟨author', q'⟩ ⟨heq, huser, happroved, hq⟩
  obtain rfl : author = author' := heq
  have hq : q.Alike masks user q' := hq
  have hroom := hq.roomId
  have hjoined := h.autoJoinTo q.roomId author
  dsimp only
  rw [hroom]
  refine commit_alike hjoined ?_
  refine .bind_same (hjoined.assertCanPostTo w _) fun _ _ => ?_
  -- the response reads the new row, which the viewer has written
  refine (hjoined.createAnswerTx d dto huser hq happroved).imp_ok fun a b ha _ hab => ⟨hab.1, ?_⟩
  rw [← hab.2]
  refine (hab.1.rawAnswer a.2 fun r r' hr _ hrr' => ?_).symm
  obtain rfl := Option.some.inj (hr.symm.trans (answer_of_createTx ha))
  rw [hrr'.own (.inl huser)]

/-- An edit that went through has passed the checks of `unmasksAnswer`, and responds with a row of
the same author. -/
theorem checks_of_updateAnswerTx {id : UuidText} {dto : UpdateAnswerDto} {t : Db} {u : Unit}
    (h : AnswersService.updateTx w s id dto user = .ok (t, u)) :
    ∃ a r, s.answer? id.id = some a ∧ t.answer? id.id = some r ∧ r.authorId = a.authorId
      ∧ r.isAnonymous = a.isAnonymous
      ∧ (a.isAnonymous = true → unmasksAnswer s id user dto = some a) := by
  simp only [AnswersService.updateTx, bind_eq_ok, requireManager_eq_ok, requireOpen_eq_ok,
    require_eq_ok] at h
  obtain ⟨actor, -, ⟨a, q⟩, hlock, -, hmanage, -, hopen, -, hversion, h⟩ := h
  have hfound := AnswersService.lockAnswerAndQuestion_eq_ok.mp hlock
  have hunmask : (a.content = dto.content
      ∨ s.answerRevisions.get? (a.id, a.contentVersion + 1) = none) → a.isAnonymous = true →
      unmasksAnswer s id user dto = some a := by
    intro hwritten hanonymous
    simp only [unmasksAnswer, hlock]
    exact if_pos ⟨hanonymous, hmanage, hopen, hversion, hwritten⟩
  split at h
  -- an update to the same text writes nothing
  · next hsame =>
    simp only [pure_eq_ok, Prod.mk.injEq] at h
    obtain ⟨rfl, -⟩ := h
    exact ⟨a, a, hfound.1, hfound.1, rfl, rfl, hunmask (.inl hsame)⟩
  · simp only [bind_eq_ok] at h
    obtain ⟨t₁, hrevision, h⟩ := h
    have hfree : s.answerRevisions.get? (a.id, a.contentVersion + 1) = none := by
      simp only [Db.insertAnswerRevision, bind_eq_ok, require_eq_ok] at hrevision
      exact hrevision.choose_spec.1
    have hrow : t₁.answer? id.id = some (AnswersService.revised a dto.content) := by
      have ha := Content.answer?_eq_some.mp hfound.1
      have hget : s.answers.get? (AnswersService.revised a dto.content).id = some a :=
        Table.get?_eq_some.mpr ⟨ha.1, rfl⟩
      have hid : id.id = (AnswersService.revised a dto.content).id := ha.2.1.symm
      have hanswers : t₁.answers = s.answers.save (AnswersService.revised a dto.content) :=
        insertAnswerRevision_answers hrevision
      rw [Content.answer?, hanswers, hid, Serial.save_toTable, Table.get?_save_self hget]
      simp [Option.filter, AnswersService.revised, ha.2.2]
    -- a revoked acceptance leaves the answer
    have hkept : t.answer? id.id = t₁.answer? id.id := by
      split at h
      · simp only [pure_eq_ok, Prod.mk.injEq] at h
        obtain ⟨rfl, -⟩ := h
        unfold AnswersService.revokeAcceptance
        split <;> rfl
      · simp only [pure_eq_ok, Prod.mk.injEq] at h
        rw [h.1]
    exact ⟨a, _, hfound.1, hkept.trans hrow, rfl, rfl, hunmask (.inr hfree)⟩

/-- An edit leaves stores alike. It responds the same unless it names a masked author. -/
theorem updateAnswer (h : s.Alike masks user since s') (id : UuidText) (dto : UpdateAnswerDto)
    (hunmask : masks = true → ∀ a a', s.answer? id.id = some a → s'.answer? id.id = some a' →
      unmasksAnswer s id user dto = some a → a'.authorId = a.authorId) :
    (AnswersService.update w s id dto user).Alike (Db.Alike masks user since)
      (AnswersService.update w s' id dto user) := by
  refine commit_alike h ?_
  have hbody : Related (fun a b => a.1.Alike masks user since b.1)
      (AnswersService.updateTx w s id dto user) (AnswersService.updateTx w s' id dto user) := by
    refine .bind_same rfl fun actor _ => ?_
    refine h.lockAnswerAndQuestion id.id fun a q a' q' _ ha hq => ?_
    have hlabels : a'.content = a.content ∧ a'.contentVersion = a.contentVersion ∧ a'.id = a.id := by
      rw [Answer.Alike.labels ha]
      exact ⟨rfl, rfl, rfl⟩
    -- the checks pass in both stores or in neither
    refine .bind_same (requireManager_congr ha) fun _ _ => ?_
    refine .bind_same (requireOpen hq) fun _ _ => ?_
    refine .require_bind (by rw [hlabels.2.1]) fun _ => ?_
    refine .ite (by rw [hlabels.1]) (fun _ => .ok h) fun _ => ?_
    have hrevised : (AnswersService.revised a dto.content).Alike masks user
        (AnswersService.revised a' dto.content) :=
      Authored.Alike.frame (f := fun a => AnswersService.revised a dto.content) ha
        (fun _ _ => rfl) rfl
    have hsaved := h.saveAnswer hrevised
    have hrow : (⟨(AnswersService.revised a' dto.content).id,
        (AnswersService.revised a' dto.content).contentVersion,
        (AnswersService.revised a' dto.content).content, dto.revisionType, actor⟩ : AnswerRevision)
        = ⟨(AnswersService.revised a dto.content).id,
          (AnswersService.revised a dto.content).contentVersion,
          (AnswersService.revised a dto.content).content, dto.revisionType, actor⟩ := by
      simp only [AnswersService.revised, hlabels]
    dsimp only
    rw [hrow]
    refine .bind (hsaved.insertAnswerRevision _) fun t t' ht => ?_
    refine .ite ?_ (fun _ => .ok (ht.revokeAcceptance hq actor _).1) fun _ => .ok ht
    rw [hq.acceptedAnswerId]
    show _ ∧ _ = some a'.id ↔ _ ∧ _ = some a.id
    rw [hlabels.2.2]
  refine hbody.imp_ok fun x y hx hy hxy =>
    ⟨hxy, (hxy.rawAnswer id.id fun r r' hr hr' hrr' => ?_).symm⟩
  -- the response names the author unless it masks them
  cases hmasks : masks with
  | false => exact hrr'.author (.inl hmasks)
  | true =>
    cases hanonymous : r.isAnonymous with
    | false => exact hrr'.author (.inr hanonymous)
    | true =>
      obtain ⟨a, _, ha, hr₀, hauthor, hflag, hchecks⟩ := checks_of_updateAnswerTx hx
      obtain rfl := Option.some.inj (hr.symm.trans hr₀)
      obtain ⟨a', _, ha', hr₀', hauthor', -, -⟩ := checks_of_updateAnswerTx hy
      obtain rfl := Option.some.inj (hr'.symm.trans hr₀')
      rw [hauthor, hauthor']
      exact hunmask hmasks a a' ha ha' (hchecks (hflag.symm.trans hanonymous))

/-- To remove an answer has the same result in both stores. -/
theorem removeAnswer (h : s.Alike masks user since s') (id : UuidText) :
    (AnswersService.remove w s id user).Alike (Db.Alike masks user since)
      (AnswersService.remove w s' id user) := by
  refine commit_alike h ?_
  refine .bind_same rfl fun actor _ => ?_
  refine h.lockAnswerAndQuestion id.id fun a q a' q' _ ha hq => ?_
  refine .bind_same (requireManager_congr ha) fun _ _ => ?_
  refine .bind_same (requireOpen hq) fun _ _ => ?_
  have hid : a'.id = a.id := by rw [Answer.Alike.labels ha]
  -- the stores and the questions after the acceptance is revoked, if it has to be
  have hrevoked : ∀ t t' : Db × Discussion,
      t = (if q.acceptedAnswerId = some a.id then
        AnswersService.revokeAcceptance w s q actor "answer_deleted" else (s, q)) →
      t' = (if q'.acceptedAnswerId = some a'.id then
        AnswersService.revokeAcceptance w s' q' actor "answer_deleted" else (s', q')) →
      t.1.Alike masks user since t'.1 ∧ t.2.Alike masks user t'.2 := by
    rintro t t' rfl rfl
    rw [hq.acceptedAnswerId, hid]
    split
    · exact h.revokeAcceptance hq actor _
    · exact ⟨h, hq⟩
  have hboth := hrevoked _ _ rfl rfl
  dsimp only
  refine .ok ⟨?_, rfl⟩
  have hdeleted : ({ a with deletedAt := some w.now } : Answer).Alike masks user
      { a' with deletedAt := some w.now } :=
    Authored.Alike.frame (f := fun a : Answer => { a with deletedAt := some w.now }) ha
      (fun _ _ => rfl) rfl
  refine Db.Alike.event ?_ _ fun _ => by rw [hboth.2.id]
  exact (hboth.1.saveAnswer hdeleted).savePost (hboth.2.frame
    (f := fun q => { q with answerCount := max 0 (q.answerCount - 1) }) (fun _ _ _ _ _ => rfl)
    rfl rfl)

/-- An acceptance that went through has passed the checks of `unmasksAccepted`, and responds with
the row that was there. -/
theorem checks_of_acceptTx {d : UuidText} {dto : AcceptAnswerDto} {t : Db} {u : Unit}
    (h : AnswersService.acceptTx w s d dto user = .ok (t, u)) :
    ∃ a, s.answer? dto.answerId.id = some a ∧ t.answer? dto.answerId.id = some a
      ∧ (a.isAnonymous = true → unmasksAccepted s d user dto = some a) := by
  simp only [AnswersService.acceptTx, bind_eq_ok, authenticated_eq_ok, lockPost_eq_ok,
    requireOpen_eq_ok, require_eq_ok, requireApproved_eq_ok, orThrow_eq_ok, pure_eq_ok,
    Prod.mk.injEq] at h
  obtain ⟨actor, hactor, q, hq, -, hopen, -, htype, -, hcan, -, happroved, a, ha, -, hd, -, hauthor,
    -, hversions, t₁, hinsert, rfl, -⟩ := h
  simp only [AnswersService.insertAcceptance, bind_eq_ok, require_eq_ok, pure_eq_ok] at hinsert
  obtain ⟨-, hnone, rfl⟩ := hinsert
  refine ⟨a, ha, ?_, fun hanonymous => ?_⟩
  · unfold AnswersService.revokeAcceptance
    split <;> exact ha
  · have hslot : q.acceptedAnswerId.isSome ∨ s.activeAcceptances q.id = [] := by
      cases haccepted : q.acceptedAnswerId with
      | some i => exact .inl rfl
      | none =>
        refine .inr ?_
        unfold AnswersService.revokeAcceptance at hnone
        rw [haccepted] at hnone
        exact hnone
    have hother : user.id ≠ some a.authorId := by
      rw [hactor]
      exact fun he => hauthor (Option.some.inj he).symm
    simp only [unmasksAccepted, hq, ha]
    exact if_pos ⟨hanonymous, hopen, htype, hcan, happroved, hd, hother, hversions, hslot⟩

/-- An acceptance leaves stores alike. It responds the same unless it names a masked author. -/
theorem accept (h : s.Alike masks user since s') (d : UuidText) (dto : AcceptAnswerDto)
    (hunmask : masks = true → ∀ a a', s.answer? dto.answerId.id = some a →
      s'.answer? dto.answerId.id = some a' → unmasksAccepted s d user dto = some a →
      a'.authorId = a.authorId) :
    (AnswersService.accept w s d dto user).Alike (Db.Alike masks user since)
      (AnswersService.accept w s' d dto user) := by
  refine commit_alike h ?_
  have hbody : Related (fun a b => a.1.Alike masks user since b.1)
      (AnswersService.acceptTx w s d dto user) (AnswersService.acceptTx w s' d dto user) := by
    refine .bind_same rfl fun actor hactor => ?_
    rw [authenticated_eq_ok] at hactor
    refine .orThrow_bind (h.post? d.id) fun q q' _ _ hq => ?_
    refine .bind_same (requireOpen hq) fun _ _ => ?_
    refine .require_bind (by rw [hq.postType]) fun _ => ?_
    refine .require_bind (by rw [canAccept hq]) fun _ => ?_
    refine .bind_same (requireApproved hq) fun _ happroved => ?_
    rw [requireApproved_eq_ok] at happroved
    refine .orThrow_bind (h.answer? dto.answerId.id) fun a a' _ _ ha => ?_
    have hlabels : a'.id = a.id ∧ a'.discussionId = a.discussionId
        ∧ a'.contentVersion = a.contentVersion := by
      rw [Answer.Alike.labels ha]
      exact ⟨rfl, rfl, rfl⟩
    refine .require_bind (by rw [hlabels.2.1, hq.id]) fun _ => ?_
    refine .require_bind (not_congr (Authored.Alike.authorId_eq_iff ha hactor)) fun _ => ?_
    refine .require_bind (by rw [hq.contentVersion, hlabels.2.2]) fun _ => ?_
    -- all checks have passed in both stores
    have hrevoked := h.revokeAcceptance (w := w) hq actor "replaced"
    have htitle : (AnswersService.revokeAcceptance w s' q' actor "replaced").2.title
        = (AnswersService.revokeAcceptance w s q actor "replaced").2.title := by
      refine title hrevoked.2 ?_
      unfold AnswersService.revokeAcceptance
      split <;> exact happroved
    generalize AnswersService.revokeAcceptance w s q actor "replaced" = r,
      AnswersService.revokeAcceptance w s' q' actor "replaced" = r' at hrevoked htitle ⊢
    obtain ⟨t, q₁⟩ := r
    obtain ⟨t', q₁'⟩ := r'
    obtain ⟨ht, hq₁⟩ := hrevoked
    have hq₁ : q₁.Alike masks user q₁' := hq₁
    have ht : t.Alike masks user since t' := ht
    have hinsert : Related (Db.Alike masks user since) (AnswersService.insertAcceptance w t q₁ a actor)
        (AnswersService.insertAcceptance w t' q₁' a' actor) := by
      have hrow : AnswersService.newAcceptance w q₁' a' actor
          = AnswersService.newAcceptance w q₁ a actor := by
        unfold AnswersService.newAcceptance
        rw [hq₁.id, hq₁.contentVersion, hlabels.1, hlabels.2.2]
      refine .require_bind ?_ fun _ => .ok (ht.insertAcceptance hrow)
      unfold Db.activeAcceptances
      rw [ht.acceptances, hq₁.id]
    refine .bind hinsert fun t₁ t₁' ht₁ => .ok ?_
    have hsolved : (AnswersService.solvedBy q₁ a).Alike masks user
        (AnswersService.solvedBy q₁' a') := by
      have hsame : AnswersService.solvedBy q₁' a' = AnswersService.solvedBy q₁' a := by
        unfold AnswersService.solvedBy
        rw [hlabels.1]
      rw [hsame]
      exact hq₁.frame (f := fun q => AnswersService.solvedBy q a) (fun _ _ _ _ _ => rfl) rfl rfl
    refine (ht₁.savePost hsolved).event _ fun hmasks => ?_
    have hauthor : a'.authorId = a.authorId := ha.author (.inl hmasks)
    rw [hq₁.id, hlabels.1, hlabels.2.2, hauthor]
    exact congrArg _ (by rw [htitle])
  refine hbody.imp_ok fun x y hx hy hxy =>
    ⟨hxy, (hxy.rawAnswer dto.answerId.id fun r r' hr hr' hrr' => ?_).symm⟩
  cases hmasks : masks with
  | false => exact hrr'.author (.inl hmasks)
  | true =>
    cases hanonymous : r.isAnonymous with
    | false => exact hrr'.author (.inr hanonymous)
    | true =>
      obtain ⟨a, ha, hr₀, hchecks⟩ := checks_of_acceptTx hx
      obtain rfl := Option.some.inj (hr.symm.trans hr₀)
      obtain ⟨a', ha', hr₀', -⟩ := checks_of_acceptTx hy
      obtain rfl := Option.some.inj (hr'.symm.trans hr₀')
      exact hunmask hmasks r r' ha ha' (hchecks hanonymous)

/-- To end an acceptance has the same result in both stores. -/
theorem removeAcceptance (h : s.Alike masks user since s') (d : UuidText) :
    (AnswersService.removeAcceptance w s d user).Alike (Db.Alike masks user since)
      (AnswersService.removeAcceptance w s' d user) := by
  refine commit_alike h ?_
  refine .bind_same rfl fun actor _ => ?_
  refine .orThrow_bind (h.post? d.id) fun q q' _ _ hq => ?_
  refine .require_bind (by rw [canAccept hq]) fun _ => ?_
  exact .ok ⟨(h.revokeAcceptance hq actor _).1, rfl⟩

/-! ## Comments

The same of comments, whose parents are found alike. -/

/-- Both find the comment and its post, or neither does. -/
theorem lockedComment (h : s.Alike masks user since s') (i : Id) :
    Related (fun x y => s'.comment? i = some y.2 ∧ x.1.Alike masks user y.1
        ∧ x.2.Alike masks user y.2)
      (AcaSocial.lockCommentPost s i) (AcaSocial.lockCommentPost s' i) := by
  refine .orThrow_bind (h.comment? i) fun c c' _ _ hc => ?_
  have hd : c'.discussionId = c.discussionId := by rw [Comment.Alike.labels hc]
  rw [hd]
  refine .orThrow_bind (h.post? c.discussionId) fun p p' _ _ hp => ?_
  exact .orThrow_bind (h.comment? i) fun b b' _ hb' hb => .ok ⟨hb', hp, hb⟩

/-- A comment is found alive with its post in both stores or in none. -/
theorem lockCommentPost {β : Type} {Q : β → β → Prop} (h : s.Alike masks user since s') (i : Id)
    {k k' : Discussion × Comment → Except HttpError β}
    (hk : ∀ p c p' c', AcaSocial.lockCommentPost s i = .ok (p, c) → s'.comment? i = some c' →
      p.Alike masks user p' → c.Alike masks user c' → Related Q (k (p, c)) (k' (p', c'))) :
    Related Q (AcaSocial.lockCommentPost s i >>= k) (AcaSocial.lockCommentPost s' i >>= k') := by
  refine .bind ((h.lockedComment i).imp_ok fun x y hx _ hxy => And.intro hx hxy) ?_
  rintro ⟨p, c⟩ ⟨p', c'⟩ ⟨hx, hc', hp, hc⟩
  exact hk p c p' c' hx hc' hp hc

/-- The parent of a new comment is found alike. -/
theorem parentOf (h : s.Alike masks user since s') (d : UuidText) (dto : CreateCommentDto) :
    Related (Option.Rel (Comment.Alike masks user)) (CommentsService.parentOf s d dto)
      (CommentsService.parentOf s' d dto) := by
  unfold CommentsService.parentOf
  cases dto.parentCommentId with
  | none => exact .ok .none
  | some q =>
    refine .orThrow_bind (h.comment? q.id) fun c c' _ _ hc => ?_
    have hd : c'.discussionId = c.discussionId := by rw [Comment.Alike.labels hc]
    exact .require_bind (by rw [hd]) fun _ => .ok (.some hc)

/-- Both notify someone, or both notify nobody. -/
theorem notify (h : s.Alike masks user since s') (d : UuidText) {p p' : Discussion}
    (htitle : p'.title = p.title) {recipient recipient' : Id} {c : Comment}
    (hsame : recipient' = c.authorId ↔ recipient = c.authorId)
    (hrecipient : masks = false → recipient' = recipient) :
    Related (Db.Alike masks user since) (CommentsService.notify s d p recipient c)
      (CommentsService.notify s' d p' recipient' c) := by
  refine .ite hsame (fun _ => .ok h) fun _ => ?_
  refine .bind_same rfl fun preview _ => .ok (h.event _ fun hmasks => ?_)
  rw [hrecipient hmasks, htitle]

/-- A new comment of the viewer is the same row in both stores. -/
theorem createCommentTx (h : s.Alike masks user since s') (d : UuidText) (dto : CreateCommentDto)
    {author : Id} (huser : user.id = some author) {p p' : Discussion} (hp : p.Alike masks user p')
    (happroved : approved p) :
    Related (fun a b => a.1.Alike masks user since b.1 ∧ a.2 = b.2)
      (CommentsService.createTx w s d dto author p)
      (CommentsService.createTx w s' d dto author p') := by
  refine .bind (h.parentOf d dto) fun parent parent' hparent => ?_
  -- of the parent, only the id goes into the row
  have hrow : CommentsService.newComment w d.id dto author parent'
      = CommentsService.newComment w d.id dto author parent := by
    have hid : parent'.map (·.id) = parent.map (·.id) :=
      map_congr hparent fun c c' hc => by rw [Comment.Alike.labels hc]
    unfold CommentsService.newComment
    rw [hid]
  have hnext : s'.comments.next = s.comments.next := h.comments.next.symm
  have htitle : p'.title = p.title := title hp happroved
  have hinserted := h.insertComment (CommentsService.newComment w d.id dto author parent)
    (CommentsService.newComment_id w d.id dto author parent)
  have hcounted := hinserted.savePost (hp.frame
    (f := fun p => { p with commentCount := p.commentCount + 1 }) (fun _ _ _ _ _ => rfl) rfl rfl)
  -- whether the user is notified of their own comment
  have hrecipient : ((parent'.map (·.authorId)).getD p'.authorId = author
        ↔ (parent.map (·.authorId)).getD p.authorId = author)
      ∧ (masks = false → (parent'.map (·.authorId)).getD p'.authorId
        = (parent.map (·.authorId)).getD p.authorId) := by
    cases hparent with
    | none => exact ⟨hp.authorId_eq_iff huser, fun hmasks => hp.author (.inl hmasks)⟩
    | some hc =>
      exact ⟨Authored.Alike.authorId_eq_iff hc huser, fun hmasks => hc.author (.inl hmasks)⟩
  dsimp only
  simp only [hnext, hrow]
  refine .bind (hcounted.notify d htitle hrecipient.1 hrecipient.2) fun t t' ht => .ok ⟨?_, rfl⟩
  exact ht.emit w _ _ fun _ => by rw [htitle]

/-- To comment has the same result in both stores. -/
theorem createComment (h : s.Alike masks user since s') (d : UuidText) (dto : CreateCommentDto) :
    (CommentsService.create w s d user dto).Alike (Db.Alike masks user since)
      (CommentsService.create w s' d user dto) := by
  have hprelude : Related (fun a b => a.1 = b.1 ∧ user.id = some a.1 ∧ approved a.2
        ∧ a.2.Alike masks user b.2)
      (CommentsService.createPrelude s d user) (CommentsService.createPrelude s' d user) := by
    refine .bind_same rfl fun author hauthor => ?_
    rw [authenticated_eq_ok] at hauthor
    refine .orThrow_bind (h.post? d.id) fun p p' _ _ hp => ?_
    refine .bind_same (requireOpen hp) fun _ _ => ?_
    refine .bind_same (requireApproved hp) fun _ happroved => ?_
    rw [requireApproved_eq_ok] at happroved
    exact .ok ⟨rfl, hauthor, happroved, hp⟩
  refine attempt_alike h hprelude ?_
  rintro ⟨author, p⟩ ⟨author', p'⟩ ⟨heq, huser, happroved, hp⟩
  obtain rfl : author = author' := heq
  have hp : p.Alike masks user p' := hp
  have hroom := hp.roomId
  have hjoined := h.autoJoinTo p.roomId author
  dsimp only
  rw [hroom]
  refine commit_alike hjoined ?_
  refine .bind_same (hjoined.assertCanPostTo w _) fun _ _ => ?_
  refine (hjoined.createCommentTx d dto huser hp happroved).imp fun a b hab => ⟨hab.1, ?_⟩
  rw [← hab.2, ContentPresenter.comment_congr hab.1 (.refl a.2)]

/-- An edit leaves stores alike, and responds the same, unless it takes the anonymity from a comment
whose author differs. -/
theorem updateComment (h : s.Alike masks user since s') (id : UuidText) (dto : UpdateCommentDto)
    (hunmask : masks = true → ∀ c c', s.comment? id.id = some c → s'.comment? id.id = some c' →
      unmasksComment s id user dto = some c → c'.authorId = c.authorId) :
    (CommentsService.update w s id user dto).Alike (Db.Alike masks user since)
      (CommentsService.update w s' id user dto) := by
  refine commit_alike h ?_
  refine .bind_same rfl fun _ _ => ?_
  refine h.lockCommentPost id.id fun p c p' c' hlock hc' hp hc => ?_
  refine .bind_same (requireOpen hp) fun _ hopen => ?_
  refine .bind_same (requireManager_congr hc) fun _ hmanage => ?_
  rw [requireOpen_eq_ok] at hopen
  have hmanage : canManage c.authorId user := requireManager_eq_ok.mp hmanage
  have hchanged : CommentsService.contentChanged c' dto = CommentsService.contentChanged c dto := by
    unfold CommentsService.contentChanged
    rw [Comment.Alike.labels hc]
  have hedited : (CommentsService.edited c dto).Alike masks user
      (CommentsService.edited c' dto) := by
    refine Authored.Alike.frame_keep (f := fun c => CommentsService.edited c dto) hc
      (fun c a => ?_) fun hmasks hanonymous hshown => ?_
    · have hsigned : CommentsService.contentChanged (Authored.signed c a) dto
          = CommentsService.contentChanged c dto := rfl
      unfold CommentsService.edited
      rw [hsigned]
      split <;> rfl
    -- the edit shows the author only if it takes the anonymity away
    · have hflag : (CommentsService.edited c dto).isAnonymous
          = dto.isAnonymous.getD c.isAnonymous := by
        unfold CommentsService.edited
        split <;> rfl
      have hclears : dto.isAnonymous = some false := by
        have hshown : dto.isAnonymous.getD c.isAnonymous = false := hflag.symm.trans hshown
        have hanonymous : c.isAnonymous = true := hanonymous
        cases hdto : dto.isAnonymous with
        | none =>
          rw [hdto, Option.getD_none, hanonymous] at hshown
          cases hshown
        | some b =>
          rw [hdto, Option.getD_some] at hshown
          rw [hshown]
      refine hunmask hmasks c c' (lockCommentPost_eq_ok.mp hlock).1 hc' ?_
      simp only [unmasksComment, hlock]
      exact if_pos ⟨hanonymous, hclears, hopen, hmanage⟩
  -- a changed text is accepted no longer
  have hsaved : (if CommentsService.contentChanged c dto
        ∧ p.acceptedCommentId.map Id.text = some id then
        s.savePost (CommentsService.unsolved p) else s).Alike masks user since
      (if CommentsService.contentChanged c' dto ∧ p'.acceptedCommentId.map Id.text = some id then
        s'.savePost (CommentsService.unsolved p') else s') := by
    rw [hchanged, hp.acceptedCommentId]
    split
    · exact h.savePost (hp.frame (f := CommentsService.unsolved) (fun _ _ _ _ _ => rfl) rfl rfl)
    · exact h
  have hd : (CommentsService.edited c' dto).discussionId = (CommentsService.edited c dto).discussionId := by
    rw [CommentsService.edited_discussionId, CommentsService.edited_discussionId,
      Comment.Alike.labels hc]
  refine .ok ⟨hsaved.saveComment hedited, ?_⟩
  dsimp only
  rw [hd, ContentPresenter.comment_congr (hsaved.saveComment hedited) hedited]

/-- To remove a comment has the same result in both stores. -/
theorem removeComment (h : s.Alike masks user since s') (id : UuidText) :
    (CommentsService.remove w s id user).Alike (Db.Alike masks user since)
      (CommentsService.remove w s' id user) := by
  refine commit_alike h ?_
  refine .bind_same rfl fun _ _ => ?_
  refine h.lockCommentPost id.id fun p c p' c' _ _ hp hc => ?_
  refine .bind_same (requireOpen hp) fun _ _ => ?_
  refine .bind_same (requireManager_congr hc) fun _ _ => ?_
  have hdeleted : ({ c with deletedAt := some w.now } : Comment).Alike masks user
      { c' with deletedAt := some w.now } :=
    Authored.Alike.frame (f := fun c : Comment => { c with deletedAt := some w.now }) hc
      (fun _ _ => rfl) rfl
  have hcounted : (CommentsService.uncommented p id).Alike masks user
      (CommentsService.uncommented p' id) := by
    unfold CommentsService.uncommented
    rw [hp.acceptedCommentId]
    split
    · exact hp.frame (f := fun p => CommentsService.unsolved (CommentsService.fewerComments p))
        (fun _ _ _ _ _ => rfl) rfl rfl
    · exact hp.frame (f := CommentsService.fewerComments) (fun _ _ _ _ _ => rfl) rfl rfl
  exact .ok ⟨(h.saveComment hdeleted).savePost hcounted, rfl⟩

/-! ## Votes

A vote is for a post, an answer or a comment. Its author may be hidden, but is nobody's who votes here. -/

/-- The same target, but for its text and its author. -/
inductive TargetAlike (masks : Bool) (user : GatewayUser) :
    VotesService.Target → VotesService.Target → Prop where
  | discussion {p p' : Discussion} (hp : p.Alike masks user p') :
    TargetAlike masks user (.discussion p) (.discussion p')
  | comment {p p' : Discussion} {c c' : Comment} (hp : p.Alike masks user p')
    (hc : c.Alike masks user c') : TargetAlike masks user (.comment p c) (.comment p' c')
  | answer {p p' : Discussion} {a a' : Answer} (hp : p.Alike masks user p')
    (ha : a.Alike masks user a') : TargetAlike masks user (.answer p a) (.answer p' a')

theorem TargetAlike.post {t t' : VotesService.Target} (h : TargetAlike masks user t t') :
    t.post.Alike masks user t'.post := by
  cases h with
  | discussion hp | comment hp | answer hp => exact hp

theorem TargetAlike.authorId {t t' : VotesService.Target} (h : TargetAlike masks user t t')
    {u : Id} (hu : user.id = some u) : t'.authorId = u ↔ t.authorId = u := by
  cases h with
  | discussion hp => exact hp.authorId_eq_iff hu
  | comment _ hc => exact Authored.Alike.authorId_eq_iff hc hu
  | answer _ ha => exact Authored.Alike.authorId_eq_iff ha hu

/-- What is voted on is found alike. -/
theorem lockTarget (h : s.Alike masks user since s') (type : TargetType) (i : Id) :
    Related (TargetAlike masks user) (VotesService.lockTarget s type i)
      (VotesService.lockTarget s' type i) := by
  cases type with
  | discussion => exact .orThrow_bind (h.post? i) fun p p' _ _ hp => .ok (.discussion hp)
  | comment => exact h.lockCommentPost i fun p c p' c' _ _ hp hc => .ok (.comment hp hc)
  | answer =>
    refine .orThrow_bind (h.answer? i) fun a a' _ _ ha => ?_
    have hd : a'.discussionId = a.discussionId := by rw [Answer.Alike.labels ha]
    rw [hd]
    refine .orThrow_bind (h.post? a.discussionId) fun p p' _ _ hp => ?_
    exact .orThrow_bind (h.answer? i) fun b b' _ _ hb => .ok (.answer hp hb)

/-- The rows of votes are the viewer's. -/
theorem writeVote (h : s.Alike masks user since s') (u : Id) (type : TargetType) (i : Id)
    (v : Option VoteType) :
    (VotesService.writeVote s u type i v).Alike masks user since
      (VotesService.writeVote s' u type i v) := by
  cases v with
  | none =>
    refine { h with votes := ?_ }
    show s'.votes.erase _ = s.votes.erase _
    rw [h.votes]
  | some v =>
    refine { h with votes := ?_ }
    show s'.votes.upsert _ = s.votes.upsert _
    rw [h.votes]

/-- The counters of alike targets are written alike. -/
theorem saveCounts (h : s.Alike masks user since s') {t t' : VotesService.Target}
    (ht : TargetAlike masks user t t') (up down : Nat) :
    (t.saveCounts s up down).Alike masks user since (t'.saveCounts s' up down) := by
  cases ht with
  | discussion hp =>
    exact h.savePost (hp.frame (f := fun p => { p with upvoteCount := up, downvoteCount := down })
      (fun _ _ _ _ _ => rfl) rfl rfl)
  | comment _ hc =>
    exact h.saveComment (Authored.Alike.frame
      (f := fun c : Comment => { c with upvoteCount := up, downvoteCount := down }) hc
      (fun _ _ => rfl) rfl)
  | answer _ ha =>
    exact h.saveAnswer (Authored.Alike.frame
      (f := fun a : Answer => { a with upvoteCount := up, downvoteCount := down }) ha
      (fun _ _ => rfl) rfl)

/-- To vote has the same result in both stores. -/
theorem setVote (h : s.Alike masks user since s') (type : TargetType) (id : UuidText)
    (v : Option VoteType) :
    (VotesService.setVote s type id user v).Alike (Db.Alike masks user since)
      (VotesService.setVote s' type id user v) := by
  refine commit_alike h ?_
  refine .bind_same rfl fun u hu => ?_
  rw [authenticated_eq_ok] at hu
  refine .bind (h.lockTarget type id.id) fun t t' ht => ?_
  refine .bind_same (requireOpen ht.post) fun _ _ => ?_
  refine .bind_same (requireApproved ht.post) fun _ _ => ?_
  refine .bind_same (by rw [ht.post.roomId, h.requireVisible]) fun _ _ => ?_
  refine .require_bind (not_congr (ht.authorId hu)) fun _ => ?_
  have hwritten := h.writeVote u type id.id v
  have hcount : ∀ k, VotesService.count (VotesService.writeVote s' u type id.id v) type id.id k
      = VotesService.count (VotesService.writeVote s u type id.id v) type id.id k := by
    intro k
    unfold VotesService.count
    rw [hwritten.votes]
  dsimp only
  rw [hcount, hcount]
  exact .ok ⟨hwritten.saveCounts ht _ _, rfl⟩

end Db.Alike

/-! ## Every operation

The calls on posts, answers, comments and votes, of which `Discussion.AlikeSteps` has the ones on posts. -/

/-- The author of an anonymous item that the response of a call names, given that its checks pass. -/
def unmasked (s : Db) (c : Call) : Option Id :=
  match c.operation with
  | .discussions (.update id dto) => (unmasksPost c.world s id c.user dto).map (·.authorId)
  | .answers (.update id dto) => (unmasksAnswer s id c.user dto).map (·.authorId)
  | .answers (.accept d dto) => (unmasksAccepted s d c.user dto).map (·.authorId)
  | .comments (.update id dto) => (unmasksComment s id c.user dto).map (·.authorId)
  | _ => none

/-- The operations on discussions, answers, comments and votes. -/
def Operation.isContent : Operation → Bool
  | .discussions _ | .answers _ | .comments _ | .setVote .. => true
  | _ => false

/-- An edit of a post comes to the same in both stores: it is refused alike, kept as a draft, or saved in the post. -/
def SameWay (s s' : Db) (c : Call) : Prop :=
  match c.operation with
  | .discussions (.update id dto) => editWay c.world s' id c.user dto = editWay c.world s id c.user dto
  | _ => True

/-- The call shows the same author of an anonymous item in both stores, if it shows one. -/
def SameUnmasked (s s' : Db) (c : Call) : Prop :=
  match c.operation with
  | .discussions (.update id dto) => ∀ p p', s.post? id.id = some p → s'.post? id.id = some p' →
      unmasksPost c.world s id c.user dto = some p → p'.authorId = p.authorId
  | .answers (.update id dto) => ∀ a a', s.answer? id.id = some a → s'.answer? id.id = some a' →
      unmasksAnswer s id c.user dto = some a → a'.authorId = a.authorId
  | .answers (.accept d dto) => ∀ a a', s.answer? dto.answerId.id = some a →
      s'.answer? dto.answerId.id = some a' → unmasksAccepted s d c.user dto = some a →
      a'.authorId = a.authorId
  | .comments (.update id dto) => ∀ m m', s.comment? id.id = some m → s'.comment? id.id = some m' →
      unmasksComment s id c.user dto = some m → m'.authorId = m.authorId
  | _ => True

/-- Every such operation leaves stores alike and responds the same, unless it names a masked
author. -/
theorem serve_alike {c : Call} (h : s.Alike masks c.user since s')
    (hcontent : c.operation.isContent = true) (hway : SameWay s s' c)
    (hunmasked : masks = true → SameUnmasked s s' c) :
    (serve s c).Alike (Db.Alike masks c.user since) (serve s' c) := by
  obtain ⟨w, user, o⟩ := c
  cases o with
  | discussions o =>
    cases o with
    | create dto => exact (h.create dto).map _
    | findAll filter =>
      exact ⟨h, congrArg (fun page => Except.ok (Response.discussions page)) (h.findAll filter).symm⟩
    | findOne id => exact (h.view id).map _
    | update id dto => exact (h.update id dto hway hunmasked).map _
    | remove id => exact (h.remove id).map _
    | acceptAnswer id m => exact (h.acceptAnswer id m).map _
    | removeAcceptedAnswer id => exact (h.removeAcceptedAnswer id).map _
    | setStatus id status => exact (h.setStatus id status).map _
  | answers o =>
    cases o with
    | create d dto => exact (h.createAnswer d dto).map _
    | list d => exact ⟨h, congrArg (Except.map Response.answers) (h.list d).symm⟩
    | update id dto => exact (h.updateAnswer id dto hunmasked).map _
    | remove id => exact (h.removeAnswer id).map _
    | accept d dto => exact (h.accept d dto hunmasked).map _
    | removeAcceptance d => exact (h.removeAcceptance d).map _
  | comments o =>
    cases o with
    | create d dto => exact (h.createComment d dto).map _
    | findAllByDiscussion d filter =>
      exact ⟨h, congrArg (Except.map Response.comments) (h.findAllByDiscussion d filter).symm⟩
    | update id dto => exact (h.updateComment id dto hunmasked).map _
    | remove id => exact (h.removeComment id).map _
  | setVote type id v => exact (h.setVote type id v).map _
  -- rooms, reviews and tags are not what a viewer posts or reads
  | rooms | review | tags => cases hcontent

end AcaSocial
