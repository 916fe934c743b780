import AcaSocial.Discussion.AnonymousResponses
import AcaSocial.Discussion.TagUsageRuns

/-!
# Registers

Two tables that only one kind of operation writes: `moderation_reviews`, which reviews add to, and
`room_academic_bindings`, which the creation of a room adds to.

* **`Db.registers`** — both tables.
* **`reviews_step`**, **`bindings_step`** — what the other operations leave alone.
-/

namespace AcaSocial

variable {w : World} {s s' t : Db} {user : GatewayUser} {c : Call} {i : Id}

def Db.registers (s : Db) := (s.reviews, s.bindings)

theorem autoJoinTo_registers (s : Db) (r : Option Id) (u : Id) :
    (RoomsService.autoJoinTo s r u).registers = s.registers := by
  cases r <;> rfl

@[simp] theorem event_registers (s : Db) (eventType : String) (data : EventData) :
    (s.event eventType data).registers = s.registers := rfl

theorem emit_registers (w : World) (s : Db) (content : String) (actorId : Id) (context : EventData) :
    (MentionService.emit w s content actorId context).registers = s.registers := by
  unfold MentionService.emit
  exact foldl_frame (fun _ _ => event_registers _ _ _) _ _

open CommentsService in
/-- To notify an author writes to the outbox alone. -/
theorem notify_registers {d : UuidText} {p : Discussion} {r : Id} {m : Comment}
    (h : notify s d p r m = .ok s') : s'.registers = s.registers := by
  unfold notify at h
  split at h
  · rw [Except.ok.inj h]
  · simp only [bind_eq_ok, pure_eq_ok] at h
    obtain ⟨_, -, rfl⟩ := h
    rfl

open DiscussionsService in
/-- The methods on posts leave the registers alone. -/
theorem registers_discussions (o : DiscussionsOperation) : (o.serve w s user).state.registers = s.registers := by
  cases o with
  | findAll filter => rfl
  | create dto =>
    refine attempt_frame (F := Db.registers) fun prelude _ => ?_
    obtain ⟨author, selected⟩ := prelude
    refine commit_frame (F := Db.registers) rfl fun s' a h => ?_
    simp only [createTx, bind_eq_ok, pure_eq_ok, Prod.mk.injEq] at h
    obtain ⟨room, -, -, -, tags, -, s₁, hrev, rfl, -⟩ := h
    rw [(insertRevision_eq hrev).2, tagCounts_eq]
    rfl
  | findOne id =>
    refine commit_frame (F := Db.registers) rfl fun s' a h => ?_
    simp only [bind_eq_ok, pure_eq_ok, Prod.mk.injEq] at h
    obtain ⟨-, -, -, -, rfl, -⟩ := h
    rfl
  | update id dto =>
    refine attempt_frame (F := Db.registers) fun prelude _ => ?_
    obtain ⟨editor, p⟩ := prelude
    have hs := autoJoinTo_registers s p.roomId p.authorId
    refine commit_frame (F := Db.registers) hs fun s' a h => ?_
    simp only [updateTx, bind_eq_ok] at h
    obtain ⟨policy, -, -, -, -, -, h⟩ := h
    -- a draft, or a saved edit
    split at h
    · simp only [saveDraft, bind_eq_ok, pure_eq_ok, Prod.mk.injEq] at h
      obtain ⟨-, -, s₁, hrev, rfl, -⟩ := h
      rw [(insertRevision_eq hrev).2]
      exact hs
    · simp only [saveEdit, bind_eq_ok, pure_eq_ok, Prod.mk.injEq] at h
      obtain ⟨s₁, htags, s₂, hrev, rfl, -⟩ := h
      calc (attachTo (s₂.savePost (editedPost dto policy p)) p.id dto.mediaIds).registers
          = s₂.registers := by cases dto.mediaIds <;> rfl
        _ = s₁.registers := by
          rw [recordVersion_eq hrev]
          rfl
        _ = (RoomsService.autoJoinTo s p.roomId p.authorId).registers := by
          rw [retagTo_eq htags]
          rfl
        _ = s.registers := hs
  | remove id =>
    refine commit_frame (F := Db.registers) rfl fun s' a h => ?_
    simp only [removeTx, bind_eq_ok, pure_eq_ok, Prod.mk.injEq] at h
    obtain ⟨-, -, p, -, -, -, rfl, -⟩ := h
    rw [tagCounts_eq]
    rfl
  | acceptAnswer id m =>
    refine commit_frame (F := Db.registers) rfl fun s' a h => ?_
    simp only [acceptAnswerTx, bind_eq_ok] at h
    obtain ⟨_, -, p, -, -, -, -, -, -, -, m, -, -, -, -, -, h⟩ := h
    split at h <;> simp only [pure_eq_ok, Prod.mk.injEq] at h <;> obtain ⟨rfl, -⟩ := h <;> rfl
  | removeAcceptedAnswer id =>
    refine commit_frame (F := Db.registers) rfl fun s' a h => ?_
    simp only [removeAcceptedAnswerTx, bind_eq_ok, pure_eq_ok, Prod.mk.injEq] at h
    obtain ⟨-, -, -, -, -, -, -, -, rfl, -⟩ := h
    rfl
  | setStatus id status =>
    refine commit_frame (F := Db.registers) rfl fun s' a h => ?_
    simp only [setStatusTx, bind_eq_ok, pure_eq_ok, Prod.mk.injEq] at h
    obtain ⟨-, -, -, -, -, -, -, -, rfl, -⟩ := h
    rfl

section Answers

open AnswersService

/-- To end an acceptance leaves the registers alone. -/
theorem revokeAcceptance_registers (q : Discussion) (actor : Id) (reason : String) :
    (revokeAcceptance w s q actor reason).1.registers = s.registers := by
  unfold revokeAcceptance
  split <;> rfl

/-- The methods on answers leave the registers alone. -/
theorem registers_answers (o : AnswersOperation) : (o.serve w s user).state.registers = s.registers := by
  cases o with
  | list d => rfl
  | create d dto =>
    refine attempt_frame (F := Db.registers) fun prelude _ => ?_
    obtain ⟨author, q⟩ := prelude
    have hs := autoJoinTo_registers s q.roomId author
    refine commit_frame (F := Db.registers) hs fun s' a h => ?_
    simp only [bind_eq_ok, createTx, pure_eq_ok, Prod.mk.injEq] at h
    obtain ⟨-, -, s₁, hrev, rfl, -⟩ := h
    have hs₁ : s₁.registers = s.registers := by
      rw [(insertAnswerRevision_eq hrev).2]
      exact hs
    rw [emit_registers, ← hs₁]
    split <;> rfl
  | update id dto =>
    refine commit_frame (F := Db.registers) rfl fun s' a h => ?_
    simp only [updateTx, bind_eq_ok] at h
    obtain ⟨actor, -, ⟨a, q⟩, -, -, -, -, -, -, -, h⟩ := h
    -- nothing to save, or a new version
    split at h
    · simp only [pure_eq_ok, Prod.mk.injEq] at h
      obtain ⟨rfl, -⟩ := h
      rfl
    · simp only [bind_eq_ok] at h
      obtain ⟨s₁, hrev, h⟩ := h
      have hs₁ : s₁.registers = s.registers := by
        rw [(insertAnswerRevision_eq hrev).2]
        rfl
      split at h <;> simp only [pure_eq_ok, Prod.mk.injEq] at h <;> obtain ⟨rfl, -⟩ := h
      · exact (revokeAcceptance_registers q actor "answer_edited").trans hs₁
      · exact hs₁
  | remove id =>
    refine commit_frame (F := Db.registers) rfl fun s' a h => ?_
    simp only [removeTx, bind_eq_ok, pure_eq_ok, Prod.mk.injEq] at h
    obtain ⟨actor, -, ⟨a, q⟩, -, -, -, -, -, rfl, -⟩ := h
    split
    · exact revokeAcceptance_registers q actor "answer_deleted"
    · rfl
  | accept d dto =>
    refine commit_frame (F := Db.registers) rfl fun s' a h => ?_
    simp only [acceptTx, insertAcceptance, bind_eq_ok, pure_eq_ok, Prod.mk.injEq] at h
    obtain ⟨actor, -, q, -, -, -, -, -, -, -, -, -, a, -, -, -, -, -, -, -, -, ⟨-, -, rfl⟩, rfl, -⟩ := h
    exact revokeAcceptance_registers q actor "replaced"
  | removeAcceptance d =>
    refine commit_frame (F := Db.registers) rfl fun s' a h => ?_
    simp only [removeAcceptanceTx, bind_eq_ok, pure_eq_ok, Prod.mk.injEq] at h
    obtain ⟨actor, -, q, -, -, -, rfl, -⟩ := h
    exact revokeAcceptance_registers q actor "author_revoked"

end Answers

open CommentsService in
/-- The methods on comments leave the registers alone. -/
theorem registers_comments (o : CommentsOperation) : (o.serve w s user).state.registers = s.registers := by
  cases o with
  | findAllByDiscussion d filter => rfl
  | create d dto =>
    refine attempt_frame (F := Db.registers) fun prelude _ => ?_
    obtain ⟨author, p⟩ := prelude
    have hs := autoJoinTo_registers s p.roomId author
    refine commit_frame (F := Db.registers) hs fun s' a h => ?_
    simp only [bind_eq_ok, createTx, pure_eq_ok, Prod.mk.injEq] at h
    obtain ⟨-, -, parent, -, s₁, hnotify, rfl, -⟩ := h
    rw [emit_registers, notify_registers hnotify]
    exact hs
  | update id dto =>
    refine commit_frame (F := Db.registers) rfl fun s' a h => ?_
    simp only [updateTx, bind_eq_ok, pure_eq_ok, Prod.mk.injEq] at h
    obtain ⟨-, -, ⟨p, m⟩, -, -, -, -, -, rfl, -⟩ := h
    split <;> rfl
  | remove id =>
    refine commit_frame (F := Db.registers) rfl fun s' a h => ?_
    simp only [removeTx, bind_eq_ok, pure_eq_ok, Prod.mk.injEq] at h
    obtain ⟨-, -, ⟨p, m⟩, -, -, -, -, -, rfl, -⟩ := h
    rfl

/-- Votes leave the registers alone. -/
theorem registers_setVote (type : TargetType) (id : UuidText) (v : Option VoteType) :
    (VotesService.setVote s type id user v).state.registers = s.registers := by
  refine commit_frame (F := Db.registers) rfl fun s' r h => ?_
  simp only [VotesService.setVoteTx, bind_eq_ok, pure_eq_ok, Prod.mk.injEq] at h
  obtain ⟨u, -, target, -, -, -, -, -, -, -, -, -, rfl, -⟩ := h
  cases target <;> cases v <;> rfl

/-- The methods on tags leave the registers alone. -/
theorem registers_tags (o : TagsOperation) : (o.serve w s user).state.registers = s.registers := by
  cases o <;> refine commit_frame (F := Db.registers) rfl fun s' a h => ?_ <;>
    simp only [TagsService.mergeTx, bind_eq_ok, pure_eq_ok, Prod.mk.injEq] at h
  case create | update | remove =>
    obtain ⟨-, -, _, -, -, -, -, -, rfl, -⟩ := h
    rfl
  case setStatus =>
    obtain ⟨-, -, _, -, -, -, rfl, -⟩ := h
    rfl
  case merge =>
    obtain ⟨-, -, -, -, _, -, _, -, -, -, rfl, -⟩ := h
    rfl

/-- An operation that is neither one on rooms nor a review writes neither table. -/
theorem registers_step (hrooms : ∀ o, c.operation ≠ .rooms o) (hreview : ∀ id dto, c.operation ≠ .review id dto) :
    (s.step c).registers = s.registers := by
  obtain ⟨w, user, o⟩ := c
  cases o with
  | rooms o => exact absurd rfl (hrooms o)
  | discussions o => exact registers_discussions o
  | answers o => exact registers_answers o
  | comments o => exact registers_comments o
  | setVote type id v => exact registers_setVote type id v
  | review id dto => exact absurd rfl (hreview id dto)
  | tags o => exact registers_tags o

/-- Only a review records a review. -/
theorem reviews_step (h : ∀ id dto, c.operation ≠ .review id dto) : (s.step c).reviews = s.reviews := by
  by_cases hrooms : ∃ o, c.operation = .rooms o
  · obtain ⟨w, user, o⟩ := c
    obtain ⟨o, rfl⟩ := hrooms
    exact congrArg Content.reviews (rooms_toContent o)
  · exact congrArg Prod.fst (registers_step (fun o ho => hrooms ⟨o, ho⟩) h)

open ModerationService in
theorem publish_registers {p : Discussion} {decision : Decision} (h : publish w s p decision = .ok s') :
    s'.registers = s.registers := by
  unfold publish at h
  split at h
  · simp only [bind_eq_ok] at h
    obtain ⟨-, -, h⟩ := h
    split at h
    · next d _ =>
      simp only [applyDraft, bind_eq_ok, pure_eq_ok] at h
      obtain ⟨tags, -, rfl⟩ := h
      exact foldl_frame (F := Db.registers) (f := fun (s' : Db) (t : UuidText) => s'.bumpTag (delta s p.id d t) t.id)
        (fun _ _ => rfl) _ _
    · rw [← pure_eq_ok.mp h]
  · rw [← Except.ok.inj h]

/-- Only the operations on rooms write bindings. -/
theorem bindings_step (h : ∀ o, c.operation ≠ .rooms o) : (s.step c).bindings = s.bindings := by
  by_cases hreview : ∃ id dto, c.operation = .review id dto
  · obtain ⟨w, user, o⟩ := c
    obtain ⟨id, dto, rfl⟩ := hreview
    refine commit_frame (F := fun s : Db => s.bindings) rfl fun s' r h => ?_
    simp only [bind_eq_ok, ModerationService.reviewTx, pure_eq_ok, Prod.mk.injEq] at h
    obtain ⟨-, -, -, -, -, -, p, -, -, -, -, -, s₁, hpublish, rfl, -⟩ := h
    have hbindings : s₁.bindings = s.bindings := congrArg Prod.snd (publish_registers hpublish)
    rw [← hbindings]
    show (if ModerationService.revokes p dto.decision then _ else _ : Db).bindings = _
    split <;> rfl
  · exact congrArg Prod.snd (registers_step h fun id dto hop => hreview ⟨id, dto, hop⟩)

end AcaSocial
