import AcaSocial.Discussion.PostPermissions
import AcaSocial.Discussion.ThreadRefinement

/-!
# Silenced members

A membership that is banned, muted or blocked forbids to post. The three creations and the edit of a post ask
`assertCanPost`, the edits of answers and comments do not, and neither does the review of a waiting draft.

* **`Thread.texts`** — the texts of a thread: of its post, its comments and its answers.
* **`KeepsTexts`** — a step creates nothing in a room and changes no text there.
* **`Silences`** — the membership of a user that forbids to post.
* **`Rewrites`** — the calls of a silenced user that change a text all the same.

`silent_step_iff` is the step: a call of a silenced user keeps the texts of the room exactly when it does not
rewrite one. `silenced_members_silent` is the run.
-/

namespace AcaSocial

variable {w : World} {s s' : Db} {user : GatewayUser} {c : Call} {t : Thread} {p p' : Discussion} {u r i : Id}

/-! ## The texts of a thread

The titles, contents and drafts that stand in a thread. A write of something else leaves them alone. -/

/-- The title and the content of a post, and the contents of its comments and answers by id. -/
structure Texts where
  post : Option (String × String)
  comments : Id → Option String
  answers : Id → Option String

def Thread.texts (t : Thread) : Texts where
  post := t.post.map fun p => (p.title, p.content)
  comments := fun k => (t.comments.get? k).map (·.content)
  answers := fun k => (t.answers.get? k).map (·.content)

/-- The post of the thread stands in the room `r`. -/
def Thread.InRoom (t : Thread) (r : Id) : Prop := t.post.bind (·.roomId) = some r

/-- No post, comment or answer of the room is created, and no text there changes. -/
def KeepsTexts (r : Id) (s s' : Db) : Prop :=
  ∀ i, (s.thread i).InRoom r ∨ (s'.thread i).InRoom r → (s'.thread i).texts = (s.thread i).texts

/-- A thread is in the room of its post. -/
theorem Thread.Live.inRoom (hp : t.Live p) : t.InRoom r ↔ p.roomId = some r := by
  rw [Thread.InRoom, hp.1]
  rfl

/-- A post that keeps its texts leaves them. -/
theorem texts_savePost (hp : t.Live p) (htitle : p'.title = p.title) (hcontent : p'.content = p.content) :
    (t.savePost p').texts = t.texts := by
  simp only [Thread.texts, Thread.savePost, hp.1, Option.map_some, htitle, hcontent]

/-- A comment that keeps its text leaves it. -/
theorem texts_saveComment {k : Id} {m m' : Comment} (hm : t.comment? k = some m) (hid : m'.id = m.id)
    (hcontent : m'.content = m.content) : (t.saveComment m').texts = t.texts := by
  obtain ⟨hget, -⟩ := Option.filter_eq_some_iff.mp hm
  have hrow : t.comments.get? m'.id = some m := by
    rw [hid]
    exact Table.get?_key (Table.get?_eq_some.mp hget).1
  simp only [Thread.texts, Thread.saveComment]
  exact congrArg (Texts.mk _ · _) (funext fun k => Table.map_get?_save hrow hcontent k)

/-- An answer that keeps its text leaves it. -/
theorem texts_saveAnswer {k : Id} {a a' : Answer} (ha : t.answer? k = some a) (hid : a'.id = a.id)
    (hcontent : a'.content = a.content) : (t.saveAnswer a').texts = t.texts := by
  obtain ⟨hget, -⟩ := Option.filter_eq_some_iff.mp ha
  have hrow : t.answers.get? a'.id = some a := by
    rw [hid]
    exact Table.get?_key (Table.get?_eq_some.mp hget).1
  simp only [Thread.texts, Thread.saveAnswer]
  exact congrArg (Texts.mk _ _ ·) (funext fun k => Table.map_get?_save hrow hcontent k)

@[simp] theorem texts_setTags {ids : List Id} : (t.setTags ids).texts = t.texts := rfl

@[simp] theorem texts_setMedia {media : List DiscussionMedia} : (t.setMedia media).texts = t.texts := rfl

@[simp] theorem texts_revoke {now : Time} {actor : Id} {reason : String} :
    (t.revoke now actor reason).texts = t.texts := rfl

@[simp] theorem texts_insertAcceptance {e : AnswerAcceptance} : (t.insertAcceptance e).texts = t.texts := rfl

/-! ## Silenced users

A user is silenced in a room when the room refuses a post of the user. -/

/-- The membership of the user in the room is banned, muted or blocked. -/
def Silences (u r : Id) (s : Db) : Prop :=
  (s.membership? r u).any fun m =>
    decide (m.postPermission = .blocked ∨ m.status = .banned ∨ m.status = .muted)

instance : DecidablePred (Silences u r) := fun s =>
  inferInstanceAs (Decidable ((s.membership? r u).any (fun m =>
    decide (m.postPermission = .blocked ∨ m.status = .banned ∨ m.status = .muted)) = true))

/-- The automatic join leaves a membership alone. -/
theorem Silences.autoJoin (h : Silences u r s) {r' u' : Id} :
    (RoomsService.autoJoin s r' u').membership? r u = s.membership? r u := by
  obtain ⟨m, hm⟩ : ∃ m, s.membership? r u = some m := by
    cases hm : s.membership? r u with
    | none =>
      rw [Silences, hm] at h
      exact absurd h Bool.false_ne_true
    | some m => exact ⟨m, rfl⟩
  show Table.get? (RoomsService.autoJoined s r' u') (r, u) = _
  unfold RoomsService.autoJoined
  split
  · rw [Table.get?_insert]
    split
    · show some ((s.membership? r u).getD _) = _
      rw [hm]
      rfl
    · rfl
  · rfl

/-- **`assertCanPost` refuses a silenced user.** -/
theorem Silences.refused (h : Silences u r s) (huser : user.id = some u) (x : PostContext) :
    RoomsService.assertCanPost w (RoomsService.autoJoin s r u) r user ≠ .ok x := by
  intro hok
  simp only [RoomsService.assertCanPost, bind_eq_ok, authenticated_eq_ok, huser, Option.some.injEq,
    exists_eq_left', require_eq_ok, h.autoJoin] at hok
  obtain ⟨-, -, -, -, -, -, -, hopen, -⟩ := hok
  exact hopen h

/-- The room refuses a post of the silenced user. -/
theorem Silences.refusedTo (h : Silences u r s) (huser : user.id = some u) {roomId : Option Id}
    (hroom : roomId = some r) (x : Option PostContext) :
    RoomsService.assertCanPostTo w (RoomsService.autoJoinTo s roomId u) roomId user ≠ .ok x := by
  subst hroom
  intro hok
  simp only [RoomsService.assertCanPostTo, RoomsService.autoJoinTo] at hok
  cases hpost : RoomsService.assertCanPost w (RoomsService.autoJoin s r u) r user with
  | error e =>
    rw [hpost] at hok
    cases hok
  | ok x => exact h.refused huser x hpost

/-- The creation of a comment in the room leaves every thread alone. -/
theorem Silences.createComment (h : Silences u r s) (huser : c.user.id = some u) {d : UuidText}
    {dto : CreateCommentDto} (hop : c.operation = .comments (.create d dto)) (hp : s.post? d.id = some p)
    (hroom : p.roomId = some r) (i : Id) : (s.step c).thread i = s.thread i := by
  obtain ⟨w, user, o⟩ := c
  obtain rfl := hop
  show (CommentsService.create w s d user dto).state.thread i = s.thread i
  refine attempt_frame (F := fun s : Db => s.thread i) fun prelude hprelude => ?_
  obtain ⟨author, p'⟩ := prelude
  obtain ⟨hauthor, hp', -⟩ := createCommentPrelude_eq_ok hprelude
  obtain rfl := Option.some.inj (huser.symm.trans hauthor)
  obtain rfl := Option.some.inj (hp.symm.trans hp')
  refine commit_frame (F := fun s : Db => s.thread i) (by rw [autoJoinTo_toContent]) fun s' m hbody => ?_
  -- the check throws before anything is written
  obtain ⟨x, hx, -⟩ := bind_eq_ok.mp hbody
  exact absurd hx (h.refusedTo huser hroom x)

/-- The creation of an answer in the room leaves every thread alone. -/
theorem Silences.createAnswer (h : Silences u r s) (huser : c.user.id = some u) {d : UuidText}
    {dto : CreateAnswerDto} (hop : c.operation = .answers (.create d dto)) (hp : s.post? d.id = some p)
    (hroom : p.roomId = some r) (i : Id) : (s.step c).thread i = s.thread i := by
  obtain ⟨w, user, o⟩ := c
  obtain rfl := hop
  show (AnswersService.create w s d dto user).state.thread i = s.thread i
  refine attempt_frame (F := fun s : Db => s.thread i) fun prelude hprelude => ?_
  obtain ⟨author, p'⟩ := prelude
  obtain ⟨hauthor, hp', -⟩ := createAnswerPrelude_eq_ok hprelude
  obtain rfl := Option.some.inj (huser.symm.trans hauthor)
  obtain rfl := Option.some.inj (hp.symm.trans hp')
  refine commit_frame (F := fun s : Db => s.thread i) (by rw [autoJoinTo_toContent]) fun s' m hbody => ?_
  obtain ⟨x, hx, -⟩ := bind_eq_ok.mp hbody
  exact absurd hx (h.refusedTo huser hroom x)

/-! ## The calls that change a text

These are creations, edits and reviews. All but the edits of answers and comments ask the room. -/

/-- A call of the user `u` that changes a text in the room `r`: the edit of an own comment or answer, or, where
`u` manages the room, the publication of a draft. -/
inductive Rewrites (u r : Id) (s : Db) (w : World) : Operation → Prop where
  | comment {p : Discussion} {m : Comment} {id : UuidText} {dto : UpdateCommentDto}
      (hm : s.comment? id.id = some m) (hp : s.post? m.discussionId = some p) (hroom : p.roomId = some r)
      (hopen : p.status ≠ .closed) (hown : m.authorId = u) (hchanged : CommentsService.contentChanged m dto) :
      Rewrites u r s w (.comments (.update id dto))
  | answer {p : Discussion} {a : Answer} {id : UuidText} {dto : UpdateAnswerDto}
      (ha : s.answer? id.id = some a) (hp : s.post? a.discussionId = some p) (hroom : p.roomId = some r)
      (hopen : p.status ≠ .closed) (hown : a.authorId = u) (hversion : a.contentVersion = dto.expectedVersion)
      (hchanged : a.content ≠ dto.content)
      (hfree : s.answerRevisions.get? (a.id, a.contentVersion + 1) = none) :
      Rewrites u r s w (.answers (.update id dto))
  | draft {p : Discussion} {d : PendingRevision} {id : UuidText} {dto : ReviewContentDto}
      (hp : s.post? id.id = some p) (hroom : p.roomId = some r)
      (hmanages : (s.membership? r u).any (RoomsService.managesRoom w.now)) (hallow : dto.decision = .allow)
      (hdraft : ModerationService.draftOf p = some d) (hchanged : d.title ≠ p.title ∨ d.content ≠ p.content)
      (hstate : p.moderationStatus = dto.expectedModerationStatus.getD .pending
        ∧ p.contentVersion = dto.expectedVersion ∧ ModerationService.reviewedContent p = dto.expectedContent)
      (hpublish : ∃ s₁, ModerationService.publish w s p .allow = .ok s₁) :
      Rewrites u r s w (.review id dto)

theorem editedPost_roomId {dto : UpdateDiscussionDto} {policy : Option PostContext} :
    (DiscussionsService.editedPost dto policy p).roomId = p.roomId := by
  unfold DiscussionsService.editedPost
  split <;> rfl

/-- An edit of an answer that goes through has found its revision free, or nothing to do. -/
theorem updateAnswerTx_free {id : UuidText} {dto : UpdateAnswerDto} {x : Unit} {a : Answer}
    (ha : s.answer? id.id = some a) (hchanged : a.content ≠ dto.content)
    (h : AnswersService.updateTx w s id dto user = .ok (s', x)) :
    s.answerRevisions.get? (a.id, a.contentVersion + 1) = none := by
  simp only [AnswersService.updateTx, bind_eq_ok] at h
  obtain ⟨actor, -, ⟨a', q⟩, hlock, -, -, -, -, -, -, h⟩ := h
  obtain rfl := Option.some.inj (ha.symm.trans (AnswersService.lockAnswerAndQuestion_eq_ok.mp hlock).1)
  rw [if_neg hchanged] at h
  obtain ⟨s₁, hrevision, -⟩ := bind_eq_ok.mp h
  obtain ⟨_, hfree, -⟩ := bind_eq_ok.mp hrevision
  exact require_eq_ok.mp hfree

/-- The edit of an answer whose next revision is taken leaves every thread alone. -/
theorem updateAnswer_taken {id : UuidText} {dto : UpdateAnswerDto} {a : Answer}
    (hop : c.operation = .answers (.update id dto)) (ha : s.answer? id.id = some a)
    (hchanged : a.content ≠ dto.content)
    (htaken : s.answerRevisions.get? (a.id, a.contentVersion + 1) ≠ none) (i : Id) :
    (s.step c).thread i = s.thread i := by
  obtain ⟨w, user, o⟩ := c
  obtain rfl := hop
  refine commit_frame (F := fun s : Db => s.thread i) rfl fun s' x hbody => ?_
  exact absurd (updateAnswerTx_free ha hchanged hbody) htaken

/-! ## Reviews

A review publishes what an author has sent before. -/

/-- The rooms of a reviewer without a global role are those that it manages. -/
theorem mem_managedRoomIds {ids : List Id} (huser : user.id = some u)
    (h : RoomsService.managedRoomIds w s user = .ok ids) :
    r ∈ ids ↔ (s.membership? r u).any (RoomsService.managesRoom w.now) := by
  simp only [RoomsService.managedRoomIds, bind_eq_ok, authenticated_eq_ok, huser, Option.some.injEq,
    exists_eq_left', pure_eq_ok] at h
  subst h
  simp only [List.mem_map, Table.mem_select, Bool.and_eq_true, decide_eq_true_eq]
  constructor
  · rintro ⟨m, ⟨hm, rfl, hmanages⟩, rfl⟩
    have hget : s.membership? m.roomId m.userId = some m := Table.get?_key hm
    rw [hget]
    exact hmanages
  · intro hany
    obtain ⟨m, hget, hmanages⟩ := (Option.any_eq_true _ _).mp hany
    obtain ⟨hm, hkey⟩ := Table.get?_eq_some.mp hget
    obtain ⟨rfl, rfl⟩ := Prod.mk.inj hkey
    exact ⟨m, ⟨hm, rfl, hmanages⟩, rfl⟩

/-- A review leaves a post of the room alone, or the reviewer manages the room and the decision is published. -/
theorem review_cases {id : UuidText} (dto : ReviewContentDto) (huser : user.id = some u)
    (hmoderator : ¬ user.isModerator) (hp : s.post? id.id = some p) (hroom : p.roomId = some r) (i : Id) :
    (ModerationService.review w s id dto user).state.thread i = s.thread i
      ∨ ((s.membership? r u).any (RoomsService.managesRoom w.now)
        ∧ ∃ s₁, ModerationService.publish w s p dto.decision = .ok s₁) := by
  rcases commit_state s _ _ with he | ⟨s', status, hbody, -⟩
  · exact .inl (congrArg (fun s : Db => s.thread i) he)
  · right
    simp only [bind_eq_ok, authenticated_eq_ok, huser, Option.some.injEq, exists_eq_left',
      ModerationService.scope, hmoderator, Bool.false_eq_true, if_false, require_eq_ok, pure_eq_ok,
      ModerationService.reviewTx, lockPost_eq_ok, hp] at hbody
    obtain ⟨scope, ⟨ids, hids, -, -, rfl⟩, -, -, -, hscope, -, -, s₁, hpublish, -⟩ := hbody
    obtain ⟨r', hr', hmem⟩ := hscope ids rfl
    obtain rfl := Option.some.inj (hroom.symm.trans hr')
    exact ⟨(mem_managedRoomIds huser hids).mp hmem, s₁, hpublish⟩

/-- A review that allows a draft publishes its text. -/
theorem reviewedPost_published {dto : ReviewContentDto} {d : PendingRevision} (hallow : dto.decision = .allow)
    (hdraft : ModerationService.draftOf p = some d) :
    (ModerationService.reviewedPost p dto).title = d.title
      ∧ (ModerationService.reviewedPost p dto).content = d.content := by
  obtain ⟨-, -, htitle, hcontent⟩ := ModerationService.reviewedPost_allowed p dto hallow
  rw [htitle, hcontent, ModerationService.reviewedContent, hdraft]
  exact ⟨rfl, rfl⟩

section Calls

variable (huser : c.user.id = some u) (hmoderator : ¬ c.user.isModerator)
  (hc : ¬ Rewrites u r s c.world c.operation)

include huser hmoderator

/-- A user without a global role manages its own content only. -/
theorem own_of_canManage {a : Id} (hmanage : canManage a c.user) : a = u := by
  have hauthor := (canManage_iff.mp hmanage).2.resolve_right hmoderator
  exact (Option.some.inj (huser.symm.trans hauthor)).symm

include hc

/-- The edit of an answer of the room that is no rewrite leaves the thread alone. -/
theorem updateAnswer_kept {a : Answer} {id : UuidText} {dto : UpdateAnswerDto}
    (hop : c.operation = .answers (.update id dto)) (hp : (s.thread i).Live p) (hin : p.roomId = some r)
    (ha : (s.thread i).answer? id.id = some a) (hmanage : canManage a.authorId c.user) (hopen : p.status ≠ .closed)
    (hversion : a.contentVersion = dto.expectedVersion) (hchanged : a.content ≠ dto.content) :
    (s.step c).thread i = s.thread i := by
  obtain ⟨hrow, rfl⟩ := thread_answer?_eq_some.mp ha
  by_cases hfree : s.answerRevisions.get? (a.id, a.contentVersion + 1) = none
  · refine absurd ?_ hc
    rw [hop]
    exact .answer hrow (post?_iff_live.mpr hp) hin hopen (own_of_canManage huser hmoderator hmanage) hversion
      hchanged hfree
  · exact updateAnswer_taken hop hrow hchanged hfree _

/-- The edit of a comment of the room that is no rewrite leaves its content alone. -/
theorem updateComment_kept {m : Comment} {id : UuidText} {dto : UpdateCommentDto}
    (hop : c.operation = .comments (.update id dto)) (hp : (s.thread i).Live p) (hin : p.roomId = some r)
    (hm : (s.thread i).comment? id.id = some m) (hmanage : canManage m.authorId c.user)
    (hopen : p.status ≠ .closed) : ¬ CommentsService.contentChanged m dto := by
  intro hchanged
  obtain ⟨hrow, rfl⟩ := thread_comment?_eq_some.mp hm
  refine hc ?_
  rw [hop]
  exact .comment hrow (post?_iff_live.mpr hp) hin hopen (own_of_canManage huser hmoderator hmanage) hchanged

/-- A review of a post of the room that is no rewrite leaves the thread or the text alone. -/
theorem review_kept {id : UuidText} {dto : ReviewContentDto} (hop : c.operation = .review id dto ∧ id.id = i)
    (hp : (s.thread i).Live p) (hin : p.roomId = some r)
    (hstate : p.moderationStatus = dto.expectedModerationStatus.getD .pending
      ∧ p.contentVersion = dto.expectedVersion ∧ ModerationService.reviewedContent p = dto.expectedContent) :
    (s.step c).thread i = s.thread i
      ∨ ((ModerationService.reviewedPost p dto).title = p.title
        ∧ (ModerationService.reviewedPost p dto).content = p.content) := by
  obtain ⟨w, user, o⟩ := c
  obtain ⟨hop, rfl⟩ := hop
  obtain rfl := hop
  have hpost := post?_iff_live.mpr hp
  rcases review_cases (w := w) dto huser hmoderator hpost hin id.id with hsame | ⟨hmanages, s₁, hpublish⟩
  · exact .inl hsame
  · right
    by_cases hallow : dto.decision = .allow
    · cases hdraft : ModerationService.draftOf p with
      | none => exact ModerationService.reviewedPost_kept p dto fun _ => hdraft
      | some d =>
        rw [(reviewedPost_published hallow hdraft).1, (reviewedPost_published hallow hdraft).2]
        by_contra hchanged
        refine hc (.draft hpost hin hmanages hallow hdraft (not_and_or.mp hchanged) hstate ⟨s₁, ?_⟩)
        rw [← hallow]
        exact hpublish
    · exact ModerationService.reviewedPost_kept p dto fun h => absurd h hallow

/-- **A call of a silenced user that does not rewrite a text of the room keeps them all.** -/
theorem keepsTexts_of_not_rewrites (h : Silences u r s) : KeepsTexts r s (s.step c) := by
  intro i hroom
  have hown : ∀ {a : Id}, canManage a c.user → a = u := own_of_canManage huser hmoderator
  have hrefused : ∀ {p : Discussion} {policy : Option PostContext}, p.authorId = u → p.roomId = some r →
      RoomsService.assertCanPostTo c.world (RoomsService.autoJoinTo s p.roomId p.authorId) p.roomId
        ⟨some p.authorId, c.user.role⟩ ≠ .ok policy := by
    rintro p policy rfl hin
    exact h.refusedTo rfl hin policy
  have hstep := thread_step s c i
  generalize ht : (s.step c).thread i = t' at hstep hroom ⊢
  generalize ht₀ : s.thread i = t at hstep hroom ⊢
  cases hstep with
  | same => rfl
  | @created dto author selected room tags hop huser' hnew hallowed htags =>
    -- only a post in the room matters, and there the check refuses
    have hin : some dto.roomId.id = some r := hroom.resolve_left (by simp [Thread.InRoom, hnew.2])
    obtain rfl := Option.some.inj hin
    obtain rfl := Option.some.inj (huser.symm.trans huser')
    exact absurd hallowed (h.refused huser _)
  | viewed hop hp => exact texts_savePost hp rfl rfl
  | @drafted p id dto policy hop hp hmanage hopen hpolicy hversion hdrafts =>
    exact absurd hpolicy (hrefused (hown hmanage) (hroom.elim hp.inRoom.mp fun hin => hin))
  | @edited p id dto policy editor tagIds hop hp hmanage hopen hpolicy hversion hdrafts htags =>
    have hsaved : p.roomId = some r := hroom.elim hp.inRoom.mp fun hin => editedPost_roomId.symm.trans hin
    exact absurd hpolicy (hrefused (hown hmanage) hsaved)
  | removed hop hp hmanage => exact texts_savePost hp rfl rfl
  | commentAccepted hop hp => exact texts_savePost hp rfl rfl
  | acceptedCommentRemoved hop hp => exact texts_savePost hp rfl rfl
  | statusSet hop hp => exact texts_savePost hp rfl rfl
  | answerCreated hop hp huser' hopen happroved hquestion hnew =>
    have hin := hroom.elim hp.inRoom.mp fun hin => hin
    have hkept := h.createAnswer huser hop.1 (hop.2.symm ▸ post?_iff_live.mpr (ht₀ ▸ hp)) hin
    exact congrArg Thread.texts (ht.symm.trans ((hkept i).trans ht₀))
  | answerUpdated hop hp ha hmanage hopen hversion hchanged hkept =>
    have hin := hroom.elim hp.inRoom.mp hp.inRoom.mp
    have hkept := updateAnswer_kept huser hmoderator hc hop (ht₀ ▸ hp) hin (ht₀ ▸ ha) hmanage hopen hversion
      hchanged
    exact congrArg Thread.texts (ht.symm.trans (hkept.trans ht₀))
  | acceptedAnswerUpdated hop hp ha hmanage hopen hversion hchanged hkept =>
    have hin := hroom.elim hp.inRoom.mp fun hin => hin
    have hkept := updateAnswer_kept huser hmoderator hc hop (ht₀ ▸ hp) hin (ht₀ ▸ ha) hmanage hopen hversion
      hchanged
    exact congrArg Thread.texts (ht.symm.trans (hkept.trans ht₀))
  | @answerRemoved p a id hop hp ha hmanage hopen hkept =>
    exact (texts_savePost (t := t.saveAnswer _) hp rfl rfl).trans (texts_saveAnswer ha rfl rfl)
  | @acceptedAnswerRemoved p a id actor hop hp ha hmanage hopen haccepted =>
    exact (texts_savePost (t := (t.revoke _ _ _).saveAnswer _) hp rfl rfl).trans
      (texts_saveAnswer (t := t.revoke _ _ _) ha rfl rfl)
  | answerAccepted hop hp huser' hopen hquestion hcan happroved ha =>
    split
    · exact texts_savePost hp rfl rfl
    · exact texts_savePost hp rfl rfl
  | acceptanceRemoved hop hp hcan haccepted =>
    exact texts_savePost hp rfl rfl
  | commentCreated hop hp huser' hopen happroved hparent hnew =>
    have hin := hroom.elim hp.inRoom.mp fun hin => hin
    have hkept := h.createComment huser hop.1 (hop.2.symm ▸ post?_iff_live.mpr (ht₀ ▸ hp)) hin
    exact congrArg Thread.texts (ht.symm.trans ((hkept i).trans ht₀))
  | @commentUpdated p m id dto hop hp hm hopen hmanage hkept =>
    have hin := hroom.elim hp.inRoom.mp hp.inRoom.mp
    have hsame := updateComment_kept huser hmoderator hc hop (ht₀ ▸ hp) hin (ht₀ ▸ hm) hmanage hopen
    refine texts_saveComment hm (CommentsService.edited_id m dto) ?_
    unfold CommentsService.edited
    rw [if_neg hsame]
  | acceptedCommentUpdated hop hp hm hopen hmanage haccepted =>
    have hin := hroom.elim hp.inRoom.mp fun hin => hin
    have hsame := updateComment_kept huser hmoderator hc hop (ht₀ ▸ hp) hin (ht₀ ▸ hm) hmanage hopen
    exact absurd haccepted.1 hsame
  | @commentRemoved p m id hop hp hm hopen hmanage =>
    have hpost : (CommentsService.uncommented p id).title = p.title
        ∧ (CommentsService.uncommented p id).content = p.content := by
      unfold CommentsService.uncommented
      split <;> exact ⟨rfl, rfl⟩
    exact (texts_savePost (t := t.saveComment _) hp hpost.1 hpost.2).trans (texts_saveComment hm rfl rfl)
  | postVoted hop hp => exact texts_savePost hp rfl rfl
  | commentVoted hop hp hm => exact texts_saveComment hm rfl rfl
  | answerVoted hop hp ha => exact texts_saveAnswer ha rfl rfl
  | @reviewed p id dto actor reason tagIds media hop hp huser' hstate hkept hdraft =>
    have hin : p.roomId = some r := hroom.elim hp.inRoom.mp fun hin => by
      have hsaved : (ModerationService.reviewedPost p dto).roomId = some r := hin
      rwa [ModerationService.reviewedPost_eq] at hsaved
    rcases review_kept huser hmoderator hc hop (ht₀ ▸ hp) hin hstate with hsame | ⟨htitle, hcontent⟩
    · exact congrArg Thread.texts (ht.symm.trans (hsame.trans ht₀))
    · split
      · exact texts_savePost hp htitle hcontent
      · exact texts_savePost hp htitle hcontent
  | tagMerged hop => rfl
  | tagRemoved hop hdead => rfl

end Calls

/-! ## Rewrites

The edits of answers and of comments, which do not ask the room. -/

/-- A comment of a live post is read in its thread. -/
theorem texts_comment {k : Id} {m : Comment} (hm : s.comments.get? k = some m) :
    (s.thread m.discussionId).texts.comments k = some m.content := by
  show ((s.comments.restrict _).get? k).map _ = _
  rw [Table.get?_restrict, hm]
  simp [Option.filter]

/-- The text of an answer stands in the thread of its question. -/
theorem texts_answer {k : Id} {a : Answer} (ha : s.answers.get? k = some a) :
    (s.thread a.discussionId).texts.answers k = some a.content := by
  show ((s.answers.restrict _).get? k).map _ = _
  rw [Table.get?_restrict, ha]
  simp [Option.filter]

/-- A post that is found is in its room. -/
theorem inRoom_of_post? (hp : s.post? i = some p) (hroom : p.roomId = some r) : (s.thread i).InRoom r :=
  (post?_iff_live.mp hp).inRoom.mpr hroom

/-- The edit of an own comment of an open post is stored. -/
theorem updateComment_stored {id : UuidText} (dto : UpdateCommentDto) {m : Comment}
    (huser : user.id = some m.authorId) (hm : s.comment? id.id = some m)
    (hp : s.post? m.discussionId = some p) (hopen : p.status ≠ .closed) :
    (CommentsService.update w s id user dto).state.comments.get? m.id = some (CommentsService.edited m dto) := by
  have hlock : lockCommentPost s id.id = .ok (p, m) := lockCommentPost_eq_ok.mpr ⟨hm, hp⟩
  have hmanager : requireManager m.authorId user = .ok () :=
    requireManager_eq_ok.mpr (canManage_iff.mpr ⟨by simp [huser], .inl huser⟩)
  have hrow : s.comments.get? (CommentsService.edited m dto).id = some m := by
    rw [CommentsService.edited_id]
    exact Table.get?_key (Content.comment?_eq_some.mp hm).1
  simp only [CommentsService.update, CommentsService.updateTx, authenticated, huser, orThrow_some, ok_bind, hlock,
    requireOpen, require_bind, if_pos hopen, hmanager]
  rw [← CommentsService.edited_id m dto]
  split
  · exact Table.get?_save_self hrow
  · exact Table.get?_save_self hrow

/-- The edit of an own answer of an open post is stored, when the next revision is free. -/
theorem updateAnswer_stored {id : UuidText} {dto : UpdateAnswerDto} {a : Answer} (huser : user.id = some a.authorId)
    (ha : s.answer? id.id = some a) (hp : s.post? a.discussionId = some p) (hopen : p.status ≠ .closed)
    (hversion : a.contentVersion = dto.expectedVersion) (hchanged : a.content ≠ dto.content)
    (hfree : s.answerRevisions.get? (a.id, a.contentVersion + 1) = none) :
    (AnswersService.update w s id dto user).state.answers.get? a.id
      = some (AnswersService.revised a dto.content) := by
  have hlock : AnswersService.lockAnswerAndQuestion s id.id = .ok (a, p) :=
    AnswersService.lockAnswerAndQuestion_eq_ok.mpr ⟨ha, hp⟩
  have hmanage : canManage a.authorId user := canManage_iff.mpr ⟨by simp [huser], .inl huser⟩
  have hrow : s.answers.get? (AnswersService.revised a dto.content).id = some a :=
    Table.get?_key (Content.answer?_eq_some.mp ha).1
  obtain ⟨t, ht, hanswers⟩ := updateAnswerTx_ok (w := w) hlock hmanage hopen hversion (.inr hfree)
  rw [AnswersService.update, commit_state_of_ok ht, hanswers hchanged]
  exact Table.get?_save_self hrow

/-- The review that allows a draft stores the post with its text. -/
theorem review_stored {id : UuidText} {dto : ReviewContentDto} {s₁ : Db} (huser : user.id = some u)
    (hmoderator : ¬ user.isModerator) (hp : s.post? id.id = some p) (hroom : p.roomId = some r)
    (hmanages : (s.membership? r u).any (RoomsService.managesRoom w.now)) (hallow : dto.decision = .allow)
    (hstate : p.moderationStatus = dto.expectedModerationStatus.getD .pending
      ∧ p.contentVersion = dto.expectedVersion ∧ ModerationService.reviewedContent p = dto.expectedContent)
    (hpublish : ModerationService.publish w s p dto.decision = .ok s₁) :
    ((ModerationService.review w s id dto user).state.thread id.id).post
      = some (ModerationService.reviewedPost p dto) := by
  have hauth : authenticated user = .ok u := authenticated_eq_ok.mpr huser
  obtain ⟨ids, hids⟩ : ∃ ids, RoomsService.managedRoomIds w s user = .ok ids := by
    unfold RoomsService.managedRoomIds
    rw [hauth]
    exact ⟨_, rfl⟩
  have hmem : r ∈ ids := (mem_managedRoomIds huser hids).mpr hmanages
  -- the post is in a room that the reviewer manages
  have hscope : ∀ ids' ∈ some ids, ∃ r ∈ p.roomId, r ∈ ids' := by
    intro ids' hids'
    obtain rfl := Option.some.inj hids'
    exact ⟨r, hroom, hmem⟩
  -- so every check of the transaction passes
  obtain ⟨s', status, htx⟩ : ∃ s' status,
      ModerationService.reviewTx w s id dto u (some ids) = .ok (s', status) := by
    simp only [ModerationService.reviewTx, lockPost, hp, orThrow_some, ok_bind, require_bind, if_pos hscope,
      if_pos hstate, hpublish]
    exact ⟨_, _, rfl⟩
  have hreviewer : ModerationService.scope w s user = .ok (some ids) := by
    have hsome : ids ≠ [] := List.ne_nil_of_mem hmem
    simp only [ModerationService.scope, hauth, ok_bind, hmoderator, Bool.false_eq_true, if_false, hids,
      require_bind, if_pos hsome]
    rfl
  have hnote : dto.decision ≠ .allow → ModerationService.trimmedNote dto.note ≠ "" := fun h => absurd hallow h
  have hserved : (ModerationService.review w s id dto user).state = s' := by
    simp only [ModerationService.review, hauth, ok_bind, hreviewer, require_bind, if_pos hnote, htx, commit_ok]
  rw [hserved]
  obtain ⟨p', _, tagIds, media, hp', -, -, -, -, -, hthread⟩ := reviewTx_thread htx
  obtain rfl := Option.some.inj (hp.symm.trans hp')
  rw [hthread, if_pos rfl]
  rfl

/-- An edit that changes the content stores another one. -/
theorem edited_content_ne {m : Comment} {dto : UpdateCommentDto} (h : CommentsService.contentChanged m dto) :
    (CommentsService.edited m dto).content ≠ m.content := by
  unfold CommentsService.edited
  rw [if_pos h]
  obtain ⟨content, hcontent, hne⟩ := of_decide_eq_true h
  show dto.content.getD m.content ≠ m.content
  rw [hcontent]
  exact hne

/-- **A rewrite does not keep the texts of the room.** -/
theorem not_keepsTexts_of_rewrites (huser : c.user.id = some u) (hmoderator : ¬ c.user.isModerator)
    (hc : Rewrites u r s c.world c.operation) : ¬ KeepsTexts r s (s.step c) := by
  obtain ⟨w, user, o⟩ := c
  intro hkeeps
  cases hc with
  | @comment p m id dto hm hp hroom hopen hown hchanged =>
    subst hown
    have hsame := hkeeps m.discussionId (.inl (inRoom_of_post? hp hroom))
    have hstored := texts_comment (updateComment_stored (w := w) dto huser hm hp hopen)
    rw [CommentsService.edited_discussionId] at hstored
    have hbefore := texts_comment (Table.get?_key (Content.comment?_eq_some.mp hm).1)
    have hcontent := hstored.symm.trans ((congrFun (congrArg Texts.comments hsame) m.id).trans hbefore)
    exact edited_content_ne hchanged (Option.some.inj hcontent)
  | @answer p a id dto ha hp hroom hopen hown hversion hchanged hfree =>
    subst hown
    have hsame := hkeeps a.discussionId (.inl (inRoom_of_post? hp hroom))
    have hstored := texts_answer (updateAnswer_stored (w := w) huser ha hp hopen hversion hchanged hfree)
    have hbefore := texts_answer (Table.get?_key (Content.answer?_eq_some.mp ha).1)
    have hcontent := hstored.symm.trans ((congrFun (congrArg Texts.answers hsame) a.id).trans hbefore)
    exact hchanged (Option.some.inj hcontent).symm
  -- the review publishes a text that the post did not show
  | @draft p d id dto hp hroom hmanages hallow hdraft hchanged hstate hpublish =>
    obtain ⟨s₁, hpublish⟩ := hpublish
    rw [← hallow] at hpublish
    have hsame := hkeeps id.id (.inl (inRoom_of_post? hp hroom))
    have hstored := review_stored huser hmoderator hp hroom hmanages hallow hstate hpublish
    have hbefore := (post?_iff_live.mp hp).1
    have htext : some ((ModerationService.reviewedPost p dto).title, (ModerationService.reviewedPost p dto).content)
        = some (p.title, p.content) := by
      have hpost : ((ModerationService.review w s id dto user).state.thread id.id).post.map
          (fun p => (p.title, p.content)) = (s.thread id.id).post.map fun p => (p.title, p.content) :=
        congrArg Texts.post hsame
      rw [hstored, hbefore] at hpost
      exact hpost
    obtain ⟨htitle, hcontent⟩ := Prod.mk.inj (Option.some.inj htext)
    rw [(reviewedPost_published hallow hdraft).1] at htitle
    rw [(reviewedPost_published hallow hdraft).2] at hcontent
    exact hchanged.elim (fun h => h htitle) fun h => h hcontent

/-! ## Runs

Along a run without rewrites a silenced user changes no text in the room. -/

/-- A call of the user, without a global role, keeps the texts of the room. -/
def Silent (u r : Id) (s : Db) (c : Call) : Prop :=
  c.user.id = some u → ¬ c.user.isModerator → KeepsTexts r s (s.step c)

/-- The call is one of the user, without a global role, that rewrites a text of the room. -/
def RewritesAs (u r : Id) (s : Db) (c : Call) : Prop :=
  c.user.id = some u ∧ ¬ c.user.isModerator ∧ Rewrites u r s c.world c.operation

/-- **A call of a silenced user keeps the texts of the room exactly when it does not rewrite one.** -/
theorem silent_step_iff (h : Silences u r s) : Silent u r s c ↔ ¬ RewritesAs u r s c := by
  constructor
  · rintro hsilent ⟨huser, hmoderator, hc⟩
    exact not_keepsTexts_of_rewrites huser hmoderator hc (hsilent huser hmoderator)
  · intro hc huser hmoderator
    exact keepsTexts_of_not_rewrites huser hmoderator (fun hr => hc ⟨huser, hmoderator, hr⟩) h

/-- **A silenced member is silent**, in every run in which its membership stays banned, muted or blocked, exactly
when no call of the member is a rewrite. -/
theorem silenced_members_silent (u r : Id) (s : Db) (calls : List Call)
    (h : Always Db.step (Silences u r) s calls) :
    Meets Db.step (Silent u r) s calls ↔ Meets Db.step (fun s c => ¬ RewritesAs u r s c) s calls :=
  ⟨Always.meets_of (fun _ _ hs => (silent_step_iff hs).mp) h,
    Always.meets_of (fun _ _ hs => (silent_step_iff hs).mpr) h⟩

/-! ## Samples

A banned user who rewrites an answer. -/

namespace Sample

/-- Student `2` comments on the question `0`. -/
def commented : Call := call 2 (student 2) (.comments (.create (Id.text 0) { content := "Use a drawing." }))

/-- Student `1` mutes student `2` in the room `0`. -/
def mute : Call := call 3 (student 1) (.rooms (.updateMembership (Id.text 0) (Id.text 2)
  { role := .member, status := .muted }))

/-- Student `2` edits the comment `0`. -/
def editComment : Call := call 4 (student 2) (.comments (.update (Id.text 0) { content := some "Buy my notes." }))

/-- The state in which student `2`, who has commented, is muted. -/
def muted : Db := Db.after [openForum, ask, join 2, commented, mute]

end Sample

/-- The muted student neither comments again nor joins again. -/
theorem silenced_members_silent_muted :
    Meets Db.step (Silent 2 0) Sample.muted [Sample.commented, Sample.join 2] := by
  refine (silenced_members_silent 2 0 Sample.muted [Sample.commented, Sample.join 2] (by decide)).mpr
    ⟨?_, ?_, trivial⟩
  · rintro ⟨-, -, hc⟩
    cases hc
  · rintro ⟨-, -, hc⟩
    cases hc

/-- The muted student publishes by the edit of an old comment. -/
theorem not_silenced_members_silent : Always Db.step (Silences 2 0) Sample.muted [Sample.editComment]
    ∧ ¬ Meets Db.step (Silent 2 0) Sample.muted [Sample.editComment] := by
  refine ⟨by decide, fun hmeets => ?_⟩
  have hkeeps : KeepsTexts 0 Sample.muted (Sample.muted.step Sample.editComment) := hmeets.1 rfl (by decide)
  have hroom : (Sample.muted.thread 0).InRoom 0 := by
    unfold Thread.InRoom
    decide
  have hsame := hkeeps 0 (.inl hroom)
  have hcontent : ((Sample.muted.step Sample.editComment).thread 0).texts.comments 0
      = (Sample.muted.thread 0).texts.comments 0 := by rw [hsame]
  exact absurd hcontent (by decide)

end AcaSocial
