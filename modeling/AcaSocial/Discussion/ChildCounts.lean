import AcaSocial.Discussion.AcceptanceLedger
import AcaSocial.Discussion.AlikeChildren

/-!
# The counters of comments and answers

* **`CountsExact`** — the counters of a live discussion are the numbers of its live comments and of
  its live answers.
* **`Thread.Counted`** — the same of one thread, which is what every step keeps.
* **`counts_exact`** — it holds in every reachable state, so the clamps of the removals never bind,
  and a call that fails moves no counter.
-/

namespace AcaSocial

/-- The comments of a discussion that are not deleted, at all depths. -/
def Content.liveComments (s : Content) (i : Id) : Nat :=
  (s.comments.select fun m => decide (m.discussionId = i ∧ m.deletedAt = none)).length

/-- The answers of a discussion that are not deleted. -/
def Content.liveAnswers (s : Content) (i : Id) : Nat :=
  (s.answers.select fun a => decide (a.discussionId = i ∧ a.deletedAt = none)).length

/-- Every live discussion counts its live comments and answers. -/
def CountsExact (s : Db) : Prop :=
  ∀ i p, s.post? i = some p → p.commentCount = s.liveComments i ∧ p.answerCount = s.liveAnswers i

/-! ## Rows that are not deleted

The number of the rows of a table that are not deleted. An insertion and a soft deletion change it by one. -/

section Live

variable {ρ : Type} {key : ρ → Id} {deletedAt : ρ → Option Time} {t : Table Id ρ key} {r r₀ : ρ}

/-- The number of rows that are not deleted. -/
def Table.live (t : Table Id ρ key) (deletedAt : ρ → Option Time) : Nat :=
  t.rows.countP fun r => (deletedAt r).isNone

/-- A live row is saved. -/
theorem Table.live_save {k : Id} (h : (t.get? k).filter (fun r => (deletedAt r).isNone) = some r₀)
    (hid : key r = key r₀) : (t.save r).live deletedAt + 1
      = t.live deletedAt + if (deletedAt r).isNone then 1 else 0 := by
  obtain ⟨hget, hlive⟩ := Option.filter_eq_some_iff.mp h
  have hmoved := Table.countP_save (Table.get?_eq_some.mp hget).1 hid.symm
    fun r => (deletedAt r).isNone
  rw [if_pos hlive] at hmoved
  exact hmoved

/-- A new row is one more. -/
theorem Table.live_insert (h : t.get? (key r) = none) (hlive : deletedAt r = none) :
    (t.insert r).live deletedAt = t.live deletedAt + 1 := by
  have hmoved := Table.countP_insert h fun r => (deletedAt r).isNone
  rw [hlive] at hmoved
  exact hmoved

end Live

/-! ## Threads

The counters of a post are exact when they are the numbers of its comments and answers that are not deleted. -/

namespace Thread

def liveComments (t : Thread) : Nat := t.comments.live Comment.deletedAt

def liveAnswers (t : Thread) : Nat := t.answers.live Answer.deletedAt

/-- The post counts what is live in the thread. -/
structure Counted (t : Thread) (p : Discussion) : Prop where
  comments : p.commentCount = t.liveComments
  answers : p.answerCount = t.liveAnswers

/-- The live post counts the thread, and where there is no post yet nothing is live. -/
structure Tallied (t : Thread) : Prop where
  none : t.post = .none → t.liveComments = 0 ∧ t.liveAnswers = 0
  live : ∀ p, t.Live p → t.Counted p

variable {t t' : Thread} {p q : Discussion}

namespace Counted

/-- Neither the counters nor the live rows change. -/
theorem congr (h : t.Counted p) (hcomments : q.commentCount = p.commentCount)
    (hanswers : q.answerCount = p.answerCount) (hcomments' : t'.liveComments = t.liveComments)
    (hanswers' : t'.liveAnswers = t.liveAnswers) : t'.Counted q where
  comments := by rw [hcomments, hcomments', h.comments]
  answers := by rw [hanswers, hanswers', h.answers]

/-- The row of the post is saved, and no comment nor answer. -/
theorem of_children (h : t.Counted p) (hcomments : q.commentCount = p.commentCount)
    (hanswers : q.answerCount = p.answerCount) (hcomments' : t'.comments = t.comments)
    (hanswers' : t'.answers = t.answers) : t'.Counted q := by
  refine h.congr hcomments hanswers ?_ ?_
  · rw [liveComments, hcomments', liveComments]
  · rw [liveAnswers, hanswers', liveAnswers]

/-- A live comment is there to be counted, so the clamp of its removal does not bind. -/
theorem comments_pos (h : t.Counted p) {k : Id} {m : Comment} (hm : t.comment? k = some m) :
    1 ≤ p.commentCount := by
  obtain ⟨hget, hlive⟩ := Option.filter_eq_some_iff.mp hm
  have hpos : 0 < t.liveComments :=
    List.countP_pos_iff.mpr ⟨m, (Table.get?_eq_some.mp hget).1, hlive⟩
  have hcount := h.comments
  omega

/-- A post with an answer counts at least one, so that its counter does not stop at zero. -/
theorem answers_pos (h : t.Counted p) {k : Id} {a : Answer} (ha : t.answer? k = some a) :
    1 ≤ p.answerCount := by
  obtain ⟨hget, hlive⟩ := Option.filter_eq_some_iff.mp ha
  have hpos : 0 < t.liveAnswers :=
    List.countP_pos_iff.mpr ⟨a, (Table.get?_eq_some.mp hget).1, hlive⟩
  have hcount := h.answers
  omega

end Counted

/-! ### Writes

Each write to a thread keeps its counters exact, or changes the number and the counter together. -/

theorem children_ite_revoke (t : Thread) {d : Prop} [Decidable d] (now : Time) (actor : Id)
    (reason : String) : (if d then t.revoke now actor reason else t).comments = t.comments
      ∧ (if d then t.revoke now actor reason else t).answers = t.answers := by
  split <;> exact ⟨rfl, rfl⟩

/-- A comment is saved that stays live. -/
theorem liveComments_save {k : Id} {m m₀ : Comment} (h : t.comment? k = some m₀)
    (hid : m.id = m₀.id) (hlive : m.deletedAt = m₀.deletedAt) :
    (t.saveComment m).liveComments = t.liveComments := by
  have hmoved := Table.live_save h hid
  rw [hlive, comment?_live h] at hmoved
  exact Nat.add_right_cancel hmoved

/-- A save that does not delete keeps the number. -/
theorem liveAnswers_save {k : Id} {a a₀ : Answer} (h : t.answer? k = some a₀)
    (hid : a.id = a₀.id) (hlive : a.deletedAt = a₀.deletedAt) :
    (t.saveAnswer a).liveAnswers = t.liveAnswers := by
  have hmoved := Table.live_save h hid
  have hlive₀ : a₀.deletedAt = none := by simpa using (Option.filter_eq_some_iff.mp h).2
  rw [hlive, hlive₀] at hmoved
  exact Nat.add_right_cancel hmoved

/-- The removal of a comment and the counter move together. -/
theorem Counted.removeComment (h : t.Counted p) {k : Id} {m m₀ : Comment}
    (hm : t.comment? k = some m₀) (hcomments : t'.comments = t.comments.save m)
    (hanswers : t'.answers = t.answers) (hid : m.id = m₀.id) (hdeleted : m.deletedAt.isNone = false)
    (hcount : q.commentCount = max 0 (p.commentCount - 1)) (hcount' : q.answerCount = p.answerCount) :
    t'.Counted q where
  comments := by
    have hpos := h.comments_pos hm
    have hbefore := h.comments
    have hmoved := Table.live_save hm hid
    rw [hdeleted, ← hcomments] at hmoved
    change t'.liveComments + 1 = t.liveComments at hmoved
    omega
  answers := by
    rw [hcount', h.answers, liveAnswers, ← hanswers, liveAnswers]

/-- A removal takes one from both. -/
theorem Counted.removeAnswer (h : t.Counted p) {k : Id} {a a₀ : Answer}
    (ha : t.answer? k = some a₀) (hcomments : t'.comments = t.comments)
    (hanswers : t'.answers = t.answers.save a) (hid : a.id = a₀.id)
    (hdeleted : a.deletedAt.isNone = false)
    (hcount : q.commentCount = p.commentCount) (hcount' : q.answerCount = max 0 (p.answerCount - 1)) :
    t'.Counted q where
  comments := by
    rw [hcount, h.comments, liveComments, ← hcomments, liveComments]
  answers := by
    have hpos := h.answers_pos ha
    have hbefore := h.answers
    have hmoved := Table.live_save ha hid
    rw [hdeleted, ← hanswers] at hmoved
    change t'.liveAnswers + 1 = t.liveAnswers at hmoved
    omega

/-- A new comment adds one to both. -/
theorem Counted.insertComment (h : t.Counted p) {m : Comment} (hnew : t.comments.get? m.id = none)
    (hlive : m.deletedAt = none) : ((t.insertComment m).savePost q).Counted
      { p with commentCount := p.commentCount + 1 } where
  comments := by
    have hbefore := h.comments
    have hmoved : ((t.insertComment m).savePost q).liveComments = t.liveComments + 1 :=
      Table.live_insert hnew hlive
    rw [hmoved, hbefore]
    rfl
  answers := h.answers

/-- A new answer adds one to both. -/
theorem Counted.insertAnswer (h : t.Counted p) {a : Answer} (hnew : t.answers.get? a.id = none)
    (hlive : a.deletedAt = none) : ((t.insertAnswer a).savePost q).Counted
      { p with answerCount := p.answerCount + 1 } where
  comments := h.comments
  answers := by
    have hbefore := h.answers
    have hmoved : ((t.insertAnswer a).savePost q).liveAnswers = t.liveAnswers + 1 :=
      Table.live_insert hnew hlive
    rw [hmoved, hbefore]
    rfl

end Thread

/-! ## Steps

A step of a thread is one of these writes. -/

open Thread DiscussionsService AnswersService CommentsService

variable {s s' : Db} {c : Call} {i : Id}

theorem edited_deletedAt (m : Comment) (dto : UpdateCommentDto) :
    (CommentsService.edited m dto).deletedAt = m.deletedAt := by
  unfold CommentsService.edited
  split <;> rfl

theorem editedPost_counts (dto : UpdateDiscussionDto) (policy : Option PostContext)
    (p : Discussion) : (editedPost dto policy p).commentCount = p.commentCount
      ∧ (editedPost dto policy p).answerCount = p.answerCount := by
  unfold editedPost
  split <;> exact ⟨rfl, rfl⟩

/-- A step keeps the live post counting its thread. -/
theorem counted_step {t' : Thread} (h : ThreadStep s c i (s.thread i) t')
    (hinv : (s.thread i).Tallied) : ∀ p, t'.Live p → t'.Counted p := by
  intro p' hp'
  cases h with
  | same => exact hinv.live p' hp'
  | created _ _ hnew =>
    simp only [live_setMedia, live_setTags, live_savePost] at hp'
    obtain ⟨rfl, -⟩ := hp'
    obtain ⟨hcomments, hanswers⟩ := hinv.none hnew.2
    exact ⟨congrArg Int.ofNat hcomments.symm, congrArg Int.ofNat hanswers.symm⟩
  -- an edit may revoke an acceptance, which leaves answers and comments alone
  | edited _ hp =>
    simp only [live_setMedia, live_savePost] at hp'
    obtain ⟨rfl, -⟩ := hp'
    exact (hinv.live _ hp).of_children (editedPost_counts _ _ _).1 (editedPost_counts _ _ _).2
      (children_ite_revoke _ _ _ _).1 (children_ite_revoke _ _ _ _).2
  | reviewed _ hp =>
    obtain ⟨rfl, -⟩ := live_savePost.mp hp'
    refine (hinv.live _ hp).of_children ?_ ?_ (children_ite_revoke _ _ _ _).1
      (children_ite_revoke _ _ _ _).2
    all_goals rw [ModerationService.reviewedPost_eq]
  | answerAccepted _ hp =>
    obtain ⟨rfl, -⟩ := live_savePost.mp hp'
    exact (hinv.live _ hp).of_children rfl rfl (children_ite_revoke _ _ _ _).1
      (children_ite_revoke _ _ _ _).2
  | viewed _ hp | drafted _ hp | commentAccepted _ hp | acceptedCommentRemoved _ hp
  | statusSet _ hp | acceptanceRemoved _ hp | postVoted _ hp =>
    obtain ⟨rfl, -⟩ := live_savePost.mp hp'
    exact (hinv.live _ hp).of_children rfl rfl rfl rfl
  | removed =>
    obtain ⟨rfl, hlive⟩ := live_savePost.mp hp'
    cases hlive
  -- one more row, and the counter of the locked post one up
  | answerCreated _ hp _ _ _ _ hnew =>
    obtain ⟨rfl, -⟩ := live_savePost.mp hp'
    exact (hinv.live _ hp).insertAnswer (hnew ▸ answers_get?_next s i) rfl
  | answerUpdated _ _ ha | answerVoted _ _ ha =>
    exact (hinv.live _ hp').congr rfl rfl rfl (liveAnswers_save ha rfl rfl)
  | acceptedAnswerUpdated _ hp ha =>
    obtain ⟨rfl, -⟩ := live_savePost.mp hp'
    exact (hinv.live _ hp).congr rfl rfl rfl (liveAnswers_save ha rfl rfl)
  -- one row deleted, and the counter one down
  | answerRemoved _ hp ha | acceptedAnswerRemoved _ hp ha =>
    obtain ⟨rfl, -⟩ := live_savePost.mp hp'
    exact (hinv.live _ hp).removeAnswer ha rfl rfl rfl rfl rfl rfl
  | commentCreated _ hp _ _ _ _ hnew =>
    obtain ⟨rfl, -⟩ := live_savePost.mp hp'
    exact (hinv.live _ hp).insertComment (hnew ▸ comments_get?_next s i) rfl
  -- an edit deletes nothing
  | commentUpdated _ _ hm =>
    exact (hinv.live _ hp').congr rfl rfl
      (liveComments_save hm (CommentsService.edited_id _ _) (edited_deletedAt _ _)) rfl
  | acceptedCommentUpdated _ hp hm =>
    obtain ⟨rfl, -⟩ := live_savePost.mp (live_saveComment.mp hp')
    exact (hinv.live _ hp).congr rfl rfl
      (liveComments_save hm (CommentsService.edited_id _ _) (edited_deletedAt _ _)) rfl
  | commentVoted _ _ hm =>
    exact (hinv.live _ hp').congr rfl rfl (liveComments_save hm rfl rfl) rfl
  | commentRemoved _ hp hm =>
    obtain ⟨rfl, -⟩ := live_savePost.mp hp'
    refine (hinv.live _ hp).removeComment hm rfl rfl rfl rfl ?_ ?_ <;>
      unfold uncommented <;> split <;> rfl
  | tagMerged | tagRemoved => exact (hinv.live _ hp').of_children rfl rfl rfl rfl

/-- So every step keeps the thread tallied. -/
theorem tallied_step (hinv : (s.thread i).Tallied) : ((s.step c).thread i).Tallied := by
  have hstep := thread_step s c i
  refine ⟨fun hnone => ?_, counted_step hstep hinv⟩
  obtain ⟨ids, hids⟩ := hstep.of_post_none hnone
  rw [hids] at hnone ⊢
  exact hinv.none hnone

theorem tallied_empty (i : Id) : (Db.empty.thread i).Tallied where
  none _ := ⟨rfl, rfl⟩
  live p hp := by
    have hnone : (Db.empty.thread i).post = none := rfl
    cases hnone.symm.trans hp.1

/-- The counters of a thread are exact along every run. -/
theorem tallied_after (calls : List Call) (i : Id) : ((Db.after calls).thread i).Tallied :=
  run_invariant (P := fun s : Db => (s.thread i).Tallied) (fun _ _ => tallied_step)
    (tallied_empty i) calls

/-! ## Failed calls

A call that fails leaves posts, comments and answers as they are. -/

/-- The comments of a post are those of its thread. -/
theorem liveComments_eq (s : Db) (i : Id) : s.liveComments i = (s.thread i).liveComments := by
  show _ = List.countP _ (List.filter _ _)
  rw [List.countP_filter, Content.liveComments, Table.select, ← List.countP_eq_length_filter]
  refine List.countP_congr fun m _ => ?_
  simp [and_comm]

/-- The answers of a post are those of its thread. -/
theorem liveAnswers_eq (s : Db) (i : Id) : s.liveAnswers i = (s.thread i).liveAnswers := by
  show _ = List.countP _ (List.filter _ _)
  rw [List.countP_filter, Content.liveAnswers, Table.select, ← List.countP_eq_length_filter]
  refine List.countP_congr fun a _ => ?_
  simp [and_comm]

/-- The counters are exact after every run. -/
theorem countsExact_after (calls : List Call) : CountsExact (Db.after calls) := by
  intro i p hp
  have hcounted := (tallied_after calls i).live p (post?_iff_live.mp hp)
  rw [liveComments_eq, liveAnswers_eq]
  exact ⟨hcounted.comments, hcounted.answers⟩

/-- Comments and answers are created and removed by these calls only. -/
def Operation.movesCounters : Operation → Bool
  | .answers (.create ..) | .answers (.remove _) | .comments (.create ..)
  | .comments (.remove _) => true
  | _ => false

/-- Any other call leaves the counters of a post alone. -/
theorem ThreadStep.keepsCounters {t t' : Thread} (h : ThreadStep s c i t t')
    (hother : c.operation.movesCounters = false) {p : Discussion} (hp : t.post = some p) :
    ∃ p', t'.post = some p' ∧ p'.commentCount = p.commentCount
      ∧ p'.answerCount = p.answerCount := by
  have hsaved : ∀ {q p' : Discussion}, t.Live q → t'.post = some p' →
      p'.commentCount = q.commentCount → p'.answerCount = q.answerCount →
      ∃ p', t'.post = some p' ∧ p'.commentCount = p.commentCount
        ∧ p'.answerCount = p.answerCount := by
    intro q p' hq hp' hcomments hanswers
    obtain rfl := Option.some.inj (hq.1.symm.trans hp)
    exact ⟨p', hp', hcomments, hanswers⟩
  cases h with
  | created _ _ hnew => cases hnew.2.symm.trans hp
  | answerCreated hop | commentCreated hop =>
    rw [hop.1] at hother
    cases hother
  | answerRemoved hop | acceptedAnswerRemoved hop | commentRemoved hop =>
    rw [hop] at hother
    cases hother
  -- an edit and a review write the columns of the text, beside the counters
  | edited _ hq => exact hsaved hq rfl (editedPost_counts _ _ _).1 (editedPost_counts _ _ _).2
  | reviewed _ hq =>
    refine hsaved hq rfl ?_ ?_
    all_goals rw [ModerationService.reviewedPost_eq]
  | answerAccepted _ hq => exact hsaved hq rfl rfl rfl
  | viewed _ hq | drafted _ hq | removed _ hq | commentAccepted _ hq | acceptedCommentRemoved _ hq
  | statusSet _ hq | acceptanceRemoved _ hq | postVoted _ hq | acceptedAnswerUpdated _ hq
  | acceptedCommentUpdated _ hq => exact hsaved hq rfl rfl rfl
  | same | answerUpdated | commentUpdated | answerVoted | commentVoted | tagMerged | tagRemoved =>
    exact ⟨p, hp, rfl, rfl⟩

/-- The response of `create` is there once its transaction has gone through. -/
theorem discussions_of_createAnswer {w : World} {user : GatewayUser} {d : UuidText}
    {dto : CreateAnswerDto} {e : HttpError}
    (he : (AnswersService.create w s d dto user).result = .error e) :
    (AnswersService.create w s d dto user).state.discussions = s.discussions := by
  unfold AnswersService.create at he ⊢
  cases hprelude : AnswersService.createPrelude s d user with
  | error e' => rfl
  | ok found =>
    obtain ⟨author, q⟩ := found
    rw [hprelude] at he
    simp only [attempt] at he ⊢
    generalize hbody : (do
      let _ ← RoomsService.assertCanPostTo w (RoomsService.autoJoinTo s q.roomId author) q.roomId
        user
      AnswersService.createTx w (RoomsService.autoJoinTo s q.roomId author) d dto author q)
      = body at he ⊢
    cases body with
    | error e' => exact congrArg (·.discussions) (autoJoinTo_toContent s q.roomId author)
    | ok made =>
      obtain ⟨t, id⟩ := made
      obtain ⟨-, -, hcreated⟩ := bind_eq_ok.mp hbody
      have hfound := Db.Alike.answer_of_createTx hcreated
      rw [commit_ok, AnswersService.findOne, hfound] at he
      cases he

theorem discussions_of_createComment {w : World} {user : GatewayUser} {d : UuidText}
    {dto : CreateCommentDto} {e : HttpError}
    (he : (CommentsService.create w s d user dto).result = .error e) :
    (CommentsService.create w s d user dto).state.discussions = s.discussions := by
  unfold CommentsService.create at he ⊢
  cases hprelude : CommentsService.createPrelude s d user with
  | error e' => rfl
  | ok found =>
    obtain ⟨author, q⟩ := found
    rw [hprelude] at he
    simp only [attempt] at he ⊢
    rw [commit_state_of_error he]
    exact congrArg (·.discussions) (autoJoinTo_toContent s q.roomId author)

/-- The creations and removals leave the posts alone when they fail. -/
theorem discussions_of_error {e : HttpError} (hmoves : c.operation.movesCounters = true)
    (he : (serve s c).result = .error e) : (s.step c).discussions = s.discussions := by
  have herror : ∀ {α : Type} {f : α → Response} {x : Except HttpError α},
      x.map f = .error e → x = .error e := by
    intro α f x hx
    cases x with
    | error e' => exact congrArg Except.error (Except.error.inj hx)
    | ok a => cases hx
  obtain ⟨w, user, o⟩ := c
  cases o with
  | answers o =>
    cases o with
    | create d dto =>
      have hresult : (AnswersService.create w s d dto user).result = .error e := herror he
      exact discussions_of_createAnswer hresult
    | remove id => exact congrArg (·.discussions) (commit_state_of_error (herror he))
    | _ => cases hmoves
  | comments o =>
    cases o with
    | create d dto =>
      have hresult : (CommentsService.create w s d user dto).result = .error e := herror he
      exact discussions_of_createComment hresult
    | remove id => exact congrArg (·.discussions) (commit_state_of_error (herror he))
    | _ => cases hmoves
  | _ => cases hmoves

/-- A call that fails moves no counter, whether its transaction has been rolled back or not. -/
theorem counts_of_error {e : HttpError} (he : (serve s c).result = .error e) {p : Discussion}
    (hp : s.discussions.get? i = some p) : ∃ p', (s.step c).discussions.get? i = some p'
      ∧ p'.commentCount = p.commentCount ∧ p'.answerCount = p.answerCount := by
  cases hmoves : c.operation.movesCounters with
  | true =>
    rw [discussions_of_error hmoves he]
    exact ⟨p, hp, rfl, rfl⟩
  | false => exact (thread_step s c i).keepsCounters hmoves hp

/-! ## All runs

The counters of every post are exact along every run. -/

/-- The counters are exact in every state; so a removal that has locked its rows finds a positive
counter, and a call that fails leaves the counters of every post as they are. -/
theorem counts_exact (calls : List Call) :
    CountsExact (Db.after calls)
    ∧ (∀ id p m, lockCommentPost (Db.after calls) id = .ok (p, m) →
      fewerComments p = { p with commentCount := p.commentCount - 1 })
    ∧ (∀ id a q, lockAnswerAndQuestion (Db.after calls) id = .ok (a, q) →
      max 0 (q.answerCount - 1) = q.answerCount - 1)
    ∧ ∀ c e, (serve (Db.after calls) c).result = .error e →
      ∀ i p, (Db.after calls).discussions.get? i = some p →
        ∃ p', ((Db.after calls).step c).discussions.get? i = some p'
          ∧ p'.commentCount = p.commentCount ∧ p'.answerCount = p.answerCount := by
  have htallied := tallied_after calls
  refine ⟨countsExact_after calls, fun id p m hlock => ?_, fun id a q hlock => ?_,
    fun c e he i p hp => counts_of_error he hp⟩
  · obtain ⟨hm, hp⟩ := lockCommentPost_eq_ok.mp hlock
    have hcounted := (htallied _).live p (post?_iff_live.mp hp)
    have hpos := hcounted.comments_pos (thread_comment? hm)
    rw [fewerComments, max_eq_right (by omega)]
  · obtain ⟨ha, hq⟩ := lockAnswerAndQuestion_eq_ok.mp hlock
    have hcounted := (htallied _).live q (post?_iff_live.mp hq)
    have hpos := hcounted.answers_pos (thread_answer? ha)
    exact max_eq_right (by omega)

theorem counts_exact_answered : ∃ a q,
    lockAnswerAndQuestion (Db.after [Sample.openForum, Sample.ask, Sample.answer]) 0 = .ok (a, q)
      ∧ q.answerCount = 1 ∧ max 0 (q.answerCount - 1) = q.answerCount - 1 := by
  have hcount : (lockAnswerAndQuestion (Db.after [Sample.openForum, Sample.ask, Sample.answer])
      0).toOption.map (·.2.answerCount) = some 1 := by decide
  cases hlock : lockAnswerAndQuestion (Db.after [Sample.openForum, Sample.ask, Sample.answer]) 0 with
  | error e =>
    rw [hlock] at hcount
    cases hcount
  | ok found =>
    rw [hlock] at hcount
    exact ⟨found.1, found.2, rfl, Option.some.inj hcount, (counts_exact _).2.2.1 0 _ _ hlock⟩

end AcaSocial
