import AcaSocial.Base.LastWrite
import AcaSocial.Base.TwoRuns
import AcaSocial.Discussion.Frames
import AcaSocial.Discussion.ThreadRefinement

/-!
# Votes

The votes on posts, comments and answers are a last-write-wins map.

* **`voteRequests`** — the successful requests of a run, in their order.
* **`VotesExact`** — the rows are the map that the requests leave, nobody has a vote on their own
  content, and the counters of a target count the entries of the map.
* **`Db.uncounted`** — the store without the votes and their counters. Whether a request succeeds
  depends on this part, and a request leaves it alone, so requests of different users may be
  exchanged.
-/

namespace AcaSocial

open VotesService

/-- A user and what they vote on. -/
abbrev VoteKey := Id × TargetType × Id

/-- The vote that a call writes, if it is a request that succeeds. -/
def voteRequest (s : Db) (c : Call) : Option (VoteKey × Option VoteType) :=
  match c.operation, c.user.id with
  | .setVote type id v, some u =>
    if (serve s c).result.isOk then some ((u, type, id.id), v) else none
  | _, _ => none

/-- The successful requests of a run. -/
def voteRequests (s : Db) (calls : List Call) : List (VoteKey × Option VoteType) :=
  record Db.step voteRequest s calls

/-! ## What is voted on

The three kinds of targets, each with its author and its two counters. -/

/-- What a vote looks at and counts, in a row of any of the three tables. -/
structure Votable where
  authorId : Id
  upvoteCount : Nat
  downvoteCount : Nat

def Discussion.votable (p : Discussion) : Votable := ⟨p.authorId, p.upvoteCount, p.downvoteCount⟩

def Comment.votable (m : Comment) : Votable := ⟨m.authorId, m.upvoteCount, m.downvoteCount⟩

def Answer.votable (a : Answer) : Votable := ⟨a.authorId, a.upvoteCount, a.downvoteCount⟩

/-- The target of a vote, deleted ones included. -/
def Content.votable (s : Content) (type : TargetType) (k : Id) : Option Votable :=
  match type with
  | .discussion => (s.discussions.get? k).map (·.votable)
  | .comment => (s.comments.get? k).map (·.votable)
  | .answer => (s.answers.get? k).map (·.votable)

/-- The votes are the map that the requests `rs` leave, and are counted. -/
structure VotesExact (s : Db) (rs : List (VoteKey × Option VoteType)) : Prop where
  rows : s.votes.Maps (·.voteType) (lastWrite rs)
  others : ∀ v ∈ s.votes, ∃ x, s.votable v.targetType v.targetId = some x ∧ x.authorId ≠ v.userId
  counted : ∀ type k x, s.votable type k = some x →
    x.upvoteCount = {u | lastWrite rs (u, type, k) = some .upvote}.ncard
      ∧ x.downvoteCount = {u | lastWrite rs (u, type, k) = some .downvote}.ncard

variable {s s' : Db} {c : Call} {type : TargetType} {k : Id}

/-- The query of `setVote` counts the entries of the map. -/
theorem count_eq_ncard {m : VoteKey → Option VoteType} (h : s.votes.Maps (·.voteType) m)
    (v : VoteType) : count s type k v = {u | m (u, type, k) = some v}.ncard := by
  have hinj : Function.Injective fun u : Id => ((u, type, k) : VoteKey) :=
    fun _ _ he => congrArg Prod.fst he
  have hselect := h.length_select (p := fun r => decide (r.targetType = type ∧ r.targetId = k
    ∧ r.voteType = v)) (fun u => (u, type, k)) hinj (fun v' => v' = v) ?_
  · refine hselect.trans (congrArg Set.ncard ?_)
    ext u
    simp
  · intro r _
    simp only [decide_eq_true_eq, Prod.mk.injEq]
    constructor
    · rintro ⟨rfl, rfl, rfl⟩
      exact ⟨⟨r.userId, rfl, rfl, rfl⟩, rfl⟩
    · rintro ⟨⟨_, -, rfl, rfl⟩, rfl⟩
      exact ⟨rfl, rfl, rfl⟩

/-! ## Other calls

Other calls leave the votes and the counters of every target alone. -/

/-- The target is as it was, or new. -/
def KeepsVotable (before after : Option Votable) : Prop :=
  after = before ∨ (before = none ∧ ∃ author, after = some ⟨author, 0, 0⟩)

section Tables

variable {ρ : Type} {key : ρ → Id} {t : Table Id ρ key} {f : ρ → Votable} {r r₀ : ρ}

/-- A save that keeps the author and the counters keeps what is voted on. -/
theorem KeepsVotable.save {j : Id} (h : t.get? j = some r₀) (hid : key r = key r₀)
    (hf : f r = f r₀) : KeepsVotable ((t.get? k).map f) (((t.save r).get? k).map f) := by
  refine .inl ?_
  have hj := (Table.get?_eq_some.mp h).2
  rw [Table.get?_save]
  split
  · next hk =>
    have hfound : t.get? k = some r₀ := by rw [← hk, hid, hj, h]
    simp [hfound, hf]
  · rfl

/-- A new row begins without votes. -/
theorem KeepsVotable.insert (h : t.get? (key r) = none) (hf : ∃ author, f r = ⟨author, 0, 0⟩) :
    KeepsVotable ((t.get? k).map f) (((t.insert r).get? k).map f) := by
  rw [Table.get?_insert]
  split
  · next hk =>
    obtain ⟨author, hauthor⟩ := hf
    refine .inr ⟨by rw [← hk, h]; rfl, author, ?_⟩
    rw [← hk, h]
    exact congrArg some hauthor
  · exact .inl rfl

end Tables

open DiscussionsService AnswersService CommentsService in
/-- A call that is not a vote keeps the post of a thread as a target, or creates it. -/
theorem ThreadStep.keepsPost {i : Id} {t' : Thread} (h : ThreadStep s c i (s.thread i) t')
    (hother : ∀ type id v, c.operation ≠ .setVote type id v) :
    KeepsVotable ((s.thread i).post.map (·.votable)) (t'.post.map (·.votable)) := by
  have hsaved : ∀ {p q : Discussion}, (s.thread i).Live p → t'.post = some q →
      q.votable = p.votable →
      KeepsVotable ((s.thread i).post.map (·.votable)) (t'.post.map (·.votable)) := by
    intro p q hp hq hvotable
    rw [hp.1, hq]
    exact .inl (congrArg some hvotable)
  cases h with
  -- a new post has no votes yet
  | created _ _ hnew =>
    refine .inr ⟨?_, _, rfl⟩
    rw [hnew.2]
    rfl
  | postVoted hop => exact absurd hop.1 (hother _ _ _)
  -- an edit, a deleted comment and a review save the whole post, with its votes as they were
  | edited _ hp =>
    refine hsaved hp rfl ?_
    unfold editedPost
    split <;> rfl
  | commentRemoved _ hp =>
    refine hsaved hp rfl ?_
    unfold uncommented
    split <;> rfl
  | @reviewed p _ dto _ _ _ _ _ hp =>
    refine hsaved hp rfl ?_
    rw [ModerationService.reviewedPost_eq]
    rfl
  | answerAccepted _ hp => exact hsaved hp rfl rfl
  | viewed _ hp | drafted _ hp | removed _ hp | commentAccepted _ hp | acceptedCommentRemoved _ hp
  | statusSet _ hp | answerCreated _ hp | acceptedAnswerUpdated _ hp | answerRemoved _ hp
  | acceptedAnswerRemoved _ hp | acceptanceRemoved _ hp | commentCreated _ hp
  | acceptedCommentUpdated _ hp => exact hsaved hp rfl rfl
  | same | answerUpdated | commentUpdated | commentVoted | answerVoted | tagMerged | tagRemoved =>
    exact .inl rfl

/-- It keeps the comments of the thread as targets, and may add one. -/
theorem ThreadStep.keepsComments {i : Id} {t' : Thread} (h : ThreadStep s c i (s.thread i) t')
    (hother : ∀ type id v, c.operation ≠ .setVote type id v) :
    KeepsVotable (((s.thread i).comments.get? k).map (·.votable))
      ((t'.comments.get? k).map (·.votable)) := by
  have hedited : ∀ {m : Comment} {id : UuidText} {dto : UpdateCommentDto},
      (s.thread i).comment? id.id = some m →
      KeepsVotable (((s.thread i).comments.get? k).map (·.votable))
        ((((s.thread i).comments.save (CommentsService.edited m dto)).get? k).map (·.votable)) := by
    intro m id dto hm
    refine .save (Option.filter_eq_some_iff.mp hm).1 (CommentsService.edited_id m dto) ?_
    unfold CommentsService.edited
    split <;> rfl
  cases h with
  | commentVoted hop => exact absurd hop (hother _ _ _)
  | commentCreated _ _ _ _ _ _ hnew =>
    refine .insert ?_ ⟨_, rfl⟩
    rw [hnew]
    exact comments_get?_next s i
  | commentUpdated _ _ hm => exact hedited hm
  | acceptedCommentUpdated _ _ hm => exact hedited hm
  | commentRemoved _ _ hm => exact .save (Option.filter_eq_some_iff.mp hm).1 rfl rfl
  | edited | answerAccepted | reviewed =>
    refine .inl ?_
    dsimp only [Thread.savePost, Thread.setMedia, Thread.setTags, Thread.insertAcceptance]
    split <;> rfl
  | _ => exact .inl rfl

open AnswersService in
/-- It keeps the answers of the thread as targets, and may add one. -/
theorem ThreadStep.keepsAnswers {i : Id} {t' : Thread} (h : ThreadStep s c i (s.thread i) t')
    (hother : ∀ type id v, c.operation ≠ .setVote type id v) :
    KeepsVotable (((s.thread i).answers.get? k).map (·.votable))
      ((t'.answers.get? k).map (·.votable)) := by
  have hsaved : ∀ {a a' : Answer} {id : UuidText}, (s.thread i).answer? id.id = some a →
      a'.id = a.id → a'.votable = a.votable →
      KeepsVotable (((s.thread i).answers.get? k).map (·.votable))
        ((((s.thread i).answers.save a').get? k).map (·.votable)) := by
    intro a a' id ha hid hvotable
    exact .save (Option.filter_eq_some_iff.mp ha).1 hid hvotable
  cases h with
  | answerVoted hop => exact absurd hop (hother _ _ _)
  | answerCreated _ _ _ _ _ _ hnew =>
    refine .insert ?_ ⟨_, rfl⟩
    rw [hnew]
    exact answers_get?_next s i
  | answerUpdated _ _ ha | acceptedAnswerUpdated _ _ ha | answerRemoved _ _ ha
  | acceptedAnswerRemoved _ _ ha => exact hsaved ha rfl rfl
  | edited | answerAccepted | reviewed =>
    refine .inl ?_
    dsimp only [Thread.savePost, Thread.setMedia, Thread.setTags, Thread.insertAcceptance]
    split <;> rfl
  | _ => exact .inl rfl

/-- Rows that are told apart by the thread that they are in. -/
theorem keepsVotable_of_parts {ρ : Type} {key part : ρ → Id} {t t' : Table Id ρ key}
    {f : ρ → Votable}
    (h : ∀ i, KeepsVotable (((t.restrict fun r => decide (part r = i)).get? k).map f)
      (((t'.restrict fun r => decide (part r = i)).get? k).map f)) :
    KeepsVotable ((t.get? k).map f) ((t'.get? k).map f) := by
  refine Table.get?_of_parts part (R := fun x y => KeepsVotable (x.map f) (y.map f)) (.inl rfl) ?_ h
  rintro r (hsame | ⟨hnone, -⟩)
  · cases hsame
  · cases hnone

/-- A call that is not a vote keeps the targets, and may add one. -/
theorem votable_step (hother : ∀ type id v, c.operation ≠ .setVote type id v) :
    KeepsVotable (s.votable type k) ((s.step c).votable type k) := by
  cases type with
  | discussion => exact (thread_step s c k).keepsPost hother
  | comment => exact keepsVotable_of_parts fun i => (thread_step s c i).keepsComments hother
  | answer => exact keepsVotable_of_parts fun i => (thread_step s c i).keepsAnswers hother

/-- A call that is not a vote keeps the votes exact. -/
theorem VotesExact.step_other {rs : List (VoteKey × Option VoteType)} (h : VotesExact s rs)
    (hother : ∀ type id v, c.operation ≠ .setVote type id v) : VotesExact (s.step c) rs := by
  have hvotes := votes_step (s := s) hother
  refine ⟨hvotes ▸ h.rows, fun v hv => ?_, fun type k x hx => ?_⟩
  · rw [hvotes] at hv
    obtain ⟨x, hx, hauthor⟩ := h.others v hv
    have hkept : KeepsVotable (s.votable v.targetType v.targetId)
        ((s.step c).votable v.targetType v.targetId) := votable_step hother
    rcases hkept with hsame | ⟨hnone, -⟩
    · exact ⟨x, hsame.trans hx, hauthor⟩
    · cases hnone.symm.trans hx
  -- a target is kept with its counters, or it is new
  · have hkept : KeepsVotable (s.votable type k) ((s.step c).votable type k) :=
      votable_step hother
    rcases hkept with hsame | ⟨hnone, author, hnew⟩
    · exact h.counted type k x (hsame ▸ hx)
    · -- nobody has voted on what was not there
      have hempty : ∀ v : VoteType, {u | lastWrite rs (u, type, k) = some v}.ncard = 0 := by
        intro v
        have hnobody : {u | lastWrite rs (u, type, k) = some v} = ∅ := by
          refine Set.eq_empty_iff_forall_notMem.mpr fun u hu => ?_
          have hrow : (s.votes.get? (u, type, k)).map (·.voteType) = some v := (h.rows _).trans hu
          obtain ⟨r, hr, -⟩ := Option.map_eq_some_iff.mp hrow
          obtain ⟨hmem, hkey⟩ := Table.get?_eq_some.mp hr
          obtain ⟨x, hx, -⟩ := h.others r hmem
          simp only [Prod.mk.injEq] at hkey
          rw [hkey.2.1, hkey.2.2, hnone] at hx
          cases hx
        rw [hnobody, Set.ncard_empty]
      obtain rfl := Option.some.inj (hnew.symm.trans hx)
      exact ⟨(hempty .upvote).symm, (hempty .downvote).symm⟩

/-! ## Votes

A vote writes its own row and the counters of its target. -/

namespace VotesService

def Target.votable : Target → Votable
  | .discussion p => p.votable
  | .comment _ m => m.votable
  | .answer _ a => a.votable

theorem Target.votable_authorId (t : Target) : t.votable.authorId = t.authorId := by
  cases t <;> rfl

/-- The row of the target is there. -/
inductive Target.At (s : Db) : TargetType → Id → Target → Prop where
  | discussion {k : Id} {p : Discussion} (h : s.discussions.get? k = some p) :
    At s .discussion k (.discussion p)
  | comment {k : Id} {m : Comment} (p : Discussion) (h : s.comments.get? k = some m) :
    At s .comment k (.comment p m)
  | answer {k : Id} {a : Answer} (p : Discussion) (h : s.answers.get? k = some a) :
    At s .answer k (.answer p a)

theorem at_of_lockTarget {t : Target} (h : lockTarget s type k = .ok t) : t.At s type k := by
  cases type with
  | discussion =>
    simp only [lockTarget, bind_eq_ok, lockPost_eq_ok, pure_eq_ok] at h
    obtain ⟨p, hp, rfl⟩ := h
    exact .discussion (Option.filter_eq_some_iff.mp hp).1
  | comment =>
    simp only [lockTarget, bind_eq_ok, pure_eq_ok] at h
    obtain ⟨⟨p, m⟩, hlock, rfl⟩ := h
    exact .comment p (Option.filter_eq_some_iff.mp (lockCommentPost_eq_ok.mp hlock).1).1
  | answer =>
    simp only [lockTarget, bind_eq_ok, lockPost_eq_ok, orThrow_eq_ok, pure_eq_ok] at h
    obtain ⟨a, -, p, -, a', ha', rfl⟩ := h
    exact .answer p (Option.filter_eq_some_iff.mp ha').1

/-- The target that is locked is the one that is counted. -/
theorem Target.At.votable {t : Target} (h : t.At s type k) :
    s.votable type k = some t.votable := by
  cases h with
  | discussion h => exact congrArg (Option.map Discussion.votable) h
  | comment p h => exact congrArg (Option.map Comment.votable) h
  | answer p h => exact congrArg (Option.map Answer.votable) h

/-- A target is counted anew, and no other. -/
theorem Target.At.votable_saveCounts {t : Target} (h : t.At s type k) (up down : Nat)
    (type' : TargetType) (k' : Id) : (t.saveCounts s up down).votable type' k'
      = if type' = type ∧ k' = k then some ⟨t.authorId, up, down⟩ else s.votable type' k' := by
  -- the three tables of targets, alike
  have hsaved : ∀ {ρ : Type} {key : ρ → Id} {rows : Table Id ρ key} {f : ρ → Votable} {r r₀ : ρ},
      rows.get? k = some r₀ → key r = key r₀ → ((rows.save r).get? k').map f
        = if k' = k then some (f r) else (rows.get? k').map f := by
    intro ρ key rows f r r₀ h hid
    have hkey : key r = k := hid.trans (Table.get?_eq_some.mp h).2
    rw [Table.get?_save, hkey]
    by_cases hk : k' = k
    · rw [hk, if_pos rfl, if_pos rfl, h]
      rfl
    · rw [if_neg (Ne.symm hk), if_neg hk]
  cases h with
  | @discussion _ p h =>
    cases type' with
    | discussion =>
      refine (hsaved (r := { p with upvoteCount := up, downvoteCount := down })
        (f := Discussion.votable) h rfl).trans ?_
      simp only [true_and]
      rfl
    | comment | answer => rfl
  | @comment _ m p h =>
    cases type' with
    | comment =>
      refine (hsaved (r := { m with upvoteCount := up, downvoteCount := down })
        (f := Comment.votable) h rfl).trans ?_
      simp only [true_and]
      rfl
    | discussion | answer => rfl
  | @answer _ a p h =>
    cases type' with
    | answer =>
      refine (hsaved (r := { a with upvoteCount := up, downvoteCount := down })
        (f := Answer.votable) h rfl).trans ?_
      simp only [true_and]
      rfl
    | discussion | comment => rfl

/-- What a request that succeeds has found, and what it leaves. -/
theorem setVoteTx_eq_ok {id : UuidText} {user : GatewayUser} {v : Option VoteType}
    {r : VoteResult} (h : setVoteTx s type id user v = .ok (s', r)) :
    ∃ u, ∃ t : Target, user.id = some u ∧ t.At (writeVote s u type id.id v) type id.id ∧ t.authorId ≠ u
      ∧ s' = t.saveCounts (writeVote s u type id.id v)
        (count (writeVote s u type id.id v) type id.id .upvote)
        (count (writeVote s u type id.id v) type id.id .downvote) := by
  simp only [setVoteTx, bind_eq_ok, authenticated_eq_ok, require_eq_ok, pure_eq_ok,
    Prod.mk.injEq] at h
  obtain ⟨u, huser, t, hlock, -, -, -, -, -, -, -, hauthor, rfl, -⟩ := h
  have hwritten : lockTarget (writeVote s u type id.id v) type id.id = lockTarget s type id.id := by
    cases v <;> cases type <;> rfl
  exact ⟨u, t, huser, at_of_lockTarget (hwritten.trans hlock), hauthor, rfl⟩

/-- The row of a vote is not a counter. -/
theorem votable_writeVote (s : Db) (u : Id) (type' : TargetType) (k' : Id) (v : Option VoteType)
    (type : TargetType) (k : Id) :
    (writeVote s u type' k' v).votable type k = s.votable type k := by
  cases v <;> rfl

/-- The votes of a state in which a request is written. -/
theorem maps_writeVote {rs : List (VoteKey × Option VoteType)}
    (h : s.votes.Maps (·.voteType) (lastWrite rs)) (u : Id) (v : Option VoteType) :
    (writeVote s u type k v).votes.Maps (·.voteType) (lastWrite (rs ++ [((u, type, k), v)])) := by
  cases v with
  | none => exact h.erase (u, type, k)
  | some v => exact h.upsert ⟨u, type, k, v⟩

/-- A request moves the count of each kind by the difference of the vote requested and the vote there was. -/
theorem count_writeVote (s : Db) (u : Id) (v : Option VoteType) (x : VoteType) :
    count (writeVote s u type k v) type k x
        + (if (s.votes.get? (u, type, k)).map (·.voteType) = some x then 1 else 0)
      = count s type k x + (if v = some x then 1 else 0) := by
  have hold : (s.votes.get? (u, type, k)).elim 0 (fun r =>
      if decide (r.targetType = type ∧ r.targetId = k ∧ r.voteType = x) then 1 else 0)
        = if (s.votes.get? (u, type, k)).map (·.voteType) = some x then 1 else 0 := by
    cases h : s.votes.get? (u, type, k) with
    | none => rfl
    | some r =>
      have hkey := (Table.get?_eq_some.mp h).2
      simp only [Prod.mk.injEq] at hkey
      simp [hkey.2.1, hkey.2.2]
  simp only [count, Table.select, ← List.countP_eq_length_filter]
  cases v with
  | none =>
    have hmoved := s.votes.countP_erase_key (u, type, k)
      fun r => decide (r.targetType = type ∧ r.targetId = k ∧ r.voteType = x)
    rw [hold] at hmoved
    exact hmoved
  | some v =>
    have hmoved := s.votes.countP_upsert ⟨u, type, k, v⟩
      fun r => decide (r.targetType = type ∧ r.targetId = k ∧ r.voteType = x)
    rw [hold] at hmoved
    exact hmoved.trans (by simp)

/-- After a request the user has the vote that was requested. -/
theorem get?_writeVote (s : Db) (u : Id) (v : Option VoteType) :
    ((writeVote s u type k v).votes.get? (u, type, k)).map (·.voteType) = v := by
  cases v with
  | none =>
    show ((s.votes.erase _).get? (u, type, k)).map _ = none
    rw [Table.get?_erase]
    cases h : s.votes.get? (u, type, k) with
    | none => rfl
    | some r =>
      have hkey := (Table.get?_eq_some.mp h).2
      rw [Option.filter_some, hkey]
      simp
  | some v =>
    show ((s.votes.upsert ⟨u, type, k, v⟩).get? (u, type, k)).map _ = some v
    rw [Table.get?_upsert, if_pos rfl]
    rfl

/-- The votes afterwards are the old ones and the new one. -/
theorem mem_writeVote {u : Id} {v : Option VoteType} {y : Vote}
    (hy : y ∈ (writeVote s u type k v).votes) :
    (y.userId, y.targetType, y.targetId) = (u, type, k) ∨ y ∈ s.votes := by
  cases v with
  | none => exact .inr (Table.mem_erase.mp hy).1
  | some v =>
    rcases Table.mem_insert.mp hy with hy | ⟨rfl, -⟩
    · rcases Table.eq_or_mem_of_mem_save hy with rfl | hy
      · exact .inl rfl
      · exact .inr hy
    · exact .inl rfl

end VotesService

/-- A request fails and leaves the state alone, or succeeds and is recorded. -/
theorem voteRequest_cases (s : Db) (w : World) (user : GatewayUser) (type : TargetType)
    (id : UuidText) (v : Option VoteType) :
    (voteRequest s ⟨w, user, .setVote type id v⟩ = none
        ∧ s.step ⟨w, user, .setVote type id v⟩ = s)
      ∨ ∃ u, ∃ t : Target, user.id = some u
        ∧ voteRequest s ⟨w, user, .setVote type id v⟩ = some ((u, type, id.id), v)
        ∧ t.At (writeVote s u type id.id v) type id.id ∧ t.authorId ≠ u
        ∧ s.step ⟨w, user, .setVote type id v⟩ = t.saveCounts (writeVote s u type id.id v)
          (count (writeVote s u type id.id v) type id.id .upvote)
          (count (writeVote s u type id.id v) type id.id .downvote) := by
  cases htx : setVoteTx s type id user v with
  | error e =>
    refine .inl ⟨?_, ?_⟩
    · cases huser : user.id with
      | none => simp only [voteRequest, huser]
      | some u =>
        simp only [voteRequest, huser, serve, Operation.serve, setVote, htx, commit_error]
        rfl
    · simp only [Db.step, serve, Operation.serve, setVote, htx, commit_error, Outcome.map_state]
  | ok done =>
    obtain ⟨s', r⟩ := done
    obtain ⟨u, t, huser, hat, hauthor, rfl⟩ := setVoteTx_eq_ok htx
    refine .inr ⟨u, t, huser, ?_, hat, hauthor, ?_⟩
    · simp only [voteRequest, huser, serve, Operation.serve, setVote, htx, commit_ok]
      rfl
    · simp only [Db.step, serve, Operation.serve, setVote, htx, commit_ok, Outcome.map_state]

/-- A request keeps the votes exact. -/
theorem VotesExact.step_vote {rs : List (VoteKey × Option VoteType)} (h : VotesExact s rs)
    {w : World} {user : GatewayUser} {id : UuidText} {v : Option VoteType} :
    VotesExact (s.step ⟨w, user, .setVote type id v⟩)
      (rs ++ (voteRequest s ⟨w, user, .setVote type id v⟩).toList) := by
  rcases voteRequest_cases s w user type id v with
    ⟨hfails, hstate⟩ | ⟨u, t, huser, hrequest, hat, hauthor, hstate⟩
  · rw [hstate, hfails, Option.toList_none, List.append_nil]
    exact h
  · rw [hstate, hrequest, Option.toList_some]
    have hrows : (writeVote s u type id.id v).votes.Maps (·.voteType)
        (lastWrite (rs ++ [((u, type, id.id), v)])) := maps_writeVote h.rows u v
    have hvotes : ∀ up down, (t.saveCounts (writeVote s u type id.id v) up down).votes
        = (writeVote s u type id.id v).votes := by
      intro up down
      cases t <;> rfl
    have hvotable := hat.votable_saveCounts
      (count (writeVote s u type id.id v) type id.id .upvote)
      (count (writeVote s u type id.id v) type id.id .downvote)
    simp only [votable_writeVote] at hvotable
    refine ⟨(hvotes _ _).symm ▸ hrows, fun y hy => ?_, fun type' k' x hx => ?_⟩
    · rw [hvotes] at hy
      rcases mem_writeVote hy with hkey | hy
      · simp only [Prod.mk.injEq] at hkey
        rw [hvotable, if_pos ⟨hkey.2.1, hkey.2.2⟩, hkey.1]
        exact ⟨_, rfl, hauthor⟩
      · obtain ⟨x, hx, hother⟩ := h.others y hy
        rw [hvotable]
        split
        · next htarget =>
          -- the target of the request, by the same author
          have hfound := hat.votable
          rw [votable_writeVote, ← htarget.1, ← htarget.2, hx] at hfound
          obtain rfl := Option.some.inj hfound
          rw [t.votable_authorId] at hother
          exact ⟨_, rfl, hother⟩
        · exact ⟨x, hx, hother⟩
    · rw [hvotable] at hx
      split at hx
      · next htarget =>
        obtain rfl := Option.some.inj hx
        rw [htarget.1, htarget.2]
        exact ⟨count_eq_ncard hrows .upvote, count_eq_ncard hrows .downvote⟩
      · next hother =>
        have hsame : ∀ u', lastWrite (rs ++ [((u, type, id.id), v)]) (u', type', k')
            = lastWrite rs (u', type', k') := by
          intro u'
          rw [lastWrite_append_singleton, if_neg]
          rintro he
          simp only [Prod.mk.injEq] at he
          exact hother ⟨he.2.1.symm, he.2.2.symm⟩
        simp only [hsame]
        exact h.counted type' k' x hx

/-! ## Runs

After a run the vote of each user for each target is the one that was asked for last, and the counters are the numbers
of the votes. -/

def Operation.isVote : Operation → Bool
  | .setVote .. => true
  | _ => false

/-- A call keeps the votes exact, with its own request added. -/
theorem VotesExact.step {rs : List (VoteKey × Option VoteType)} (h : VotesExact s rs) (c : Call) :
    VotesExact (s.step c) (rs ++ (voteRequest s c).toList) := by
  obtain ⟨w, user, o⟩ := c
  cases o with
  | setVote type id v => exact h.step_vote
  | _ =>
    rw [voteRequest, Option.toList_none, List.append_nil]
    exact h.step_other fun _ _ _ hop => (by cases hop)

theorem votesExact_empty : VotesExact Db.empty [] where
  rows := .empty
  others v hv := absurd hv (Table.not_mem_empty v)
  counted type k x hx := by cases type <;> cases hx

/-- In every reachable state the votes are the map of the requests so far. -/
theorem votesExact_run (calls : List Call) :
    VotesExact (Db.after calls) (voteRequests Db.empty calls) :=
  run_record_invariant (Q := VotesExact) (fun _ _ c h => h.step c) votesExact_empty calls

/-! ## Repeated requests

A request that is repeated changes nothing the second time. -/

/-- To save the counters that are there changes nothing. -/
theorem VotesService.Target.At.saveCounts_self {t : Target} (h : t.At s type k) :
    t.saveCounts s t.votable.upvoteCount t.votable.downvoteCount = s := by
  cases h with
  | @discussion _ p h =>
    have hrow : s.discussions.get? p.id = some p := by rw [(Table.get?_eq_some.mp h).2, h]
    show { s with discussions := s.discussions.save p } = s
    rw [Serial.save_eq_self hrow]
  | @comment _ m p h =>
    have hrow : s.comments.get? m.id = some m := by rw [(Table.get?_eq_some.mp h).2, h]
    show { s with comments := s.comments.save m } = s
    rw [Serial.save_eq_self hrow]
  | @answer _ a p h =>
    have hrow : s.answers.get? a.id = some a := by rw [(Table.get?_eq_some.mp h).2, h]
    show { s with answers := s.answers.save a } = s
    rw [Serial.save_eq_self hrow]

/-- To write the vote that is there changes nothing. -/
theorem writeVote_self {u : Id} {v : Option VoteType}
    (h : (s.votes.get? (u, type, k)).map (·.voteType) = v) : writeVote s u type k v = s := by
  cases v with
  | none =>
    have hnone : s.votes.get? (u, type, k) = none := Option.map_eq_none_iff.mp h
    have hrows : (s.votes.erase fun v => decide ((v.userId, v.targetType, v.targetId) = (u, type, k)))
        = s.votes := by
      refine Table.ext (List.filter_eq_self.mpr fun r hr => ?_)
      have hne := Table.get?_eq_none.mp hnone r hr
      show (!decide ((r.userId, r.targetType, r.targetId) = (u, type, k))) = true
      rw [decide_eq_false hne, Bool.not_false]
    show { s with votes := _ } = s
    rw [hrows]
  | some v =>
    obtain ⟨r, hr, hv⟩ := Option.map_eq_some_iff.mp h
    have hrow : r = ⟨u, type, k, v⟩ := by
      have hkey := (Table.get?_eq_some.mp hr).2
      simp only [Prod.mk.injEq] at hkey
      rw [← hkey.1, ← hkey.2.1, ← hkey.2.2, ← hv]
    rw [hrow] at hr
    show { s with votes := s.votes.upsert ⟨u, type, k, v⟩ } = s
    rw [Table.upsert_eq_self hr]

/-- A request for the vote that there is changes nothing. -/
theorem VotesExact.step_self {rs : List (VoteKey × Option VoteType)} (h : VotesExact s rs)
    {w : World} {user : GatewayUser} {id : UuidText} {v : Option VoteType} {u : Id}
    (huser : user.id = some u) (hlast : lastWrite rs (u, type, id.id) = v) :
    s.step ⟨w, user, .setVote type id v⟩ = s := by
  rcases voteRequest_cases s w user type id v with
    ⟨-, hstate⟩ | ⟨u', t, huser', -, hat, -, hstate⟩
  · exact hstate
  · obtain rfl : u = u' := Option.some.inj (huser.symm.trans huser')
    rw [writeVote_self ((h.rows _).trans hlast)] at hat hstate
    have hcounted := h.counted _ _ _ hat.votable
    rw [count_eq_ncard h.rows, count_eq_ncard h.rows, ← hcounted.1, ← hcounted.2,
      hat.saveCounts_self] at hstate
    exact hstate

/-- Repeating a request changes nothing. -/
theorem VotesExact.step_again {rs : List (VoteKey × Option VoteType)} (h : VotesExact s rs)
    {c c' : Call} (hvote : c.operation.isVote = true) (huser : c'.user = c.user)
    (hop : c'.operation = c.operation) : (s.step c).step c' = s.step c := by
  obtain ⟨w, user, o⟩ := c
  obtain ⟨w', user', o'⟩ := c'
  obtain rfl : user' = user := huser
  obtain rfl : o' = o := hop
  cases o' with
  | setVote type id v =>
    rcases voteRequest_cases s w user' type id v with
      ⟨-, hstate⟩ | ⟨u, t, huser, hrequest, -, -, -⟩
    · -- the call does not look at the world
      rw [hstate]
      exact hstate
    · have hnext : VotesExact (s.step ⟨w, user', .setVote type id v⟩)
          (rs ++ (voteRequest s ⟨w, user', .setVote type id v⟩).toList) := h.step_vote
      refine hnext.step_self huser ?_
      rw [hrequest, Option.toList_some, lastWrite_append_singleton, if_pos rfl]
  | _ => cases hvote

/-! ## Exchanged requests

Requests of different users, or for different targets, may be exchanged. -/

def Discussion.uncounted (p : Discussion) : Discussion :=
  { p with upvoteCount := 0, downvoteCount := 0 }

def Comment.uncounted (m : Comment) : Comment := { m with upvoteCount := 0, downvoteCount := 0 }

def Answer.uncounted (a : Answer) : Answer := { a with upvoteCount := 0, downvoteCount := 0 }

/-- The store without the votes and their counters. -/
def Db.uncounted (s : Db) : Db :=
  { s with
    discussions := s.discussions.modify Discussion.uncounted fun _ => rfl
    comments := s.comments.modify Comment.uncounted fun _ => rfl
    answers := s.answers.modify Answer.uncounted fun _ => rfl
    votes := ∅ }

/-- A vote writes counters only. -/
theorem VotesService.Target.At.uncounted {t : Target} (h : t.At s type k) (up down : Nat) :
    (t.saveCounts s up down).uncounted = s.uncounted := by
  have hsaved : ∀ {ρ : Type} {key : ρ → Id} {rows : Serial ρ key} {f : ρ → ρ}
      (hf : ∀ r, key (f r) = key r) {r r₀ : ρ}, rows.get? k = some r₀ → key r = key r₀ →
      f r = f r₀ → (rows.save r).modify f hf = rows.modify f hf := by
    intro ρ key rows f hf r r₀ h hid hfr
    refine Serial.ext (Table.modify_save hf ?_ hfr) rfl
    rw [hid, (Table.get?_eq_some.mp h).2]
    exact h
  cases h with
  | @discussion _ p h =>
    have hrows := hsaved (f := Discussion.uncounted) (fun _ => rfl)
      (r := { p with upvoteCount := up, downvoteCount := down }) h rfl rfl
    simp only [Target.saveCounts, Db.savePost, Db.uncounted, hrows]
  | @comment _ m p h =>
    have hrows := hsaved (f := Comment.uncounted) (fun _ => rfl)
      (r := { m with upvoteCount := up, downvoteCount := down }) h rfl rfl
    simp only [Target.saveCounts, Db.saveComment, Db.uncounted, hrows]
  | @answer _ a p h =>
    have hrows := hsaved (f := Answer.uncounted) (fun _ => rfl)
      (r := { a with upvoteCount := up, downvoteCount := down }) h rfl rfl
    simp only [Target.saveCounts, Db.saveAnswer, Db.uncounted, hrows]

/-- A request writes votes and their counters only. -/
theorem uncounted_step (hvote : c.operation.isVote = true) : (s.step c).uncounted = s.uncounted := by
  obtain ⟨w, user, o⟩ := c
  cases o with
  | setVote type id v =>
    rcases voteRequest_cases s w user type id v with ⟨-, hstate⟩ | ⟨u, t, -, -, hat, -, hstate⟩
    · rw [hstate]
    · rw [hstate, hat.uncounted]
      cases v <;> rfl
  | _ => cases hvote

/-- The checks of a request do not look at the votes nor at the counters. -/
theorem setVoteTx_uncounted (s : Db) (type : TargetType) (id : UuidText) (user : GatewayUser)
    (v : Option VoteType) :
    Related (fun _ _ => True) (setVoteTx s type id user v) (setVoteTx s.uncounted type id user v) := by
  -- the rows without their counters are found where the rows are
  have hget : ∀ {ρ : Type} {key : ρ → Id} {rows : Serial ρ key} {f : ρ → ρ}
      (hf : ∀ r, key (f r) = key r) (k : Id),
      Option.Rel (fun r r' => r' = f r) (rows.get? k) ((rows.modify f hf).get? k) := by
    intro ρ key rows f hf k
    rw [Serial.modify_toTable, Table.get?_modify]
    cases rows.get? k with
    | none => exact .none
    | some r => exact .some rfl
  have hpost : ∀ k, Option.Rel (fun p p' => p' = p.uncounted) (s.post? k) (s.uncounted.post? k) :=
    fun k => filter_congr (hget (f := Discussion.uncounted) (fun _ => rfl) k) fun p p' hp => by
      rw [hp]; rfl
  have hcomment : ∀ k, Option.Rel (fun m m' => m' = m.uncounted) (s.comment? k)
      (s.uncounted.comment? k) :=
    fun k => filter_congr (hget (f := Comment.uncounted) (fun _ => rfl) k) fun m m' hm => by
      rw [hm]; rfl
  have hanswer : ∀ k, Option.Rel (fun a a' => a' = a.uncounted) (s.answer? k)
      (s.uncounted.answer? k) :=
    fun k => filter_congr (hget (f := Answer.uncounted) (fun _ => rfl) k) fun a a' ha => by
      rw [ha]; rfl
  -- the target and its post, for each type of target
  have hlock : Related (fun t t' => t'.post = t.post.uncounted ∧ t'.authorId = t.authorId)
      (lockTarget s type id.id) (lockTarget s.uncounted type id.id) := by
    cases type with
    | discussion =>
      refine .orThrow_bind (hpost id.id) fun p p' _ _ hp => .ok ?_
      rw [hp]
      exact ⟨rfl, rfl⟩
    | comment =>
      refine .bind (R := fun x y => y.1 = x.1.uncounted ∧ y.2 = x.2.uncounted) ?_ ?_
      · refine .orThrow_bind (hcomment id.id) fun m m' _ _ hm => ?_
        have hd : m'.discussionId = m.discussionId := by rw [hm]; rfl
        rw [hd]
        refine .orThrow_bind (hpost m.discussionId) fun p p' _ _ hp => ?_
        exact .orThrow_bind (hcomment id.id) fun n n' _ _ hn => .ok ⟨hp, hn⟩
      · rintro ⟨p, m⟩ ⟨p', m'⟩ ⟨hp, hm⟩
        refine .ok ⟨hp, ?_⟩
        have hm : m' = m.uncounted := hm
        rw [hm]
        rfl
    | answer =>
      refine .orThrow_bind (hanswer id.id) fun a a' _ _ ha => ?_
      have hd : a'.discussionId = a.discussionId := by rw [ha]; rfl
      rw [hd]
      refine .orThrow_bind (hpost a.discussionId) fun p p' _ _ hp => ?_
      refine .orThrow_bind (hanswer id.id) fun b b' _ _ hb => .ok ⟨hp, ?_⟩
      rw [hb]
      rfl
  refine .bind_same rfl fun u _ => .bind hlock fun t t' ht => ?_
  refine .bind_same (by rw [ht.1]; rfl) fun _ _ => .bind_same (by rw [ht.1]; rfl) fun _ _ => ?_
  refine .bind_same (by rw [ht.1]; rfl) fun _ _ => .require_bind (by rw [ht.2]) fun _ => ?_
  exact .ok trivial

/-- A request succeeds in two states that differ in votes and counters only, or in none. -/
theorem voteRequest_congr (hvote : c.operation.isVote = true) (h : s'.uncounted = s.uncounted) :
    voteRequest s' c = voteRequest s c := by
  obtain ⟨w, user, o⟩ := c
  cases o with
  | setVote type id v =>
    have hok : ∀ s : Db, (serve s ⟨w, user, .setVote type id v⟩).result.isOk
        = (setVoteTx s.uncounted type id user v).isOk := by
      intro s
      simp only [serve, Operation.serve, setVote]
      rcases (setVoteTx_uncounted s type id user v).elim with ⟨e, hx, hy⟩ | ⟨a, b, hx, hy, -⟩
      · rw [hx, hy]
        rfl
      · rw [hx, hy]
        rfl
    unfold voteRequest
    rw [hok s, hok s', h]
  | _ => cases hvote

/-- What a list of requests records is decided in the state before. -/
theorem voteRequests_eq_filterMap {votes : List Call}
    (hvotes : ∀ c ∈ votes, c.operation.isVote = true) :
    voteRequests s votes = votes.filterMap (voteRequest s) := by
  have hrecord : ∀ s' : Db, s'.uncounted = s.uncounted →
      voteRequests s' votes = votes.filterMap (voteRequest s) := by
    induction votes with
    | nil => exact fun _ _ => rfl
    | cons c cs ih =>
      intro s' hs'
      have hc := hvotes c List.mem_cons_self
      have hrest := ih (fun c' hc' => hvotes c' (List.mem_cons_of_mem c hc')) (s'.step c)
        ((uncounted_step hc).trans hs')
      show (voteRequest s' c).toList ++ voteRequests (s'.step c) cs = _
      rw [hrest, voteRequest_congr hc hs']
      cases hr : voteRequest s c with
      | none => rw [List.filterMap_cons_none hr, Option.toList_none, List.nil_append]
      | some r =>
        rw [List.filterMap_cons_some hr, Option.toList_some, List.singleton_append]
  exact hrecord s rfl

/-- Votes write counters only, in every number. -/
theorem uncounted_run {votes : List Call} (hvotes : ∀ c ∈ votes, c.operation.isVote = true) :
    (run Db.step s votes).uncounted = s.uncounted := by
  induction votes generalizing s with
  | nil => rfl
  | cons c cs ih =>
    rw [run_cons, ih fun c' hc' => hvotes c' (List.mem_cons_of_mem c hc')]
    exact uncounted_step (hvotes c List.mem_cons_self)

/-- The same rows, and the same counters of every target. -/
structure SameVotes (s s' : Db) : Prop where
  rows : ∀ k, s'.votes.get? k = s.votes.get? k
  counters : ∀ type k x x', s.votable type k = some x → s'.votable type k = some x' →
    x'.upvoteCount = x.upvoteCount ∧ x'.downvoteCount = x.downvoteCount

/-- The votes and the counters are those of the last requests. -/
theorem VotesExact.sameVotes {rs rs' : List (VoteKey × Option VoteType)} (h : VotesExact s rs)
    (h' : VotesExact s' rs') (he : lastWrite rs' = lastWrite rs) : SameVotes s s' := by
  have hrow : ∀ r r' : Vote, (r.userId, r.targetType, r.targetId)
      = (r'.userId, r'.targetType, r'.targetId) → r.voteType = r'.voteType → r = r' := by
    rintro ⟨_, _, _, _⟩ ⟨_, _, _, _⟩ hkey hv
    simp only [Prod.mk.injEq] at hkey
    obtain ⟨rfl, rfl, rfl⟩ := hkey
    obtain rfl := hv
    rfl
  refine ⟨Table.Maps.get?_eq hrow h.rows (he ▸ h'.rows), fun type k x x' hx hx' => ?_⟩
  have hcounted := h.counted type k x hx
  have hcounted' := h'.counted type k x' hx'
  rw [he] at hcounted'
  exact ⟨hcounted'.1.trans hcounted.1.symm, hcounted'.2.trans hcounted.2.symm⟩

/-- The requests of each user, in their order, decide what is left. -/
theorem lastWrite_eq_of_users {rs rs' : List (VoteKey × Option VoteType)}
    (h : ∀ u : Id, (rs'.filter fun r => decide (r.1.1 = u)) = rs.filter fun r => decide (r.1.1 = u)) :
    lastWrite rs' = lastWrite rs :=
  lastWrite_eq_of_groups Prod.fst h

/-- The requests that a user makes are recorded for this user. -/
theorem voteRequest_user {r : VoteKey × Option VoteType} (h : voteRequest s c = some r) :
    c.user.id = some r.1.1 := by
  unfold voteRequest at h
  split at h
  · next huser =>
    split at h
    · obtain rfl := Option.some.inj h
      exact huser
    · cases h
  · cases h

/-- Lists of requests in which each user makes the same ones in the same order. -/
theorem sameVotes_of_exchanged {rs : List (VoteKey × Option VoteType)} (h : VotesExact s rs)
    {votes votes' : List Call} (hvotes : ∀ c ∈ votes, c.operation.isVote = true)
    (husers : ∀ u, (votes'.filter fun c => decide (c.user.id = u))
      = votes.filter fun c => decide (c.user.id = u)) :
    SameVotes (run Db.step s votes) (run Db.step s votes')
      ∧ (run Db.step s votes').uncounted = (run Db.step s votes).uncounted := by
  -- the other list has votes only: each of its calls is one of its user's in the first
  have hvotes' : ∀ c ∈ votes', c.operation.isVote = true := by
    intro c hc
    have hmem : c ∈ votes'.filter fun c' => decide (c'.user.id = c.user.id) :=
      List.mem_filter.mpr ⟨hc, decide_eq_true rfl⟩
    rw [husers] at hmem
    exact hvotes c (List.mem_filter.mp hmem).1
  have hrun : ∀ votes : List Call, VotesExact (run Db.step s votes) (rs ++ voteRequests s votes) :=
    run_record_invariant (Q := VotesExact) (fun _ _ c h => h.step c) h
  -- the requests of a user come from the calls of this user
  have hrequests : ∀ u : Id, ∀ votes : List Call,
      ((votes.filterMap (voteRequest s)).filter fun r => decide (r.1.1 = u))
        = (votes.filter fun c => decide (c.user.id = some u)).filterMap (voteRequest s) := by
    intro u votes
    rw [List.filter_filterMap, List.filterMap_filter]
    refine List.filterMap_congr fun c _ => ?_
    cases hr : voteRequest s c with
    | none => simp
    | some r =>
      have huser := voteRequest_user hr
      by_cases hu : r.1.1 = u
      · simp [Option.filter, huser, hu]
      · simp [Option.filter, huser, hu]
  refine ⟨(hrun votes).sameVotes (hrun votes') (lastWrite_eq_of_users fun u => ?_), ?_⟩
  · rw [List.filter_append, List.filter_append, voteRequests_eq_filterMap hvotes,
      voteRequests_eq_filterMap hvotes', hrequests, hrequests, husers]
  · rw [uncounted_run hvotes, uncounted_run hvotes']

/-- Votes are a last-write-wins map with exact tallies. After every run the rows are the map of the
requests that succeeded, none by the author of its target, and the counters are the sizes of its
parts; repeating a request changes nothing; and exchanging requests of different users changes
neither rows nor counters, be it in a series of requests or between whole runs. -/
theorem votes_lastWriteWins (calls : List Call) :
    VotesExact (Db.after calls) (voteRequests Db.empty calls)
    ∧ (∀ c c' : Call, c.operation.isVote = true → c'.user = c.user → c'.operation = c.operation →
      ((Db.after calls).step c).step c' = (Db.after calls).step c)
    ∧ (∀ votes votes' : List Call, (∀ c ∈ votes, c.operation.isVote = true) →
      (∀ u, (votes'.filter fun c => decide (c.user.id = u))
        = votes.filter fun c => decide (c.user.id = u)) →
      SameVotes (run Db.step (Db.after calls) votes) (run Db.step (Db.after calls) votes')
        ∧ (run Db.step (Db.after calls) votes').uncounted
          = (run Db.step (Db.after calls) votes).uncounted)
    ∧ ∀ calls' : List Call,
      (∀ u : Id, ((voteRequests Db.empty calls').filter fun r => decide (r.1.1 = u))
        = (voteRequests Db.empty calls).filter fun r => decide (r.1.1 = u)) →
      SameVotes (Db.after calls) (Db.after calls') := by
  have hexact := votesExact_run calls
  refine ⟨hexact, fun c c' hvote huser hop => hexact.step_again hvote huser hop,
    fun votes votes' hvotes husers => sameVotes_of_exchanged hexact hvotes husers,
    fun calls' husers => hexact.sameVotes (votesExact_run calls') (lastWrite_eq_of_users husers)⟩

namespace Sample

/-- A student votes on the question `0`. -/
def vote (i : Id) (v : Option VoteType) : Call :=
  call 5 (student i) (.setVote .discussion (Id.text 0) v)

end Sample

theorem votes_lastWriteWins_exchanged :
    SameVotes
      (run Db.step (Db.after [Sample.openForum, Sample.ask])
        [Sample.vote 2 (some .upvote), Sample.vote 3 (some .downvote), Sample.vote 2 none])
      (run Db.step (Db.after [Sample.openForum, Sample.ask])
        [Sample.vote 2 (some .upvote), Sample.vote 2 none, Sample.vote 3 (some .downvote)])
    ∧ ((Db.after [Sample.openForum, Sample.ask]).step (Sample.vote 3 (some .downvote))).votes.rows
      = [⟨3, .discussion, 0, .downvote⟩] := by
  refine ⟨((votes_lastWriteWins [Sample.openForum, Sample.ask]).2.2.1 _ _ (by decide) fun u => ?_).1,
    by decide⟩
  by_cases hu : u = some 2
  · rw [hu]
    rfl
  · have hother : ∀ v, decide ((Sample.vote 2 v).user.id = u) = false :=
      fun v => decide_eq_false fun he => hu he.symm
    simp only [List.filter, hother]

end AcaSocial
