import AcaSocial.Discussion.ThreadRefinement

/-!
# Closed posts

A closed post is meant to stay as it is until a moderator opens it again. All mutations of a
thread check this, but one: the withdrawal of the accepted answer.

* **`LeavesClosed`** — the call is none of those that may change a closed post.
* **`FrozenFrom`** — the post and what hangs on it are as in an earlier state.
* **`Reopens`** — the withdrawal of the accepted answer goes through on the post.
* **`frozen_iff`** — that is exactly what thaws a closed post, in any run.
-/

namespace AcaSocial

/-- The call is not a moderator's `setStatus` of the post `i`, not its deletion or review, and not
about tags. -/
def LeavesClosed (i : Id) (c : Call) : Prop :=
  match c.operation with
  | .discussions (.setStatus id _) => id.id = i → ¬ c.user.isModerator
  | .discussions (.remove id) => id.id ≠ i
  | .review id _ => id.id ≠ i
  | .tags _ => False
  | _ => True

/-- The call withdraws the accepted answer of the post `i`, which needs no open post. -/
def Reopens (i : Id) (s : Db) (c : Call) : Prop :=
  match c.operation with
  | .answers (.removeAcceptance d) => d.id = i ∧ ∃ p, s.post? i = some p
      ∧ AnswersService.canAccept p c.user ∧ p.acceptedAnswerId.isSome
  | _ => False

/-- The vote target is the post of the thread or hangs on it. -/
def Thread.hasTarget (t : Thread) (i : Id) : TargetType → Id → Bool
  | .discussion, k => decide (k = i)
  | .comment, k => (t.comments.get? k).isSome
  | .answer, k => (t.answers.get? k).isSome

/-- The votes on the post `i` and on its comments and answers. -/
def Content.votesOn (s : Content) (i : Id) : List Vote :=
  s.votes.select fun v => (s.thread i).hasTarget i v.targetType v.targetId

/-- The post `i`, its tags, media, comments, answers, votes and acceptances are in `s` what they
were in `s₀`. Reading a post still counts. -/
structure FrozenFrom (i : Id) (s₀ s : Db) : Prop where
  post : ∀ p₀, s₀.post? i = some p₀ →
    ∃ p, s.post? i = some p ∧ p = { p₀ with viewCount := p.viewCount }
  tags : s.tagIdsOf i = s₀.tagIdsOf i
  media : s.mediaOf i = s₀.mediaOf i
  comments : (s.thread i).comments = (s₀.thread i).comments
  answers : (s.thread i).answers = (s₀.thread i).answers
  acceptances : (s.thread i).acceptances = (s₀.thread i).acceptances
  votes : s.votesOn i = s₀.votesOn i

namespace FrozenFrom

variable {i : Id} {s₀ s₁ s₂ : Db}

/-- A store is frozen since itself. -/
theorem refl (i : Id) (s : Db) : FrozenFrom i s s where
  post p hp := ⟨p, hp, rfl⟩
  tags := rfl
  media := rfl
  comments := rfl
  answers := rfl
  acceptances := rfl
  votes := rfl

/-- Frozen from here to there, and from there on, is frozen all the way. -/
theorem trans (h₁ : FrozenFrom i s₀ s₁) (h₂ : FrozenFrom i s₁ s₂) : FrozenFrom i s₀ s₂ where
  post p₀ hp₀ := by
    obtain ⟨p₁, hp₁, he₁⟩ := h₁.post p₀ hp₀
    obtain ⟨p₂, hp₂, he₂⟩ := h₂.post p₁ hp₁
    exact ⟨p₂, hp₂, by rw [he₂, he₁]⟩
  tags := h₂.tags.trans h₁.tags
  media := h₂.media.trans h₁.media
  comments := h₂.comments.trans h₁.comments
  answers := h₂.answers.trans h₁.answers
  acceptances := h₂.acceptances.trans h₁.acceptances
  votes := h₂.votes.trans h₁.votes

end FrozenFrom

/-! ## Steps of the thread

Each operation on an answer, a comment or an acceptance of the closed post is turned away by `requireOpen`, with the
exception of `removeAcceptance`. -/

/-- A call that leaves closed posts alone and does not reopen the post at most counts a view. -/
theorem closed_threadStep {s : Db} {c : Call} {i : Id} {t' : Thread} {p : Discussion}
    (h : ThreadStep s c i (s.thread i) t') (hp : (s.thread i).Live p) (hclosed : p.status = .closed)
    (hquiet : LeavesClosed i c) (hsafe : ¬ Reopens i s c) :
    ∃ n, t' = (s.thread i).savePost { p with viewCount := n } := by
  -- whatever passes `requireOpen` is about another post
  have hshut : ∀ {q : Discussion}, (s.thread i).Live q → q.status ≠ .closed →
      ∃ n, t' = (s.thread i).savePost { p with viewCount := n } := by
    intro q hq hopen
    exact absurd (hp.unique hq ▸ hclosed) hopen
  cases h with
  | same => exact ⟨p.viewCount, Thread.ext hp.1 rfl rfl rfl rfl rfl⟩
  | created _ _ hnew => cases hp.1.symm.trans hnew.2
  | viewed _ hq =>
    obtain rfl := hp.unique hq
    exact ⟨p.viewCount + 1, rfl⟩
  | drafted _ hq _ hopen | edited _ hq _ hopen | commentAccepted _ hq _ _ _ hopen
  | acceptedCommentRemoved _ hq _ _ hopen | answerCreated _ hq _ hopen
  | answerUpdated _ hq _ _ hopen | acceptedAnswerUpdated _ hq _ _ hopen
  | answerRemoved _ hq _ _ hopen | acceptedAnswerRemoved _ hq _ _ hopen
  | answerAccepted _ hq _ hopen | commentCreated _ hq _ hopen | commentUpdated _ hq _ hopen
  | acceptedCommentUpdated _ hq _ hopen | commentRemoved _ hq _ hopen | postVoted _ hq hopen
  | commentVoted _ hq _ hopen | answerVoted _ hq _ hopen => exact hshut hq hopen
  -- left to the condition on the call
  | removed hop =>
    simp only [LeavesClosed, hop.1] at hquiet
    exact absurd hop.2 hquiet
  | statusSet hop _ huser =>
    simp only [LeavesClosed, hop.1] at hquiet
    exact absurd huser.2 (hquiet hop.2)
  | reviewed hop =>
    simp only [LeavesClosed, hop.1] at hquiet
    exact absurd hop.2 hquiet
  | tagMerged hop | tagRemoved hop =>
    simp only [LeavesClosed, hop] at hquiet
  -- the one operation on the question that has no `requireOpen`
  | acceptanceRemoved hop hq hcan haccepted =>
    refine absurd ?_ hsafe
    simp only [Reopens, hop.1]
    exact ⟨hop.2, _, post?_iff_live.mpr hq, hcan, haccepted⟩

/-! ## Votes

A vote changes a counter of its target and nothing that is frozen. -/

section Votes

variable {s s' : Db} {i : Id} {p : Discussion} {user : GatewayUser}

open VotesService

/-- A vote that goes through is not on a closed thread. -/
theorem hasTarget_of_lockTarget {type : TargetType} {id : Id} {target : Target}
    (hp : s.post? i = some p) (hclosed : p.status = .closed)
    (hlock : lockTarget s type id = .ok target) (hopen : target.post.status ≠ .closed) :
    (s.thread i).hasTarget i type id = false := by
  have hne : ∀ {k : Id}, s.post? k = some target.post → k ≠ i := by
    rintro k hk rfl
    rw [hp, Option.some.injEq] at hk
    exact hopen (hk ▸ hclosed)
  cases type with
  | discussion =>
    simp only [lockTarget, bind_eq_ok, lockPost_eq_ok, pure_eq_ok] at hlock
    obtain ⟨q, hq, rfl⟩ := hlock
    simpa [Thread.hasTarget] using hne hq
  | comment =>
    simp only [lockTarget, bind_eq_ok, pure_eq_ok] at hlock
    obtain ⟨⟨q, m⟩, hlock, rfl⟩ := hlock
    obtain ⟨hm, hq⟩ := lockCommentPost_eq_ok.mp hlock
    have hget : s.comments.get? id = some m := (Option.filter_eq_some_iff.mp hm).1
    simp [Thread.hasTarget, Content.thread, Table.get?_restrict, hget, Option.filter, hne hq]
  | answer =>
    simp only [lockTarget, bind_eq_ok, lockPost_eq_ok, orThrow_eq_ok, pure_eq_ok] at hlock
    obtain ⟨a, ha, q, hq, _, -, rfl⟩ := hlock
    have hget : s.answers.get? id = some a := (Option.filter_eq_some_iff.mp ha).1
    simp [Thread.hasTarget, Content.thread, Table.get?_restrict, hget, Option.filter, hne hq]

/-- A vote on one target is not seen among the votes on others. -/
theorem select_writeVote {voter : Id} {type : TargetType} {id : Id} {v : Option VoteType}
    {q : TargetType → Id → Bool} (hq : q type id = false) :
    (writeVote s voter type id v).votes.select (fun v => q v.targetType v.targetId)
      = s.votes.select fun v => q v.targetType v.targetId := by
  cases v with
  | some v =>
    refine Table.select_upsert (t := s.votes) (r := ⟨voter, type, id, v⟩) hq fun r _ hk => ?_
    simp only [Prod.mk.injEq] at hk
    rw [hk.2.1, hk.2.2, hq]
  | none =>
    refine Table.select_erase fun r _ hr => ?_
    rw [decide_eq_false_iff_not]
    rintro hk
    simp only [Prod.mk.injEq] at hk
    rw [hk.2.1, hk.2.2, hq] at hr
    cases hr

/-- No call changes the votes on a closed thread. -/
theorem select_votes_step {c : Call} (hp : s.post? i = some p) (hclosed : p.status = .closed) :
    (s.step c).votes.select (fun v => (s.thread i).hasTarget i v.targetType v.targetId)
      = s.votesOn i := by
  by_cases hvote : ∃ type id v, c.operation = .setVote type id v
  · obtain ⟨w, user, o⟩ := c
    obtain ⟨type, id, v, rfl⟩ := hvote
    refine commit_frame (F := fun s' : Db => s'.votes.select
      (fun v => (s.thread i).hasTarget i v.targetType v.targetId)) rfl fun s' r h => ?_
    simp only [setVoteTx, bind_eq_ok, requireOpen_eq_ok, pure_eq_ok, Prod.mk.injEq] at h
    obtain ⟨voter, -, target, hlock, -, hopen, -, -, -, -, -, -, rfl, -⟩ := h
    have hvotes : (target.saveCounts (writeVote s voter type id.id v)
        (count (writeVote s voter type id.id v) type id.id .upvote)
        (count (writeVote s voter type id.id v) type id.id .downvote)).votes
        = (writeVote s voter type id.id v).votes := by
      cases target <;> rfl
    rw [hvotes]
    exact select_writeVote (hasTarget_of_lockTarget hp hclosed hlock hopen)
  · rw [votes_step fun type id v he => hvote ⟨type, id, v, he⟩]
    rfl

end Votes

/-! ## Runs

The steps put together, as long as the acceptance of the closed post is not withdrawn. -/

/-- A call that leaves closed posts alone and does not reopen the post leaves it frozen. -/
theorem frozenFrom_step {s : Db} {c : Call} {i : Id} {p : Discussion} (hp : s.post? i = some p)
    (hclosed : p.status = .closed) (hquiet : LeavesClosed i c) (hsafe : ¬ Reopens i s c) :
    FrozenFrom i s (s.step c) := by
  have hlive := post?_iff_live.mp hp
  have hvotes := select_votes_step (c := c) hp hclosed
  obtain ⟨n, hthread⟩ := closed_threadStep (thread_step s c i) hlive hclosed hquiet hsafe
  refine ⟨fun q hq => ?_, congrArg Thread.tagIds hthread, congrArg Thread.media hthread, ?_, ?_,
    ?_, ?_⟩
  · obtain rfl := Option.some.inj (hp.symm.trans hq)
    refine ⟨{ p with viewCount := n }, ?_, rfl⟩
    rw [post?_iff_live, hthread]
    exact Thread.live_savePost.mpr ⟨rfl, hlive.2⟩
  · rw [hthread]; rfl
  · rw [hthread]; rfl
  · rw [hthread]; rfl
  · rw [← hvotes, Content.votesOn, hthread]
    rfl

/-- The withdrawal of the accepted answer asks for no open post. -/
theorem removeAcceptance_state {w : World} {s : Db} {d : UuidText} {user : GatewayUser} {actor : Id}
    {p : Discussion} (hp : s.post? d.id = some p) (hactor : user.id = some actor)
    (hcan : AnswersService.canAccept p user) :
    (AnswersService.removeAcceptance w s d user).state
      = (AnswersService.revokeAcceptance w s p actor "author_revoked").1 := by
  refine commit_state_of_ok (a := ()) ?_
  simp only [AnswersService.removeAcceptanceTx, bind_eq_ok, authenticated_eq_ok, lockPost_eq_ok,
    require_eq_ok]
  exact ⟨actor, hactor, p, hp, (), hcan, rfl⟩

/-- The withdrawal of the accepted answer opens the post. -/
theorem open_of_reopens {s : Db} {c : Call} {i : Id} (h : Reopens i s c) :
    ∃ p, (s.step c).post? i = some p ∧ p.status = .open := by
  obtain ⟨w, user, o⟩ := c
  unfold Reopens at h
  split at h
  · next d hop =>
    obtain rfl : o = _ := hop
    obtain ⟨rfl, p, hp, hcan, haccepted⟩ := h
    obtain ⟨actor, hactor⟩ := Option.isSome_iff_exists.mp (of_decide_eq_true hcan).1
    have hstep : s.step ⟨w, user, .answers (.removeAcceptance d)⟩
        = (AnswersService.revokeAcceptance w s p actor "author_revoked").1 :=
      removeAcceptance_state hp hactor hcan
    refine ⟨AnswersService.withdrawn p, ?_, rfl⟩
    rw [post?_iff_live, hstep, revokeAcceptance_thread hp, if_pos ⟨rfl, haccepted⟩]
    exact Thread.live_savePost.mpr ⟨rfl, (post?_iff_live.mp hp).2⟩
  · exact h.elim

/-- In a run that leaves closed posts alone, a closed post of a reachable state stays closed, and
all that hangs on it frozen, exactly as long as its accepted answer is not withdrawn. -/
theorem frozen_iff {before calls : List Call} {i : Id} {p : Discussion}
    (hp : (Db.after before).post? i = some p) (hclosed : p.status = .closed)
    (hquiet : ∀ c ∈ calls, LeavesClosed i c) :
    Always Db.step (FrozenFrom i (Db.after before)) (Db.after before) calls
      ↔ Meets Db.step (fun s c => ¬ Reopens i s c) (Db.after before) calls := by
  refine always_iff_meets (fun c hc s hfrozen => ?_) (.refl i _)
  obtain ⟨q, hq, he⟩ := hfrozen.post p hp
  have hqclosed : q.status = .closed := by rw [he]; exact hclosed
  refine ⟨fun hnext hreopens => ?_, fun hsafe =>
    hfrozen.trans (frozenFrom_step hq hqclosed (hquiet c hc) hsafe)⟩
  obtain ⟨q', hq', hopen⟩ := open_of_reopens hreopens
  obtain ⟨q'', hq'', he'⟩ := hnext.post p hp
  obtain rfl := Option.some.inj (hq'.symm.trans hq'')
  rw [he'] at hopen
  cases hclosed.symm.trans hopen

namespace Sample

/-- The administrator closes the post `0`. -/
def close : Call := call 5 administrator (.discussions (.setStatus (Id.text 0) .closed))

/-- The asker withdraws the acceptance. -/
def withdraw : Call := call 6 (student 1) (.answers (.removeAcceptance (Id.text 0)))

/-- A stranger tries to vote and to comment. -/
def disturb : List Call :=
  [call 6 (student 4) (.setVote .discussion (Id.text 0) (some .upvote)),
    call 7 (student 4) (.comments (.create (Id.text 0) { content := "Is this still open?" }))]

end Sample

/-- A run that writes elsewhere and tries to write to a closed post leaves it as it was. -/
theorem frozen_disturbed :
    Always Db.step (FrozenFrom 0 (Db.after [Sample.openForum, Sample.ask, Sample.close]))
      (Db.after [Sample.openForum, Sample.ask, Sample.close]) Sample.disturb := by
  obtain ⟨p, hp, hclosed⟩ : ∃ p, (Db.after [Sample.openForum, Sample.ask, Sample.close]).post? 0
      = some p ∧ p.status = .closed := ⟨_, rfl, rfl⟩
  refine (frozen_iff hp hclosed ?_).mpr ⟨id, id, trivial⟩
  intro c hc
  simp only [Sample.disturb, List.mem_cons, List.not_mem_nil, or_false] at hc
  obtain rfl | rfl := hc <;> trivial

/-- The asker of a closed question withdraws the acceptance, and the question is open. -/
theorem not_frozen_withdrawn : ¬ ∀ before calls i p, (Db.after before).post? i = some p →
    p.status = .closed → (∀ c ∈ calls, LeavesClosed i c) →
    FrozenFrom i (Db.after before) (run Db.step (Db.after before) calls) := by
  intro h
  have hopen : ((run Db.step (Db.after [Sample.openForum, Sample.ask, Sample.answer, Sample.accept,
      Sample.close]) [Sample.withdraw]).post? 0).all fun q => decide (q.status = .open) := by
    decide
  obtain ⟨p, hp, hclosed⟩ : ∃ p, (Db.after [Sample.openForum, Sample.ask, Sample.answer,
      Sample.accept, Sample.close]).post? 0 = some p ∧ p.status = .closed := ⟨_, rfl, rfl⟩
  have hquiet : ∀ c ∈ [Sample.withdraw], LeavesClosed 0 c := by
    intro c hc
    obtain rfl := List.mem_singleton.mp hc
    trivial
  obtain ⟨q, hq, he⟩ := (h _ _ _ _ hp hclosed hquiet).post p hp
  rw [hq, he] at hopen
  cases hclosed.symm.trans (of_decide_eq_true hopen)

end AcaSocial
