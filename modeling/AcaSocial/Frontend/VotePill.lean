import AcaSocial.Discussion.Votes

/-!
# The vote widget

`components/academic/VotePill.tsx` in front of `setVote` of the discussion service.

* **`VotePill`** — what the widget shows, and the request that is under way.
* **`Voting`** — the widget with the database behind it. Nobody else votes.
* **`ShowsTruth`** — between requests the widget shows what the database has, and after a request the last call of
  `onVoteChange` has said so.

A request that fails puts the widget back to its props. `shows_truth_iff` says that this is right exactly when the
user's vote is the one of the props again.
-/

namespace AcaSocial.Frontend

open VotesService

/-- The counters of a target, and the vote of the user on it. -/
structure Tally where
  upvoteCount : Nat
  downvoteCount : Nat
  vote : Option VoteType
deriving DecidableEq

structure VotePillProps where
  targetType : TargetType
  targetId : UuidText
  upvoteCount : Nat
  downvoteCount : Nat
  myVote : Option VoteType := none
  disabled : Bool := false

def VotePillProps.tally (props : VotePillProps) : Tally := ⟨props.upvoteCount, props.downvoteCount, props.myVote⟩

/-- `shown` is `localUpvotes`, `localDownvotes` and `localVote`, and `request` the vote that is requested while
`isPending`. `changed` is what `onVoteChange` was called with last, if it has been called. -/
structure VotePill where
  shown : Tally
  request : Option (Option VoteType)
  changed : Option Tally

/-- The widget when it is mounted. -/
def VotePill.mounted (props : VotePillProps) : VotePill := ⟨props.tally, none, none⟩

/-- `votesApi.castVote` or `removeVote` is requested, and what will come of it is shown at once. -/
def Tally.clicked (t : Tally) (type : VoteType) : Tally :=
  if t.vote = some type then
    match type with
    | .upvote => { t with upvoteCount := t.upvoteCount - 1, vote := none }
    | .downvote => { t with downvoteCount := t.downvoteCount - 1, vote := none }
  else
    let up := if t.vote = some .upvote then t.upvoteCount - 1 else t.upvoteCount
    let down := if t.vote = some .downvote then t.downvoteCount - 1 else t.downvoteCount
    match type with
    | .upvote => ⟨up + 1, down, some type⟩
    | .downvote => ⟨up, down + 1, some type⟩

def VotePill.handleVote (props : VotePillProps) (pill : VotePill) (type : VoteType) : VotePill :=
  if props.disabled ∨ pill.request.isSome then pill
  else
    let next := pill.shown.clicked type
    ⟨next, some next.vote, some next⟩

/-- The rest of the transition, with the result of the request or without one. -/
def VotePill.settle (props : VotePillProps) : Option VoteResult → VotePill
  | some result =>
    let next : Tally := ⟨result.upvoteCount, result.downvoteCount, result.voteType⟩
    ⟨next, none, some next⟩
  | none => ⟨props.tally, none, some props.tally⟩

/-! ## The widget and the service

One viewer clicks while anyone calls the service. An event of the run is a click with its answer, a failed request, or
a call of someone else. -/

/-- The database and the widget. `settled` says whether a request has been settled since the widget was mounted. -/
structure Voting where
  server : Db
  pill : VotePill
  settled : Bool

inductive VoteEvent where
  | clicked (type : VoteType)
  /-- The request is answered, or fails on its way to the service. -/
  | settled (fails : Bool)

/-- The votes in the database on a target, and the one of the user. -/
def tallyOf (s : Db) (type : TargetType) (k : Id) (user : GatewayUser) : Tally where
  upvoteCount := count s type k .upvote
  downvoteCount := count s type k .downvote
  vote := user.id.bind fun u => (s.votes.get? (u, type, k)).map (·.voteType)

def Voting.step (props : VotePillProps) (user : GatewayUser) (q : Voting) : VoteEvent → Voting
  | .clicked type => { q with pill := q.pill.handleVote props type }
  | .settled fails =>
    match q.pill.request with
    | none => q
    | some vote =>
      if fails then { q with pill := VotePill.settle props none, settled := true }
      else
        let outcome := setVote q.server props.targetType props.targetId user vote
        ⟨outcome.state, VotePill.settle props outcome.result.toOption, true⟩

/-- Between requests the widget shows what the database has. Once a request has been settled, `onVoteChange` has been
called, and the last call had the values that are shown. -/
def ShowsTruth (props : VotePillProps) (user : GatewayUser) (q : Voting) : Prop :=
  q.pill.request = none → q.pill.shown = tallyOf q.server props.targetType props.targetId.id user
    ∧ (q.settled = true → q.pill.changed = some q.pill.shown)

/-- A request fails while the user's vote is not the one of the props. -/
def FailsElsewhere (props : VotePillProps) (user : GatewayUser) (q : Voting) : VoteEvent → Prop
  | .clicked _ => False
  | .settled fails => (tallyOf q.server props.targetType props.targetId.id user).vote ≠ props.myVote
      ∧ ∃ vote ∈ q.pill.request, fails = true
        ∨ ¬ (setVote q.server props.targetType props.targetId user vote).result.isOk

instance (props : VotePillProps) (user : GatewayUser) (q : Voting) : ∀ e, Decidable (FailsElsewhere props user q e)
  | .clicked _ => .isFalse id
  | .settled _ => inferInstanceAs (Decidable (_ ∧ _))

/-- The votes of the others are those of the props. -/
def OthersStay (props : VotePillProps) (user : GatewayUser) (s : Db) : Prop :=
  ∀ x, count s props.targetType props.targetId.id x + (if props.myVote = some x then 1 else 0)
    = (match x with | .upvote => props.upvoteCount | .downvote => props.downvoteCount)
      + if (tallyOf s props.targetType props.targetId.id user).vote = some x then 1 else 0

variable {props : VotePillProps} {user : GatewayUser} {s s' : Db} {q : Voting}

/-! ## One request

What an accepted vote sends back is what the service then stores, and a failed one takes the widget back to the props
it was mounted with. -/

/-- With the votes of the others fixed, the counters are those of the props exactly when the vote is. -/
theorem tally_eq_iff (h : OthersStay props user s) :
    props.tally = tallyOf s props.targetType props.targetId.id user
      ↔ (tallyOf s props.targetType props.targetId.id user).vote = props.myVote := by
  constructor
  · intro he
    exact (congrArg Tally.vote he).symm
  · intro hvote
    have hup := h .upvote
    have hdown := h .downvote
    rw [hvote] at hup hdown
    have hup : count s props.targetType props.targetId.id .upvote = props.upvoteCount := Nat.add_right_cancel hup
    have hdown : count s props.targetType props.targetId.id .downvote = props.downvoteCount :=
      Nat.add_right_cancel hdown
    show (⟨_, _, _⟩ : Tally) = ⟨_, _, _⟩
    rw [hup, hdown, ← hvote]
    rfl

/-- A request that the service accepts has the vote and the counters of the database in its response, and moves
the counters by the user's vote only. -/
theorem setVote_accepted {type : TargetType} {id : UuidText} {vote : Option VoteType} {result : VoteResult}
    (h : setVoteTx s type id user vote = .ok (s', result)) :
    (⟨result.upvoteCount, result.downvoteCount, result.voteType⟩ : Tally) = tallyOf s' type id.id user
      ∧ ∀ x, count s' type id.id x + (if (tallyOf s type id.id user).vote = some x then 1 else 0)
        = count s type id.id x + if (tallyOf s' type id.id user).vote = some x then 1 else 0 := by
  simp only [setVoteTx, bind_eq_ok, authenticated_eq_ok, require_eq_ok, pure_eq_ok, Prod.mk.injEq] at h
  obtain ⟨u, huser, target, -, -, -, -, -, -, -, -, -, rfl, rfl⟩ := h
  have hvotes : ∀ t : Db, ∀ up down, (target.saveCounts t up down).votes = t.votes := by
    intro t up down
    cases target <;> rfl
  -- the counters are columns of the target, so saving them moves no vote
  have hcount : ∀ t : Db, ∀ up down x, count (target.saveCounts t up down) type id.id x = count t type id.id x := by
    intro t up down x
    rw [count, hvotes, count]
  have hvote : ∀ up down, (tallyOf (target.saveCounts (writeVote s u type id.id vote) up down) type id.id user).vote
      = vote := by
    intro up down
    show user.id.bind _ = _
    rw [huser, hvotes]
    exact get?_writeVote s u vote
  constructor
  · show (⟨_, _, _⟩ : Tally) = ⟨_, _, _⟩
    rw [hcount, hcount]
    exact congrArg (Tally.mk _ _) (hvote _ _).symm
  · intro x
    rw [hcount, hvote]
    -- the vote before is the row under the key of the user and the target
    have hold : (tallyOf s type id.id user).vote = (s.votes.get? (u, type, id.id)).map (·.voteType) := by
      show user.id.bind _ = _
      rw [huser]
      rfl
    rw [hold]
    exact count_writeVote s u vote x

/-- A request that the service refuses leaves the database alone. -/
theorem setVote_cases (s : Db) (type : TargetType) (id : UuidText) (user : GatewayUser) (vote : Option VoteType) :
    ((setVote s type id user vote).state = s ∧ (setVote s type id user vote).result.isOk = false)
      ∨ ∃ s' result, setVoteTx s type id user vote = .ok (s', result)
        ∧ (setVote s type id user vote).state = s' ∧ (setVote s type id user vote).result = .ok result := by
  unfold setVote
  cases h : setVoteTx s type id user vote with
  | error e => exact .inl ⟨rfl, rfl⟩
  | ok done => exact .inr ⟨done.1, done.2, rfl, rfl, rfl⟩

/-- The votes of the others stay what they are. -/
theorem othersStay_step (h : OthersStay props user q.server) (e : VoteEvent) :
    OthersStay props user (q.step props user e).server := by
  cases e with
  | clicked type => exact h
  | settled fails =>
    unfold Voting.step
    dsimp only
    cases q.pill.request with
    | none => exact h
    | some vote =>
      cases fails with
      | true => exact h
      | false =>
        show OthersStay props user (setVote q.server props.targetType props.targetId user vote).state
        rcases setVote_cases q.server props.targetType props.targetId user vote with
          ⟨hstate, -⟩ | ⟨s', result, hok, hstate, -⟩
        · rw [hstate]
          exact h
        · rw [hstate]
          intro x
          have hmoved := (setVote_accepted hok).2 x
          have hbefore := h x
          omega

/-- **One event** leaves the widget with the truth unless a request fails while the vote is not that of the props. -/
theorem showsTruth_step (h : OthersStay props user q.server) (htruth : ShowsTruth props user q) (e : VoteEvent) :
    ShowsTruth props user (q.step props user e) ↔ ¬ FailsElsewhere props user q e := by
  cases e with
  | clicked type =>
    refine iff_of_true ?_ id
    show ShowsTruth props user { q with pill := q.pill.handleVote props type }
    unfold VotePill.handleVote
    split
    · exact htruth
    · exact fun hrequest => (by cases hrequest)
  | settled fails =>
    cases hrequest : q.pill.request with
    | none =>
      have hstep : q.step props user (.settled fails) = q := by
        unfold Voting.step
        rw [hrequest]
      rw [hstep]
      refine iff_of_true htruth fun hfails => ?_
      obtain ⟨-, vote, hvote, -⟩ := hfails
      cases hrequest.symm.trans hvote
    | some vote =>
      -- after a failure, the widget shows the props
      have hback : ∀ q', q'.server = q.server → q'.pill = VotePill.settle props none →
          (ShowsTruth props user q'
            ↔ (tallyOf q.server props.targetType props.targetId.id user).vote = props.myVote) := by
        intro q' hserver hpill
        rw [← tally_eq_iff h, ShowsTruth, hserver, hpill]
        constructor
        · exact fun htruth' => (htruth' rfl).1
        · exact fun htally _ => ⟨htally, fun _ => rfl⟩
      have hfailed : fails = true ∨ ¬ (setVote q.server props.targetType props.targetId user vote).result.isOk →
          ((tallyOf q.server props.targetType props.targetId.id user).vote = props.myVote
            ↔ ¬ FailsElsewhere props user q (.settled fails)) := by
        intro hfails
        constructor
        · exact fun hvote hfails' => hfails'.1 hvote
        · intro hnot
          by_contra hvote
          exact hnot ⟨hvote, vote, hrequest, hfails⟩
      cases fails with
      | true =>
        have hstep : q.step props user (.settled true)
            = { q with pill := VotePill.settle props none, settled := true } := by
          unfold Voting.step
          rw [hrequest]
          rfl
        rw [hstep, hback { q with pill := VotePill.settle props none, settled := true } rfl rfl]
        exact hfailed (.inl rfl)
      | false =>
        have hstep : q.step props user (.settled false)
            = ⟨(setVote q.server props.targetType props.targetId user vote).state, VotePill.settle props
              (setVote q.server props.targetType props.targetId user vote).result.toOption, true⟩ := by
          unfold Voting.step
          rw [hrequest]
          rfl
        rcases setVote_cases q.server props.targetType props.targetId user vote with
          ⟨hstate, hrefused⟩ | ⟨s', result, hok, hstate, hresult⟩
        · -- the service refuses the request
          have hnone : (setVote q.server props.targetType props.targetId user vote).result.toOption = none := by
            cases hresult : (setVote q.server props.targetType props.targetId user vote).result with
            | error e => rfl
            | ok result =>
              rw [hresult] at hrefused
              cases hrefused
          rw [hstep, hstate, hnone, hback ⟨q.server, VotePill.settle props none, true⟩ rfl rfl]
          exact hfailed (.inr (by rw [hrefused]; exact Bool.false_ne_true))
        · -- the service has counted
          rw [hstep, hstate, hresult]
          refine iff_of_true (fun _ => ⟨(setVote_accepted hok).1, fun _ => rfl⟩) ?_
          rintro ⟨-, vote', hvote', hfails⟩
          obtain rfl := Option.some.inj (hrequest.symm.trans hvote')
          rcases hfails with hfails | hrefused
          · cases hfails
          · rw [hresult] at hrefused
            exact hrefused rfl

/-! ## Runs

The widget shows the truth along a run when no failed request meets a vote that the props do not know of. -/

/-- **The widget shows the truth** after every request of a run exactly when no request fails while the user's vote
is not that of the props. -/
theorem shows_truth_iff (hprops : props.tally = tallyOf s props.targetType props.targetId.id user)
    (events : List VoteEvent) :
    Always (Voting.step props user) (ShowsTruth props user) ⟨s, .mounted props, false⟩ events
      ↔ Meets (Voting.step props user) (fun q e => ¬ FailsElsewhere props user q e) ⟨s, .mounted props, false⟩ events := by
  refine always_iff_meets_of_invariant (Q := fun q : Voting => OthersStay props user q.server)
    (d := fun _ _ => True) (fun e q h _ => othersStay_step h e) (fun e q h _ htruth => showsTruth_step h htruth e)
    ?_ ?_ (Meets.of_forall (fun _ _ => trivial) _ _)
  · have hup : props.upvoteCount = count s props.targetType props.targetId.id .upvote :=
      congrArg Tally.upvoteCount hprops
    have hdown : props.downvoteCount = count s props.targetType props.targetId.id .downvote :=
      congrArg Tally.downvoteCount hprops
    have hvote : props.myVote = (tallyOf s props.targetType props.targetId.id user).vote :=
      congrArg Tally.vote hprops
    intro x
    rw [hvote]
    cases x with
    | upvote => rw [hup]
    | downvote => rw [hdown]
  · exact fun _ => ⟨hprops, fun hsettled => by cases hsettled⟩

namespace Sample

/-- A forum with a question of student `1`. -/
def forum : Db :=
  Db.after [AcaSocial.Sample.openForum, AcaSocial.Sample.join 2, AcaSocial.Sample.ask]

/-- The widget of the question, on which nobody has voted. -/
def unvoted : VotePillProps where
  targetType := .discussion
  targetId := Id.text 0
  upvoteCount := 0
  downvoteCount := 0

/-- A vote that fails, the same vote again, and then the other one. -/
def recovers : List VoteEvent := [
  .clicked .upvote, .settled true, .clicked .upvote, .settled false, .clicked .downvote, .settled false]

/-- A vote, and then its withdrawal, which fails. -/
def stale : List VoteEvent := [.clicked .upvote, .settled false, .clicked .upvote, .settled true]

end Sample

/-- A request that fails before any vote, and a vote after it. -/
theorem shows_truth_iff_recovers :
    Always (Voting.step Sample.unvoted (AcaSocial.Sample.student 2))
      (ShowsTruth Sample.unvoted (AcaSocial.Sample.student 2)) ⟨Sample.forum, .mounted Sample.unvoted, false⟩
      Sample.recovers :=
  (shows_truth_iff (by decide +kernel) Sample.recovers).mpr (by decide +kernel)

/-- The widget shows no vote, and the database has one. -/
theorem not_shows_truth_stale :
    ¬ Always (Voting.step Sample.unvoted (AcaSocial.Sample.student 2))
      (ShowsTruth Sample.unvoted (AcaSocial.Sample.student 2)) ⟨Sample.forum, .mounted Sample.unvoted, false⟩
      Sample.stale := by
  intro h
  have htruth := (h.last rfl).1
  exact absurd htruth (by decide +kernel)

end AcaSocial.Frontend
