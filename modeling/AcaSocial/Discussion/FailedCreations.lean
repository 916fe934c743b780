import AcaSocial.Discussion.Registers

/-!
# Creations that fail

A post, an answer or a comment is created in a transaction, which is rolled back when it fails. The automatic join of
`assertCanPost` goes through another connection, and the response is read after the transaction.

* **`Query`** — what a creation asks of the database; `fails` says which of it fails.
* **`creation`** — what the three have in common, with **`createQueried`** of each service; where nothing fails these are
  the creations of the services.
* **`Creation.Enters`**, **`Creation.Passes`** — the author gets into the room, and from there every check passes and no
  query fails up to the end of the transaction.
* **`creation_leaves_no_trace`** — exactly when a creation that fails leaves the database as it was.
-/

namespace AcaSocial

/-- What a creation asks of the database, and the reply of the identity service to it. -/
inductive Query where
  | room | membership | join | joined | binding
  | begin | post | tags | parent
  | insertPost | insertLinks | deleteMedia | insertMedia | countTag (t : UuidText)
  | answer | comment | revision | counter | event
  | reply | mention (recipient : Id)
  | commit | response
  deriving DecidableEq

def queryFailed : HttpError := .internal "query failed"

/-- Some queries, one after the other. -/
def queries (fails : Query → Bool) (qs : List Query) : Except HttpError Unit :=
  require (∀ q ∈ qs, fails q = false) queryFailed

/-- Queries succeed when none of them fails. -/
@[simp] theorem queries_eq_ok {fails : Query → Bool} {qs : List Query} {u : Unit} :
    queries fails qs = .ok u ↔ ∀ q ∈ qs, fails q = false := require_eq_ok

/-! ## The room

A user joins the room outside of the transaction, if the room lets them post. -/

namespace RoomsService

/-- Posting inserts a membership: the room admits strangers, and the user has no row in it. -/
def joins (s : Db) (roomId : Option Id) (userId : Id) : Bool :=
  roomId.any fun r => (s.room? r).any admitsStrangers && (s.membership? r userId).isNone

/-- `assertCanPost` up to its `INSERT`. -/
def beforeJoin (fails : Query → Bool) (s : Db) (roomId : Option Id) (userId : Id) : Except HttpError Unit :=
  match roomId with
  | none => .ok ()
  | some r => do
    queries fails [.room]
    let room ← orThrow (s.room? r) (.notFound "Room not found")
    require (room.status = .active) (.forbidden "Room is not accepting new posts")
    queries fails (.membership :: if joins s roomId userId then [.join] else [])

/-- `assertCanPost` after its `INSERT`. -/
def afterJoin (fails : Query → Bool) (w : World) (s : Db) (roomId : Option Id) (joined : Bool) (user : GatewayUser) :
    Except HttpError (Option PostContext) :=
  match roomId with
  | none => .ok none
  | some r => do
    queries fails (if joined then [.joined] else [])
    let context ← assertCanPost w s r user
    queries fails [.binding]
    return some context

end RoomsService

open RoomsService (admitsStrangers joins autoJoined autoJoin autoJoinTo assertCanPost assertCanPostTo requireVisible
  beforeJoin afterJoin)

/-! ## Creations

The three creations, query by query. Each of the queries may fail. -/

/-- A creation: the checks before it asks for the room, what it does in the room, and its response. -/
def creation {α β γ : Type} (fails : Query → Bool) (w : World) (s : Db) (user : GatewayUser) (enter : Except HttpError α)
    (room : α → Option Id) (author : α → Id) (rest : α → Db → Option PostContext → Except HttpError (Db × β))
    (respond : Db → β → Except HttpError γ) : Outcome Db HttpError γ :=
  let before := do
    let a ← enter
    beforeJoin fails s (room a) (author a)
    return a
  attempt s before fun a =>
    let joined := autoJoinTo s (room a) (author a)
    let body := do
      let context ← afterJoin fails w joined (room a) (joins s (room a) (author a)) user
      rest a joined context
    commit joined body fun s b => do
      queries fails [.response]
      respond s b

/-- The rows that a new post writes, up to its revision. -/
def postQueries (dto : CreateDiscussionDto) : List Query :=
  .insertPost :: (if dto.tagIds.getD [] = [] then [] else [.insertLinks]) ++ .deleteMedia ::
    (if dto.mediaIds.getD [] = [] then [] else [.insertMedia])
    ++ (sortIds (dto.tagIds.getD []).eraseDups).map .countTag ++ [.revision]

/-- What `emit` of the mentions asks. -/
def mentionQueries (w : World) (content : String) (actorId : Id) : List Query :=
  if MentionService.usernames content = [] then []
  else .reply :: (MentionService.mentioned w content actorId).map fun u => .mention u.id

namespace DiscussionsService

/-- The transaction of `create`. -/
def createTxQueried (fails : Query → Bool) (w : World) (s : Db) (authorId : Id) (dto : CreateDiscussionDto)
    (selected : Option AcademicContext) (room : PostContext) : Except HttpError (Db × Id) := do
  checkContext selected room.binding
  queries fails [.begin, .tags]
  let _ ← DiscussionsService.tags s (dto.tagIds.getD []).eraseDups unavailableTags
  queries fails (postQueries dto)
  let created ← createTx w s authorId dto selected room
  queries fails [.event, .commit]
  return created

/-- `create`, with its queries. -/
def createQueried (fails : Query → Bool) (w : World) (s : Db) (user : GatewayUser) (dto : CreateDiscussionDto) :
    Outcome Db HttpError DiscussionDetail :=
  creation fails w s user (createPrelude w user dto) (fun _ => some dto.roomId.id) (·.1)
    (fun (authorId, selected) s context => do
      let room ← orThrow context (.internal "Cannot read properties of null (reading 'requiresApproval')")
      createTxQueried fails w s authorId dto selected room)
    fun s id => findOne w s id user

end DiscussionsService

namespace AnswersService

/-- The transaction of `create`, once the room has been asked. -/
def createTxQueried (fails : Query → Bool) (w : World) (s : Db) (discussionId : UuidText) (dto : CreateAnswerDto)
    (authorId : Id) (question : Discussion) : Except HttpError (Db × Id) := do
  queries fails [.answer, .revision]
  let created ← createTx w s discussionId dto authorId question
  queries fails (.counter :: (if question.authorId ≠ authorId then [.event] else [])
    ++ mentionQueries w dto.content authorId ++ [.commit])
  return created

/-- `create`, with its queries. -/
def createQueried (fails : Query → Bool) (w : World) (s : Db) (discussionId : UuidText) (dto : CreateAnswerDto)
    (user : GatewayUser) : Outcome Db HttpError Answer :=
  let enter := do
    let _ ← authenticated user
    queries fails [.begin, .post]
    createPrelude s discussionId user
  creation fails w s user enter (·.2.roomId) (·.1)
    (fun (authorId, question) s _ => createTxQueried fails w s discussionId dto authorId question) findOne

end AnswersService

namespace CommentsService

/-- The author of the parent or of the post, who is told of a new comment. -/
def recipient (post : Discussion) (parent : Option Comment) : Id := (parent.map (·.authorId)).getD post.authorId

/-- The transaction of `create`, once the room has been asked. -/
def createTxQueried (fails : Query → Bool) (w : World) (s : Db) (discussionId : UuidText) (dto : CreateCommentDto)
    (authorId : Id) (post : Discussion) : Except HttpError (Db × Comment) := do
  queries fails (if dto.parentCommentId.isSome then [.parent] else [])
  let parent ← parentOf s discussionId dto
  queries fails (.comment :: .counter :: if recipient post parent ≠ authorId then [.event] else [])
  let created ← createTx w s discussionId dto authorId post
  queries fails (mentionQueries w dto.content authorId ++ [.commit])
  return created

/-- `create`, with its queries. -/
def createQueried (fails : Query → Bool) (w : World) (s : Db) (discussionId : UuidText) (user : GatewayUser)
    (dto : CreateCommentDto) : Outcome Db HttpError CommentView :=
  let enter := do
    let _ ← authenticated user
    queries fails [.begin, .post]
    createPrelude s discussionId user
  creation fails w s user enter (·.2.roomId) (·.1)
    (fun (authorId, post) s _ => createTxQueried fails w s discussionId dto authorId post)
    fun s c => .ok (ContentPresenter.comment w s user discussionId c)

end CommentsService

section

variable {fails : Query → Bool} {w : World} {s s' : Db} {user : GatewayUser} {r : Option Id} {u : Id}

/-! ## Where nothing fails

A creation whose queries all succeed is the method as the other modules have it. -/

/-- Queries succeed where nothing fails. -/
@[simp] theorem queries_none (qs : List Query) : queries (fun _ => false) qs = .ok () :=
  queries_eq_ok.mpr fun _ _ => rfl

/-- A room that admits strangers is there and active. -/
theorem autoJoin_of_room {r : Id} (h : ∀ room, s.room? r = some room → room.status ≠ .active) :
    autoJoin s r u = s := by
  have hstays : autoJoined s r u = s.memberships := by
    unfold autoJoined
    rw [if_neg]
    cases hroom : s.room? r with
    | none => exact Bool.false_ne_true
    | some room =>
      intro hadmits
      have hactive : room.status = .active := (of_decide_eq_true hadmits).1
      exact h room hroom hactive
  unfold autoJoin
  rw [hstays]

/-- A check in front of a call. -/
theorem attempt_check {σ ε α β : Type} {s : σ} {x : Except ε Unit} {a : α} {k : α → Outcome σ ε β} :
    attempt s (x >>= fun _ => pure a) k = attempt s x fun _ => k a := by
  cases x <;> rfl

/-- Where no query fails, a creation asks for the room and goes on. -/
theorem creation_none {α β γ : Type} {enter : Except HttpError α} {room : α → Option Id} {author : α → Id}
    {rest : α → Db → Option PostContext → Except HttpError (Db × β)} {respond : Db → β → Except HttpError γ}
    (hauthor : ∀ a, enter = .ok a → user.id = some (author a)) :
    creation (fun _ => false) w s user enter room author rest respond = attempt s enter fun a =>
      commit (autoJoinTo s (room a) (author a)) (do
        let context ← assertCanPostTo w (autoJoinTo s (room a) (author a)) (room a) user
        rest a (autoJoinTo s (room a) (author a)) context) respond := by
  cases henter : enter with
  | error e => rfl
  | ok a =>
    have huser := authenticated_eq_ok.mpr (hauthor a henter)
    unfold creation
    simp only [ok_bind, attempt_check, queries_none]
    show _ = commit (autoJoinTo s (room a) (author a)) (do
      let context ← assertCanPostTo w (autoJoinTo s (room a) (author a)) (room a) user
      rest a (autoJoinTo s (room a) (author a)) context) respond
    generalize room a = r₀
    cases r₀ with
    | none => rfl
    | some r =>
      simp only [beforeJoin, afterJoin, assertCanPostTo, autoJoinTo, queries_none, ok_bind]
      cases hrow : s.room? r with
      | none =>
        -- no one joins a room that is not there
        rw [autoJoin_of_room fun room h => (by cases hrow.symm.trans h)]
        simp only [assertCanPost, huser, hrow]
        rfl
      | some row =>
        by_cases hactive : row.status = .active
        · simp only [orThrow_some, ok_bind, require, if_pos hactive, pure, Except.pure]
          cases assertCanPost w (autoJoin s r (author a)) r user <;> rfl
        · rw [autoJoin_of_room fun room h => Option.some.inj (hrow.symm.trans h) ▸ hactive]
          simp only [assertCanPost, huser, hrow, orThrow_some, ok_bind, require, if_neg hactive]
          rfl

/-- A check that the next step makes again. -/
theorem check_again {ε α β : Type} {x : Except ε α} {y : Except ε β} (h : ∀ e, x = .error e → y = .error e) :
    (x >>= fun _ => y) = y := by
  cases x with
  | error e => exact (h e rfl).symm
  | ok a => rfl

/-- **The creation of a post**, where nothing fails. -/
theorem createQueried_discussions (w : World) (s : Db) (user : GatewayUser) (dto : CreateDiscussionDto) :
    DiscussionsService.createQueried (fun _ => false) w s user dto = DiscussionsService.create w s user dto := by
  unfold DiscussionsService.createQueried
  rw [creation_none]
  · unfold DiscussionsService.create
    refine congrArg (attempt s (DiscussionsService.createPrelude w user dto)) (funext fun prelude => ?_)
    obtain ⟨author, selected⟩ := prelude
    refine congrArg (fun body => commit _ body _) ?_
    show ((assertCanPost w (autoJoin s dto.roomId.id author) dto.roomId.id user).map some >>= _) = _
    cases assertCanPost w (autoJoin s dto.roomId.id author) dto.roomId.id user with
    | error e => rfl
    | ok room =>
      show DiscussionsService.createTxQueried _ w _ author dto selected room = _
      unfold DiscussionsService.createTxQueried
      simp only [queries_none, ok_bind, bind_pure]
      refine congrArg (DiscussionsService.checkContext selected room.binding >>= ·) (funext fun _ => check_again fun e he => ?_)
      unfold DiscussionsService.createTx
      dsimp only
      rw [he]
      rfl
  · intro ⟨author, selected⟩ h
    simp only [DiscussionsService.createPrelude, bind_eq_ok, authenticated_eq_ok, pure_eq_ok, Prod.mk.injEq] at h
    obtain ⟨_, huser, -, -, -, -, rfl, -⟩ := h
    exact huser

/-- **The creation of an answer**, where nothing fails. -/
theorem createQueried_answers (w : World) (s : Db) (d : UuidText) (dto : CreateAnswerDto) (user : GatewayUser) :
    AnswersService.createQueried (fun _ => false) w s d dto user = AnswersService.create w s d dto user := by
  unfold AnswersService.createQueried
  have henter : (do
      let _ ← authenticated user
      queries (fun _ => false) [.begin, .post]
      AnswersService.createPrelude s d user) = AnswersService.createPrelude s d user := by
    simp only [queries_none, ok_bind]
    refine check_again fun e he => ?_
    unfold AnswersService.createPrelude
    rw [he]
    rfl
  rw [henter, creation_none]
  · unfold AnswersService.create AnswersService.createTxQueried
    simp only [queries_none, ok_bind, bind_pure]
  · intro ⟨author, question⟩ h
    simp only [AnswersService.createPrelude, bind_eq_ok, authenticated_eq_ok, pure_eq_ok, Prod.mk.injEq] at h
    obtain ⟨_, huser, _, -, -, -, -, -, -, -, rfl, -⟩ := h
    exact huser

/-- **The creation of a comment**, where nothing fails. -/
theorem createQueried_comments (w : World) (s : Db) (d : UuidText) (user : GatewayUser) (dto : CreateCommentDto) :
    CommentsService.createQueried (fun _ => false) w s d user dto = CommentsService.create w s d user dto := by
  unfold CommentsService.createQueried
  have henter : (do
      let _ ← authenticated user
      queries (fun _ => false) [.begin, .post]
      CommentsService.createPrelude s d user) = CommentsService.createPrelude s d user := by
    simp only [queries_none, ok_bind]
    -- `createPrelude` checks the user once more
    refine check_again fun e he => ?_
    unfold CommentsService.createPrelude
    rw [he]
    rfl
  rw [henter, creation_none]
  · unfold CommentsService.create
    refine congrArg (attempt s (CommentsService.createPrelude s d user)) (funext fun prelude => ?_)
    obtain ⟨author, post⟩ := prelude
    refine congrArg (fun body => commit _ body _) (congrArg (assertCanPostTo w _ _ user >>= ·) (funext fun _ => ?_))
    unfold CommentsService.createTxQueried
    simp only [queries_none, ok_bind, bind_pure]
    refine check_again fun e he => ?_
    unfold CommentsService.createTx
    rw [he]
    rfl
  · intro ⟨author, post⟩ h
    simp only [CommentsService.createPrelude, bind_eq_ok, authenticated_eq_ok, pure_eq_ok, Prod.mk.injEq] at h
    obtain ⟨_, huser, _, -, -, -, -, -, rfl, -⟩ := h
    exact huser

/-! ## What is left behind

A creation that fails leaves a trace when the user has joined the room before it failed. -/

/-- The automatic join writes exactly where it inserts a row. -/
theorem autoJoinTo_eq_self_iff : autoJoinTo s r u = s ↔ joins s r u = false := by
  cases r with
  | none => exact iff_of_true rfl rfl
  | some r =>
    have hkey : autoJoin s r u = s ↔ autoJoined s r u = s.memberships :=
      ⟨fun h => congrArg Db.memberships h, fun h => by unfold autoJoin; rw [h]⟩
    show autoJoin s r u = s ↔ ((s.room? r).any admitsStrangers && (s.membership? r u).isNone) = false
    rw [hkey]
    unfold autoJoined
    by_cases hadmits : (s.room? r).any admitsStrangers = true
    · rw [if_pos hadmits, hadmits, Bool.true_and]
      cases hm : s.membership? r u with
      | none =>
        refine iff_of_false (fun h => ?_) (fun h => (by cases h))
        have hm : s.memberships.get? (r, u) = none := hm
        have hrows := congrArg (fun t => t.rows.length) h
        rw [Table.rows_insert hm] at hrows
        simp at hrows
      | some m =>
        refine iff_of_true ?_ rfl
        have hm : s.memberships.get? (r, u) = some m := hm
        obtain ⟨hmem, hkey⟩ := Table.get?_eq_some.mp hm
        unfold Table.insert
        rw [dif_pos (List.mem_map.mpr ⟨m, hmem, hkey⟩)]
    · rw [if_neg hadmits]
      simp [hadmits]

/-- **When a creation leaves no trace**, if it fails: where it makes someone a member of the room, everything goes well from
there to the end of the transaction; and where everything goes well up to there, so does the response. -/
theorem traceless_creation {α β γ : Type} {enter : Except HttpError α} {room : α → Option Id} {author : α → Id}
    {rest : α → Db → Option PostContext → Except HttpError (Db × β)} {respond : Db → β → Except HttpError γ}
    (Passes : α → Prop)
    (hpasses : ∀ a, enter = .ok a → (Passes a ↔ ∃ context s' b,
      afterJoin fails w (autoJoinTo s (room a) (author a)) (room a) (joins s (room a) (author a)) user = .ok context
        ∧ rest a (autoJoinTo s (room a) (author a)) context = .ok (s', b)))
    (hdone : ∀ a context s' b, enter = .ok a →
      afterJoin fails w (autoJoinTo s (room a) (author a)) (room a) (joins s (room a) (author a)) user = .ok context →
      rest a (autoJoinTo s (room a) (author a)) context = .ok (s', b) → s' ≠ s ∧ (respond s' b).isOk = true) :
    (creation fails w s user enter room author rest respond).Traceless s
      ↔ ∀ a, enter = .ok a → beforeJoin fails s (room a) (author a) = .ok () →
        (joins s (room a) (author a) = true → Passes a) ∧ (Passes a → fails .response = false) := by
  unfold creation
  rw [traceless_attempt]
  -- what comes before the membership is inserted
  have hbefore : ∀ a, (do
      let a ← enter
      beforeJoin fails s (room a) (author a)
      return a) = .ok a ↔ enter = .ok a ∧ beforeJoin fails s (room a) (author a) = .ok () := by
    intro a
    simp only [bind_eq_ok, pure_eq_ok]
    constructor
    · rintro ⟨a', ha', _, hbefore, rfl⟩
      exact ⟨ha', hbefore⟩
    · rintro ⟨ha, hbefore⟩
      exact ⟨a, ha, (), hbefore, rfl⟩
  simp only [hbefore, and_imp]
  refine forall_congr' fun a => forall_congr' fun ha => forall_congr' fun _ => ?_
  -- what comes after it, in the transaction
  have hbody : ∀ s' b, (do
      let context ← afterJoin fails w (autoJoinTo s (room a) (author a)) (room a) (joins s (room a) (author a)) user
      rest a (autoJoinTo s (room a) (author a)) context) = .ok (s', b) ↔ ∃ context,
        afterJoin fails w (autoJoinTo s (room a) (author a)) (room a) (joins s (room a) (author a)) user = .ok context
          ∧ rest a (autoJoinTo s (room a) (author a)) context = .ok (s', b) := fun s' b => bind_eq_ok
  rw [traceless_commit fun s' b h => ?_]
  -- the membership remains if the transaction fails, and the post if the response does
  · rw [hpasses a ha, isOk_iff, Ne, autoJoinTo_eq_self_iff, Bool.not_eq_false]
    refine and_congr (imp_congr_right fun _ => ?_) ?_
    · constructor
      · rintro ⟨⟨s', b⟩, h⟩
        obtain ⟨context, hcontext, hrest⟩ := (hbody s' b).mp h
        exact ⟨context, s', b, hcontext, hrest⟩
      · rintro ⟨context, s', b, hcontext, hrest⟩
        exact ⟨(s', b), (hbody s' b).mpr ⟨context, hcontext, hrest⟩⟩
    · have hrespond : ∀ s' b, (respond s' b).isOk = true →
          ((queries fails [.response] >>= fun _ => respond s' b).isOk = true ↔ fails .response = false) := by
        intro s' b hok
        obtain ⟨c, hc⟩ := isOk_iff.mp hok
        rw [isOk_iff]
        simp only [bind_eq_ok, queries_eq_ok, List.mem_singleton, forall_eq, hc]
        exact ⟨by rintro ⟨_, _, hq, -⟩; exact hq, fun hq => ⟨c, (), hq, rfl⟩⟩
      constructor
      · rintro h ⟨context, s', b, hcontext, hrest⟩
        have hok := (hdone a context s' b ha hcontext hrest).2
        exact (hrespond s' b hok).mp (h s' b ((hbody s' b).mpr ⟨context, hcontext, hrest⟩))
      · intro h s' b hb
        obtain ⟨context, hcontext, hrest⟩ := (hbody s' b).mp hb
        have hok := (hdone a context s' b ha hcontext hrest).2
        exact (hrespond s' b hok).mpr (h ⟨context, s', b, hcontext, hrest⟩)
  · obtain ⟨context, hcontext, hrest⟩ := (hbody s' b).mp h
    exact (hdone a context s' b ha hcontext hrest).1

/-! ## The three creations

Where each of them asks the room, and what can fail afterwards. -/

/-- What `assertCanPost` asks after its `INSERT`. -/
def roomQueries (s : Db) (r : Option Id) (u : Id) : List Query :=
  (if joins s r u then [.joined] else []) ++ if r.isSome then [.binding] else []

/-- The room answers in the state after the user has joined. -/
theorem afterJoin_eq_ok {joined : Db} {context : Option PostContext} :
    afterJoin fails w joined r (joins s r u) user = .ok context
      ↔ assertCanPostTo w joined r user = .ok context ∧ ∀ q ∈ roomQueries s r u, fails q = false := by
  cases r with
  | none => exact ⟨fun h => ⟨h, fun _ hq => (by cases hq)⟩, And.left⟩
  | some r =>
    unfold roomQueries
    simp only [afterJoin, assertCanPostTo, bind_eq_ok, queries_eq_ok, pure_eq_ok, map_eq_ok, Option.isSome_some, if_true,
      List.forall_mem_append]
    constructor
    · rintro ⟨_, hjoined, room, hroom, _, hbinding, rfl⟩
      exact ⟨⟨room, hroom, rfl⟩, hjoined, hbinding⟩
    · rintro ⟨⟨room, hroom, rfl⟩, hjoined, hbinding⟩
      exact ⟨(), hjoined, room, hroom, (), hbinding, rfl⟩

section Discussions

open DiscussionsService

variable {dto : CreateDiscussionDto} {author : Id} {selected : Option AcademicContext} {room : PostContext}

/-- The author is the user of the request. -/
theorem createPrelude_authorId (h : createPrelude w user dto = .ok (author, selected)) : user.id = some author := by
  simp only [createPrelude, bind_eq_ok, authenticated_eq_ok, pure_eq_ok, Prod.mk.injEq] at h
  obtain ⟨_, huser, -, -, -, -, rfl, -⟩ := h
  exact huser

/-- The checks of the transaction of `create`. -/
theorem createPostTx_isOk : (∃ s' k, createTx w s author dto selected room = .ok (s', k))
    ↔ (DiscussionsService.tags s (dto.tagIds.getD []).eraseDups unavailableTags).isOk = true
      ∧ s.revisions.get? (s.discussions.next, 1) = none := by
  unfold createTx
  dsimp only
  cases htags : DiscussionsService.tags s (dto.tagIds.getD []).eraseDups unavailableTags with
  | error e => exact iff_of_false (by rintro ⟨_, _, h⟩; cases h) fun h => (by cases h.1)
  | ok tags =>
    -- the statements before the revision leave the revisions alone
    have hrevisions : ∀ s₁ : Db, s₁.revisions = s.revisions → ∀ ids : List UuidText,
        (tagCounts s₁ ids 1).revisions = s.revisions := by
      intro s₁ hs₁ ids
      rw [tagCounts_eq]
      exact hs₁
    simp only [ok_bind, Db.insertRevision, bind_eq_ok, require_eq_ok, pure_eq_ok, Prod.mk.injEq]
    constructor
    · rintro ⟨s', k, s₁, ⟨_, hnew, -⟩, -, -⟩
      rw [hrevisions _ (by rfl)] at hnew
      exact ⟨rfl, hnew⟩
    · rintro ⟨-, hnew⟩
      refine ⟨_, _, _, ⟨(), ?_, rfl⟩, rfl, rfl⟩
      rw [hrevisions _ (by rfl)]
      exact hnew

/-- A new post is there, in the rooms that were there. -/
theorem createPostTx_done {k : Id} (h : createTx w s author dto selected room = .ok (s', k)) :
    s'.discussions.next = s.discussions.next + 1 ∧ (s'.rooms, s'.memberships) = (s.rooms, s.memberships)
      ∧ s'.post? k = some (newPost w author dto selected room k) := by
  obtain ⟨tags, -, hthread⟩ := createTx_thread rfl h
  simp only [createTx, bind_eq_ok, pure_eq_ok, Prod.mk.injEq] at h
  obtain ⟨tags, -, s₁, hrev, rfl, rfl⟩ := h
  refine ⟨?_, ?_, ?_⟩
  · rw [(insertRevision_eq hrev).2, tagCounts_eq]
    rfl
  · rw [(insertRevision_eq hrev).2, tagCounts_eq]
    rfl
  · rw [post?_iff_live, hthread, if_pos rfl]
    exact ⟨rfl, rfl⟩

/-- The author of a new post is shown it. -/
theorem findOne_created {k : Id} (huser : user.id = some author)
    (hroom : assertCanPost w s dto.roomId.id user = .ok room)
    (h : createTx w s author dto selected room = .ok (s', k)) : (findOne w s' k user).isOk = true := by
  obtain ⟨-, hseats, hpost⟩ := createPostTx_done h
  obtain ⟨hrooms, hmemberships⟩ := Prod.mk.inj hseats
  have hself : user = ⟨some author, user.role⟩ := by
    obtain ⟨id, role⟩ := user
    rw [show id = some author from huser]
  have hvisible : requireVisible s' (some dto.roomId.id) user = .ok () := by
    rw [requireVisible_congr hrooms hmemberships]
    have hmanage : canManage author user := decide_eq_true ⟨Option.isSome_of_eq_some huser, .inl huser⟩
    have hcan : assertCanPostTo w s (some dto.roomId.id) ⟨some author, user.role⟩ = .ok (some room) := by
      rw [← hself]
      exact map_eq_ok.mpr ⟨room, hroom, rfl⟩
    exact requireVisible_of_assertCanPostTo hmanage hcan
  have hroomId : (newPost w author dto selected room k).roomId = some dto.roomId.id := rfl
  have hreadable : requireReadable (newPost w author dto selected room k) user = .ok () :=
    requireReadable_eq_ok.mpr (.inr (.inr huser))
  unfold findOne
  rw [hpost, orThrow_some, ok_bind, hreadable, ok_bind, hroomId, hvisible]
  rfl

end Discussions

section Answers

open AnswersService

variable {d : UuidText} {dto : CreateAnswerDto} {author : Id} {question : Discussion}

/-- The checks of the transaction of `create`. -/
theorem createAnswerTx_isOk : (∃ s' k, AnswersService.createTx w s d dto author question = .ok (s', k))
    ↔ s.answerRevisions.get? (s.answers.next, 1) = none := by
  unfold AnswersService.createTx
  simp only [Db.insertAnswerRevision, bind_eq_ok, require_eq_ok, pure_eq_ok, Prod.mk.injEq]
  constructor
  · rintro ⟨s', k, s₁, ⟨_, hnew, -⟩, -, -⟩
    exact hnew
  · intro hnew
    exact ⟨_, _, _, ⟨(), hnew, rfl⟩, rfl, rfl⟩

/-- A new answer is there. -/
theorem createAnswerTx_done {k : Id} (h : AnswersService.createTx w s d dto author question = .ok (s', k)) :
    s'.answers.next = s.answers.next + 1 ∧ (s'.answer? k).isSome = true := by
  simp only [AnswersService.createTx, bind_eq_ok, pure_eq_ok, Prod.mk.injEq] at h
  obtain ⟨s₁, hrev, rfl, rfl⟩ := h
  have hanswers : s₁.answers = s.answers.insert (newAnswer w d.id dto author) (newAnswer_id w d.id dto author) := by
    rw [(insertAnswerRevision_eq hrev).2]
    rfl
  have hrow : s₁.answer? s.answers.next = some (newAnswer w d.id dto author s.answers.next) := by
    unfold Content.answer?
    rw [hanswers, Serial.get?_insert, if_pos rfl]
    rfl
  rw [emit_toContent]
  split
  · rw [event_toContent]
    exact ⟨congrArg Serial.next hanswers, Option.isSome_of_eq_some hrow⟩
  · exact ⟨congrArg Serial.next hanswers, Option.isSome_of_eq_some hrow⟩

end Answers

section Comments

open CommentsService

variable {d : UuidText} {dto : CreateCommentDto} {author : Id} {post : Discussion}

/-- The checks of the transaction of `create`. -/
theorem createCommentTx_isOk : (∃ s' c, CommentsService.createTx w s d dto author post = .ok (s', c))
    ↔ ∃ parent, parentOf s d dto = .ok parent
      ∧ (recipient post parent = author ∨ (preview dto.content).isOk = true) := by
  unfold CommentsService.createTx
  simp only [bind_eq_ok, pure_eq_ok, Prod.mk.injEq]
  have hnotify : ∀ (s₁ : Db) (parent : Option Comment) (k : Id),
      (∃ s₂, notify s₁ d post (recipient post parent) (newComment w d.id dto author parent k) = .ok s₂)
        ↔ (recipient post parent = author ∨ (preview dto.content).isOk = true) := by
    intro s₁ parent k
    unfold notify
    by_cases hself : recipient post parent = author
    · exact iff_of_true ⟨s₁, if_pos hself⟩ (.inl hself)
    · have hother : recipient post parent ≠ (newComment w d.id dto author parent k).authorId := hself
      have hcontent : (newComment w d.id dto author parent k).content = dto.content := rfl
      rw [if_neg hother, hcontent]
      cases preview dto.content with
      | error e => exact iff_of_false (by rintro ⟨s₂, h⟩; cases h) fun h => h.elim hself fun h => (by cases h)
      | ok text => exact iff_of_true ⟨_, rfl⟩ (.inr rfl)
  constructor
  · rintro ⟨s', c, parent, hparent, s₂, h, -, -⟩
    exact ⟨parent, hparent, (hnotify _ parent _).mp ⟨s₂, h⟩⟩
  · rintro ⟨parent, hparent, h⟩
    obtain ⟨s₂, hs₂⟩ := (hnotify _ parent s.comments.next).mpr h
    exact ⟨_, _, parent, hparent, s₂, hs₂, rfl, rfl⟩

/-- A new comment is there. -/
theorem createCommentTx_done {c : Comment} (h : CommentsService.createTx w s d dto author post = .ok (s', c)) :
    s'.comments.next = s.comments.next + 1 := by
  simp only [CommentsService.createTx, bind_eq_ok, pure_eq_ok, Prod.mk.injEq] at h
  obtain ⟨parent, -, s₁, hnotify, rfl, -⟩ := h
  rw [emit_toContent, notify_toContent hnotify]
  rfl

end Comments

end

/-! ## Every creation

A creation leaves no trace exactly when it fails before it joins, or need not join. -/

/-- A post, an answer or a comment that a user wants to create. -/
inductive Creation where
  | discussion (dto : CreateDiscussionDto)
  | answer (discussionId : UuidText) (dto : CreateAnswerDto)
  | comment (discussionId : UuidText) (dto : CreateCommentDto)

namespace Creation

variable (fails : Query → Bool) (w : World) (s : Db) (user : GatewayUser) (r : Option Id) (u : Id)

/-- What the creation leaves, and whether it fails. -/
def run : Creation → Outcome Db HttpError Unit
  | discussion dto => (DiscussionsService.createQueried fails w s user dto).map fun _ => ()
  | answer d dto => (AnswersService.createQueried fails w s d dto user).map fun _ => ()
  | comment d dto => (CommentsService.createQueried fails w s d user dto).map fun _ => ()

/-- **The author `u` gets into the room `r`**: the checks up to there pass, and the queries up to the `INSERT` of the
membership do not fail. -/
def Enters : Creation → Prop
  | discussion dto => r = some dto.roomId.id
    ∧ (∃ selected, DiscussionsService.createPrelude w user dto = .ok (u, selected)) ∧ beforeJoin fails s r u = .ok ()
  | answer d _ => (∀ q ∈ [.begin, .post], fails q = false)
    ∧ (∃ question, AnswersService.createPrelude s d user = .ok (u, question) ∧ question.roomId = r)
    ∧ beforeJoin fails s r u = .ok ()
  | comment d _ => (∀ q ∈ [.begin, .post], fails q = false)
    ∧ (∃ post, CommentsService.createPrelude s d user = .ok (u, post) ∧ post.roomId = r) ∧ beforeJoin fails s r u = .ok ()

/-- **From there all goes well** up to the end of the transaction: the membership and the other checks pass, and no query
fails. -/
def Passes : Creation → Prop
  | discussion dto => ∃ selected room, DiscussionsService.createPrelude w user dto = .ok (u, selected)
    ∧ assertCanPost w (autoJoin s dto.roomId.id u) dto.roomId.id user = .ok room
    ∧ DiscussionsService.checkContext selected room.binding = .ok ()
    ∧ (DiscussionsService.tags s (dto.tagIds.getD []).eraseDups DiscussionsService.unavailableTags).isOk = true
    ∧ s.revisions.get? (s.discussions.next, 1) = none
    ∧ ∀ q ∈ roomQueries s r u ++ [.begin, .tags] ++ postQueries dto ++ [.event, .commit], fails q = false
  | answer d dto => ∃ question context, AnswersService.createPrelude s d user = .ok (u, question)
    ∧ assertCanPostTo w (autoJoinTo s r u) r user = .ok context
    ∧ s.answerRevisions.get? (s.answers.next, 1) = none
    ∧ ∀ q ∈ roomQueries s r u ++ [.answer, .revision, .counter] ++ (if question.authorId ≠ u then [.event] else [])
      ++ mentionQueries w dto.content u ++ [.commit], fails q = false
  | comment d dto => ∃ post context parent, CommentsService.createPrelude s d user = .ok (u, post)
    ∧ assertCanPostTo w (autoJoinTo s r u) r user = .ok context
    ∧ CommentsService.parentOf s d dto = .ok parent
    ∧ (CommentsService.recipient post parent = u ∨ (CommentsService.preview dto.content).isOk = true)
    ∧ ∀ q ∈ roomQueries s r u ++ (if dto.parentCommentId.isSome then [.parent] else []) ++ [.comment, .counter]
      ++ (if CommentsService.recipient post parent ≠ u then [.event] else []) ++ mentionQueries w dto.content u
      ++ [.commit], fails q = false

end Creation

section

variable {fails : Query → Bool} {w : World} {s s' : Db} {user : GatewayUser} {r : Option Id} {u : Id}

theorem traceless_map {σ ε α β : Type} {s : σ} {o : Outcome σ ε α} {f : α → β} :
    (o.map f).Traceless s ↔ o.Traceless s := by
  refine forall_congr' fun e => imp_congr_left ?_
  show o.result.map f = .error e ↔ o.result = .error e
  cases o.result with
  | error e' => exact ⟨fun h => congrArg Except.error (Except.error.inj h), fun h => congrArg Except.error (Except.error.inj h)⟩
  | ok a => exact iff_of_false (fun h => (by cases h)) fun h => (by cases h)

/-- When a new post leaves no trace. -/
theorem traceless_discussion (dto : CreateDiscussionDto) :
    ((Creation.discussion dto).run fails w s user).Traceless s
      ↔ ∀ r u, (Creation.discussion dto).Enters fails w s user r u →
        (joins s r u = true → (Creation.discussion dto).Passes fails w s user r u)
          ∧ ((Creation.discussion dto).Passes fails w s user r u → fails .response = false) := by
  refine traceless_map.trans ((traceless_creation (fun a : Id × Option AcademicContext =>
    (Creation.discussion dto).Passes fails w s user (some dto.roomId.id) a.1) ?_ ?_).trans ?_)
  -- passing, as it is spelled out for a post, is passing in the transaction
  · intro ⟨author, selected⟩ hprelude
    show (∃ selected room, _) ↔ _
    simp only [afterJoin_eq_ok]
    constructor
    · rintro ⟨selected', room, hprelude', hroom, hcontext, htags, hrevision, hqueries⟩
      obtain rfl : selected = selected' := congrArg Prod.snd (Except.ok.inj (hprelude.symm.trans hprelude'))
      simp only [List.forall_mem_append] at hqueries
      obtain ⟨⟨⟨hqroom, hqtags⟩, hqpost⟩, hqend⟩ := hqueries
      obtain ⟨tags, htags⟩ := isOk_iff.mp htags
      have hcreates : ∃ s' k, DiscussionsService.createTx w (autoJoin s dto.roomId.id author) author dto selected room
          = .ok (s', k) := createPostTx_isOk.mpr ⟨isOk_iff.mpr ⟨tags, htags⟩, hrevision⟩
      obtain ⟨s', k, htx⟩ := hcreates
      refine ⟨some room, s', k, ⟨map_eq_ok.mpr ⟨room, hroom, rfl⟩, hqroom⟩, ?_⟩
      simp only [DiscussionsService.createTxQueried, bind_eq_ok, orThrow_some, queries_eq_ok, pure_eq_ok]
      exact ⟨room, rfl, (), hcontext, (), hqtags, tags, htags, (), hqpost, (s', k), htx, (), hqend, rfl⟩
    · rintro ⟨context, s', k, ⟨hcan, hqroom⟩, hrest⟩
      obtain ⟨room, hroom, rfl⟩ := map_eq_ok.mp hcan
      simp only [DiscussionsService.createTxQueried, bind_eq_ok, orThrow_some, queries_eq_ok, pure_eq_ok] at hrest
      obtain ⟨_, hsome, _, hcontext, _, hqtags, tags, htags, _, hqpost, created, htx, _, hqend, rfl⟩ := hrest
      obtain rfl := Except.ok.inj hsome
      have hchecks := createPostTx_isOk.mp ⟨s', k, htx⟩
      refine ⟨selected, room, hprelude, hroom, hcontext, hchecks.1, hchecks.2, ?_⟩
      simp only [List.forall_mem_append]
      exact ⟨⟨⟨hqroom, hqtags⟩, hqpost⟩, hqend⟩
  -- a post that was created is stored, and its response can be read
  · intro ⟨author, selected⟩ context s' k hprelude hcan hrest
    obtain ⟨room, hroom, rfl⟩ := map_eq_ok.mp (afterJoin_eq_ok.mp hcan).1
    simp only [DiscussionsService.createTxQueried, bind_eq_ok, orThrow_some, queries_eq_ok, pure_eq_ok] at hrest
    obtain ⟨_, hsome, _, -, _, -, tags, -, _, -, created, htx, _, -, rfl⟩ := hrest
    obtain rfl := Except.ok.inj hsome
    refine ⟨?_, findOne_created (createPrelude_authorId hprelude) hroom htx⟩
    rintro rfl
    exact Nat.succ_ne_self _ (createPostTx_done htx).1.symm
  · constructor
    · rintro h r u ⟨rfl, ⟨selected, hprelude⟩, hbefore⟩
      exact h (u, selected) hprelude hbefore
    · intro h ⟨author, selected⟩ hprelude hbefore
      exact h _ _ ⟨rfl, ⟨selected, hprelude⟩, hbefore⟩

/-- What a creation has checked before it asks the room. -/
theorem entered_eq_ok {α : Type} {enter : Except HttpError α} {a : α}
    (huser : ∀ a, enter = .ok a → ∃ u, authenticated user = .ok u) : (do
      let _ ← authenticated user
      queries fails [.begin, .post]
      enter) = .ok a ↔ (∀ q ∈ [.begin, .post], fails q = false) ∧ enter = .ok a := by
  simp only [bind_eq_ok, queries_eq_ok]
  constructor
  · rintro ⟨_, -, _, hq, henter⟩
    exact ⟨hq, henter⟩
  · rintro ⟨hq, henter⟩
    obtain ⟨u, hu⟩ := huser a henter
    exact ⟨u, hu, (), hq, henter⟩

/-- When a new answer leaves no trace. -/
theorem traceless_answer (d : UuidText) (dto : CreateAnswerDto) :
    ((Creation.answer d dto).run fails w s user).Traceless s
      ↔ ∀ r u, (Creation.answer d dto).Enters fails w s user r u →
        (joins s r u = true → (Creation.answer d dto).Passes fails w s user r u)
          ∧ ((Creation.answer d dto).Passes fails w s user r u → fails .response = false) := by
  have henters : ∀ a : Id × Discussion, AnswersService.createPrelude s d user = .ok a →
      ∃ u, authenticated user = .ok u := fun a h => (bind_eq_ok.mp h).imp fun _ h => h.1
  refine traceless_map.trans ((traceless_creation (fun a : Id × Discussion =>
    (Creation.answer d dto).Passes fails w s user a.2.roomId a.1) ?_ ?_).trans ?_)
  -- the queries of an answer, in their order
  · intro ⟨author, question⟩ hentered
    have hprelude := ((entered_eq_ok henters).mp hentered).2
    show (∃ question' context, _) ↔ _
    simp only [afterJoin_eq_ok]
    constructor
    · rintro ⟨question', context, hprelude', hcan, hrevision, hqueries⟩
      obtain rfl : question = question' := congrArg Prod.snd (Except.ok.inj (hprelude.symm.trans hprelude'))
      simp only [List.forall_mem_append, List.forall_mem_cons] at hqueries
      obtain ⟨⟨⟨⟨hqroom, hqanswer, hqrevision, hqcounter, hnil⟩, hqevent⟩, hqmentions⟩, hqend⟩ := hqueries
      have hfree : (autoJoinTo s question.roomId author).answerRevisions.get?
          ((autoJoinTo s question.roomId author).answers.next, 1) = none := by
        rw [autoJoinTo_toContent]
        exact hrevision
      have hcreates : ∃ s' k, AnswersService.createTx w (autoJoinTo s question.roomId author) d dto author question
          = .ok (s', k) := createAnswerTx_isOk.mpr hfree
      obtain ⟨s', k, htx⟩ := hcreates
      refine ⟨context, s', k, ⟨hcan, hqroom⟩, ?_⟩
      simp only [AnswersService.createTxQueried, bind_eq_ok, queries_eq_ok, pure_eq_ok, List.forall_mem_append,
        List.forall_mem_cons]
      exact ⟨(), ⟨hqanswer, hqrevision, hnil⟩, (s', k), htx, (), ⟨⟨⟨hqcounter, hqevent⟩, hqmentions⟩, hqend⟩, rfl⟩
    · rintro ⟨context, s', k, ⟨hcan, hqroom⟩, hrest⟩
      simp only [AnswersService.createTxQueried, bind_eq_ok, queries_eq_ok, pure_eq_ok, List.forall_mem_append,
        List.forall_mem_cons] at hrest
      obtain ⟨_, ⟨hqanswer, hqrevision, hnil⟩, created, htx, _, ⟨⟨⟨hqcounter, hqevent⟩, hqmentions⟩, hqend⟩, rfl⟩ := hrest
      have hfree := createAnswerTx_isOk.mp ⟨s', k, htx⟩
      rw [autoJoinTo_toContent] at hfree
      refine ⟨question, context, hprelude, hcan, hfree, ?_⟩
      simp only [List.forall_mem_append, List.forall_mem_cons]
      exact ⟨⟨⟨⟨hqroom, hqanswer, hqrevision, hqcounter, hnil⟩, hqevent⟩, hqmentions⟩, hqend⟩
  -- an answer that was created is stored, and its response can be read
  · intro ⟨author, question⟩ context s' k _ _ hrest
    simp only [AnswersService.createTxQueried, bind_eq_ok, queries_eq_ok, pure_eq_ok] at hrest
    obtain ⟨_, -, created, htx, _, -, rfl⟩ := hrest
    obtain ⟨hnext, hrow⟩ := createAnswerTx_done htx
    rw [autoJoinTo_toContent] at hnext
    refine ⟨?_, ?_⟩
    · rintro rfl
      exact Nat.succ_ne_self _ hnext.symm
    · obtain ⟨row, hrow⟩ := Option.isSome_iff_exists.mp hrow
      unfold AnswersService.findOne
      rw [hrow]
      rfl
  · constructor
    · rintro h r u ⟨hq, ⟨question, hprelude, rfl⟩, hbefore⟩
      exact h (u, question) ((entered_eq_ok henters).mpr ⟨hq, hprelude⟩) hbefore
    · intro h ⟨author, question⟩ hentered hbefore
      obtain ⟨hq, hprelude⟩ := (entered_eq_ok henters).mp hentered
      exact h _ _ ⟨hq, ⟨question, hprelude, rfl⟩, hbefore⟩

/-- When a new comment leaves no trace. -/
theorem traceless_comment (d : UuidText) (dto : CreateCommentDto) :
    ((Creation.comment d dto).run fails w s user).Traceless s
      ↔ ∀ r u, (Creation.comment d dto).Enters fails w s user r u →
        (joins s r u = true → (Creation.comment d dto).Passes fails w s user r u)
          ∧ ((Creation.comment d dto).Passes fails w s user r u → fails .response = false) := by
  have henters : ∀ a : Id × Discussion, CommentsService.createPrelude s d user = .ok a →
      ∃ u, authenticated user = .ok u := fun a h => (bind_eq_ok.mp h).imp fun _ h => h.1
  refine traceless_map.trans ((traceless_creation (fun a : Id × Discussion =>
    (Creation.comment d dto).Passes fails w s user a.2.roomId a.1) ?_ ?_).trans ?_)
  · intro ⟨author, post⟩ hentered
    have hprelude := ((entered_eq_ok henters).mp hentered).2
    -- the new membership does not change which comment is the parent
    have hparentOf : CommentsService.parentOf (autoJoinTo s post.roomId author) d dto = CommentsService.parentOf s d dto := by
      unfold CommentsService.parentOf
      rw [autoJoinTo_toContent]
    show (∃ post' context parent, _) ↔ _
    simp only [afterJoin_eq_ok]
    constructor
    · rintro ⟨post', context, parent, hprelude', hcan, hparent, hpreview, hqueries⟩
      obtain rfl : post = post' := congrArg Prod.snd (Except.ok.inj (hprelude.symm.trans hprelude'))
      rw [← hparentOf] at hparent
      simp only [List.forall_mem_append, List.forall_mem_cons] at hqueries
      obtain ⟨⟨⟨⟨⟨hqroom, hqparent⟩, hqcomment, hqcounter, hnil⟩, hqevent⟩, hqmentions⟩, hqend⟩ := hqueries
      have hcreates : ∃ s' c, CommentsService.createTx w (autoJoinTo s post.roomId author) d dto author post
          = .ok (s', c) := createCommentTx_isOk.mpr ⟨parent, hparent, hpreview⟩
      obtain ⟨s', c, htx⟩ := hcreates
      refine ⟨context, s', c, ⟨hcan, hqroom⟩, ?_⟩
      simp only [CommentsService.createTxQueried, bind_eq_ok, queries_eq_ok, pure_eq_ok, List.forall_mem_append,
        List.forall_mem_cons]
      exact ⟨(), hqparent, parent, hparent, (), ⟨hqcomment, hqcounter, hqevent⟩, (s', c), htx, (), ⟨hqmentions, hqend⟩, rfl⟩
    · rintro ⟨context, s', c, ⟨hcan, hqroom⟩, hrest⟩
      simp only [CommentsService.createTxQueried, bind_eq_ok, queries_eq_ok, pure_eq_ok, List.forall_mem_append,
        List.forall_mem_cons] at hrest
      obtain ⟨_, hqparent, parent, hparent, _, ⟨hqcomment, hqcounter, hqevent⟩, created, htx, _, ⟨hqmentions, hqend⟩,
        rfl⟩ := hrest
      obtain ⟨parent', hparent', hpreview⟩ := createCommentTx_isOk.mp ⟨s', c, htx⟩
      obtain rfl : parent = parent' := Except.ok.inj (hparent.symm.trans hparent')
      rw [hparentOf] at hparent
      refine ⟨post, context, parent, hprelude, hcan, hparent, hpreview, ?_⟩
      simp only [List.forall_mem_append, List.forall_mem_cons]
      exact ⟨⟨⟨⟨⟨hqroom, hqparent⟩, hqcomment, hqcounter, (fun _ h => (by cases h))⟩, hqevent⟩, hqmentions⟩, hqend⟩
  -- a comment that was created is stored, and its response needs no further read
  · intro ⟨author, post⟩ context s' c _ _ hrest
    simp only [CommentsService.createTxQueried, bind_eq_ok, queries_eq_ok, pure_eq_ok] at hrest
    obtain ⟨_, -, parent, -, _, -, created, htx, _, -, rfl⟩ := hrest
    have hnext := createCommentTx_done htx
    rw [autoJoinTo_toContent] at hnext
    refine ⟨?_, rfl⟩
    rintro rfl
    exact Nat.succ_ne_self _ hnext.symm
  · constructor
    · rintro h r u ⟨hq, ⟨post, hprelude, rfl⟩, hbefore⟩
      exact h (u, post) ((entered_eq_ok henters).mpr ⟨hq, hprelude⟩) hbefore
    · intro h ⟨author, post⟩ hentered hbefore
      obtain ⟨hq, hprelude⟩ := (entered_eq_ok henters).mp hentered
      exact h _ _ ⟨hq, ⟨post, hprelude, rfl⟩, hbefore⟩

/-- **When a creation that fails leaves the database as it was.** Where its author has got into the room: if that makes
the author a member, all goes well from there to the end of the transaction; and if all goes well up to there, reading
the response does not fail. -/
theorem creation_leaves_no_trace (fails : Query → Bool) (w : World) (s : Db) (user : GatewayUser) (c : Creation) :
    (c.run fails w s user).Traceless s ↔ ∀ r u, c.Enters fails w s user r u →
      (joins s r u = true → c.Passes fails w s user r u) ∧ (c.Passes fails w s user r u → fails .response = false) := by
  cases c with
  | discussion dto => exact traceless_discussion dto
  | answer d dto => exact traceless_answer d dto
  | comment d dto => exact traceless_comment d dto

end

namespace Sample

/-- A question in an open forum whose members may post. -/
def askedMembers : List Call :=
  [call 0 (student 1) (.rooms (.create
      { slug := "nhom-hoc", name := "Nhóm học", roomType := .forum, postingPolicy := some .members })),
    ask]

/-- Student `2` replies to a comment that is not there. -/
def strayReply : Outcome Db HttpError Unit :=
  (Creation.comment (Id.text 0) { content := "Try it on a torus.", parentCommentId := some (Id.text 7) }).run (fun _ => false)
    (World.quiet 5) (Db.after askedMembers) (student 2)

/-- Student `2` comments, and the database fails when the response is read. -/
def unread : Outcome Db HttpError Unit :=
  (Creation.comment (Id.text 0) { content := "Try it on a torus." }).run (fun q => decide (q = .response))
    (World.quiet 5) (Db.after askedMembers) (student 2)

end Sample

/-- A reply that is rejected makes its author a member of the room; a comment that is written stays when its response
cannot be read. -/
theorem not_creation_leaves_no_trace :
    (Sample.strayReply.result.isOk = false ∧ (Db.after Sample.askedMembers).membership? 0 2 = none
        ∧ (Sample.strayReply.state.membership? 0 2).isSome = true
        ∧ ¬ Sample.strayReply.Traceless (Db.after Sample.askedMembers))
      ∧ Sample.unread.result.isOk = false ∧ Sample.unread.state.comments.next = 1
        ∧ (Db.after Sample.askedMembers).comments.next = 0 := by
  have hbefore : (Db.after Sample.askedMembers).membership? 0 2 = none := by decide
  have hafter : (Sample.strayReply.state.membership? 0 2).isSome = true := by decide
  refine ⟨⟨by decide, hbefore, hafter, fun h => ?_⟩, by decide, by decide, by decide⟩
  have hfails : Sample.strayReply.result.isOk = false := by decide
  cases hresult : Sample.strayReply.result with
  | ok a =>
    rw [hresult] at hfails
    cases hfails
  | error e =>
    rw [h e hresult, hbefore] at hafter
    cases hafter

end AcaSocial
