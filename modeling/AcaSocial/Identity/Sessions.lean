import AcaSocial.Identity.Statements

/-!
# What a statement does to the sessions

The refresh tokens are written by few statements, and few tasks have one in hand.

* **`Task.Issuing`** — the task is about to insert a refresh token, or to save the one that it
  exchanges.
* **`Aside`** — a statement that leaves the tokens alone and goes on as no issuing task.
* **`SessionStep`** — the cases of a statement. `session_step` is its inversion, on which everything
  about sessions rests.
-/

namespace AcaSocial.Identity

/-- The task is between the check that lets it issue a refresh token and the insertion. -/
def Task.Issuing : Task → Prop
  | .refreshSave _ _ => True
  | .generateSave .. => True
  | _ => False

/-- The statement leaves the refresh tokens alone, and its task goes on as no issuing task. -/
structure Aside (s : Store) (e : Step) : Prop where
  tokens : e.store.refreshTokens = s.refreshTokens
  next : ∀ t ∈ e.next, ¬ t.Issuing

namespace Aside

variable {s s' : Store} {t : Task} {r : Reply} {ex : HttpException}

/-- To go on without touching the tokens. -/
theorem go (h : s'.refreshTokens = s.refreshTokens) (ht : ¬ t.Issuing) : Aside s (go s' t) :=
  ⟨h, fun _ ht' => List.mem_singleton.mp ht' ▸ ht⟩

theorem reply (h : s'.refreshTokens = s.refreshTokens) : Aside s (reply s' r) :=
  ⟨h, fun _ ht => absurd ht List.not_mem_nil⟩

theorem fail (h : s'.refreshTokens = s.refreshTokens) : Aside s (fail s' ex) :=
  ⟨h, fun _ ht => absurd ht List.not_mem_nil⟩

theorem done (h : s'.refreshTokens = s.refreshTokens) : Aside s ⟨s', [], none⟩ :=
  ⟨h, fun _ ht => absurd ht List.not_mem_nil⟩

/-- What follows a code issues no token. -/
theorem afterOtp (h : s'.refreshTokens = s.refreshTokens) (valid : Bool) (after : AfterOtp) :
    Aside s (afterOtp s' valid after) := by
  cases after <;> cases valid
  all_goals first
    | exact .fail h
    | exact .go h not_false

/-- What follows a save issues no token. -/
theorem afterSave (h : s'.refreshTokens = s.refreshTokens) (user : User) (after : AfterSave) :
    Aside s (afterSave s' user after) := by
  cases after
  all_goals first
    | exact .reply h
    | exact .go h not_false

/-- No method behind the guard issues a token by itself. -/
theorem handle (user : User) (token : AccessToken) (request : GuardedRequest) :
    Aside s (JwtStrategy.handle s user token request) := by
  cases request with
  | changeRole id dto =>
    simp only [JwtStrategy.handle]
    split
    · exact .fail rfl
    · exact .go rfl not_false
  | _ => exact .go rfl not_false

/-- A statement that writes to no table goes on as no issuing task, unless it is the one that finds a token. -/
theorem of_quiet {e : Step} (h : QuietStep s t e) (hfind : ∀ dto, t ≠ .refreshFind dto) : Aside s e := by
  cases h with
  | ends => exact ⟨rfl, fun _ ht => absurd ht List.not_mem_nil⟩
  | @goes t' hlead =>
    refine .go rfl ?_
    cases hlead with
    | reused => exact absurd rfl (hfind _)
    | refresh => exact absurd rfl (hfind _)
    | @handled token request user t _ hnext =>
      exact (handle user token request).next t' (hnext ▸ List.mem_singleton_self t')
    | _ => exact not_false
  | codes hcodes hnext =>
    refine ⟨by cases hcodes <;> rfl, fun t' ht' => ?_⟩
    rcases hnext with rfl | ⟨email, -, rfl⟩
    · exact absurd ht' List.not_mem_nil
    · rw [List.mem_singleton.mp ht']
      exact not_false

end Aside

/-! ## Revocations

A user's refresh tokens are revoked in one statement, by a request of the user or by a change of the role. -/

/-- The transaction of `changeRole` changes the role of `user`. -/
def ChangesRole (s : Store) (dto : ChangeUserRoleDto) (actor user : User) : Prop :=
  ¬ (user.id = actor.id ∧ dto.role ≠ .admin) ∧ user.role ≠ dto.role
    ∧ ¬ (user.role = .admin ∧ dto.role ≠ .admin
      ∧ s.users.rows.countP (fun u => u.deletedAt.isNone && u.role = .admin) ≤ 1)

instance (s : Store) (dto : ChangeUserRoleDto) (actor user : User) :
    Decidable (ChangesRole s dto actor user) :=
  inferInstanceAs (Decidable (_ ∧ _ ∧ _))

/-- The user whose role the statement changes. -/
def roleChange (s : Store) : Task → Option User
  | .changeRole id dto actor =>
    (s.findUser (·.id = id)).filter fun user => decide (ChangesRole s dto actor user)
  | _ => none

/-- The user whose refresh tokens the statement revokes. -/
def revokes (s : Store) : Task → Option Nat
  | .revokeTokens userId _ => some userId
  | .changeRole id dto actor => (roleChange s (.changeRole id dto actor)).map User.id
  | _ => none

/-- The tokens after a bulk revocation that takes all unrevoked tokens of the user. -/
structure Revoked (s s' : Store) (userId : Nat) : Prop where
  tokens : ∃ p, s'.refreshTokens = (s.revokeTokens p).refreshTokens
    ∧ (∀ t, p t = true → t.userId = userId)
    ∧ ∀ t, t.userId = userId → t.revoked = false → p t = true

/-- The user that is found is live, and is the one that was asked for. -/
theorem findUser_eq_some {s : Store} {p : User → Bool} {user : User} (h : s.findUser p = some user) :
    user ∈ s.users ∧ user.deletedAt = none ∧ p user = true := by
  have hp := List.find?_some h
  simp only [Bool.and_eq_true, Option.isNone_iff_eq_none] at hp
  exact ⟨List.mem_of_find?_eq_some h, hp.1, hp.2⟩

/-- The two ways in which the transaction of `changeRole` ends. -/
theorem changeRole_cases (s : Store) (id : Nat) (dto : ChangeUserRoleDto) (actor : User) :
    (roleChange s (.changeRole id dto actor) = none
      ∧ ((∃ r, UsersService.changeRole s id dto actor = reply s r)
        ∨ ∃ e, UsersService.changeRole s id dto actor = fail s e))
    ∨ ∃ user, s.findUser (·.id = id) = some user
      ∧ roleChange s (.changeRole id dto actor) = some user
      ∧ UsersService.changeRole s id dto actor = reply (UsersService.commitRole s dto actor user)
        (.profile (getProfile (UsersService.withRole s user dto.role))) := by
  have hchange : roleChange s (.changeRole id dto actor)
      = (s.findUser (·.id = id)).filter fun user => decide (ChangesRole s dto actor user) := rfl
  rw [hchange]
  cases hfind : s.findUser (·.id = id) with
  | none =>
    refine .inl ⟨rfl, .inr ⟨.notFound "User not found", ?_⟩⟩
    rw [UsersService.changeRole, hfind]
  | some user =>
    -- the three checks of the source, in its order
    by_cases hcase : ChangesRole s dto actor user
    · obtain ⟨hself, hrole, hlast⟩ := hcase
      refine .inr ⟨user, rfl, ?_, ?_⟩
      · exact if_pos (decide_eq_true ⟨hself, hrole, hlast⟩)
      · rw [UsersService.changeRole, hfind]
        simp only [if_neg hself, if_neg hrole, if_neg hlast]
    · refine .inl ⟨if_neg (by simpa using hcase), ?_⟩
      rw [UsersService.changeRole, hfind]
      simp only
      split
      · exact .inr ⟨_, rfl⟩
      · next hself =>
        split
        · exact .inl ⟨_, rfl⟩
        · next hrole =>
          split
          · exact .inr ⟨_, rfl⟩
          · next hlast => exact absurd ⟨hself, hrole, hlast⟩ hcase

/-! ## The cases of a statement

`SessionStep` lists what a statement can do to refresh tokens. The lemmas go through the statements that do something,
and `session_step` puts them together. -/

/-- The token that `refreshToken` lets through: it is neither revoked nor expired. -/
def exchangeable (env : Env) (s : Store) (dto : RefreshTokenDto) : Option RefreshToken :=
  (s.refreshTokens.rows.find? (·.tokenHash = env.sha256 dto.refreshToken)).filter fun t =>
    !t.revoked && !decide (t.expiresAt < s.now)

/-- What a statement does to the refresh tokens and to the tasks that issue them. -/
inductive SessionStep (env : Env) (s : Store) : Task → Step → Prop where
  /-- Nothing. -/
  | aside {t : Task} {e : Step} (ht : ¬ t.Issuing) (hrevokes : revokes s t = none) (he : Aside s e) :
      SessionStep env s t e
  /-- `refreshToken` finds a token that is not revoked. -/
  | found {dto : RefreshTokenDto} {stored : RefreshToken} (hmem : stored ∈ s.refreshTokens)
      (hrevoked : stored.revoked = false) (hfind : exchangeable env s dto = some stored) :
      SessionStep env s (.refreshFind dto)
        (go s (.refreshSave stored (s.findUser (·.id = stored.userId))))
  /-- The user of the found token is gone, and its task ends. -/
  | gone {stored : RefreshToken} {e : Step} (htokens : e.store.refreshTokens = s.refreshTokens)
      (hnext : e.next = []) : SessionStep env s (.refreshSave stored none) e
  /-- The found token is saved as revoked, and its task goes on. -/
  | saved {stored : RefreshToken} {user : User} {access : AccessToken} {raw : Uuid} {expiresAt : Int}
      {e : Step}
      (htokens : e.store.refreshTokens = s.refreshTokens.save { stored with revoked := true })
      (hnext : e.next = [.generateSave (.refreshToken stored) user.id access raw expiresAt]) :
      SessionStep env s (.refreshSave stored (some user)) e
  /-- The password check of `login` passes. -/
  | checked {dto : LoginDto} {user : User} {e : Step}
      (hmatch : env.bcryptCompare dto.password user.passwordHash = true)
      (htokens : e.store.refreshTokens = s.refreshTokens)
      (hnext : ∀ t ∈ e.next, t.Issuing → ∃ access raw expiresAt,
        t = .generateSave .login user.id access raw expiresAt) :
      SessionStep env s (.loginCompare dto user) e
  /-- A new token is inserted. -/
  | inserted {caller : Caller} {userId : Nat} {access : AccessToken} {raw : Uuid} {expiresAt : Int}
      {e : Step} (hhash : ∀ t ∈ s.refreshTokens, t.tokenHash ≠ env.sha256 raw)
      (htokens : e.store.refreshTokens = s.refreshTokens.insert
        (AuthService.newRefreshToken env s userId raw expiresAt) fun _ => rfl)
      (hnext : e.next = []) :
      SessionStep env s (.generateSave caller userId access raw expiresAt) e
  /-- The hash of the new token is taken. -/
  | refused {caller : Caller} {userId : Nat} {access : AccessToken} {raw : Uuid} {expiresAt : Int}
      {e : Step} (hhash : ∃ t ∈ s.refreshTokens, t.tokenHash = env.sha256 raw)
      (htokens : e.store.refreshTokens = s.refreshTokens) (hnext : e.next = []) :
      SessionStep env s (.generateSave caller userId access raw expiresAt) e
  /-- The tokens of a user are revoked. -/
  | revoked {t : Task} {e : Step} {userId : Nat} (ht : ¬ t.Issuing)
      (hrevokes : revokes s t = some userId) (htokens : Revoked s e.store userId)
      (hnext : ∀ t ∈ e.next, ¬ t.Issuing) : SessionStep env s t e

/-- A refusal leaves the tokens alone. -/
theorem Aside.of_refuses {s : Store} {e : Step} (h : (∃ r, e = Identity.reply s r) ∨ ∃ ex, e = Identity.fail s ex) :
    Aside s e := by
  rcases h with ⟨r, rfl⟩ | ⟨ex, rfl⟩
  · exact .reply rfl
  · exact .fail rfl

/-- `refreshToken` goes on with a token that is neither revoked nor expired. -/
theorem refreshToken_step (env : Env) (s : Store) (dto : RefreshTokenDto) :
    SessionStep env s (.refreshFind dto) (AuthService.refreshToken env s dto) := by
  unfold AuthService.refreshToken
  split
  · exact .aside not_false rfl (.fail rfl)
  · next stored hfind =>
    have hmem : stored ∈ s.refreshTokens := List.mem_of_find?_eq_some hfind
    cases hrevoked : stored.revoked with
    | true => exact .aside not_false rfl (.go rfl not_false)
    | false =>
      rw [if_neg Bool.false_ne_true]
      split
      · exact .aside not_false rfl (.fail rfl)
      · next hexpires =>
        refine .found hmem hrevoked ?_
        rw [exchangeable, hfind, Option.filter_some, hrevoked]
        simpa using hexpires

/-- The found token is saved as revoked, if its user is still there. -/
theorem refreshSave_step (env : Env) (s : Store) (stored : RefreshToken) (user : Option User) :
    SessionStep env s (.refreshSave stored user) (AuthService.refreshSave env s stored user) := by
  cases user with
  | none => exact .gone rfl rfl
  | some user => exact .saved rfl rfl

/-- A password that is right lets a token be issued. -/
theorem loginCompare_step (env : Env) (s : Store) (dto : LoginDto) (user : User) :
    SessionStep env s (.loginCompare dto user) (AuthService.loginCompare env s dto user) := by
  unfold AuthService.loginCompare
  cases hmatch : env.bcryptCompare dto.password user.passwordHash with
  | false => exact .aside not_false rfl (.fail rfl)
  | true =>
    refine .checked hmatch rfl fun t ht hissuing => ?_
    rcases List.mem_cons.mp ht with rfl | ht
    · exact ⟨_, _, _, rfl⟩
    · rw [List.mem_singleton.mp ht] at hissuing
      exact absurd hissuing not_false

/-- The new token is inserted, or its hash is taken. -/
theorem generateSave_step (env : Env) (s : Store) (caller : Caller) (userId : Nat)
    (access : AccessToken) (raw : Uuid) (expiresAt : Int) :
    SessionStep env s (.generateSave caller userId access raw expiresAt)
      (AuthService.generateSave env s userId access raw expiresAt) := by
  unfold AuthService.generateSave
  split
  · next htaken => exact .refused htaken rfl rfl
  · next hfree =>
    exact .inserted (fun t ht he => hfree ⟨t, ht, he⟩) rfl rfl

/-- All tokens of a user are revoked. -/
theorem revokeTokens_step (env : Env) (s : Store) (userId : Nat) (revocation : Revocation) :
    SessionStep env s (.revokeTokens userId revocation)
      (afterRevocation (AuthService.revokeAll s userId revocation) userId revocation) := by
  have htokens : Revoked s (AuthService.revokeAll s userId revocation) userId := by
    refine ⟨?_⟩
    unfold AuthService.revokeAll
    split
    all_goals
      refine ⟨_, rfl, ?_, ?_⟩ <;> simp +contextual
  cases revocation with
  | reuse => exact .revoked not_false rfl htokens fun _ ht => absurd ht List.not_mem_nil
  | resetPassword => exact .revoked not_false rfl htokens fun _ ht => absurd ht List.not_mem_nil
  | endSession by_ jti exp =>
    refine .revoked not_false rfl htokens fun t ht => ?_
    rw [List.mem_singleton.mp ht]
    exact not_false

/-- A change of the role revokes the tokens of the user. -/
theorem changeRole_step (env : Env) (s : Store) (id : Nat) (dto : ChangeUserRoleDto) (actor : User) :
    SessionStep env s (.changeRole id dto actor) (UsersService.changeRole s id dto actor) := by
  rcases changeRole_cases s id dto actor with ⟨hnone, hrefused⟩ | ⟨user, -, hsome, he⟩
  · refine .aside not_false ?_ (.of_refuses hrefused)
    rw [revokes, hnone]
    rfl
  · rw [he]
    have hrevokes : revokes s (.changeRole id dto actor) = some user.id := by
      rw [revokes, hsome]
      rfl
    refine .revoked not_false hrevokes ⟨⟨_, rfl, ?_, ?_⟩⟩ fun _ ht => absurd ht List.not_mem_nil
    · simp
    · simp +contextual

/-- **What a statement does to the sessions.** -/
theorem session_step (env : Env) (x : Input) (s : Store) (t : Task) :
    SessionStep env s t (statement env x s t) := by
  cases t with
  | refreshFind dto => exact refreshToken_step env s dto
  | refreshSave stored user => exact refreshSave_step env s stored user
  | loginCompare dto user => exact loginCompare_step env s dto user
  | generateSave caller userId access raw expiresAt =>
    exact generateSave_step env s caller userId access raw expiresAt
  | revokeTokens userId revocation => exact revokeTokens_step env s userId revocation
  | changeRole id dto actor => exact changeRole_step env s id dto actor
  | saveWrite user database after =>
    refine .aside not_false rfl ?_
    simp only [statement, saveWrite]
    split
    · exact .fail rfl
    · split
      · exact .fail rfl
      · refine .afterSave ?_ user after
        rfl
  | verifyOtp point key otp after =>
    refine .aside not_false rfl ?_
    obtain ⟨redis, hredis, -⟩ := OtpService.verifyOtp_store s key otp point
    have htokens : (OtpService.verifyOtp s key otp point).1.refreshTokens = s.refreshTokens := by
      rw [hredis]
    simp only [statement]
    split <;> next h =>
      rw [h] at htokens
      first
        | exact .go htokens not_false
        | exact .afterOtp htokens _ after
        | exact .fail htokens
  | blacklistSet userId jti exp by_ =>
    refine .aside not_false rfl ?_
    cases by_
    · exact .reply rfl
    · exact .reply rfl
    · exact .go rfl not_false
  | deleteSoftDelete userId =>
    refine .aside not_false rfl (.reply ?_)
    split <;> rfl
  | loginUpdateLastLogin userId lastLoginAt =>
    refine .aside not_false rfl ?_
    simp only [statement, AuthService.loginUpdateLastLogin]
    split <;> exact .done rfl
  | registerSave dto =>
    refine .aside not_false rfl ?_
    simp only [statement, AuthService.registerSave]
    split
    · exact .fail rfl
    · exact .go rfl not_false
  -- the others write to no table
  | _ => exact .aside not_false rfl (.of_quiet (quiet_step env x s trivial) fun _ h => by cases h)

end AcaSocial.Identity
