import AcaSocial.Identity.LoneRequests
import AcaSocial.Identity.TokenLedger

/-!
# Which access tokens are live

`validate` has a blacklist with times to live, the row of the user, and the time of the last change of
its password or role. Requests run here one after another, each alone, at times in milliseconds.

* **`occasions`** — what a request did to tokens, by its answer.
* **`Marks`** — how the evidence for `validate` goes on with what a request did. `marks_request` says it
  of every request.
* **`LivenessExact`** — `validate` accepts a token that has not expired exactly when its user is live, it
  was not presented to end its own session, and its user was not changed since it was issued.

`liveness_exact` is about all runs in which no user is changed in the second in which one of its tokens
was issued, and `not_livenessExact_sameSecond` is one in which one is.
-/

namespace AcaSocial.Identity

/-- The evidence of a store. -/
def Store.evidence (s : Store) : Evidence where
  now := s.now
  uuids := s.uuids
  issued := s.issued
  blacklist := s.redis.blacklist
  changedAt userId := (s.users.get? userId).bind User.passwordChangedAt

/-! ## What a request did

The occasions that decide whether a token is alive: it was issued, its session was ended, or its user was changed.
They are read off the answer of a request, as a client could. -/

/-- The answer is not a refusal. -/
def Succeeded : Option (Except HttpException Reply) → Bool
  | some (.ok _) => true
  | _ => false

/-- The access token that an answer returns. -/
def returned : Option (Except HttpException Reply) → List Occasion
  | some (.ok (.tokens access _)) => [.issued access]
  | _ => []

/-- What a request did to tokens, when it found the store `s` and answered `a`. A change of the role to
the one that the user has is none. -/
def occasions (s : Store) (a : Option (Except HttpException Reply)) : Request → List Occasion
  | .login _ | .refreshToken _ => returned a
  | .resetPassword dto =>
    if Succeeded a then ((s.findUser (·.email = dto.email)).map fun user => .changed user.id).toList
    else []
  | .guarded token .logout | .guarded token (.deleteAccount _) =>
    if Succeeded a then [.ended token] else []
  | .guarded token (.changePassword _) =>
    if Succeeded a then [.changed token.sub, .ended token] else []
  | .guarded _ (.changeRole id dto) =>
    if Succeeded a ∧ (s.users.get? id).map User.role ≠ some dto.role then [.changed id] else []
  | _ => []

/-- The evidence goes from `e` to `e'` with what happened, the latest first. A change comes last. -/
inductive Marks (e : Evidence) : List Occasion → Evidence → Prop where
  | nil : Marks e [] e
  /-- A token was signed, and the insertion of its refresh token was refused. -/
  | unsent {token : AccessToken} (ho : e.Valid (.issued token)) :
      Marks e [] (e.after (.issued token))
  | cons {log : List Occasion} {e' : Evidence} {o : Occasion} (h : Marks e log e') (ho : e'.Valid o)
      (hlast : ∀ userId, .changed userId ∉ log) : Marks e (o :: log) (e'.after o)

variable {env : Env} {x : Input} {s s' : Store} {f : Step} {user row : User}

/-! ## The evidence after a write

What the guard looks at when a token is presented. Most writes leave all of it alone. -/

/-- The evidence is read from the users, the clock, the issued tokens and the blacklist. -/
theorem evidence_of_users (husers : s'.users = s.users) (hnow : s'.now = s.now) (huuids : s'.uuids = s.uuids)
    (hissued : s'.issued = s.issued) (hblacklist : s'.redis.blacklist = s.redis.blacklist) :
    s'.evidence = s.evidence := by
  simp only [Store.evidence, husers, hnow, huuids, hissued, hblacklist]

/-- A save writes the time of the change that the entity has. -/
theorem evidence_save (hrow : s.users.get? user.id = some row) :
    ({ s with users := s.users.save user } : Store).evidence
      = { s.evidence with
          changedAt := Function.update s.evidence.changedAt user.id user.passwordChangedAt } := by
  simp only [Store.evidence, Evidence.mk.injEq, true_and]
  funext userId
  by_cases hu : userId = user.id
  · subst hu
    have hsave : (s.users.save user).get? user.id = some user := Table.get?_save_self hrow
    rw [Function.update_self, hsave, Option.bind_some]
  · have hsave : (s.users.save user).get? userId = s.users.get? userId :=
      Table.get?_save_of_ne fun he => hu he.symm
    rw [Function.update_of_ne hu, hsave]

/-- A save that does not touch the time of the change leaves the evidence alone. -/
theorem evidence_save_same (hrow : s.users.get? user.id = some row)
    (hsame : user.passwordChangedAt = row.passwordChangedAt) :
    ({ s with users := s.users.save user } : Store).evidence = s.evidence := by
  have hold : s.evidence.changedAt user.id = user.passwordChangedAt := by
    show (s.users.get? user.id).bind User.passwordChangedAt = _
    rw [hrow, Option.bind_some, hsame]
  rw [evidence_save hrow, ← hold, Function.update_eq_self]

/-- A new user has never been changed. -/
theorem evidence_register (env : Env) (x : Input) (s : Store) (dto : RegisterDto) :
    ({ s with users := s.users.insert (AuthService.newUser env x s dto) fun _ => rfl } : Store).evidence
      = s.evidence := by
  simp only [Store.evidence, Evidence.mk.injEq, true_and]
  funext userId
  refine (congrArg (Option.bind · User.passwordChangedAt)
    (s.users.get?_insert _ (fun _ => rfl) userId)).trans ?_
  split
  · next hu =>
    rw [← hu, s.users.get?_next]
    rfl
  · rfl

/-- To revoke refresh tokens leaves the access tokens alone. -/
theorem evidence_revokeAll (s : Store) (userId : Nat) (revocation : Revocation) :
    (AuthService.revokeAll s userId revocation).evidence = s.evidence := by
  unfold AuthService.revokeAll
  split <;> rfl

theorem evidence_loginUpdateLastLogin (s : Store) (userId : Nat) (lastLoginAt : Time) :
    (AuthService.loginUpdateLastLogin s userId lastLoginAt).store.evidence = s.evidence := by
  unfold AuthService.loginUpdateLastLogin
  cases hrow : s.users.get? userId with
  | none => rfl
  | some user =>
    obtain rfl := (Table.get?_eq_some.mp hrow).2
    have hsaved : s.users.get? { user with lastLoginAt := some lastLoginAt }.id = some user := hrow
    exact evidence_save_same hsaved rfl

theorem evidence_deleteSoftDelete (s : Store) (userId : Nat) :
    (UsersService.deleteSoftDelete s userId).store.evidence = s.evidence := by
  unfold UsersService.deleteSoftDelete
  cases hrow : s.users.get? userId with
  | none => rfl
  | some user =>
    obtain rfl := (Table.get?_eq_some.mp hrow).2
    have hsaved : s.users.get? { user with deletedAt := some s.now }.id = some user := hrow
    exact evidence_save_same hsaved rfl

/-! ## The requests that do nothing to tokens

A request is followed over its statements while it runs alone. Registrations and codes leave the evidence as it is. -/

/-- A refused request did nothing. -/
theorem occasions_error (s : Store) (e : HttpException) (r : Request) :
    occasions s (some (.error e)) r = [] := by
  cases r with
  | guarded token request => cases request <;> rfl
  | _ => rfl

/-- A request that fails and has written nothing leaves no occasion. -/
theorem marks_fail {r : Request} {e : HttpException} (h : f = fail s' e)
    (hsame : s'.evidence = s.evidence) : Marks s.evidence (occasions s f.reply r) f.store.evidence := by
  subst h
  show Marks s.evidence (occasions s (some (.error e)) r) s'.evidence
  rw [occasions_error, hsame]
  exact .nil

/-- A request that leaves no occasion leaves the evidence as it is. -/
theorem marks_of_same {r : Request} (ho : occasions s f.reply r = [])
    (h : f.store.evidence = s.evidence) : Marks s.evidence (occasions s f.reply r) f.store.evidence := by
  rw [ho, h]
  exact .nil

/-- A registration leaves the tokens alone. -/
theorem evidence_registerAlone {dto : RegisterDto} (h : Lone env x (go s (.registerFind dto)) f) :
    f.store.evidence = s.evidence := by
  have h := h.next
  simp only [statement, AuthService.register] at h
  split at h
  · rw [h.done]
  · have h := h.next
    simp only [statement, AuthService.registerSave] at h
    split at h
    · rw [h.done]
    · have h := h.next
      simp only [statement, AuthService.registerSendOtp] at h
      split at h <;> rw [h.done] <;> exact evidence_register env x s dto

/-- A code that is sent again leaves the tokens alone. -/
theorem evidence_resendAlone {email : String} (h : Lone env x (go s (.resendFind email)) f) :
    f.store.evidence = s.evidence := by
  have h := h.next
  simp only [statement, AuthService.resendOtp] at h
  split at h
  · rw [h.done]
  · split at h
    · rw [h.done]
    · have h := h.next
      simp only [statement, AuthService.resendExistsCooldown] at h
      split at h
      · rw [h.next.done]
      · have h := h.next
        simp only [statement, AuthService.resendSendOtp] at h
        split at h
        · rw [h.next.done]
          rfl
        · rw [h.done]
          rfl

/-- A code for a new password leaves the tokens alone. -/
theorem evidence_forgotAlone {dto : ForgotPasswordDto} (h : Lone env x (go s (.forgotFind dto)) f) :
    f.store.evidence = s.evidence := by
  have h := h.next
  simp only [statement, AuthService.forgotPassword] at h
  split at h
  · rw [h.done]
  · have h := h.next
    simp only [statement, AuthService.forgotSendOtp] at h
    split at h <;> rw [h.done] <;> rfl

/-- A save that is not one of the password leaves the evidence alone. -/
theorem evidence_saveAlone {after : AfterSave} (h : Lone env x (go s (.saveRead user after)) f)
    (hrow : s.users.get? user.id = some row) (hsame : user.passwordChangedAt = row.passwordChangedAt)
    (hafter : ∀ s, ∃ r, afterSave s user after = reply s r) : f.store.evidence = s.evidence := by
  rcases lone_save h hrow with ⟨-, rfl⟩ | ⟨-, h⟩
  · rfl
  · obtain ⟨r, hr⟩ := hafter { s with users := s.users.save user }
    rw [hr] at h
    rw [h.done]
    exact evidence_save_same hrow hsame

/-- A verification alone leaves the evidence alone, and the request ends with it or goes on. -/
theorem lone_verified {key : OtpKey} {otp : String} {after : AfterOtp}
    (h : Lone env x (go s (.verifyOtp .existsLock key otp after)) f) :
    (∃ s' e, s'.evidence = s.evidence ∧ f = fail s' e)
      ∨ ∃ redis valid, ({ s with redis } : Store).evidence = s.evidence
        ∧ Lone env x (afterOtp { s with redis } valid after) f := by
  obtain ⟨redis, hstore, hblacklist⟩ := verifyAlone_store s key otp
  have hsame : ({ s with redis } : Store).evidence = s.evidence :=
    evidence_of_users rfl rfl rfl rfl hblacklist
  rcases lone_verifyOtp h with ⟨s', e, hverify, hf⟩ | ⟨s', valid, hverify, h⟩ <;>
    rw [hverify] at hstore <;> subst hstore
  · exact .inl ⟨_, e, hsame, hf⟩
  · exact .inr ⟨redis, valid, hsame, h⟩

/-- A verified account has no token yet. -/
theorem evidence_verifyRegisterAlone {dto : VerifyOtpDto}
    (h : Lone env x (go s (.verifyRegisterFind dto)) f) : f.store.evidence = s.evidence := by
  have h := h.next
  simp only [statement, AuthService.verifyRegisterOtp] at h
  split at h
  · rw [h.done]
  · next user hfind =>
    split at h
    · rw [h.done]
    · have h := h.next
      simp only [statement, AuthService.verifyRegisterFindUsername] at h
      split at h
      · rw [h.done]
      · rcases lone_verified h with ⟨s', e, hsame, rfl⟩ | ⟨redis, valid, hsame, h⟩
        · exact hsame
        · cases valid with
          | false =>
            rw [h.done]
            exact hsame
          | true =>
            have hrow : s.users.get? user.id = some user := get?_of_findUser hfind
            exact (evidence_saveAlone h hrow rfl fun s => ⟨_, rfl⟩).trans hsame

/-- A code for a new address leaves the tokens alone. -/
theorem evidence_requestEmailAlone {dto : RequestChangeEmailDto}
    (h : Lone env x (go s (.requestEmailFind user dto)) f) : f.store.evidence = s.evidence := by
  have h := h.next
  simp only [statement, UsersService.requestChangeEmail] at h
  split at h
  · rw [h.done]
  · have h := h.next
    simp only [statement, UsersService.requestEmailSendOtp] at h
    split at h <;> rw [h.done] <;> rfl

/-- A new address leaves the tokens alone. -/
theorem evidence_confirmEmailAlone {dto : ConfirmChangeEmailDto}
    (hrow : s.users.get? user.id = some user)
    (h : Lone env x (go s (.confirmEmailFind user dto)) f) : f.store.evidence = s.evidence := by
  have h := h.next
  simp only [statement, UsersService.confirmChangeEmail] at h
  split at h
  · rw [h.done]
  · rcases lone_verified h with ⟨s', e, hsame, rfl⟩ | ⟨redis, valid, hsame, h⟩
    · exact hsame
    · cases valid with
      | false =>
        rw [h.done]
        exact hsame
      | true =>
        exact (evidence_saveAlone h hrow rfl fun s => ⟨_, rfl⟩).trans hsame

/-! ## The requests that issue, end or change

The others, each with the occasion that it leaves in the log. -/

/-- The tasks that a login leaves beside the insertion of its refresh token. -/
def Beside (ts : List Task) : Prop :=
  ts = [] ∨ ∃ userId lastLoginAt, ts = [.loginUpdateLastLogin userId lastLoginAt]

/-- The tasks beside a request that has answered change no evidence. -/
theorem Beside.ends {ts : List Task} {a : Except HttpException Reply} (hts : Beside ts)
    (h : Lone env x ⟨s, ts ++ [], some a⟩ f) :
    f.store.evidence = s.evidence ∧ f.reply = some a := by
  rcases hts with rfl | ⟨userId, lastLoginAt, rfl⟩
  · rw [h.done]
    exact ⟨rfl, rfl⟩
  · have hquiet : ∀ s, (AuthService.loginUpdateLastLogin s userId lastLoginAt).next = []
        ∧ (AuthService.loginUpdateLastLogin s userId lastLoginAt).reply = none := by
      intro s
      unfold AuthService.loginUpdateLastLogin
      split <;> exact ⟨rfl, rfl⟩
    have h := h.first
    simp only [statement, (hquiet s).1, (hquiet s).2] at h
    rw [h.done]
    exact ⟨evidence_loginUpdateLastLogin s userId lastLoginAt, rfl⟩

/-- The two ways in which the insertion of a refresh token ends. -/
theorem generateSave_cases (env : Env) (s : Store) (userId : Nat) (access : AccessToken) (raw : Uuid)
    (expiresAt : Int) :
    AuthService.generateSave env s userId access raw expiresAt = fail s .internalServerError
      ∨ ∃ refreshTokens, AuthService.generateSave env s userId access raw expiresAt
        = reply { s with refreshTokens } (.tokens access raw) := by
  unfold AuthService.generateSave
  split
  · exact .inl rfl
  · exact .inr ⟨_, rfl⟩

/-- The last statements of a request that issues a token. -/
theorem marks_generate {caller : Caller} {ts : List Task} {r : Request}
    (h : Lone env x ⟨(AuthService.generateTokens env s' caller user).1,
      (AuthService.generateTokens env s' caller user).2 :: ts, none⟩ f)
    (hsame : s'.evidence = s.evidence) (hr : ∀ a, occasions s a r = returned a) (hts : Beside ts) :
    Marks s.evidence (occasions s f.reply r) f.store.evidence := by
  have hvalid : s.evidence.Valid (.issued (AuthService.sign env s' user)) := by
    rw [← hsame]
    exact ⟨rfl, rfl⟩
  have hsigned : (AuthService.generateTokens env s' caller user).1.evidence
      = s.evidence.after (.issued (AuthService.sign env s' user)) := by
    rw [← hsame]
    rfl
  have h : Lone env x ⟨(AuthService.generateSave env _ _ _ _ _).store,
    ts ++ (AuthService.generateSave env _ _ _ _ _).next,
    (AuthService.generateSave env _ _ _ _ _).reply.or none⟩ f := h.first
  rcases generateSave_cases env _ _ _ _ _ with he | ⟨refreshTokens, he⟩ <;> rw [he] at h
  · -- the hash of the refresh token is there already
    obtain ⟨hstore, hreply⟩ := hts.ends h
    rw [hstore, hr, hreply]
    show Marks _ _ (AuthService.generateTokens env s' caller user).1.evidence
    rw [hsigned]
    exact .unsent hvalid
  -- the row is inserted, and the token sent
  · obtain ⟨hstore, hreply⟩ := hts.ends h
    rw [hstore, hr, hreply]
    show Marks _ _ (AuthService.generateTokens env s' caller user).1.evidence
    rw [hsigned]
    exact .cons .nil hvalid fun _ => List.not_mem_nil

/-- A login issues a token, or fails and leaves no occasion. -/
theorem marks_login {dto : LoginDto} (h : Lone env x (go s (.loginFind dto)) f) :
    Marks s.evidence (occasions s f.reply (.login dto)) f.store.evidence := by
  have h := h.next
  simp only [statement, AuthService.login] at h
  split at h
  · exact marks_fail h.done rfl
  · next user _ =>
    split at h
    · exact marks_fail h.done rfl
    · have h := h.next
      simp only [statement, AuthService.loginCompare] at h
      split at h
      · exact marks_fail h.done rfl
      · exact marks_generate h rfl (fun _ => rfl) (.inr ⟨_, _, rfl⟩)

/-- An exchange issues a token, or fails and leaves no occasion. -/
theorem marks_refresh {dto : RefreshTokenDto} (h : Lone env x (go s (.refreshFind dto)) f) :
    Marks s.evidence (occasions s f.reply (.refreshToken dto)) f.store.evidence := by
  have h := h.next
  simp only [statement, AuthService.refreshToken] at h
  split at h
  · exact marks_fail h.done rfl
  · next stored _ =>
    split at h
    · exact marks_fail h.next.done (evidence_revokeAll s _ _)
    · split at h
      · exact marks_fail h.done rfl
      · have h := h.next
        simp only [statement, AuthService.refreshSave] at h
        split at h
        · exact marks_fail h.done rfl
        · exact marks_generate h rfl (fun _ => rfl) (.inl rfl)

/-- The user with a new password. -/
def withPassword (s : Store) (user : User) (passwordHash : String) : User :=
  { user with passwordHash, passwordChangedAt := some s.now }

/-- A save of which the entity has the present time of the change is a change of the user. -/
theorem evidence_changed (hrow : s.users.get? user.id = some row)
    (hnow : user.passwordChangedAt = some s.now) :
    ({ s with users := s.users.save user } : Store).evidence
      = s.evidence.after (.changed user.id) := by
  rw [evidence_save hrow, hnow]
  rfl

/-- A save of a new password, and the revocation after it. -/
theorem evidence_savePassword (s : Store) {passwordHash : String} {userId : Nat} (revocation : Revocation)
    (hrow : s.users.get? user.id = some row) :
    (AuthService.revokeAll { s with users := s.users.save (withPassword s user passwordHash) } userId
      revocation).evidence = s.evidence.after (.changed user.id) := by
  rw [evidence_revokeAll]
  have hsaved : s.users.get? (withPassword s user passwordHash).id = some row := hrow
  exact evidence_changed hsaved rfl

/-- A new password by a code is a change of its user. -/
theorem marks_reset {dto : ResetPasswordDto} (h : Lone env x (go s (.resetFind dto)) f) :
    Marks s.evidence (occasions s f.reply (.resetPassword dto)) f.store.evidence := by
  have h := h.next
  simp only [statement, AuthService.resetPassword] at h
  split at h
  -- no user has this address
  · exact marks_fail h.done rfl
  · next user hfind =>
    have hrow : s.users.get? user.id = some user := get?_of_findUser hfind
    rcases lone_verified h with ⟨s', e, hsame, hf⟩ | ⟨redis, valid, hsame, h⟩
    · exact marks_fail hf hsame
    · cases valid with
      -- the code is refused, and no user has changed
      | false => exact marks_fail h.done hsame
      | true =>
        have h := h.next
        simp only [statement, AuthService.resetHash] at h
        rcases lone_save h hrow with ⟨-, hf⟩ | ⟨-, h⟩
        · exact marks_fail hf hsame
        · have hf := h.next.done
          have hoccasions : occasions s f.reply (.resetPassword dto) = [.changed user.id] := by
            rw [hf]
            show ((s.findUser (·.email = dto.email)).map fun user => Occasion.changed user.id).toList = _
            rw [hfind]
            rfl
          have hevidence : f.store.evidence = s.evidence.after (.changed user.id) := by
            rw [hf, ← hsame]
            exact evidence_savePassword _ .resetPassword hrow
          rw [hoccasions, hevidence]
          exact .cons .nil trivial fun _ => List.not_mem_nil

/-- The blacklist entry of an ended session. -/
theorem evidence_blacklist (s : Store) (token : AccessToken) :
    (AuthService.blacklist s token.jti token.exp).evidence = s.evidence.after (.ended token) := rfl

/-- A change of the role that succeeds changes the user, or finds that the user has the role. -/
theorem marks_changeRole {token : AccessToken} {id : Nat} {dto : ChangeUserRoleDto} {actor : User}
    (h : Lone env x (go s (.changeRole id dto actor)) f) :
    Marks s.evidence (occasions s f.reply (.guarded token (.changeRole id dto))) f.store.evidence := by
  have h := h.next
  simp only [statement, UsersService.changeRole] at h
  split at h
  · exact marks_fail h.done rfl
  · next user hfind =>
    have hid : user.id = id := of_decide_eq_true (findUser_eq_some hfind).2.2
    have hrow : s.users.get? user.id = some user := get?_of_findUser hfind
    have hrole : (s.users.get? id).map User.role = some user.role := by
      rw [← hid, hrow]
      rfl
    split at h
    · exact marks_fail h.done rfl
    · split at h
      -- a role that the user has already is no change
      · next hkept =>
        rw [h.done]
        have hnone : occasions s (some (.ok (.profile (getProfile user)))) (.guarded token (.changeRole id dto))
            = [] := if_neg fun hchange => hchange.2 (hrole.trans (congrArg some hkept))
        show Marks _ (occasions s (some (.ok _)) _) s.evidence
        rw [hnone]
        exact .nil
      · next hdiffer =>
        split at h
        · exact marks_fail h.done rfl
        · rw [h.done]
          have hone : ∀ r, occasions s (some (.ok r)) (.guarded token (.changeRole id dto))
              = [.changed id] :=
            fun r => if_pos ⟨rfl, fun hsame => hdiffer (Option.some.inj (hrole.symm.trans hsame))⟩
          have hevidence : (UsersService.commitRole s dto actor user).evidence
              = s.evidence.after (.changed id) := by
            rw [← hid]
            have hsaved : s.users.get? (UsersService.withRole s user dto.role).id = some user := hrow
            exact evidence_changed hsaved rfl
          show Marks _ (occasions s (some (.ok _)) _) (UsersService.commitRole s dto actor user).evidence
          rw [hone, hevidence]
          exact .cons .nil trivial fun _ => List.not_mem_nil

/-- A request behind the guard ends a session, changes a user or leaves no occasion. -/
theorem marks_guarded {token : AccessToken} {request : GuardedRequest}
    (h : Lone env x (go s (.validateGet token request)) f) :
    Marks s.evidence (occasions s f.reply (.guarded token request)) f.store.evidence := by
  rcases lone_guard h with ⟨-, e, hf⟩ | ⟨user, haccepted, h⟩
  · exact marks_fail hf rfl
  · obtain ⟨hissued, hid, hrow⟩ := row_of_accepted haccepted
    cases request with
    | logout =>
      rw [h.next.next.done]
      show Marks _ [.ended token] (AuthService.blacklist _ token.jti token.exp).evidence
      rw [evidence_blacklist, evidence_revokeAll]
      exact .cons .nil hissued fun _ => List.not_mem_nil
    | deleteAccount dto =>
      have h := h.next
      simp only [statement, UsersService.deleteAccount] at h
      split at h
      · exact marks_fail h.done rfl
      · have h := h.next.next.next
        simp only [statement] at h
        rw [h.done]
        show Marks _ [.ended token] (UsersService.deleteSoftDelete _ _).store.evidence
        rw [evidence_deleteSoftDelete, evidence_blacklist, evidence_revokeAll]
        exact .cons .nil hissued fun _ => List.not_mem_nil
    -- the save marks the change, and the token that asked for it is ended
    | changePassword dto =>
      have h := h.next
      simp only [statement, UsersService.changePassword] at h
      split at h
      · exact marks_fail h.done rfl
      · split at h
        · exact marks_fail h.done rfl
        · rcases lone_save h hrow with ⟨-, hf⟩ | ⟨-, h⟩
          · exact marks_fail hf rfl
          · have hf := h.next.next.done
            have hevidence : f.store.evidence
                = (s.evidence.after (.changed user.id)).after (.ended token) := by
              rw [hf]
              show (AuthService.blacklist _ token.jti token.exp).evidence = _
              rw [evidence_blacklist]
              exact congrArg (Evidence.after · (.ended token)) (evidence_savePassword s _ hrow)
            have hoccasions : occasions s f.reply (.guarded token (.changePassword dto))
                = [.changed token.sub, .ended token] := by
              rw [hf]
              rfl
            rw [hoccasions, hevidence, hid]
            have hended : Marks s.evidence [.ended token] (s.evidence.after (.ended token)) :=
              .cons .nil hissued fun _ => List.not_mem_nil
            exact hended.cons trivial fun _ hmem => (by cases List.mem_singleton.mp hmem)
    | changeRole id dto =>
      simp only [JwtStrategy.handle] at h
      split at h
      · exact marks_fail h.done rfl
      · exact marks_changeRole h
    -- edits leave the evidence as it is
    | updateProfile dto =>
      obtain ⟨fullName, dateOfBirth⟩ := dto
      cases dateOfBirth <;> exact marks_of_same rfl (evidence_saveAlone h hrow rfl fun s => ⟨_, rfl⟩)
    | updateAvatar avatarUrl =>
      exact marks_of_same rfl (evidence_saveAlone h hrow rfl fun s => ⟨_, rfl⟩)
    | updatePrivacy dto => exact marks_of_same rfl (evidence_saveAlone h hrow rfl fun s => ⟨_, rfl⟩)
    | requestChangeEmail dto => exact marks_of_same rfl (evidence_requestEmailAlone h)
    | confirmChangeEmail dto => exact marks_of_same rfl (evidence_confirmEmailAlone hrow h)

/-- **What a request does to the evidence** is what happened, by its answer. -/
theorem marks_request {r : Request} (h : Lone env x (go s (enter r)) f) :
    Marks s.evidence (occasions s f.reply r) f.store.evidence := by
  cases r with
  | register dto => exact marks_of_same rfl (evidence_registerAlone h)
  | verifyRegisterOtp dto => exact marks_of_same rfl (evidence_verifyRegisterAlone h)
  | resendOtp email => exact marks_of_same rfl (evidence_resendAlone h)
  | login dto => exact marks_login h
  | refreshToken dto => exact marks_refresh h
  | forgotPassword dto => exact marks_of_same rfl (evidence_forgotAlone h)
  | resetPassword dto => exact marks_reset h
  | guarded token request => exact marks_guarded h

/-! ## Runs

The evidence is that of the log along every run of requests one after the other. -/

/-- A request runs alone, and what happened is noted. -/
def request (env : Env) (q : Store × List Occasion) (call : Input × Request) : Store × List Occasion :=
  let f := serve env call.1 q.1 call.2
  (f.store, occasions (q.1.wait call.1.elapsed) f.reply call.2 ++ q.2)

/-- The guard decides by what happened, at any time before the token expires and the next request. -/
structure LivenessExact (q : Store × List Occasion) : Prop where
  decides : ∀ token elapsed, .issued token ∈ q.2 → (q.1.now + elapsed) / 1000 < token.exp →
    ((JwtStrategy.accepted (q.1.wait elapsed) token).isSome
      ↔ (∃ user ∈ q.1.users, user.id = token.sub ∧ user.deletedAt = none)
        ∧ .ended token ∉ q.2 ∧ .changed token.sub ∉ since token q.2)
  /-- An entry of the blacklist stays until its token expires. -/
  stays : ∀ token elapsed, .ended token ∈ q.2 → (q.1.now + elapsed) / 1000 < token.exp →
    (q.1.redis.blacklist.get? (q.1.now + elapsed) token.jti).isSome

/-- Of the tokens of a user that the request changes, those that could still be used were issued in
another second. -/
def Timely (env : Env) (q : Store × List Occasion) (call : Input × Request) : Prop :=
  ∀ o ∈ occasions (q.1.wait call.1.elapsed) (serve env call.1 q.1 call.2).reply call.2,
    ∀ userId ∈ o.user?, (q.1.wait call.1.elapsed).evidence.Timely (request env q call).2 userId

instance (env : Env) (q : Store × List Occasion) (call : Input × Request) :
    Decidable (Timely env q call) :=
  inferInstanceAs (Decidable (∀ o ∈ occasions _ _ _, ∀ userId ∈ o.user?, Evidence.Timely _ _ userId))

/-- Occasions take no time. -/
theorem Marks.now {e e' : Evidence} {log : List Occasion} (h : Marks e log e') : e'.now = e.now := by
  induction h with
  | nil => rfl
  | unsent _ => rfl
  | @cons log e' o _ _ _ ih =>
    rw [← ih]
    cases o <;> rfl

/-- What happened in a request goes into the ledger. -/
theorem ledger_marks {e e' : Evidence} {log before : List Occasion} (h : Marks e log e')
    (hledger : Ledger e before)
    (htimely : ∀ userId, .changed userId ∈ log → e.Timely (log ++ before) userId) :
    Ledger e' (log ++ before) := by
  induction h with
  | nil => exact hledger
  | unsent ho => exact hledger.unsent ho
  | @cons log e' o h ho hlast ih =>
    have hbefore : Ledger e' (log ++ before) := ih fun userId hmem => absurd hmem (hlast userId)
    cases o with
    | issued token => exact hbefore.issue ho
    | ended token => exact hbefore.finish ho
    | changed userId =>
      apply hbefore.change
      intro i hi token htoken hsub hopen hexp
      rw [h.now] at hexp ⊢
      apply htimely userId List.mem_cons_self i (List.mem_cons_of_mem _ hi) token htoken hsub ?_ hexp
      exact fun hended => hopen ((List.mem_cons.mp hended).resolve_left (fun h => by cases h))

/-- A request adds its occasions to the ledger. -/
theorem ledger_request (env : Env) {q : Store × List Occasion} {call : Input × Request}
    (h : Ledger q.1.evidence q.2) (htimely : Timely env q call) :
    Ledger (request env q call).1.evidence (request env q call).2 := by
  have hmarks := marks_request (lone_serve env call.1 q.1 call.2)
  apply ledger_marks hmarks (h.wait call.1.elapsed)
  exact fun userId hchanged => htimely _ hchanged userId rfl

/-- What the guard decides by is what the ledger says. -/
theorem accepted_iff {token : AccessToken} {log : List Occasion} (h : Ledger s.evidence log)
    (hissued : .issued token ∈ log) (hexp : s.now / 1000 < token.exp) :
    (JwtStrategy.accepted s token).isSome
      ↔ (∃ user ∈ s.users, user.id = token.sub ∧ user.deletedAt = none)
        ∧ .ended token ∉ log ∧ .changed token.sub ∉ since token log := by
  by_cases hended : .ended token ∈ log
  · -- the entry of the blacklist outlives the token
    obtain ⟨-, deadline, hentry, hle⟩ := h.kept token hended
    have hget : s.redis.blacklist.get? s.now token.jti = some () := by
      refine Keyspace.get?_eq_some.mpr ⟨_, hentry, fun d hd => ?_, rfl⟩
      exact Option.some.inj hd ▸ Nat.lt_of_lt_of_le (lt_of_seconds hexp) hle
    refine iff_of_false ?_ fun hr => hr.2.1 hended
    intro hsome
    obtain ⟨user, huser⟩ := Option.isSome_iff_exists.mp hsome
    cases hget.symm.trans (accepted_eq_some.mp huser).2.1
  · have hverified : JwtStrategy.Verified s token := ⟨(h.known token hissued).1, hexp⟩
    have hget : s.redis.blacklist.get? s.now token.jti = none := by
      have hnone : s.redis.blacklist token.jti = none := h.open_ token hissued hended
      rw [Keyspace.get?, hnone]
      rfl
    -- the time of the last change tells whether it came after the token
    have houtdated : ∀ user, s.findUser (·.id = token.sub) = some user →
        (JwtStrategy.Outdated user token ↔ .changed token.sub ∈ since token log) := by
      intro user hfind
      rw [← h.cut token hissued hended hexp]
      have hid : user.id = token.sub := of_decide_eq_true (findUser_eq_some hfind).2.2
      have hchanged : s.evidence.changedAt token.sub = user.passwordChangedAt := by
        rw [← hid]
        show (s.users.get? user.id).bind User.passwordChangedAt = _
        rw [get?_of_findUser hfind, Option.bind_some]
      rw [JwtStrategy.Outdated, Evidence.Outdated, hchanged]
    constructor
    · intro hsome
      obtain ⟨user, huser⟩ := Option.isSome_iff_exists.mp hsome
      obtain ⟨-, -, hfind, hnew⟩ := accepted_eq_some.mp huser
      obtain ⟨hmem, hlive, hid⟩ := findUser_eq_some hfind
      exact ⟨⟨user, hmem, of_decide_eq_true hid, hlive⟩, hended, fun hmem => hnew ((houtdated user hfind).mpr hmem)⟩
    · rintro ⟨⟨user, hmem, hid, hlive⟩, -, hunchanged⟩
      have hsome : (s.findUser (·.id = token.sub)).isSome := by
        refine List.find?_isSome.mpr ⟨user, hmem, ?_⟩
        simp [hid, hlive]
      obtain ⟨user', hfind⟩ := Option.isSome_iff_exists.mp hsome
      have hnew : ¬ JwtStrategy.Outdated user' token :=
        fun hold => hunchanged ((houtdated user' hfind).mp hold)
      exact Option.isSome_iff_exists.mpr ⟨user', accepted_eq_some.mpr ⟨hverified, hget, hfind, hnew⟩⟩

/-- The ledger decides which tokens are alive. -/
theorem livenessExact_of_ledger {q : Store × List Occasion} (h : Ledger q.1.evidence q.2) :
    LivenessExact q where
  decides := fun token elapsed hissued hexp =>
    accepted_iff (s := q.1.wait elapsed) (h.wait elapsed) hissued hexp
  stays := by
    intro token elapsed hended hexp
    obtain ⟨-, deadline, hentry, hle⟩ := h.kept token hended
    refine Option.isSome_iff_exists.mpr ⟨(), Keyspace.get?_eq_some.mpr ⟨_, hentry, fun d hd => ?_, rfl⟩⟩
    exact Option.some.inj hd ▸ Nat.lt_of_lt_of_le (lt_of_seconds hexp) hle

/-- **Exact liveness.** In every run of requests, each alone, in which no user is changed in the second
in which a token of the user was issued that could still be used, the guard accepts a token that has not
expired exactly when its user is live, it was not presented to end its session, and its user was not
changed since it was issued. -/
theorem liveness_exact (env : Env) {s : Store} {calls : List (Input × Request)}
    (h : s.evidence.Sound) (htimely : Meets (request env) (Timely env) (s, []) calls) :
    Always (request env) LivenessExact (s, []) calls := by
  have hledger : Always (request env) (fun q => Ledger q.1.evidence q.2) (s, []) calls :=
    always_of_meets (fun _ _ _ hq hcall => ledger_request env hq hcall) (.start h) htimely
  exact hledger.imp fun _ hq => livenessExact_of_ledger hq

/-- No session has been ended yet, and no user changed. -/
theorem sound_store : Sample.store.evidence.Sound where
  drawn := fun _ ht => absurd ht List.not_mem_nil
  apart := fun _ ht => absurd ht List.not_mem_nil
  clear := fun _ _ => rfl
  past := by
    intro userId changedAt hc
    obtain ⟨user, hrow, hc⟩ := Option.bind_eq_some_iff.mp hc
    have hnone : ∀ u ∈ Sample.store.users.rows, u.passwordChangedAt = none := by decide
    cases (hnone user (Table.get?_eq_some.mp hrow).1).symm.trans hc

/-- Two logins, a change of the role by the administrator in a later second, and a logout. -/
theorem liveness_exact_changedLater :
    Always (request Sample.env) LivenessExact (Sample.store, [])
      [(Sample.after 10, .login ⟨Sample.student.email, "Password123"⟩),
        (Sample.after 10, .login ⟨Sample.administrator.email, "Password123"⟩),
        (Sample.after 2000, .guarded (Sample.access Sample.administrator 2 1000)
          (.changeRole 0 ⟨.teacher, "Teaches algorithms"⟩)),
        (Sample.after 10, .guarded (Sample.access Sample.administrator 2 1000) .logout)] :=
  liveness_exact Sample.env sound_store (by decide)

/-- A change of the role in the second of a login: the token from before it is still accepted. -/
theorem not_livenessExact_sameSecond :
    ¬ Always (request Sample.env) LivenessExact (Sample.store, [])
      [(Sample.after 10, .login ⟨Sample.student.email, "Password123"⟩),
        (Sample.after 10, .login ⟨Sample.administrator.email, "Password123"⟩),
        (Sample.after 10, .guarded (Sample.access Sample.administrator 2 1000)
          (.changeRole 0 ⟨.teacher, "Teaches algorithms"⟩))] := by
  intro h
  have hdecides := h.last.decides (Sample.access Sample.student 0 1000) 0 (by decide) (by decide)
  have haccepted := hdecides.mp (by decide)
  exact absurd haccepted.2.2 (by decide)

end AcaSocial.Identity
