import AcaSocial.Identity.Service

/-!
# The statements that write to no table

Half of the statements of the service look at something and go on or end. They leave the tables as they are, and of Redis
they write the codes and the cooldowns only. What an invariant has to know of them is the same for all:

* **`Leads`** — the edges of the control flow: what such a task goes on with, and what it has looked up by then.
* **`Codes`** — what is written to Redis.
* **`QuietStep`** — the three ways in which such a statement ends. `quiet_step` is the inversion.

The modules after this one go through the other statements one by one, and use `quiet_step` for these.
-/

namespace AcaSocial.Identity

/-- The tasks whose statements write to no table. `verifyOtp` is one too, but goes through Redis in a loop of its own. -/
def Task.Quiet : Task → Prop
  | .registerFind _ | .registerSendOtp _ => True
  | .verifyRegisterFind _ | .verifyRegisterFindUsername _ _ => True
  | .resendFind _ | .resendExistsCooldown _ | .resendTtlCooldown _ | .resendSendOtp _ | .resendSetCooldown _ => True
  | .loginFind _ | .refreshFind _ | .forgotFind _ | .forgotSendOtp _ | .resetFind _ | .resetHash _ _ => True
  | .validateGet _ _ | .validateFind _ _ | .changePasswordCompare .. | .requestEmailFind _ _ => True
  | .requestEmailSendOtp _ _ | .confirmEmailFind _ _ | .deleteCompare .. | .saveRead _ _ => True
  | _ => False

variable {env : Env} {x : Input} {s s' : Store} {t t' : Task} {e : Step}

/-! ## What they go on with

A task that has loaded a user hands it on, so an edge says where the user comes from. -/

/-- The task goes on with the other one, without having written anything. -/
inductive Leads (s : Store) : Task → Task → Prop where
  | register {dto : RegisterDto} : Leads s (.registerFind dto) (.registerSave dto)
  | verifyRegister {dto : VerifyOtpDto} {user : User} (hfind : s.findUser (·.email = dto.email) = some user) :
      Leads s (.verifyRegisterFind dto) (.verifyRegisterFindUsername dto user)
  | freeUsername {dto : VerifyOtpDto} {user : User} :
      Leads s (.verifyRegisterFindUsername dto user)
        (.verifyOtp .existsLock (.register dto.email) dto.otp (.verifyRegisterOtp dto user))
  | resend {email : String} : Leads s (.resendFind email) (.resendExistsCooldown email)
  | cooling {email : String} : Leads s (.resendExistsCooldown email) (.resendTtlCooldown email)
  | cooled {email : String} : Leads s (.resendExistsCooldown email) (.resendSendOtp email)
  | login {dto : LoginDto} {user : User} : Leads s (.loginFind dto) (.loginCompare dto user)
  | reused {dto : RefreshTokenDto} {userId : Nat} : Leads s (.refreshFind dto) (.revokeTokens userId .reuse)
  | refresh {dto : RefreshTokenDto} {stored : RefreshToken} {user : Option User} :
      Leads s (.refreshFind dto) (.refreshSave stored user)
  | forgot {dto : ForgotPasswordDto} : Leads s (.forgotFind dto) (.forgotSendOtp dto.email)
  | reset {dto : ResetPasswordDto} {user : User} (hfind : s.findUser (·.email = dto.email) = some user) :
      Leads s (.resetFind dto) (.verifyOtp .existsLock (.reset dto.email) dto.otp (.resetPassword dto user))
  | resetHash {dto : ResetPasswordDto} {user : User} {passwordHash : String} :
      Leads s (.resetHash dto user)
        (.saveRead { user with passwordHash, passwordChangedAt := some s.now } .resetPassword)
  | validated {token : AccessToken} {request : GuardedRequest} :
      Leads s (.validateGet token request) (.validateFind token request)
  /-- The guard lets the request through, to the method that it calls. -/
  | handled {token : AccessToken} {request : GuardedRequest} {user : User} {t : Task}
      (hfind : s.findUser (·.id = token.sub) = some user)
      (hnext : (JwtStrategy.handle s user token request).next = [t]) : Leads s (.validateFind token request) t
  | changePassword {user : User} {dto : ChangePasswordDto} {jti : Uuid} {exp : Nat} {passwordHash : String} :
      Leads s (.changePasswordCompare user dto jti exp)
        (.saveRead { user with passwordHash, passwordChangedAt := some s.now } (.changePassword jti exp))
  | requestEmail {user : User} {dto : RequestChangeEmailDto} :
      Leads s (.requestEmailFind user dto) (.requestEmailSendOtp user dto)
  | confirmEmail {user : User} {dto : ConfirmChangeEmailDto} :
      Leads s (.confirmEmailFind user dto)
        (.verifyOtp .existsLock (.changeEmail user.id dto.newEmail) dto.otp (.confirmChangeEmail dto user))
  | deleteAccount {user : User} {dto : DeleteAccountDto} {jti : Uuid} {exp : Nat} :
      Leads s (.deleteCompare user dto jti exp) (.revokeTokens user.id (.endSession .deleteAccount jti exp))
  | saved {user database : User} {after : AfterSave} (hrow : s.users.get? user.id = some database) :
      Leads s (.saveRead user after) (.saveWrite user database after)

/-! ## What they write

A statement that leaves the users and the tokens alone writes one-time codes at most. -/

/-- A code is created, or a cooldown starts. -/
inductive Codes (s : Store) : Store → Prop where
  | created (key : OtpKey) (otp : String) (ttlSeconds : Nat) : Codes s (OtpService.createOtp s key otp ttlSeconds)
  | cooldown (otpCooldown : Keyspace OtpKey Unit) : Codes s { s with redis := { s.redis with otpCooldown } }

/-- What such a statement does. -/
inductive QuietStep (s : Store) (t : Task) : Step → Prop where
  | ends (response : Option (Except HttpException Reply)) : QuietStep s t ⟨s, [], response⟩
  | goes {t' : Task} (h : Leads s t t') : QuietStep s t (go s t')
  /-- Only the code that is sent again is followed by a cooldown. -/
  | codes {s' : Store} {next : List Task} {response : Option (Except HttpException Reply)} (hcodes : Codes s s')
      (hnext : next = [] ∨ ∃ email, t = .resendSendOtp email ∧ next = [.resendSetCooldown email]) :
      QuietStep s t ⟨s', next, response⟩

/-- What the guard calls is called in the same stores, and is one task or refused. -/
theorem handle_cases (s : Store) (user : User) (token : AccessToken) (request : GuardedRequest) :
    (∃ ex, JwtStrategy.handle s user token request = fail s ex)
      ∨ ∃ t, JwtStrategy.handle s user token request = go s t := by
  cases request with
  | changeRole id dto =>
    simp only [JwtStrategy.handle]
    split
    · exact .inl ⟨_, rfl⟩
    · exact .inr ⟨_, rfl⟩
  | _ => exact .inr ⟨_, rfl⟩

/-- **What a statement does that writes to no table.** -/
theorem quiet_step (env : Env) (x : Input) (s : Store) (ht : t.Quiet) : QuietStep s t (statement env x s t) := by
  cases t with
  | registerFind dto =>
    simp only [statement, AuthService.register]
    split
    · exact .ends _
    · exact .goes .register
  | registerSendOtp email =>
    simp only [statement, AuthService.registerSendOtp]
    split <;> exact .codes (.created _ _ _) (.inl rfl)
  | verifyRegisterFind dto =>
    simp only [statement, AuthService.verifyRegisterOtp]
    split
    · exact .ends _
    · next user hfind =>
      split
      · exact .ends _
      · exact .goes (.verifyRegister hfind)
  | verifyRegisterFindUsername dto user =>
    simp only [statement, AuthService.verifyRegisterFindUsername]
    split
    · exact .ends _
    · exact .goes .freeUsername
  | resendFind email =>
    simp only [statement, AuthService.resendOtp]
    split
    · exact .ends _
    · split
      · exact .ends _
      · exact .goes .resend
  | resendExistsCooldown email =>
    simp only [statement, AuthService.resendExistsCooldown]
    split
    · exact .goes .cooling
    · exact .goes .cooled
  | resendTtlCooldown email => exact .ends _
  | resendSendOtp email =>
    simp only [statement, AuthService.resendSendOtp]
    split
    · exact .codes (.created _ _ _) (.inr ⟨email, rfl, rfl⟩)
    · exact .codes (.created _ _ _) (.inl rfl)
  | resendSetCooldown email => exact .codes (.cooldown _) (.inl rfl)
  | loginFind dto =>
    simp only [statement, AuthService.login]
    generalize (if '@' ∈ dto.identifier.toList then _ else _ : Option User) = found
    cases found with
    | none => exact .ends _
    | some user =>
      dsimp only
      split
      · exact .ends _
      · exact .goes .login
  | refreshFind dto =>
    simp only [statement, AuthService.refreshToken]
    split
    · exact .ends _
    · split
      · exact .goes .reused
      · split
        · exact .ends _
        · exact .goes .refresh
  | forgotFind dto =>
    simp only [statement, AuthService.forgotPassword]
    split
    · exact .ends _
    · exact .goes .forgot
  | forgotSendOtp email =>
    simp only [statement, AuthService.forgotSendOtp]
    split <;> exact .codes (.created _ _ _) (.inl rfl)
  | resetFind dto =>
    simp only [statement, AuthService.resetPassword]
    split
    · exact .ends _
    · next user hfind => exact .goes (.reset hfind)
  | resetHash dto user => exact .goes .resetHash
  | validateGet token request =>
    simp only [statement, JwtStrategy.validate]
    split
    · exact .ends _
    · split
      · exact .ends _
      · exact .goes .validated
  -- the guard hands the request on to its method
  | validateFind token request =>
    simp only [statement, JwtStrategy.validateFind]
    split
    · exact .ends _
    · next user hfind =>
      split
      · exact .ends _
      · rcases handle_cases s user token request with ⟨ex, he⟩ | ⟨t, he⟩
        · rw [he]
          exact .ends _
        · have hlead : Leads s (.validateFind token request) t := .handled hfind (by rw [he]; rfl)
          rw [he]
          exact .goes hlead
  | changePasswordCompare user dto jti exp =>
    simp only [statement, UsersService.changePassword]
    split
    · exact .ends _
    · split
      · exact .ends _
      · exact .goes .changePassword
  | requestEmailFind user dto =>
    simp only [statement, UsersService.requestChangeEmail]
    split
    · exact .ends _
    · exact .goes .requestEmail
  | requestEmailSendOtp user dto =>
    simp only [statement, UsersService.requestEmailSendOtp]
    split <;> exact .codes (.created _ _ _) (.inl rfl)
  | confirmEmailFind user dto =>
    simp only [statement, UsersService.confirmChangeEmail]
    split
    · exact .ends _
    · exact .goes .confirmEmail
  | deleteCompare user dto jti exp =>
    simp only [statement, UsersService.deleteAccount]
    split
    · exact .ends _
    · exact .goes .deleteAccount
  -- `save` reads the row before it writes
  | saveRead user after =>
    simp only [statement, saveRead]
    split
    · exact .ends _
    · next database hrow => exact .goes (.saved hrow)
  | _ => exact ht.elim

/-- **Frame.** Such a statement writes to Redis alone. -/
theorem QuietStep.store (h : QuietStep s t e) : ∃ redis, e.store = { s with redis } := by
  cases h with
  | ends => exact ⟨s.redis, rfl⟩
  | goes => exact ⟨s.redis, rfl⟩
  | codes hcodes => cases hcodes <;> exact ⟨_, rfl⟩

end AcaSocial.Identity
