import AcaSocial.Identity.UsersService

/-!
# The identity service as a program of tasks

* **`afterOtp`**, **`afterSave`**, **`afterRevocation`** — what a method does after a part that it
  shares with others.
* **`statement`** — the next statement of a task; **`exec`** lets time pass before it.
* **`service`** — the program. Its runs are the interleavings of any requests.
-/

namespace AcaSocial.Identity

section

variable (env : Env) (x : Input) (s : Store)

/-- A method goes on with what `verifyOtp` returned. -/
def afterOtp (valid : Bool) : AfterOtp → Step
  | .verifyRegisterOtp dto user =>
    if !valid then fail s (.badRequest "Invalid or expired OTP")
    else go s (.saveRead { user with isVerified := true, username := some dto.username }
      .verifyRegisterOtp)
  | .resetPassword dto user =>
    if !valid then fail s (.badRequest "Invalid or expired OTP") else go s (.resetHash dto user)
  | .confirmChangeEmail dto user =>
    if !valid then fail s (.badRequest "Invalid or expired OTP")
    else go s (.saveRead { user with email := dto.newEmail } .confirmChangeEmail)

/-- A method goes on when its user is saved. -/
def afterSave (user : User) : AfterSave → Step
  | .verifyRegisterOtp => reply s (.message "Account verified successfully")
  | .resetPassword => go s (.revokeTokens user.id .resetPassword)
  | .changePassword jti exp => go s (.revokeTokens user.id (.endSession .changePassword jti exp))
  | .updateProfile | .updateAvatar => reply s (.profile (getProfile user))
  | .updatePrivacy => reply s (.message "Privacy settings updated")
  | .confirmChangeEmail => reply s (.message "Email updated successfully")

/-- A method goes on when the refresh tokens of its user are revoked. -/
def afterRevocation (userId : Nat) : Revocation → Step
  | .reuse => fail s (.unauthorized "Security alert: refresh token reuse detected. All sessions have been revoked. Please login again.")
  | .resetPassword => reply s (.message "Password reset successfully. Please login again.")
  | .endSession by_ jti exp => go s (.blacklistSet userId jti exp by_)

/-- A method goes on when its access token is on the blacklist. -/
def afterBlacklist (userId : Nat) : SessionEnd → Step
  | .logout => reply s (.message "Logged out successfully")
  | .changePassword => reply s (.message "Password changed successfully. Please login again.")
  | .deleteAccount => go s (.deleteSoftDelete userId)

/-- `save` reads the row of the user again. Rows are never removed. -/
def saveRead (user : User) (after : AfterSave) : Step :=
  match s.users.get? user.id with
  | none => fail s .internalServerError
  | some database => go s (.saveWrite user database after)

/-- `save` writes the columns that differ, unless another row has the e-mail address or the name. -/
def saveWrite (user database : User) (after : AfterSave) : Step :=
  match s.users.get? user.id with
  | none => fail s .internalServerError
  | some row =>
    let row' := user.write database row
    if s.Taken row' then fail s .internalServerError
    else afterSave { s with users := s.users.save row' } user after

/-- The next statement of a task. -/
def statement : Task → Step
  | .registerFind dto => AuthService.register s dto
  | .registerSave dto => AuthService.registerSave env x s dto
  | .registerSendOtp email => AuthService.registerSendOtp x s email
  | .verifyRegisterFind dto => AuthService.verifyRegisterOtp s dto
  | .verifyRegisterFindUsername dto user => AuthService.verifyRegisterFindUsername s dto user
  | .resendFind email => AuthService.resendOtp s email
  | .resendExistsCooldown email => AuthService.resendExistsCooldown s email
  | .resendTtlCooldown email => AuthService.resendTtlCooldown s email
  | .resendSendOtp email => AuthService.resendSendOtp x s email
  | .resendSetCooldown email => AuthService.resendSetCooldown s email
  | .loginFind dto => AuthService.login s dto
  | .loginCompare dto user => AuthService.loginCompare env s dto user
  | .loginUpdateLastLogin userId lastLoginAt => AuthService.loginUpdateLastLogin s userId lastLoginAt
  | .refreshFind dto => AuthService.refreshToken env s dto
  | .refreshSave stored user => AuthService.refreshSave env s stored user
  | .generateSave _ userId access refreshTokenRaw expiresAt =>
    AuthService.generateSave env s userId access refreshTokenRaw expiresAt
  | .forgotFind dto => AuthService.forgotPassword s dto
  | .forgotSendOtp email => AuthService.forgotSendOtp x s email
  | .resetFind dto => AuthService.resetPassword s dto
  | .resetHash dto user => AuthService.resetHash env x s dto user
  | .verifyOtp point key otp after =>
    match OtpService.verifyOtp s key otp point with
    | (s, .next point) => go s (.verifyOtp point key otp after)
    | (s, .return valid) => afterOtp s valid after
    | (s, .throw e) => fail s e
  | .validateGet token request => JwtStrategy.validate s token request
  | .validateFind token request => JwtStrategy.validateFind s token request
  | .changePasswordCompare user dto jti exp => UsersService.changePassword env x s user dto jti exp
  | .requestEmailFind user dto => UsersService.requestChangeEmail s user dto
  | .requestEmailSendOtp user dto => UsersService.requestEmailSendOtp x s user dto
  | .confirmEmailFind user dto => UsersService.confirmChangeEmail s user dto
  | .deleteCompare user dto jti exp => UsersService.deleteAccount env s user dto jti exp
  | .deleteSoftDelete userId => UsersService.deleteSoftDelete s userId
  | .changeRole id dto actor => UsersService.changeRole s id dto actor
  | .saveRead user after => saveRead s user after
  | .saveWrite user database after => saveWrite s user database after
  | .revokeTokens userId revocation =>
    afterRevocation (AuthService.revokeAll s userId revocation) userId revocation
  | .blacklistSet userId jti exp by_ => afterBlacklist (AuthService.blacklist s jti exp) userId by_

/-- The next statement of a task, some time after the statement that ran before it. -/
def exec (t : Task) : Step := statement env x (s.wait x.elapsed) t

/-- The first statement of a request. -/
def enter : Request → Task
  | .register dto => .registerFind dto
  | .verifyRegisterOtp dto => .verifyRegisterFind dto
  | .resendOtp email => .resendFind email
  | .login dto => .loginFind dto
  | .refreshToken dto => .refreshFind dto
  | .forgotPassword dto => .forgotFind dto
  | .resetPassword dto => .resetFind dto
  | .guarded token request => .validateGet token request

/-- The identity service. -/
def service : Program Store Request Task Input (Except HttpException Reply) where
  enter
  exec := exec env

end

/-! ## Samples

Requests of a student and of an administrator, in the orders that the examples of the other modules use. -/

namespace Sample

/-- A hash is the text behind a prefix, which is enough to tell texts apart. -/
def env : Env where
  sha256 token := "sha256:" ++ toString token
  bcryptHash password _ := "$2b$10$" ++ password
  bcryptCompare password hash := hash = "$2b$10$" ++ password
  accessTtl := 900
  refreshExpires := some "7d"

/-- The next statement runs after `elapsed` milliseconds. -/
def after (elapsed : Nat) : Input := ⟨elapsed, 0, 0, true⟩

def student : User where
  id := 0
  username := some "nguyen_van_a"
  fullName := "Nguyen Van A"
  dateOfBirth := none
  email := "a@ptit.edu.vn"
  passwordHash := "$2b$10$Password123"
  avatarUrl := none
  privacy := .public
  isVerified := true
  role := .student
  passwordChangedAt := none
  lastLoginAt := none
  createdAt := 0
  deletedAt := none

def administrator : User :=
  { student with id := 1, username := some "admin_ptit", email := "admin@ptit.edu.vn", role := .admin }

def store : Store :=
  { Store.empty with
    now := 1000000
    users := (Serial.empty.insert (fun id => { student with id }) fun _ => rfl).insert
      (fun id => { administrator with id }) fun _ => rfl }

/-- A login, and the four statements that it runs. -/
def login (user : User) : List (Act Request Input) :=
  [.start (.login ⟨user.email, "Password123"⟩), .run 0 (after 10), .run 0 (after 10),
    .run 0 (after 10), .run 0 (after 10)]

/-- The access token that a login at the second `iat` gives. -/
def access (user : User) (jti : Uuid) (iat : Nat) : AccessToken :=
  ⟨user.id, user.username, user.email, user.role, jti, iat, iat + 900⟩

/-- A logout, alone. -/
def logout (token : AccessToken) : List (Act Request Input) :=
  [.start (.guarded token .logout), .run 0 (after 10), .run 0 (after 10), .run 0 (after 10),
    .run 0 (after 10)]

/-- The statements of a request behind the guard that follows one task in flight. -/
def second (token : AccessToken) (request : GuardedRequest) (statements : Nat) :
    List (Act Request Input) :=
  .start (.guarded token request) :: List.replicate statements (.run 1 (after 10))

/-- A logout between the save of the presented token and the insertion of its successor. -/
def logoutAmidRefresh (token : AccessToken) (refreshToken : Uuid) : List (Act Request Input) :=
  [.start (.refreshToken ⟨refreshToken⟩), .run 0 (after 10), .run 0 (after 10)]
    ++ second token .logout 4 ++ [.run 0 (after 10)]

/-- A profile edit: two statements of the guard, and two of `save`. -/
def edit (token : AccessToken) : List (Act Request Input) :=
  [.start (.guarded token (.updateProfile ⟨"Tran Van B", none⟩)), .run 0 (after 10),
    .run 0 (after 10), .run 0 (after 10), .run 0 (after 10)]

/-- A profile edit with a change of role after its guard. -/
def editAmid (token admin : AccessToken) : List (Act Request Input) :=
  [.start (.guarded token (.updateProfile ⟨"Tran Van B", none⟩)), .run 0 (after 10),
    .run 0 (after 10)]
    ++ second admin (.changeRole token.sub ⟨.teacher, "Teaches algorithms"⟩) 3
    ++ [.run 0 (after 10), .run 0 (after 10)]

/-- Two requests that present one token, statement by statement in turn. -/
def bothRefresh (token : Uuid) : List (Act Request Input) :=
  [.start (.refreshToken ⟨token⟩), .start (.refreshToken ⟨token⟩), .run 0 (after 10),
    .run 0 (after 10), .run 0 (after 10), .run 0 (after 10), .run 0 (after 10), .run 0 (after 10)]

/-- A request that presents a token, alone. -/
def refresh (token : Uuid) : List (Act Request Input) :=
  [.start (.refreshToken ⟨token⟩), .run 0 (after 10), .run 0 (after 10), .run 0 (after 10)]

end Sample

end AcaSocial.Identity
