import AcaSocial.Identity.AuthService

/-!
# Profiles, and the guard before them

* **`JwtStrategy`** — what is checked of an access token. The user that `validate` loads is the one
  that the methods behind the guard work on.
* **`UsersService`** — the methods behind the guard, one definition for each statement.
-/

namespace AcaSocial.Identity

namespace UsersService

variable (env : Env) (x : Input) (s : Store)

/-- The user with the new role. A role change also cuts off the access tokens from before. -/
def withRole (user : User) (role : Role) : User :=
  { user with role, passwordChangedAt := some s.now }

/-- What the transaction of `changeRole` commits: the role, the revocation and the audit. -/
def commitRole (dto : ChangeUserRoleDto) (actor user : User) : Store :=
  let audit id : UserRoleAudit :=
    ⟨id, user.id, user.role, dto.role, actor.id, String.ofList (Text.trim dto.reason.toList), s.now⟩
  let s' := { s with users := s.users.save (withRole s user dto.role) }
  let s' := s'.revokeTokens fun t => t.userId = user.id
  { s' with userRoleAudits := s.userRoleAudits.insert audit fun _ => rfl }

/-- `changeRole`, by an administrator as the controller found it. -/
def changeRole (id : Nat) (dto : ChangeUserRoleDto) (actor : User) : Step :=
  match s.findUser (·.id = id) with
  | none => fail s (.notFound "User not found")
  | some user =>
    if user.id = actor.id ∧ dto.role ≠ .admin then
      fail s (.forbidden "Administrators cannot demote themselves")
    else if user.role = dto.role then reply s (.profile (getProfile user))
    else if user.role = .admin ∧ dto.role ≠ .admin
        ∧ s.users.rows.countP (fun u => u.deletedAt.isNone && u.role = .admin) ≤ 1 then
      fail s (.forbidden "The system must retain at least one admin")
    else
      reply (commitRole s dto actor user) (.profile (getProfile (withRole s user dto.role)))

def updateProfile (user : User) (dto : UpdateProfileDto) : Step :=
  let user := { user with fullName := dto.fullName }
  let user := match dto.dateOfBirth with
    | none => user
    | some dateOfBirth => { user with dateOfBirth := some dateOfBirth }
  go s (.saveRead user .updateProfile)

def updateAvatar (user : User) (avatarUrl : String) : Step :=
  go s (.saveRead { user with avatarUrl := some avatarUrl } .updateAvatar)

def updatePrivacy (user : User) (dto : UpdatePrivacyDto) : Step :=
  go s (.saveRead { user with privacy := dto.privacy } .updatePrivacy)

/-- The check of the current password, then the new hash and the time of the change. -/
def changePassword (user : User) (dto : ChangePasswordDto) (jti : Uuid) (exp : Nat) : Step :=
  if !env.bcryptCompare dto.currentPassword user.passwordHash then
    fail s (.badRequest "Current password is incorrect")
  else if dto.newPassword ≠ dto.confirmPassword then
    fail s (.badRequest "New password and confirmation do not match")
  else
    go s (.saveRead { user with
      passwordHash := env.bcryptHash dto.newPassword x.salt
      passwordChangedAt := some s.now } (.changePassword jti exp))

def requestChangeEmail (user : User) (dto : RequestChangeEmailDto) : Step :=
  match s.findUser (·.email = dto.newEmail) with
  | some _ => fail s (.conflict "Email already in use")
  | none => go s (.requestEmailSendOtp user dto)

def requestEmailSendOtp (user : User) (dto : RequestChangeEmailDto) : Step :=
  let key := OtpKey.changeEmail user.id dto.newEmail
  let s := OtpService.createOtp s key (OtpService.generateCode x.random) 300
  if x.mailSent then reply s (.message "OTP sent to new email address")
  else fail s .internalServerError

def confirmChangeEmail (user : User) (dto : ConfirmChangeEmailDto) : Step :=
  match s.findUser (·.email = dto.newEmail) with
  | some _ => fail s (.conflict "Email already in use")
  | none =>
    go s (.verifyOtp .existsLock (.changeEmail user.id dto.newEmail) dto.otp
      (.confirmChangeEmail dto user))

def deleteAccount (user : User) (dto : DeleteAccountDto) (jti : Uuid) (exp : Nat) : Step :=
  if !env.bcryptCompare dto.password user.passwordHash then
    fail s (.unauthorized "Incorrect password")
  else go s (.revokeTokens user.id (.endSession .deleteAccount jti exp))

/-- `userRepo.softDelete`. -/
def deleteSoftDelete (userId : Nat) : Step :=
  let s' := match s.users.get? userId with
    | none => s
    | some user => { s with users := s.users.save { user with deletedAt := some s.now } }
  reply s' (.message "Account deleted successfully")

end UsersService

/-! ## The guard

What every guarded request meets first: the token, the blacklist, and the user with the time of the last change of
password. -/

namespace JwtStrategy

variable (s : Store)

/-- The signature, the issuer and the audience are right, and the token has not expired. -/
def Verified (token : AccessToken) : Prop := token ∈ s.issued ∧ s.now / 1000 < token.exp

instance (token : AccessToken) : Decidable (Verified s token) :=
  inferInstanceAs (Decidable (_ ∧ _))

/-- `validate`: the token is verified, and its `jti` is looked up in the blacklist. -/
def validate (token : AccessToken) (request : GuardedRequest) : Step :=
  if ¬ Verified s token then fail s (.unauthorized "Unauthorized")
  else if (s.redis.blacklist.get? s.now token.jti).isSome then
    fail s (.unauthorized "Token has been revoked")
  else go s (.validateFind token request)

/-- The password of the user was changed in a later second than the token was issued in. -/
def Outdated (user : User) (token : AccessToken) : Prop :=
  ∃ changedAt, user.passwordChangedAt = some changedAt ∧ token.iat < changedAt / 1000

instance (user : User) (token : AccessToken) : Decidable (Outdated user token) :=
  match h : user.passwordChangedAt with
  | none => .isFalse fun ⟨_, hc, _⟩ => nomatch h.symm.trans hc
  | some changedAt =>
    if hlt : token.iat < changedAt / 1000 then .isTrue ⟨changedAt, h, hlt⟩
    else .isFalse fun ⟨_, hc, hlt'⟩ => hlt (Option.some.inj (h.symm.trans hc) ▸ hlt')

/-- The method that a request calls with the user that the guard loaded. -/
def handle (user : User) (token : AccessToken) : GuardedRequest → Step
  | .logout => go s (.revokeTokens user.id (.endSession .logout token.jti token.exp))
  | .updateProfile dto => UsersService.updateProfile s user dto
  | .updateAvatar avatarUrl => UsersService.updateAvatar s user avatarUrl
  | .changePassword dto => go s (.changePasswordCompare user dto token.jti token.exp)
  | .requestChangeEmail dto => go s (.requestEmailFind user dto)
  | .confirmChangeEmail dto => go s (.confirmEmailFind user dto)
  | .updatePrivacy dto => UsersService.updatePrivacy s user dto
  | .deleteAccount dto => go s (.deleteCompare user dto token.jti token.exp)
  | .changeRole id dto =>
    if user.role ≠ .admin then fail s (.forbidden "Admin role required")
    else go s (.changeRole id dto user)

/-- `validate` goes on with the user of the token, and the guard lets the request through. -/
def validateFind (token : AccessToken) (request : GuardedRequest) : Step :=
  match s.findUser (·.id = token.sub) with
  | none => fail s (.unauthorized "Unauthorized")
  | some user =>
    if Outdated user token then
      fail s (.unauthorized "Password was changed. Please login again.")
    else handle s user token request

end JwtStrategy

end AcaSocial.Identity
