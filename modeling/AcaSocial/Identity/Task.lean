import AcaSocial.Base.Tasks
import AcaSocial.Identity.OtpService

/-!
# Requests and their tasks

* **`Request`** — the endpoints of the service with what they take.
* **`Task`** — where a request is between two statements, with the local data that it still needs.
  A constructor is named after the method and the statement that comes next.
* **`Step`** — what a statement leaves, with `go`, `reply` and `fail`.

A statement is one query, one Redis command or one `bcrypt` call, with the code that follows it up to
the next one. The transaction of `changeRole` holds a lock on its row from its read to its commit and
is one statement.
-/

namespace AcaSocial.Identity

structure RegisterDto where
  fullName : String
  dateOfBirth : Option Time
  email : String
  password : String

structure VerifyOtpDto where
  email : String
  otp : String
  username : String

structure LoginDto where
  identifier : String
  password : String

structure RefreshTokenDto where
  refreshToken : Uuid

structure ForgotPasswordDto where
  email : String

structure ResetPasswordDto where
  email : String
  otp : String
  newPassword : String

structure UpdateProfileDto where
  fullName : String
  dateOfBirth : Option Time

structure ChangePasswordDto where
  currentPassword : String
  newPassword : String
  confirmPassword : String

structure RequestChangeEmailDto where
  newEmail : String

structure ConfirmChangeEmailDto where
  newEmail : String
  otp : String

structure UpdatePrivacyDto where
  privacy : Privacy

structure DeleteAccountDto where
  password : String

structure ChangeUserRoleDto where
  role : Role
  reason : String

structure UserProfileDto where
  id : Nat
  username : Option String
  fullName : String
  email : String
  dateOfBirth : Option Time
  avatarUrl : Option String
  privacy : Privacy
  role : Role
  isVerified : Bool
  createdAt : Time
  lastLoginAt : Option Time

/-- What the service answers with when it does not refuse. -/
inductive Reply where
  | message (message : String)
  | tokens (accessToken : AccessToken) (refreshToken : Uuid)
  | profile (profile : UserProfileDto)

/-! ## Requests

The requests as the controllers hand them on, after the validation pipe. -/

/-- The endpoints behind `JwtAuthGuard`. -/
inductive GuardedRequest where
  | logout
  | updateProfile (dto : UpdateProfileDto)
  | updateAvatar (avatarUrl : String)
  | changePassword (dto : ChangePasswordDto)
  | requestChangeEmail (dto : RequestChangeEmailDto)
  | confirmChangeEmail (dto : ConfirmChangeEmailDto)
  | updatePrivacy (dto : UpdatePrivacyDto)
  | deleteAccount (dto : DeleteAccountDto)
  | changeRole (id : Nat) (dto : ChangeUserRoleDto)

inductive Request where
  | register (dto : RegisterDto)
  | verifyRegisterOtp (dto : VerifyOtpDto)
  | resendOtp (email : String)
  | login (dto : LoginDto)
  | refreshToken (dto : RefreshTokenDto)
  | forgotPassword (dto : ForgotPasswordDto)
  | resetPassword (dto : ResetPasswordDto)
  | guarded (token : AccessToken) (request : GuardedRequest)

/-! ## Tasks

A task is the next statement of a method, with the values that the statements before it have left. -/

/-- The method that `generateTokens` returns to. -/
inductive Caller where
  | login
  | refreshToken (stored : RefreshToken)

/-- What `verifyOtp` returns to. -/
inductive AfterOtp where
  | verifyRegisterOtp (dto : VerifyOtpDto) (user : User)
  | resetPassword (dto : ResetPasswordDto) (user : User)
  | confirmChangeEmail (dto : ConfirmChangeEmailDto) (user : User)

/-- What the `save` of a user returns to. -/
inductive AfterSave where
  | verifyRegisterOtp
  | resetPassword
  | changePassword (jti : Uuid) (exp : Nat)
  | updateProfile
  | updateAvatar
  | updatePrivacy
  | confirmChangeEmail

/-- The methods that end the session of the access token they were called with. -/
inductive SessionEnd where
  | logout
  | changePassword
  | deleteAccount

/-- The bulk revocations of the refresh tokens of a user, with what follows them. -/
inductive Revocation where
  | reuse
  | resetPassword
  | endSession (by_ : SessionEnd) (jti : Uuid) (exp : Nat)

inductive Task where
  | registerFind (dto : RegisterDto)
  | registerSave (dto : RegisterDto)
  | registerSendOtp (email : String)
  | verifyRegisterFind (dto : VerifyOtpDto)
  | verifyRegisterFindUsername (dto : VerifyOtpDto) (user : User)
  | resendFind (email : String)
  | resendExistsCooldown (email : String)
  | resendTtlCooldown (email : String)
  | resendSendOtp (email : String)
  | resendSetCooldown (email : String)
  | loginFind (dto : LoginDto)
  | loginCompare (dto : LoginDto) (user : User)
  | loginUpdateLastLogin (userId : Nat) (lastLoginAt : Time)
  | refreshFind (dto : RefreshTokenDto)
  | refreshSave (stored : RefreshToken) (user : Option User)
  | generateSave (caller : Caller) (userId : Nat) (access : AccessToken) (refreshTokenRaw : Uuid)
      (expiresAt : Int)
  | forgotFind (dto : ForgotPasswordDto)
  | forgotSendOtp (email : String)
  | resetFind (dto : ResetPasswordDto)
  | resetHash (dto : ResetPasswordDto) (user : User)
  | verifyOtp (point : OtpPoint) (key : OtpKey) (otp : String) (after : AfterOtp)
  | validateGet (token : AccessToken) (request : GuardedRequest)
  | validateFind (token : AccessToken) (request : GuardedRequest)
  | changePasswordCompare (user : User) (dto : ChangePasswordDto) (jti : Uuid) (exp : Nat)
  | requestEmailFind (user : User) (dto : RequestChangeEmailDto)
  | requestEmailSendOtp (user : User) (dto : RequestChangeEmailDto)
  | confirmEmailFind (user : User) (dto : ConfirmChangeEmailDto)
  | deleteCompare (user : User) (dto : DeleteAccountDto) (jti : Uuid) (exp : Nat)
  | deleteSoftDelete (userId : Nat)
  | changeRole (id : Nat) (dto : ChangeUserRoleDto) (actor : User)
  /-- `save` of a user reads its row again. -/
  | saveRead (user : User) (after : AfterSave)
  /-- `save` of a user writes the columns in which `user` differs from the row that was read. -/
  | saveWrite (user database : User) (after : AfterSave)
  | revokeTokens (userId : Nat) (revocation : Revocation)
  | blacklistSet (userId : Nat) (jti : Uuid) (exp : Nat) (by_ : SessionEnd)

/-- What a statement takes from outside: the time since the statement before, the salt of a hash, the
random number of a code, and whether the mail server takes a mail. -/
structure Input where
  elapsed : Nat
  salt : Nat
  random : Nat
  mailSent : Bool

abbrev Step := Effect Store Task (Except HttpException Reply)

/-- The request goes on. -/
def go (s : Store) (t : Task) : Step := ⟨s, [t], none⟩

def reply (s : Store) (r : Reply) : Step := ⟨s, [], some (.ok r)⟩

def fail (s : Store) (e : HttpException) : Step := ⟨s, [], some (.error e)⟩

end AcaSocial.Identity
