import AcaSocial.Identity.Task

/-!
# The authentication service

The methods of `AuthService`, one definition for each statement of a method. The definition with the
name of the method is its first statement.

`refreshToken` looks a token up by its hash (`refreshToken`), revokes all tokens of the user when the
one it found is already revoked (`revokeAll`), or saves it as revoked (`refreshSave`) and inserts its
successor (`generateSave`).
-/

namespace AcaSocial.Identity

/-- What is returned of a user. -/
def getProfile (user : User) : UserProfileDto where
  id := user.id
  username := user.username
  fullName := user.fullName
  email := user.email
  dateOfBirth := user.dateOfBirth
  avatarUrl := user.avatarUrl
  privacy := user.privacy
  role := user.role
  isVerified := user.isVerified
  createdAt := user.createdAt
  lastLoginAt := user.lastLoginAt

namespace AuthService

variable (env : Env) (x : Input) (s : Store)

/-! ## Registration

The account is saved, a code goes to its address, and the account becomes verified when the code comes back. -/

def register (dto : RegisterDto) : Step :=
  match s.findUserWithDeleted (·.email = dto.email) with
  | some _ => fail s (.conflict "Email already registered")
  | none => go s (.registerSave dto)

/-- The row that `register` inserts. -/
def newUser (dto : RegisterDto) (id : Nat) : User where
  id
  username := none
  fullName := dto.fullName
  dateOfBirth := dto.dateOfBirth
  email := dto.email
  passwordHash := env.bcryptHash dto.password x.salt
  avatarUrl := none
  privacy := .public
  isVerified := false
  role := .student
  passwordChangedAt := none
  lastLoginAt := none
  createdAt := s.now
  deletedAt := none

def registerSave (dto : RegisterDto) : Step :=
  if s.Taken (newUser env x s dto s.users.next) then fail s .internalServerError
  else go { s with users := s.users.insert (newUser env x s dto) fun _ => rfl }
    (.registerSendOtp dto.email)

def registerSendOtp (email : String) : Step :=
  let s := OtpService.createOtp s (.register email) (OtpService.generateCode x.random) 300
  if x.mailSent then
    reply s (.message "Registration successful. Please verify your email with OTP.")
  else fail s .internalServerError

def verifyRegisterOtp (dto : VerifyOtpDto) : Step :=
  match s.findUser (·.email = dto.email) with
  | none => fail s (.notFound "User not found")
  | some user =>
    if user.isVerified then fail s (.badRequest "Account already verified")
    else go s (.verifyRegisterFindUsername dto user)

def verifyRegisterFindUsername (dto : VerifyOtpDto) (user : User) : Step :=
  match s.findUserWithDeleted (·.username = some dto.username) with
  | some _ => fail s (.conflict "Username already taken")
  | none => go s (.verifyOtp .existsLock (.register dto.email) dto.otp (.verifyRegisterOtp dto user))

def resendOtp (email : String) : Step :=
  match s.findUser (·.email = email) with
  | none => fail s (.notFound "User not found")
  | some user =>
    if user.isVerified then fail s (.badRequest "Account already verified")
    else go s (.resendExistsCooldown email)

def resendExistsCooldown (email : String) : Step :=
  if (s.redis.otpCooldown.get? s.now (.register email)).isSome then go s (.resendTtlCooldown email)
  else go s (.resendSendOtp email)

def resendTtlCooldown (email : String) : Step :=
  let ttl := s.redis.otpCooldown.ttl s.now (.register email)
  fail s (.tooManyRequests ("Vui lòng đợi " ++ toString ttl ++ " giây trước khi gửi lại OTP."))

def resendSendOtp (email : String) : Step :=
  let s := OtpService.createOtp s (.register email) (OtpService.generateCode x.random) 300
  if x.mailSent then go s (.resendSetCooldown email) else fail s .internalServerError

def resendSetCooldown (email : String) : Step :=
  reply { s with redis := { s.redis with
      otpCooldown := s.redis.otpCooldown.setEx (.register email) () (OtpService.deadline s 60) } }
    (.message "OTP resent successfully")

/-! ## Sessions

Tokens are signed in pairs, and the row of a refresh token is replaced whenever it is used. -/

/-- The access token that is signed for a user, under a new `jti`. -/
def sign (user : User) : AccessToken where
  sub := user.id
  username := user.username
  email := user.email
  role := user.role
  jti := s.uuids
  iat := s.now / 1000
  exp := s.now / 1000 + env.accessTtl

/-- `generateTokens` up to its insertion: the access token is signed and the refresh token drawn. -/
def generateTokens (caller : Caller) (user : User) : Store × Task :=
  let access := sign env s user
  let s' := { s.randomUUID with issued := access :: s.issued }
  (s'.randomUUID,
    .generateSave caller user.id access s'.uuids (s.now + parseTtl env.refreshExpires * 1000))

/-- The row that `generateTokens` inserts. -/
def newRefreshToken (userId : Nat) (refreshTokenRaw : Uuid) (expiresAt : Int) (id : Nat) :
    RefreshToken where
  id
  tokenHash := env.sha256 refreshTokenRaw
  expiresAt
  revoked := false
  createdAt := s.now
  userId

/-- The insertion of `generateTokens`, refused when the hash is there already. -/
def generateSave (userId : Nat) (access : AccessToken) (refreshTokenRaw : Uuid) (expiresAt : Int) :
    Step :=
  if ∃ t ∈ s.refreshTokens.rows, t.tokenHash = env.sha256 refreshTokenRaw then
    fail s .internalServerError
  else
    reply { s with
        refreshTokens := s.refreshTokens.insert
          (newRefreshToken env s userId refreshTokenRaw expiresAt) fun _ => rfl }
      (.tokens access refreshTokenRaw)

def login (dto : LoginDto) : Step :=
  let user :=
    if '@' ∈ dto.identifier.toList then s.findUser (·.email = dto.identifier)
    else s.findUser (·.username = some dto.identifier)
  match user with
  | none => fail s (.unauthorized "Invalid credentials")
  | some user =>
    if !user.isVerified then fail s (.unauthorized "Account not verified")
    else go s (.loginCompare dto user)

/-- The password check of `login`. The time of the login is written by a task of its own. -/
def loginCompare (dto : LoginDto) (user : User) : Step :=
  if !env.bcryptCompare dto.password user.passwordHash then
    fail s (.unauthorized "Invalid credentials")
  else
    let (s', t) := generateTokens env s .login user
    ⟨s', [t, .loginUpdateLastLogin user.id s.now], none⟩

def loginUpdateLastLogin (userId : Nat) (lastLoginAt : Time) : Step :=
  match s.users.get? userId with
  | none => ⟨s, [], none⟩
  | some user =>
    ⟨{ s with users := s.users.save { user with lastLoginAt := some lastLoginAt } }, [], none⟩

/-- `refreshToken` by the token that is found under the hash. -/
def refreshToken (dto : RefreshTokenDto) : Step :=
  match s.refreshTokens.rows.find? (·.tokenHash = env.sha256 dto.refreshToken) with
  | none => fail s (.unauthorized "Invalid or expired refresh token")
  | some stored =>
    if stored.revoked then go s (.revokeTokens stored.userId .reuse)
    else if stored.expiresAt < s.now then
      fail s (.unauthorized "Invalid or expired refresh token")
    else go s (.refreshSave stored (s.findUser (·.id = stored.userId)))

/-- The found token is saved as revoked. The relation to a soft-deleted user is `null`, and the save
fails: it writes the relation to `user_id`, which has to have a value. -/
def refreshSave (stored : RefreshToken) (user : Option User) : Step :=
  match user with
  | none => fail s .internalServerError
  | some user =>
    let s := { s with refreshTokens := s.refreshTokens.save { stored with revoked := true } }
    let (s', t) := generateTokens env s (.refreshToken stored) user
    go s' t

/-- The bulk revocation of a user's tokens. `logout` and a reuse leave out those that are revoked
already. -/
def revokeAll (userId : Nat) : Revocation → Store
  | .reuse | .endSession .logout _ _ => s.revokeTokens fun t => t.userId = userId && !t.revoked
  | _ => s.revokeTokens fun t => t.userId = userId

/-- The key that ends an access token lives as long as the token would have. -/
def blacklist (jti : Uuid) (exp : Nat) : Store :=
  let ttl := max 1 (exp - s.now / 1000)
  { s with redis := { s.redis with
      blacklist := s.redis.blacklist.setEx jti () (OtpService.deadline s ttl) } }

/-! ## Forgotten passwords

A code is sent, and with it the password is set and every session ended. -/

def forgotPassword (dto : ForgotPasswordDto) : Step :=
  match s.findUser (·.email = dto.email) with
  | none => reply s (.message "Nếu email tồn tại trong hệ thống, bạn sẽ nhận được mã OTP.")
  | some _ => go s (.forgotSendOtp dto.email)

def forgotSendOtp (email : String) : Step :=
  let s := OtpService.createOtp s (.reset email) (OtpService.generateCode x.random) 600
  if x.mailSent then
    reply s (.message "Nếu email tồn tại trong hệ thống, bạn sẽ nhận được mã OTP.")
  else fail s .internalServerError

def resetPassword (dto : ResetPasswordDto) : Step :=
  match s.findUser (·.email = dto.email) with
  | none => fail s (.notFound "User not found")
  | some user => go s (.verifyOtp .existsLock (.reset dto.email) dto.otp (.resetPassword dto user))

/-- The new hash and the time of the change, before the user is saved. -/
def resetHash (dto : ResetPasswordDto) (user : User) : Step :=
  go s (.saveRead { user with
    passwordHash := env.bcryptHash dto.newPassword x.salt
    passwordChangedAt := some s.now } .resetPassword)

end AuthService

end AcaSocial.Identity
