import AcaSocial.Base.Keyspace
import AcaSocial.Base.Table
import AcaSocial.Base.Text

/-!
# The data of the identity service

* **`User`**, **`RefreshToken`**, **`UserRoleAudit`** — the rows of the PostgreSQL tables.
* **`AccessToken`** — the claims of a signed access token.
* **`Redis`** — the blacklist of access tokens and the one-time passwords, each with a time to live.
* **`Store`** — all of it, with the clock.
* **`Env`** — what the service takes from outside: hashing and configuration.

Times are milliseconds since the epoch. A UUID is a number, and `randomUUID` gives a new one each
time. A soft-deleted user stays in its table with `deletedAt` set.
-/

namespace AcaSocial.Identity

abbrev Time := Nat

abbrev Uuid := Nat

inductive Privacy where
  | «public»
  | «private»
deriving DecidableEq

inductive Role where
  | student
  | teacher
  | moderator
  | admin
deriving DecidableEq

/-- A row of `users`. -/
structure User where
  id : Nat
  username : Option String
  fullName : String
  dateOfBirth : Option Time
  email : String
  passwordHash : String
  avatarUrl : Option String
  privacy : Privacy
  isVerified : Bool
  role : Role
  passwordChangedAt : Option Time
  lastLoginAt : Option Time
  createdAt : Time
  deletedAt : Option Time
deriving DecidableEq

/-- A row of `refresh_tokens`. Only the hash of the token is stored. -/
structure RefreshToken where
  id : Nat
  tokenHash : String
  expiresAt : Int
  revoked : Bool
  createdAt : Time
  userId : Nat
deriving DecidableEq

/-- A row of `user_role_audits`. -/
structure UserRoleAudit where
  id : Nat
  userId : Nat
  oldRole : Role
  newRole : Role
  changedBy : Nat
  reason : String
  createdAt : Time

/-- The claims of an access token. `iat` and `exp` are in seconds. -/
structure AccessToken where
  sub : Nat
  username : Option String
  email : String
  role : Role
  jti : Uuid
  iat : Nat
  exp : Nat
deriving DecidableEq

/-- What a one-time password is for, and whose it is: the key behind `otp:`. -/
inductive OtpKey where
  | register (email : String)
  | reset (email : String)
  | changeEmail (userId : Nat) (newEmail : String)
deriving DecidableEq

/-- The keys of Redis by their prefixes. -/
structure Redis where
  blacklist : Keyspace Uuid Unit
  otp : Keyspace OtpKey String
  otpFail : Keyspace OtpKey Nat
  otpLock : Keyspace OtpKey Unit
  otpCooldown : Keyspace OtpKey Unit

def Redis.empty : Redis :=
  ⟨fun _ => none, fun _ => none, fun _ => none, fun _ => none, fun _ => none⟩

/-- What all requests share. `issued` has the access tokens that were signed with the secret, so it is
what the verification of a signature answers from. -/
structure Store where
  now : Time
  users : Serial User User.id
  refreshTokens : Serial RefreshToken RefreshToken.id
  userRoleAudits : Serial UserRoleAudit UserRoleAudit.id
  redis : Redis
  uuids : Uuid
  issued : List AccessToken

def Store.empty : Store := ⟨0, ∅, ∅, ∅, .empty, 0, []⟩

/-- What the service takes from outside: `sha256` of a refresh token, `bcrypt`, the seconds of
`JWT_ACCESS_EXPIRES_IN`, and the text of `JWT_REFRESH_EXPIRES_IN`. -/
structure Env where
  sha256 : Uuid → String
  bcryptHash : String → Nat → String
  bcryptCompare : String → String → Bool
  accessTtl : Nat
  refreshExpires : Option String

/-! ## Time to live

The lifetime of a refresh token, as `parseTtl` reads it from the configuration. -/

/-- The digits that a number starts with. -/
def parseDigits (cs : List Char) : Option Nat :=
  match cs.takeWhile Char.isDigit with
  | [] => none
  | ds => some (ds.foldl (fun n c => 10 * n + (c.toNat - '0'.toNat)) 0)

/-- `parseInt(…, 10)`, with `none` for `NaN`. -/
def parseInt (cs : List Char) : Option Int :=
  match cs.dropWhile Text.isSpace with
  | '-' :: ds => (parseDigits ds).map fun n => -(n : Int)
  | '+' :: ds => (parseDigits ds).map Int.ofNat
  | ds => (parseDigits ds).map Int.ofNat

/-- The seconds of a text such as `15m` or `7d`, and 900 for a text that says nothing. -/
def parseTtl (expires : Option String) : Int :=
  match expires.map String.toList with
  | none | some [] => 900
  | some (c :: cs) =>
    match parseInt ((c :: cs).dropLast) with
    | none => 900
    | some value =>
      match (c :: cs).getLast (List.cons_ne_nil c cs) with
      | 's' => value
      | 'm' => value * 60
      | 'h' => value * 3600
      | 'd' => value * 86400
      | _ => 900

/-! ## Reads and writes

The statements that the methods share. -/

namespace Store

variable (s : Store)

/-- `userRepo.findOne`: soft-deleted rows are not seen. -/
def findUser (p : User → Bool) : Option User :=
  s.users.rows.find? fun u => u.deletedAt.isNone && p u

/-- `userRepo.findOne` with `withDeleted: true`. -/
def findUserWithDeleted (p : User → Bool) : Option User := s.users.rows.find? p

/-- Time passes. -/
def wait (elapsed : Nat) : Store := { s with now := s.now + elapsed }

/-- `randomUUID()`. -/
def randomUUID : Store := { s with uuids := s.uuids + 1 }

/-- `refreshTokenRepo.update(where, { revoked: true })`. -/
def revokeTokens (p : RefreshToken → Bool) : Store :=
  { s with
    refreshTokens := s.refreshTokens.modify
      (fun t => if p t then { t with revoked := true } else t) fun t => by split <;> rfl }

/-- Another row has the e-mail address or the user name of `u`. -/
def Taken (u : User) : Prop :=
  ∃ v ∈ s.users.rows, v.id ≠ u.id ∧ (v.email = u.email ∨ u.username ≠ none ∧ v.username = u.username)

instance (u : User) : Decidable (s.Taken u) :=
  inferInstanceAs (Decidable (∃ v ∈ s.users.rows, _))

end Store

/-- The value of a column after an `UPDATE` that writes it if the entity has another value than the
row had when it was read again. -/
def writeColumn {α : Type} [DecidableEq α] (entity database row : α) : α :=
  if entity = database then row else entity

/-- `Repository.save` of a user: every column in which the entity differs from the row that was read
again is written. -/
def User.write (entity database row : User) : User where
  id := row.id
  username := writeColumn entity.username database.username row.username
  fullName := writeColumn entity.fullName database.fullName row.fullName
  dateOfBirth := writeColumn entity.dateOfBirth database.dateOfBirth row.dateOfBirth
  email := writeColumn entity.email database.email row.email
  passwordHash := writeColumn entity.passwordHash database.passwordHash row.passwordHash
  avatarUrl := writeColumn entity.avatarUrl database.avatarUrl row.avatarUrl
  privacy := writeColumn entity.privacy database.privacy row.privacy
  isVerified := writeColumn entity.isVerified database.isVerified row.isVerified
  role := writeColumn entity.role database.role row.role
  passwordChangedAt :=
    writeColumn entity.passwordChangedAt database.passwordChangedAt row.passwordChangedAt
  lastLoginAt := writeColumn entity.lastLoginAt database.lastLoginAt row.lastLoginAt
  createdAt := writeColumn entity.createdAt database.createdAt row.createdAt
  deletedAt := writeColumn entity.deletedAt database.deletedAt row.deletedAt

end AcaSocial.Identity
