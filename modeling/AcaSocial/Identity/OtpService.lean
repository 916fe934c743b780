import AcaSocial.Identity.Entities

/-!
# One-time passwords

* **`createOtp`** — a new code, which replaces an older one and clears its failures and its lock.
* **`verifyOtp`** — the Redis commands of a verification, one at a time. `OtpPoint` is the command
  that comes next, `OtpStep` what it leads to.

A pipeline is one command.
-/

namespace AcaSocial.Identity

/-- What the service answers with when it refuses. -/
inductive HttpException where
  | badRequest (message : String)
  | unauthorized (message : String)
  | forbidden (message : String)
  | notFound (message : String)
  | conflict (message : String)
  | tooManyRequests (message : String)
  /-- An error that nothing catches. -/
  | internalServerError
deriving DecidableEq

namespace OtpService

def maxAttempts : Nat := 5

def lockoutSeconds : Nat := 300

/-- The deadline of a key that is set now and lives `seconds`. -/
def deadline (s : Store) (seconds : Nat) : Time := s.now + 1000 * seconds

/-- A code with six digits. -/
def generateCode (random : Nat) : String := toString (100000 + random % 900000)

/-- The state after the pipeline that stores the code `otp`. -/
def createOtp (s : Store) (key : OtpKey) (otp : String) (ttlSeconds : Nat) : Store :=
  { s with redis := { s.redis with
      otp := s.redis.otp.setEx key otp (deadline s ttlSeconds)
      otpFail := s.redis.otpFail.del key
      otpLock := s.redis.otpLock.del key } }

end OtpService

/-- The command of `verifyOtp` that comes next. -/
inductive OtpPoint where
  | existsLock
  | ttlLock
  | getOtp
  | incrFail
  | expireFail (fails : Nat)
  | setLock
  | delOtp
deriving DecidableEq

/-- What a command of `verifyOtp` leads to. -/
inductive OtpStep where
  | next (point : OtpPoint)
  | return (valid : Bool)
  | throw (e : HttpException)

namespace OtpService

/-- `verifyOtp`, one command at a time. -/
def verifyOtp (s : Store) (key : OtpKey) (otp : String) : OtpPoint → Store × OtpStep
  | .existsLock =>
    (s, .next (if (s.redis.otpLock.get? s.now key).isSome then .ttlLock else .getOtp))
  | .ttlLock =>
    let ttl := s.redis.otpLock.ttl s.now key
    (s, .throw (.tooManyRequests
      ("Quá nhiều lần thử sai. Vui lòng thử lại sau " ++ toString ttl ++ " giây.")))
  | .getOtp =>
    match s.redis.otp.get? s.now key with
    | none => (s, .return false)
    | some stored => (s, .next (if stored ≠ otp then .incrFail else .delOtp))
  | .incrFail =>
    let (otpFail, fails) := s.redis.otpFail.incr s.now key
    ({ s with redis := { s.redis with otpFail } }, .next (.expireFail fails))
  | .expireFail fails =>
    let otpFail := s.redis.otpFail.expire s.now key (deadline s lockoutSeconds)
    ({ s with redis := { s.redis with otpFail } },
      if fails ≥ maxAttempts then .next .setLock else .return false)
  | .setLock =>
    ({ s with redis := { s.redis with
        otpLock := s.redis.otpLock.setEx key () (deadline s lockoutSeconds)
        otp := s.redis.otp.del key
        otpFail := s.redis.otpFail.del key } },
      .throw (.tooManyRequests
        ("Quá nhiều lần thử sai. Vui lòng yêu cầu mã OTP mới sau "
          ++ toString (lockoutSeconds / 60) ++ " phút.")))
  | .delOtp =>
    ({ s with redis := { s.redis with
        otp := s.redis.otp.del key
        otpFail := s.redis.otpFail.del key } },
      .return true)

/-- A verification works on Redis only. -/
theorem verifyOtp_store (s : Store) (key : OtpKey) (otp : String) (point : OtpPoint) :
    ∃ redis, (verifyOtp s key otp point).1 = { s with redis } ∧ redis.blacklist = s.redis.blacklist := by
  cases point with
  | getOtp =>
    simp only [verifyOtp]
    split
    · exact ⟨s.redis, rfl, rfl⟩
    · exact ⟨s.redis, rfl, rfl⟩
  | _ => exact ⟨_, rfl, rfl⟩

end OtpService

end AcaSocial.Identity
