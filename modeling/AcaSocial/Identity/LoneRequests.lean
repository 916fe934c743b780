import AcaSocial.Base.Alone
import AcaSocial.Identity.UserRows

/-!
# Requests of the identity service that run alone

* **`serve`** — a request from its first statement to its last, at one time.
* **`Task.rank`** — how many statements are left at most, so `serve` always comes to the end.
* **`Lone`** — what a request leaves that runs alone, as a relation. The `lone_*` lemmas follow a
  request over the parts that many of them share: the guard, `save` and `verifyOtp`.
-/

namespace AcaSocial.Identity

/-- How many statements are left at most. -/
def Task.rank : Task → Nat
  | .registerFind _ => 3
  | .registerSave _ => 2
  | .registerSendOtp _ => 1
  | .verifyRegisterFind _ => 13
  | .verifyRegisterFindUsername _ _ => 12
  | .resendFind _ => 4
  | .resendExistsCooldown _ => 3
  | .resendTtlCooldown _ => 1
  | .resendSendOtp _ => 2
  | .resendSetCooldown _ => 1
  | .loginFind _ => 4
  | .loginCompare _ _ => 3
  | .loginUpdateLastLogin _ _ => 1
  | .refreshFind _ => 4
  | .refreshSave _ _ => 2
  | .generateSave .. => 1
  | .forgotFind _ => 2
  | .forgotSendOtp _ => 1
  | .resetFind _ => 12
  | .resetHash _ _ => 6
  | .verifyOtp .existsLock _ _ _ => 11
  | .verifyOtp .ttlLock _ _ _ => 1
  | .verifyOtp .getOtp _ _ _ => 10
  | .verifyOtp .incrFail _ _ _ => 9
  | .verifyOtp (.expireFail _) _ _ _ => 8
  | .verifyOtp .setLock _ _ _ => 1
  | .verifyOtp .delOtp _ _ _ => 7
  | .validateGet _ _ => 14
  | .validateFind _ _ => 13
  | .changePasswordCompare .. => 6
  | .requestEmailFind _ _ => 2
  | .requestEmailSendOtp _ _ => 1
  | .confirmEmailFind _ _ => 12
  | .deleteCompare .. => 4
  | .deleteSoftDelete _ => 1
  | .changeRole .. => 1
  | .saveRead _ _ => 5
  | .saveWrite .. => 4
  | .revokeTokens _ _ => 3
  | .blacklistSet .. => 2

/-- The statements that a step leaves at most. -/
def rankOf (e : Step) : Nat := (e.next.map Task.rank).sum

section

variable (env : Env) (x : Input) (s : Store)

@[simp] theorem rankOf_go (t : Task) : rankOf (go s t) = t.rank := rfl

@[simp] theorem rankOf_reply (r : Reply) : rankOf (reply s r) = 0 := rfl

@[simp] theorem rankOf_fail (e : HttpException) : rankOf (fail s e) = 0 := rfl

/-- What follows a code has six statements at most. -/
theorem rankOf_afterOtp (valid : Bool) (after : AfterOtp) : rankOf (afterOtp s valid after) ≤ 6 := by
  cases after <;> cases valid <;> simp [afterOtp, Task.rank]

/-- What follows a save has three statements at most. -/
theorem rankOf_afterSave (user : User) (after : AfterSave) : rankOf (afterSave s user after) ≤ 3 := by
  cases after <;> simp [afterSave, Task.rank]

/-- What follows a revocation has two statements at most. -/
theorem rankOf_afterRevocation (userId : Nat) (revocation : Revocation) :
    rankOf (afterRevocation s userId revocation) ≤ 2 := by
  cases revocation <;> simp [afterRevocation, Task.rank]

theorem rankOf_afterBlacklist (userId : Nat) (by_ : SessionEnd) :
    rankOf (afterBlacklist s userId by_) ≤ 1 := by
  cases by_ <;> simp [afterBlacklist, Task.rank]

/-- A method behind the guard has twelve statements at most. -/
theorem rankOf_handle (user : User) (token : AccessToken) (request : GuardedRequest) :
    rankOf (JwtStrategy.handle s user token request) ≤ 12 := by
  cases request with
  | changeRole id dto =>
    simp only [JwtStrategy.handle]
    split <;> simp [Task.rank]
  | _ =>
    simp [JwtStrategy.handle, UsersService.updateProfile, UsersService.updateAvatar,
      UsersService.updatePrivacy, Task.rank]

/-- Every command of a verification takes the rank down. -/
theorem rank_verifyOtp (point : OtpPoint) (key : OtpKey) (otp : String) (after : AfterOtp) :
    rankOf (statement env x s (.verifyOtp point key otp after))
      < (Task.verifyOtp point key otp after).rank := by
  have hafter : ∀ s' valid, rankOf (afterOtp s' valid after) ≤ 6 :=
    fun s' valid => rankOf_afterOtp s' valid after
  cases point with
  -- locked or not, the next command is lower
  | existsLock =>
    simp only [statement, OtpService.verifyOtp, rankOf_go]
    split <;> simp [Task.rank]
  | getOtp =>
    simp only [statement, OtpService.verifyOtp]
    split
    · next h =>
      split at h
      · simp at h
      · simp only [Prod.mk.injEq, OtpStep.next.injEq] at h
        rw [rankOf_go, ← h.2]
        split <;> simp [Task.rank]
    · exact Nat.lt_of_le_of_lt (hafter _ _) (by simp [Task.rank])
    · simp [Task.rank]
  -- the fifth failure sets the lock, and any other ends the verification
  | expireFail fails =>
    simp only [statement, OtpService.verifyOtp]
    split
    · next h =>
      split at h
      · simp only [Prod.mk.injEq, OtpStep.next.injEq] at h
        rw [rankOf_go, ← h.2]
        simp [Task.rank]
      · simp at h
    · exact Nat.lt_of_le_of_lt (hafter _ _) (by simp [Task.rank])
    · simp [Task.rank]
  | delOtp => exact Nat.lt_of_le_of_lt (hafter _ _) (by simp [Task.rank])
  | _ => simp [statement, OtpService.verifyOtp, Task.rank]

end

/-- A task has a statement left. -/
theorem rank_pos (t : Task) : 0 < t.rank := by
  cases t with
  | verifyOtp point key otp after => cases point <;> exact Nat.succ_pos _
  | _ => exact Nat.succ_pos _

/-- The ranks fall along the control flow. -/
theorem rank_leads {s : Store} {t t' : Task} (h : Leads s t t') : t'.rank < t.rank := by
  cases h with
  | @handled token request user t _ hnext =>
    have hle := rankOf_handle s user token request
    rw [rankOf, hnext, List.map_singleton, List.sum_singleton] at hle
    exact Nat.lt_succ_of_le hle
  | _ => simp [Task.rank]

/-- A statement that writes to no table takes the rank down. -/
theorem rank_quiet {s : Store} {t : Task} {e : Step} (h : QuietStep s t e) : rankOf e < t.rank := by
  cases h with
  | ends => exact rank_pos t
  | goes hlead => exact rank_leads hlead
  | codes _ hnext =>
    rcases hnext with rfl | ⟨email, rfl, rfl⟩
    · exact rank_pos t
    · simp [rankOf, Task.rank]

/-- Every statement takes the rank of its task down. -/
theorem rank_statement (env : Env) (x : Input) (s : Store) (t : Task) :
    rankOf (statement env x s t) < t.rank := by
  cases t with
  | verifyOtp point key otp after => exact rank_verifyOtp env x s point key otp after
  -- what follows a save is a shorter request
  | saveWrite user database after =>
    simp only [statement, saveWrite]
    split
    · simp [Task.rank]
    · split
      · simp [Task.rank]
      · exact Nat.lt_of_le_of_lt (rankOf_afterSave _ user after) (by simp [Task.rank])
  | revokeTokens userId revocation =>
    exact Nat.lt_of_le_of_lt (rankOf_afterRevocation _ userId revocation) (by simp [Task.rank])
  | blacklistSet userId jti exp by_ =>
    exact Nat.lt_of_le_of_lt (rankOf_afterBlacklist _ userId by_) (by simp [Task.rank])
  | changeRole id dto actor =>
    simp only [statement]
    rcases changeRole_cases s id dto actor with ⟨-, ⟨r, he⟩ | ⟨ex, he⟩⟩ | ⟨user, -, -, he⟩ <;> rw [he] <;>
      simp [Task.rank]
  | loginCompare dto user =>
    simp only [statement, AuthService.loginCompare]
    split
    · simp [Task.rank]
    · simp [rankOf, AuthService.generateTokens, Task.rank]
  | refreshSave stored user =>
    cases user <;> simp [statement, AuthService.refreshSave, AuthService.generateTokens, Task.rank]
  | registerSave dto =>
    simp only [statement, AuthService.registerSave]
    split <;> simp [Task.rank]
  | loginUpdateLastLogin userId lastLoginAt =>
    simp only [statement, AuthService.loginUpdateLastLogin]
    split <;> simp [rankOf, Task.rank]
  | generateSave caller userId access raw expiresAt =>
    simp only [statement, AuthService.generateSave]
    split <;> simp [Task.rank]
  | deleteSoftDelete userId => exact Nat.one_pos
  | _ => exact rank_quiet (quiet_step env x s trivial)

/-! ## One request

A request that runs alone is its first statement, followed by what it goes on with. It ends, as the rank falls. -/

/-- The statements of a request that runs alone take no time. -/
def Input.atOnce (x : Input) : Input := { x with elapsed := 0 }

/-- A request from its first statement to its last, some time after what was before it. -/
def serve (env : Env) (x : Input) (s : Store) (r : Request) : Step :=
  (service env).finish x.atOnce 14 (go (s.wait x.elapsed) (enter r))

/-- What `e` goes on with runs alone, and leaves `f`. -/
def Lone (env : Env) (x : Input) (e f : Step) : Prop := (service env).Ends x.atOnce e f

/-- Every request ends within fourteen statements. -/
theorem rank_enter (r : Request) : (enter r).rank ≤ 14 := by
  cases r <;> simp [enter, Task.rank]

/-- A request comes to its end. -/
theorem lone_serve (env : Env) (x : Input) (s : Store) (r : Request) :
    Lone env x (go (s.wait x.elapsed) (enter r)) (serve env x s r) := by
  have hrank : ∀ s t, (((service env).exec x.atOnce s t).next.map Task.rank).sum < t.rank :=
    fun s t => rank_statement env x.atOnce (s.wait 0) t
  exact Program.ends_finish Task.rank hrank (rank_enter r)

/-- **A request alone is an interleaving.** The statements of the pool run it when no other task is there. -/
theorem serve_interleaving (env : Env) (x : Input) (s : Store) (r : Request) (n m : Nat) :
    run (Pool.step (service env)) ⟨s.wait x.elapsed, [(n, enter r)], m⟩ (List.replicate 14 (.run 0 x.atOnce))
      = ⟨(serve env x s r).store, [], m⟩ := by
  have hrun := @Program.run_finish _ _ _ _ _ (service env) x.atOnce 14 n m (go (s.wait x.elapsed) (enter r))
  have hover : (serve env x s r).next = [] := (lone_serve env x s r).done
  refine hrun.trans ?_
  show (⟨(serve env x s r).store, (serve env x s r).next.map (Prod.mk n), m⟩ : Pool Store Task) = _
  rw [hover]
  rfl

section

variable {env : Env} {x : Input} {s : Store} {t : Task} {f : Step}

/-- A statement takes no account of the time before it. -/
theorem statement_atOnce : statement env x.atOnce s t = statement env x s t := by
  cases t <;> rfl

/-- A request goes on with the next statement of its first task. -/
theorem Lone.first {ts : List Task} {a : Option (Except HttpException Reply)}
    (h : Lone env x ⟨s, t :: ts, a⟩ f) :
    Lone env x ⟨(statement env x s t).store, ts ++ (statement env x s t).next,
      (statement env x s t).reply.or a⟩ f := by
  rw [← statement_atOnce]
  exact Program.Ends.advance h

/-- A request of one task goes on with the statement that comes next. -/
theorem Lone.next (h : Lone env x (go s t) f) : Lone env x (statement env x s t) f := by
  have h := Lone.first h
  rw [Option.or_none] at h
  exact h

/-- A request that has ended runs no further. -/
theorem Lone.done {a : Option (Except HttpException Reply)} (h : Lone env x ⟨s, [], a⟩ f) :
    f = ⟨s, [], a⟩ := Program.Ends.eq h rfl

end

/-! ## The guard

A request behind the guard is refused, or runs with the user of its token. -/

/-- The user that `validate` returns, if the guard lets the token through. -/
def JwtStrategy.accepted (s : Store) (token : AccessToken) : Option User :=
  if ¬ Verified s token then none
  else if (s.redis.blacklist.get? s.now token.jti).isSome then none
  else
    match s.findUser (·.id = token.sub) with
    | none => none
    | some user => if Outdated user token then none else some user

section

variable {env : Env} {x : Input} {s : Store} {token : AccessToken} {request : GuardedRequest}
  {user row : User} {f : Step}

/-- The guard lets a token through that is verified, not on the blacklist, of a user who is there and whose password
has not changed since. -/
theorem accepted_eq_some : JwtStrategy.accepted s token = some user ↔
    JwtStrategy.Verified s token ∧ s.redis.blacklist.get? s.now token.jti = none
      ∧ s.findUser (·.id = token.sub) = some user ∧ ¬ JwtStrategy.Outdated user token := by
  unfold JwtStrategy.accepted
  by_cases hverified : JwtStrategy.Verified s token
  · rw [if_neg (not_not.mpr hverified)]
    cases hget : s.redis.blacklist.get? s.now token.jti with
    | some _ => simp
    | none =>
      cases hfind : s.findUser (·.id = token.sub) with
      | none => simp
      | some user' =>
        by_cases hold : JwtStrategy.Outdated user' token
        · simp only [Option.isSome_none, Bool.false_eq_true, if_false, if_pos hold]
          refine iff_of_false (fun h => by cases h) ?_
          rintro ⟨-, -, hsame, hnew⟩
          exact hnew (Option.some.inj hsame ▸ hold)
        · simp only [Option.isSome_none, Bool.false_eq_true, if_false, if_neg hold, Option.some.injEq]
          constructor
          · rintro rfl
            exact ⟨hverified, trivial, rfl, hold⟩
          · exact fun h => h.2.2.1
  · rw [if_pos hverified]
    exact iff_of_false (fun h => by cases h) fun h => hverified h.1

/-- The guard loads the row of the user. -/
theorem row_of_accepted (h : JwtStrategy.accepted s token = some user) :
    token ∈ s.issued ∧ user.id = token.sub ∧ s.users.get? user.id = some user := by
  obtain ⟨⟨hissued, -⟩, -, hfind, -⟩ := accepted_eq_some.mp h
  exact ⟨hissued, of_decide_eq_true (findUser_eq_some hfind).2.2, get?_of_findUser hfind⟩

/-- **The guard alone.** It refuses the token, or calls the method with the user that it returned. -/
theorem lone_guard (h : Lone env x (go s (.validateGet token request)) f) :
    (JwtStrategy.accepted s token = none ∧ ∃ e, f = fail s e)
      ∨ ∃ user, JwtStrategy.accepted s token = some user
        ∧ Lone env x (JwtStrategy.handle s user token request) f := by
  have h : Lone env x (JwtStrategy.validate s token request) f := h.next
  unfold JwtStrategy.accepted
  simp only [JwtStrategy.validate] at h
  split at h
  · next hverified => exact .inl ⟨if_pos hverified, _, h.done⟩
  · next hverified =>
    rw [if_neg hverified]
    split at h
    · next hblack => exact .inl ⟨if_pos hblack, _, h.done⟩
    · next hblack =>
      rw [if_neg hblack]
      have h : Lone env x (JwtStrategy.validateFind s token request) f := h.next
      simp only [JwtStrategy.validateFind] at h
      cases hfind : s.findUser (·.id = token.sub) with
      | none =>
        rw [hfind] at h
        exact .inl ⟨rfl, _, h.done⟩
      | some user =>
        simp only [hfind] at h
        split at h
        · next hold => exact .inl ⟨if_pos hold, _, h.done⟩
        · next hold => exact .inr ⟨user, if_neg hold, h⟩

/-! ## Saving a user

A save reads the row again and writes the columns that differ. While nothing else runs, this is to write the user. -/

/-- What was read again is what the entity differs from, so the entity is stored. -/
theorem User.write_self (h : user.id = row.id) : user.write row row = user := by
  have hcolumn : ∀ {α : Type} [DecidableEq α] (entity database : α),
      writeColumn entity database database = entity := by
    intro α _ entity database
    rw [writeColumn]
    split
    · next he => exact he.symm
    · rfl
  simp only [User.write, hcolumn, ← h]

/-- **A save alone.** The entity takes the place of its row, unless another row has its e-mail address or
its user name. -/
theorem lone_save {after : AfterSave} (h : Lone env x (go s (.saveRead user after)) f)
    (hrow : s.users.get? user.id = some row) :
    (s.Taken user ∧ f = fail s .internalServerError)
      ∨ ¬ s.Taken user
        ∧ Lone env x (afterSave { s with users := s.users.save user } user after) f := by
  have hid : row.id = user.id := (Table.get?_eq_some.mp hrow).2
  have h : Lone env x (saveRead s user after) f := h.next
  simp only [saveRead, hrow] at h
  have h : Lone env x (saveWrite s user row after) f := h.next
  simp only [saveWrite, hrow, User.write_self hid.symm] at h
  split at h
  · next htaken => exact .inl ⟨htaken, h.done⟩
  · next htaken => exact .inr ⟨htaken, h⟩

/-! ## Verifying a one-time password

The commands of `verifyOtp` follow each other, and leave all but Redis alone. -/

/-- A wrong code, and the failure that counts as the last one. -/
def OtpService.miss (s : Store) (key : OtpKey) : Store × Except HttpException Bool :=
  let (otpFail, fails) := s.redis.otpFail.incr s.now key
  let otpFail := otpFail.expire s.now key (deadline s lockoutSeconds)
  let s := { s with redis := { s.redis with otpFail } }
  if fails ≥ maxAttempts then
    ({ s with redis := { s.redis with
        otpLock := s.redis.otpLock.setEx key () (deadline s lockoutSeconds)
        otp := s.redis.otp.del key
        otpFail := s.redis.otpFail.del key } },
      .error (.tooManyRequests
        ("Quá nhiều lần thử sai. Vui lòng yêu cầu mã OTP mới sau "
          ++ toString (lockoutSeconds / 60) ++ " phút.")))
  else (s, .ok false)

/-- All commands of `verifyOtp`. -/
def OtpService.verifyAlone (s : Store) (key : OtpKey) (otp : String) :
    Store × Except HttpException Bool :=
  if (s.redis.otpLock.get? s.now key).isSome then
    (s, .error (.tooManyRequests ("Quá nhiều lần thử sai. Vui lòng thử lại sau "
      ++ toString (s.redis.otpLock.ttl s.now key) ++ " giây.")))
  else
    match s.redis.otp.get? s.now key with
    | none => (s, .ok false)
    | some stored =>
      if stored ≠ otp then miss s key
      else
        ({ s with redis := { s.redis with
            otp := s.redis.otp.del key
            otpFail := s.redis.otpFail.del key } },
          .ok true)

/-- A verification works on Redis only. -/
theorem verifyAlone_store (s : Store) (key : OtpKey) (otp : String) :
    ∃ redis, (OtpService.verifyAlone s key otp).1 = { s with redis }
      ∧ redis.blacklist = s.redis.blacklist := by
  unfold OtpService.verifyAlone
  split
  · exact ⟨s.redis, rfl, rfl⟩
  · split
    · exact ⟨s.redis, rfl, rfl⟩
    · split
      · unfold OtpService.miss
        split
        split <;> exact ⟨_, rfl, rfl⟩
      · exact ⟨_, rfl, rfl⟩

/-- The commands of a verification alone, and what follows them. -/
theorem lone_verifyOtp {key : OtpKey} {otp : String} {after : AfterOtp}
    (h : Lone env x (go s (.verifyOtp .existsLock key otp after)) f) :
    (∃ s' e, OtpService.verifyAlone s key otp = (s', .error e) ∧ f = fail s' e)
      ∨ ∃ s' valid, OtpService.verifyAlone s key otp = (s', .ok valid)
        ∧ Lone env x (afterOtp s' valid after) f := by
  have h := h.next
  simp only [statement, OtpService.verifyOtp] at h
  unfold OtpService.verifyAlone
  cases hlock : (s.redis.otpLock.get? s.now key).isSome with
  | true =>
    rw [hlock, if_pos rfl] at h
    exact .inl ⟨_, _, if_pos rfl, h.next.done⟩
  | false =>
    rw [hlock, if_neg Bool.false_ne_true] at h
    rw [if_neg Bool.false_ne_true]
    have h := h.next
    simp only [statement, OtpService.verifyOtp] at h
    -- no code, a wrong one, or the right one
    cases hget : s.redis.otp.get? s.now key with
    | none =>
      rw [hget] at h
      exact .inr ⟨_, _, rfl, h⟩
    | some stored =>
      rw [hget] at h
      by_cases hwrong : stored ≠ otp
      · simp only [if_pos hwrong] at h ⊢
        unfold OtpService.miss
        have h := h.next
        simp only [statement, OtpService.verifyOtp] at h
        generalize s.redis.otpFail.incr s.now key = counted at h ⊢
        obtain ⟨otpFail, fails⟩ := counted
        have h := h.next
        simp only [statement, OtpService.verifyOtp] at h
        -- the fifth failure locks the key
        by_cases hmany : fails ≥ OtpService.maxAttempts
        · simp only [if_pos hmany] at h ⊢
          exact .inl ⟨_, _, rfl, h.next.done⟩
        · simp only [if_neg hmany] at h ⊢
          exact .inr ⟨_, _, rfl, h⟩
      · simp only [if_neg hwrong] at h ⊢
        exact .inr ⟨_, _, rfl, h.next⟩

end

end AcaSocial.Identity
