import AcaSocial.Identity.LoneRequests

/-!
# Confirming a new e-mail address

`requestChangeEmail` and `confirmChangeEmail` look for a live user with the new address. The columns of
`users` are unique over the soft-deleted rows too, and the code is deleted before the save.

* **`Consistent`** — what holds of every reachable store: no two rows have one address or one name, and a
  key with a lock has no code.
* **`Confirmation`** — the ways in which a confirmation ends. `confirmation` is its inversion.
* **`Unspent`** — a refused confirmation left the users and the code; the last wrong code that is allowed
  puts the lock in the place of the code.

`email_change_confirmed` is about every state that the interleavings reach, for an address that no
soft-deleted user has.
-/

namespace AcaSocial.Identity

/-- No two users have one e-mail address or one user name. -/
def Distinct (s : Store) : Prop := ∀ user ∈ s.users, ¬ s.Taken user

/-- A key has a lock or a code, or none of both. -/
def OneOrNone (redis : Redis) : Prop := ∀ key, redis.otpLock key = none ∨ redis.otp key = none

structure Consistent (s : Store) : Prop where
  distinct : Distinct s
  oneOrNone : OneOrNone s.redis

section

variable {env : Env} {x : Input} {s s' : Store} {t : Task} {e f : Step} {user row : User}
  {token : AccessToken} {dto : ConfirmChangeEmailDto}

/-! ## Unique columns

No two rows have one address or one name, and deleted rows count. -/

/-- Rows are compared by their keys, addresses and names. -/
theorem taken_congr (hid : user.id = row.id) (hemail : user.email = row.email)
    (husername : user.username = row.username) : s.Taken user ↔ s.Taken row := by
  unfold Store.Taken
  rw [hid, hemail, husername]

/-- One of two rows takes the columns of the other, and the other way. -/
theorem taken_symm {v : User} (hv : v ∈ s.users) (hne : v.id ≠ user.id) (hfree : ¬ s.Taken user) :
    ¬ (user.email = v.email ∨ v.username ≠ none ∧ user.username = v.username) := by
  intro hsame
  apply hfree
  refine ⟨v, hv, hne, ?_⟩
  rcases hsame with hemail | ⟨hnone, husername⟩
  · exact .inl hemail.symm
  · exact .inr ⟨fun h => hnone (husername.symm.trans h), husername.symm⟩

/-- A row that takes nothing is written in the place of the row with its key. -/
theorem Distinct.save (h : Distinct s) (hfree : ¬ s.Taken user) (hstore : s'.users = s.users.save user) :
    Distinct s' := by
  intro u hu ⟨v, hv, hne, hsame⟩
  rw [hstore] at hu
  replace hv : v ∈ s.users.save user := hstore ▸ hv
  rcases Serial.mem_save.mp hu with ⟨rfl, -⟩ | ⟨hu, hune⟩ <;>
    rcases Serial.mem_save.mp hv with ⟨hv, -⟩ | ⟨hv, -⟩
  · exact hne (congrArg User.id hv)
  · exact hfree ⟨v, hv, hne, hsame⟩
  · rw [hv] at hsame
    exact taken_symm hu hune hfree hsame
  · exact h u hu ⟨v, hv, hne, hsame⟩

/-- A new row that takes nothing is inserted. -/
theorem Distinct.insert {mk : Nat → User} (h : Distinct s) (hmk : ∀ i, (mk i).id = i)
    (hfree : ¬ s.Taken (mk s.users.next)) (hstore : s'.users = s.users.insert mk hmk) : Distinct s' := by
  have hnew : ∀ u ∈ s.users, u.id ≠ (mk s.users.next).id := by
    intro u hu
    rw [hmk]
    exact Nat.ne_of_lt (s.users.fresh u hu)
  intro u hu ⟨v, hv, hne, hsame⟩
  rw [hstore] at hu
  replace hv : v ∈ s.users.insert mk hmk := hstore ▸ hv
  rcases Serial.mem_insert.mp hu with hu | rfl <;> rcases Serial.mem_insert.mp hv with hv | rfl
  · exact h u hu ⟨v, hv, hne, hsame⟩
  · exact taken_symm hu (hnew u hu) hfree hsame
  · exact hfree ⟨v, hv, hne, hsame⟩
  · exact hne rfl

/-- The columns are unique as long as the users stay. -/
theorem Distinct.of_users (h : Distinct s) (husers : s'.users = s.users) : Distinct s' := by
  unfold Distinct Store.Taken
  rw [husers]
  exact h

/-- A statement that writes a row has found that it takes nothing, or leaves its address and its name. -/
theorem distinct_statement (h : Distinct s) : Distinct (statement env x s t).store := by
  have hkeep : ∀ user row : User, (statement env x s t).store.users = s.users.save user →
      s.users.get? user.id = some row → user.id = row.id → user.email = row.email →
      user.username = row.username → Distinct (statement env x s t).store := by
    intro user row husers hrow hid hemail husername
    refine h.save ?_ husers
    rw [taken_congr hid hemail husername]
    exact h row (Table.get?_eq_some.mp hrow).1
  have hstep := user_step env x s t
  generalize husers : (statement env x s t).store.users = users at hstep
  cases hstep with
  | aside => exact h.of_users husers
  | registered dto =>
    simp only [statement, AuthService.registerSave]
    split
    · exact h
    · next hfree => exact h.insert (fun _ => rfl) hfree rfl
  | loggedIn lastLoginAt hrow => exact hkeep _ _ husers hrow rfl rfl rfl
  | deleted hrow => exact hkeep _ _ husers hrow rfl rfl rfl
  | roleChanged hrow hchange => exact hkeep _ _ husers hrow rfl rfl rfl
  | written hrow hfree => exact h.save hfree husers

/-! ## Locks and codes

A key has a lock or a code, but not both. Each command of `verifyOtp` keeps this. -/

/-- What a statement does to the locks and the codes. -/
inductive CodeStep (s : Store) : Redis → Prop where
  | aside {redis : Redis} (hlock : redis.otpLock = s.redis.otpLock) (hotp : redis.otp = s.redis.otp) :
      CodeStep s redis
  | created (key : OtpKey) (otp : String) (ttlSeconds : Nat) :
      CodeStep s (OtpService.createOtp s key otp ttlSeconds).redis
  | verified (key : OtpKey) (otp : String) (point : OtpPoint) :
      CodeStep s (OtpService.verifyOtp s key otp point).1.redis

/-- A statement that writes to no table may create a code. -/
theorem CodeStep.of_quiet (h : QuietStep s t e) : CodeStep s e.store.redis := by
  cases h with
  | ends => exact .aside rfl rfl
  | goes => exact .aside rfl rfl
  | codes hcodes =>
    cases hcodes with
    | created key otp ttlSeconds => exact .created key otp ttlSeconds
    | cooldown otpCooldown => exact .aside rfl rfl

/-- **What a statement does to locks and codes.** -/
theorem code_step (env : Env) (x : Input) (s : Store) (t : Task) :
    CodeStep s (statement env x s t).store.redis := by
  cases t with
  | verifyOtp point key otp after =>
    have hstep : CodeStep s (OtpService.verifyOtp s key otp point).1.redis := .verified key otp point
    simp only [statement]
    generalize OtpService.verifyOtp s key otp point = r at hstep
    obtain ⟨s', step⟩ := r
    cases step with
    | next point => exact hstep
    | «return» valid => cases after <;> cases valid <;> exact hstep
    | throw e => exact hstep
  -- a save of a user writes rows, and neither a lock nor a code
  | saveWrite user database after =>
    simp only [statement, saveWrite]
    split
    · exact .aside rfl rfl
    · split
      · exact .aside rfl rfl
      · cases after <;> exact .aside rfl rfl
  | revokeTokens userId revocation =>
    cases revocation with
    | endSession by_ jti exp => cases by_ <;> exact .aside rfl rfl
    | _ => exact .aside rfl rfl
  | blacklistSet userId jti exp by_ => cases by_ <;> exact .aside rfl rfl
  | changeRole id dto actor =>
    simp only [statement]
    rcases changeRole_cases s id dto actor with ⟨-, ⟨r, he⟩ | ⟨ex, he⟩⟩ | ⟨user, -, -, he⟩ <;> rw [he] <;>
      exact .aside rfl rfl
  | refreshSave stored user => cases user <;> exact .aside rfl rfl
  | registerSave dto =>
    simp only [statement, AuthService.registerSave]
    split <;> exact .aside rfl rfl
  | loginCompare dto user =>
    simp only [statement, AuthService.loginCompare]
    split <;> exact .aside rfl rfl
  | loginUpdateLastLogin userId lastLoginAt =>
    simp only [statement, AuthService.loginUpdateLastLogin]
    split <;> exact .aside rfl rfl
  | generateSave caller userId access raw expiresAt =>
    simp only [statement, AuthService.generateSave]
    split <;> exact .aside rfl rfl
  | deleteSoftDelete userId =>
    simp only [statement, UsersService.deleteSoftDelete]
    split <;> exact .aside rfl rfl
  -- the other statements write nothing
  | _ => exact .of_quiet (quiet_step env x s trivial)

/-- One key is written, and is left without a lock or without a code. -/
theorem OneOrNone.write {redis : Redis} (h : OneOrNone s.redis) (key : OtpKey)
    (hkey : redis.otpLock key = none ∨ redis.otp key = none)
    (hother : ∀ k, k ≠ key → redis.otpLock k = s.redis.otpLock k ∧ redis.otp k = s.redis.otp k) :
    OneOrNone redis := by
  intro k
  by_cases hk : k = key
  · exact hk ▸ hkey
  · obtain ⟨hlock, hotp⟩ := hother k hk
    rw [hlock, hotp]
    exact h k

/-- A step leaves a key with a lock or with a code. -/
theorem OneOrNone.step {redis : Redis} (h : OneOrNone s.redis) (hstep : CodeStep s redis) :
    OneOrNone redis := by
  cases hstep with
  | aside hlock hotp =>
    intro key
    rw [hlock, hotp]
    exact h key
  | created key otp ttlSeconds =>
    refine h.write key (.inl (Function.update_self ..)) fun k hk => ⟨?_, ?_⟩
    · exact Function.update_of_ne hk _ _
    · exact Function.update_of_ne hk _ _
  | verified key otp point =>
    cases point with
    | getOtp =>
      simp only [OtpService.verifyOtp]
      split <;> exact h
    | setLock =>
      refine h.write key (.inr (Function.update_self ..)) fun k hk => ⟨?_, ?_⟩
      · exact Function.update_of_ne hk _ _
      · exact Function.update_of_ne hk _ _
    | delOtp =>
      refine h.write key (.inr (Function.update_self ..)) fun k hk => ⟨rfl, ?_⟩
      exact Function.update_of_ne hk _ _
    | _ => exact h

/-- **What every statement keeps** holds in every state that the interleavings reach. -/
theorem consistent_run (env : Env) {s : Store} (h : Consistent s) (acts : List (Act Request Input)) :
    Consistent (run (Pool.step (service env)) (.idle s) acts).store := by
  refine run_invariant (P := fun p : Pool Store Task => Consistent p.store) (fun p act hp => ?_) h acts
  cases act with
  | start r => exact hp
  | run i x =>
    cases hi : p.tasks[i]? with
    | none =>
      rw [Pool.step_run_none hi]
      exact hp
    | some a =>
      obtain ⟨n, t⟩ := a
      have hwait : Consistent (p.store.wait x.elapsed) := ⟨hp.distinct, hp.oneOrNone⟩
      rw [Pool.step_run hi]
      exact ⟨distinct_statement hwait.distinct, hwait.oneOrNone.step (code_step env x _ t)⟩

/-! ## A confirmation alone

The request that confirms a new address, from its first statement to its last while nothing else runs. -/

/-- The key of the code for the new address. -/
def codeKey (user : User) (dto : ConfirmChangeEmailDto) : OtpKey := .changeEmail user.id dto.newEmail

/-- What the last wrong code that is allowed makes of Redis, beside the counter of the failures. -/
def lockKey (s : Store) (key : OtpKey) (otpFail : Keyspace OtpKey Nat) : Store :=
  { s with redis := { s.redis with
      otpLock := s.redis.otpLock.setEx key () (OtpService.deadline s OtpService.lockoutSeconds)
      otp := s.redis.otp.del key
      otpFail } }

/-- What a right code makes of Redis. -/
def useCode (s : Store) (key : OtpKey) : Store :=
  { s with redis := { s.redis with otp := s.redis.otp.del key, otpFail := s.redis.otpFail.del key } }

/-- The ways in which a confirmation ends. -/
inductive Confirmation (s : Store) (token : AccessToken) (dto : ConfirmChangeEmailDto) : Step → Prop where
  /-- No code is compared. -/
  | refused (e : HttpException)
      (hwhy : ∀ user, JwtStrategy.accepted s token = some user →
        (s.findUser (·.email = dto.newEmail)).isSome
          ∨ (s.redis.otpLock.get? s.now (codeKey user dto)).isSome
          ∨ s.redis.otp.get? s.now (codeKey user dto) = none) :
      Confirmation s token dto (fail s e)
  | missed {user : User} {stored : String} (e : HttpException) (otpFail : Keyspace OtpKey Nat)
      (haccepted : JwtStrategy.accepted s token = some user)
      (hstored : s.redis.otp.get? s.now (codeKey user dto) = some stored) (hwrong : stored ≠ dto.otp) :
      Confirmation s token dto (fail { s with redis := { s.redis with otpFail } } e)
  | locked {user : User} {stored : String} (e : HttpException) (otpFail : Keyspace OtpKey Nat)
      (haccepted : JwtStrategy.accepted s token = some user)
      (hstored : s.redis.otp.get? s.now (codeKey user dto) = some stored) (hwrong : stored ≠ dto.otp)
      (hmany : OtpService.maxAttempts ≤ (s.redis.otpFail.incr s.now (codeKey user dto)).2) :
      Confirmation s token dto (fail (lockKey s (codeKey user dto) otpFail) e)
  /-- The code is used up, and another row has the address. -/
  | taken {user : User} (haccepted : JwtStrategy.accepted s token = some user)
      (hright : s.redis.otp.get? s.now (codeKey user dto) = some dto.otp)
      (hnone : s.findUser (·.email = dto.newEmail) = none)
      (htaken : s.Taken { user with email := dto.newEmail }) :
      Confirmation s token dto (fail (useCode s (codeKey user dto)) .internalServerError)
  | confirmed {user : User} (haccepted : JwtStrategy.accepted s token = some user)
      (hright : s.redis.otp.get? s.now (codeKey user dto) = some dto.otp)
      (hfree : ¬ s.Taken { user with email := dto.newEmail }) :
      Confirmation s token dto
        (reply { useCode s (codeKey user dto) with
            users := s.users.save { user with email := dto.newEmail } }
          (.message "Email updated successfully"))

/-- A wrong code is counted, and the last one that is allowed locks the key. -/
theorem miss_cases (s : Store) (key : OtpKey) : ∃ otpFail,
    OtpService.miss s key = ({ s with redis := { s.redis with otpFail } }, .ok false)
      ∨ OtpService.maxAttempts ≤ (s.redis.otpFail.incr s.now key).2
        ∧ ∃ e, OtpService.miss s key = (lockKey s key otpFail, .error e) := by
  unfold OtpService.miss
  generalize s.redis.otpFail.incr s.now key = counted
  obtain ⟨otpFail, fails⟩ := counted
  simp only
  by_cases hmany : fails ≥ OtpService.maxAttempts
  · rw [if_pos hmany]
    exact ⟨_, .inr ⟨hmany, _, rfl⟩⟩
  · rw [if_neg hmany]
    exact ⟨_, .inl rfl⟩

/-- A locked key refuses every code. -/
theorem verifyAlone_locked {key : OtpKey} (otp : String) (h : (s.redis.otpLock.get? s.now key).isSome) :
    ∃ e, OtpService.verifyAlone s key otp = (s, .error e) := ⟨_, if_pos h⟩

/-- A key that is not locked compares the code. -/
theorem verifyAlone_unlocked {key : OtpKey} (otp : String)
    (h : ¬ (s.redis.otpLock.get? s.now key).isSome) : OtpService.verifyAlone s key otp
      = match s.redis.otp.get? s.now key with
        | none => (s, .ok false)
        | some stored => if stored ≠ otp then OtpService.miss s key else (useCode s key, .ok true) :=
  if_neg h

/-- What follows the verification of the code. -/
theorem confirmation_lead {v : Store × Except HttpException Bool} (s' : Store)
    (h : (∃ s' e, v = (s', .error e) ∧ f = fail s' e)
      ∨ ∃ s' valid, v = (s', .ok valid)
        ∧ Lone env x (afterOtp s' valid (.confirmChangeEmail dto user)) f) :
    (∀ e, v = (s', .error e) → f = fail s' e)
      ∧ (v = (s', .ok false) → f = fail s' (.badRequest "Invalid or expired OTP"))
      ∧ (v = (s', .ok true) →
        Lone env x (go s' (.saveRead { user with email := dto.newEmail } .confirmChangeEmail)) f) := by
  rcases h with ⟨s₁, e, rfl, rfl⟩ | ⟨s₁, valid, rfl, h⟩
  · refine ⟨fun e' he => ?_, (fun h => by cases h), (fun h => by cases h)⟩
    cases he
    rfl
  · refine ⟨(fun _ h => by cases h), fun he => ?_, fun he => ?_⟩ <;> cases he
    · exact h.done
    · exact h

/-- What a confirmation does, case by case. -/
theorem confirmation (h : Lone env x (go s (.validateGet token (.confirmChangeEmail dto))) f) :
    Confirmation s token dto f := by
  rcases lone_guard h with ⟨hnone, e, rfl⟩ | ⟨user, haccepted, h⟩
  · exact .refused e fun user huser => (by cases hnone.symm.trans huser)
  · have hsame : ∀ user', JwtStrategy.accepted s token = some user' → user = user' :=
      fun user' huser' => Option.some.inj (haccepted.symm.trans huser')
    have h := h.next
    simp only [statement, UsersService.confirmChangeEmail] at h
    cases hfind : s.findUser (·.email = dto.newEmail) with
    | some v =>
      rw [hfind] at h
      rw [h.done]
      exact .refused _ fun user' _ => .inl (by rw [hfind]; rfl)
    | none =>
      rw [hfind] at h
      have hlead := fun s' => confirmation_lead s' (lone_verifyOtp h)
      -- the commands of the verification, in their order
      by_cases hlock : (s.redis.otpLock.get? s.now (codeKey user dto)).isSome
      · obtain ⟨e, hverify⟩ := verifyAlone_locked dto.otp hlock
        rw [(hlead s).1 e hverify]
        exact .refused e fun user' huser' => .inr (.inl (hsame user' huser' ▸ hlock))
      · have hverify := verifyAlone_unlocked dto.otp hlock
        cases hget : s.redis.otp.get? s.now (codeKey user dto) with
        | none =>
          rw [hget] at hverify
          rw [(hlead s).2.1 hverify]
          exact .refused _ fun user' huser' => .inr (.inr (hsame user' huser' ▸ hget))
        | some stored =>
          rw [hget] at hverify
          by_cases hwrong : stored ≠ dto.otp
          · simp only [if_pos hwrong] at hverify
            obtain ⟨otpFail, hmiss | ⟨hmany, e, hmiss⟩⟩ := miss_cases s (codeKey user dto)
            · rw [(hlead _).2.1 (hverify.trans hmiss)]
              exact .missed _ otpFail haccepted hget hwrong
            · rw [(hlead _).1 e (hverify.trans hmiss)]
              exact .locked e otpFail haccepted hget hwrong hmany
          · simp only [if_neg hwrong] at hverify
            obtain rfl : stored = dto.otp := not_not.mp hwrong
            have hrow : s.users.get? user.id = some user := (row_of_accepted haccepted).2.2
            -- the code is used up; the save may still meet the unique column
            rcases lone_save ((hlead _).2.2 hverify) hrow with ⟨htaken, rfl⟩ | ⟨hfree, h⟩
            · exact .taken haccepted hget hfind htaken
            · rw [h.done]
              exact .confirmed haccepted hget hfree

/-! ## Every reachable state

The condition is on the state in which the confirmation begins. -/

/-- A refused confirmation left the users and the code, and may have counted a failure. The last wrong
code that is allowed has put the lock in the place of the code. -/
def Unspent (s : Store) (token : AccessToken) (dto : ConfirmChangeEmailDto) (s' : Store) : Prop :=
  ∃ otpFail, s' = { s with redis := { s.redis with otpFail } }
    ∨ ∃ user ∈ JwtStrategy.accepted s token, s' = lockKey s (codeKey user dto) otpFail
      ∧ OtpService.maxAttempts ≤ (s.redis.otpFail.incr s.now (codeKey user dto)).2
      ∧ ∃ stored ∈ s.redis.otp.get? s.now (codeKey user dto), stored ≠ dto.otp

/-- A confirmation that found `s` and left `f` has done what it should. -/
structure ConfirmsChange (s : Store) (token : AccessToken) (dto : ConfirmChangeEmailDto) (f : Step) :
    Prop where
  /-- The right code changes the address, when no live user has it. -/
  succeeds : ∀ user, JwtStrategy.accepted s token = some user →
    (∀ v ∈ s.users, v.deletedAt = none → v.email ≠ dto.newEmail) →
    s.redis.otp.get? s.now (codeKey user dto) = some dto.otp →
    f.reply = some (.ok (.message "Email updated successfully"))
      ∧ f.store.users.get? user.id = some { user with email := dto.newEmail }
  unspent : ∀ e, f.reply = some (.error e) → Unspent s token dto f.store

/-- No row has the address of a confirmation that comes to the save, unless a soft-deleted one does. -/
theorem not_taken (h : Distinct s) (haccepted : JwtStrategy.accepted s token = some user)
    (hdeleted : ∀ v ∈ s.users, v.deletedAt ≠ none → v.email ≠ dto.newEmail)
    (hlive : ∀ v ∈ s.users, v.deletedAt = none → v.email ≠ dto.newEmail) :
    ¬ s.Taken { user with email := dto.newEmail } := by
  have hrow : s.users.get? user.id = some user := (row_of_accepted haccepted).2.2
  intro ⟨v, hv, hne, hsame⟩
  rcases hsame with hemail | husername
  · by_cases hgone : v.deletedAt = none
    · exact hlive v hv hgone hemail
    · exact hdeleted v hv hgone hemail
  · exact h user (Table.get?_eq_some.mp hrow).1 ⟨v, hv, hne, .inr husername⟩

/-- An address that is not found belongs to no live user. -/
theorem live_of_findUser_eq_none {newEmail : String} (h : s.findUser (·.email = newEmail) = none) :
    ∀ v ∈ s.users, v.deletedAt = none → v.email ≠ newEmail := by
  intro v hv hlive hemail
  have hnone := List.find?_eq_none.mp h v hv
  simp [hlive, hemail] at hnone

/-- In a consistent store, a confirmation of an address that no soft-deleted user has does what it should. -/
theorem Confirmation.confirms (h : Confirmation s token dto f) (hs : Consistent s)
    (hdeleted : ∀ v ∈ s.users, v.deletedAt ≠ none → v.email ≠ dto.newEmail) :
    ConfirmsChange s token dto f := by
  -- a wrong code is not the right one
  have hcontra : ∀ {user user' : User} {stored : String}, JwtStrategy.accepted s token = some user →
      JwtStrategy.accepted s token = some user' →
      s.redis.otp.get? s.now (codeKey user' dto) = some stored → stored ≠ dto.otp →
      s.redis.otp.get? s.now (codeKey user dto) ≠ some dto.otp := by
    intro user user' stored huser huser' hstored hwrong hright
    obtain rfl : user = user' := Option.some.inj (huser.symm.trans huser')
    exact hwrong (Option.some.inj (hstored.symm.trans hright))
  cases h with
  | refused e hwhy =>
    refine ⟨fun user haccepted hlive hright => ?_, fun _ _ => ⟨s.redis.otpFail, .inl rfl⟩⟩
    rcases hwhy user haccepted with hfind | hlock | hnone
    · obtain ⟨v, hfind⟩ := Option.isSome_iff_exists.mp hfind
      obtain ⟨hv, hgone, hemail⟩ := findUser_eq_some hfind
      exact absurd (of_decide_eq_true hemail) (hlive v hv hgone)
    · -- a key with a lock has no code
      obtain ⟨_, hlock⟩ := Option.isSome_iff_exists.mp hlock
      obtain ⟨_, hentry, -⟩ := Keyspace.get?_eq_some.mp hlock
      obtain ⟨_, hcode, -⟩ := Keyspace.get?_eq_some.mp hright
      rcases hs.oneOrNone (codeKey user dto) with hnone | hnone
      · cases hnone.symm.trans hentry
      · cases hnone.symm.trans hcode
    · cases hnone.symm.trans hright
  | missed e otpFail haccepted hstored hwrong =>
    exact ⟨fun user huser _ hright => absurd hright (hcontra huser haccepted hstored hwrong),
      fun _ _ => ⟨otpFail, .inl rfl⟩⟩
  | @locked user stored e otpFail haccepted hstored hwrong hmany =>
    exact ⟨fun user huser _ hright => absurd hright (hcontra huser haccepted hstored hwrong),
      fun _ _ => ⟨otpFail, .inr ⟨user, haccepted, rfl, hmany, stored, hstored, hwrong⟩⟩⟩
  | taken haccepted _ hnone htaken =>
    exact absurd htaken (not_taken hs.distinct haccepted hdeleted (live_of_findUser_eq_none hnone))
  | @confirmed user haccepted hright hfree =>
    refine ⟨fun user' huser' _ _ => ⟨rfl, ?_⟩, (fun _ h => by cases h)⟩
    obtain rfl : user = user' := Option.some.inj (haccepted.symm.trans huser')
    have hrow : s.users.get? user.id = some user := (row_of_accepted haccepted).2.2
    have hsaved : s.users.get? { user with email := dto.newEmail }.id = some user := hrow
    exact Table.get?_save_self hsaved

/-- **An accepted change can be confirmed.** In every state that the interleavings reach, a confirmation
alone of an address that no soft-deleted user has does what it should. -/
theorem email_change_confirmed (env : Env) (x : Input) {s : Store} {acts : List (Act Request Input)}
    (token : AccessToken) {dto : ConfirmChangeEmailDto} (h : Consistent s)
    (hdeleted : ∀ v ∈ (run (Pool.step (service env)) (.idle s) acts).store.users,
      v.deletedAt ≠ none → v.email ≠ dto.newEmail) :
    ConfirmsChange ((run (Pool.step (service env)) (.idle s) acts).store.wait x.elapsed) token dto
      (serve env x (run (Pool.step (service env)) (.idle s) acts).store
        (.guarded token (.confirmChangeEmail dto))) := by
  have hs := consistent_run env h acts
  have hwait : Consistent ((run (Pool.step (service env)) (.idle s) acts).store.wait x.elapsed) :=
    ⟨hs.distinct, hs.oneOrNone⟩
  exact (confirmation (lone_serve env x _ (.guarded token (.confirmChangeEmail dto)))).confirms hwait hdeleted

end

namespace Sample

theorem consistent_store : Consistent store where
  distinct := by
    have hrows : ∀ user ∈ store.users.rows, ¬ store.Taken user := by decide
    exact hrows
  oneOrNone := fun _ => .inl rfl

/-- The store after a login of the student and a request for a new address. -/
def requested : Store :=
  (run (Pool.step (service env)) (.idle store) (login student
    ++ .start (.guarded (access student 0 1000) (.requestChangeEmail ⟨"b@ptit.edu.vn"⟩))
    :: List.replicate 4 (.run 0 (after 10)))).store

/-- The store after requests that run one after another. -/
def serveAll (calls : List Request) : Store :=
  run (fun s r => (serve env (after 10) s r).store) store calls

/-- The store after a login of the student, a request for a new address, and four wrong codes. -/
def guessed : Store :=
  serveAll ([.login ⟨student.email, "Password123"⟩,
      .guarded (access student 0 1000) (.requestChangeEmail ⟨"b@ptit.edu.vn"⟩)]
    ++ List.replicate 4 (.guarded (access student 0 1000) (.confirmChangeEmail ⟨"b@ptit.edu.vn", "000000"⟩)))

/-- The store after the administrator's account is deleted, and the student asks for its address. -/
def deletedAddress : Store :=
  serveAll [.login ⟨administrator.email, "Password123"⟩,
    .guarded (access administrator 0 1000) (.deleteAccount ⟨"Password123"⟩),
    .login ⟨student.email, "Password123"⟩,
    .guarded (access student 2 1000) (.requestChangeEmail ⟨administrator.email⟩)]

end Sample

/-- A login, a request for a new address, and its confirmation. -/
theorem email_change_confirmed_requested :
    ConfirmsChange (Sample.requested.wait 10) (Sample.access Sample.student 0 1000)
      ⟨"b@ptit.edu.vn", "100000"⟩
      (serve Sample.env (Sample.after 10) Sample.requested
        (.guarded (Sample.access Sample.student 0 1000) (.confirmChangeEmail ⟨"b@ptit.edu.vn", "100000"⟩))) := by
  have hrows : ∀ v ∈ Sample.requested.users.rows, v.deletedAt ≠ none → v.email ≠ "b@ptit.edu.vn" := by
    decide
  exact email_change_confirmed Sample.env (Sample.after 10) _ Sample.consistent_store hrows

/-- The code of the student for an address. -/
def Sample.code (s : Store) (newEmail : String) : Option String :=
  s.redis.otp.get? s.now (.changeEmail 0 newEmail)

/-- What a request is refused with. -/
def Sample.refusal (f : Step) : Option HttpException :=
  match f.reply with
  | some (.error e) => some e
  | _ => none

/-- A fifth wrong code. -/
def Sample.fifthGuess : Step :=
  serve Sample.env (Sample.after 10) Sample.guessed
    (.guarded (Sample.access Sample.student 0 1000) (.confirmChangeEmail ⟨"b@ptit.edu.vn", "000000"⟩))

/-- The right code for the address of a deleted account. -/
def Sample.confirmDeleted : Step :=
  serve Sample.env (Sample.after 10) Sample.deletedAddress
    (.guarded (Sample.access Sample.student 2 1000)
      (.confirmChangeEmail ⟨Sample.administrator.email, "100000"⟩))

/-- A fifth wrong code is refused and takes the code away; and the right code for the address of a deleted
account is refused, and used up. -/
theorem not_email_change_confirmed :
    ((Sample.refusal Sample.fifthGuess).isSome
      ∧ Sample.code Sample.guessed "b@ptit.edu.vn" = some "100000"
      ∧ Sample.code Sample.fifthGuess.store "b@ptit.edu.vn" = none)
    ∧ Sample.refusal Sample.confirmDeleted = some .internalServerError
      ∧ Sample.code Sample.deletedAddress Sample.administrator.email = some "100000"
      ∧ Sample.code Sample.confirmDeleted.store Sample.administrator.email = none := by
  refine ⟨⟨?_, ?_, ?_⟩, ?_, ?_, ?_⟩ <;> decide +kernel

end AcaSocial.Identity
