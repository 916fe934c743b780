import AcaSocial.Identity.Sessions

/-!
# What a statement does to the users

* **`User.security`** — the role, the password hash and the time of its last change.
* **`UserStep`** — the cases of a statement: a row is inserted, one of its columns is written, or a
  saved entity is. `user_step` is its inversion.
-/

namespace AcaSocial.Identity

/-- The columns that decide what a user may do. -/
def User.security (user : User) : Role × String × Option Time :=
  (user.role, user.passwordHash, user.passwordChangedAt)

inductive UserStep (env : Env) (x : Input) (s : Store) : Task → Serial User User.id → Prop where
  /-- Nothing. -/
  | aside {t : Task} : UserStep env x s t s.users
  | registered (dto : RegisterDto) :
      UserStep env x s (.registerSave dto)
        (s.users.insert (AuthService.newUser env x s dto) fun _ => rfl)
  | loggedIn {user : User} (lastLoginAt : Time) (hrow : s.users.get? user.id = some user) :
      UserStep env x s (.loginUpdateLastLogin user.id lastLoginAt)
        (s.users.save { user with lastLoginAt := some lastLoginAt })
  | deleted {user : User} (hrow : s.users.get? user.id = some user) :
      UserStep env x s (.deleteSoftDelete user.id) (s.users.save { user with deletedAt := some s.now })
  | roleChanged {id : Nat} {dto : ChangeUserRoleDto} {actor user : User}
      (hrow : s.users.get? user.id = some user)
      (hchange : roleChange s (.changeRole id dto actor) = some user) :
      UserStep env x s (.changeRole id dto actor)
        (s.users.save (UsersService.withRole s user dto.role))
  | written {user database row : User} {after : AfterSave} (hrow : s.users.get? user.id = some row)
      (hfree : ¬ s.Taken (user.write database row)) :
      UserStep env x s (.saveWrite user database after) (s.users.save (user.write database row))

/-- A user that is found has a row. -/
theorem get?_of_findUser {s : Store} {p : User → Bool} {user : User}
    (h : s.findUser p = some user) : s.users.get? user.id = some user :=
  Table.get?_key (findUser_eq_some h).1

/-- A statement that leaves the users takes no step of them. -/
theorem userStep_of_eq {env : Env} {x : Input} {s : Store} {t : Task} {users : Serial User User.id}
    (h : users = s.users) : UserStep env x s t users := h ▸ .aside

section

variable (s : Store)

/-- What follows a code writes no user yet. -/
theorem users_afterOtp (valid : Bool) (after : AfterOtp) :
    (afterOtp s valid after).store.users = s.users := by
  cases after <;> cases valid <;> rfl

/-- What follows a save writes no user. -/
theorem users_afterSave (user : User) (after : AfterSave) :
    (afterSave s user after).store.users = s.users := by
  cases after <;> rfl

/-- To revoke tokens writes no user. -/
theorem users_revokeAll (userId : Nat) (revocation : Revocation) :
    (AuthService.revokeAll s userId revocation).users = s.users := by
  unfold AuthService.revokeAll
  split <;> rfl

/-- What follows a revocation writes no user yet. -/
theorem users_afterRevocation (userId : Nat) (revocation : Revocation) :
    (afterRevocation s userId revocation).store.users = s.users := by
  cases revocation <;> rfl

end

/-- A statement that writes to no table writes no user. -/
theorem userStep_of_quiet {env : Env} {x : Input} {s : Store} {t : Task} {e : Step} (h : QuietStep s t e) :
    UserStep env x s t e.store.users := by
  obtain ⟨redis, hstore⟩ := h.store
  exact userStep_of_eq (by rw [hstore])

/-- **What a statement does to the users.** -/
theorem user_step (env : Env) (x : Input) (s : Store) (t : Task) :
    UserStep env x s t (statement env x s t).store.users := by
  cases t with
  | registerSave dto =>
    simp only [statement, AuthService.registerSave]
    split
    · exact .aside
    · exact .registered dto
  | loginUpdateLastLogin userId lastLoginAt =>
    simp only [statement, AuthService.loginUpdateLastLogin]
    split
    · exact .aside
    · next user hrow =>
      obtain rfl := (Table.get?_eq_some.mp hrow).2
      exact .loggedIn lastLoginAt hrow
  | deleteSoftDelete userId =>
    simp only [statement, UsersService.deleteSoftDelete]
    split
    · exact .aside
    · next user hrow =>
      obtain rfl := (Table.get?_eq_some.mp hrow).2
      exact .deleted hrow
  | changeRole id dto actor =>
    simp only [statement]
    rcases changeRole_cases s id dto actor with ⟨-, ⟨r, he⟩ | ⟨ex, he⟩⟩ | ⟨user, hfind, hchange, he⟩ <;>
      rw [he]
    · exact .aside
    · exact .aside
    · exact .roleChanged (get?_of_findUser hfind) hchange
  -- the row is written only if it is there and its unique columns are free
  | saveWrite user database after =>
    simp only [statement, saveWrite]
    split
    · exact .aside
    · next row hrow =>
      split
      · exact .aside
      · next hfree =>
        rw [users_afterSave]
        exact .written hrow hfree
  -- the codes are in Redis
  | verifyOtp point key otp after =>
    obtain ⟨redis, hredis, -⟩ := OtpService.verifyOtp_store s key otp point
    refine userStep_of_eq ?_
    have husers : (OtpService.verifyOtp s key otp point).1.users = s.users := by rw [hredis]
    simp only [statement]
    split <;> next h =>
      rw [h] at husers
      first
        | exact husers
        | exact (users_afterOtp _ _ after).trans husers
  | revokeTokens userId revocation =>
    exact userStep_of_eq ((users_afterRevocation _ userId revocation).trans
      (users_revokeAll s userId revocation))
  | blacklistSet userId jti exp by_ =>
    cases by_ <;> exact .aside
  | refreshSave stored user =>
    cases user <;> exact .aside
  | loginCompare dto user =>
    simp only [statement, AuthService.loginCompare]
    split <;> exact .aside
  | generateSave caller userId access raw expiresAt =>
    simp only [statement, AuthService.generateSave]
    split <;> exact .aside
  | _ => exact userStep_of_quiet (quiet_step env x s trivial)

end AcaSocial.Identity
