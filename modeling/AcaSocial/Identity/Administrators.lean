import AcaSocial.Identity.UserRows

/-!
# The last administrator

`changeRole` counts the administrators before it takes the role of one away. `deleteAccount` deletes an
administrator without counting.

* **`Store.admins`** — the count of `changeRole`: the live users with the role of an administrator.
* **`Current`** — the invariant of a run without overlap: a user that a request is going to save has the
  role, and is as live, as its row.
* **`DeletesLastAdmin`** — `deleteAccount` comes to the row of the only administrator.

`admins_step` says what one statement does to the count, and `administrator_retained` that
`DeletesLastAdmin` is the only way to lose the last administrator in a run without overlap.
-/

namespace AcaSocial.Identity

/-- The live users with the role of an administrator. -/
def Store.admins (s : Store) : Nat :=
  s.users.rows.countP fun u => u.deletedAt.isNone && u.role = .admin

/-- The user is live and an administrator. -/
def User.liveAdmin (user : User) : Bool := user.deletedAt.isNone && user.role = .admin

/-- The columns that decide whether a user is a live administrator. -/
def User.standing (user : User) : Role × Option Time := (user.role, user.deletedAt)

/-- What is stored of the standing of each user. -/
def Store.standing (s : Store) (id : Nat) : Option (Role × Option Time) :=
  (s.users.get? id).map User.standing

def AfterOtp.user : AfterOtp → User
  | .verifyRegisterOtp _ user | .resetPassword _ user | .confirmChangeEmail _ user => user

/-- The user that a request has loaded and may save. -/
def Task.loaded : Task → Option User
  | .verifyRegisterFindUsername _ user | .resetHash _ user | .changePasswordCompare user _ _ _
  | .confirmEmailFind user _ | .saveRead user _ => some user
  | .verifyOtp _ _ _ after => some after.user
  | _ => none

/-- The user that a save is about to write, with the row that it read again. -/
def Task.saves : Task → Option (User × User)
  | .saveWrite user database _ => some (user, database)
  | _ => none

/-- The loaded user has the standing that is stored, and a user about to be written has that of the row
that was read again. -/
structure Current (s : Store) (t : Task) : Prop where
  loaded : ∀ user ∈ t.loaded, s.standing user.id = some user.standing
  saves : ∀ w ∈ t.saves, w.1.standing = w.2.standing

/-- The last statement of a login, and the one that runs beside it. -/
def Trailing : Task → Prop
  | .generateSave _ _ _ _ _ | .loginUpdateLastLogin _ _ => True
  | _ => False

/-- The user that `deleteAccount` soft-deletes next. -/
def Task.softDeletes : Task → Option Nat
  | .deleteSoftDelete userId => some userId
  | _ => none

/-- The act runs the statement of `deleteAccount` that deletes the only live administrator. -/
def DeletesLastAdmin (p : Pool Store Task) (act : Act Request Input) : Prop :=
  ∃ t ∈ p.running act, ∃ userId ∈ t.softDeletes,
    p.store.admins = 1 ∧ ∃ user ∈ p.store.users.get? userId, user.liveAdmin = true

instance (p : Pool Store Task) (act : Act Request Input) : Decidable (DeletesLastAdmin p act) :=
  inferInstanceAs (Decidable (∃ t ∈ p.running act, ∃ userId ∈ t.softDeletes,
    p.store.admins = 1 ∧ ∃ user ∈ p.store.users.get? userId, user.liveAdmin = true))

variable {env : Env} {x : Input} {s s' : Store} {t t' : Task} {e : Step}

/-! ## The count

Live administrators are counted by the check of `changeRole`. A save of a row changes the count by the difference of
its two versions. -/

theorem admins_eq (s : Store) : s.admins = s.users.rows.countP User.liveAdmin := rfl

/-- A save moves the count by the difference of the two versions of its row. -/
theorem admins_save {row : User} (row' : User) (hrow : s.users.get? row'.id = some row)
    (husers : s'.users = s.users.save row') :
    s'.admins + (if row.liveAdmin then 1 else 0) = s.admins + (if row'.liveAdmin then 1 else 0) := by
  obtain ⟨hmem, hid⟩ := Table.get?_eq_some.mp hrow
  rw [admins_eq, admins_eq, husers]
  exact Table.countP_save hmem hid User.liveAdmin

/-- A save that leaves the standing of its row alone leaves the count alone. -/
theorem admins_save_of_standing {row : User} (row' : User) (hrow : s.users.get? row'.id = some row)
    (husers : s'.users = s.users.save row') (h : row'.standing = row.standing) :
    s'.admins = s.admins := by
  have hsave := admins_save row' hrow husers
  have hsame : row'.liveAdmin = row.liveAdmin := by
    simp only [User.standing, Prod.mk.injEq] at h
    rw [User.liveAdmin, User.liveAdmin, h.1, h.2]
  rw [hsame] at hsave
  omega

/-- Columns in which the entity does not differ from the row that was read again stay as they are. -/
theorem standing_write {user database row : User} (h : user.standing = database.standing) :
    (user.write database row).standing = row.standing := by
  simp only [User.standing, Prod.mk.injEq] at h ⊢
  exact ⟨if_pos h.1, if_pos h.2⟩

/-- A statement that deletes no user leaves an administrator. `changeRole` has counted two before it takes
the role of one away. -/
theorem admins_of_userStep {users : Serial User User.id} (h : UserStep env x s t users)
    (husers : s'.users = users) (ht : Current s t) (hkept : t.softDeletes = none)
    (hadmin : 0 < s.admins) : 0 < s'.admins := by
  cases h with
  | aside =>
    have hsame : s'.admins = s.admins := by rw [admins_eq, husers, admins_eq]
    omega
  -- a new user is a student
  | registered dto =>
    have hcount := Table.countP_insert (r := AuthService.newUser env x s dto s.users.next)
      s.users.get?_next User.liveAdmin
    have hstudent : (AuthService.newUser env x s dto s.users.next).liveAdmin = false := rfl
    rw [hstudent, if_neg Bool.false_ne_true] at hcount
    rw [admins_eq, husers]
    show 0 < (s.users.toTable.insert (AuthService.newUser env x s dto s.users.next)).rows.countP _
    rw [hcount]
    exact hadmin
  | @loggedIn user lastLoginAt hrow =>
    have hsame := admins_save_of_standing { user with lastLoginAt := some lastLoginAt } hrow husers rfl
    omega
  | deleted hrow => cases hkept
  | @roleChanged id dto actor user hrow hchange =>
    have hsave := admins_save (UsersService.withRole s user dto.role) hrow husers
    obtain ⟨hfind, hcase⟩ := Option.filter_eq_some_iff.mp hchange
    obtain ⟨-, -, hlast⟩ : ChangesRole s dto actor user := of_decide_eq_true hcase
    have hlive : user.deletedAt = none := (findUser_eq_some hfind).2.1
    by_cases hold : user.liveAdmin = true
    · by_cases hnew : dto.role = .admin
      · have hstill : (UsersService.withRole s user dto.role).liveAdmin = true := by
          simp [User.liveAdmin, UsersService.withRole, hnew, hlive]
        rw [if_pos hold, if_pos hstill] at hsave
        omega
      · -- a demotion, which the count of the source has let through
        have hrole : user.role = .admin := by simpa [User.liveAdmin, hlive] using hold
        have hmany : 1 < s.admins := by
          by_contra hfew
          exact hlast ⟨hrole, hnew, Nat.not_lt.mp hfew⟩
        rw [if_pos hold] at hsave
        omega
    · rw [if_neg hold] at hsave
      omega
  | @written user database row after hrow hfree =>
    have hid : (user.write database row).id = user.id := (Table.get?_eq_some.mp hrow).2
    have hsame := admins_save_of_standing (user.write database row) (hid ▸ hrow) husers
      (standing_write (ht.saves (user, database) rfl))
    omega

/-- The deletion of a user leaves an administrator exactly when the user is not the last one. -/
theorem admins_softDelete {userId : Nat} (hadmin : 0 < s.admins) :
    0 < (UsersService.deleteSoftDelete s userId).store.admins
      ↔ ¬ (s.admins = 1 ∧ ∃ user ∈ s.users.get? userId, user.liveAdmin = true) := by
  cases hrow : s.users.get? userId with
  -- there is no such user, and nothing is deleted
  | none =>
    have hsame : (UsersService.deleteSoftDelete s userId).store = s := by
      simp only [UsersService.deleteSoftDelete, hrow, reply]
    rw [hsame]
    exact iff_of_true hadmin (by rintro ⟨_, _, huser, -⟩; cases huser)
  | some user =>
    obtain rfl := (Table.get?_eq_some.mp hrow).2
    have hstore : (UsersService.deleteSoftDelete s user.id).store
        = { s with users := s.users.save { user with deletedAt := some s.now } } := by
      simp only [UsersService.deleteSoftDelete, hrow, reply]
    rw [hstore]
    have hid : ({ user with deletedAt := some s.now } : User).id = user.id := rfl
    -- the number of administrators after a save, from the two versions of the row
    have hsave : ∀ s' : Store, s'.users = s.users.save { user with deletedAt := some s.now } →
        s'.admins + (if user.liveAdmin then 1 else 0)
          = s.admins + (if ({ user with deletedAt := some s.now } : User).liveAdmin then 1 else 0) :=
      fun s' husers => admins_save { user with deletedAt := some s.now } (hid ▸ hrow) husers
    replace hsave := hsave { s with users := s.users.save { user with deletedAt := some s.now } } rfl
    have hgone : ({ user with deletedAt := some s.now } : User).liveAdmin = false := rfl
    rw [hgone, if_neg Bool.false_ne_true] at hsave
    by_cases hlive : user.liveAdmin = true
    · rw [if_pos hlive] at hsave
      have hlast : (s.admins = 1 ∧ ∃ u ∈ some user, u.liveAdmin = true) ↔ s.admins = 1 :=
        and_iff_left ⟨user, rfl, hlive⟩
      rw [hlast]
      omega
    · rw [if_neg hlive] at hsave
      refine iff_of_true (by omega) ?_
      rintro ⟨-, u, hu, hu'⟩
      exact hlive (Option.some.inj hu ▸ hu')

/-! ## What the tasks go on with

A user that is loaded has the standing that is stored, as long as nothing runs in between. Each statement hands this
on. -/

/-- The request goes on with one task that is current, with trailing ones, or not at all. -/
structure GoesOn (e : Step) : Prop where
  current : ∀ t ∈ e.next, Current e.store t
  alone : e.next.length ≤ 1 ∨ ∀ t ∈ e.next, Trailing t

/-- To go on with a current task. -/
theorem GoesOn.go (h : Current s t) : GoesOn (go s t) :=
  ⟨fun _ ht => List.mem_singleton.mp ht ▸ h, .inl (Nat.le_refl 1)⟩

theorem GoesOn.done {r : Option (Except HttpException Reply)} : GoesOn ⟨s, [], r⟩ :=
  ⟨fun _ ht => absurd ht List.not_mem_nil, .inl (Nat.zero_le 1)⟩

/-- A task with no user in hand is current. -/
theorem Current.aside (hloaded : t.loaded = none) (hsaves : t.saves = none) : Current s t :=
  ⟨fun _ huser => (by cases hloaded.symm.trans huser),
    fun _ hw => (by cases hsaves.symm.trans hw)⟩

/-- A task is current if the user that it has loaded is as stored. -/
theorem Current.of_loaded {user : User} (hloaded : t.loaded = some user) (hsaves : t.saves = none)
    (h : s.standing user.id = some user.standing) : Current s t := by
  constructor
  · intro user' huser'
    obtain rfl := Option.some.inj (hloaded.symm.trans huser')
    exact h
  · exact fun _ hw => (by cases hsaves.symm.trans hw)

/-- A task is current if what it is about to write has the standing that it read. -/
theorem Current.of_saves {w : User × User} (hloaded : t.loaded = none) (hsaves : t.saves = some w)
    (h : w.1.standing = w.2.standing) : Current s t := by
  constructor
  · exact fun _ huser => (by cases hloaded.symm.trans huser)
  · intro w' hw
    obtain rfl := Option.some.inj (hsaves.symm.trans hw)
    exact h

theorem current_of_trailing (h : Trailing t) : Current s t := by
  cases t with
  | generateSave caller userId access raw expiresAt => exact .aside rfl rfl
  | loginUpdateLastLogin userId lastLoginAt => exact .aside rfl rfl
  | _ => exact h.elim

theorem standing_of_get? {user : User} (h : s.users.get? user.id = some user) :
    s.standing user.id = some user.standing := congrArg (Option.map User.standing) h

/-- The standing of a user is read from the users. -/
theorem standing_of_users (husers : s'.users = s.users) (id : Nat) : s'.standing id = s.standing id := by
  rw [Store.standing, Store.standing, husers]

/-- The guard hands on the user that it has loaded. -/
theorem goesOn_handle {user : User} (huser : s.standing user.id = some user.standing)
    (token : AccessToken) (request : GuardedRequest) :
    GoesOn (JwtStrategy.handle s user token request) := by
  cases request with
  | updateProfile dto =>
    refine .go (.of_loaded rfl rfl ?_)
    cases dto.dateOfBirth <;> exact huser
  | updateAvatar avatarUrl => exact .go (.of_loaded rfl rfl huser)
  | updatePrivacy dto => exact .go (.of_loaded rfl rfl huser)
  | changePassword dto => exact .go (.of_loaded rfl rfl huser)
  | confirmChangeEmail dto => exact .go (.of_loaded rfl rfl huser)
  | changeRole id dto =>
    simp only [JwtStrategy.handle]
    split
    · exact .done
    · exact .go (.aside rfl rfl)
  | _ => exact .go (.aside rfl rfl)

/-- A code that is right lets the loaded user be saved. -/
theorem goesOn_afterOtp {after : AfterOtp} (h : s.standing after.user.id = some after.user.standing)
    (valid : Bool) : GoesOn (afterOtp s valid after) := by
  cases valid with
  | false => cases after <;> exact .done
  | true => cases after <;> exact .go (.of_loaded rfl rfl h)

theorem goesOn_afterSave (user : User) (after : AfterSave) : GoesOn (afterSave s user after) := by
  cases after
  all_goals first
    | exact .done
    | exact .go (.aside rfl rfl)

/-- A user that was loaded is handed on. -/
theorem Current.leads (h : Current s t) (hlead : Leads s t t') : Current s t' := by
  cases hlead with
  | verifyRegister hfind => exact .of_loaded rfl rfl (standing_of_get? (get?_of_findUser hfind))
  | @freeUsername dto user => exact .of_loaded rfl rfl (h.loaded user rfl)
  | reset hfind => exact .of_loaded rfl rfl (standing_of_get? (get?_of_findUser hfind))
  | @resetHash dto user passwordHash => exact .of_loaded rfl rfl (h.loaded user rfl)
  | @changePassword user dto jti exp passwordHash => exact .of_loaded rfl rfl (h.loaded user rfl)
  | @confirmEmail user dto => exact .of_loaded rfl rfl (h.loaded user rfl)
  | @handled token request user t hfind hnext =>
    have hcurrent := (goesOn_handle (standing_of_get? (get?_of_findUser hfind)) token request).current t'
      (hnext ▸ List.mem_singleton_self t')
    obtain ⟨ex, he⟩ | ⟨t₁, he⟩ := handle_cases s user token request <;> rwa [he] at hcurrent
  | @saved user database after hrow =>
    have hstored := h.loaded user rfl
    rw [Store.standing, hrow, Option.map_some] at hstored
    exact .of_saves rfl rfl (Option.some.inj hstored).symm
  | _ => exact .aside rfl rfl

/-- A statement that writes to no table goes on with what it has loaded. -/
theorem goesOn_quiet (h : Current s t) (hquiet : QuietStep s t e) : GoesOn e := by
  cases hquiet with
  | ends => exact .done
  | goes hlead => exact .go (h.leads hlead)
  | codes _ hnext =>
    rcases hnext with rfl | ⟨email, -, rfl⟩
    · exact .done
    · refine ⟨fun t' ht' => ?_, .inl (Nat.le_refl 1)⟩
      rw [List.mem_singleton.mp ht']
      exact .aside rfl rfl

/-- **What a request goes on with is current.** -/
theorem goesOn_statement (h : Current s t) : GoesOn (statement env x s t) := by
  cases t with
  | registerSave dto =>
    simp only [statement, AuthService.registerSave]
    split
    · exact .done
    · exact .go (.aside rfl rfl)
  | loginUpdateLastLogin userId lastLoginAt =>
    simp only [statement, AuthService.loginUpdateLastLogin]
    split <;> exact .done
  | generateSave caller userId access raw expiresAt =>
    simp only [statement, AuthService.generateSave]
    split <;> exact .done
  | deleteSoftDelete userId => exact .done
  -- the commands of a verification touch no user
  | verifyOtp point key otp after =>
    obtain ⟨redis, hredis, -⟩ := OtpService.verifyOtp_store s key otp point
    have husers : (OtpService.verifyOtp s key otp point).1.users = s.users := by rw [hredis]
    have hstanding := (standing_of_users husers after.user.id).trans (h.loaded after.user rfl)
    simp only [statement]
    split
    · next heq =>
      rw [heq] at hstanding
      exact .go (.of_loaded rfl rfl hstanding)
    · next heq =>
      rw [heq] at hstanding
      exact goesOn_afterOtp hstanding _
    · exact .done
  | saveWrite user database after =>
    simp only [statement, saveWrite]
    split
    · exact .done
    · split
      · exact .done
      · exact goesOn_afterSave user after
  | revokeTokens userId revocation =>
    cases revocation
    all_goals first
      | exact .done
      | exact .go (.aside rfl rfl)
  | blacklistSet userId jti exp by_ =>
    cases by_
    all_goals first
      | exact .done
      | exact .go (.aside rfl rfl)
  | changeRole id dto actor =>
    simp only [statement]
    rcases changeRole_cases s id dto actor with ⟨-, ⟨r, he⟩ | ⟨ex, he⟩⟩ | ⟨user, -, -, he⟩ <;> rw [he] <;>
      exact .done
  -- two tasks go on, and neither of them holds a user
  | loginCompare dto user =>
    simp only [statement, AuthService.loginCompare]
    split
    · exact .done
    · have htrailing : ∀ t ∈ [(AuthService.generateTokens env s .login user).2,
          .loginUpdateLastLogin user.id s.now], Trailing t := by
        intro t ht
        rcases List.mem_cons.mp ht with rfl | ht
        · trivial
        · rw [List.mem_singleton.mp ht]
          trivial
      exact ⟨fun t ht => current_of_trailing (htrailing t ht), .inr htrailing⟩
  | refreshSave stored user =>
    cases user
    · exact .done
    · exact .go (.aside rfl rfl)
  | _ => exact goesOn_quiet h (quiet_step env x s trivial)

/-! ## Runs without overlap

The requests run one after the other, and a login leaves its last two statements behind, which change nobody's
standing. -/

/-- Trailing tasks end. -/
theorem next_of_trailing (h : Trailing t) : ∀ t' ∈ (exec env x s t).next, Trailing t' := by
  cases t with
  | generateSave caller userId access raw expiresAt =>
    simp only [exec, statement, AuthService.generateSave]
    split <;> exact fun _ ht => absurd ht List.not_mem_nil
  | loginUpdateLastLogin userId lastLoginAt =>
    simp only [exec, statement, AuthService.loginUpdateLastLogin]
    split <;> exact fun _ ht => absurd ht List.not_mem_nil
  | _ => exact h.elim

/-- Requests that follow each other stay current. -/
theorem lone_step {p : Pool Store Task} {act : Act Request Input}
    (h : p.Lone Trailing Current) (hseq : p.Sequential act) :
    (p.step (service env) act).Lone Trailing Current := by
  refine h.step (fun s r => ?_) (fun x s t ht => ?_) (fun x s t ht => ?_)
    (fun x s t ht => next_of_trailing ht) (fun s t ht => current_of_trailing ht) hseq
  · cases r <;> exact .aside rfl rfl
  · exact (goesOn_statement (s := s.wait x.elapsed) ⟨ht.loaded, ht.saves⟩).current
  · exact (goesOn_statement (s := s.wait x.elapsed) ⟨ht.loaded, ht.saves⟩).alone

/-- **One act.** It leaves an administrator exactly when it does not delete the last one. -/
theorem admins_act {p : Pool Store Task} {act : Act Request Input} (h : p.Lone Trailing Current)
    (hadmin : 0 < p.store.admins) :
    0 < (p.step (service env) act).store.admins ↔ ¬ DeletesLastAdmin p act := by
  refine Pool.step_iff (P := fun s : Store => 0 < s.admins) hadmin fun i x n t _ hi => ?_
  have hcurrent : Current p.store t := h.held (n, t) (List.mem_of_getElem? hi)
  show 0 < (statement env x (p.store.wait x.elapsed) t).store.admins ↔ _
  cases hdeletes : t.softDeletes with
  | none =>
    refine iff_of_true ?_ (by simp)
    exact admins_of_userStep (user_step env x (p.store.wait x.elapsed) t) rfl
      ⟨hcurrent.loaded, hcurrent.saves⟩ hdeletes hadmin
  | some userId =>
    have ht : t = .deleteSoftDelete userId := by
      cases t with
      | deleteSoftDelete id => exact congrArg Task.deleteSoftDelete (Option.some.inj hdeletes)
      | _ => cases hdeletes
    subst ht
    refine (admins_softDelete (s := p.store.wait x.elapsed) hadmin).trans (not_congr ⟨fun hlast => ⟨userId, rfl, hlast⟩, ?_⟩)
    rintro ⟨id, hid, hlast⟩
    obtain rfl := Option.some.inj hid
    exact hlast

/-- **The last administrator.** In every run of requests without overlap, from a state with an
administrator, there is one in every state exactly when `deleteAccount` never comes to the row of the only
one. -/
theorem administrator_retained (env : Env) {s : Store} {acts : List (Act Request Input)}
    (hadmin : 0 < s.admins)
    (hseq : Meets (Pool.step (service env)) Pool.Sequential (.idle s) acts) :
    Always (Pool.step (service env)) (fun p => 0 < p.store.admins) (.idle s) acts
      ↔ Meets (Pool.step (service env)) (fun p act => ¬ DeletesLastAdmin p act) (.idle s) acts :=
  always_iff_meets_of_invariant (fun _ _ h hact => lone_step h hact)
    (fun _ _ h _ hcount => admins_act h hcount) (.idle s) hadmin hseq

namespace Sample

/-- A deletion of the account: the guard, the password, the refresh tokens, the blacklist, the row. -/
def deletion (token : AccessToken) : List (Act Request Input) :=
  .start (.guarded token (.deleteAccount ⟨"Password123"⟩)) :: List.replicate 6 (.run 0 (after 10))

/-- An administrator makes another user one, who then deletes the account. -/
def successor : List (Act Request Input) :=
  login administrator
    ++ .start (.guarded (access administrator 0 1000) (.changeRole 0 ⟨.admin, "Second administrator"⟩))
      :: List.replicate 3 (.run 0 (after 1000))
    ++ login student ++ deletion (access { student with role := .admin } 2 1003)

end Sample

/-- A second administrator is appointed and deletes the account again. -/
theorem administrator_retained_successor :
    Always (Pool.step (service Sample.env)) (fun p => 0 < p.store.admins) (.idle Sample.store)
      Sample.successor :=
  (administrator_retained Sample.env (by decide) (by decide)).mpr (by decide)

/-- The only administrator logs in and deletes the account. -/
theorem not_administrator_retained :
    0 < Sample.store.admins
      ∧ Meets (Pool.step (service Sample.env)) Pool.Sequential (.idle Sample.store)
        (Sample.login Sample.administrator ++ Sample.deletion (Sample.access Sample.administrator 0 1000))
      ∧ (AcaSocial.run (Pool.step (service Sample.env)) (.idle Sample.store)
        (Sample.login Sample.administrator
          ++ Sample.deletion (Sample.access Sample.administrator 0 1000))).store.admins = 0 := by
  decide

end AcaSocial.Identity
