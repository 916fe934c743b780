import AcaSocial.Identity.UserRows

/-!
# Self-service edits and security changes

The methods behind the guard work on the user that the guard loaded. `save` reads the row again and
writes every column in which the entity differs from it, also those that changed since the guard.

* **`Task.draft`** — the user that a self-service edit is going to save.
* **`Interrupted`** — a statement writes the role or the password of a user whom another request has
  loaded for an edit and not read again yet.
* **`InSync`** — the invariant of the tasks: a draft has the role and the password that are stored.

`edits_keep_security` is about all interleavings without such a statement, and
`not_keep_security_interrupted` is one with a change of role in the middle of an edit.
-/

namespace AcaSocial.Identity

/-- The saves of `updateProfile`, `updateAvatar`, `updatePrivacy` and `confirmChangeEmail`. -/
def AfterSave.selfEdit : AfterSave → Bool
  | .updateProfile | .updateAvatar | .updatePrivacy | .confirmChangeEmail => true
  | .verifyRegisterOtp | .resetPassword | .changePassword _ _ => false

/-- The user that a self-service edit has loaded and is going to save. -/
def Task.draft : Task → Option User
  | .confirmEmailFind user _ => some user
  | .verifyOtp _ _ _ (.confirmChangeEmail _ user) => some user
  | .saveRead user after => if after.selfEdit then some user else none
  | _ => none

/-- The user whose security columns a statement writes that is not part of a self-service edit. -/
def securityWrite (s : Store) : Task → Option Nat
  | .saveWrite user database after =>
    if !after.selfEdit ∧ user.security ≠ database.security then some user.id else none
  | .changeRole id dto actor => (roleChange s (.changeRole id dto actor)).map User.id
  | _ => none

/-- The statement writes the security columns of the user that the other task is going to save. -/
def Interrupted (x : Input) (s : Store) (t o : Task) : Prop :=
  (securityWrite (s.wait x.elapsed) t).isSome
    ∧ securityWrite (s.wait x.elapsed) t = o.draft.map User.id

instance (x : Input) (s : Store) (t o : Task) : Decidable (Interrupted x s t o) :=
  inferInstanceAs (Decidable (_ ∧ _))

/-- What is stored of the security of each user. -/
def Store.security (s : Store) (id : Nat) : Option (Role × String × Option Time) :=
  (s.users.get? id).map User.security

/-- The user for whom the statement commits role and password: a registration, a change of role, and
every save but those of self-service edits. -/
def commits (s : Store) : Task → Option Nat
  | .registerSave _ => some s.users.next
  | .changeRole id _ _ => some id
  | .saveWrite user _ after => if after.selfEdit then none else some user.id
  | _ => none

/-- An observer keeps what was last committed of the security of each user. -/
def noteSecurity (env : Env) (x : Input) (s : Store) (_ : Nat) (t : Task)
    (committed : Nat → Option (Role × String × Option Time)) :
    Nat → Option (Role × String × Option Time) :=
  match commits s t with
  | none => committed
  | some id => Function.update committed id ((exec env x s t).store.security id)

/-- What is stored is what was last committed. -/
def KeepsSecurity (s : Store) (committed : Nat → Option (Role × String × Option Time)) : Prop :=
  ∀ id, s.security id = committed id

/-- A draft has the security columns that are stored, and an edit about to write has those that it
read again. -/
def InSync (s : Store) : Task → Prop
  | .confirmEmailFind user _ => s.security user.id = some user.security
  | .verifyOtp _ _ _ (.confirmChangeEmail _ user) => s.security user.id = some user.security
  | .saveRead user after => after.selfEdit = true → s.security user.id = some user.security
  | .saveWrite user database after => after.selfEdit = true → user.security = database.security
  | _ => True

variable {env : Env} {x : Input} {s s' : Store} {t t' o : Task} {e : Step}

/-- Columns in which the entity does not differ from the row that was read again stay as they are. -/
theorem security_write {user database row : User} (h : user.security = database.security) :
    (user.write database row).security = row.security := by
  simp only [User.security, Prod.mk.injEq] at h ⊢
  obtain ⟨hrole, hhash, hchanged⟩ := h
  exact ⟨if_pos hrole, if_pos hhash, if_pos hchanged⟩

/-- The save of another row, or of one that keeps these columns, keeps them. -/
theorem security_save {row row' : User} (husers : s'.users = s.users.save row')
    (hrow : s.users.get? row'.id = some row) {id : Nat}
    (hne : row'.security ≠ row.security → row'.id ≠ id) : s'.security id = s.security id := by
  rw [Store.security, Store.security, husers]
  by_cases hid : row'.id = id
  · subst hid
    have hsame : row'.security = row.security := by
      by_contra hdiff
      exact hne hdiff rfl
    rw [Serial.save_toTable, Table.get?_save_self hrow, hrow, Option.map_some, Option.map_some, hsame]
  · rw [Serial.save_toTable, Table.get?_save_of_ne hid]

/-- **Frame.** A statement leaves the security of a user alone if it does not write it, and if an edit
writes the columns that it read. -/
theorem security_frame {users : Serial User User.id} (h : UserStep env x s t users)
    (husers : s'.users = users) (ht : InSync s t) {id : Nat}
    (hnew : ∀ dto, t = .registerSave dto → id ≠ s.users.next) (hwrite : securityWrite s t ≠ some id) :
    s'.security id = s.security id := by
  cases h with
  | aside => rw [Store.security, husers, Store.security]
  | registered dto =>
    have hother := Serial.get?_insert s.users (AuthService.newUser env x s dto) (fun _ => rfl) id
    rw [if_neg (Ne.symm (hnew dto rfl))] at hother
    rw [Store.security, husers]
    exact congrArg (Option.map User.security) hother
  | loggedIn lastLoginAt hrow => exact security_save husers hrow fun hdiff => absurd rfl hdiff
  | deleted hrow => exact security_save husers hrow fun hdiff => absurd rfl hdiff
  | @roleChanged id' dto actor user hrow hchange =>
    refine security_save husers hrow fun _ hid => ?_
    refine hwrite ?_
    rw [securityWrite, hchange, Option.map_some]
    exact congrArg some hid
  | @written user database row after hrow _ =>
    have hid : (user.write database row).id = user.id := (Table.get?_eq_some.mp hrow).2
    refine security_save husers (hid ▸ hrow) fun hdiff he => ?_
    -- a save that writes the security has a copy that differs
    have hcopy : user.security ≠ database.security := fun hsame => hdiff (security_write hsame)
    cases hself : after.selfEdit with
    | true => exact hcopy (ht hself)
    | false =>
      refine hwrite ?_
      rw [securityWrite, hself, if_pos ⟨rfl, hcopy⟩]
      exact congrArg some (hid.symm.trans he)

/-! ## What the tasks go on with

A user that is loaded is as stored when the save reads its row again, so that an edit of the user's own profile writes
no security column. -/

/-- The task goes on in sync. -/
def Settled (e : Step) : Prop := ∀ t ∈ e.next, InSync e.store t

theorem Settled.go (h : InSync s t) : Settled (go s t) := fun _ ht => List.mem_singleton.mp ht ▸ h

theorem Settled.done {r : Option (Except HttpException Reply)} : Settled ⟨s, [], r⟩ :=
  fun _ ht => absurd ht List.not_mem_nil

/-- A method behind the guard goes on with the user as stored. -/
theorem settled_handle {user : User} (huser : s.users.get? user.id = some user) (token : AccessToken)
    (request : GuardedRequest) : Settled (JwtStrategy.handle s user token request) := by
  have hsync : s.security user.id = some user.security := congrArg (Option.map User.security) huser
  cases request with
  | updateProfile dto =>
    refine .go fun _ => ?_
    cases dto.dateOfBirth <;> exact hsync
  | updateAvatar avatarUrl => exact .go fun _ => hsync
  | updatePrivacy dto => exact .go fun _ => hsync
  | confirmChangeEmail dto => exact .go hsync
  | changeRole id dto =>
    simp only [JwtStrategy.handle]
    split
    · exact .done
    · exact .go trivial
  | _ => exact .go trivial

/-- A code that is right lets the user be saved as it was loaded. -/
theorem settled_afterOtp {point : OtpPoint} {key : OtpKey} {otp : String} {after : AfterOtp}
    (h : InSync s (.verifyOtp point key otp after)) (husers : s'.users = s.users) (valid : Bool) :
    Settled (afterOtp s' valid after) := by
  cases after with
  | confirmChangeEmail dto user =>
    cases valid
    · exact .done
    · refine .go fun _ => ?_
      rw [Store.security, husers]
      exact h
  | _ =>
    cases valid
    · exact .done
    · first
        | exact .go trivial
        | exact .go (fun h => by cases h)

/-- A user that was loaded is handed on, and a save reads its row again. -/
theorem InSync.leads (h : InSync s t) (hlead : Leads s t t') : InSync s t' := by
  cases hlead with
  | @handled token request user t hfind hnext =>
    have hsync := settled_handle (get?_of_findUser hfind) token request t' (hnext ▸ List.mem_singleton_self t')
    obtain ⟨ex, he⟩ | ⟨t₁, he⟩ := handle_cases s user token request <;> rwa [he] at hsync
  | confirmEmail => exact h
  | resetHash => exact fun hself => by cases hself
  | changePassword => exact fun hself => by cases hself
  | @saved user database after hrow =>
    intro hself
    have hsync := h hself
    rw [Store.security, hrow, Option.map_some] at hsync
    exact (Option.some.inj hsync).symm
  | _ => trivial

/-- A statement that writes to no table goes on with what it has loaded. -/
theorem settled_quiet (h : InSync s t) (hquiet : QuietStep s t e) : Settled e := by
  cases hquiet with
  | ends => exact .done
  | goes hlead => exact .go (h.leads hlead)
  | codes _ hnext =>
    rcases hnext with rfl | ⟨email, -, rfl⟩
    · exact .done
    · intro t' ht'
      rw [List.mem_singleton.mp ht']
      trivial

/-- **What a request goes on with is in sync.** -/
theorem settled_statement (h : InSync s t) : Settled (statement env x s t) := by
  cases t with
  | registerSave dto =>
    simp only [statement, AuthService.registerSave]
    split
    · exact .done
    · exact .go trivial
  | loginUpdateLastLogin userId lastLoginAt =>
    simp only [statement, AuthService.loginUpdateLastLogin]
    split <;> exact .done
  | generateSave caller userId access raw expiresAt =>
    simp only [statement, AuthService.generateSave]
    split <;> exact .done
  | deleteSoftDelete userId => exact .done
  -- the loaded user waits for the verification, and no statement of it touches users
  | verifyOtp point key otp after =>
    obtain ⟨redis, hredis, -⟩ := OtpService.verifyOtp_store s key otp point
    have husers : (OtpService.verifyOtp s key otp point).1.users = s.users := by rw [hredis]
    simp only [statement]
    split
    · next heq =>
      rw [heq] at husers
      refine .go ?_
      cases after with
      | confirmChangeEmail dto user =>
        show Store.security _ _ = _
        rw [Store.security, husers]
        exact h
      | _ => trivial
    · next heq =>
      rw [heq] at husers
      exact settled_afterOtp h husers _
    · exact .done
  | saveWrite user database after =>
    simp only [statement, saveWrite]
    split
    · exact .done
    · split
      · exact .done
      · cases after
        all_goals first
          | exact .done
          | exact .go trivial
  | revokeTokens userId revocation =>
    cases revocation
    all_goals first
      | exact .done
      | exact .go trivial
  | blacklistSet userId jti exp by_ =>
    cases by_
    all_goals first
      | exact .done
      | exact .go trivial
  | changeRole id dto actor =>
    simp only [statement]
    rcases changeRole_cases s id dto actor with ⟨-, ⟨r, he⟩ | ⟨ex, he⟩⟩ | ⟨user, -, -, he⟩ <;> rw [he] <;>
      exact .done
  | loginCompare dto user =>
    simp only [statement, AuthService.loginCompare]
    split
    · exact .done
    · intro t ht
      rcases List.mem_cons.mp ht with rfl | ht
      · trivial
      · rw [List.mem_singleton.mp ht]
        trivial
  | refreshSave stored user =>
    cases user
    · exact .done
    · exact .go trivial
  | _ => exact settled_quiet h (quiet_step env x s trivial)

/-! ## Interleavings

Between the load and the save other requests run. The condition says that none of them writes the security columns of
the user then. -/

theorem inSync_enter (s : Store) (r : Request) : InSync s (enter r) := by
  cases r <;> trivial

/-- A statement that writes these columns commits them. -/
theorem commits_of_securityWrite {id : Nat} (h : securityWrite s t = some id) :
    commits s t = some id := by
  cases t with
  | saveWrite user database after =>
    simp only [securityWrite] at h
    split at h
    · next hwrite =>
      rw [← Option.some.inj h, commits, if_neg (by simpa using hwrite.1)]
    · cases h
  | changeRole id' dto actor =>
    obtain ⟨user, hchange, rfl⟩ := Option.map_eq_some_iff.mp h
    have hfind := (Option.filter_eq_some_iff.mp hchange).1
    have hid : user.id = id' := by simpa using (findUser_eq_some hfind).2.2
    rw [commits, hid]
  | _ => cases h

/-- A registration commits the columns of a new user. -/
theorem commits_registerSave {dto : RegisterDto} (h : t = .registerSave dto) :
    commits s t = some s.users.next := by rw [h, commits]

/-- **Self-service edits keep security changes.** In every interleaving of requests in which no role or
password of a user is written while another request has loaded the user for an edit and not read it
again yet, the role, the password hash and the time of its change that are stored are those that were
last committed by a registration, a change of role, a reset or a change of the password. -/
theorem edits_keep_security (env : Env) {s : Store} {acts : List (Act Request Input)}
    (hapart : Meets (Pool.observe (service env) (noteSecurity env))
      (fun q act => q.1.Apart Interrupted act) (.idle s, s.security) acts) :
    Always (Pool.observe (service env) (noteSecurity env))
      (fun q => KeepsSecurity q.1.store q.2) (.idle s, s.security) acts := by
  have hall := Pool.always_of_apart (I := KeepsSecurity) (J := fun s _ _ t => InSync s t)
    (fun s _ _ r _ => inSync_enter s r) ?_ ?_ (fun id => rfl) hapart
  · exact hall.imp fun q hq => hq.1
  -- own steps: what a statement writes to these columns is logged
  · intro x s committed n t hkeeps ht
    refine ⟨fun id => ?_, settled_statement (s := s.wait x.elapsed) ht⟩
    rw [noteSecurity]
    by_cases hcommits : commits s t = some id
    · rw [hcommits]
      exact (Function.update_self (β := fun _ => Option (Role × String × Option Time)) id _ _).symm
    · have hframe : (exec env x s t).store.security id = (s.wait x.elapsed).security id := by
        refine security_frame (user_step env x (s.wait x.elapsed) t) rfl ht ?_ ?_
        · exact fun dto hdto hid => hcommits (hid ▸ commits_registerSave hdto)
        · exact fun hwrite => hcommits (commits_of_securityWrite (s := s.wait x.elapsed) hwrite)
      have hold : (exec env x s t).store.security id = committed id := hframe.trans (hkeeps id)
      cases hc : commits s t with
      | none => exact hold
      | some id' =>
        have hne : id ≠ id' := fun he => hcommits (he ▸ hc)
        exact hold.trans
          (Function.update_of_ne (β := fun _ => Option (Role × String × Option Time)) hne _ _).symm
  -- steps of others: a user in the middle of an edit is as it was loaded
  · intro x s committed n t m o _ ht ho hclash
    have hdraft : ∀ user, o.draft = some user → s.security user.id = some user.security →
        (exec env x s t).store.security user.id = some user.security := by
      intro user hdraft hsync
      refine (security_frame (user_step env x (s.wait x.elapsed) t) rfl ht ?_ ?_).trans hsync
      · -- the user of a draft is in the table already
        rintro dto - hid
        obtain ⟨row, hrow, -⟩ := Option.map_eq_some_iff.mp hsync
        have hlt := s.users.fresh row (Table.get?_eq_some.mp hrow).1
        rw [(Table.get?_eq_some.mp hrow).2] at hlt
        exact absurd hid (Nat.ne_of_lt hlt)
      · intro hwrite
        exact hclash ⟨by rw [hwrite]; rfl, by rw [hwrite, hdraft, Option.map_some]⟩
    cases o with
    | confirmEmailFind user dto => exact hdraft user rfl ho
    | verifyOtp point key otp after =>
      cases after with
      | confirmChangeEmail dto user => exact hdraft user rfl ho
      | _ => trivial
    | saveRead user after => exact fun hself => hdraft user (if_pos hself) (ho hself)
    | saveWrite user database after => exact ho
    | _ => trivial

/-- Two logins and a profile edit. -/
theorem edits_keep_security_edited :
    Always (Pool.observe (service Sample.env) (noteSecurity Sample.env))
      (fun q => KeepsSecurity q.1.store q.2) (.idle Sample.store, Sample.store.security)
      (Sample.login Sample.student ++ Sample.login Sample.administrator
        ++ Sample.edit (Sample.access Sample.student 0 1000)) :=
  edits_keep_security Sample.env (by decide)

/-- A change of role between the guard of a profile edit and its save: the save takes it back. -/
theorem not_keep_security_interrupted :
    ¬ Always (Pool.observe (service Sample.env) (noteSecurity Sample.env))
      (fun q => KeepsSecurity q.1.store q.2) (.idle Sample.store, Sample.store.security)
      (Sample.login Sample.student ++ Sample.login Sample.administrator
        ++ Sample.editAmid (Sample.access Sample.student 0 1000)
          (Sample.access Sample.administrator 2 1000)) := by
  intro h
  have hkept := h.last 0
  revert hkept
  decide

end AcaSocial.Identity
