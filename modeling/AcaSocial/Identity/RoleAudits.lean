import AcaSocial.Base.Trails
import AcaSocial.Identity.RoleTransactions

/-!
# The audit of roles

`changeRole` writes a row of `user_role_audits` in the transaction that changes the role. Every other operation that saves a
user writes the columns in which its copy differs from the row, so a copy from before a change of role can take it back.

* **`Store.roleChanges`** — the changes that the audit has of a user.
* **`RolesAudited`** — they lead from the role that the user had at first to the role that the user has.
* **`Store.RoleStep`** — what a statement may do to the roles and to the audit.
* **`TakesRoleBack`** — a save writes the role that it has read before.

`roles_audited` says that `TakesRoleBack` is the only way in which a role gets past the audit, and
`role_transactions_audited` that concurrent changes of role never do.
-/

namespace AcaSocial.Identity

/-- The role of a user, also of one that is deleted. -/
def Store.role? (s : Store) (id : Nat) : Option Role := (s.users.get? id).map User.role

/-- The changes of the role of a user, in the order in which they were committed. -/
def Store.roleChanges (s : Store) (id : Nat) : List (Role × Role) :=
  (s.userRoleAudits.rows.filter fun a => decide (a.userId = id)).map fun a => (a.oldRole, a.newRole)

/-- The role that a user has at first: the one in `s`, and that of a student for those who register later. -/
def Store.firstRole (s : Store) (id : Nat) : Role := (s.role? id).getD .student

/-- The audit explains the role of each user, and nobody has taken a role but that of an administrator. -/
structure RolesAudited (first : Nat → Role) (s : Store) : Prop where
  trail : ∀ id role, s.role? id = some role → Trail (first id) (s.roleChanges id) role
  byOthers : ∀ a ∈ s.userRoleAudits, a.changedBy = a.userId → a.newRole = .admin

/-- What goes with it: the audit is about users that are there, and those who are not will be students. -/
structure Registered (first : Nat → Role) (s : Store) : Prop where
  named : ∀ a ∈ s.userRoleAudits, (s.role? a.userId).isSome
  students : ∀ id, s.role? id = none → first id = .student

/-- What a statement may do to the roles and to the audit. `back` says that it changes a role past the audit. -/
inductive Store.RoleStep (s : Store) (back : Prop) (s' : Store) : Prop where
  | kept (hback : ¬ back) (hroles : s'.role? = s.role?) (haudits : s'.userRoleAudits = s.userRoleAudits)
  | registered {id : Nat} (hback : ¬ back) (hnew : s.role? id = none)
      (hroles : s'.role? = Function.update s.role? id (some .student)) (haudits : s'.userRoleAudits = s.userRoleAudits)
  | changed (mk : Nat → UserRoleAudit) (hmk : ∀ i, (mk i).id = i) {a : UserRoleAudit} (hback : ¬ back)
      (ha : mk s.userRoleAudits.next = a) (hold : s.role? a.userId = some a.oldRole) (hne : a.oldRole ≠ a.newRole)
      (hself : a.changedBy = a.userId → a.newRole = .admin)
      (hroles : s'.role? = Function.update s.role? a.userId (some a.newRole))
      (haudits : s'.userRoleAudits = s.userRoleAudits.insert mk hmk)
  | overwritten {id : Nat} {old role : Role} (hback : back) (hold : s.role? id = some old) (hne : old ≠ role)
      (hroles : s'.role? = Function.update s.role? id (some role)) (haudits : s'.userRoleAudits = s.userRoleAudits)

/-- The save writes the role that it has loaded, and another is stored by now. -/
def Task.takesRoleBack (s : Store) : Task → Prop
  | .saveWrite user database _ => ∃ row ∈ s.users.get? user.id, ¬ s.Taken (user.write database row)
      ∧ user.role ≠ database.role ∧ user.role ≠ row.role
  | _ => False

instance (s : Store) : DecidablePred (Task.takesRoleBack s) := by
  intro t
  unfold Task.takesRoleBack
  split <;> infer_instance

/-- The act runs such a save. -/
def TakesRoleBack (p : Pool Store Task) (act : Act Request Input) : Prop :=
  ∃ t ∈ p.running act, t.takesRoleBack p.store

instance (p : Pool Store Task) (act : Act Request Input) : Decidable (TakesRoleBack p act) :=
  inferInstanceAs (Decidable (∃ t ∈ p.running act, t.takesRoleBack p.store))

variable {env : Env} {x : Input} {s s' : Store} {t : Task} {first : Nat → Role}

/-! ## The invariant

The role of a user is the one that the last audit says, or the one of the registration. -/

/-- The changes of a role are read from the audits. -/
theorem roleChanges_of_audits (haudits : s'.userRoleAudits = s.userRoleAudits) (id : Nat) :
    s'.roleChanges id = s.roleChanges id := by
  rw [Store.roleChanges, haudits, Store.roleChanges]

/-- An audit is added at the end. -/
theorem rows_insertAudit {mk : Nat → UserRoleAudit} (hmk : ∀ i, (mk i).id = i) :
    (s.userRoleAudits.insert mk hmk).rows = s.userRoleAudits.rows ++ [mk s.userRoleAudits.next] := by
  refine Table.rows_insert ?_
  rw [hmk]
  exact s.userRoleAudits.get?_next

/-- The changes after one more row of the audit. -/
theorem roleChanges_insert {mk : Nat → UserRoleAudit} {hmk : ∀ i, (mk i).id = i} {a : UserRoleAudit}
    (ha : mk s.userRoleAudits.next = a) (haudits : s'.userRoleAudits = s.userRoleAudits.insert mk hmk) (id : Nat) :
    s'.roleChanges id = s.roleChanges id ++ if a.userId = id then [(a.oldRole, a.newRole)] else [] := by
  have hrows : s'.userRoleAudits.rows = s.userRoleAudits.rows ++ [a] := by
    rw [haudits, ← ha]
    exact rows_insertAudit hmk
  rw [Store.roleChanges, hrows, List.filter_append, List.map_append, List.filter_singleton, Store.roleChanges]
  by_cases hid : a.userId = id
  · rw [if_pos hid, decide_eq_true hid]
    rfl
  · rw [if_neg hid, decide_eq_false hid]
    rfl

/-- Users stay, and new ones are students. -/
theorem Registered.step {back : Prop} (h : Registered first s) (hstep : s.RoleStep back s') : Registered first s' := by
  -- a role that is written leaves every user with a role
  have hupdate : ∀ {id : Nat} {role : Role}, s'.role? = Function.update s.role? id (some role) →
      ∀ k, (s.role? k).isSome → (s'.role? k).isSome := by
    intro id role hroles k hk
    rw [hroles]
    by_cases hid : k = id
    · rw [hid, Function.update_self]
      rfl
    · rw [Function.update_of_ne hid]
      exact hk
  have hstudents : (∀ k, (s.role? k).isSome → (s'.role? k).isSome) → ∀ k, s'.role? k = none → first k = .student := by
    intro hstay k hk
    apply h.students k
    apply Option.not_isSome_iff_eq_none.mp
    intro hsome
    have hthere := hstay k hsome
    rw [hk] at hthere
    cases hthere
  cases hstep with
  | kept hback hroles haudits =>
    constructor
    · rw [haudits, hroles]
      exact h.named
    · rw [hroles]
      exact h.students
  | registered hback hnew hroles haudits | overwritten hback hold hne hroles haudits =>
    refine ⟨fun a ha => ?_, hstudents (hupdate hroles)⟩
    rw [haudits] at ha
    exact hupdate hroles _ (h.named a ha)
  | changed mk hmk hback ha hold hne hself hroles haudits =>
    refine ⟨fun b hb => ?_, hstudents (hupdate hroles)⟩
    rw [haudits] at hb
    rcases Serial.mem_insert.mp hb with hb | rfl
    · exact hupdate hroles _ (h.named b hb)
    · rw [hroles, ha, Function.update_self]
      rfl

/-- Nothing is in the audit of a user who is not there. -/
theorem Registered.roleChanges_eq_nil (h : Registered first s) {id : Nat} (hnew : s.role? id = none) :
    s.roleChanges id = [] := by
  rw [Store.roleChanges, List.map_eq_nil_iff, List.filter_eq_nil_iff]
  intro a ha hsame
  have hthere := h.named a ha
  rw [of_decide_eq_true hsame, hnew] at hthere
  cases hthere

/-- Roles that are the same, with the same audit. -/
theorem RolesAudited.of_same (h : RolesAudited first s) (hroles : ∀ id role, s'.role? id = some role →
    s.role? id = some role ∨ s.roleChanges id = [] ∧ role = first id)
    (haudits : s'.userRoleAudits = s.userRoleAudits) : RolesAudited first s' := by
  constructor
  · intro id role hrole
    rw [roleChanges_of_audits haudits]
    rcases hroles id role hrole with hsame | ⟨hnone, rfl⟩
    · exact h.trail id role hsame
    · rw [hnone]
      exact .nil
  · rw [haudits]
    exact h.byOthers

/-- **One step.** It leaves the roles audited exactly when it changes none past the audit. -/
theorem rolesAudited_step {back : Prop} (hreg : Registered first s) (h : RolesAudited first s)
    (hstep : s.RoleStep back s') : RolesAudited first s' ↔ ¬ back := by
  cases hstep with
  | kept hback hroles haudits =>
    refine iff_of_true (h.of_same (fun id role hrole => .inl ?_) haudits) hback
    rw [← hroles]
    exact hrole
  | @registered k hback hnew hroles haudits =>
    refine iff_of_true (h.of_same (fun id role hrole => ?_) haudits) hback
    rw [hroles] at hrole
    by_cases hid : id = k
    · rw [hid, Function.update_self] at hrole
      rw [hid]
      exact .inr ⟨hreg.roleChanges_eq_nil hnew, (Option.some.inj hrole).symm.trans (hreg.students k hnew).symm⟩
    · rw [Function.update_of_ne hid] at hrole
      exact .inl hrole
  | @changed mk hmk a hback ha hold hne hself hroles haudits =>
    refine iff_of_true ⟨fun id role hrole => ?_, fun b hb => ?_⟩ hback
    · rw [roleChanges_insert ha haudits]
      rw [hroles] at hrole
      by_cases hid : a.userId = id
      · subst hid
        rw [Function.update_self] at hrole
        obtain rfl := Option.some.inj hrole
        rw [if_pos rfl]
        exact (h.trail a.userId a.oldRole hold).snoc hne
      · rw [Function.update_of_ne fun he => hid he.symm] at hrole
        rw [if_neg hid, List.append_nil]
        exact h.trail id role hrole
    · rw [haudits] at hb
      rcases Serial.mem_insert.mp hb with hb | rfl
      · exact h.byOthers b hb
      · rw [ha]
        exact hself
  | @overwritten k old role hback hold hne hroles haudits =>
    -- the same changes would lead to two roles
    refine iff_of_false (fun haudited => ?_) (not_not_intro hback)
    have hnow : s'.role? k = some role := by rw [hroles, Function.update_self]
    have htrail := haudited.trail k role hnow
    rw [roleChanges_of_audits haudits] at htrail
    exact hne ((h.trail k old hold).unique htrail)

/-! ## One statement

A change of role writes the role and the audit in one transaction, and a save may write the role back. -/

/-- The role of the row that was saved. -/
theorem role?_save {row : User} (row' : User) (hrow : s.users.get? row'.id = some row)
    (husers : s'.users = s.users.save row') : s'.role? = Function.update s.role? row'.id (some row'.role) := by
  funext id
  show (s'.users.get? id).map User.role = _
  rw [husers]
  show ((s.users.toTable.save row').get? id).map User.role = _
  by_cases hid : id = row'.id
  · rw [hid, Table.get?_save_self hrow, Function.update_self]
    rfl
  · rw [Table.get?_save_of_ne fun he => hid he.symm, Function.update_of_ne hid]
    rfl

/-- A save that keeps the role keeps it. -/
theorem role?_save_same {row : User} (row' : User) (hrow : s.users.get? row'.id = some row)
    (husers : s'.users = s.users.save row') (hsame : row'.role = row.role) : s'.role? = s.role? := by
  rw [role?_save row' hrow husers, hsame]
  have hold : s.role? row'.id = some row.role := by rw [Store.role?, hrow]; rfl
  rw [← hold, Function.update_eq_self]

/-- What follows a code writes no audit. -/
theorem audits_afterOtp (s : Store) (valid : Bool) (after : AfterOtp) :
    (afterOtp s valid after).store.userRoleAudits = s.userRoleAudits := by
  cases after <;> cases valid <;> rfl

/-- A statement that writes to no table writes no audit. -/
theorem audits_quiet {e : Step} (h : QuietStep s t e) : e.store.userRoleAudits = s.userRoleAudits := by
  obtain ⟨redis, hstore⟩ := h.store
  rw [hstore]

/-- Only a change of role writes the audit. -/
theorem audits_statement (h : ∀ id dto actor, t ≠ .changeRole id dto actor) :
    (statement env x s t).store.userRoleAudits = s.userRoleAudits := by
  cases t with
  | changeRole id dto actor => exact absurd rfl (h id dto actor)
  | verifyOtp point key otp after =>
    obtain ⟨redis, hredis, -⟩ := OtpService.verifyOtp_store s key otp point
    have haudits : (OtpService.verifyOtp s key otp point).1.userRoleAudits = s.userRoleAudits := by rw [hredis]
    simp only [statement]
    split <;> next h =>
      rw [h] at haudits
      first
        | exact haudits
        | exact (audits_afterOtp _ _ after).trans haudits
  -- what a save goes on with is of no matter here
  | saveWrite user database after =>
    simp only [statement, saveWrite]
    split
    · rfl
    · split
      · rfl
      · cases after <;> rfl
  | revokeTokens userId revocation =>
    have hrevoked : (AuthService.revokeAll s userId revocation).userRoleAudits = s.userRoleAudits := by
      unfold AuthService.revokeAll
      split <;> rfl
    cases revocation <;> exact hrevoked
  | blacklistSet userId jti exp by_ => cases by_ <;> rfl
  | refreshSave stored user => cases user <;> rfl
  | registerSave dto =>
    simp only [statement, AuthService.registerSave]
    split <;> rfl
  | loginCompare dto user =>
    simp only [statement, AuthService.loginCompare]
    split <;> rfl
  | loginUpdateLastLogin userId lastLoginAt =>
    simp only [statement, AuthService.loginUpdateLastLogin]
    split <;> rfl
  | generateSave caller userId access raw expiresAt =>
    simp only [statement, AuthService.generateSave]
    split <;> rfl
  | deleteSoftDelete userId =>
    simp only [statement, UsersService.deleteSoftDelete]
    split <;> rfl
  | _ => exact audits_quiet (quiet_step env x s trivial)

/-- What the transaction of `changeRole` commits. -/
theorem commitRole_roleStep {back : Prop} {dto : ChangeUserRoleDto} {actor user : User} (savedAt : Time) (hback : ¬ back)
    (hrow : s.users.get? user.id = some user) (hne : user.role ≠ dto.role)
    (hself : user.id = actor.id → dto.role = .admin) :
    s.RoleStep back (UsersService.commitRole { s with now := savedAt } dto actor user) := by
  refine .changed (fun id => ⟨id, user.id, user.role, dto.role, actor.id,
    String.ofList (Text.trim dto.reason.toList), savedAt⟩) (fun _ => rfl) hback rfl ?_ hne (fun he => hself he.symm) ?_ rfl
  · show (s.users.get? user.id).map User.role = some user.role
    rw [hrow]
    rfl
  · exact role?_save (s := s) (UsersService.withRole { s with now := savedAt } user dto.role) hrow rfl

/-- A save of a user. It changes the role if its copy is from before another change. -/
theorem saveWrite_roleStep (s : Store) (user database : User) (after : AfterSave) :
    s.RoleStep (Task.takesRoleBack s (.saveWrite user database after)) (saveWrite s user database after).store := by
  unfold saveWrite
  dsimp only
  split
  · next hnone =>
    refine .kept ?_ rfl rfl
    rintro ⟨row, hrow, -⟩
    cases hnone.symm.trans hrow
  · next row hrow =>
    split
    · next htaken =>
      refine .kept ?_ rfl rfl
      rintro ⟨row', hrow', hfree, -⟩
      obtain rfl := Option.some.inj (hrow.symm.trans hrow')
      exact hfree htaken
    · next hfree =>
      have hid : (user.write database row).id = user.id := (Table.get?_eq_some.mp hrow).2
      have haudits : (afterSave { s with users := s.users.save (user.write database row) } user after).store.userRoleAudits
          = s.userRoleAudits := by cases after <;> rfl
      have husers := users_afterSave { s with users := s.users.save (user.write database row) } user after
      have hold : s.role? user.id = some row.role := by
        rw [Store.role?, hrow]
        rfl
      -- `save` writes the role if the copy differs from what was read, which matters if it also differs from the row
      by_cases hback : user.role ≠ database.role ∧ user.role ≠ row.role
      · have hrole : (user.write database row).role = user.role := if_neg hback.1
        have hroles := role?_save (user.write database row) (hid ▸ hrow) husers
        rw [hid, hrole] at hroles
        exact .overwritten ⟨row, hrow, hfree, hback⟩ hold hback.2.symm hroles haudits
      · have hrole : (user.write database row).role = row.role := by
          show writeColumn user.role database.role row.role = row.role
          rw [writeColumn]
          split
          · rfl
          · next hne => exact not_not.mp fun hother => hback ⟨hne, hother⟩
        refine .kept ?_ (role?_save_same (user.write database row) (hid ▸ hrow) husers hrole) haudits
        rintro ⟨row', hrow', -, hcase⟩
        obtain rfl := Option.some.inj (hrow.symm.trans hrow')
        exact hback hcase

/-- **One statement.** -/
theorem role_step (env : Env) (x : Input) (s : Store) (t : Task) :
    s.RoleStep (t.takesRoleBack s) (statement env x s t).store := by
  by_cases hchange : ∃ id dto actor, t = .changeRole id dto actor
  · obtain ⟨id, dto, actor, rfl⟩ := hchange
    simp only [statement]
    rcases changeRole_cases s id dto actor with ⟨-, ⟨r, he⟩ | ⟨ex, he⟩⟩ | ⟨user, hfind, hchange, he⟩ <;> rw [he]
    · exact .kept not_false rfl rfl
    · exact .kept not_false rfl rfl
    · obtain ⟨-, hcase⟩ := Option.filter_eq_some_iff.mp hchange
      obtain ⟨hself, hne, -⟩ : ChangesRole s dto actor user := of_decide_eq_true hcase
      refine commitRole_roleStep s.now not_false (get?_of_findUser hfind) hne fun hid => ?_
      by_contra hrole
      exact hself ⟨hid, hrole⟩
  by_cases hsave : ∃ user database after, t = .saveWrite user database after
  · obtain ⟨user, database, after, rfl⟩ := hsave
    exact saveWrite_roleStep s user database after
  -- no other statement writes a role that is there
  have hback : ¬ t.takesRoleBack s := by
    cases t with
    | saveWrite user database after => exact absurd ⟨user, database, after, rfl⟩ hsave
    | _ => exact not_false
  have haudits : (statement env x s t).store.userRoleAudits = s.userRoleAudits :=
    audits_statement fun id dto actor he => hchange ⟨id, dto, actor, he⟩
  have husers := user_step env x s t
  generalize husers' : (statement env x s t).store.users = users at husers
  cases husers with
  | aside =>
    refine .kept hback ?_ haudits
    funext id
    rw [Store.role?, husers', Store.role?]
  | registered dto =>
    have hnew : s.role? s.users.next = none := by
      rw [Store.role?, s.users.get?_next]
      rfl
    refine .registered hback hnew ?_ haudits
    funext id
    rw [Store.role?, husers']
    refine (congrArg (Option.map User.role) (Serial.get?_insert s.users _ (fun _ => rfl) id)).trans ?_
    by_cases hid : s.users.next = id
    · rw [if_pos hid, hid, Function.update_self]
      rfl
    · rw [if_neg hid, Function.update_of_ne fun he => hid he.symm]
      rfl
  | @loggedIn user lastLoginAt hrow =>
    exact .kept hback (role?_save_same { user with lastLoginAt := some lastLoginAt } hrow husers' rfl) haudits
  | @deleted user hrow =>
    exact .kept hback (role?_save_same { user with deletedAt := some s.now } hrow husers' rfl) haudits
  | roleChanged => exact absurd ⟨_, _, _, rfl⟩ hchange
  | written => exact absurd ⟨_, _, _, rfl⟩ hsave

/-! ## Interleavings

Along an interleaving without such saves the audits say every role. -/

theorem registered_start (s : Store) (haudits : s.userRoleAudits.rows = []) : Registered s.firstRole s := by
  constructor
  · intro a ha
    have ha : a ∈ s.userRoleAudits.rows := ha
    rw [haudits] at ha
    exact absurd ha List.not_mem_nil
  · intro id hnone
    rw [Store.firstRole, hnone]
    rfl

theorem rolesAudited_start (s : Store) (haudits : s.userRoleAudits.rows = []) : RolesAudited s.firstRole s := by
  constructor
  · intro id role hrole
    have hnone : s.roleChanges id = [] := by
      rw [Store.roleChanges, haudits]
      rfl
    rw [hnone, Store.firstRole, hrole]
    exact .nil
  · intro a ha
    have ha : a ∈ s.userRoleAudits.rows := ha
    rw [haudits] at ha
    exact absurd ha List.not_mem_nil

/-- One statement keeps the roles of the registrations. -/
theorem registered_act {p : Pool Store Task} (h : Registered first p.store) (act : Act Request Input) :
    Registered first (p.step (service env) act).store := by
  cases act with
  | start r => exact h
  | run i x =>
    cases hi : p.tasks[i]? with
    | none =>
      rw [Pool.step_run_none hi]
      exact h
    | some a =>
      rw [Pool.step_run hi]
      have hwait : Registered first (p.store.wait x.elapsed) := ⟨h.named, h.students⟩
      exact hwait.step (role_step env x (p.store.wait x.elapsed) a.2)

/-- **Every interleaving.** From a store without audits, the audit leads from the first role of each user to the present one,
with no step left out and none that changes nothing, exactly when no save takes a role back. -/
theorem roles_audited (env : Env) (s : Store) (haudits : s.userRoleAudits.rows = []) (acts : List (Act Request Input)) :
    Always (Pool.step (service env)) (fun p => RolesAudited s.firstRole p.store) (.idle s) acts
      ↔ Meets (Pool.step (service env)) (fun p act => ¬ TakesRoleBack p act) (.idle s) acts := by
  apply Pool.always_step_iff_of_statements (P := RolesAudited s.firstRole) (Q := fun p => Registered s.firstRole p.store)
    (c := fun s t => t.takesRoleBack s) (fun p act h => registered_act h act) ?_ (registered_start s haudits)
    (rolesAudited_start s haudits)
  intro x n t p hreg _ h
  have hwait : Registered s.firstRole (p.store.wait x.elapsed) := ⟨hreg.named, hreg.students⟩
  have hwait' : RolesAudited s.firstRole (p.store.wait x.elapsed) := ⟨h.trail, h.byOthers⟩
  exact rolesAudited_step hwait hwait' (role_step env x (p.store.wait x.elapsed) t)

/-- An administrator appoints another user. A change of role in the middle of an edit gets lost, past the audit. -/
theorem roles_audited_appointed :
    Always (Pool.step (service Sample.env)) (fun p => RolesAudited Sample.store.firstRole p.store) (.idle Sample.store)
      Sample.successor
    ∧ ¬ Always (Pool.step (service Sample.env)) (fun p => RolesAudited Sample.store.firstRole p.store) (.idle Sample.store)
      (Sample.login Sample.student ++ Sample.login Sample.administrator
        ++ Sample.editAmid (Sample.access Sample.student 0 1000) (Sample.access Sample.administrator 2 1000)) := by
  constructor
  · exact (roles_audited Sample.env Sample.store rfl _).mpr (by decide)
  · intro h
    have hmeets := (roles_audited Sample.env Sample.store rfl _).mp h
    revert hmeets
    decide

/-! ## Concurrent changes of role

The transactions of `changeRole` lock the rows, so that they follow each other. -/

section

variable {l : LockedStore} {r : RoleTask} {p : Pool LockedStore RoleTask}

/-- The transaction changes the role, and not that of its own user to another than administrator. -/
def RoleTask.Justified : RoleTask → Prop
  | .findOne _ => True
  | .count user dto actor | .save user dto actor | .commit user dto actor _ =>
    user.role ≠ dto.role ∧ (user.id = actor.id → dto.role = .admin)

/-- A transaction goes on justified, and only its commit writes the store. -/
theorem justified_statement (h : r.Justified) :
    (∀ r' ∈ (l.statement r).next, r'.Justified)
      ∧ ((l.statement r).store.store = l.store ∨ ∃ user dto actor savedAt, r = .commit user dto actor savedAt) := by
  cases r with
  | findOne request =>
    simp only [LockedStore.statement, LockedStore.findOne]
    split
    · exact ⟨fun r' hr' => List.mem_singleton.mp hr' ▸ trivial, .inl rfl⟩
    · split
      · exact ⟨fun _ hr' => absurd hr' List.not_mem_nil, .inl rfl⟩
      · next user hfind =>
        split
        · exact ⟨fun _ hr' => absurd hr' List.not_mem_nil, .inl rfl⟩
        · next hself =>
          split
          · exact ⟨fun _ hr' => absurd hr' List.not_mem_nil, .inl rfl⟩
          · next hne =>
            -- the two checks that let the request through
            have hcase : user.role ≠ request.dto.role ∧ (user.id = request.actor.id → request.dto.role = .admin) :=
              ⟨hne, fun hid => not_not.mp fun hrole => hself ⟨hid, hrole⟩⟩
            split <;> exact ⟨fun r' hr' => List.mem_singleton.mp hr' ▸ hcase, .inl rfl⟩
  | count user dto actor =>
    simp only [LockedStore.statement, LockedStore.count]
    split
    · exact ⟨fun _ hr' => absurd hr' List.not_mem_nil, .inl rfl⟩
    · exact ⟨fun r' hr' => List.mem_singleton.mp hr' ▸ h, .inl rfl⟩
  | save user dto actor => exact ⟨fun r' hr' => List.mem_singleton.mp hr' ▸ h, .inl rfl⟩
  | commit user dto actor savedAt => exact ⟨fun _ hr' => absurd hr' List.not_mem_nil, .inr ⟨user, dto, actor, savedAt, rfl⟩⟩

/-- What holds in every interleaving of transactions. -/
structure TransactionsAudited (first : Nat → Role) (p : Pool LockedStore RoleTask) : Prop where
  held : RowsHeld p
  justified : ∀ a ∈ p.tasks, a.2.Justified
  registered : Registered first p.store.store
  audited : RolesAudited first p.store.store

/-- **One act.** A commit finds the row as its transaction has locked it. -/
theorem TransactionsAudited.step (h : TransactionsAudited first p) (act : Act RoleRequest Nat) :
    TransactionsAudited first (p.step roleTransactions act) := by
  have hjustified : ∀ a ∈ (p.step roleTransactions act).tasks, a.2.Justified := by
    refine Pool.tasks_step (J := fun _ r => RoleTask.Justified r) (fun _ _ => ?_) (fun i elapsed n r _ hi => ?_) h.justified
    · exact trivial
    have hr := h.justified (n, r) (List.mem_of_getElem? hi)
    exact ⟨(justified_statement (l := p.store.wait elapsed) hr).1,
      fun o ho => h.justified o (List.mem_of_mem_eraseIdx ho)⟩
  -- only a commit writes
  have hsame : Registered first (p.step roleTransactions act).store.store
      ∧ RolesAudited first (p.step roleTransactions act).store.store := by
    cases act with
    | start r => exact ⟨h.registered, h.audited⟩
    | run i elapsed =>
      cases hi : p.tasks[i]? with
      | none =>
        rw [Pool.step_run_none hi]
        exact ⟨h.registered, h.audited⟩
      | some a =>
        obtain ⟨n, r⟩ := a
        have hmem := List.mem_of_getElem? hi
        rw [Pool.step_run hi]
        have hregistered : Registered first (p.store.wait elapsed).store := ⟨h.registered.named, h.registered.students⟩
        have haudited : RolesAudited first (p.store.wait elapsed).store := ⟨h.audited.trail, h.audited.byOthers⟩
        rcases (justified_statement (l := p.store.wait elapsed) (h.justified _ hmem)).2 with hstore |
          ⟨user, dto, actor, savedAt, rfl⟩
        · show Registered first ((p.store.wait elapsed).statement r).store.store
            ∧ RolesAudited first ((p.store.wait elapsed).statement r).store.store
          rw [hstore]
          exact ⟨hregistered, haudited⟩
        · obtain ⟨hne, hself⟩ := h.justified _ hmem
          obtain ⟨hrow, -⟩ := h.held.row _ hmem user rfl
          have hstep := commitRole_roleStep (s := (p.store.wait elapsed).store) savedAt not_false hrow hne hself
          have hregistered' := hregistered.step hstep
          have haudited' := (rolesAudited_step hregistered haudited hstep).mpr not_false
          exact ⟨⟨hregistered'.named, hregistered'.students⟩, ⟨haudited'.trail, haudited'.byOthers⟩⟩
  exact ⟨h.held.step act, hjustified, hsame.1, hsame.2⟩

/-- **Concurrent changes of role.** In every interleaving of any `changeRole` transactions the audit leads from the first role
of each user to the present one. -/
theorem role_transactions_audited (s : Store) (haudits : s.userRoleAudits.rows = []) (acts : List (Act RoleRequest Nat)) :
    Always (Pool.step roleTransactions) (fun p => RolesAudited s.firstRole p.store.store) (.idle ⟨s, []⟩) acts := by
  have hstart : TransactionsAudited s.firstRole (.idle ⟨s, []⟩) :=
    ⟨.idle s, fun _ ha => absurd ha List.not_mem_nil, registered_start s haudits, rolesAudited_start s haudits⟩
  have halways : Always (Pool.step roleTransactions) (TransactionsAudited s.firstRole) (.idle ⟨s, []⟩) acts :=
    always_of_meets (c := fun _ _ => True) (fun act _ p h _ => h.step act) hstart (.of_forall (fun _ _ => trivial) _ _)
  exact halways.imp fun _ h => h.audited

end

/-- Two administrators demote each other. -/
theorem role_transactions_audited_overlapping :
    Always (Pool.step roleTransactions) (fun p => RolesAudited Sample.twoAdmins.firstRole p.store.store)
      (.idle ⟨Sample.twoAdmins, []⟩) Sample.overlapping :=
  role_transactions_audited Sample.twoAdmins rfl Sample.overlapping

end AcaSocial.Identity
