import AcaSocial.Base.RowLocks
import AcaSocial.Identity.Administrators

/-!
# Concurrent changes of role

`changeRole` is a transaction under READ COMMITTED. It locks the row of the user, counts the administrators
that are committed, saves the user and commits. It locks no other row, so the count can be out of date when
it commits.

* **`RoleTask`** — where a transaction is: a constructor is named after the statement that comes next.
* **`roleTransactions`** — the program. Its runs are the interleavings of any such transactions.
* **`Counted`** — a demotion is between its count and its commit.
* **`CommitsBetween`** — a demotion commits while another one is between the two.

`transaction_alone` says that a transaction that runs alone does what the service takes for one statement.
`administrator_kept` says that there is always an administrator when no demotion commits inside the window
between the count of another one and its commit. What a transaction has counted then still holds when it
commits, so its count is what keeps the last administrator.
-/

namespace AcaSocial.Identity

/-- What is committed, and the users whose rows are locked. -/
structure LockedStore where
  store : Store
  locks : List Nat

structure RoleRequest where
  id : Nat
  dto : ChangeUserRoleDto
  actor : User

inductive RoleTask where
  | findOne (request : RoleRequest)
  | count (user : User) (dto : ChangeUserRoleDto) (actor : User)
  | save (user : User) (dto : ChangeUserRoleDto) (actor : User)
  /-- What was saved at `savedAt` is committed. -/
  | commit (user : User) (dto : ChangeUserRoleDto) (actor : User) (savedAt : Time)

abbrev RoleStep := Effect LockedStore RoleTask (Except HttpException Reply)

namespace LockedStore

variable (s : LockedStore)

/-- Time passes. -/
def wait (elapsed : Nat) : LockedStore := { s with store := s.store.wait elapsed }

/-- The transaction goes on. -/
def go (t : RoleTask) : RoleStep := ⟨s, [t], none⟩

/-- The transaction ends and gives back the row that it has locked. -/
def finish (id : Nat) (r : Except HttpException Reply) : RoleStep :=
  ⟨{ s with locks := s.locks.erase id }, [], some r⟩

/-- The locking read. It waits for the row, and locks it if the transaction goes on. -/
def findOne (request : RoleRequest) : RoleStep :=
  if request.id ∈ s.locks then s.go (.findOne request)
  else match s.store.findUser (·.id = request.id) with
    | none => ⟨s, [], some (.error (.notFound "User not found"))⟩
    | some user =>
      if user.id = request.actor.id ∧ request.dto.role ≠ .admin then
        ⟨s, [], some (.error (.forbidden "Administrators cannot demote themselves"))⟩
      else if user.role = request.dto.role then ⟨s, [], some (.ok (.profile (getProfile user)))⟩
      else
        let s := { s with locks := user.id :: s.locks }
        if user.role = .admin ∧ request.dto.role ≠ .admin then s.go (.count user request.dto request.actor)
        else s.go (.save user request.dto request.actor)

/-- The count of the administrators that are committed. -/
def count (user : User) (dto : ChangeUserRoleDto) (actor : User) : RoleStep :=
  if s.store.admins ≤ 1 then
    s.finish user.id (.error (.forbidden "The system must retain at least one admin"))
  else s.go (.save user dto actor)

/-- What the transaction has saved at `savedAt` is committed. -/
def commitRole (user : User) (dto : ChangeUserRoleDto) (actor : User) (savedAt : Time) : RoleStep :=
  let saved := { s.store with now := savedAt }
  let committed := { UsersService.commitRole saved dto actor user with now := s.store.now }
  ({ s with store := committed } : LockedStore).finish user.id
    (.ok (.profile (getProfile (UsersService.withRole saved user dto.role))))

/-- The next statement of a transaction. -/
def statement : RoleTask → RoleStep
  | .findOne request => s.findOne request
  | .count user dto actor => s.count user dto actor
  | .save user dto actor => s.go (.commit user dto actor s.store.now)
  | .commit user dto actor savedAt => s.commitRole user dto actor savedAt

end LockedStore

/-- The transactions of `changeRole`. A statement runs some time after the one before it. -/
def roleTransactions : Program LockedStore RoleRequest RoleTask Nat (Except HttpException Reply) where
  enter := .findOne
  exec elapsed s t := (s.wait elapsed).statement t

/-- The row that a transaction has read and holds locked. -/
def RoleTask.held : RoleTask → Option User
  | .findOne _ => none
  | .count user _ _ | .save user _ _ | .commit user _ _ _ => some user

/-- The row whose lock a transaction holds. -/
def RoleTask.lock (t : RoleTask) : Option Nat := t.held.map User.id

/-- The transaction is about to commit a demotion. -/
def RoleTask.Demotes : RoleTask → Prop
  | .commit user dto _ _ => user.role = .admin ∧ dto.role ≠ .admin
  | _ => False

instance : DecidablePred RoleTask.Demotes
  | .findOne _ => .isFalse not_false
  | .count _ _ _ => .isFalse not_false
  | .save _ _ _ => .isFalse not_false
  | .commit user dto _ _ => inferInstanceAs (Decidable (user.role = .admin ∧ dto.role ≠ .admin))

/-- The transaction demotes an administrator. It has counted the administrators and not committed yet. -/
def RoleTask.Counted : RoleTask → Prop
  | .findOne _ | .count _ _ _ => False
  | .save user dto _ | .commit user dto _ _ => user.role = .admin ∧ dto.role ≠ .admin

instance : DecidablePred RoleTask.Counted
  | .findOne _ => .isFalse not_false
  | .count _ _ _ => .isFalse not_false
  | .save user dto _ => inferInstanceAs (Decidable (user.role = .admin ∧ dto.role ≠ .admin))
  | .commit user dto _ _ => inferInstanceAs (Decidable (user.role = .admin ∧ dto.role ≠ .admin))

/-- A demotion commits between the count and the commit of another one. -/
def CommitsBetween (_ : Nat) (_ : LockedStore) (t other : RoleTask) : Prop := t.Demotes ∧ other.Counted

instance (elapsed : Nat) (s : LockedStore) (t other : RoleTask) : Decidable (CommitsBetween elapsed s t other) :=
  inferInstanceAs (Decidable (t.Demotes ∧ other.Counted))

variable {s : LockedStore} {t : RoleTask} {p : Pool LockedStore RoleTask}

/-! ## One statement

The transaction locks the row of the user, counts the administrators and saves. -/

/-- The end of a transaction frees its row. -/
theorem lockStep_finish {id : Nat} {r : Except HttpException Reply} (hlock : t.lock = some id)
    {s' : LockedStore} (hlocks : s'.locks = s.locks) :
    LockStep LockedStore.locks RoleTask.lock s t (s'.finish id r) := by
  refine .release hlock rfl ?_
  show s'.locks.erase id = s.locks.erase id
  rw [hlocks]

/-- Every statement keeps to the discipline of locks. -/
theorem lockStep_statement (s : LockedStore) (t : RoleTask) :
    LockStep LockedStore.locks RoleTask.lock s t (s.statement t) := by
  cases t with
  | findOne request =>
    simp only [LockedStore.statement, LockedStore.findOne]
    split
    · exact .keep rfl rfl
    · next hfree =>
      split
      · exact .keep rfl rfl
      · next user hfind =>
        have hid : user.id = request.id := by simpa using (findUser_eq_some hfind).2.2
        split
        · exact .keep rfl rfl
        · split
          · exact .keep rfl rfl
          · split <;> exact .acquire rfl (hid ▸ hfree) rfl rfl
  | count user dto actor =>
    simp only [LockedStore.statement, LockedStore.count]
    split
    · exact lockStep_finish rfl rfl
    · exact .keep rfl rfl
  | save user dto actor => exact .keep rfl rfl
  | commit user dto actor savedAt => exact lockStep_finish rfl rfl

/-- Every statement asks for a lock, or leaves the locks. -/
theorem lockStep_exec (elapsed : Nat) (s : LockedStore) (t : RoleTask) :
    LockStep LockedStore.locks RoleTask.lock s t (roleTransactions.exec elapsed s t) := by
  -- the locks do not change while time passes
  cases lockStep_statement (s.wait elapsed) t with
  | keep hnext hlocks => exact .keep hnext hlocks
  | acquire hnone hfree hnext hlocks => exact .acquire hnone hfree hnext hlocks
  | release hheld hnext hlocks => exact .release hheld hnext hlocks

/-- A statement that is no commit leaves the users alone, and its transaction goes on with the row that it
held or has just read. -/
theorem users_statement (s : LockedStore) (t : RoleTask) :
    (¬ t.Demotes ∧ (s.statement t).store.store.users = s.store.users
      ∧ ∀ t' ∈ (s.statement t).next, ∀ user ∈ t'.held,
        user ∈ t.held ∨ s.store.users.get? user.id = some user ∧ user.deletedAt = none)
    ∨ ∃ user dto actor savedAt, t = .commit user dto actor savedAt ∧ (s.statement t).next = []
      ∧ (s.statement t).store.store.users
        = s.store.users.save (UsersService.withRole { s.store with now := savedAt } user dto.role) := by
  cases t with
  | findOne request =>
    refine .inl ⟨not_false, ?_⟩
    simp only [LockedStore.statement, LockedStore.findOne]
    split
    · refine ⟨rfl, fun t' ht' => ?_⟩
      rw [List.mem_singleton.mp ht']
      exact fun _ huser => (by cases huser)
    · split
      · exact ⟨rfl, fun _ ht' => absurd ht' List.not_mem_nil⟩
      · next user hfind =>
        -- the row that is locked is the row that was read
        have hread : s.store.users.get? user.id = some user ∧ user.deletedAt = none :=
          ⟨get?_of_findUser hfind, (findUser_eq_some hfind).2.1⟩
        split
        · exact ⟨rfl, fun _ ht' => absurd ht' List.not_mem_nil⟩
        · split
          · exact ⟨rfl, fun _ ht' => absurd ht' List.not_mem_nil⟩
          · split <;>
            · refine ⟨rfl, fun t' ht' user' huser' => .inr ?_⟩
              rw [List.mem_singleton.mp ht'] at huser'
              obtain rfl := Option.some.inj huser'
              exact hread
  | count user dto actor =>
    refine .inl ⟨not_false, ?_⟩
    simp only [LockedStore.statement, LockedStore.count]
    split
    · exact ⟨rfl, fun _ ht' => absurd ht' List.not_mem_nil⟩
    · refine ⟨rfl, fun t' ht' user' huser' => .inl ?_⟩
      rw [List.mem_singleton.mp ht'] at huser'
      exact huser'
  | save user dto actor =>
    refine .inl ⟨not_false, rfl, fun t' ht' user' huser' => .inl ?_⟩
    rw [List.mem_singleton.mp ht'] at huser'
    exact huser'
  | commit user dto actor savedAt => exact .inr ⟨user, dto, actor, savedAt, rfl, rfl, rfl⟩

/-- A transaction that runs alone leaves what `changeRole` leaves as one statement. -/
theorem transaction_alone (s : Store) (r : RoleRequest) :
    AcaSocial.run (Pool.step roleTransactions) (.idle ⟨s, []⟩) (.start r :: List.replicate 4 (.run 0 0))
      = ⟨⟨(UsersService.changeRole s r.id r.dto r.actor).store, []⟩, [], 1⟩ := by
  have hread : roleTransactions.exec 0 ⟨s, []⟩ (.findOne r) = LockedStore.findOne ⟨s, []⟩ r := rfl
  show AcaSocial.run (Pool.step roleTransactions) ⟨⟨s, []⟩, [(0, .findOne r)], 1⟩
    (List.replicate 4 (.run 0 0)) = _
  rw [List.replicate_succ, Pool.run_alone, hread, LockedStore.findOne, if_neg List.not_mem_nil,
    UsersService.changeRole]
  cases hfind : s.findUser (·.id = r.id) with
  | none => exact Pool.run_over _ 1 3 0
  | some user =>
    simp only
    by_cases hself : user.id = r.actor.id ∧ r.dto.role ≠ .admin
    · rw [if_pos hself, if_pos hself]
      exact Pool.run_over _ 1 3 0
    rw [if_neg hself, if_neg hself]
    by_cases hsame : user.role = r.dto.role
    · rw [if_pos hsame, if_pos hsame]
      exact Pool.run_over _ 1 3 0
    rw [if_neg hsame, if_neg hsame]
    -- the save and the commit give the lock back
    have herase : (user.id :: ([] : List Nat)).erase user.id = [] := List.erase_cons_head ..
    have hcommit : ∀ m, AcaSocial.run (Pool.step roleTransactions)
        ⟨⟨s, [user.id]⟩, [(0, .save user r.dto r.actor)], 1⟩ (.run 0 0 :: .run 0 0 :: List.replicate m (.run 0 0))
          = ⟨⟨UsersService.commitRole s r.dto r.actor user, []⟩, [], 1⟩ := by
      intro m
      rw [Pool.run_alone]
      show AcaSocial.run (Pool.step roleTransactions) ⟨⟨UsersService.commitRole s r.dto r.actor user,
        [user.id].erase user.id⟩, [], 1⟩ (List.replicate m (.run 0 0)) = _
      rw [herase]
      exact Pool.run_over _ 1 m 0
    by_cases hdemotes : user.role = .admin ∧ r.dto.role ≠ .admin
    · rw [if_pos hdemotes]
      show AcaSocial.run (Pool.step roleTransactions)
        ⟨⟨s, [user.id]⟩, [(0, .count user r.dto r.actor)], 1⟩ (List.replicate 3 (.run 0 0)) = _
      rw [List.replicate_succ, Pool.run_alone]
      have hcount : roleTransactions.exec 0 ⟨s, [user.id]⟩ (.count user r.dto r.actor)
          = LockedStore.count ⟨s, [user.id]⟩ user r.dto r.actor := rfl
      rw [hcount, LockedStore.count]
      by_cases hlast : s.admins ≤ 1
      · have hcase : user.role = .admin ∧ r.dto.role ≠ .admin
            ∧ s.users.rows.countP (fun u => u.deletedAt.isNone && u.role = .admin) ≤ 1 :=
          ⟨hdemotes.1, hdemotes.2, hlast⟩
        rw [if_pos hlast, if_pos hcase]
        show AcaSocial.run (Pool.step roleTransactions) ⟨⟨s, [user.id].erase user.id⟩, [], 1⟩
          (List.replicate 2 (.run 0 0)) = _
        rw [herase]
        exact Pool.run_over _ 1 2 0
      · rw [if_neg hlast, if_neg fun hcase => hlast hcase.2.2]
        exact hcommit 0
    · rw [if_neg hdemotes, if_neg fun hcase => hdemotes ⟨hcase.1, hcase.2.1⟩]
      exact hcommit 1

/-! ## The invariant

A transaction that has the row of a user has read it as it is stored. -/

/-- Each lock is held by one transaction, and a locked row is stored as its transaction has read it. -/
structure RowsHeld (p : Pool LockedStore RoleTask) : Prop where
  exclusive : p.Exclusive LockedStore.locks RoleTask.lock
  row : ∀ a ∈ p.tasks, ∀ user ∈ a.2.held,
    p.store.store.users.get? user.id = some user ∧ user.deletedAt = none

theorem RowsHeld.idle (s : Store) : RowsHeld (Pool.idle ⟨s, []⟩) :=
  ⟨.idle rfl, fun _ ha => absurd ha List.not_mem_nil⟩

/-- One statement keeps the rows that are held. -/
theorem RowsHeld.step (h : RowsHeld p) (act : Act RoleRequest Nat) :
    RowsHeld (p.step roleTransactions act) := by
  refine ⟨h.exclusive.step (fun _ => rfl) lockStep_exec act, ?_⟩
  cases act with
  | start r =>
    intro a ha
    rcases List.mem_append.mp ha with ha | ha
    · exact h.row a ha
    · rw [List.mem_singleton.mp ha]
      exact fun _ huser => (by cases huser)
  | run i elapsed =>
    cases hi : p.tasks[i]? with
    | none =>
      rw [Pool.step_run_none hi]
      exact h.row
    | some a =>
      obtain ⟨n, t⟩ := a
      have hsplit := Pool.perm_eraseIdx hi
      rw [Pool.step_run hi]
      intro a ha user huser
      show ((p.store.wait elapsed).statement t).store.store.users.get? user.id = some user ∧ _
      rcases users_statement (p.store.wait elapsed) t with
        ⟨-, husers, hnext⟩ | ⟨user', dto, actor, savedAt, rfl, hnext, husers⟩
      -- no row is written: what a task holds was held, or has been read now
      · rw [husers]
        rcases List.mem_append.mp ha with ha | ha
        · exact h.row a (hsplit.mem_iff.mpr (List.mem_cons_of_mem _ ha)) user huser
        · obtain ⟨t', ht', rfl⟩ := List.mem_map.mp ha
          rcases hnext t' ht' user huser with hsame | hread
          · exact h.row (n, t) (hsplit.mem_iff.mpr List.mem_cons_self) user hsame
          · exact hread
      · -- the commit writes a row that no other transaction holds
        have hrest : a ∈ p.tasks.eraseIdx i := by
          rcases List.mem_append.mp ha with ha | ha
          · exact ha
          · obtain ⟨t', ht', rfl⟩ := List.mem_map.mp ha
            have hnone : t' ∈ ([] : List RoleTask) := hnext ▸ ht'
            exact absurd hnone List.not_mem_nil
        have hother := h.exclusive.others hi rfl a hrest
        have hlock : a.2.lock = some user.id := congrArg (Option.map User.id) huser
        have hne : user'.id ≠ user.id := fun he => hother (hlock.trans (congrArg some he.symm))
        have hrow := h.row a (hsplit.mem_iff.mpr (List.mem_cons_of_mem _ hrest)) user huser
        refine ⟨?_, hrow.2⟩
        have hkeep := Table.get?_save_of_ne (t := p.store.store.users.toTable)
          (r := UsersService.withRole { p.store.store with now := savedAt } user' dto.role) hne
        rw [husers]
        exact hkeep.trans hrow.1

/-! ## The administrators

An administrator is left along every run in which no demotion commits after a count that is out of date. -/

/-- A commit of a demotion takes one administrator away. No other statement takes one away. -/
theorem admins_statement (hrow : ∀ user ∈ t.held, s.store.users.get? user.id = some user ∧ user.deletedAt = none) :
    (t.Demotes → (s.statement t).store.store.admins + 1 = s.store.admins)
      ∧ (¬ t.Demotes → s.store.admins ≤ (s.statement t).store.store.admins) := by
  rcases users_statement s t with ⟨hkeeps, husers, -⟩ | ⟨user, dto, actor, savedAt, rfl, -, husers⟩
  · have hsame : (s.statement t).store.store.admins = s.store.admins := by
      rw [admins_eq, admins_eq, husers]
    exact ⟨fun hdemotes => absurd hdemotes hkeeps, fun _ => Nat.le_of_eq hsame.symm⟩
  · obtain ⟨hrow, hlive⟩ := hrow user rfl
    have hsave := admins_save (s := s.store)
      (UsersService.withRole { s.store with now := savedAt } user dto.role) hrow husers
    have hold : user.liveAdmin = true ↔ user.role = .admin := by simp [User.liveAdmin, hlive]
    have hnew : (UsersService.withRole { s.store with now := savedAt } user dto.role).liveAdmin
        = true ↔ dto.role = .admin := by simp [User.liveAdmin, UsersService.withRole, hlive]
    simp only [hold, hnew] at hsave
    constructor
    · rintro ⟨hrole, hdto⟩
      rw [if_pos hrole, if_neg hdto] at hsave
      omega
    · intro hkeeps
      by_cases hrole : user.role = .admin
      · have hdto : dto.role = .admin := by_contra fun hdto => hkeeps ⟨hrole, hdto⟩
        rw [if_pos hrole, if_pos hdto] at hsave
        omega
      · rw [if_neg hrole] at hsave
        omega

/-- A demotion goes on past its count when there is a second administrator. -/
theorem counted_statement {t' : RoleTask} (ht' : t' ∈ (s.statement t).next) (hcounted : t'.Counted) :
    t.Counted ∨ 1 < s.store.admins := by
  cases t with
  | findOne request =>
    -- a demotion counts first, and any other change of role demotes nobody
    simp only [LockedStore.statement, LockedStore.findOne] at ht'
    split at ht'
    · rw [List.mem_singleton.mp ht'] at hcounted
      exact hcounted.elim
    · split at ht'
      · exact absurd ht' List.not_mem_nil
      · split at ht'
        · exact absurd ht' List.not_mem_nil
        · split at ht'
          · exact absurd ht' List.not_mem_nil
          · split at ht'
            · rw [List.mem_singleton.mp ht'] at hcounted
              exact hcounted.elim
            · next hkeeps =>
              rw [List.mem_singleton.mp ht'] at hcounted
              exact absurd hcounted hkeeps
  | count user dto actor =>
    simp only [LockedStore.statement, LockedStore.count] at ht'
    split at ht'
    · exact absurd ht' List.not_mem_nil
    · next hcount => exact .inr (Nat.lt_of_not_le hcount)
  | save user dto actor =>
    rw [List.mem_singleton.mp ht'] at hcounted
    exact .inl hcounted
  | commit user dto actor savedAt => exact absurd ht' List.not_mem_nil

/-- There is an administrator, and a second one while a demotion is between its count and its commit. -/
structure CountsHold (p : Pool LockedStore RoleTask) : Prop where
  held : RowsHeld p
  retained : 0 < p.store.store.admins
  second : ∀ a ∈ p.tasks, a.2.Counted → 1 < p.store.store.admins

/-- **One act.** What the transactions have counted still holds, unless a demotion commits inside the window
of another one. -/
theorem countsHold_step (h : CountsHold p) {act : Act RoleRequest Nat} (hapart : p.Apart CommitsBetween act) :
    CountsHold (p.step roleTransactions act) := by
  cases act with
  | start r =>
    refine ⟨h.held.step _, h.retained, fun a ha => ?_⟩
    rcases List.mem_append.mp ha with ha | ha
    · exact h.second a ha
    · rw [List.mem_singleton.mp ha]
      exact fun hcounted => hcounted.elim
  | run i elapsed =>
    have hheld := h.held.step (.run i elapsed)
    cases hi : p.tasks[i]? with
    | none =>
      rw [Pool.step_run_none hi]
      exact h
    | some a =>
      obtain ⟨n, t⟩ := a
      have hsplit := Pool.perm_eraseIdx hi
      have hown := hsplit.mem_iff.mpr (List.mem_cons_self (a := (n, t)))
      obtain ⟨htakes, hkeeps⟩ := admins_statement (s := p.store.wait elapsed) (t := t) (h.held.row _ hown)
      have hadmins : (p.store.wait elapsed).store.admins = p.store.store.admins := rfl
      rw [hadmins] at htakes hkeeps
      rw [Pool.step_run hi] at hheld ⊢
      by_cases hdemotes : t.Demotes
      · -- it has counted, and nobody else has
        have hcounted : t.Counted := by
          cases t with
          | commit user dto actor savedAt => exact hdemotes
          | _ => exact hdemotes.elim
        have hsecond := h.second (n, t) hown hcounted
        have hafter := htakes hdemotes
        refine ⟨hheld, ?_, fun a ha hother => ?_⟩
        · show 0 < ((p.store.wait elapsed).statement t).store.store.admins
          omega
        · rcases List.mem_append.mp ha with ha | ha
          · exact absurd ⟨hdemotes, hother⟩ (hapart n t hi a ha)
          · obtain ⟨t', ht', -⟩ := List.mem_map.mp ha
            cases t with
            | commit user dto actor savedAt => exact absurd ht' List.not_mem_nil
            | _ => exact hdemotes.elim
      -- any other statement leaves at least as many administrators
      · have hafter := hkeeps hdemotes
        refine ⟨hheld, Nat.lt_of_lt_of_le h.retained hafter, fun a ha hother => ?_⟩
        suffices hbefore : 1 < p.store.store.admins from Nat.lt_of_lt_of_le hbefore hafter
        rcases List.mem_append.mp ha with ha | ha
        · exact h.second a (hsplit.mem_iff.mpr (List.mem_cons_of_mem _ ha)) hother
        · obtain ⟨t', ht', rfl⟩ := List.mem_map.mp ha
          exact (counted_statement (s := p.store.wait elapsed) ht' hother).elim (h.second (n, t) hown) id

/-- **Concurrent changes of role.** In every interleaving of any `changeRole` transactions, from a state with
an administrator, there is one in every state when no demotion commits between the count of another one and
its commit. -/
theorem administrator_kept (s : Store) (hadmin : 0 < s.admins) (acts : List (Act RoleRequest Nat))
    (hapart : Meets (Pool.step roleTransactions) (fun p act => p.Apart CommitsBetween act) (.idle ⟨s, []⟩) acts) :
    Always (Pool.step roleTransactions) (fun p => 0 < p.store.store.admins) (.idle ⟨s, []⟩) acts := by
  have hcounts := always_of_meets (P := CountsHold) (fun _ _ _ hp hapart => countsHold_step hp hapart)
    ⟨.idle s, hadmin, fun _ ha => absurd ha List.not_mem_nil⟩ hapart
  exact hcounts.imp fun _ hp => hp.retained

namespace Sample

def deputy : User :=
  { administrator with id := 2, username := some "second_admin", email := "second@ptit.edu.vn" }

/-- Three users, of whom the last two are administrators. -/
def twoAdmins : Store :=
  { store with users := store.users.insert (fun id => { deputy with id }) fun _ => rfl }

def demotion (id : Nat) (actor : User) : RoleRequest := ⟨id, ⟨.student, "Graduated last term"⟩, actor⟩

/-- Two administrators demote each other, statement by statement in turn. -/
def overlapping : List (Act RoleRequest Nat) :=
  [.start (demotion 1 deputy), .start (demotion 2 administrator)] ++ List.replicate 8 (.run 0 10)

/-- The same with one transaction after the other. -/
def inTurn : List (Act RoleRequest Nat) :=
  .start (demotion 1 deputy) :: List.replicate 4 (.run 0 10)
    ++ .start (demotion 2 administrator) :: List.replicate 4 (.run 0 10)

end Sample

theorem administrator_kept_inTurn :
    Always (Pool.step roleTransactions) (fun p => 0 < p.store.store.admins) (.idle ⟨Sample.twoAdmins, []⟩)
      Sample.inTurn :=
  administrator_kept Sample.twoAdmins (by decide) Sample.inTurn (by decide)

/-- Both demotions count two administrators before either commits. -/
theorem not_administrator_kept :
    0 < Sample.twoAdmins.admins
      ∧ (AcaSocial.run (Pool.step roleTransactions) (.idle ⟨Sample.twoAdmins, []⟩) Sample.overlapping).tasks.isEmpty
      ∧ (AcaSocial.run (Pool.step roleTransactions) (.idle ⟨Sample.twoAdmins, []⟩)
        Sample.overlapping).store.store.admins = 0 := by
  decide

end AcaSocial.Identity
