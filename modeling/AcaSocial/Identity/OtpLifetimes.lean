import AcaSocial.Identity.OtpTasks

/-!
# The lives of a password and of its failures

A password lives for 300 or for 600 seconds, and the counter of its failures for 300 seconds from the last of them.
Verifications of a key come one after the other here.

* **`InTurn`** — a call of the key comes in when none is in flight.
* **`ShortLived`** — passwords of the key live for 300 seconds at most. Then their failures outlive them.
* **`otp_dies`** — in such runs, and in those whose failures are counted before the counter has expired, five wrong codes
  end the life of a password.
-/

namespace AcaSocial.Identity

def OtpRequest.key : OtpRequest → OtpKey
  | .createOtp key _ | .verifyOtp key _ => key

def OtpTask.key : OtpTask → OtpKey
  | .createOtp key _ | .verifyOtp _ key _ => key

/-- A call of the key comes in when no other one is in flight. -/
def InTurn (key : OtpKey) (q : Pool Store OtpTask × OtpLog) : Act OtpRequest OtpInput → Prop
  | .start r => r.key = key → ∀ a ∈ q.1.tasks, a.2.key ≠ key
  | .run _ _ => True

instance (key : OtpKey) (q : Pool Store OtpTask × OtpLog) : ∀ act, Decidable (InTurn key q act)
  | .start r => inferInstanceAs (Decidable (r.key = key → ∀ a ∈ q.1.tasks, a.2.key ≠ key))
  | .run _ _ => .isTrue trivial

/-- A password of the key that is asked for lives for 300 seconds at most. -/
def ShortLived (key : OtpKey) : Act OtpRequest OtpInput → Prop
  | .start (.createOtp k ttlSeconds) => k = key → ttlSeconds ≤ OtpService.lockoutSeconds
  | .start (.verifyOtp _ _) | .run _ _ => True

section

variable {key : OtpKey} {s s' : Store} {tasks tasks' rest : List (Nat × OtpTask)} {g : OtpLog} {n : Nat}

/-! ## One call at a time

No two checks of a key overlap. -/

/-- One call of the key is in flight at most. -/
def Alone (key : OtpKey) (tasks : List (Nat × OtpTask)) : Prop :=
  (tasks.filter fun a => decide (a.2.key = key)).length ≤ 1

/-- What a password has been compared with when it is found right, and from then on. -/
structure OtpSpent (key : OtpKey) (tasks : List (Nat × OtpTask)) (g : OtpLog) : Prop where
  alone : Alone key tasks
  accepted : ∀ i ∈ g.accepted, g.wrong.count i ≤ 4
  right : ∀ i, (i, true) ∈ tasks.filterMap (g.hand key) → g.wrong.count i ≤ 4

/-- A task has a code of its own key in hand. -/
theorem key_of_hand {a : Nat × OtpTask} {x : Nat × Bool} (h : g.hand key a = some x) : a.2.key = key := by
  unfold OtpLog.hand at h
  split at h
  · cases h
  · next he =>
    rw [he]
    split at h
    · next hk => exact hk
    · cases h

/-- Beside a call of the key no other one holds anything. -/
theorem Alone.hands {t : OtpTask} (h : Alone key ((n, t) :: rest)) (ht : t.key = key) :
    rest.filterMap (g.hand key) = [] := by
  have hown : (((n, t) :: rest).filter fun a => decide (a.2.key = key))
      = (n, t) :: rest.filter fun a => decide (a.2.key = key) := List.filter_cons_of_pos (decide_eq_true ht)
  unfold Alone at h
  rw [hown, List.length_cons] at h
  have hnone : (rest.filter fun a => decide (a.2.key = key)) = [] := List.length_eq_zero_iff.mp (by omega)
  refine List.filterMap_eq_nil_iff.mpr fun a ha => ?_
  cases hhand : g.hand key a with
  | none => rfl
  | some x =>
    have hin : a ∈ rest.filter fun a => decide (a.2.key = key) :=
      List.mem_filter.mpr ⟨ha, decide_eq_true (key_of_hand hhand)⟩
    rw [hnone] at hin
    exact absurd hin List.not_mem_nil

/-- The order of the tasks does not matter. -/
theorem Alone.perm (h : Alone key tasks) (hperm : tasks.Perm tasks') : Alone key tasks' := by
  unfold Alone at h ⊢
  rw [← (hperm.filter _).length_eq]
  exact h

/-- A call goes on as one call of its key. -/
theorem Alone.next {t : OtpTask} {next : List OtpTask} (h : Alone key ((n, t) :: rest)) (hone : next.length ≤ 1)
    (hkey : ∀ t' ∈ next, t'.key = t.key) : Alone key (next.map (Prod.mk n) ++ rest) := by
  unfold Alone at h ⊢
  match next with
  | [] =>
    refine Nat.le_trans ?_ h
    exact ((List.sublist_cons_self _ rest).filter _).length_le
  | [t'] =>
    show ((((n, t') :: rest).filter fun a => decide (a.2.key = key)).length ≤ 1)
    rw [List.filter_cons] at h ⊢
    rw [hkey t' (List.mem_singleton_self t')]
    split at h
    · next ht => exact (if_pos ht) ▸ h
    · next ht => exact (if_neg ht) ▸ h
  | _ :: _ :: _ => exact absurd hone (by simp)

/-- A call stays with its key. -/
theorem key_next {random : Nat} {t t' : OtpTask} (h : t' ∈ (otpStatement random s t).next) : t'.key = t.key := by
  cases t with
  | createOtp => exact absurd h List.not_mem_nil
  | verifyOtp point k otp =>
    obtain ⟨point', rfl⟩ := next_verifyOtp h
    rfl

/-- The code of a verification was right when its password is about to be deleted, and only then. -/
theorem right_of_hand {log : OtpLog} {a : Nat × OtpTask} {i : Nat} (h : log.hand key a = some (i, true)) :
    (∃ otp, a.2 = .verifyOtp .delOtp key otp) ∧ i = log.read a.1 := by
  obtain ⟨m, t⟩ := a
  have hkey := key_of_hand h
  cases t with
  | createOtp => cases h
  | verifyOtp point k otp =>
    obtain rfl : k = key := hkey
    have h : point.outcome.map (fun right => (log.read m, right)) = some (i, true) := (if_pos rfl).symm.trans h
    obtain ⟨right, hright, he⟩ := Option.map_eq_some_iff.mp h
    cases he
    cases point with
    | delOtp => exact ⟨⟨otp, rfl⟩, rfl⟩
    | existsLock | ttlLock | getOtp => cases hright
    | incrFail | expireFail | setLock => cases hright

/-- **What a command keeps** of the passwords that are found right. -/
theorem OtpSpent.statement {t : OtpTask} (random : Nat) (h : OtpSpent key ((n, t) :: rest) g)
    (hsafe : OtpSafe key s ((n, t) :: rest) g) :
    OtpSpent key ((otpStatement random s t).next.map (Prod.mk n) ++ rest) (OtpLog.note key s n t g) := by
  have halone : Alone key ((otpStatement random s t).next.map (Prod.mk n) ++ rest) :=
    h.alone.next (next_otpCalls ⟨0, random⟩ s t) fun t' ht' => key_next ht'
  by_cases hkey : t.key = key
  case neg =>
    have hnote : (OtpLog.note key s n t g) = g := by
      cases t with
      | createOtp => exact if_neg hkey
      | verifyOtp => exact if_neg hkey
    rw [hnote]
    refine ⟨halone, h.accepted, fun i hi => ?_⟩
    obtain ⟨a, ha, hhand⟩ := List.mem_filterMap.mp hi
    rcases List.mem_append.mp ha with ha | ha
    · obtain ⟨t', ht', rfl⟩ := List.mem_map.mp ha
      exact absurd ((key_next ht').symm.trans (key_of_hand hhand)) hkey
    · exact h.right i (List.mem_filterMap.mpr ⟨a, List.mem_cons_of_mem _ ha, hhand⟩)
  case pos =>
    -- only this call can have found a code right
    have hrest : ∀ log : OtpLog, rest.filterMap (log.hand key) = [] := fun log => h.alone.hands hkey
    have hright : ∀ i, (i, true) ∈ ((otpStatement random s t).next.map (Prod.mk n) ++ rest).filterMap
        ((OtpLog.note key s n t g).hand key) →
        (∃ otp, .verifyOtp .delOtp key otp ∈ (otpStatement random s t).next) ∧ i = (OtpLog.note key s n t g).read n := by
      intro i hi
      rw [List.filterMap_append, hrest, List.append_nil] at hi
      obtain ⟨a, ha, hhand⟩ := List.mem_filterMap.mp hi
      obtain ⟨t', ht', rfl⟩ := List.mem_map.mp ha
      obtain ⟨⟨otp, rfl⟩, hread⟩ := right_of_hand hhand
      exact ⟨⟨otp, ht'⟩, hread⟩
    cases t with
    | createOtp k ttlSeconds =>
      have hnote : OtpLog.note key s n (.createOtp k ttlSeconds) g = { g with issues := g.issues + 1 } := if_pos hkey
      rw [hnote] at hright ⊢
      exact ⟨halone, h.accepted, fun i hi => absurd (hright i hi).1 (by rintro ⟨_, hin⟩; exact List.not_mem_nil hin)⟩
    | verifyOtp point k otp =>
      obtain rfl : k = key := hkey
      have hnote : OtpLog.note k s n (.verifyOtp point k otp) g = _ := if_pos rfl
      rw [hnote] at hright ⊢
      cases point with
      | existsLock =>
        refine ⟨halone, h.accepted, fun i hi => absurd (hright i hi).1 fun hwithin => ?_⟩
        obtain ⟨_, hin⟩ := hwithin
        have he := List.mem_singleton.mp hin
        split at he <;> cases he
      | ttlLock | setLock =>
        exact ⟨halone, h.accepted, fun i hi => absurd (hright i hi).1 (by rintro ⟨_, hin⟩; exact List.not_mem_nil hin)⟩
      | incrFail =>
        exact ⟨halone, h.accepted, fun i hi => absurd (hright i hi).1 (by rintro ⟨_, hin⟩; cases List.mem_singleton.mp hin)⟩
      | expireFail fails =>
        refine ⟨halone, h.accepted, fun i hi => absurd (hright i hi).1 fun hwithin => ?_⟩
        obtain ⟨_, hin⟩ := hwithin
        unfold otpStatement OtpService.verifyOtp at hin
        dsimp only at hin
        split at hin
        · next he => split at he <;> cases he; cases List.mem_singleton.mp hin
        · exact absurd hin List.not_mem_nil
        · exact absurd hin List.not_mem_nil
      | delOtp =>
        refine ⟨halone, fun i hi => ?_, fun i hi => absurd (hright i hi).1 (by rintro ⟨_, hin⟩; exact List.not_mem_nil hin)⟩
        rcases List.mem_cons.mp hi with rfl | hi
        · have hown : g.hand k (n, .verifyOtp .delOtp k otp) = some (g.read n, true) := if_pos rfl
          exact h.right _ (List.mem_filterMap.mpr ⟨_, List.mem_cons_self, hown⟩)
        · exact h.accepted i hi
      | getOtp =>
        cases hget : s.redis.otp.get? s.now k with
        | none =>
          simp only [hget] at hright ⊢
          refine ⟨halone, h.accepted, fun i hi => absurd (hright i hi).1 fun hwithin => ?_⟩
          obtain ⟨_, hin⟩ := hwithin
          simp [otpStatement, OtpService.verifyOtp, hget] at hin
        | some stored =>
          have hotp : HasOtp s k := fun hnone => (by cases hget.symm.trans hnone)
          have hnone : (g.issues, false) ∉ ((n, OtpTask.verifyOtp .getOtp k otp) :: rest).filterMap (g.hand k) := by
            have hown : g.hand k (n, .verifyOtp .getOtp k otp) = none := if_pos rfl
            rw [List.filterMap_cons_none hown, hrest]
            exact List.not_mem_nil
          have hfour := (hsafe.settled hotp hnone).1
          simp only [hget] at hright ⊢
          by_cases hsame : stored = otp
          · simp only [ne_eq, hsame, not_true_eq_false, if_false] at hright ⊢
            refine ⟨halone, h.accepted, fun i hi => ?_⟩
            rw [(hright i hi).2]
            show g.wrong.count (Function.update g.read n g.issues n) ≤ 4
            rw [Function.update_self]
            exact hfour
          · simp only [ne_eq, hsame, not_false_eq_true, if_true] at hright ⊢
            refine ⟨halone, fun i hi => ?_, fun i hi => absurd (hright i hi).1 fun hwithin => ?_⟩
            · have hne : i ≠ g.issues := fun he => hsafe.fresh hotp (he ▸ hi)
              show (g.issues :: g.wrong).count i ≤ 4
              rw [List.count_cons_of_ne (Ne.symm hne)]
              exact h.accepted i hi
            · obtain ⟨_, hin⟩ := hwithin
              simp [otpStatement, OtpService.verifyOtp, hget, hsame] at hin

/-! ## One life beside the other

The counter of wrong codes lives as long as the lock does, or shorter. -/

/-- The failures of the key outlive its password. -/
structure Outlived (key : OtpKey) (s : Store) : Prop where
  otp : ∀ e ∈ s.redis.otp key, ∃ d, e.deadline = some d ∧ d ≤ OtpService.deadline s OtpService.lockoutSeconds
    ∧ ∀ e' ∈ s.redis.otpFail key, ∀ d', e'.deadline = some d' → d ≤ d'

/-- So no failure is counted after the counter has expired. -/
theorem Outlived.counted (h : Outlived key s) (t : OtpTask) : Counted key s t := by
  cases t with
  | createOtp => trivial
  | verifyOtp point k otp =>
    cases point with
    | incrFail =>
      intro _ hotp e he d' hd'
      obtain ⟨stored, hstored⟩ := Option.ne_none_iff_exists'.mp hotp
      obtain ⟨row, hrow, hlive, -⟩ := Keyspace.get?_eq_some.mp hstored
      obtain ⟨d, hd, -, hle⟩ := h.otp row hrow
      exact Nat.lt_of_lt_of_le (hlive d hd) (hle e he d' hd')
    | existsLock | ttlLock | getOtp => trivial
    | expireFail | setLock | delOtp => trivial

/-- Time keeps the order of the lives. -/
theorem Outlived.wait (h : Outlived key s) (elapsed : Nat) : Outlived key (s.wait elapsed) := by
  refine ⟨fun e he => ?_⟩
  obtain ⟨d, hd, hle, hfail⟩ := h.otp e he
  exact ⟨d, hd, Nat.le_trans hle (Nat.add_le_add_right (Nat.le_add_right _ _) _), hfail⟩

/-- The password stays or goes, and a counter that is left has its deadline or a late one. -/
theorem Outlived.keep (h : Outlived key s) (hnow : s'.now = s.now)
    (hotp : ∀ e ∈ s'.redis.otp key, e ∈ s.redis.otp key)
    (hfail : ∀ e' ∈ s'.redis.otpFail key, ∀ d', e'.deadline = some d' →
      (∃ e ∈ s.redis.otpFail key, e.deadline = some d') ∨ OtpService.deadline s OtpService.lockoutSeconds ≤ d') :
    Outlived key s' := by
  refine ⟨fun e he => ?_⟩
  obtain ⟨d, hd, hle, hold⟩ := h.otp e (hotp e he)
  refine ⟨d, hd, ?_, fun e' he' d' hd' => ?_⟩
  · unfold OtpService.deadline at hle ⊢
    rw [hnow]
    exact hle
  · rcases hfail e' he' d' hd' with ⟨e'', he'', hd''⟩ | hlate
    · exact hold e'' he'' d' hd''
    · exact Nat.le_trans hle hlate

/-- The commands of a verification are like that. -/
theorem Outlived.verifyOtp (h : Outlived key s) (k : OtpKey) (otp : String) (point : OtpPoint) :
    Outlived key (OtpService.verifyOtp s k otp point).1 := by
  -- deleting makes no entry
  have hdel : ∀ {ν : Type} (m : Keyspace OtpKey ν), ∀ e ∈ m.del k key, e ∈ m key := by
    intro ν m e he
    by_cases hk : key = k
    · subst hk
      rw [Option.mem_def, Keyspace.del, Function.update_self] at he
      cases he
    · rw [Keyspace.del, Function.update_of_ne hk] at he
      exact he
  cases point with
  | existsLock => exact h
  | ttlLock => exact h
  | getOtp =>
    simp only [OtpService.verifyOtp]
    split <;> exact h
  -- `INCR` keeps the deadline
  | incrFail =>
    refine h.keep rfl (fun _ he => he) fun e' he' d' hd' => .inl ?_
    by_cases hk : key = k
    · subst hk
      rcases Keyspace.deadline_incr he' with hnone | ⟨e, he, hsame⟩
      · cases hnone.symm.trans hd'
      · exact ⟨e, he, hsame.symm.trans hd'⟩
    · exact ⟨e', (Keyspace.incr_of_ne hk).symm.trans he', hd'⟩
  -- and `EXPIRE` sets one that is not later
  | expireFail fails =>
    refine h.keep rfl (fun _ he => he) fun e' he' d' hd' => ?_
    by_cases hk : key = k
    · subst hk
      rcases Keyspace.deadline_expire he' with hnew | he
      · exact .inr (Nat.le_of_eq (Option.some.inj (hnew.symm.trans hd')))
      · exact .inl ⟨e', he, hd'⟩
    · exact .inl ⟨e', (Keyspace.expire_of_ne hk).symm.trans he', hd'⟩
  | setLock => exact h.keep rfl (hdel _) fun e' he' d' hd' => .inl ⟨e', hdel _ e' he', hd'⟩
  | delOtp => exact h.keep rfl (hdel _) fun e' he' d' hd' => .inl ⟨e', hdel _ e' he', hd'⟩

/-- **What a command keeps** of the lives, when it issues no password that lives longer. -/
theorem Outlived.statement {t : OtpTask} (random : Nat) (h : Outlived key s)
    (ht : ∀ ttlSeconds, t = .createOtp key ttlSeconds → ttlSeconds ≤ OtpService.lockoutSeconds) :
    Outlived key (otpStatement random s t).store := by
  cases t with
  | verifyOtp point k otp =>
    rw [store_verifyOtp]
    exact h.verifyOtp k otp point
  | createOtp k ttlSeconds =>
    by_cases hk : key = k
    · subst hk
      refine ⟨fun e he => ?_⟩
      have he : e ∈ s.redis.otp.setEx key _ (OtpService.deadline s ttlSeconds) key := he
      rw [Keyspace.setEx, Function.update_self] at he
      -- the new password, whose counter is deleted with it
      cases Option.some.inj he
      refine ⟨_, rfl, ?_, fun e' he' => ?_⟩
      · have hshort := ht ttlSeconds rfl
        exact Nat.add_le_add_left (Nat.mul_le_mul_left 1000 hshort) s.now
      · have he' : e' ∈ s.redis.otpFail.del key key := he'
        rw [Keyspace.del, Function.update_self] at he'
        cases he'
    -- a password of another key
    · have hother : ∀ {ν : Type} (m : Keyspace OtpKey ν) (x : Option (Entry ν)), Function.update m k x key = m key :=
        fun m x => Function.update_of_ne hk x m
      refine h.keep rfl (fun e he => ?_) fun e' he' d' hd' => .inl ⟨e', ?_, hd'⟩
      · rw [← hother s.redis.otp]
        exact he
      · rw [← hother s.redis.otpFail]
        exact he'

end

/-! ## Runs

Along such a run a code that was given up is not accepted any more. -/

/-- When five wrong codes have been compared with a password, none is compared any more, and it is not accepted. -/
structure OtpDies (g : OtpLog) : Prop where
  five : ∀ i, g.wrong.count i ≤ 5
  dead : ∀ i, g.wrong.count i = 5 → i ∉ g.accepted

/-- **Calls in turn** keep what is kept, when failures are counted. -/
theorem otpSpent_observe {key : OtpKey} {q : Pool Store OtpTask × OtpLog} {act : Act OtpRequest OtpInput}
    (hholds : OtpHolds key q) (hspent : OtpSpent key q.1.tasks q.2) (hturn : InTurn key q act)
    (hcounted : OtpMeets (fun s _ _ t => Counted key s t) q act) :
    OtpHolds key (observeOtp key q act) ∧ OtpSpent key (observeOtp key q act).1.tasks (observeOtp key q act).2 := by
  obtain ⟨p, g⟩ := q
  -- calls in turn do not overlap
  have hno : OtpMeets (fun s others g t => NoOverlap key s others g t ∧ Counted key s t) (p, g) act := by
    cases act with
    | start => trivial
    | run i x =>
      intro a ha
      refine ⟨?_, hcounted a ha⟩
      have halone : Alone key ((a.1, a.2) :: p.tasks.eraseIdx i) := hspent.alone.perm (Pool.perm_eraseIdx ha)
      match ht : a.2 with
      | .verifyOtp .getOtp k otp =>
        intro hk stored _
        rw [halone.hands (by rw [ht]; exact hk)]
        exact List.not_mem_nil
      | .createOtp _ _ | .verifyOtp .existsLock _ _ | .verifyOtp .ttlLock _ _ | .verifyOtp .incrFail _ _
      | .verifyOtp (.expireFail _) _ _ | .verifyOtp .setLock _ _ | .verifyOtp .delOtp _ _ => trivial
  refine ⟨otpHolds_observe hholds hno, ?_⟩
  cases act with
  | start r =>
    refine ⟨?_, hspent.accepted, fun i hi => hspent.right i ?_⟩
    · show Alone key (p.tasks ++ [(p.requests, otpCalls.enter r)])
      have hkey : (otpCalls.enter r).key = r.key := by cases r <;> rfl
      unfold Alone
      rw [List.filter_append, List.length_append]
      -- a call of the key enters only when no other is in flight
      by_cases hk : r.key = key
      · have hnone : (p.tasks.filter fun a => decide (a.2.key = key)) = [] :=
          List.filter_eq_nil_iff.mpr fun a ha => by simpa using hturn hk a ha
        rw [hnone]
        exact Nat.le_trans (Nat.le_of_eq (Nat.zero_add _)) (List.length_filter_le _ _)
      · have hnone : ([(p.requests, otpCalls.enter r)].filter fun a => decide (a.2.key = key)) = [] :=
          List.filter_eq_nil_iff.mpr fun a ha => by
            rw [List.mem_singleton.mp ha]
            simpa [hkey] using hk
        rw [hnone]
        exact hspent.alone
    · have hhands := hands_start key g p.tasks p.requests r
      exact hhands ▸ hi
  | run i x =>
    cases hi : p.tasks[i]? with
    | none =>
      have hsame : observeOtp key (p, g) (.run i x) = (p, g) := Pool.observe_run_none hi
      rw [hsame]
      exact hspent
    | some a =>
      obtain ⟨n, t⟩ := a
      have hsplit : OtpSpent key ((n, t) :: p.tasks.eraseIdx i) g := by
        have hperm := Pool.perm_eraseIdx hi
        exact ⟨hspent.alone.perm hperm, hspent.accepted,
          fun i hi => hspent.right i ((hperm.filterMap _).mem_iff.mpr hi)⟩
      have hsafe := (hholds.2.wait x.elapsed).perm (Pool.perm_eraseIdx hi)
      have hnext := hsplit.statement x.random hsafe
      have hstep : observeOtp key (p, g) (.run i x)
          = (p.step otpCalls (.run i x), OtpLog.note key (p.store.wait x.elapsed) n t g) := Pool.observe_run hi
      rw [hstep, Pool.step_run hi]
      refine ⟨hnext.alone.perm List.perm_append_comm, hnext.accepted, fun i hi => hnext.right i ?_⟩
      exact (List.perm_append_comm.filterMap _).mem_iff.mp hi

/-- What is kept of the lives, and of the calls that ask for passwords. -/
def Lives (key : OtpKey) (p : Pool Store OtpTask) : Prop :=
  Outlived key p.store
    ∧ ∀ a ∈ p.tasks, ∀ ttlSeconds, a.2 = .createOtp key ttlSeconds → ttlSeconds ≤ OtpService.lockoutSeconds

/-- One command keeps it. -/
theorem lives_observe {key : OtpKey} {q : Pool Store OtpTask × OtpLog} {act : Act OtpRequest OtpInput}
    (hq : Lives key q.1) (hshort : ShortLived key act) : Lives key (observeOtp key q act).1 := by
  obtain ⟨p, g⟩ := q
  obtain ⟨hout, hasks⟩ := hq
  refine Pool.observe_cases (P := fun q => Lives key q.1) ⟨hout, hasks⟩ (fun r he => ?_) fun i x n t _ hi => ?_
  · refine ⟨hout, fun a ha ttlSeconds ht => ?_⟩
    rcases List.mem_append.mp ha with ha | ha
    · exact hasks a ha ttlSeconds ht
    -- the request that starts asks for no longer life
    · rw [List.mem_singleton.mp ha] at ht
      subst he
      cases r with
      | createOtp k ttl =>
        cases ht
        exact hshort rfl
      | verifyOtp => cases ht
  · have hsplit := Pool.perm_eraseIdx hi
    refine ⟨?_, fun a ha ttlSeconds ht => ?_⟩
    · exact (hout.wait x.elapsed).statement x.random
        (hasks (n, t) (hsplit.mem_iff.mpr List.mem_cons_self))
    · rcases List.mem_append.mp ha with ha | ha
      · exact hasks a (hsplit.mem_iff.mpr (List.mem_cons_of_mem _ ha)) ttlSeconds ht
      · -- no call goes on as one that asks for a password
        obtain ⟨t', ht', rfl⟩ := List.mem_map.mp ha
        cases t with
        | createOtp => exact absurd ht' List.not_mem_nil
        | verifyOtp point k otp =>
          have hin : t' ∈ (otpStatement x.random (p.store.wait x.elapsed) (.verifyOtp point k otp)).next := ht'
          obtain ⟨point', rfl⟩ := next_verifyOtp hin
          cases ht

/-- **A password dies after five wrong codes** in a run of calls in turn, if it lives for 300 seconds at most, or else if
every failure is counted before the counter of the failures before it has expired. -/
theorem otp_dies (key : OtpKey) (acts : List (Act OtpRequest OtpInput))
    (hturn : Meets (observeOtp key) (InTurn key) (Pool.idle Store.empty, {}) acts)
    (hlives : (∀ act ∈ acts, ShortLived key act)
      ∨ Meets (observeOtp key) (OtpMeets fun s _ _ t => Counted key s t) (Pool.idle Store.empty, {}) acts) :
    Always (observeOtp key) (fun q => OtpDies q.2) (Pool.idle Store.empty, {}) acts := by
  have hcounted : Meets (observeOtp key) (OtpMeets fun s _ _ t => Counted key s t) (Pool.idle Store.empty, {}) acts := by
    rcases hlives with hshort | hcounted
    · have hstart : Lives key (Pool.idle Store.empty : Pool Store OtpTask) :=
        ⟨⟨fun _ he => (by cases he)⟩, fun _ ha => absurd ha List.not_mem_nil⟩
      have hall : Always (observeOtp key) (fun q => Lives key q.1) (Pool.idle Store.empty, {}) acts :=
        always_of_meets (c := fun _ _ => True) (fun act hact q hq _ => lives_observe hq (hshort act hact)) hstart
          (.of_forall (fun _ _ => trivial) _ _)
      refine hall.meets fun q act hq => ?_
      cases act with
      | start => trivial
      | run i x => exact fun a _ => (hq.1.wait x.elapsed).counted a.2
    · exact hcounted
  have hboth : Meets (observeOtp key) (fun q act => InTurn key q act ∧ OtpMeets (fun s _ _ t => Counted key s t) q act)
      (Pool.idle Store.empty, {}) acts := hturn.and hcounted
  have hstart : OtpHolds key (Pool.idle Store.empty, {}) ∧ OtpSpent key [] {} :=
    ⟨otpHolds_idle key, Nat.zero_le 1, fun _ hi => absurd hi List.not_mem_nil, fun _ hi => absurd hi List.not_mem_nil⟩
  have hall := always_of_meets (P := fun q => OtpHolds key q ∧ OtpSpent key q.1.tasks q.2)
    (fun act _ q hq hact => otpSpent_observe hq.1 hq.2 hact.1 hact.2) hstart hboth
  refine hall.imp fun q hq => ⟨hq.1.2.five, fun i hi hacc => ?_⟩
  have hfour := hq.2.accepted i hacc
  omega

namespace Sample

/-- A verification with a wrong code, some time after what was before. -/
def wrongGuess (elapsed : Nat) : List (Act OtpRequest OtpInput) :=
  [.start (.verifyOtp otpKey "000000"), .run 0 ⟨elapsed, 0⟩, command 0, command 0, command 0]

/-- A code that lives for ten minutes, and four wrong guesses at its beginning and after five minutes each. -/
def spacedGuesses : List (Act OtpRequest OtpInput) :=
  [.start (.createOtp otpKey 600), command 0] ++ wrongGuess 1 ++ wrongGuess 1 ++ wrongGuess 1 ++ wrongGuess 1
    ++ wrongGuess 300000 ++ wrongGuess 1 ++ wrongGuess 1 ++ wrongGuess 1

end Sample

theorem otp_dies_one_after_the_other :
    Always (observeOtp Sample.otpKey) (fun q => OtpDies q.2) (Pool.idle Store.empty, {}) Sample.oneAfterTheOther :=
  otp_dies Sample.otpKey Sample.oneAfterTheOther (by decide) (.inr (by decide))

/-- Eight wrong codes are compared with a password, one call after the other. -/
theorem not_otp_dies :
    Meets (observeOtp Sample.otpKey) (InTurn Sample.otpKey) (Pool.idle Store.empty, {}) Sample.spacedGuesses
      ∧ (run (observeOtp Sample.otpKey) (Pool.idle Store.empty, {}) Sample.spacedGuesses).2.wrong.count 1 = 8 := by
  constructor
  · decide
  · decide

end AcaSocial.Identity
