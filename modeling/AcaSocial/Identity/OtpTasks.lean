import AcaSocial.Base.Tasks
import AcaSocial.Identity.OtpService

/-!
# Verifications of one-time passwords beside each other

A verification reads the password in one command, and counts a failure or deletes the password in others. Between two
of its commands those of other verifications run, and time passes.

* **`otpCalls`** — calls of `createOtp` and `verifyOtp`, command by command.
* **`OtpLog`** — what an observer of one key notes: which password a verification has read, when it returned true, and
  when it compared a wrong code.
* **`NoOverlap`** — a verification reads no password that another one in flight has read with the same outcome.
* **`Counted`** — no failure is counted after the counter of the failures before it has expired.
* **`otp_used_once`** — in runs like that a password is accepted once, and wrong codes are compared with it five times.
-/

namespace AcaSocial.Identity

/-! ## Calls

The calls that create and check a code, with the commands that each of them sends. -/

inductive OtpRequest where
  | createOtp (key : OtpKey) (ttlSeconds : Nat)
  | verifyOtp (key : OtpKey) (otp : String)

inductive OtpTask where
  | createOtp (key : OtpKey) (ttlSeconds : Nat)
  | verifyOtp (point : OtpPoint) (key : OtpKey) (otp : String)

/-- The time before a command, and the random number that a new code is made of. -/
structure OtpInput where
  elapsed : Nat
  random : Nat := 0

/-- The next command of a call. -/
def otpStatement (random : Nat) (s : Store) : OtpTask → Effect Store OtpTask (Except HttpException (Option Bool))
  | .createOtp key ttlSeconds =>
    ⟨OtpService.createOtp s key (OtpService.generateCode random) ttlSeconds, [], some (.ok none)⟩
  | .verifyOtp point key otp =>
    match OtpService.verifyOtp s key otp point with
    | (s, .next point) => ⟨s, [.verifyOtp point key otp], none⟩
    | (s, .return valid) => ⟨s, [], some (.ok (some valid))⟩
    | (s, .throw e) => ⟨s, [], some (.error e)⟩

/-- Calls of the service, with time passing before each command. -/
def otpCalls : Program Store OtpRequest OtpTask OtpInput (Except HttpException (Option Bool)) where
  enter
    | .createOtp key ttlSeconds => .createOtp key ttlSeconds
    | .verifyOtp key otp => .verifyOtp .existsLock key otp
  exec x s := otpStatement x.random (s.wait x.elapsed)

/-- What a verification that has compared its code goes on with: that it was right, or that it was wrong. -/
def OtpPoint.outcome : OtpPoint → Option Bool
  | .existsLock | .ttlLock | .getOtp => none
  | .incrFail | .expireFail _ | .setLock => some false
  | .delOtp => some true

/-- What an observer of one key notes. Passwords are numbered as `createOtp` issues them, from one on. -/
structure OtpLog where
  issues : Nat := 0
  /-- The password that a verification has read, by the number of its request. -/
  read : Nat → Nat := fun _ => 0
  /-- The passwords for which `verifyOtp` returned true. -/
  accepted : List Nat := []
  /-- The passwords with which a wrong code was compared. -/
  wrong : List Nat := []

namespace OtpLog

variable (key : OtpKey)

/-- The password that a verification of the key has compared its code with, and how that ended. -/
def hand (g : OtpLog) (a : Nat × OtpTask) : Option (Nat × Bool) :=
  match a.2 with
  | .createOtp _ _ => none
  | .verifyOtp point k _ => if k = key then point.outcome.map fun right => (g.read a.1, right) else none

def note (s : Store) (n : Nat) : OtpTask → OtpLog → OtpLog
  | .createOtp k _, g => if k = key then { g with issues := g.issues + 1 } else g
  | .verifyOtp point k otp, g =>
    if k = key then
      match point with
      | .getOtp =>
        match s.redis.otp.get? s.now k with
        | none => g
        | some stored => { g with
            read := Function.update g.read n g.issues
            wrong := if stored ≠ otp then g.issues :: g.wrong else g.wrong }
      | .delOtp => { g with accepted := g.read n :: g.accepted }
      | _ => g
    else g

end OtpLog

/-- The calls with an observer of one key. -/
def observeOtp (key : OtpKey) : Pool Store OtpTask × OtpLog → Act OtpRequest OtpInput → Pool Store OtpTask × OtpLog :=
  Pool.observe otpCalls fun x s => OtpLog.note key (s.wait x.elapsed)

section

variable (key : OtpKey) (s : Store) (others : List (Nat × OtpTask)) (g : OtpLog)

/-- A verification that compares its code meets none that has read the same password with the same outcome. -/
def NoOverlap : OtpTask → Prop
  | .verifyOtp .getOtp k otp =>
    k = key → ∀ stored ∈ s.redis.otp.get? s.now key, (g.issues, decide (stored = otp)) ∉ others.filterMap (g.hand key)
  | _ => True

/-- A failure is counted before the counter has expired, while there is a password. -/
def Counted : OtpTask → Prop
  | .verifyOtp .incrFail k _ =>
    k = key → s.redis.otp.get? s.now key ≠ none → ∀ e ∈ s.redis.otpFail key, e.Live s.now
  | _ => True

instance : ∀ t, Decidable (NoOverlap key s others g t)
  | .verifyOtp .getOtp _ _ => inferInstanceAs (Decidable (_ = _ → ∀ stored ∈ s.redis.otp.get? s.now key, _))
  | .createOtp _ _ | .verifyOtp .existsLock _ _ | .verifyOtp .ttlLock _ _ | .verifyOtp .incrFail _ _
  | .verifyOtp (.expireFail _) _ _ | .verifyOtp .setLock _ _ | .verifyOtp .delOtp _ _ => .isTrue trivial

instance : ∀ t, Decidable (Counted key s t)
  | .verifyOtp .incrFail _ _ => inferInstanceAs (Decidable (_ = _ → _ ≠ _ → ∀ e ∈ s.redis.otpFail key, _))
  | .createOtp _ _ | .verifyOtp .existsLock _ _ | .verifyOtp .ttlLock _ _ | .verifyOtp .getOtp _ _
  | .verifyOtp (.expireFail _) _ _ | .verifyOtp .setLock _ _ | .verifyOtp .delOtp _ _ => .isTrue trivial

end

/-- What `c` says of the command that an act runs, in the store, beside the other tasks and what is noted. -/
def OtpMeets (c : Store → List (Nat × OtpTask) → OtpLog → OtpTask → Prop) (q : Pool Store OtpTask × OtpLog) :
    Act OtpRequest OtpInput → Prop
  | .start _ => True
  | .run i x => ∀ a ∈ q.1.tasks[i]?, c (q.1.store.wait x.elapsed) (q.1.tasks.eraseIdx i) q.2 a.2

instance (c : Store → List (Nat × OtpTask) → OtpLog → OtpTask → Prop) [∀ s others g t, Decidable (c s others g t)]
    (q : Pool Store OtpTask × OtpLog) : ∀ act, Decidable (OtpMeets c q act)
  | .start _ => .isTrue trivial
  | .run i _ => inferInstanceAs (Decidable (∀ a ∈ q.1.tasks[i]?, _))

/-! ## What is kept

A code that is read and found right is deleted by one call before another reads it. -/

section

variable {key : OtpKey} {s s' : Store} {tasks tasks' rest : List (Nat × OtpTask)} {g : OtpLog} {n : Nat}

/-- The value of the last counter, which may have expired. -/
def failures (s : Store) (key : OtpKey) : Nat := (s.redis.otpFail key).elim 0 Entry.value

/-- There is a password. -/
def HasOtp (s : Store) (key : OtpKey) : Prop := s.redis.otp.get? s.now key ≠ none

/-- What a verification that compared a wrong code with the password at hand counts. -/
def Counts (key : OtpKey) (s : Store) (wrong : Nat) : OtpTask → Prop
  | .verifyOtp .incrFail _ _ => wrong ≤ failures s key + 1
  | .verifyOtp (.expireFail fails) _ _ => wrong ≤ fails ∧ wrong ≤ failures s key
  | _ => True

/-- **The invariant of a key.** -/
structure OtpSafe (key : OtpKey) (s : Store) (tasks : List (Nat × OtpTask)) (g : OtpLog) : Prop where
  /-- Of the verifications in flight, no two have read one password with one outcome. -/
  apart : (tasks.filterMap (g.hand key)).Nodup
  read : ∀ h ∈ tasks.filterMap (g.hand key), h.1 ≤ g.issues
  issued : ∀ i, i ∈ g.accepted ∨ i ∈ g.wrong → i ≤ g.issues
  once : g.accepted.Nodup
  /-- A password that is there, or that was found right, has not been accepted. -/
  fresh : HasOtp s key → g.issues ∉ g.accepted
  right : ∀ i, (i, true) ∈ tasks.filterMap (g.hand key) → i ∉ g.accepted
  five : ∀ i, g.wrong.count i ≤ 5
  /-- When no failure is under way, all are counted, and there are not enough for the lock. -/
  settled : HasOtp s key → (g.issues, false) ∉ tasks.filterMap (g.hand key) →
    g.wrong.count g.issues ≤ 4 ∧ g.wrong.count g.issues ≤ failures s key
  counting : HasOtp s key → ∀ a ∈ tasks, g.hand key a = some (g.issues, false) →
    Counts key s (g.wrong.count g.issues) a.2

namespace OtpSafe

theorem init (key : OtpKey) (s : Store) (h : ¬ HasOtp s key) : OtpSafe key s [] {} where
  apart := .nil
  read _ hx := absurd hx List.not_mem_nil
  issued _ hi := hi.elim (absurd · List.not_mem_nil) (absurd · List.not_mem_nil)
  once := .nil
  fresh hotp := absurd hotp h
  right _ hi := absurd hi List.not_mem_nil
  five _ := Nat.zero_le 5
  settled hotp := absurd hotp h
  counting hotp := absurd hotp h

/-- The order of the tasks does not matter. -/
theorem perm (h : OtpSafe key s tasks g) (hperm : tasks.Perm tasks') : OtpSafe key s tasks' g := by
  have hhands := hperm.filterMap (g.hand key)
  exact {
    h with
    apart := hhands.nodup_iff.mp h.apart
    read := fun x hx => h.read x (hhands.mem_iff.mpr hx)
    right := fun i hi => h.right i (hhands.mem_iff.mpr hi)
    settled := fun hotp hnone => h.settled hotp fun hin => hnone (hhands.mem_iff.mp hin)
    counting := fun hotp a ha => h.counting hotp a (hperm.mem_iff.mpr ha) }

/-- **A command that compares nothing, accepts nothing and issues nothing.** A failure that it brings to an end is counted. -/
theorem keep (h : OtpSafe key s tasks g) (hotp : HasOtp s' key → HasOtp s key)
    (hsub : (tasks'.filterMap (g.hand key)).Sublist (tasks.filterMap (g.hand key)))
    (hfail : HasOtp s' key → failures s key ≤ failures s' key)
    (hend : HasOtp s' key → (g.issues, false) ∈ tasks.filterMap (g.hand key) →
      (g.issues, false) ∈ tasks'.filterMap (g.hand key)
        ∨ g.wrong.count g.issues ≤ 4 ∧ g.wrong.count g.issues ≤ failures s' key)
    (hcounting : HasOtp s' key → ∀ a ∈ tasks', g.hand key a = some (g.issues, false) →
      Counts key s' (g.wrong.count g.issues) a.2) : OtpSafe key s' tasks' g where
  apart := h.apart.sublist hsub
  read x hx := h.read x (hsub.subset hx)
  issued := h.issued
  once := h.once
  fresh hnew := h.fresh (hotp hnew)
  right i hi := h.right i (hsub.subset hi)
  five := h.five
  settled hnew hnone := by
    by_cases hin : (g.issues, false) ∈ tasks.filterMap (g.hand key)
    · exact (hend hnew hin).resolve_left hnone
    · obtain ⟨hfour, hcount⟩ := h.settled (hotp hnew) hin
      exact ⟨hfour, Nat.le_trans hcount (hfail hnew)⟩
  counting := hcounting

/-- Time passes. -/
theorem wait (h : OtpSafe key s tasks g) (elapsed : Nat) : OtpSafe key (s.wait elapsed) tasks g := by
  have hotp : HasOtp (s.wait elapsed) key → HasOtp s key := fun hnew => by
    obtain ⟨otp, hsome⟩ := Option.ne_none_iff_exists'.mp hnew
    have hold := Keyspace.get?_of_le (Nat.le_add_right s.now elapsed) hsome
    exact fun hnone => (by cases hold.symm.trans hnone)
  refine h.keep hotp (.refl _) (fun _ => Nat.le_refl _) (fun _ hin => .inl hin) fun hnew a ha hhand => ?_
  exact h.counting (hotp hnew) a ha hhand

/-- A command of a call that holds nothing, and goes on as one that holds nothing. -/
theorem idle {t : OtpTask} {next : List OtpTask} (h : OtpSafe key s ((n, t) :: rest) g) (ht : g.hand key (n, t) = none)
    (hnext : ∀ t' ∈ next, g.hand key (n, t') = none) (hotp : HasOtp s' key → HasOtp s key)
    (hfail : failures s' key = failures s key) : OtpSafe key s' (next.map (Prod.mk n) ++ rest) g := by
  have hnone : (next.map (Prod.mk n)).filterMap (g.hand key) = [] := by
    rw [List.filterMap_map]
    exact List.filterMap_eq_nil_iff.mpr hnext
  have hsame : (next.map (Prod.mk n) ++ rest).filterMap (g.hand key) = ((n, t) :: rest).filterMap (g.hand key) := by
    rw [List.filterMap_append, hnone, List.nil_append, List.filterMap_cons_none ht]
  refine h.keep hotp (hsame ▸ .refl _) (fun _ => Nat.le_of_eq hfail.symm) (fun _ hin => .inl (hsame ▸ hin)) ?_
  intro hnew a ha hhand
  rcases List.mem_append.mp ha with ha | ha
  · obtain ⟨t', ht', rfl⟩ := List.mem_map.mp ha
    cases (hnext t' ht').symm.trans hhand
  · have hold := h.counting (hotp hnew) a (List.mem_cons_of_mem _ ha) hhand
    unfold Counts at hold ⊢
    rw [hfail]
    exact hold

/-- What another verification has read stays. -/
theorem hand_read {a : Nat × OtpTask} (hne : a.1 ≠ n) {log : OtpLog}
    (hread : log.read = Function.update g.read n g.issues) : log.hand key a = g.hand key a := by
  unfold OtpLog.hand
  rw [hread, Function.update_of_ne hne]

/-- A task that has read a code has it in hand. -/
theorem hands_read (hn : n ∉ rest.map Prod.fst) {log : OtpLog} (hread : log.read = Function.update g.read n g.issues) :
    rest.filterMap (log.hand key) = rest.filterMap (g.hand key) := by
  refine List.filterMap_congr fun a ha => ?_
  exact hand_read (fun he => hn (List.mem_map.mpr ⟨a, ha, he⟩)) hread

/-- A verification finds its code right. -/
theorem compare_right {otp : String} (h : OtpSafe key s ((n, .verifyOtp .getOtp key otp) :: rest) g)
    (hn : n ∉ rest.map Prod.fst) (hotp : HasOtp s key) (hclear : (g.issues, true) ∉ rest.filterMap (g.hand key)) :
    OtpSafe key s ((n, .verifyOtp .delOtp key otp) :: rest) { g with read := Function.update g.read n g.issues } := by
  -- before the comparison the task has nothing in hand, and after it the code that was issued last
  have hold : ((n, OtpTask.verifyOtp .getOtp key otp) :: rest).filterMap (g.hand key) = rest.filterMap (g.hand key) :=
    List.filterMap_cons_none (if_pos rfl)
  have hown : OtpLog.hand key { g with read := Function.update g.read n g.issues }
      (n, .verifyOtp .delOtp key otp) = some (g.issues, true) := by
    simp [OtpLog.hand, OtpPoint.outcome]
  have hhands : ((n, OtpTask.verifyOtp .delOtp key otp) :: rest).filterMap
      (OtpLog.hand key { g with read := Function.update g.read n g.issues })
      = (g.issues, true) :: rest.filterMap (g.hand key) := by
    rw [List.filterMap_cons_some hown, hands_read hn rfl]
  refine ⟨?_, ?_, h.issued, h.once, h.fresh, ?_, h.five, ?_, ?_⟩
  · rw [hhands]
    exact List.nodup_cons.mpr ⟨hclear, hold ▸ h.apart⟩
  · intro x hx
    rw [hhands] at hx
    rcases List.mem_cons.mp hx with rfl | hx
    · exact Nat.le_refl _
    · exact h.read x (hold ▸ hx)
  · intro i hi
    rw [hhands] at hi
    rcases List.mem_cons.mp hi with he | hi
    · cases he
      exact h.fresh hotp
    · exact h.right i (hold ▸ hi)
  · intro _ hnone
    rw [hhands] at hnone
    exact h.settled hotp fun hin => hnone (List.mem_cons_of_mem _ (hold ▸ hin))
  · intro _ a ha hhand
    rcases List.mem_cons.mp ha with rfl | ha
    · cases hown.symm.trans hhand
    · have hne : a.1 ≠ n := fun he => hn (he ▸ List.mem_map_of_mem ha)
      exact h.counting hotp a (List.mem_cons_of_mem _ ha) ((hand_read hne rfl).symm.trans hhand)

/-- A verification finds its code wrong. Fewer than five have, because none is about to be counted. -/
theorem compare_wrong {otp : String} (h : OtpSafe key s ((n, .verifyOtp .getOtp key otp) :: rest) g)
    (hn : n ∉ rest.map Prod.fst) (hotp : HasOtp s key) (hclear : (g.issues, false) ∉ rest.filterMap (g.hand key)) :
    OtpSafe key s ((n, .verifyOtp .incrFail key otp) :: rest)
      { g with read := Function.update g.read n g.issues, wrong := g.issues :: g.wrong } := by
  have hold : ((n, OtpTask.verifyOtp .getOtp key otp) :: rest).filterMap (g.hand key) = rest.filterMap (g.hand key) :=
    List.filterMap_cons_none (if_pos rfl)
  -- all earlier failures have been counted
  obtain ⟨hfour, hcount⟩ := h.settled hotp (hold ▸ hclear)
  have hown : OtpLog.hand key { g with read := Function.update g.read n g.issues, wrong := g.issues :: g.wrong }
      (n, .verifyOtp .incrFail key otp) = some (g.issues, false) := by
    simp [OtpLog.hand, OtpPoint.outcome]
  have hhands : ((n, OtpTask.verifyOtp .incrFail key otp) :: rest).filterMap
      (OtpLog.hand key { g with read := Function.update g.read n g.issues, wrong := g.issues :: g.wrong })
      = (g.issues, false) :: rest.filterMap (g.hand key) := by
    rw [List.filterMap_cons_some hown, hands_read hn rfl]
  refine ⟨?_, ?_, ?_, h.once, h.fresh, ?_, ?_, ?_, ?_⟩
  · rw [hhands]
    exact List.nodup_cons.mpr ⟨hclear, hold ▸ h.apart⟩
  · intro x hx
    rw [hhands] at hx
    rcases List.mem_cons.mp hx with rfl | hx
    · exact Nat.le_refl _
    · exact h.read x (hold ▸ hx)
  · intro i hi
    rcases hi with hi | hi
    · exact h.issued i (.inl hi)
    · rcases List.mem_cons.mp hi with rfl | hi
      · exact Nat.le_refl _
      · exact h.issued i (.inr hi)
  · intro i hi
    rw [hhands] at hi
    rcases List.mem_cons.mp hi with he | hi
    · cases he
    · exact h.right i (hold ▸ hi)
  · intro i
    show (g.issues :: g.wrong).count i ≤ 5
    rw [List.count_cons]
    split
    · next he =>
      rw [← eq_of_beq he]
      omega
    · exact h.five i
  · intro _ hnone
    rw [hhands] at hnone
    exact absurd List.mem_cons_self hnone
  · intro _ a ha hhand
    rcases List.mem_cons.mp ha with rfl | ha
    · show (g.issues :: g.wrong).count g.issues ≤ failures s key + 1
      rw [List.count_cons_self]
      omega
    · -- no other verification has found its code wrong
      refine absurd ?_ hclear
      have hne : a.1 ≠ n := fun he => hn (he ▸ List.mem_map_of_mem ha)
      exact List.mem_filterMap.mpr ⟨a, ha, (hand_read hne rfl).symm.trans hhand⟩

/-- A verification returns true, and deletes the password. -/
theorem accept {otp : String} (h : OtpSafe key s ((n, .verifyOtp .delOtp key otp) :: rest) g)
    (hotp : ¬ HasOtp s' key) : OtpSafe key s' rest { g with accepted := g.read n :: g.accepted } := by
  have hown : g.hand key (n, .verifyOtp .delOtp key otp) = some (g.read n, true) := if_pos rfl
  -- what this task had in hand is given up, and the others keep theirs
  have hhands : ((n, OtpTask.verifyOtp .delOtp key otp) :: rest).filterMap (g.hand key)
      = (g.read n, true) :: rest.filterMap (g.hand key) := List.filterMap_cons_some hown
  have hin : (g.read n, true) ∈ ((n, OtpTask.verifyOtp .delOtp key otp) :: rest).filterMap (g.hand key) :=
    hhands ▸ List.mem_cons_self
  have hrest : ∀ x ∈ rest.filterMap (g.hand key),
      x ∈ ((n, OtpTask.verifyOtp .delOtp key otp) :: rest).filterMap (g.hand key) :=
    fun x hx => hhands ▸ List.mem_cons_of_mem _ hx
  have hapart := h.apart
  rw [hhands] at hapart
  refine ⟨hapart.of_cons, fun x hx => h.read x (hrest x hx), ?_, ?_, ?_, ?_, h.five, ?_, ?_⟩
  · intro i hi
    rcases hi with hi | hi
    · rcases List.mem_cons.mp hi with rfl | hi
      · exact h.read _ hin
      · exact h.issued i (.inl hi)
    · exact h.issued i (.inr hi)
  · exact List.nodup_cons.mpr ⟨h.right _ hin, h.once⟩
  · exact fun hnew => absurd hnew hotp
  · intro i hi hacc
    rcases List.mem_cons.mp hacc with rfl | hacc
    · exact (List.nodup_cons.mp hapart).1 hi
    · exact h.right i (hrest _ hi) hacc
  · exact fun hnew => absurd hnew hotp
  · exact fun hnew => absurd hnew hotp

/-- A new password, with which nothing has been compared. -/
theorem issue (h : OtpSafe key s tasks g) : OtpSafe key s' tasks { g with issues := g.issues + 1 } := by
  have hnew : ∀ i, i ∈ g.accepted ∨ i ∈ g.wrong → i ≠ g.issues + 1 :=
    fun i hi he => absurd (he ▸ h.issued i hi) (Nat.not_succ_le_self _)
  have hzero : g.wrong.count (g.issues + 1) = 0 := List.count_eq_zero.mpr fun hin => hnew _ (.inr hin) rfl
  refine ⟨h.apart, fun x hx => Nat.le_succ_of_le (h.read x hx), fun i hi => Nat.le_succ_of_le (h.issued i hi), h.once,
    fun _ hacc => hnew _ (.inl hacc) rfl, h.right, h.five, fun _ _ => ?_, fun _ a ha hhand => ?_⟩
  · show g.wrong.count (g.issues + 1) ≤ 4 ∧ g.wrong.count (g.issues + 1) ≤ _
    rw [hzero]
    exact ⟨Nat.zero_le _, Nat.zero_le _⟩
  · have hread := h.read _ (List.mem_filterMap.mpr ⟨a, ha, hhand⟩)
    exact absurd hread (Nat.not_succ_le_self _)

/-- A failure is counted, of this password or of an older one. -/
theorem incrFail {otp : String} (h : OtpSafe key s ((n, .verifyOtp .incrFail key otp) :: rest) g)
    (hcounted : Counted key s (.verifyOtp .incrFail key otp)) :
    OtpSafe key (OtpService.verifyOtp s key otp .incrFail).1
      ((n, .verifyOtp (.expireFail (s.redis.otpFail.incr s.now key).2) key otp) :: rest) g := by
  -- while there is a password, its counter lives, and moves by one
  have hincr : HasOtp s key → (s.redis.otpFail.incr s.now key).2 = failures s key + 1
      ∧ failures (OtpService.verifyOtp s key otp .incrFail).1 key = failures s key + 1 := by
    intro hotp
    have hlive := hcounted rfl hotp
    show _ ∧ (((s.redis.otpFail.incr s.now key).1 key).elim 0 Entry.value) = _
    unfold failures Keyspace.incr
    cases he : s.redis.otpFail key with
    | none => simp
    | some e => simp [Option.filter, hlive e he]
  have hhands : ((n, OtpTask.verifyOtp (.expireFail (s.redis.otpFail.incr s.now key).2) key otp) :: rest).filterMap
      (g.hand key) = ((n, OtpTask.verifyOtp .incrFail key otp) :: rest).filterMap (g.hand key) := rfl
  refine h.keep id (hhands ▸ .refl _) (fun hotp => ?_) (fun _ hin => .inl hin) fun hotp a ha hhand => ?_
  · rw [(hincr hotp).2]
    exact Nat.le_succ _
  · obtain ⟨hcount, hfail⟩ := hincr hotp
    rcases List.mem_cons.mp ha with rfl | ha
    · have hown := h.counting hotp (n, .verifyOtp .incrFail key otp) List.mem_cons_self hhand
      exact ⟨hcount ▸ hown, hfail ▸ hown⟩
    · have hold := h.counting hotp a (List.mem_cons_of_mem _ ha) hhand
      unfold Counts at hold ⊢
      rw [hfail]
      split at hold
      · exact Nat.le_succ_of_le hold
      · exact ⟨hold.1, Nat.le_succ_of_le hold.2⟩
      · trivial

/-- The counter gets a deadline, and keeps its value. -/
theorem failures_expire (s : Store) (key : OtpKey) (otp : String) (fails : Nat) :
    failures (OtpService.verifyOtp s key otp (.expireFail fails)).1 key = failures s key := by
  show (s.redis.otpFail.expire s.now key _ key).elim 0 Entry.value = (s.redis.otpFail key).elim 0 Entry.value
  unfold Keyspace.expire
  cases hget : s.redis.otpFail.get? s.now key with
  | none => rfl
  | some v =>
    obtain ⟨e, he, -, rfl⟩ := Keyspace.get?_eq_some.mp hget
    show (Function.update s.redis.otpFail key _ key).elim 0 Entry.value = _
    rw [Function.update_self, he]
    rfl

/-- A failure that does not lock the key is over, and counted. -/
theorem expireFail {otp : String} {fails : Nat}
    (h : OtpSafe key s ((n, .verifyOtp (.expireFail fails) key otp) :: rest) g) :
    OtpSafe key (OtpService.verifyOtp s key otp (.expireFail fails)).1
      ((if fails ≥ OtpService.maxAttempts then [(n, .verifyOtp .setLock key otp)] else []) ++ rest) g := by
  have hown : g.hand key (n, .verifyOtp (.expireFail fails) key otp) = some (g.read n, false) := if_pos rfl
  have hhands : ((n, OtpTask.verifyOtp (.expireFail fails) key otp) :: rest).filterMap (g.hand key)
      = (g.read n, false) :: rest.filterMap (g.hand key) := List.filterMap_cons_some hown
  have hfail := failures_expire s key otp fails
  -- the deadline of the counter is no part of what the others count
  have hrest : HasOtp s key → ∀ a ∈ rest, g.hand key a = some (g.issues, false) →
      Counts key (OtpService.verifyOtp s key otp (.expireFail fails)).1 (g.wrong.count g.issues) a.2 := by
    intro hotp a ha hhand
    have hold := h.counting hotp a (List.mem_cons_of_mem _ ha) hhand
    unfold Counts at hold ⊢
    rw [hfail]
    exact hold
  split
  · have hsame : ([(n, OtpTask.verifyOtp .setLock key otp)] ++ rest).filterMap (g.hand key)
        = ((n, OtpTask.verifyOtp (.expireFail fails) key otp) :: rest).filterMap (g.hand key) := rfl
    refine h.keep id (hsame ▸ .refl _) (fun _ => Nat.le_of_eq hfail.symm) (fun _ hin => .inl hin) ?_
    intro hotp a ha hhand
    rcases List.mem_cons.mp ha with rfl | ha
    · trivial
    · exact hrest hotp a ha hhand
  · next hfew =>
    refine h.keep id ?_ (fun _ => Nat.le_of_eq hfail.symm) (fun hotp hin => ?_) hrest
    · rw [hhands]
      exact List.sublist_cons_self _ _
    · rw [hhands] at hin
      rcases List.mem_cons.mp hin with he | hin
      · -- it was this one
        have hcurrent : g.hand key (n, .verifyOtp (.expireFail fails) key otp) = some (g.issues, false) :=
          hown.trans (congrArg some he.symm)
        obtain ⟨hle, hcount⟩ := h.counting hotp _ List.mem_cons_self hcurrent
        refine .inr ⟨?_, hfail ▸ hcount⟩
        unfold OtpService.maxAttempts at hfew
        omega
      · exact .inl hin

/-- The fifth failure deletes the password. -/
theorem setLock {otp : String} (h : OtpSafe key s ((n, .verifyOtp .setLock key otp) :: rest) g)
    (hgone : ¬ HasOtp s' key) : OtpSafe key s' rest g := by
  refine h.keep (fun hotp => absurd hotp hgone) ?_ (fun hotp => absurd hotp hgone) (fun hotp => absurd hotp hgone)
    fun hotp => absurd hotp hgone
  have hown : g.hand key (n, .verifyOtp .setLock key otp) = some (g.read n, false) := if_pos rfl
  rw [List.filterMap_cons_some hown]
  exact List.sublist_cons_self _ _

end OtpSafe

/-! ## One command

Each command keeps the invariant, given that no two checks of one key overlap. -/

/-- The commands of a verification leave the other keys. -/
theorem verifyOtp_of_ne {k : OtpKey} (hk : key ≠ k) (s : Store) (otp : String) (point : OtpPoint) :
    (HasOtp (OtpService.verifyOtp s k otp point).1 key ↔ HasOtp s key)
      ∧ failures (OtpService.verifyOtp s k otp point).1 key = failures s key := by
  unfold HasOtp failures
  cases point with
  | existsLock => exact ⟨Iff.rfl, rfl⟩
  | ttlLock => exact ⟨Iff.rfl, rfl⟩
  | getOtp =>
    simp only [OtpService.verifyOtp]
    split <;> exact ⟨Iff.rfl, rfl⟩
  | incrFail =>
    exact ⟨Iff.rfl, congrArg (Option.elim · 0 Entry.value) (Keyspace.incr_of_ne hk)⟩
  | expireFail fails =>
    exact ⟨Iff.rfl, congrArg (Option.elim · 0 Entry.value) (Keyspace.expire_of_ne hk)⟩
  | setLock =>
    refine ⟨not_congr (by exact iff_of_eq (congrArg (· = none) (Keyspace.get?_del_of_ne hk))), ?_⟩
    exact congrArg (Option.elim · 0 Entry.value) (Function.update_of_ne hk _ _)
  | delOtp =>
    refine ⟨not_congr (by exact iff_of_eq (congrArg (· = none) (Keyspace.get?_del_of_ne hk))), ?_⟩
    exact congrArg (Option.elim · 0 Entry.value) (Function.update_of_ne hk _ _)

/-- So does an issue. -/
theorem createOtp_of_ne {k : OtpKey} (hk : key ≠ k) (s : Store) (otp : String) (ttlSeconds : Nat) :
    (HasOtp (OtpService.createOtp s k otp ttlSeconds) key ↔ HasOtp s key)
      ∧ failures (OtpService.createOtp s k otp ttlSeconds) key = failures s key := by
  refine ⟨not_congr (by exact iff_of_eq (congrArg (· = none) (Keyspace.get?_setEx_of_ne hk))), ?_⟩
  exact congrArg (Option.elim · 0 Entry.value) (Function.update_of_ne hk _ _)

/-- A call of another key holds nothing. -/
theorem hand_of_ne {k : OtpKey} (hk : k ≠ key) (g : OtpLog) (n : Nat) (point : OtpPoint) (otp : String) :
    g.hand key (n, .verifyOtp point k otp) = none := if_neg hk

/-- What a verification goes on as has its key. -/
theorem next_verifyOtp {random : Nat} {point : OtpPoint} {k : OtpKey} {otp : String} {t' : OtpTask}
    (ht' : t' ∈ (otpStatement random s (.verifyOtp point k otp)).next) :
    ∃ point', t' = .verifyOtp point' k otp := by
  unfold otpStatement at ht'
  dsimp only at ht'
  split at ht'
  · exact ⟨_, List.mem_singleton.mp ht'⟩
  · exact absurd ht' List.not_mem_nil
  · exact absurd ht' List.not_mem_nil

/-- A command of a check is that of `verifyOtp`. -/
theorem store_verifyOtp (random : Nat) (s : Store) (point : OtpPoint) (k : OtpKey) (otp : String) :
    (otpStatement random s (.verifyOtp point k otp)).store = (OtpService.verifyOtp s k otp point).1 := by
  unfold otpStatement
  dsimp only
  split <;> next he => rw [he]

/-- **What a command keeps**, when it compares and counts as it should. -/
theorem OtpSafe.statement {t : OtpTask} (random : Nat) (h : OtpSafe key s ((n, t) :: rest) g)
    (hn : n ∉ rest.map Prod.fst) (hno : NoOverlap key s rest g t) (hcounted : Counted key s t) :
    OtpSafe key (otpStatement random s t).store ((otpStatement random s t).next.map (Prod.mk n) ++ rest)
      (OtpLog.note key s n t g) := by
  cases t with
  | createOtp k ttlSeconds =>
    have hnone : ∀ t' ∈ ([] : List OtpTask), g.hand key (n, t') = none := fun _ ht' => absurd ht' List.not_mem_nil
    have hrest : OtpSafe key s rest g := h.idle rfl hnone id rfl
    by_cases hk : k = key
    -- a new code, and the counter from the start
    · rw [OtpLog.note, if_pos hk]
      exact hrest.issue
    · rw [OtpLog.note, if_neg hk]
      obtain ⟨hotp, hfail⟩ := createOtp_of_ne (Ne.symm hk) s (OtpService.generateCode random) ttlSeconds
      exact h.idle rfl hnone hotp.mp hfail
  | verifyOtp point k otp =>
    by_cases hk : k = key
    -- another key
    case neg =>
      have hnote : OtpLog.note key s n (.verifyOtp point k otp) g = g := if_neg hk
      rw [hnote]
      obtain ⟨hotp, hfail⟩ := verifyOtp_of_ne (Ne.symm hk) s otp point
      rw [← store_verifyOtp random] at hotp hfail
      refine h.idle (hand_of_ne hk g n point otp) (fun t' ht' => ?_) hotp.mp hfail
      obtain ⟨point', rfl⟩ := next_verifyOtp ht'
      exact hand_of_ne hk g n point' otp
    case pos =>
      subst hk
      have hnote : OtpLog.note k s n (.verifyOtp point k otp) g = _ := if_pos rfl
      rw [hnote]
      cases point with
      | existsLock =>
        refine h.idle (if_pos rfl) (fun t' ht' => ?_) id rfl
        rw [List.mem_singleton.mp ht']
        split <;> exact if_pos rfl
      | ttlLock => exact h.idle (if_pos rfl) (fun _ ht' => absurd ht' List.not_mem_nil) id rfl
      | getOtp =>
        cases hget : s.redis.otp.get? s.now k with
        | none =>
          have hstep : otpStatement random s (.verifyOtp .getOtp k otp) = ⟨s, [], some (.ok (some false))⟩ := by
            simp [otpStatement, OtpService.verifyOtp, hget]
          rw [hstep]
          dsimp only
          have hnone : ∀ t' ∈ ([] : List OtpTask), g.hand k (n, t') = none := fun _ ht' => absurd ht' List.not_mem_nil
          exact h.idle (if_pos rfl) hnone id rfl
        | some stored =>
          have hotp : HasOtp s k := fun hnone => (by cases hget.symm.trans hnone)
          have hclear := hno rfl stored hget
          -- the comparison of the source
          by_cases hright : stored = otp
          · have hstep : otpStatement random s (.verifyOtp .getOtp k otp) = ⟨s, [.verifyOtp .delOtp k otp], none⟩ := by
              simp [otpStatement, OtpService.verifyOtp, hget, hright]
            rw [hstep]
            rw [decide_eq_true hright] at hclear
            simp only [ne_eq, hright, not_true_eq_false, if_false]
            exact h.compare_right hn hotp hclear
          · have hstep : otpStatement random s (.verifyOtp .getOtp k otp) = ⟨s, [.verifyOtp .incrFail k otp], none⟩ := by
              simp [otpStatement, OtpService.verifyOtp, hget, hright]
            rw [hstep]
            rw [decide_eq_false hright] at hclear
            simp only [ne_eq, hright, not_false_eq_true, if_true]
            exact h.compare_wrong hn hotp hclear
      | incrFail => exact h.incrFail hcounted
      | expireFail fails =>
        have hnext : (otpStatement random s (.verifyOtp (.expireFail fails) k otp)).next.map (Prod.mk n)
            = if fails ≥ OtpService.maxAttempts then [(n, .verifyOtp .setLock k otp)] else [] := by
          unfold otpStatement OtpService.verifyOtp
          dsimp only
          by_cases hmany : fails ≥ OtpService.maxAttempts
          · rw [if_pos hmany, if_pos hmany]
            rfl
          · rw [if_neg hmany, if_neg hmany]
            rfl
        rw [hnext, store_verifyOtp]
        exact h.expireFail
      | setLock =>
        have hgone : (s.redis.otp.del k).get? s.now k = none := Keyspace.get?_del_self
        exact h.setLock fun hotp => hotp hgone
      | delOtp =>
        have hgone : (s.redis.otp.del k).get? s.now k = none := Keyspace.get?_del_self
        exact h.accept fun hotp => hotp hgone

end

/-! ## Runs

Along a run without overlapping checks a code is used once. -/

/-- A call goes on with one command at most. -/
theorem next_otpCalls (x : OtpInput) (s : Store) (t : OtpTask) : (otpCalls.exec x s t).next.length ≤ 1 := by
  show (otpStatement x.random (s.wait x.elapsed) t).next.length ≤ 1
  cases t with
  | createOtp => exact Nat.zero_le 1
  | verifyOtp =>
    unfold otpStatement
    dsimp only
    split
    · exact Nat.le_refl 1
    · exact Nat.zero_le 1
    · exact Nat.zero_le 1

/-- What is kept of the calls of a key, with their numbers. -/
def OtpHolds (key : OtpKey) (q : Pool Store OtpTask × OtpLog) : Prop :=
  Pool.Numbered q.1 ∧ OtpSafe key q.1.store q.1.tasks q.2

theorem otpHolds_idle (key : OtpKey) : OtpHolds key (Pool.idle Store.empty, {}) :=
  ⟨.idle _, .init key _ fun hotp => hotp rfl⟩

/-- A call begins without a code in hand. -/
theorem hand_enter (key : OtpKey) (g : OtpLog) (n : Nat) (r : OtpRequest) : g.hand key (n, otpCalls.enter r) = none := by
  cases r with
  | createOtp => rfl
  | verifyOtp k otp =>
    by_cases hk : k = key
    · exact if_pos hk
    · exact if_neg hk

/-- A new call holds nothing. -/
theorem hands_start (key : OtpKey) (g : OtpLog) (tasks : List (Nat × OtpTask)) (n : Nat) (r : OtpRequest) :
    (tasks ++ [(n, otpCalls.enter r)]).filterMap (g.hand key) = tasks.filterMap (g.hand key) := by
  rw [List.filterMap_append, List.filterMap_cons_none (hand_enter key g n r), List.filterMap_nil, List.append_nil]

/-- **The invariant over one act** that compares and counts as it should. -/
theorem otpHolds_observe {key : OtpKey} {q : Pool Store OtpTask × OtpLog} {act : Act OtpRequest OtpInput}
    (hq : OtpHolds key q) (hact : OtpMeets (fun s others g t => NoOverlap key s others g t ∧ Counted key s t) q act) :
    OtpHolds key (observeOtp key q act) := by
  obtain ⟨p, g⟩ := q
  obtain ⟨hnumbers, hsafe⟩ := hq
  have hnext : Pool.Numbered (observeOtp key (p, g) act).1 := by
    have hfst : (observeOtp key (p, g) act).1 = p.step otpCalls act := by cases act <;> rfl
    rw [hfst]
    exact hnumbers.step next_otpCalls
  refine ⟨hnext, ?_⟩
  refine Pool.observe_cases (P := fun q => OtpSafe key q.1.store q.1.tasks q.2) hsafe (fun r _ => ?_)
    fun i x n t he hi => ?_
  · have hhands := hands_start key g p.tasks p.requests r
    refine hsafe.keep id (hhands ▸ .refl _) (fun _ => Nat.le_refl _) (fun _ hin => .inl (hhands ▸ hin)) ?_
    intro hotp a ha hhand
    rcases List.mem_append.mp ha with ha | ha
    · exact hsafe.counting hotp a ha hhand
    · rw [List.mem_singleton.mp ha] at hhand
      cases (hand_enter key g p.requests r).symm.trans hhand
  · subst he
    obtain ⟨hno, hcounted⟩ := hact (n, t) hi
    have hn : n ∉ (p.tasks.eraseIdx i).map Prod.fst := (List.nodup_cons.mp (hnumbers.others hi)).1
    have hsplit := (hsafe.wait x.elapsed).perm (Pool.perm_eraseIdx hi)
    exact (hsplit.statement x.random hn hno hcounted).perm List.perm_append_comm

/-- What the passwords of a key are good for. -/
structure OtpUsedOnce (g : OtpLog) : Prop where
  /-- A password is accepted once. -/
  accepted : g.accepted.Nodup
  /-- A wrong code is compared with it at most five times. -/
  wrong : ∀ i, g.wrong.count i ≤ 5

/-- **Passwords are used once, and guessed five times**, when verifications do not overlap and failures are counted. -/
theorem otp_used_once (key : OtpKey) (acts : List (Act OtpRequest OtpInput))
    (hmeets : Meets (observeOtp key) (OtpMeets fun s others g t => NoOverlap key s others g t ∧ Counted key s t)
      (Pool.idle Store.empty, {}) acts) :
    Always (observeOtp key) (fun q => OtpUsedOnce q.2) (Pool.idle Store.empty, {}) acts := by
  have hall := always_of_meets (fun _ _ _ hq hact => otpHolds_observe hq hact) (otpHolds_idle key) hmeets
  exact hall.imp fun _ hq => ⟨hq.2.once, hq.2.five⟩

namespace Sample

def otpKey : OtpKey := .reset "a@ptit.edu.vn"

/-- A command after a millisecond. -/
def command (i : Nat) : Act OtpRequest OtpInput := .run i ⟨1, 0⟩

/-- An issue of the code 100000, and then the commands of one verification after the other. -/
def oneAfterTheOther : List (Act OtpRequest OtpInput) :=
  [.start (.createOtp otpKey 300), command 0, .start (.verifyOtp otpKey "000000"), command 0, command 0, command 0,
    command 0, .start (.verifyOtp otpKey "100000"), command 0, command 0, command 0]

/-- Two verifications read the code before either deletes it. -/
def acceptedTwice : List (Act OtpRequest OtpInput) :=
  [.start (.createOtp otpKey 300), command 0, .start (.verifyOtp otpKey "100000"),
    .start (.verifyOtp otpKey "100000"), command 0, command 0, command 0, command 0, command 0, command 0]

/-- Six verifications compare a wrong code before any of them counts its failure. -/
def sixGuesses : List (Act OtpRequest OtpInput) :=
  [.start (.createOtp otpKey 300), command 0] ++ List.replicate 6 (.start (.verifyOtp otpKey "000000"))
    ++ List.replicate 12 (command 0)

end Sample

theorem otp_used_once_one_after_the_other :
    Always (observeOtp Sample.otpKey) (fun q => OtpUsedOnce q.2) (Pool.idle Store.empty, {}) Sample.oneAfterTheOther := by
  exact otp_used_once Sample.otpKey Sample.oneAfterTheOther (by decide)

/-- A password is accepted twice in one interleaving, and compared with six wrong codes in another. -/
theorem not_otp_used_once :
    ¬ (run (observeOtp Sample.otpKey) (Pool.idle Store.empty, {}) Sample.acceptedTwice).2.accepted.Nodup
      ∧ (run (observeOtp Sample.otpKey) (Pool.idle Store.empty, {}) Sample.sixGuesses).2.wrong.count 1 = 6 := by
  constructor
  · decide
  · decide

end AcaSocial.Identity
