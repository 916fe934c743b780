import AcaSocial.Frontend.ApiClient
import Mathlib.Data.List.Nodup

/-!
# Calls, the flag and the queue

The flag `_isRefreshing` and the queue are shared by all calls of the module. Between two awaits a call runs alone, so
every event makes one move.

* **`Phase.stage`** — how far a call has come. No call ever goes back, which is why none is queued or retried twice.
* **`Books`** — the lists of queued, resumed and retried calls agree with the phases. It is stated for what is left of
  the queue, as the callbacks are called one after another.
* **`Flag`** — at most one call refreshes, and the flag is up while it does and while anything is queued.
* **`Move`**, **`step_move`** — what an event can do. Both invariants are proved of the moves, not of the code again.
* **`Throws`** — the refresh ends in a network error, or in a body that is no JSON object. `apiFetch` then leaves the
  flag up and the queue as it is, and `Move.drained_iff` says that nothing else does.
-/

namespace AcaSocial.Frontend

variable {ι : Type} [DecidableEq ι] {s t : Client ι} {i j : ι}

/-- The call refreshes the tokens: it waits for `refreshAccessToken`. -/
def Phase.Refreshes : Phase → Prop
  | .refreshing _ | .readingTokens _ | .refreshed _ _ => True
  | _ => False

/-- How far a call has come: called, answered with a 401, sent or answered for good, settled. -/
def Phase.stage : Phase → Nat
  | .idle => 0
  | .fetching options _ => if options.isRetry then 3 else 1
  | .refreshing _ | .readingTokens _ | .refreshed _ _ | .pending => 2
  | .readingBody _ _ => 3
  | .settled _ => 4

/-- The event ends a refresh with an exception. -/
def Throws (s : Client ι) : Event ι → Prop
  | .refreshResponded i response => response = none ∧ ∃ options, s.phase i = .refreshing options
  | .tokensRead i data => data = none ∧ ∃ options, s.phase i = .readingTokens options
  | _ => False

/-! ## Calls and callbacks

A call has its callback in the queue exactly while it is pending. What is logged of a call is logged at its stage, and
as stages only grow, it is logged once. -/

/-- The calls that have been queued. -/
def Client.queuedCalls (s : Client ι) : List ι := s.queued.map Prod.fst

/-- The calls that have been made once more. -/
def Client.retriedCalls (s : Client ι) : List ι := s.retried.map Prod.fst

/-- The calls, where `rest` is what is left of the queue. -/
structure Books (s : Client ι) (rest : List (ι × RequestOptions)) : Prop where
  pending : ∀ i, s.phase i = .pending ↔ i ∈ rest.map Prod.fst
  resumed : s.queuedCalls = s.resumed.map Prod.fst ++ rest.map Prod.fst
  once : s.queuedCalls.Nodup
  queuedStage : ∀ i ∈ s.queuedCalls, 2 ≤ (s.phase i).stage
  answered : ∀ i newToken, (i, newToken) ∈ s.resumed → if truthy newToken then i ∈ s.retriedCalls
    else s.phase i = .settled (.error .loginRequired)
  retriedOnce : s.retriedCalls.Nodup
  retriedStage : ∀ i ∈ s.retriedCalls, 3 ≤ (s.phase i).stage

/-- The calls that refresh, the flag and the queue. -/
structure Flag (s : Client ι) : Prop where
  alone : ∀ i j, (s.phase i).Refreshes → (s.phase j).Refreshes → i = j
  up : ∀ i, (s.phase i).Refreshes → s.isRefreshing = true
  queue : s.pendingQueue ≠ [] → s.isRefreshing = true

/-- What holds whatever happens. -/
structure Kept (s : Client ι) : Prop where
  books : Books s s.pendingQueue
  flag : Flag s

/-- The phase of a request is the one that was set. -/
theorem phase_setPhase_self (s : Client ι) (i : ι) (p : Phase) : (s.setPhase i p).phase i = p :=
  Function.update_self ..

/-- The phases of other requests stay. -/
theorem phase_setPhase_of_ne (s : Client ι) (p : Phase) (h : j ≠ i) : (s.setPhase i p).phase j = s.phase j :=
  Function.update_of_ne h ..

/-- No call goes back. -/
theorem stage_le_setPhase {p : Phase} (hstage : (s.phase i).stage ≤ p.stage) (j : ι) :
    (s.phase j).stage ≤ ((s.setPhase i p).phase j).stage := by
  by_cases hj : j = i
  · subst hj
    rw [phase_setPhase_self]
    exact hstage
  · exact Nat.le_of_eq (congrArg Phase.stage (phase_setPhase_of_ne s p hj).symm)

namespace Books

variable {rest : List (ι × RequestOptions)} {options : RequestOptions} {p : Phase}

omit [DecidableEq ι] in
/-- The calls are what they were; the tokens and the flag do not count. -/
theorem congr (h : Books s rest) (hphase : t.phase = s.phase) (hqueued : t.queued = s.queued)
    (hresumed : t.resumed = s.resumed) (hretried : t.retried = s.retried) : Books t rest where
  pending := by rw [hphase]; exact h.pending
  resumed := by rw [Client.queuedCalls, hqueued, hresumed]; exact h.resumed
  once := by rw [Client.queuedCalls, hqueued]; exact h.once
  queuedStage := by rw [Client.queuedCalls, hqueued, hphase]; exact h.queuedStage
  answered := by rw [hresumed, Client.retriedCalls, hretried, hphase]; exact h.answered
  retriedOnce := by rw [Client.retriedCalls, hretried]; exact h.retriedOnce
  retriedStage := by rw [Client.retriedCalls, hretried, hphase]; exact h.retriedStage

/-- What a resumed call was answered stays, as a settled call does not go on. -/
theorem answered_setPhase (h : Books s rest) (hopen : (s.phase i).stage < 4) {newToken : Option String}
    (hj : (j, newToken) ∈ s.resumed) : if truthy newToken then j ∈ s.retriedCalls
      else (s.setPhase i p).phase j
        = .settled (.error .loginRequired) := by
  have hold := h.answered j newToken hj
  by_cases htoken : truthy newToken
  · rw [if_pos htoken] at hold ⊢
    exact hold
  · rw [if_neg htoken] at hold ⊢
    have hne : j ≠ i := by
      rintro rfl
      rw [hold] at hopen
      exact absurd hopen (by decide)
    rw [phase_setPhase_of_ne s p hne]
    exact hold

/-- A request that waits stays where it waits. -/
theorem queuedStage_setPhase (h : Books s rest) (hstage : (s.phase i).stage ≤ p.stage) :
    ∀ j ∈ s.queuedCalls, 2 ≤ ((s.setPhase i p).phase j).stage :=
  fun j hj => Nat.le_trans (h.queuedStage j hj) (stage_le_setPhase hstage j)

/-- A request that has been sent again stays sent. -/
theorem retriedStage_setPhase (h : Books s rest) (hstage : (s.phase i).stage ≤ p.stage) :
    ∀ j ∈ s.retriedCalls, 3 ≤ ((s.setPhase i p).phase j).stage :=
  fun j hj => Nat.le_trans (h.retriedStage j hj) (stage_le_setPhase hstage j)

/-- A call that has no callback in the queue gets none. -/
theorem pending_setPhase (h : Books s rest) (hbefore : s.phase i ≠ .pending) (hafter : p ≠ .pending) (j : ι) :
    (s.setPhase i p).phase j = .pending ↔ j ∈ rest.map Prod.fst := by
  rw [← h.pending j]
  by_cases hj : j = i
  · subst hj
    rw [phase_setPhase_self]
    exact iff_of_false hafter hbefore
  · rw [phase_setPhase_of_ne s p hj]

/-- A call that is neither queued nor settled goes on. -/
theorem setPhase (h : Books s rest) (hbefore : s.phase i ≠ .pending) (hafter : p ≠ .pending)
    (hopen : (s.phase i).stage < 4) (hstage : (s.phase i).stage ≤ p.stage) : Books (s.setPhase i p) rest where
  pending := h.pending_setPhase hbefore hafter
  resumed := h.resumed
  once := h.once
  queuedStage := h.queuedStage_setPhase hstage
  answered := fun _ _ hj => h.answered_setPhase hopen hj
  retriedOnce := h.retriedOnce
  retriedStage := h.retriedStage_setPhase hstage

omit [DecidableEq ι] in
/-- A call that was answered with a 401 is in no list of retries yet. -/
theorem not_retried (h : Books s rest) (hopen : (s.phase i).stage < 3) : i ∉ s.retriedCalls := by
  intro hi
  have hstage := h.retriedStage i hi
  omega

/-- A call that has refreshed the tokens is made once more. -/
theorem retry (h : Books s rest) (hbefore : s.phase i ≠ .pending) (hopen : (s.phase i).stage < 3)
    (options : RequestOptions) : Books (s.retry i options) rest := by
  have hcalls : (s.retry i options).retriedCalls = s.retriedCalls ++ [i] := List.map_append
  have hmoved : Books (s.apiFetch i { options with isRetry := true }) rest :=
    h.setPhase hbefore (fun h => by cases h) (by omega) (Nat.le_of_lt hopen)
  refine ⟨hmoved.pending, hmoved.resumed, hmoved.once, hmoved.queuedStage, fun j newToken hj => ?_, ?_, ?_⟩
  · have hold := hmoved.answered j newToken hj
    by_cases htoken : truthy newToken
    · rw [if_pos htoken] at hold ⊢
      exact hcalls ▸ List.mem_append_left _ hold
    · rw [if_neg htoken] at hold ⊢
      exact hold
  · rw [hcalls, ← List.concat_eq_append]
    exact h.retriedOnce.concat (h.not_retried hopen)
  · intro j hj
    rw [hcalls] at hj
    rcases List.mem_append.mp hj with hj | hj
    · exact hmoved.retriedStage j hj
    · obtain rfl := List.mem_singleton.mp hj
      show 3 ≤ (Phase.stage ((s.setPhase j _).phase j))
      rw [phase_setPhase_self]
      exact Nat.le_refl 3

/-- A call is queued that was not queued before. -/
theorem enqueue (h : Books s rest) (hfirst : (s.phase i).stage = 1) (options : RequestOptions) :
    Books (s.enqueue i options) (rest ++ [(i, options)]) := by
  have hcalls : (s.enqueue i options).queuedCalls = s.queuedCalls ++ [i] := List.map_append
  have hnew : i ∉ s.queuedCalls := fun hi => by
    have hstage := h.queuedStage i hi
    omega
  -- a call that waits has been queued, and this one has not
  have hbefore : s.phase i ≠ .pending := by
    intro hp
    rw [hp] at hfirst
    exact absurd hfirst (by decide)
  have hstage : (s.phase i).stage ≤ Phase.pending.stage := by
    rw [hfirst]
    decide
  refine ⟨fun j => ?_, ?_, ?_, ?_, fun j newToken hj => h.answered_setPhase (by omega) hj, h.retriedOnce,
    h.retriedStage_setPhase hstage⟩
  · show (s.setPhase i .pending).phase j = .pending ↔ _
    rw [List.map_append, List.mem_append, ← h.pending j]
    by_cases hj : j = i
    · subst hj
      rw [phase_setPhase_self]
      simp
    · rw [phase_setPhase_of_ne s _ hj]
      simp [hj]
  · rw [hcalls, h.resumed, List.map_append, List.append_assoc]
    rfl
  · rw [hcalls, ← List.concat_eq_append]
    exact h.once.concat hnew
  · intro j hj
    rw [hcalls] at hj
    rcases List.mem_append.mp hj with hj | hj
    · exact h.queuedStage_setPhase hstage j hj
    · obtain rfl := List.mem_singleton.mp hj
      show 2 ≤ Phase.stage ((s.setPhase j .pending).phase j)
      rw [phase_setPhase_self]
      exact Nat.le_refl 2

/-- The head of the queue is resumed: the call is made once more, or settled with an error. -/
theorem resume (h : Books s ((i, options) :: rest)) {newToken : Option String} (hafter : p ≠ .pending)
    (hstage : 3 ≤ p.stage) (hphase : t.phase = (s.setPhase i p).phase) (hqueued : t.queued = s.queued)
    (hresumed : t.resumed = s.resumed ++ [(i, newToken)])
    (hanswer : if truthy newToken then t.retriedCalls = s.retriedCalls ++ [i] else t.retriedCalls = s.retriedCalls
      ∧ p = .settled (.error .loginRequired)) : Books t rest := by
  have hcalls : t.queuedCalls = s.queuedCalls := congrArg (List.map Prod.fst) hqueued
  have hbefore : s.phase i = .pending := (h.pending i).mpr List.mem_cons_self
  have hlow : (s.phase i).stage = 2 := by
    rw [hbefore]
    rfl
  -- no call is in the queue twice
  have hgone : i ∉ rest.map Prod.fst := by
    have honce := h.once
    rw [h.resumed, List.nodup_append] at honce
    exact (List.nodup_cons.mp honce.2.1).1
  have hself : t.phase i = p := by
    rw [hphase]
    exact phase_setPhase_self s i p
  have hother : ∀ j, j ≠ i → t.phase j = s.phase j := by
    intro j hj
    rw [hphase]
    exact phase_setPhase_of_ne s p hj
  have hle : ∀ j, (s.phase j).stage ≤ (t.phase j).stage := by
    intro j
    rw [hphase]
    exact stage_le_setPhase (by omega) j
  constructor
  · intro j
    by_cases hj : j = i
    · subst hj
      rw [hself]
      exact iff_of_false hafter hgone
    · rw [hother j hj, h.pending j, List.map_cons, List.mem_cons]
      exact or_iff_right hj
  · rw [hcalls, hresumed, h.resumed, List.map_append, List.append_assoc]
    rfl
  · rw [hcalls]
    exact h.once
  · intro j hj
    rw [hcalls] at hj
    exact Nat.le_trans (h.queuedStage j hj) (hle j)
  · intro j token hj
    rw [hresumed] at hj
    rcases List.mem_append.mp hj with hj | hj
    · -- an earlier answer stays
      have hold := h.answered_setPhase (i := i) (p := p) (by omega) hj
      rw [← hphase] at hold
      by_cases htoken : truthy token
      · rw [if_pos htoken] at hold ⊢
        by_cases hnew : truthy newToken
        · rw [if_pos hnew] at hanswer
          rw [hanswer]
          exact List.mem_append_left _ hold
        · rw [if_neg hnew] at hanswer
          rw [hanswer.1]
          exact hold
      · rw [if_neg htoken] at hold ⊢
        exact hold
    -- the answer to the call itself
    · obtain ⟨rfl, rfl⟩ := Prod.mk.inj (List.mem_singleton.mp hj)
      by_cases hnew : truthy token
      · rw [if_pos hnew] at hanswer ⊢
        rw [hanswer]
        exact List.mem_append_right _ (List.mem_singleton_self j)
      · rw [if_neg hnew] at hanswer ⊢
        exact hself.trans hanswer.2
  · by_cases hnew : truthy newToken
    · rw [if_pos hnew] at hanswer
      rw [hanswer, ← List.concat_eq_append]
      exact h.retriedOnce.concat (h.not_retried (by omega))
    · rw [if_neg hnew] at hanswer
      rw [hanswer.1]
      exact h.retriedOnce
  · intro j hj
    have hcases : j ∈ s.retriedCalls ∨ j = i := by
      by_cases hnew : truthy newToken
      · rw [if_pos hnew] at hanswer
        rw [hanswer] at hj
        exact (List.mem_append.mp hj).imp_right List.mem_singleton.mp
      · rw [if_neg hnew] at hanswer
        rw [hanswer.1] at hj
        exact .inl hj
    rcases hcases with hj | rfl
    · exact Nat.le_trans (h.retriedStage j hj) (hle j)
    · rw [hself]
      exact hstage

/-- One callback. -/
theorem callback {entry : ι × RequestOptions} (h : Books s (entry :: rest)) (newToken : Option String) :
    Books (s.callback newToken entry) rest := by
  unfold Client.callback
  by_cases htoken : truthy newToken
  · rw [if_pos htoken]
    exact h.resume (p := .fetching { entry.2 with isRetry := true } _) (fun h => by cases h) (Nat.le_refl 3) rfl rfl rfl
      (by rw [if_pos htoken]; exact List.map_append)
  · rw [if_neg htoken]
    exact h.resume (p := .settled (.error .loginRequired)) (fun h => by cases h) (by decide) rfl rfl rfl
      (by rw [if_neg htoken]; exact ⟨rfl, rfl⟩)

/-- All callbacks, one after the other. -/
theorem foldl_callback (newToken : Option String) :
    ∀ (rest : List (ι × RequestOptions)) (s : Client ι), Books s rest →
      Books (rest.foldl (Client.callback newToken) s) [] := by
  intro rest
  induction rest with
  | nil => exact fun s h => h
  | cons entry rest ih => exact fun s h => ih _ (h.callback newToken)

end Books

/-! ## The flag

A refresh is under way as long as one request waits for its answer. The callbacks run when it is over. -/

/-- The callbacks refresh nothing, and leave the flag and the queue alone. -/
theorem refreshes_callback {newToken : Option String} {entry : ι × RequestOptions}
    (h : ((s.callback newToken entry).phase j).Refreshes) : (s.phase j).Refreshes := by
  have hp : ∃ p : Phase, ¬ p.Refreshes ∧ (s.callback newToken entry).phase = (s.setPhase entry.1 p).phase := by
    unfold Client.callback
    split
    · exact ⟨.fetching { entry.2 with isRetry := true } _, id, rfl⟩
    · exact ⟨.settled (.error .loginRequired), id, rfl⟩
  obtain ⟨p, hp, hphase⟩ := hp
  rw [hphase] at h
  by_cases hj : j = entry.1
  · subst hj
    rw [phase_setPhase_self] at h
    exact absurd h hp
  · rwa [phase_setPhase_of_ne s p hj] at h

/-- A call that has no callback in the queue is left alone. -/
theorem phase_foldl {newToken : Option String} (rest : List (ι × RequestOptions)) (hj : j ∉ rest.map Prod.fst) :
    ∀ s : Client ι, (rest.foldl (Client.callback newToken) s).phase j = s.phase j := by
  induction rest with
  | nil => exact fun s => rfl
  | cons entry rest ih =>
    rw [List.map_cons, List.mem_cons, not_or] at hj
    intro s
    refine (ih hj.2 _).trans ?_
    unfold Client.callback
    split
    · exact phase_setPhase_of_ne { s with resumed := s.resumed ++ [(entry.1, newToken)] } _ hj.1
    · exact phase_setPhase_of_ne { s with resumed := s.resumed ++ [(entry.1, newToken)] } _ hj.1

/-- A callback leaves the flag and the queue alone. -/
theorem flag_callback (newToken : Option String) (entry : ι × RequestOptions) :
    (s.callback newToken entry).isRefreshing = s.isRefreshing
      ∧ (s.callback newToken entry).pendingQueue = s.pendingQueue := by
  unfold Client.callback
  split <;> exact ⟨rfl, rfl⟩

/-- The callbacks let no request refresh that has not done so. -/
theorem refreshes_foldl {newToken : Option String} (rest : List (ι × RequestOptions)) :
    ∀ s : Client ι, ((rest.foldl (Client.callback newToken) s).phase j).Refreshes → (s.phase j).Refreshes := by
  induction rest with
  | nil => exact fun s h => h
  | cons entry rest ih => exact fun s h => refreshes_callback (ih _ h)

/-- The callbacks leave the flag and the queue alone. -/
theorem flag_foldl {newToken : Option String} (rest : List (ι × RequestOptions)) :
    ∀ s : Client ι, (rest.foldl (Client.callback newToken) s).isRefreshing = s.isRefreshing
      ∧ (rest.foldl (Client.callback newToken) s).pendingQueue = s.pendingQueue := by
  induction rest with
  | nil => exact fun s => ⟨rfl, rfl⟩
  | cons entry rest ih =>
    intro s
    obtain ⟨hflag, hqueue⟩ := ih (s.callback newToken entry)
    obtain ⟨hflag', hqueue'⟩ := flag_callback (s := s) newToken entry
    exact ⟨hflag.trans hflag', hqueue.trans hqueue'⟩

/-- After the queue is drained, the flag is down, the queue is empty, and a call that refreshes did so before. -/
theorem drain_spec (newToken : Option String) :
    (s.drain newToken).isRefreshing = false ∧ (s.drain newToken).pendingQueue = []
      ∧ ∀ j, ((s.drain newToken).phase j).Refreshes → (s.phase j).Refreshes := by
  obtain ⟨hflag, hqueue⟩ := @flag_foldl ι _ newToken s.pendingQueue
    { s with isRefreshing := false, pendingQueue := [] }
  exact ⟨hflag, hqueue, fun j h => refreshes_foldl s.pendingQueue
    { s with isRefreshing := false, pendingQueue := [] } h⟩

namespace Flag

/-- A call moves that does not start to refresh. -/
theorem of_phase (h : Flag s) {p : Phase} (hp : p.Refreshes → (s.phase i).Refreshes)
    (hphase : t.phase = (s.setPhase i p).phase) (hflag : t.isRefreshing = s.isRefreshing)
    (hqueue : t.pendingQueue = s.pendingQueue) : Flag t := by
  have hbefore : ∀ j, (t.phase j).Refreshes → (s.phase j).Refreshes := by
    intro j hj
    rw [hphase] at hj
    by_cases he : j = i
    · subst he
      rw [phase_setPhase_self] at hj
      exact hp hj
    · rwa [phase_setPhase_of_ne s p he] at hj
  constructor
  · exact fun j k hj hk => h.alone j k (hbefore j hj) (hbefore k hk)
  · intro j hj
    rw [hflag]
    exact h.up j (hbefore j hj)
  · rw [hqueue, hflag]
    exact h.queue

end Flag

/-! ## Steps

Each event of the browser is a step of the requests, or lets the waiting ones go on. -/

/-- The flag is down and the queue is empty once nothing refreshes. -/
def Drained (s : Client ι) : Prop :=
  (∀ i, ¬ (s.phase i).Refreshes) → s.isRefreshing = false ∧ s.pendingQueue = []

/-- What an event can do to the module, where `throws` says whether it ends a refresh with an exception. -/
inductive Move (s : Client ι) (throws : Prop) : Client ι → Prop where
  | same (hthrows : ¬ throws) : Move s throws s
  | stored {t : Client ι} (hthrows : ¬ throws) (ht : t = { s with
      accessToken := t.accessToken, refreshToken := t.refreshToken, replaced := t.replaced }) : Move s throws t
  /-- A call goes on, and refreshes if it did before. -/
  | moved {t : Client ι} {i : ι} {p : Phase} (hthrows : ¬ throws)
      (hbefore : s.phase i ≠ .pending ∧ (s.phase i).stage < 4)
      (hafter : p ≠ .pending ∧ (s.phase i).stage ≤ p.stage) (hp : p.Refreshes ↔ (s.phase i).Refreshes)
      (ht : t = { s.setPhase i p with
      accessToken := t.accessToken, refreshToken := t.refreshToken, issued := t.issued }) :
      Move s throws t
  | queued {i : ι} {options : RequestOptions} (hthrows : ¬ throws) (hfirst : (s.phase i).stage = 1)
      (hflag : s.isRefreshing = true) : Move s throws (s.enqueue i options)
  | started {i : ι} {p : Phase} (hthrows : ¬ throws) (hfirst : (s.phase i).stage = 1)
      (hflag : s.isRefreshing = false) (hp : p.Refreshes) (issued : List (ι × Option String)) :
      Move s throws { s.setPhase i p with isRefreshing := true, refresher := some i, issued }
  | threw {i : ι} {result : Except Failure (Option String)} (hthrows : throws)
      (hbefore : (s.phase i).Refreshes) : Move s throws (s.settle i result)
  | resumed {i : ι} {options : RequestOptions} {newToken : Option String} (hthrows : ¬ throws)
      (hbefore : (s.phase i).Refreshes) : Move s throws (s.resume i options newToken)

theorem Phase.stage_of_refreshes {p : Phase} (h : p.Refreshes) : p.stage = 2 ∧ p ≠ .pending := by
  cases p with
  | refreshing | readingTokens | refreshed => exact ⟨rfl, (fun h => by cases h)⟩
  | _ => exact absurd h id

/-- A call that waits for no refresh goes on and waits for none. -/
theorem Move.of_quiet {p : Phase} (hbefore : s.phase i ≠ .pending ∧ ¬ (s.phase i).Refreshes)
    (hafter : p ≠ .pending ∧ ¬ p.Refreshes) (hopen : (s.phase i).stage < 4) (hstage : (s.phase i).stage ≤ p.stage) :
    Move s False (s.setPhase i p) :=
  .moved id ⟨hbefore.1, hopen⟩ ⟨hafter.1, hstage⟩ (iff_of_false hafter.2 hbefore.2) rfl

/-- Such a call is settled. -/
theorem Move.of_settle (hbefore : s.phase i ≠ .pending ∧ ¬ (s.phase i).Refreshes) (hopen : (s.phase i).stage < 4)
    (result : Except Failure (Option String)) : Move s False (s.settle i result) :=
  .of_quiet hbefore ⟨Phase.noConfusion, id⟩ hopen (Nat.le_of_lt hopen)

/-- A response to a request. -/
theorem respond_move {options : RequestOptions} {authorization : Option String}
    (h : s.phase i = .fetching options authorization) (response : Option (Nat × String)) :
    Move s False (s.respond i options response) := by
  have hbefore : s.phase i ≠ .pending ∧ ¬ (s.phase i).Refreshes := by
    rw [h]
    exact ⟨Phase.noConfusion, id⟩
  have hstage : (s.phase i).stage ≤ 3 := by
    rw [h, Phase.stage]
    split <;> omega
  cases response with
  -- the request has failed without a response
  | none => exact .of_settle hbefore (by omega) _
  | some response =>
    obtain ⟨status, statusText⟩ := response
    show Move s False (if _ then _ else _)
    split
    · next h401 =>
      have hfirst : (s.phase i).stage = 1 := by
        rw [h, Phase.stage, if_neg (by simpa using h401.2)]
      split
      -- a refresh is running, and the call waits for it
      · next hflag => exact .queued id hfirst hflag
      -- the call refreshes itself, with the token it has or with none
      · next hflag =>
        rw [Bool.not_eq_true] at hflag
        unfold Client.refreshAccessToken
        split
        · exact .started (p := .refreshing options) id hfirst hflag trivial s.issued
        · exact .started (p := .refreshed options none) id hfirst hflag trivial (s.issued ++ [(i, none)])
    · split
      · exact .of_settle hbefore (by omega) _
      · exact .of_quiet hbefore ⟨Phase.noConfusion, id⟩ (by omega) hstage

/-- To read a body ends a request. -/
theorem readBody_move {status : Nat} {statusText : String} (h : s.phase i = .readingBody status statusText)
    (body : Option String) : Move s False (s.readBody i status statusText body) := by
  have hbefore : s.phase i ≠ .pending ∧ ¬ (s.phase i).Refreshes := by
    rw [h]
    exact ⟨Phase.noConfusion, id⟩
  have hopen : (s.phase i).stage < 4 := by
    rw [h]
    show 3 < 4
    omega
  unfold Client.readBody
  split
  · cases body with
    | none => exact .of_settle hbefore hopen _
    | some body => exact .of_settle hbefore hopen _
  · exact .of_settle hbefore hopen _

/-- A call that refreshes goes on refreshing. -/
theorem Move.of_refreshes {throws : Prop} {p : Phase} (hthrows : ¬ throws) (hbefore : (s.phase i).Refreshes)
    (hp : p.Refreshes)
    (ht : t = { s.setPhase i p with
      accessToken := t.accessToken, refreshToken := t.refreshToken, issued := t.issued }) :
    Move s throws t := by
  obtain ⟨hstage, hpending⟩ := Phase.stage_of_refreshes hbefore
  obtain ⟨hstage', hpending'⟩ := Phase.stage_of_refreshes hp
  exact .moved hthrows ⟨hpending, by omega⟩ ⟨hpending', by omega⟩ (iff_of_true hp hbefore) ht

/-- **Every event** makes one of the moves. -/
theorem step_move (s : Client ι) (e : Event ι) : Move s (Throws s e) (s.step e) := by
  cases e with
  | called i options =>
    unfold Client.step
    dsimp only
    split
    · next h =>
      have hbefore : s.phase i ≠ .pending ∧ ¬ (s.phase i).Refreshes := by
        rw [h]
        exact ⟨Phase.noConfusion, id⟩
      have hstage : (s.phase i).stage = 0 := by
        rw [h]
        rfl
      exact .of_quiet hbefore ⟨Phase.noConfusion, id⟩ (by omega) (by omega)
    · exact .same id
  | responded i response =>
    unfold Client.step
    dsimp only
    split
    · next h => exact respond_move h response
    · exact .same id
  | bodyRead i body =>
    unfold Client.step
    dsimp only
    split
    · next h => exact readBody_move h body
    · exact .same id
  -- without a response `fetch` throws; any status is a move
  | refreshResponded i response =>
    unfold Client.step
    dsimp only
    split
    · next options h =>
      have hbefore : (s.phase i).Refreshes := by
        rw [h]
        trivial
      cases response with
      | none => exact .threw ⟨rfl, options, h⟩ hbefore
      | some status =>
        have hthrows : ¬ Throws s (.refreshResponded i (some status)) := fun hthrows => (by cases hthrows.1)
        unfold Client.respondRefresh
        dsimp only
        split
        · exact .of_refreshes (p := .readingTokens options) hthrows hbefore trivial rfl
        · exact .of_refreshes (p := .refreshed options none) hthrows hbefore trivial rfl
    · next h => exact .same fun hthrows => h _ hthrows.2.choose_spec
  | tokensRead i data =>
    unfold Client.step
    dsimp only
    split
    · next options h =>
      have hbefore : (s.phase i).Refreshes := by
        rw [h]
        trivial
      cases data with
      | none => exact .threw ⟨rfl, options, h⟩ hbefore
      | some data =>
        have hthrows : ¬ Throws s (.tokensRead i (some data)) := fun hthrows => (by cases hthrows.1)
        exact .of_refreshes (p := .refreshed options data.1) hthrows hbefore trivial rfl
    · next h => exact .same fun hthrows => h _ hthrows.2.choose_spec
  -- the refresh is over, and its call hands on what it has brought
  | continued i =>
    unfold Client.step
    dsimp only
    split
    · next options newToken h =>
      refine .resumed id ?_
      rw [h]
      trivial
    · exact .same id
  | stored accessToken refreshToken => exact .stored id rfl

/-- After a refreshed call goes on, the queue is drained. -/
theorem resume_spec (h : Kept s) {options : RequestOptions} {newToken : Option String}
    (hbefore : (s.phase i).Refreshes) :
    Books (s.resume i options newToken) [] ∧ (s.resume i options newToken).isRefreshing = false
      ∧ (s.resume i options newToken).pendingQueue = []
      ∧ ∀ j, ¬ ((s.resume i options newToken).phase j).Refreshes := by
  have hdrained : Books (s.drain newToken) [] := by
    refine Books.foldl_callback newToken s.pendingQueue _ ?_
    exact h.books.congr rfl rfl rfl rfl
  obtain ⟨hflag, hqueue, hrefreshes⟩ := drain_spec (s := s) newToken
  -- the call itself has no callback, so that the queue leaves its phase alone
  have hphase : ((s.drain newToken).phase i).stage = 2 ∧ (s.drain newToken).phase i ≠ .pending := by
    obtain ⟨hstage, hpending⟩ := Phase.stage_of_refreshes hbefore
    have hnot : i ∉ s.pendingQueue.map Prod.fst := fun hi => hpending ((h.books.pending i).mpr hi)
    have hsame : (s.drain newToken).phase i = s.phase i := phase_foldl s.pendingQueue hnot _
    rw [hsame]
    exact ⟨hstage, hpending⟩
  have hquiet : ∀ p : Phase, ¬ p.Refreshes → ∀ j, ¬ (((s.drain newToken).setPhase i p).phase j).Refreshes := by
    intro p hp j hj
    by_cases he : j = i
    · subst he
      rw [phase_setPhase_self] at hj
      exact hp hj
    · rw [phase_setPhase_of_ne _ p he] at hj
      exact he (h.flag.alone j i (hrefreshes j hj) hbefore)
  unfold Client.resume
  dsimp only
  split
  · exact ⟨(hdrained.retry hphase.2 (by omega) options).congr rfl rfl rfl rfl, hflag, hqueue,
      hquiet (.fetching { options with isRetry := true } _) id⟩
  · have hsettled : Books ((s.drain newToken).settle i (.error .sessionExpired)) [] :=
      hdrained.setPhase hphase.2 Phase.noConfusion (by omega) (by rw [hphase.1]; decide)
    exact ⟨hsettled.congr rfl rfl rfl rfl, hflag, hqueue, hquiet (.settled (.error .sessionExpired)) id⟩

/-- **Every move** keeps the calls, the flag and the queue in step. -/
theorem Move.kept {throws : Prop} (hmove : Move s throws t) (h : Kept s) : Kept t := by
  cases hmove with
  | same => exact h
  | stored _ ht =>
    rw [ht]
    exact ⟨h.books.congr rfl rfl rfl rfl, h.flag.alone, h.flag.up, h.flag.queue⟩
  | moved _ hbefore hafter hp ht =>
    rw [ht]
    refine ⟨?_, h.flag.of_phase hp.mp rfl rfl rfl⟩
    exact (h.books.setPhase hbefore.1 hafter.1 hbefore.2 hafter.2).congr rfl rfl rfl rfl
  | @queued i options _ hfirst hflag =>
    refine ⟨h.books.enqueue hfirst options, ?_⟩
    have hmoved : Flag (s.setPhase i .pending) := h.flag.of_phase (fun hp => absurd hp id) rfl rfl rfl
    exact ⟨hmoved.alone, hmoved.up, fun _ => hflag⟩
  | @started i p _ hfirst hflag hp =>
    -- nothing refreshes while the flag is down
    have hnone : ∀ j, ¬ (s.phase j).Refreshes := fun j hj => by
      rw [h.flag.up j hj] at hflag
      cases hflag
    have hself : ∀ j, (({ s with isRefreshing := true }.setPhase i p).phase j).Refreshes → j = i := by
      intro j hj
      by_contra hne
      rw [phase_setPhase_of_ne _ p hne] at hj
      exact hnone j hj
    obtain ⟨hstage, hpending⟩ := Phase.stage_of_refreshes hp
    have hbefore : s.phase i ≠ .pending := fun he => by
      rw [he] at hfirst
      exact absurd hfirst (by decide)
    refine ⟨?_, fun j k hj hk => (hself j hj).trans (hself k hk).symm, fun _ _ => rfl, fun _ => rfl⟩
    exact (h.books.setPhase hbefore hpending (by omega) (by omega)).congr rfl rfl rfl rfl
  | @threw i result _ hbefore =>
    obtain ⟨hstage, hpending⟩ := Phase.stage_of_refreshes hbefore
    refine ⟨?_, h.flag.of_phase (p := .settled result) (fun hp => absurd hp id) rfl rfl rfl⟩
    exact h.books.setPhase hpending Phase.noConfusion (by omega) (by rw [hstage]; show 2 ≤ 4; omega)
  | resumed _ hbefore =>
    obtain ⟨hbooks, hflag, hqueue, hnone⟩ := resume_spec h hbefore
    refine ⟨hqueue ▸ hbooks, fun j _ hj _ => absurd hj (hnone j), fun j hj => absurd hj (hnone j), fun hne => ?_⟩
    exact absurd hqueue hne

/-- **Flag and queue.** Only an exception out of `refreshAccessToken` leaves them behind: every other move that ends
the refresh takes the flag down and empties the queue. -/
theorem Move.drained_iff {throws : Prop} (hmove : Move s throws t) (h : Kept s) (hdrained : Drained s) :
    Drained t ↔ ¬ throws := by
  cases hmove with
  | same hthrows => exact iff_of_true hdrained hthrows
  | stored hthrows ht =>
    rw [ht]
    exact iff_of_true hdrained hthrows
  | @moved _ i p hthrows _ _ hp ht =>
    rw [ht]
    refine iff_of_true (fun hnone => hdrained fun j hj => hnone j ?_) hthrows
    show ((s.setPhase i p).phase j).Refreshes
    by_cases hj' : j = i
    · subst hj'
      rw [phase_setPhase_self]
      exact hp.mpr hj
    · rwa [phase_setPhase_of_ne s p hj']
  | @queued i options hthrows hfirst hflag =>
    refine iff_of_true (fun hnone => ?_) hthrows
    -- somebody refreshes, as the flag is up, and still does
    have hall : ∀ j, ¬ (s.phase j).Refreshes := by
      intro j hj
      have hne : j ≠ i := by
        rintro rfl
        have hstage := (Phase.stage_of_refreshes hj).1
        omega
      apply hnone j
      show ((s.setPhase i .pending).phase j).Refreshes
      rwa [phase_setPhase_of_ne s _ hne]
    rw [(hdrained hall).1] at hflag
    cases hflag
  | @started i p hthrows _ _ hp =>
    refine iff_of_true (fun hnone => absurd ?_ (hnone i)) hthrows
    rw [phase_setPhase_self]
    exact hp
  | @threw i result hthrows hbefore =>
    refine iff_of_false (fun hdrained' => ?_) (not_not_intro hthrows)
    -- the only call that refreshed is settled, and the flag is still up
    have hnone : ∀ j, ¬ ((s.setPhase i (.settled result)).phase j).Refreshes := by
      intro j hj
      by_cases hj' : j = i
      · subst hj'
        rw [phase_setPhase_self] at hj
        exact hj
      · rw [phase_setPhase_of_ne s _ hj'] at hj
        exact hj' (h.flag.alone j i hj hbefore)
    have hflag : s.isRefreshing = false := (hdrained' hnone).1
    rw [h.flag.up i hbefore] at hflag
    cases hflag
  | resumed hthrows hbefore =>
    obtain ⟨-, hflag, hqueue, -⟩ := resume_spec h hbefore
    exact iff_of_true (fun _ => ⟨hflag, hqueue⟩) hthrows

end AcaSocial.Frontend
