import AcaSocial.Gateway.RateLimit

/-!
# Calls of the limiter beside its cleaner

`localRateLimitWait` first gets the visitor of its key, and locks it afterwards. In between, `cleanupVisitors` may lock
the same visitor, find it idle and take it out of the map.

* **`VisitorStep`** — the atomic steps of calls and of the cleaner, over a heap of visitors.
* **`LeavesHeld`** — the cleaner deletes no visitor that a call has got and not locked yet.
* **`VisitorState.Kept`** — while that is so, every call locks the visitor that the map has for its key.
* **`cleanup_keeps_limit`** — then no window has more admissions than the limit.
-/

namespace AcaSocial.Gateway

/-! ## Steps

Calls and runs of the cleaner, each in the steps between which others run. -/

/-- The visitors by their addresses, the map, and what the calls in flight have got from it. -/
structure VisitorState where
  heap : Nat → Visitor := fun _ => {}
  fresh : Nat := 0
  visitors : String → Option Nat := fun _ => none
  inFlight : Nat → Option (String × Nat) := fun _ => none

/-- An atomic step. Calls are told apart by numbers. -/
inductive VisitorStep where
  /-- `visitors.LoadOrStore(key, &visitor{})` -/
  | loadOrStore (call : Nat) (key : String)
  /-- The section of a call under the mutex of its visitor. -/
  | locked (call : Nat) (now : Int)
  /-- A visit of the cleaner to an entry, under the mutex of the visitor. -/
  | visit (key : String) (v : Nat) (now : Int)

/-- What the clock says in the step. -/
def VisitorStep.time : VisitorStep → Option Int
  | .loadOrStore _ _ => none
  | .locked _ now | .visit _ _ now => some now

namespace VisitorState

/-- A new visitor, and the map that has it. -/
def store (s : VisitorState) (key : String) : VisitorState :=
  { s with
    heap := Function.update s.heap s.fresh {}
    fresh := s.fresh + 1
    visitors := Function.update s.visitors key (some s.fresh) }

/-- What a call that has not locked its visitor knows. -/
def setInFlight (s : VisitorState) (call : Nat) (got : Option (String × Nat)) : VisitorState :=
  { s with inFlight := Function.update s.inFlight call got }

def step (limit : String → Nat) (s : VisitorState) : VisitorStep → VisitorState
  | .loadOrStore call key =>
    match s.inFlight call, s.visitors key with
    | some _, _ => s
    | none, some v => s.setInFlight call (some (key, v))
    | none, none => (s.store key).setInFlight call (some (key, s.fresh))
  | .locked call now =>
    match s.inFlight call with
    | none => s
    | some (key, v) =>
      { s with heap := Function.update s.heap v ((s.heap v).wait (limit key) now).2 }.setInFlight call none
  | .visit key v now =>
    if (s.heap v).idle now = true ∧ s.visitors key = some v then
      { s with visitors := Function.update s.visitors key none }
    else s

/-- What a call returns at the end of its section. -/
def answer (limit : String → Nat) (s : VisitorState) : VisitorStep → Option (LimiterAnswer String)
  | .locked call now => (s.inFlight call).map fun (key, v) => ⟨key, now, ((s.heap v).wait (limit key) now).1⟩
  | _ => none

/-- The answers of a run, in the order of the sections. -/
def answers (limit : String → Nat) (es : List VisitorStep) : List (LimiterAnswer String) :=
  record (step limit) (answer limit) {} es

/-- **The cleaner deletes no visitor that a call in flight has got.** -/
def LeavesHeld (s : VisitorState) : VisitorStep → Prop
  | .visit key v now => (s.heap v).idle now = true → s.visitors key = some v →
      ∀ call k, s.inFlight call ≠ some (k, v)
  | _ => True

end VisitorState

/-- Steps whose times do not go back. -/
def TimelySteps (es : List VisitorStep) : Prop := (es.filterMap VisitorStep.time).Pairwise (· ≤ ·)

instance (es : List VisitorStep) : Decidable (TimelySteps es) :=
  inferInstanceAs (Decidable (List.Pairwise _ _))

/-! ## What is kept

A visitor that is held is the one in the map, or has been deleted. -/

namespace VisitorState

variable {limit : String → Nat} {now : Int} {s : VisitorState} {log : String → List Int} {key : String} {call v : Nat}

/-- The requests of the visitor that the map has for a key. -/
def requests (s : VisitorState) (key : String) : List Int :=
  (s.visitors key).elim [] fun v => (s.heap v).requests

/-- The map has one visitor for each key, and the calls in flight have got these. They remember the admissions. -/
structure Kept (now : Int) (s : VisitorState) (log : String → List Int) : Prop where
  held : ∀ call key v, s.inFlight call = some (key, v) → s.visitors key = some v
  allocated : ∀ key v, s.visitors key = some v → v < s.fresh
  apart : ∀ key key' v, s.visitors key = some v → s.visitors key' = some v → key = key'
  recalls : ∀ key, Recalls rateWindow now (s.requests key) (log key)
  seen : ∀ key v, s.visitors key = some v →
    ∀ a ∈ (s.heap v).requests, ∃ seen, (s.heap v).lastSeen = some seen ∧ a ≤ seen

/-- Time keeps the invariant. -/
theorem Kept.later {now' : Int} (h : s.Kept now log) (hle : now ≤ now') : s.Kept now' log :=
  { h with recalls := fun key => (h.recalls key).later hle }

/-- A call that has got the visitor of its key. -/
theorem Kept.got (h : s.Kept now log) (hkey : s.visitors key = some v) :
    (s.setInFlight call (some (key, v))).Kept now log := by
  refine { h with held := fun call' key' v' hin => ?_ }
  have hin : Function.update s.inFlight call (some (key, v)) call' = some (key', v') := hin
  by_cases hc : call' = call
  · subst hc
    rw [Function.update_self] at hin
    cases Option.some.inj hin
    exact hkey
  · rw [Function.update_of_ne hc] at hin
    exact h.held call' key' v' hin

/-- What the map has after a store: the new address, which nobody has got, and the old ones. -/
theorem visitors_store (h : s.Kept now log) {key' : String} {v' : Nat} (hv : (s.store key).visitors key' = some v') :
    (key' = key ∧ v' = s.fresh) ∨ (key' ≠ key ∧ s.visitors key' = some v' ∧ v' < s.fresh) := by
  have hv : Function.update s.visitors key (some s.fresh) key' = some v' := hv
  by_cases hk : key' = key
  · subst hk
    rw [Function.update_self] at hv
    exact .inl ⟨rfl, (Option.some.inj hv).symm⟩
  · rw [Function.update_of_ne hk] at hv
    exact .inr ⟨hk, hv, h.allocated key' v' hv⟩

/-- A new visitor has no requests. -/
theorem Kept.store (h : s.Kept now log) (hkey : s.visitors key = none) : (s.store key).Kept now log := by
  -- the new visitor is where nothing was before
  have hnew : (s.store key).heap s.fresh = {} := Function.update_self _ _ _
  have hold : ∀ v', v' < s.fresh → (s.store key).heap v' = s.heap v' :=
    fun v' hlt => Function.update_of_ne (Nat.ne_of_lt hlt) _ _
  refine ⟨?_, ?_, ?_, ?_, ?_⟩
  · intro call' key' v' hin
    have hv := h.held call' key' v' hin
    have hk : key' ≠ key := fun hk => by
      rw [hk, hkey] at hv
      cases hv
    exact (Function.update_of_ne hk _ _).trans hv
  · intro key' v' hv
    show v' < s.fresh + 1
    rcases visitors_store h hv with ⟨-, rfl⟩ | ⟨-, -, hlt⟩
    · exact Nat.lt_succ_self _
    · exact Nat.lt_succ_of_lt hlt
  · intro key' key'' v' hv hv'
    rcases visitors_store h hv with ⟨hk, rfl⟩ | ⟨-, hv, hlt⟩ <;>
      rcases visitors_store h hv' with ⟨hk', he⟩ | ⟨-, hv', hlt'⟩
    · rw [hk, hk']
    · exact absurd hlt' (Nat.lt_irrefl _)
    · exact absurd (he ▸ hlt) (Nat.lt_irrefl _)
    · exact h.apart key' key'' v' hv hv'
  · intro key'
    have hsame : (s.store key).requests key' = s.requests key' := by
      unfold requests
      by_cases hk : key' = key
      · have hv : (s.store key).visitors key' = some s.fresh := hk ▸ Function.update_self _ _ _
        rw [hv, hk, hkey]
        show ((s.store key).heap s.fresh).requests = []
        rw [hnew]
      · have hv : (s.store key).visitors key' = s.visitors key' := Function.update_of_ne hk _ _
        rw [hv]
        cases hv : s.visitors key' with
        | none => rfl
        | some v' =>
          show ((s.store key).heap v').requests = (s.heap v').requests
          rw [hold v' (h.allocated key' v' hv)]
    rw [hsame]
    exact h.recalls key'
  · intro key' v' hv a ha
    rcases visitors_store h hv with ⟨-, rfl⟩ | ⟨-, hv, hlt⟩
    · rw [hnew] at ha
      exact absurd ha List.not_mem_nil
    · rw [hold v' hlt] at ha ⊢
      exact h.seen key' v' hv a ha

/-- A call gets the visitor of its key, or stores one. -/
theorem Kept.loadOrStore (h : s.Kept now log) : (s.step limit (.loadOrStore call key)).Kept now log := by
  unfold step
  dsimp only
  split
  · exact h
  · next hkey => exact h.got hkey
  · next hkey => exact (h.store hkey).got (Function.update_self _ _ _)

/-- The cleaner deletes a visitor that nobody has got, and that has been idle for longer than a window. -/
theorem Kept.visit (h : s.Kept now log) (hleaves : s.LeavesHeld (.visit key v now)) :
    (s.step limit (.visit key v now)).Kept now log := by
  unfold step
  dsimp only
  split
  case isFalse => exact h
  case isTrue hdelete =>
    obtain ⟨hidle, hkey⟩ := hdelete
    -- the other visitors stay
    have hvisitors : ∀ key' v', Function.update s.visitors key none key' = some v' →
        key' ≠ key ∧ s.visitors key' = some v' := by
      intro key' v' hv
      by_cases hk : key' = key
      · rw [hk, Function.update_self] at hv
        cases hv
      · exact ⟨hk, (Function.update_of_ne hk _ _).symm.trans hv⟩
    refine ⟨?_, ?_, ?_, ?_, ?_⟩
    · intro call' key' v' hin
      have hv := h.held call' key' v' hin
      have hk : key' ≠ key := fun hk => by
        rw [hk, hkey] at hv
        cases Option.some.inj hv
        exact hleaves hidle hkey call' key' hin
      exact (Function.update_of_ne hk _ _).trans hv
    · exact fun key' v' hv => h.allocated key' v' (hvisitors key' v' hv).2
    · exact fun key' key'' v' hv hv' => h.apart key' key'' v' (hvisitors key' v' hv).2 (hvisitors key'' v' hv').2
    · intro key'
      by_cases hk : key' = key
      · subst hk
        have hrecalls := h.recalls key'
        unfold requests at hrecalls ⊢
        dsimp only
        rw [hkey] at hrecalls
        rw [Function.update_self]
        -- whatever it has seen is older than a window
        refine hrecalls.forget fun a ha => ?_
        obtain ⟨seen, hseen, hle⟩ := h.seen key' v hkey a ha
        unfold Visitor.idle at hidle
        rw [hseen] at hidle
        have hlong : now - seen > 600 * second := of_decide_eq_true hidle
        unfold rateWindow second at *
        omega
      · have hrecalls := h.recalls key'
        unfold requests at hrecalls ⊢
        dsimp only
        rw [Function.update_of_ne hk]
        exact hrecalls
    · exact fun key' v' hv => h.seen key' v' (hvisitors key' v' hv).2

/-- **A section** does with the visitor of its key what the sliding window does. -/
theorem Kept.locked (hlimit : ∀ key, 1 ≤ limit key) (h : s.Kept now log) (hcall : s.inFlight call = some (key, v)) :
    ((s.heap v).wait (limit key) now).1 = ((slidingWindow limit rateWindow).call log key now).1
      ∧ (s.step limit (.locked call now)).Kept now ((slidingWindow limit rateWindow).call log key now).2 := by
  have hkey := h.held call key v hcall
  have hrecalls := h.recalls key
  unfold requests at hrecalls
  rw [hkey] at hrecalls
  obtain ⟨hwait, hnext⟩ := Visitor.wait_recalls hrecalls (hlimit key)
  refine ⟨hwait, ?_⟩
  have hstep : s.step limit (.locked call now) =
      { s with heap := Function.update s.heap v ((s.heap v).wait (limit key) now).2 }.setInFlight call none := by
    unfold step
    dsimp only
    rw [hcall]
  rw [hstep]
  -- the visitors of the other keys have other addresses
  have hothers : ∀ key' v', s.visitors key' = some v' → key' ≠ key → v' ≠ v :=
    fun key' v' hv hk he => hk (h.apart key' key v' hv (he ▸ hkey))
  refine ⟨?_, h.allocated, h.apart, ?_, ?_⟩
  · intro call' key' v' hin
    have hin : Function.update s.inFlight call none call' = some (key', v') := hin
    by_cases hc : call' = call
    · rw [hc, Function.update_self] at hin
      cases hin
    · rw [Function.update_of_ne hc] at hin
      exact h.held call' key' v' hin
  · intro key'
    unfold requests setInFlight
    dsimp only
    by_cases hk : key' = key
    · rw [hk, hkey]
      show Recalls rateWindow now (Function.update s.heap v _ v).requests _
      rw [Function.update_self]
      exact hnext
    · rw [slidingWindow_call_of_ne limit rateWindow log now hk]
      have hold := h.recalls key'
      unfold requests at hold
      cases hv : s.visitors key' with
      | none =>
        rw [hv] at hold
        exact hold
      | some v' =>
        rw [hv] at hold
        show Recalls rateWindow now (Function.update s.heap v _ v').requests _
        rw [Function.update_of_ne (hothers key' v' hv hk)]
        exact hold
  · intro key' v' hv a ha
    have ha : a ∈ (Function.update s.heap v ((s.heap v).wait (limit key) now).2 v').requests := ha
    show ∃ seen, (Function.update s.heap v ((s.heap v).wait (limit key) now).2 v').lastSeen = some seen ∧ a ≤ seen
    by_cases hk : v' = v
    · subst hk
      rw [Function.update_self] at ha ⊢
      exact ⟨now, Visitor.lastSeen_wait _ _ _, hnext.le a ha⟩
    · rw [Function.update_of_ne hk] at ha ⊢
      exact h.seen key' v' hv a ha

/-! ## Runs

The limit is kept along every run in which no visitor is deleted while a call holds it. -/

/-- The call of the sliding window that a section is. -/
def event (s : VisitorState) : VisitorStep → Option (LimiterEvent String)
  | .locked call now => (s.inFlight call).map fun (key, _) => .call key now
  | _ => none

/-- A step that leaves what is held answers as the sliding window, and keeps what is kept. -/
theorem Kept.step (hlimit : ∀ key, 1 ≤ limit key) {e : VisitorStep} (h : s.Kept now log) (htime : ∀ t ∈ e.time, t = now)
    (hleaves : s.LeavesHeld e) :
    (s.answer limit e).toList = (slidingWindow limit rateWindow).answersFrom log (s.event e).toList
      ∧ (s.step limit e).Kept now (run (slidingWindow limit rateWindow).step log (s.event e).toList) := by
  cases e with
  | loadOrStore call key => exact ⟨rfl, h.loadOrStore⟩
  | visit key v t =>
    cases htime t rfl
    exact ⟨rfl, h.visit hleaves⟩
  | locked call t =>
    cases htime t rfl
    unfold answer event
    dsimp only
    cases hcall : s.inFlight call with
    | none =>
      have hstep : s.step limit (.locked call now) = s := by
        unfold VisitorState.step
        dsimp only
        rw [hcall]
      rw [hstep]
      exact ⟨rfl, h⟩
    | some got =>
      have hgot : s.inFlight call = some (got.1, got.2) := hcall
      obtain ⟨hwait, hnext⟩ := h.locked hlimit hgot
      exact ⟨congrArg (fun x => [LimiterAnswer.mk got.1 now x]) hwait, hnext⟩

/-- **A run that leaves what is held** answers as the sliding window. -/
theorem Kept.answers (hlimit : ∀ key, 1 ≤ limit key) {es : List VisitorStep} (h : s.Kept now log)
    (hes : TimelySteps es) (hle : ∀ t ∈ es.filterMap VisitorStep.time, now ≤ t)
    (hleaves : Meets (VisitorState.step limit) LeavesHeld s es) :
    record (VisitorState.step limit) (answer limit) s es
      = (slidingWindow limit rateWindow).answersFrom log (record (VisitorState.step limit) event s es) := by
  induction es generalizing s log now with
  | nil => rfl
  | cons e es ih =>
    -- the clock has moved when the step reads it
    have hnow : ∃ now', s.Kept now' log ∧ (∀ t ∈ e.time, t = now') ∧ TimelySteps es
        ∧ ∀ t ∈ es.filterMap VisitorStep.time, now' ≤ t := by
      unfold TimelySteps at hes ⊢
      cases ht : e.time with
      | none =>
        rw [List.filterMap_cons_none ht] at hes hle
        exact ⟨now, h, fun t ht => (by cases ht), hes, hle⟩
      | some t =>
        rw [List.filterMap_cons_some ht] at hes hle
        obtain ⟨hfirst, hes⟩ := List.pairwise_cons.mp hes
        exact ⟨t, h.later (hle t List.mem_cons_self), fun t' ht' => (Option.some.inj ht').symm, hes, hfirst⟩
    obtain ⟨now', h', htime, hes', hle'⟩ := hnow
    obtain ⟨hanswer, hnext⟩ := h'.step hlimit htime hleaves.1
    rw [record, record, hanswer, ih hnext hes' hle' hleaves.2]
    exact (record_append log _ _).symm

/-- The times of the calls are among those of the steps. -/
theorem timely_events {es : List VisitorStep} (hes : TimelySteps es) :
    Timely (record (VisitorState.step limit) event s es) := by
  have hsub : ((record (VisitorState.step limit) event s es).map LimiterEvent.time).Sublist
      (es.filterMap VisitorStep.time) := by
    clear hes
    induction es generalizing s with
    | nil => exact .slnil
    | cons e es ih =>
      have hrest := ih (s := s.step limit e)
      rw [record, List.map_append]
      cases e with
      | loadOrStore => exact hrest
      | visit => exact hrest.cons _
      | locked call now =>
        unfold event
        dsimp only
        cases s.inFlight call with
        | none => exact hrest.cons _
        | some got => exact hrest.cons_cons _
  exact List.pairwise_map.mp (hes.sublist hsub)

theorem kept_init (now : Int) : VisitorState.Kept now {} fun _ => [] where
  held _ _ _ h := (by cases h)
  allocated _ _ h := (by cases h)
  apart _ _ _ h := (by cases h)
  recalls _ := .nil _ _
  seen _ _ h := (by cases h)

/-- **Cleanup does not raise the limit** in a run in which the cleaner deletes no visitor that a call in flight has got. -/
theorem cleanup_keeps_limit (limit : String → Nat) (hlimit : ∀ key, 1 ≤ limit key) (es : List VisitorStep)
    (hes : TimelySteps es) (hleaves : Meets (VisitorState.step limit) LeavesHeld {} es) (key : String) (t : Int) :
    inWindow rateWindow t (admissions (VisitorState.answers limit es) key) ≤ limit key := by
  have hbefore : ∃ now, ∀ t ∈ es.filterMap VisitorStep.time, now ≤ t := by
    unfold TimelySteps at hes
    cases htimes : es.filterMap VisitorStep.time with
    | nil => exact ⟨0, fun _ ht => absurd ht List.not_mem_nil⟩
    | cons t ts =>
      rw [htimes] at hes
      refine ⟨t, fun t' ht' => ?_⟩
      rcases List.mem_cons.mp ht' with rfl | ht'
      · exact Int.le_refl _
      · exact (List.pairwise_cons.mp hes).1 t' ht'
  obtain ⟨now, hnow⟩ := hbefore
  unfold VisitorState.answers
  rw [(kept_init now).answers hlimit hes hnow hleaves]
  exact bounded_slidingWindow (by decide) (timely_events hes) key t

/-- The cleaner deletes a visitor that no call has got any more. -/
def idleVisitor : List VisitorStep :=
  [.loadOrStore 0 "ratelimit:v2:login", .locked 0 0, .visit "ratelimit:v2:login" 0 (900 * second),
    .loadOrStore 1 "ratelimit:v2:login", .locked 1 (900 * second)]

theorem cleanup_keeps_limit_idle :
    inWindow rateWindow (900 * second) (admissions (VisitorState.answers (fun _ => 1) idleVisitor) "ratelimit:v2:login")
      ≤ 1 := by
  have hleaves : Meets (VisitorState.step fun _ => 1) LeavesHeld {} idleVisitor := by
    refine ⟨trivial, trivial, fun _ _ call k hin => ?_, trivial, trivial, trivial⟩
    by_cases hc : call = 0
    · rw [hc] at hin
      cases hin
    · cases (Function.update_of_ne hc _ _).symm.trans ((Function.update_of_ne hc _ _).symm.trans hin)
  exact cleanup_keeps_limit (fun _ => 1) (fun _ => Nat.le_refl 1) idleVisitor (by decide) hleaves
    "ratelimit:v2:login" (900 * second)

/-- A call has got its visitor when the cleaner deletes it, so that another call gets another one. -/
def deletedVisitor : List VisitorStep :=
  [.loadOrStore 0 "ratelimit:v2:login", .visit "ratelimit:v2:login" 0 (300 * second),
    .loadOrStore 1 "ratelimit:v2:login", .locked 0 (300 * second), .locked 1 (300 * second)]

theorem not_cleanup_keeps_limit :
    ¬ ∀ (limit : String → Nat), (∀ key, 1 ≤ limit key) → ∀ es : List VisitorStep, TimelySteps es → ∀ key t,
      inWindow rateWindow t (admissions (VisitorState.answers limit es) key) ≤ limit key := by
  intro h
  have hone := h (fun _ => 1) (fun _ => Nat.le_refl 1) deletedVisitor (by decide) "ratelimit:v2:login" (300 * second)
  exact absurd hone (by decide)

end VisitorState

end AcaSocial.Gateway
