import Mathlib.Data.List.Basic
import Mathlib.Data.List.Count
import Mathlib.Data.List.Induction
import Mathlib.Logic.Function.Basic
import AcaSocial.Base.Run

/-!
# Sliding windows

A limiter admits a call under a key or tells it how long to wait. Between the calls it may clean up.

* **`Limiter`** — a limiter as a state machine, over events with times.
* **`slidingWindow`** — the limiter that keeps the times of all admissions, and admits a call when fewer than the limit
  are less than a window old.
* **`Limiter.IsSlidingWindow`** — what a client can see of that: when it is admitted, how many are, what a wait means.
* **`Limiter.Simulation`** — two limiters that answer alike. `Simulation.isSlidingWindow` carries what a client sees
  from `slidingWindow` to a limiter that forgets what is too old.
-/

namespace AcaSocial

variable {σ τ κ : Type}

/-- Something that happens to a limiter at a time. -/
inductive LimiterEvent (κ : Type) where
  | call (key : κ) (time : Int)
  | tick (time : Int)

def LimiterEvent.time : LimiterEvent κ → Int
  | .call _ t | .tick t => t

def LimiterEvent.isCall : LimiterEvent κ → Bool
  | .call _ _ => true
  | .tick _ => false

/-- The event is no call under the key. -/
def LimiterEvent.Spares (k : κ) : LimiterEvent κ → Prop
  | .call k' _ => k' ≠ k
  | .tick _ => True

/-- What a call was answered with: how long it has to wait, zero when it is admitted. -/
structure LimiterAnswer (κ : Type) where
  key : κ
  time : Int
  wait : Int
  deriving DecidableEq

/-- Events whose times do not go back. -/
def Timely (es : List (LimiterEvent κ)) : Prop := es.Pairwise fun e e' => e.time ≤ e'.time

/-- A limiter, which answers calls and cleans up. -/
structure Limiter (σ κ : Type) where
  init : σ
  call : σ → κ → Int → Int × σ
  tick : σ → Int → σ

namespace Limiter

variable (L : Limiter σ κ)

def step (s : σ) : LimiterEvent κ → σ
  | .call k t => (L.call s k t).2
  | .tick t => L.tick s t

/-- What a call in the state `s` is answered with. -/
def answer (s : σ) : LimiterEvent κ → Option (LimiterAnswer κ)
  | .call k t => some ⟨k, t, (L.call s k t).1⟩
  | .tick _ => none

/-- The state after some events. -/
def state (es : List (LimiterEvent κ)) : σ := run L.step L.init es

/-- The answers to the calls among some events, in their order. -/
def answersFrom (s : σ) (es : List (LimiterEvent κ)) : List (LimiterAnswer κ) := record L.step L.answer s es

/-- The wait of a call after some events. -/
def wait (es : List (LimiterEvent κ)) (k : κ) (t : Int) : Int := (L.call (L.state es) k t).1

end Limiter

variable [DecidableEq κ]

/-- The times of the calls under a key that were admitted. -/
def admissions (as : List (LimiterAnswer κ)) (k : κ) : List Int :=
  (as.filter fun a => decide (a.key = k ∧ a.wait = 0)).map LimiterAnswer.time

/-- How many of the times lie in the window that ends at `t`. -/
def inWindow (w t : Int) (log : List Int) : Nat := log.countP fun a => decide (t - w < a ∧ a ≤ t)

/-- The times of the calls under a key that were admitted during some events. -/
def Limiter.admitted (L : Limiter σ κ) (es : List (LimiterEvent κ)) (k : κ) : List Int :=
  admissions (L.answersFrom L.init es) k

/-- **What a client sees of a sliding window.** -/
structure Limiter.IsSlidingWindow (L : Limiter σ κ) (limit : κ → Nat) (w : Int) : Prop where
  /-- A call is admitted when fewer than the limit were admitted in the window that ends with it. -/
  admits : ∀ es k t, Timely (es ++ [.call k t]) → (L.wait es k t = 0 ↔ inWindow w t (L.admitted es k) < limit k)
  /-- No window has more admissions than the limit. -/
  bounded : ∀ es k t, Timely es → inWindow w t (L.admitted es k) ≤ limit k
  /-- A call that is not admitted changes no later answer. -/
  rejected : ∀ es k t es', Timely (es ++ .call k t :: es') → L.wait es k t ≠ 0 →
    L.answersFrom (L.state (es ++ [.call k t])) es' = L.answersFrom (L.state es) es'
  nonneg : ∀ es k t, Timely (es ++ [.call k t]) → 0 ≤ L.wait es k t
  /-- Without other calls, one is admitted from the end of the wait on and not before. -/
  waits : ∀ es k t es' t', Timely (es ++ .call k t :: es' ++ [.call k t']) → L.wait es k t ≠ 0 →
    (∀ e ∈ es', e.Spares k) → (L.wait (es ++ .call k t :: es') k t' = 0 ↔ t + L.wait es k t ≤ t')

/-- The limiter that keeps the times of all admissions. -/
def slidingWindow (limit : κ → Nat) (w : Int) : Limiter (κ → List Int) κ where
  init _ := []
  call log k t :=
    let recent := (log k).filter fun a => decide (t - w < a)
    if recent.length < limit k then (0, Function.update log k (log k ++ [t])) else (recent.headD t + w - t, log)
  tick log _ := log

/-! ## Events and answers

A limiter answers calls of keys at times that do not go back, and may be told to forget. -/

section

variable {L : Limiter σ κ} {es es' : List (LimiterEvent κ)} {k : κ} {t t' : Int}

omit [DecidableEq κ] in
/-- The times of two lists of events do not go back, and those of the second come after. -/
theorem Timely.append : Timely (es ++ es') ↔ Timely es ∧ Timely es' ∧ ∀ e ∈ es, ∀ e' ∈ es', e.time ≤ e'.time :=
  List.pairwise_append

omit [DecidableEq κ] in
/-- The last event is not before the others. -/
theorem Timely.le_last {e : LimiterEvent κ} (h : Timely (es ++ [e])) : ∀ e' ∈ es, e'.time ≤ e.time :=
  fun e' he' => (Timely.append.mp h).2.2 e' he' e (List.mem_singleton_self e)

omit [DecidableEq κ] in
theorem Limiter.state_append (es es' : List (LimiterEvent κ)) :
    L.state (es ++ es') = run L.step (L.state es) es' := run_append _ _ _

/-- What is admitted is admitted one event at a time. -/
theorem Limiter.admitted_append (es : List (LimiterEvent κ)) (e : LimiterEvent κ) (k : κ) :
    L.admitted (es ++ [e]) k = L.admitted es k ++ admissions (L.answer (L.state es) e).toList k := by
  unfold admitted answersFrom
  rw [record_append]
  show admissions (_ ++ ((L.answer (run L.step L.init es) e).toList ++ [])) k = _
  rw [List.append_nil]
  unfold admissions
  rw [List.filter_append, List.map_append]
  rfl

/-- Admissions are calls. -/
theorem Limiter.admitted_le {b : Int} (h : ∀ e ∈ es, e.time ≤ b) : ∀ a ∈ L.admitted es k, a ≤ b := by
  induction es using List.reverseRecOn with
  | nil => exact fun _ ha => absurd ha List.not_mem_nil
  | append_singleton es e ih =>
    intro a ha
    rw [admitted_append] at ha
    rcases List.mem_append.mp ha with ha | ha
    · exact ih (fun e' he' => h e' (List.mem_append_left _ he')) a ha
    · obtain ⟨x, hx, rfl⟩ := List.mem_map.mp ha
      have hx := (List.mem_filter.mp hx).1
      have he := h e (List.mem_append_right _ (List.mem_singleton_self e))
      cases e with
      | call k' t' =>
        rw [List.mem_singleton.mp hx]
        exact he
      | tick => exact absurd hx List.not_mem_nil

end

/-! ## Times in a window

The number of the times of a log that a window still has. -/

section

variable {w t t' : Int} {log : List Int}

/-- Of times that are not after the end of a window, those in it are the ones after its beginning. -/
theorem inWindow_eq_length (h : ∀ a ∈ log, a ≤ t) :
    inWindow w t log = (log.filter fun a => decide (t - w < a)).length := by
  rw [inWindow, List.countP_eq_length_filter]
  congr 1
  refine List.filter_congr fun a ha => ?_
  rw [decide_eq_decide]
  exact and_iff_left (h a ha)

/-- A later window has fewer of the times before it. -/
theorem inWindow_le_of_le (h : ∀ a ∈ log, a ≤ t) (hle : t ≤ t') : inWindow w t' log ≤ inWindow w t log := by
  refine List.countP_mono_left fun a ha hin => ?_
  have hat := h a ha
  simp only [decide_eq_true_eq] at hin ⊢
  omega

/-- The times in a window are counted part by part. -/
theorem inWindow_append (log log' : List Int) : inWindow w t (log ++ log') = inWindow w t log + inWindow w t log' :=
  List.countP_append

/-- **When a full window has room again**: from the end of the window that begins with its oldest time. -/
theorem inWindow_lt_iff {n : Nat} {oldest : Int} {rest : List Int}
    (hrecent : (log.filter fun a => decide (t - w < a)) = oldest :: rest) (hsorted : log.Pairwise (· ≤ ·))
    (hlog : ∀ a ∈ log, a ≤ t) (hfull : (oldest :: rest).length = n) (hle : t ≤ t') :
    inWindow w t' log < n ↔ oldest + w ≤ t' := by
  have hlater : (log.filter fun a => decide (t' - w < a)) = (oldest :: rest).filter fun a => decide (t' - w < a) := by
    rw [← hrecent, List.filter_filter]
    refine List.filter_congr fun a _ => ?_
    rw [← Bool.decide_and, decide_eq_decide]
    omega
  rw [inWindow_eq_length fun a ha => Int.le_trans (hlog a ha) hle, hlater]
  have hfirst : ∀ a ∈ rest, oldest ≤ a := by
    have hsub : (oldest :: rest).Pairwise (· ≤ ·) := hrecent ▸ hsorted.filter _
    exact (List.pairwise_cons.mp hsub).1
  by_cases hroom : oldest + w ≤ t'
  · have hgone : ¬ t' - w < oldest := by omega
    rw [List.filter_cons_of_neg (by simpa using hgone)]
    have hrest := List.length_filter_le (fun a => decide (t' - w < a)) rest
    rw [List.length_cons] at hfull
    exact iff_of_true (by omega) hroom
  · -- all of them are still in the window
    have hall : (oldest :: rest).filter (fun a => decide (t' - w < a)) = oldest :: rest := by
      refine List.filter_eq_self.mpr fun a ha => decide_eq_true ?_
      have hoa : oldest ≤ a := (List.mem_cons.mp ha).elim (fun he => he ▸ Int.le_refl _) (hfirst a)
      omega
    rw [hall, hfull]
    exact iff_of_false (Nat.lt_irrefl n) hroom

end

/-! ## The limiter that keeps everything

It admits a call when fewer calls than the limit are in the window, and its answers are the specification. -/

section

variable {limit : κ → Nat} {w : Int} {es es' : List (LimiterEvent κ)} {k : κ} {t : Int}

/-- What a call is answered with: nothing to wait for, or the time until its oldest predecessor is too old. -/
theorem slidingWindow_call (limit : κ → Nat) (hw : 0 < w) (log : κ → List Int) (k : κ) (t : Int) :
    (((log k).filter fun a => decide (t - w < a)).length < limit k
        ∧ (slidingWindow limit w).call log k t = (0, Function.update log k (log k ++ [t])))
      ∨ (limit k ≤ ((log k).filter fun a => decide (t - w < a)).length
        ∧ 0 < ((slidingWindow limit w).call log k t).1 ∧ ((slidingWindow limit w).call log k t).2 = log) := by
  by_cases hroom : ((log k).filter fun a => decide (t - w < a)).length < limit k
  · exact .inl ⟨hroom, if_pos hroom⟩
  · have hcall : (slidingWindow limit w).call log k t
        = (((log k).filter fun a => decide (t - w < a)).headD t + w - t, log) := if_neg hroom
    refine .inr ⟨Nat.le_of_not_lt hroom, ?_, by rw [hcall]⟩
    rw [hcall]
    cases hrecent : (log k).filter fun a => decide (t - w < a) with
    | nil =>
      show 0 < t + w - t
      omega
    | cons oldest rest =>
      have hmem : oldest ∈ (log k).filter fun a => decide (t - w < a) := hrecent ▸ List.mem_cons_self
      have hin := of_decide_eq_true (List.mem_filter.mp hmem).2
      show 0 < oldest + w - t
      omega

/-- A call leaves the other keys. -/
theorem slidingWindow_call_of_ne (limit : κ → Nat) (w : Int) (log : κ → List Int) (t : Int) {k j : κ} (hj : j ≠ k) :
    ((slidingWindow limit w).call log k t).2 j = log j := by
  unfold slidingWindow
  dsimp only
  split
  · exact Function.update_of_ne hj _ _
  · rfl

/-- The times that the limiter keeps are those of its admissions. -/
theorem state_slidingWindow (hw : 0 < w) (es : List (LimiterEvent κ)) :
    (slidingWindow limit w).state es = (slidingWindow limit w).admitted es := by
  induction es using List.reverseRecOn with
  | nil => rfl
  | append_singleton es e ih =>
    funext k
    rw [Limiter.admitted_append, Limiter.state_append, ih]
    show (slidingWindow limit w).step _ e k = _
    cases e with
    | tick => exact (List.append_nil _).symm
    | call k' t =>
      show ((slidingWindow limit w).call _ k' t).2 k
        = _ ++ admissions [⟨k', t, ((slidingWindow limit w).call _ k' t).1⟩] k
      rcases slidingWindow_call limit hw ((slidingWindow limit w).admitted es) k' t with ⟨-, hcall⟩ | ⟨-, hwait, hsame⟩
      · rw [hcall]
        by_cases hk : k' = k
        · subst hk
          simp [admissions]
        · simp [admissions, hk, Function.update_of_ne (Ne.symm hk)]
      · have hnone : ¬ (k' = k ∧ ((slidingWindow limit w).call ((slidingWindow limit w).admitted es) k' t).1 = 0) :=
          fun h => absurd h.2 (Int.ne_of_gt hwait)
        rw [hsame, admissions, List.filter_cons_of_neg (by simpa using hnone)]
        exact (List.append_nil _).symm

/-- The cases of a wait. -/
theorem wait_slidingWindow (limit : κ → Nat) (hw : 0 < w) (h : Timely (es ++ [.call k t])) :
    ((slidingWindow limit w).wait es k t = 0 ∧ inWindow w t ((slidingWindow limit w).admitted es k) < limit k)
      ∨ (0 < (slidingWindow limit w).wait es k t
        ∧ limit k ≤ inWindow w t ((slidingWindow limit w).admitted es k)) := by
  have hlog : ∀ a ∈ (slidingWindow limit w).admitted es k, a ≤ t := Limiter.admitted_le h.le_last
  rw [inWindow_eq_length hlog, Limiter.wait, state_slidingWindow hw]
  rcases slidingWindow_call limit hw ((slidingWindow limit w).admitted es) k t with ⟨hroom, hcall⟩ | ⟨hfull, hwait, -⟩
  · exact .inl ⟨by rw [hcall], hroom⟩
  · exact .inr ⟨hwait, hfull⟩

/-- Nothing depends on when it cleans up. -/
theorem answersFrom_calls (limit : κ → Nat) (w : Int) (log : κ → List Int) (es : List (LimiterEvent κ)) :
    (slidingWindow limit w).answersFrom log es
      = (slidingWindow limit w).answersFrom log (es.filter LimiterEvent.isCall) := by
  induction es generalizing log with
  | nil => rfl
  | cons e es ih =>
    cases e with
    | tick => exact ih log
    | call k t => exact congrArg (⟨k, t, ((slidingWindow limit w).call log k t).1⟩ :: ·) (ih _)

/-- Admissions are in the order of their times. -/
theorem sorted_admitted (L : Limiter σ κ) (h : Timely es) : (L.admitted es k).Pairwise (· ≤ ·) := by
  induction es using List.reverseRecOn with
  | nil => exact .nil
  | append_singleton es e ih =>
    rw [Limiter.admitted_append]
    refine List.pairwise_append.mpr ⟨ih (Timely.append.mp h).1, ?_, fun a ha b hb => ?_⟩
    · refine (List.Pairwise.filter _ ?_).map _ fun _ _ => id
      cases e with
      | call => exact List.pairwise_singleton _ _
      | tick => exact .nil
    · obtain ⟨x, hx, rfl⟩ := List.mem_map.mp hb
      have hx := (List.mem_filter.mp hx).1
      cases e with
      | call k' t' =>
        rw [List.mem_singleton.mp hx]
        exact Limiter.admitted_le h.le_last a ha
      | tick => exact absurd hx List.not_mem_nil

/-- No window has more admissions than the limit: the last of them found fewer in the window that ends with it. -/
theorem bounded_slidingWindow (hw : 0 < w) (h : Timely es) (k : κ) (t : Int) :
    inWindow w t ((slidingWindow limit w).admitted es k) ≤ limit k := by
  induction es using List.reverseRecOn with
  | nil => exact Nat.zero_le _
  | append_singleton es e ih =>
    have hold := ih (Timely.append.mp h).1
    rw [Limiter.admitted_append, inWindow_append]
    cases e with
    | tick => exact hold
    | call k' t' =>
      -- the last call is an admission under this key, or adds nothing
      by_cases hnew : k' = k ∧ (slidingWindow limit w).wait es k' t' = 0
      · obtain ⟨rfl, hwait⟩ := hnew
        have hone : admissions [(⟨k', t', (slidingWindow limit w).wait es k' t'⟩ : LimiterAnswer κ)] k' = [t'] := by
          rw [admissions, List.filter_cons_of_pos (by simpa using hwait)]
          rfl
        show _ + inWindow w t (admissions [⟨k', t', (slidingWindow limit w).wait es k' t'⟩] k') ≤ _
        rw [hone]
        rcases wait_slidingWindow limit hw h with ⟨-, hroom⟩ | ⟨hpos, -⟩
        -- the admission counts in the window that ends at `t` only if it is not later
        · by_cases hle : t' ≤ t
          · have hbefore : inWindow w t ((slidingWindow limit w).admitted es k')
                ≤ inWindow w t' ((slidingWindow limit w).admitted es k') :=
              inWindow_le_of_le (Limiter.admitted_le h.le_last) hle
            have hsingle : inWindow w t [t'] ≤ 1 := List.countP_le_length
            omega
          · have hout : inWindow w t [t'] = 0 := by
              refine List.countP_eq_zero.mpr fun a ha => ?_
              rw [List.mem_singleton.mp ha]
              simp only [decide_eq_true_eq]
              omega
            omega
        · exact absurd hwait (Int.ne_of_gt hpos)
      · have hnone : admissions [(⟨k', t', (slidingWindow limit w).wait es k' t'⟩ : LimiterAnswer κ)] k = [] := by
          rw [admissions, List.filter_cons_of_neg (by simpa using hnew)]
          rfl
        show _ + inWindow w t (admissions [⟨k', t', (slidingWindow limit w).wait es k' t'⟩] k) ≤ _
        rw [hnone]
        exact hold

/-- A call that is not admitted leaves the limiter as it was. -/
theorem state_rejected (hw : 0 < w) (h : (slidingWindow limit w).wait es k t ≠ 0) :
    (slidingWindow limit w).state (es ++ [.call k t]) = (slidingWindow limit w).state es := by
  rw [Limiter.state_append]
  show ((slidingWindow limit w).call ((slidingWindow limit w).state es) k t).2 = _
  rcases slidingWindow_call limit hw ((slidingWindow limit w).state es) k t with ⟨-, hcall⟩ | ⟨-, -, hsame⟩
  · exact absurd (congrArg Prod.fst hcall) h
  · exact hsame

/-- Events that spare a key leave its admissions. -/
theorem admitted_spares {L : Limiter σ κ} (h : ∀ e ∈ es', e.Spares k) : L.admitted (es ++ es') k = L.admitted es k := by
  induction es' using List.reverseRecOn with
  | nil => rw [List.append_nil]
  | append_singleton es' e ih =>
    rw [← List.append_assoc, Limiter.admitted_append, ih fun e' he' => h e' (List.mem_append_left _ he')]
    have he := h e (List.mem_append_right _ (List.mem_singleton_self e))
    cases e with
    | tick => exact List.append_nil _
    | call k' t' =>
      have hnone : ∀ wait, admissions [(⟨k', t', wait⟩ : LimiterAnswer κ)] k = [] := fun wait => by
        rw [admissions, List.filter_cons_of_neg (by simpa using fun hk => absurd hk he)]
        rfl
      show _ ++ admissions [⟨k', t', _⟩] k = _
      rw [hnone, List.append_nil]

/-- **The limiter that keeps everything is a sliding window.** -/
theorem isSlidingWindow_slidingWindow (hw : 0 < w) (hlimit : ∀ k, 1 ≤ limit k) :
    (slidingWindow limit w).IsSlidingWindow limit w where
  admits es k t h := by
    rcases wait_slidingWindow limit hw h with ⟨hwait, hroom⟩ | ⟨hwait, hfull⟩
    · exact iff_of_true hwait hroom
    · exact iff_of_false (Int.ne_of_gt hwait) (Nat.not_lt_of_le hfull)
  bounded es k t h := bounded_slidingWindow hw h k t
  rejected es k t es' _ hwait := by rw [state_rejected hw hwait]
  nonneg es k t h := by
    rcases wait_slidingWindow limit hw h with ⟨hwait, -⟩ | ⟨hwait, -⟩
    · exact hwait ▸ Int.le_refl 0
    · exact Int.le_of_lt hwait
  waits es k t es' t' h hwait hspares := by
    have hsplit : es ++ LimiterEvent.call k t :: es' = es ++ [.call k t] ++ es' := List.append_cons _ _ _
    have hfirst : Timely (es ++ [.call k t]) := by
      rw [hsplit] at h
      exact (Timely.append.mp (Timely.append.mp h).1).1
    have hle : t ≤ t' := by
      refine h.le_last (.call k t) ?_
      rw [hsplit]
      exact List.mem_append_left _ (List.mem_append_right _ (List.mem_singleton_self _))
    -- nothing has been admitted since
    have hsame : (slidingWindow limit w).admitted (es ++ .call k t :: es') k = (slidingWindow limit w).admitted es k := by
      rw [hsplit, admitted_spares hspares, ← state_slidingWindow hw, state_rejected hw hwait, state_slidingWindow hw]
    have hlog : ∀ a ∈ (slidingWindow limit w).admitted es k, a ≤ t := Limiter.admitted_le hfirst.le_last
    have hfull : inWindow w t ((slidingWindow limit w).admitted es k) = limit k := by
      have hbound : inWindow w t ((slidingWindow limit w).admitted es k) ≤ limit k :=
        bounded_slidingWindow hw (Timely.append.mp hfirst).1 k t
      rcases wait_slidingWindow limit hw hfirst with ⟨hzero, -⟩ | ⟨-, hle⟩
      · exact absurd hzero hwait
      · exact Nat.le_antisymm hbound hle
    rw [inWindow_eq_length hlog] at hfull
    cases hrecent : ((slidingWindow limit w).admitted es k).filter fun a => decide (t - w < a) with
    | nil =>
      rw [hrecent] at hfull
      exact absurd hfull (Nat.ne_of_lt (hlimit k))
    | cons oldest rest =>
      have hroom : inWindow w t' ((slidingWindow limit w).admitted es k) < limit k ↔ oldest + w ≤ t' :=
        inWindow_lt_iff hrecent (sorted_admitted _ (Timely.append.mp hfirst).1) hlog (hrecent ▸ hfull) hle
      have hwaits : (slidingWindow limit w).wait es k t = oldest + w - t := by
        rw [Limiter.wait, state_slidingWindow hw]
        have hnot : ¬ ((slidingWindow limit w).admitted es k |>.filter fun a => decide (t - w < a)).length < limit k :=
          fun hlt => absurd hfull (Nat.ne_of_lt hlt)
        refine (congrArg Prod.fst (if_neg hnot)).trans ?_
        show (((slidingWindow limit w).admitted es k).filter fun a => decide (t - w < a)).headD t + w - t = _
        rw [hrecent]
        rfl
      rw [hwaits]
      rcases wait_slidingWindow limit hw h with ⟨hzero, hlt⟩ | ⟨hpos, hge⟩
      · rw [hsame, hroom] at hlt
        exact iff_of_true hzero (by omega)
      · rw [hsame] at hge
        have hnot : ¬ oldest + w ≤ t' := fun hle => absurd (hroom.mpr hle) (Nat.not_lt_of_le hge)
        exact iff_of_false (Int.ne_of_gt hpos) (by omega)

end

/-! ## Limiters that forget

What has left the window may be dropped, as it leaves all windows to come too. -/

/-- What is kept of some admissions: from the time `t` on, the recent ones among both are the same. -/
structure Recalls (w t : Int) (kept log : List Int) : Prop where
  sorted : kept.Pairwise (· ≤ ·)
  le : ∀ a ∈ kept, a ≤ t
  recent : ∀ t', t ≤ t' → (kept.filter fun a => decide (t' - w < a)) = log.filter fun a => decide (t' - w < a)

namespace Recalls

variable {w t t' : Int} {kept log : List Int}

theorem nil (w t : Int) : Recalls w t [] [] := ⟨.nil, fun _ ha => absurd ha List.not_mem_nil, fun _ _ => rfl⟩

/-- What is recalled stays recalled. -/
theorem later (h : Recalls w t kept log) (hle : t ≤ t') : Recalls w t' kept log :=
  ⟨h.sorted, fun a ha => Int.le_trans (h.le a ha) hle, fun t'' ht'' => h.recent t'' (Int.le_trans hle ht'')⟩

/-- What is too old is forgotten. -/
theorem expire (h : Recalls w t kept log) : Recalls w t (kept.filter fun a => decide (t - w < a)) log where
  sorted := h.sorted.filter _
  le a ha := h.le a (List.mem_filter.mp ha).1
  recent t' ht' := by
    rw [← h.recent t' ht', List.filter_filter]
    refine List.filter_congr fun a _ => ?_
    rw [← Bool.decide_and, decide_eq_decide]
    omega

/-- All of it is, when all of it is too old. -/
theorem forget (h : Recalls w t kept log) (hold : ∀ a ∈ kept, a ≤ t - w) : Recalls w t [] log := by
  have hexpire := h.expire
  have hnone : (kept.filter fun a => decide (t - w < a)) = [] :=
    List.filter_eq_nil_iff.mpr fun a ha => by simpa using hold a ha
  rwa [hnone] at hexpire

/-- A new admission. -/
theorem add (h : Recalls w t kept log) : Recalls w t (kept ++ [t]) (log ++ [t]) where
  sorted := List.pairwise_append.mpr ⟨h.sorted, List.pairwise_singleton _ _, fun a ha b hb =>
    List.mem_singleton.mp hb ▸ h.le a ha⟩
  le a ha := (List.mem_append.mp ha).elim (h.le a) fun ha => List.mem_singleton.mp ha ▸ Int.le_refl t
  recent t' ht' := by rw [List.filter_append, List.filter_append, h.recent t' ht']

end Recalls

/-! ## Limiters that answer alike

A relation between the states of two limiters that every event keeps makes their answers the same. -/

/-- Two limiters whose states stay related as time goes by, and that answer alike in related states. -/
structure Limiter.Simulation (L : Limiter σ κ) (L' : Limiter τ κ) (R : Int → σ → τ → Prop) : Prop where
  init : ∀ t, R t L.init L'.init
  later : ∀ t t' s s', t ≤ t' → R t s s' → R t' s s'
  call : ∀ t s s' k, R t s s' → (L.call s k t).1 = (L'.call s' k t).1 ∧ R t (L.call s k t).2 (L'.call s' k t).2
  tick : ∀ t s s', R t s s' → R t (L.tick s t) (L'.tick s' t)

namespace Limiter.Simulation

variable {L : Limiter σ κ} {L' : Limiter τ κ} {R : Int → σ → τ → Prop} {es es' : List (LimiterEvent κ)} {k : κ} {t : Int}

omit [DecidableEq κ] in
/-- One event keeps the states related, with the same answer. -/
theorem step (h : L.Simulation L' R) {s : σ} {s' : τ} (e : LimiterEvent κ) (hR : R e.time s s') :
    L.answer s e = L'.answer s' e ∧ R e.time (L.step s e) (L'.step s' e) := by
  cases e with
  | call k t =>
    obtain ⟨hwait, hnext⟩ := h.call t s s' k hR
    exact ⟨congrArg (fun x => some (LimiterAnswer.mk k t x)) hwait, hnext⟩
  | tick t => exact ⟨rfl, h.tick t s s' hR⟩

omit [DecidableEq κ] in
/-- **A run of both.** -/
theorem run (h : L.Simulation L' R) {s : σ} {s' : τ} (hR : R t s s') (hes : Timely es) (hle : ∀ e ∈ es, t ≤ e.time) :
    L.answersFrom s es = L'.answersFrom s' es
      ∧ ∀ t', t ≤ t' → (∀ e ∈ es, e.time ≤ t') → R t' (AcaSocial.run L.step s es) (AcaSocial.run L'.step s' es) := by
  induction es generalizing s s' t with
  | nil => exact ⟨rfl, fun t' htt' _ => h.later t t' s s' htt' hR⟩
  | cons e es ih =>
    obtain ⟨hfirst, hes⟩ := List.pairwise_cons.mp hes
    obtain ⟨hanswer, hnext⟩ := h.step e (h.later t e.time s s' (hle e List.mem_cons_self) hR)
    obtain ⟨hanswers, hrest⟩ := ih hnext hes hfirst
    refine ⟨congrArg₂ (fun a as => a.toList ++ as) hanswer hanswers, fun t' _ hbefore => ?_⟩
    exact hrest t' (hbefore e List.mem_cons_self) fun e' he' => hbefore e' (List.mem_cons_of_mem e he')

omit [DecidableEq κ] in
/-- Before all events. -/
theorem exists_le (hes : Timely es) : ∃ t, ∀ e ∈ es, t ≤ e.time := by
  cases es with
  | nil => exact ⟨0, fun _ he => absurd he List.not_mem_nil⟩
  | cons e es =>
    refine ⟨e.time, fun e' he' => ?_⟩
    rcases List.mem_cons.mp he' with rfl | he'
    · exact Int.le_refl _
    · exact (List.pairwise_cons.mp hes).1 e' he'

omit [DecidableEq κ] in
/-- Both answer every timely sequence of events alike. -/
theorem answers_eq (h : L.Simulation L' R) (hes : Timely es) : L.answersFrom L.init es = L'.answersFrom L'.init es := by
  obtain ⟨t, ht⟩ := exists_le hes
  exact (h.run (h.init t) hes ht).1

omit [DecidableEq κ] in
/-- Their states before a later event are related. -/
theorem state (h : L.Simulation L' R) (e : LimiterEvent κ) (hes : Timely (es ++ [e])) :
    R e.time (L.state es) (L'.state es) := by
  obtain ⟨t, ht⟩ := exists_le hes
  have hrun := h.run (h.init t) (Timely.append.mp hes).1 fun e' he' => ht e' (List.mem_append_left _ he')
  exact hrun.2 e.time (ht e (List.mem_append_right _ (List.mem_singleton_self e))) hes.le_last

omit [DecidableEq κ] in
/-- The times to wait are the same. -/
theorem wait_eq (h : L.Simulation L' R) (hes : Timely (es ++ [.call k t])) : L.wait es k t = L'.wait es k t :=
  (h.call t _ _ k (h.state (.call k t) hes)).1

/-- The same calls are admitted. -/
theorem admitted_eq (h : L.Simulation L' R) (hes : Timely es) : L.admitted es k = L'.admitted es k := by
  rw [Limiter.admitted, h.answers_eq hes, ← Limiter.admitted]

/-- **What a client sees** of a limiter it sees of every other one that answers alike. -/
theorem isSlidingWindow (h : L.Simulation L' R) {limit : κ → Nat} {w : Int} (hwindow : L'.IsSlidingWindow limit w) :
    L.IsSlidingWindow limit w where
  admits es k t hes := by
    rw [h.wait_eq hes, h.admitted_eq (Timely.append.mp hes).1]
    exact hwindow.admits es k t hes
  bounded es k t hes := by
    rw [h.admitted_eq hes]
    exact hwindow.bounded es k t hes
  rejected es k t es' hes hwait := by
    have hsplit : es ++ LimiterEvent.call k t :: es' = es ++ [.call k t] ++ es' := List.append_cons _ _ _
    have hfirst : Timely (es ++ [.call k t]) := (Timely.append.mp (hsplit ▸ hes)).1
    have hlater : ∀ e ∈ es', t ≤ e.time := fun e he =>
      (Timely.append.mp (hsplit ▸ hes)).2.2 (.call k t) (List.mem_append_right _ (List.mem_singleton_self _)) e he
    -- the two limiters are related after the rejected call, so they answer alike from there on
    have hR := h.state (.call k t) hfirst
    have hR' : R t (L.state (es ++ [.call k t])) (L'.state (es ++ [.call k t])) := by
      rw [Limiter.state_append, Limiter.state_append]
      exact (h.step (.call k t) hR).2
    have hes' : Timely es' := (Timely.append.mp (hsplit ▸ hes)).2.1
    rw [(h.run hR' hes' hlater).1, (h.run hR hes' hlater).1]
    exact hwindow.rejected es k t es' hes (h.wait_eq hfirst ▸ hwait)
  nonneg es k t hes := by
    rw [h.wait_eq hes]
    exact hwindow.nonneg es k t hes
  waits es k t es' t' hes hwait hspares := by
    have hfirst : Timely (es ++ [.call k t]) := by
      have hsplit : es ++ LimiterEvent.call k t :: es' = es ++ [.call k t] ++ es' := List.append_cons _ _ _
      rw [hsplit] at hes
      exact (Timely.append.mp (Timely.append.mp hes).1).1
    rw [h.wait_eq hfirst] at hwait ⊢
    rw [h.wait_eq hes]
    exact hwindow.waits es k t es' t' hes hwait hspares

end Limiter.Simulation

/-! ## Units of time

A limiter that counts in other units gives the same answers. -/

def LimiterEvent.scale (c : Int) : LimiterEvent κ → LimiterEvent κ
  | .call k t => .call k (c * t)
  | .tick t => .tick (c * t)

omit [DecidableEq κ] in
theorem Timely.scale {c : Int} {es : List (LimiterEvent κ)} (h : Timely es) (hc : 0 < c) :
    Timely (es.map (.scale c)) := by
  have htime : ∀ e : LimiterEvent κ, (e.scale c).time = c * e.time := fun e => by cases e <;> rfl
  refine h.map _ fun e e' hle => ?_
  rw [htime, htime]
  exact Int.mul_le_mul_of_nonneg_left hle (Int.le_of_lt hc)

def LimiterAnswer.scale (c : Int) (a : LimiterAnswer κ) : LimiterAnswer κ := ⟨a.key, c * a.time, c * a.wait⟩

/-- The limiter that keeps everything answers alike in every unit of time. -/
theorem answersFrom_scale {c : Int} (hc : 0 < c) (limit : κ → Nat) (w : Int) (log : κ → List Int)
    (es : List (LimiterEvent κ)) :
    (slidingWindow limit (c * w)).answersFrom (fun k => (log k).map (c * ·)) (es.map (.scale c))
      = ((slidingWindow limit w).answersFrom log es).map (.scale c) := by
  induction es generalizing log with
  | nil => rfl
  | cons e es ih =>
    cases e with
    | tick t => exact ih log
    | call k t =>
      -- the same admissions are recent in both units
      have hrecent : ((log k).map (c * ·)).filter (fun a => decide (c * t - c * w < a))
          = ((log k).filter fun a => decide (t - w < a)).map (c * ·) := by
        rw [List.filter_map]
        congr 1
        refine List.filter_congr fun a _ => ?_
        show decide (c * t - c * w < c * a) = decide (t - w < a)
        rw [decide_eq_decide, ← Int.mul_sub]
        exact Int.mul_lt_mul_left hc
      -- so the call is answered alike, and leaves logs that are alike
      have hcall : (slidingWindow limit (c * w)).call (fun k => (log k).map (c * ·)) k (c * t)
          = (c * ((slidingWindow limit w).call log k t).1,
            fun j => (((slidingWindow limit w).call log k t).2 j).map (c * ·)) := by
        unfold slidingWindow
        dsimp only
        rw [hrecent, List.length_map]
        split
        · refine Prod.ext (Int.mul_zero c).symm (funext fun j => ?_)
          by_cases hj : j = k
          · subst hj
            simp
          · simp [Function.update_of_ne hj]
        · refine Prod.ext ?_ rfl
          cases (log k).filter fun a => decide (t - w < a) with
          | nil =>
            show c * t + c * w - c * t = c * (t + w - t)
            rw [Int.mul_sub, Int.mul_add]
          | cons oldest rest =>
            show c * oldest + c * w - c * t = c * (oldest + w - t)
            rw [Int.mul_sub, Int.mul_add]
      show LimiterAnswer.mk k (c * t) ((slidingWindow limit (c * w)).call _ k (c * t)).1
          :: (slidingWindow limit (c * w)).answersFrom ((slidingWindow limit (c * w)).call _ k (c * t)).2 _ = _
      rw [hcall, ih]
      rfl

end AcaSocial
