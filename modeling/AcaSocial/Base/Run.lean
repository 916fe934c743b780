import Mathlib.Tactic.Common

/-!
# Runs of a transition function

A system is a function `step : σ → ε → σ` that says what one event makes of a state; a refused
event leaves the state as the function says. A run is the list of its events.

* **`run`** — the state after a list of events.
* **`Always P`** — `P` holds in every state of the run, the first and the last included.
* **`Meets c`** — every event of the run meets the condition `c` in the state it finds.
* **`record f`** — what `f` notes of the events of the run, in their order.

`run_invariant` is the induction that carries an invariant over every run;
`always_of_meets` carries it over the runs whose events meet a condition, and
`always_iff_meets` says that the condition is exact. `always_iff_meets_of_invariant` says so of the
runs of one kind, beside an invariant of them.
-/

namespace AcaSocial

variable {σ ε : Type} (step : σ → ε → σ)

/-- The state after the events of a run. -/
def run : σ → List ε → σ
  | s, [] => s
  | s, e :: es => run (step s e) es

/-- `P` holds in every state of the run. -/
def Always (P : σ → Prop) : σ → List ε → Prop
  | s, [] => P s
  | s, e :: es => P s ∧ Always P (step s e) es

/-- Every event meets `c` in the state that it finds. -/
def Meets (c : σ → ε → Prop) : σ → List ε → Prop
  | _, [] => True
  | s, e :: es => c s e ∧ Meets c (step s e) es

/-- What `f` notes of each event in the state that it finds. -/
def record {α : Type} (f : σ → ε → Option α) : σ → List ε → List α
  | _, [] => []
  | s, e :: es => (f s e).toList ++ record f (step s e) es

variable {step} {P : σ → Prop} {c d : σ → ε → Prop}

@[simp] theorem run_nil (s : σ) : run step s [] = s := rfl

@[simp] theorem run_cons (s : σ) (e : ε) (es : List ε) :
    run step s (e :: es) = run step (step s e) es := rfl

/-- A run over two lists is the run over the second one, from where the first one has led. -/
theorem run_append (s : σ) (es fs : List ε) :
    run step s (es ++ fs) = run step (run step s es) fs := by
  induction es generalizing s with
  | nil => rfl
  | cons e es ih => exact ih (step s e)

/-- What every event preserves holds after every run. -/
theorem run_invariant (hstep : ∀ s e, P s → P (step s e)) {s : σ} (h : P s) (es : List ε) :
    P (run step s es) := by
  induction es generalizing s with
  | nil => exact h
  | cons e es ih => exact ih (hstep s e h)

/-- What every event preserves of the state and what is noted so far holds after every run. -/
theorem run_record_invariant {α : Type} {f : σ → ε → Option α} {Q : σ → List α → Prop}
    (hstep : ∀ s as e, Q s as → Q (step s e) (as ++ (f s e).toList)) {s : σ} {as : List α}
    (h : Q s as) (es : List ε) : Q (run step s es) (as ++ record step f s es) := by
  induction es generalizing s as with
  | nil =>
    rw [record, List.append_nil]
    exact h
  | cons e es ih =>
    have hrest := ih (hstep s as e h)
    rw [List.append_assoc] at hrest
    exact hrest

/-- What is recorded along two lists is recorded along one after the other. -/
theorem record_append {α : Type} {f : σ → ε → Option α} (s : σ) (es fs : List ε) :
    record step f s (es ++ fs) = record step f s es ++ record step f (run step s es) fs := by
  induction es generalizing s with
  | nil => rfl
  | cons e es ih => rw [List.cons_append, record, record, ih, List.append_assoc, run_cons]

/-- It holds at the beginning. -/
theorem Always.head {s : σ} {es : List ε} (h : Always step P s es) : P s := by
  cases es with
  | nil => exact h
  | cons e es => exact h.1

/-- It holds at the end. -/
theorem Always.last {s : σ} {es : List ε} (h : Always step P s es) : P (run step s es) := by
  induction es generalizing s with
  | nil => exact h
  | cons e es ih => exact ih h.2

theorem Always.imp {Q : σ → Prop} (h : ∀ s, P s → Q s) {s : σ} {es : List ε}
    (ha : Always step P s es) : Always step Q s es := by
  induction es generalizing s with
  | nil => exact h s ha
  | cons e es ih => exact ⟨h s ha.1, ih ha.2⟩

/-- What holds of an event in every state where `P` does holds along the run. -/
theorem Always.meets (h : ∀ s e, P s → c s e) {s : σ} {es : List ε} (ha : Always step P s es) :
    Meets step c s es := by
  induction es generalizing s with
  | nil => trivial
  | cons e es ih => exact ⟨h s e ha.1, ih ha.2⟩

/-- What an event has to meet for `P` to hold after it, given an invariant `Q`, every event of the run meets. -/
theorem Always.meets_of_next {Q : σ → Prop} (hkeep : ∀ s e, Q s → Q (step s e))
    (h : ∀ s e, Q s → P (step s e) → c s e) {s : σ} {es : List ε} (hQ : Q s) (ha : Always step P s es) :
    Meets step c s es := by
  induction es generalizing s with
  | nil => trivial
  | cons e es ih =>
    have hnext : P (step s e) := ha.2.head
    exact ⟨h s e hQ hnext, ih (hkeep s e hQ) ha.2⟩

/-- What follows of an event from `P` of its state and from `c` of the event holds along the run. -/
theorem Always.meets_of (h : ∀ s e, P s → c s e → d s e) {s : σ} {es : List ε}
    (ha : Always step P s es) (hc : Meets step c s es) : Meets step d s es := by
  induction es generalizing s with
  | nil => trivial
  | cons e es ih => exact ⟨h s e ha.1 hc.1, ih ha.2 hc.2⟩

instance instDecidableAlways [DecidablePred P] : ∀ s es, Decidable (Always step P s es)
  | s, [] => inferInstanceAs (Decidable (P s))
  | s, e :: es =>
    have := instDecidableAlways (step s e) es
    inferInstanceAs (Decidable (P s ∧ Always step P (step s e) es))

instance [∀ s e, Decidable (c s e)] : ∀ s es, Decidable (Meets step c s es)
  | _, [] => .isTrue trivial
  | s, e :: es =>
    have := instDecidableMeets (step s e) es
    inferInstanceAs (Decidable (c s e ∧ Meets step c (step s e) es))

/-- A run meets what holds of its events in every state. -/
theorem Meets.of_mem {es : List ε} (h : ∀ s, ∀ e ∈ es, c s e) (s : σ) : Meets step c s es := by
  induction es generalizing s with
  | nil => trivial
  | cons e es ih =>
    exact ⟨h s e List.mem_cons_self, ih (fun s e' he' => h s e' (List.mem_cons_of_mem e he')) (step s e)⟩

theorem Meets.of_forall (h : ∀ s e, c s e) (s : σ) (es : List ε) : Meets step c s es :=
  Meets.of_mem (fun s e _ => h s e) s

/-- A condition on steps may be weakened. -/
theorem Meets.imp (h : ∀ s e, c s e → d s e) {s : σ} {es : List ε} (hc : Meets step c s es) :
    Meets step d s es := by
  induction es generalizing s with
  | nil => trivial
  | cons e es ih => exact ⟨h s e hc.1, ih hc.2⟩

/-- Two conditions on steps may be met together. -/
theorem Meets.and {s : σ} {es : List ε} (hc : Meets step c s es) (hd : Meets step d s es) :
    Meets step (fun s e => c s e ∧ d s e) s es := by
  induction es generalizing s with
  | nil => trivial
  | cons e es ih => exact ⟨⟨hc.1, hd.1⟩, ih hc.2 hd.2⟩

/-- What the events that meet `c` preserve holds all along a run whose events meet `c`. -/
theorem always_of_meets {s : σ} {es : List ε}
    (hstep : ∀ e ∈ es, ∀ s, P s → c s e → P (step s e)) (h : P s) (hc : Meets step c s es) :
    Always step P s es := by
  induction es generalizing s with
  | nil => exact h
  | cons e es ih =>
    refine ⟨h, ih (fun e' he' => hstep e' (List.mem_cons_of_mem e he')) ?_ hc.2⟩
    exact hstep e List.mem_cons_self s h hc.1

/-- When `c` is exactly what keeps `P` for one event, it is what keeps `P` along a run. -/
theorem always_iff_meets {s : σ} {es : List ε}
    (hstep : ∀ e ∈ es, ∀ s, P s → (P (step s e) ↔ c s e)) (h : P s) :
    Always step P s es ↔ Meets step c s es := by
  refine ⟨fun ha => ?_, always_of_meets (fun e he s hs => (hstep e he s hs).mpr) h⟩
  induction es generalizing s with
  | nil => trivial
  | cons e es ih =>
    have hnext : P (step s e) := ha.2.head
    exact ⟨(hstep e List.mem_cons_self s h).mp hnext,
      ih (fun e' he' => hstep e' (List.mem_cons_of_mem e he')) hnext ha.2⟩

/-- The same for the runs whose events meet `d`, beside an invariant `Q` of these. -/
theorem always_iff_meets_of_invariant {Q : σ → Prop} {s : σ} {es : List ε}
    (hkeep : ∀ e s, Q s → d s e → Q (step s e))
    (hstep : ∀ e s, Q s → d s e → P s → (P (step s e) ↔ c s e)) (hQ : Q s) (hP : P s)
    (hd : Meets step d s es) : Always step P s es ↔ Meets step c s es := by
  induction es generalizing s with
  | nil => exact iff_of_true hP trivial
  | cons e es ih =>
    have hiff := hstep e s hQ hd.1 hP
    constructor
    · intro ha
      have hnext : P (step s e) := ha.2.head
      exact ⟨hiff.mp hnext, (ih (hkeep e s hQ hd.1) hnext hd.2).mp ha.2⟩
    · intro hc
      have hnext : P (step s e) := hiff.mpr hc.1
      exact ⟨hP, (ih (hkeep e s hQ hd.1) hnext hd.2).mpr hc.2⟩

end AcaSocial
