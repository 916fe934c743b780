import Mathlib.Data.List.Perm.Basic
import AcaSocial.Base.Run

/-!
# Interleaved tasks over a shared store

A request is a task that works on a shared store one statement after another, with its own data
between them. Between two statements of one task any other task may run.

* **`Program`** — how a request enters, and what one statement does to the store and the task.
* **`Pool`** — the store and the tasks in flight. `Pool.step` starts a request or runs the next
  statement of one task; a run of it is an interleaving.
* **`Pool.observe`** — the pool beside data that only an observer keeps.
* **`Apart`** — when a task runs its next statement, no other task clashes with it.

`Pool.Holds.observe` is the rule of the module: what every statement keeps of the store, of its own
task, and of any other task that it does not clash with, is kept by a step without a clash.
`Pool.always_of_apart` carries it over an interleaving. `Pool.Lone.step` is the rule for runs in which a
request comes in only when no task is in flight.
-/

namespace AcaSocial

variable {σ ρ τ ν α γ : Type}

/-- What a statement leaves: the store, how the task goes on, and the answer when it ends. A task may
go on as several. -/
structure Effect (σ τ α : Type) where
  store : σ
  next : List τ
  reply : Option α

/-- Requests `ρ` that enter as tasks `τ` over a store `σ`. A statement takes from outside what `ν`
says, and a task answers with `α`. -/
structure Program (σ ρ τ ν α : Type) where
  enter : ρ → τ
  exec : ν → σ → τ → Effect σ τ α

/-- A store with the tasks in flight, each under the number of its request. -/
structure Pool (σ τ : Type) where
  store : σ
  tasks : List (Nat × τ)
  requests : Nat

/-- What happens next. -/
inductive Act (ρ ν : Type) where
  /-- A request comes in. -/
  | start (r : ρ)
  /-- The task at a position runs its next statement. -/
  | run (i : Nat) (x : ν)

namespace Pool

/-- No request has come in yet. -/
def idle (s : σ) : Pool σ τ := ⟨s, [], 0⟩

variable (prog : Program σ ρ τ ν α) (p : Pool σ τ)

/-- What an act makes of the pool. An act on a position without a task does nothing. -/
def step : Act ρ ν → Pool σ τ
  | .start r => { p with tasks := p.tasks ++ [(p.requests, prog.enter r)], requests := p.requests + 1 }
  | .run i x =>
    match p.tasks[i]? with
    | none => p
    | some (n, t) =>
      { p with
        store := (prog.exec x p.store t).store
        tasks := p.tasks.eraseIdx i ++ (prog.exec x p.store t).next.map (Prod.mk n) }

/-- The pool beside what an observer notes of each statement. -/
def observe (note : ν → σ → Nat → τ → γ → γ) : Pool σ τ × γ → Act ρ ν → Pool σ τ × γ
  | (p, g), .start r => (p.step prog (.start r), g)
  | (p, g), .run i x =>
    (p.step prog (.run i x),
      match p.tasks[i]? with
      | none => g
      | some (n, t) => note x p.store n t g)

/-- When a task runs its next statement, no other task is one that `clash` names. -/
def Apart (clash : ν → σ → τ → τ → Prop) (p : Pool σ τ) : Act ρ ν → Prop
  | .start _ => True
  | .run i x => ∀ n t, p.tasks[i]? = some (n, t) → ∀ o ∈ p.tasks.eraseIdx i, ¬ clash x p.store t o.2

instance (clash : ν → σ → τ → τ → Prop) [∀ x s t o, Decidable (clash x s t o)] (p : Pool σ τ) :
    ∀ act : Act ρ ν, Decidable (p.Apart clash act)
  | .start _ => .isTrue trivial
  | .run i x =>
    match h : p.tasks[i]? with
    | none => .isTrue fun _ _ hnt => nomatch h.symm.trans hnt
    | some (n, t) =>
      if hall : ∀ o ∈ p.tasks.eraseIdx i, ¬ clash x p.store t o.2 then .isTrue fun n' t' hnt => by
        obtain ⟨-, rfl⟩ : n = n' ∧ t = t' := by simpa using h.symm.trans hnt
        exact hall
      else .isFalse fun hapart => hall (hapart n t h)

variable {prog p}

/-! ## The two kinds of steps

A request starts, or a task runs its next statement. -/

/-- The tasks are the one at a position and the others. -/
theorem perm_eraseIdx {i : Nat} {a : Nat × τ} (h : p.tasks[i]? = some a) :
    p.tasks.Perm (a :: p.tasks.eraseIdx i) := by
  obtain ⟨hi, rfl⟩ := List.getElem?_eq_some_iff.mp h
  exact (List.getElem_cons_eraseIdx_perm hi).symm

/-- A task runs its next statement, and is replaced by what it goes on with. -/
theorem step_run {i n : Nat} {t : τ} {x : ν} (h : p.tasks[i]? = some (n, t)) :
    p.step prog (.run i x) = ⟨(prog.exec x p.store t).store,
      p.tasks.eraseIdx i ++ (prog.exec x p.store t).next.map (Prod.mk n), p.requests⟩ := by
  rw [step, h]

/-- There is no task to run. -/
theorem step_run_none {i : Nat} {x : ν} (h : p.tasks[i]? = none) : p.step prog (.run i x) = p := by
  rw [step, h]

/-- What is noted of a statement. -/
theorem observe_run {note : ν → σ → Nat → τ → γ → γ} {g : γ} {i n : Nat} {t : τ} {x : ν}
    (h : p.tasks[i]? = some (n, t)) :
    observe prog note (p, g) (.run i x) = (p.step prog (.run i x), note x p.store n t g) := by
  rw [observe, h]

/-- Nothing is noted where nothing runs. -/
theorem observe_run_none {note : ν → σ → Nat → τ → γ → γ} {g : γ} {i : Nat} {x : ν}
    (h : p.tasks[i]? = none) : observe prog note (p, g) (.run i x) = (p, g) := by
  rw [observe, h, step_run_none h]

/-- Observing changes nothing. -/
theorem run_observe_fst {note : ν → σ → Nat → τ → γ → γ} (acts : List (Act ρ ν)) (p : Pool σ τ) (g : γ) :
    (AcaSocial.run (observe prog note) (p, g) acts).1 = AcaSocial.run (step prog) p acts := by
  induction acts generalizing p g with
  | nil => rfl
  | cons act acts ih =>
    cases act with
    | start r => exact ih _ _
    | run i x => exact ih _ _

/-- **The step rule.** What one act makes of the pool and of what is observed: a new task beside the
others, the next statement of one task, or nothing. -/
theorem observe_cases {note : ν → σ → Nat → τ → γ → γ} {g : γ} {P : Pool σ τ × γ → Prop}
    {act : Act ρ ν} (hsame : P (p, g))
    (hstart : ∀ r, act = .start r →
      P (⟨p.store, p.tasks ++ [(p.requests, prog.enter r)], p.requests + 1⟩, g))
    (hrun : ∀ i x n t, act = .run i x → p.tasks[i]? = some (n, t) →
      P (⟨(prog.exec x p.store t).store,
        p.tasks.eraseIdx i ++ (prog.exec x p.store t).next.map (Prod.mk n), p.requests⟩,
        note x p.store n t g)) : P (observe prog note (p, g) act) := by
  cases act with
  | start r => exact hstart r rfl
  | run i x =>
    cases h : p.tasks[i]? with
    | none =>
      rw [observe_run_none h]
      exact hsame
    | some a =>
      rw [observe_run h, step_run h]
      exact hrun i x a.1 a.2 rfl h

/-! ## Interference

An invariant of the state and of each task, which is kept when the statements of one task keep it for the others. -/

variable {note : ν → σ → Nat → τ → γ → γ} {clash : ν → σ → τ → τ → Prop} {I : σ → γ → Prop}
  {J : σ → γ → Nat → τ → Prop}

/-- What holds of the store, of what is observed, and of every task. -/
def Holds (I : σ → γ → Prop) (J : σ → γ → Nat → τ → Prop) (q : Pool σ τ × γ) : Prop :=
  I q.1.store q.2 ∧ ∀ a ∈ q.1.tasks, J q.1.store q.2 a.1 a.2

/-- A pool without tasks holds the invariant if the state does. -/
theorem Holds.idle {s : σ} {g : γ} (h : I s g) : Holds I J (idle s, g) :=
  ⟨h, fun _ ha => absurd ha List.not_mem_nil⟩

/-- **Own steps and the steps of others.** `I` is about the store and what is observed, `J` about a
task beside them. A statement keeps `I`, establishes `J` of what its task goes on as, and keeps `J`
of every other task that it does not clash with. -/
theorem Holds.observe {q : Pool σ τ × γ} {act : Act ρ ν}
    (hstart : ∀ s g n r, I s g → J s g n (prog.enter r))
    (hown : ∀ x s g n t, I s g → J s g n t →
      I (prog.exec x s t).store (note x s n t g)
        ∧ ∀ t' ∈ (prog.exec x s t).next, J (prog.exec x s t).store (note x s n t g) n t')
    (hrely : ∀ x s g n t m o, I s g → J s g n t → J s g m o → ¬ clash x s t o →
      J (prog.exec x s t).store (note x s n t g) m o)
    (h : Holds I J q) (hapart : q.1.Apart clash act) : Holds I J (observe prog note q act) := by
  obtain ⟨p, g⟩ := q
  obtain ⟨hI, hJ⟩ := h
  refine observe_cases (P := Holds I J) ⟨hI, hJ⟩ (fun r _ => ⟨hI, fun a ha => ?_⟩)
    (fun i x n t he hi => ?_)
  · rcases List.mem_append.mp ha with ha | ha
    · exact hJ a ha
    · rw [List.mem_singleton.mp ha]
      exact hstart _ _ _ r hI
  · subst he
    have hsplit := perm_eraseIdx hi
    have ht : J p.store g n t := hJ (n, t) (hsplit.mem_iff.mpr List.mem_cons_self)
    obtain ⟨hI', hnext⟩ := hown x p.store g n t hI ht
    refine ⟨hI', fun a ha => ?_⟩
    rcases List.mem_append.mp ha with ha | ha
    · have ho : J p.store g a.1 a.2 := hJ a (hsplit.mem_iff.mpr (List.mem_cons_of_mem _ ha))
      exact hrely x p.store g n t a.1 a.2 hI ht ho (hapart n t hi a ha)
    · obtain ⟨t', ht', rfl⟩ := List.mem_map.mp ha
      exact hnext t' ht'

/-- What statements keep when they do not clash holds in every state of an interleaving without
clashes. -/
theorem always_of_apart {s : σ} {g : γ} {acts : List (Act ρ ν)}
    (hstart : ∀ s g n r, I s g → J s g n (prog.enter r))
    (hown : ∀ x s g n t, I s g → J s g n t →
      I (prog.exec x s t).store (note x s n t g)
        ∧ ∀ t' ∈ (prog.exec x s t).next, J (prog.exec x s t).store (note x s n t g) n t')
    (hrely : ∀ x s g n t m o, I s g → J s g n t → J s g m o → ¬ clash x s t o →
      J (prog.exec x s t).store (note x s n t g) m o)
    (h : I s g)
    (hapart : Meets (Pool.observe prog note) (fun q act => q.1.Apart clash act) (Pool.idle s, g) acts) :
    Always (Pool.observe prog note) (Holds I J) (Pool.idle s, g) acts :=
  always_of_meets (fun _ _ _ hq hact => hq.observe hstart hown hrely hact) (.idle h) hapart

/-- What statements keep in any case is kept by every step. -/
theorem Holds.observe_any {q : Pool σ τ × γ} (h : Holds I J q) (act : Act ρ ν)
    (hstart : ∀ s g n r, I s g → J s g n (prog.enter r))
    (hown : ∀ x s g n t, I s g → J s g n t →
      I (prog.exec x s t).store (note x s n t g)
        ∧ ∀ t' ∈ (prog.exec x s t).next, J (prog.exec x s t).store (note x s n t g) n t')
    (hrely : ∀ x s g n t m o, I s g → J s g n t → J s g m o →
      J (prog.exec x s t).store (note x s n t g) m o) : Holds I J (Pool.observe prog note q act) := by
  have hapart : q.1.Apart (fun _ _ _ _ => False) act := by
    cases act with
    | start r => trivial
    | run i x => exact fun _ _ _ _ _ => not_false
  exact h.observe hstart hown (fun x s g n t m o hI ht ho _ => hrely x s g n t m o hI ht ho) hapart

/-! ## Runs without overlap

At most one request is in flight, beside tasks that disturb nobody. -/

/-- A request comes in when no task is in flight. -/
def Sequential (p : Pool σ τ) : Act ρ ν → Prop
  | .start _ => p.tasks = []
  | .run _ _ => True

instance (p : Pool σ τ) : ∀ act : Act ρ ν, Decidable (p.Sequential act)
  | .start _ => decidable_of_iff (p.tasks.isEmpty = true) List.isEmpty_iff
  | .run _ _ => .isTrue trivial

/-- The task whose next statement an act runs. -/
def running (p : Pool σ τ) : Act ρ ν → Option τ
  | .start _ => none
  | .run i _ => p.tasks[i]?.map Prod.snd

/-- One task is in flight at most, or only `quiet` ones are, and `J` holds of each beside the store. -/
structure Lone (quiet : τ → Prop) (J : σ → τ → Prop) (p : Pool σ τ) : Prop where
  held : ∀ a ∈ p.tasks, J p.store a.2
  alone : p.tasks.length ≤ 1 ∨ ∀ a ∈ p.tasks, quiet a.2

theorem Lone.idle {quiet : τ → Prop} {J : σ → τ → Prop} (s : σ) : Lone quiet J (Pool.idle s) :=
  ⟨fun _ ha => absurd ha List.not_mem_nil, .inl (Nat.zero_le 1)⟩

/-- **Own steps only.** A task goes on alone, or as quiet tasks, of which `J` holds beside any store and
which go on as quiet ones. Then what a statement keeps of its own task is kept by every step of a run
without overlap. -/
theorem Lone.step {quiet : τ → Prop} {J : σ → τ → Prop} {act : Act ρ ν}
    (hstart : ∀ s r, J s (prog.enter r))
    (hown : ∀ x s t, J s t → ∀ t' ∈ (prog.exec x s t).next, J (prog.exec x s t).store t')
    (hnext : ∀ x s t, J s t →
      (prog.exec x s t).next.length ≤ 1 ∨ ∀ t' ∈ (prog.exec x s t).next, quiet t')
    (hquiet : ∀ x s t, quiet t → ∀ t' ∈ (prog.exec x s t).next, quiet t')
    (hJ : ∀ s t, quiet t → J s t) (h : Lone quiet J p) (hseq : p.Sequential act) :
    Lone quiet J (p.step prog act) := by
  cases act with
  | start r =>
    -- a request enters only when no task is in flight
    have htasks : (p.step prog (.start r : Act ρ ν)).tasks = [(p.requests, prog.enter r)] := by
      show p.tasks ++ _ = _
      rw [show p.tasks = [] from hseq, List.nil_append]
    constructor
    · intro a ha
      rw [htasks, List.mem_singleton] at ha
      rw [ha]
      exact hstart _ r
    · rw [htasks]
      exact .inl (Nat.le_refl 1)
  | run i x =>
    cases hi : p.tasks[i]? with
    | none =>
      rw [step_run_none hi]
      exact h
    | some a =>
      obtain ⟨n, t⟩ := a
      have hsplit := perm_eraseIdx hi
      have hmem : ∀ a ∈ p.tasks.eraseIdx i, a ∈ p.tasks :=
        fun a ha => hsplit.mem_iff.mpr (List.mem_cons_of_mem _ ha)
      have ht : (n, t) ∈ p.tasks := hsplit.mem_iff.mpr List.mem_cons_self
      have hgo := hown x p.store t (h.held (n, t) ht)
      rw [step_run hi]
      rcases h.alone with hlone | hall
      · -- no other task is there
        have hnone : p.tasks.eraseIdx i = [] := by
          have hlength := hsplit.length_eq
          rw [List.length_cons] at hlength
          exact List.length_eq_zero_iff.mp (by omega)
        rw [hnone, List.nil_append]
        constructor
        · intro a ha
          obtain ⟨t', ht', rfl⟩ := List.mem_map.mp ha
          exact hgo t' ht'
        · refine (hnext x p.store t (h.held (n, t) ht)).imp (fun hle => ?_) fun hq a ha => ?_
          · rw [List.length_map]
            exact hle
          · obtain ⟨t', ht', rfl⟩ := List.mem_map.mp ha
            exact hq t' ht'
      -- every task is quiet, and stays so
      · have hrest : ∀ a ∈ p.tasks.eraseIdx i ++ (prog.exec x p.store t).next.map (Prod.mk n),
            quiet a.2 := by
          intro a ha
          rcases List.mem_append.mp ha with ha | ha
          · exact hall a (hmem a ha)
          · obtain ⟨t', ht', rfl⟩ := List.mem_map.mp ha
            exact hquiet x p.store t (hall (n, t) ht) t' ht'
        exact ⟨fun a ha => hJ _ _ (hrest a ha), .inr hrest⟩

/-! ## Exact conditions

A condition on steps that is met exactly as long as a property holds. -/

/-- **The step rule for a condition.** When `c` is exactly what makes the next statement of a task break
`P`, an act keeps `P` exactly when the task that it runs does not meet `c`. -/
theorem observe_iff {note : ν → σ → Nat → τ → γ → γ} {P : σ → γ → Prop} {c : τ → Prop} {g : γ}
    {act : Act ρ ν} (hP : P p.store g)
    (h : ∀ i x n t, act = .run i x → p.tasks[i]? = some (n, t) →
      (P (prog.exec x p.store t).store (note x p.store n t g) ↔ ¬ c t)) :
    P (observe prog note (p, g) act).1.store (observe prog note (p, g) act).2
      ↔ ¬ ∃ t ∈ p.running act, c t := by
  cases act with
  | start r => exact iff_of_true hP (by rintro ⟨_, ht, -⟩; cases ht)
  | run i x =>
    cases hi : p.tasks[i]? with
    | none =>
      rw [observe_run_none hi]
      refine iff_of_true hP ?_
      rintro ⟨t, ht, -⟩
      rw [Option.mem_def, running, hi] at ht
      cases ht
    | some a =>
      obtain ⟨n, t⟩ := a
      have hrunning : (∃ t' ∈ p.running (.run i x : Act ρ ν), c t') ↔ c t := by
        simp [running, hi]
      rw [observe_run hi, step_run hi, hrunning]
      exact h i x n t rfl hi

/-- The same without an observer. -/
theorem step_iff {P : σ → Prop} {c : τ → Prop} {act : Act ρ ν} (hP : P p.store)
    (h : ∀ i x n t, act = .run i x → p.tasks[i]? = some (n, t) →
      (P (prog.exec x p.store t).store ↔ ¬ c t)) :
    P (p.step prog act).store ↔ ¬ ∃ t ∈ p.running act, c t := by
  have hiff : P (observe prog (fun _ _ _ _ g => g) (p, ()) act).1.store ↔ ¬ ∃ t ∈ p.running act, c t :=
    observe_iff (P := fun s (_ : Unit) => P s) hP h
  cases act with
  | start r => exact hiff
  | run i x => exact hiff

/-- **The run rule for a condition.** `Q` is an invariant of every step. Where `c` is exactly what makes a
statement break `P` in a pool with `Q`, `P` holds all along an interleaving exactly when no statement of it
meets `c`. -/
theorem always_iff_of_statements {note : ν → σ → Nat → τ → γ → γ} {P : σ → γ → Prop} {c : σ → τ → Prop}
    {Q : Pool σ τ × γ → Prop} {q : Pool σ τ × γ} {acts : List (Act ρ ν)}
    (hkeep : ∀ q (act : Act ρ ν), Q q → Q (observe prog note q act))
    (hstep : ∀ x n t p g, Q (p, g) → (n, t) ∈ p.tasks → P p.store g →
      (P (prog.exec x p.store t).store (note x p.store n t g) ↔ ¬ c p.store t)) (hQ : Q q)
    (hP : P q.1.store q.2) :
    Always (observe prog note) (fun q => P q.1.store q.2) q acts
      ↔ Meets (observe prog note) (fun q act => ¬ ∃ t ∈ q.1.running act, c q.1.store t) q acts := by
  refine always_iff_meets_of_invariant (Q := Q) (d := fun _ _ => True) (fun act q hq _ => hkeep q act hq)
    (fun act q hq _ hp => ?_) hQ hP (.of_forall (fun _ _ => trivial) _ _)
  obtain ⟨p, g⟩ := q
  exact observe_iff hp fun i x n t _ hi => hstep x n t p g hq (List.mem_of_getElem? hi) hp

/-- The run rule without an observer. -/
theorem always_step_iff_of_statements {P : σ → Prop} {c : σ → τ → Prop} {Q : Pool σ τ → Prop}
    {acts : List (Act ρ ν)} (hkeep : ∀ p (act : Act ρ ν), Q p → Q (p.step prog act))
    (hstep : ∀ x n t p, Q p → (n, t) ∈ p.tasks → P p.store →
      (P (prog.exec x p.store t).store ↔ ¬ c p.store t)) (hQ : Q p) (hP : P p.store) :
    Always (step prog) (fun p => P p.store) p acts
      ↔ Meets (step prog) (fun p act => ¬ ∃ t ∈ p.running act, c p.store t) p acts := by
  refine always_iff_meets_of_invariant (Q := Q) (d := fun _ _ => True) (fun act p hq _ => hkeep p act hq)
    (fun act p hq _ hp => ?_) hQ hP (.of_forall (fun _ _ => trivial) _ _)
  exact step_iff hp fun i x n t _ hi => hstep x n t p hq (List.mem_of_getElem? hi) hp

/-! ## One task alone

A task that runs to its end while nothing else does. -/

/-- The next statement of the only task. -/
theorem run_alone (s : σ) (n k : Nat) (t : τ) (x : ν) (acts : List (Act ρ ν)) :
    AcaSocial.run (step prog) ⟨s, [(n, t)], k⟩ (.run 0 x :: acts) = AcaSocial.run (step prog)
      ⟨(prog.exec x s t).store, (prog.exec x s t).next.map (Prod.mk n), k⟩ acts := rfl

/-- Without a task no statement runs. -/
theorem run_over (s : σ) (k m : Nat) (x : ν) :
    AcaSocial.run (step prog) ⟨s, [], k⟩ (List.replicate m (.run 0 x)) = ⟨s, [], k⟩ := by
  induction m with
  | zero => rfl
  | succ m ih => exact ih

/-! ## Every task, and every two

Invariants of single tasks and of pairs of tasks. -/

/-- **The step rule for every task.** What holds of a task that comes in, of what the running task goes on as, and
still of the others, holds of all tasks after the step. -/
theorem tasks_step {J : σ → τ → Prop} {act : Act ρ ν} (hstart : ∀ r, act = .start r → J p.store (prog.enter r))
    (hrun : ∀ i x n t, act = .run i x → p.tasks[i]? = some (n, t) →
      (∀ t' ∈ (prog.exec x p.store t).next, J (prog.exec x p.store t).store t')
        ∧ ∀ o ∈ p.tasks.eraseIdx i, J (prog.exec x p.store t).store o.2)
    (h : ∀ a ∈ p.tasks, J p.store a.2) : ∀ a ∈ (p.step prog act).tasks, J (p.step prog act).store a.2 := by
  cases act with
  | start r =>
    intro a ha
    rcases List.mem_append.mp ha with ha | ha
    · exact h a ha
    · rw [List.mem_singleton.mp ha]
      exact hstart r rfl
  | run i x =>
    cases hi : p.tasks[i]? with
    | none =>
      rw [step_run_none hi]
      exact h
    | some a =>
      obtain ⟨n, t⟩ := a
      obtain ⟨hnext, hothers⟩ := hrun i x n t rfl hi
      rw [step_run hi]
      intro a ha
      rcases List.mem_append.mp ha with ha | ha
      · exact hothers a ha
      · obtain ⟨t', ht', rfl⟩ := List.mem_map.mp ha
        exact hnext t' ht'

/-- The numbers of the tasks are different, and have been given out. -/
structure Numbered (p : Pool σ τ) : Prop where
  nodup : (p.tasks.map Prod.fst).Nodup
  lt : ∀ a ∈ p.tasks, a.1 < p.requests

theorem Numbered.idle (s : σ) : Numbered (Pool.idle s : Pool σ τ) :=
  ⟨List.nodup_nil, fun _ ha => absurd ha List.not_mem_nil⟩

/-- The other tasks have other numbers. -/
theorem Numbered.others {i : Nat} {a : Nat × τ} (h : Numbered p) (hi : p.tasks[i]? = some a) :
    (a.1 :: (p.tasks.eraseIdx i).map Prod.fst).Nodup :=
  ((perm_eraseIdx hi).map Prod.fst).nodup_iff.mp h.nodup

/-- When no task goes on as several, the numbers stay different. -/
theorem Numbered.step {act : Act ρ ν} (hone : ∀ x s t, (prog.exec x s t).next.length ≤ 1) (h : Numbered p) :
    Numbered (p.step prog act) := by
  cases act with
  | start r =>
    constructor
    · show ((p.tasks ++ [(p.requests, prog.enter r)]).map Prod.fst).Nodup
      rw [List.map_append]
      refine List.nodup_append.mpr ⟨h.nodup, List.pairwise_singleton _ _, fun n hn m hm => ?_⟩
      obtain ⟨a, ha, rfl⟩ := List.mem_map.mp hn
      rw [List.mem_singleton.mp hm]
      exact Nat.ne_of_lt (h.lt a ha)
    · intro a ha
      show a.1 < p.requests + 1
      rcases List.mem_append.mp ha with ha | ha
      · exact Nat.lt_succ_of_lt (h.lt a ha)
      · rw [List.mem_singleton.mp ha]
        exact Nat.lt_succ_self _
  | run i x =>
    cases hi : p.tasks[i]? with
    | none =>
      rw [step_run_none hi]
      exact h
    | some a =>
      have hsplit := perm_eraseIdx hi
      have hothers := h.others hi
      rw [step_run hi]
      constructor
      · rw [List.map_append, List.map_map]
        have hshort := hone x p.store a.2
        -- the number goes to the one task that goes on, if there is one
        match hnext : (prog.exec x p.store a.2).next with
        | [] =>
          rw [List.map_nil, List.append_nil]
          exact hothers.of_cons
        | [t'] => exact (List.perm_append_singleton a.1 _).nodup_iff.mpr hothers
        | _ :: _ :: _ =>
          rw [hnext] at hshort
          exact absurd hshort (by simp)
      · intro b hb
        rcases List.mem_append.mp hb with hb | hb
        · exact h.lt b (hsplit.mem_iff.mpr (List.mem_cons_of_mem _ hb))
        · obtain ⟨t', -, rfl⟩ := List.mem_map.mp hb
          exact h.lt a (hsplit.mem_iff.mpr List.mem_cons_self)

/-- What is true of every two tasks is true of the one at a position and of each other one. -/
theorem pairwise_others {P : Nat × τ → Nat × τ → Prop} (hsymm : ∀ a b, P a b → P b a) (h : p.tasks.Pairwise P) {i : Nat}
    {a : Nat × τ} (hi : p.tasks[i]? = some a) :
    (∀ o ∈ p.tasks.eraseIdx i, P a o) ∧ (p.tasks.eraseIdx i).Pairwise P := by
  have hsplit := ((perm_eraseIdx hi).pairwise_iff fun hab => hsymm _ _ hab).mp h
  exact ⟨fun o ho => List.rel_of_pairwise_cons hsplit ho, hsplit.of_cons⟩

/-- **The step rule for every two tasks.** -/
theorem pairwise_step {P : τ → τ → Prop} (hsymm : ∀ t o, P t o → P o t) {act : Act ρ ν}
    (hstart : ∀ r, act = .start r → ∀ a ∈ p.tasks, P a.2 (prog.enter r))
    (hrun : ∀ i x n t, act = .run i x → p.tasks[i]? = some (n, t) → (prog.exec x p.store t).next.Pairwise P
      ∧ ∀ o ∈ p.tasks.eraseIdx i, P t o.2 → ∀ t' ∈ (prog.exec x p.store t).next, P o.2 t')
    (h : p.tasks.Pairwise fun a b => P a.2 b.2) : (p.step prog act).tasks.Pairwise fun a b => P a.2 b.2 := by
  cases act with
  | start r =>
    refine List.pairwise_append.mpr ⟨h, List.pairwise_singleton _ _, fun a ha b hb => ?_⟩
    rw [List.mem_singleton.mp hb]
    exact hstart r rfl a ha
  | run i x =>
    cases hi : p.tasks[i]? with
    | none =>
      rw [step_run_none hi]
      exact h
    | some a =>
      obtain ⟨n, t⟩ := a
      obtain ⟨hothers, hrest⟩ := pairwise_others (fun a b => hsymm a.2 b.2) h hi
      obtain ⟨hnext, hgo⟩ := hrun i x n t rfl hi
      rw [step_run hi]
      refine List.pairwise_append.mpr ⟨hrest, List.pairwise_map.mpr hnext, fun o ho b hb => ?_⟩
      obtain ⟨t', ht', rfl⟩ := List.mem_map.mp hb
      exact hgo o ho (hothers o ho) t' ht'

/-! ## Several tasks together

What the tasks have in hand, as one list. -/

/-- What all tasks hold, together, after the next statement of one of them. -/
theorem filterMap_run {β : Type} (f : Nat × τ → Option β) {i : Nat} {a : Nat × τ}
    (h : p.tasks[i]? = some a) :
    (p.tasks.filterMap f).Perm ((f a).toList ++ (p.tasks.eraseIdx i).filterMap f) := by
  have hsplit := (perm_eraseIdx h).filterMap f
  rw [List.filterMap_cons] at hsplit
  cases ha : f a with
  | none =>
    rw [ha] at hsplit
    exact hsplit
  | some b =>
    rw [ha] at hsplit
    exact hsplit

end Pool

end AcaSocial
