import AcaSocial.Base.Tasks

/-!
# Interference between tasks

Between two statements of one task the others change the store. What a task relies on is that they change it only in
ways that do not matter to it, and a task that relies on that keeps the invariant with every statement.

* **`Contract`** — the invariant of the store, what a task relies on, what each of its statements comes with, and
  when a statement may run.
* **`Contract.Secure`** — a task that keeps the invariant to its end as long as the others do what it relies on.
* **`Pool.Secured.step`** — when every statement leaves the other tasks what they rely on, the invariant is kept by
  every step.
-/

namespace AcaSocial

variable {σ ρ τ ν α : Type}

/-- What holds between tasks that share a store. -/
structure Contract (σ τ ν : Type) where
  /-- The invariant of the store. -/
  inv : σ → Prop
  /-- What a task relies on about the changes that others make. -/
  rely : τ → σ → σ → Prop
  /-- What a task brings to each of its statements. -/
  brings : σ → τ → Prop
  /-- The condition under which a task runs its next statement. -/
  may : ν → σ → τ → Prop
  refl : ∀ t s, rely t s s
  trans : ∀ t {s s' s'' : σ}, rely t s s' → rely t s' s'' → rely t s s''

/-- A statement that has to be tried again. -/
def Effect.Waits (e : Effect σ τ α) (s : σ) (t : τ) : Prop := e.store = s ∧ e.next = [t]

namespace Contract

variable (prog : Program σ ρ τ ν α) (c : Contract σ τ ν)

/-- A task that keeps the invariant with each statement to its end, whatever the others do within what it relies on. -/
inductive Secure : σ → τ → Prop
  | intro {s : σ} {t : τ} (brings : ∀ s', c.rely t s s' → c.inv s' → c.brings s' t)
      (keeps : ∀ s' x, c.rely t s s' → c.inv s' → c.may x s' t → c.inv (prog.exec x s' t).store)
      (next : ∀ s' x, c.rely t s s' → c.inv s' → c.may x s' t → ¬ (prog.exec x s' t).Waits s' t →
        ∀ t' ∈ (prog.exec x s' t).next, Secure (prog.exec x s' t).store t') : Secure s t

variable {prog c} {s s' : σ} {t : τ}

/-- An entry that keeps the invariant brings the store where it leads. -/
theorem Secure.brings_self (h : c.Secure prog s t) (hinv : c.inv s) : c.brings s t := by
  cases h with
  | intro brings _ _ => exact brings s (c.refl t s) hinv

/-- A task stays secure while others do what it relies on. -/
theorem Secure.rely (h : c.Secure prog s t) (hrely : c.rely t s s') : c.Secure prog s' t := by
  cases h with
  | intro brings keeps next =>
    constructor
    · exact fun s'' hr => brings s'' (c.trans t hrely hr)
    · exact fun s'' x hr => keeps s'' x (c.trans t hrely hr)
    · exact fun s'' x hr => next s'' x (c.trans t hrely hr)

/-- A secure task that runs a statement keeps the invariant and goes on as a secure task. -/
theorem Secure.exec (h : c.Secure prog s t) (hinv : c.inv s) {x : ν} (hmay : c.may x s t) :
    c.inv (prog.exec x s t).store ∧ ∀ t' ∈ (prog.exec x s t).next, c.Secure prog (prog.exec x s t).store t' := by
  have hself := h
  cases h with
  | intro brings keeps next =>
    refine ⟨keeps s x (c.refl t s) hinv hmay, fun t' ht' => ?_⟩
    by_cases hwaits : (prog.exec x s t).Waits s t
    · rw [hwaits.2] at ht'
      rw [hwaits.1, List.mem_singleton.mp ht']
      exact hself
    · exact next s x (c.refl t s) hinv hmay hwaits t' ht'

end Contract

namespace Pool

variable {prog : Program σ ρ τ ν α} {p : Pool σ τ}

/-- The invariant holds, and every task is secure. -/
structure Secured (prog : Program σ ρ τ ν α) (c : Contract σ τ ν) (p : Pool σ τ) : Prop where
  inv : c.inv p.store
  tasks : ∀ a ∈ p.tasks, c.Secure prog p.store a.2

/-- A request that comes in is one that `enters` names, and a statement runs when it may. -/
def Allowed (c : Contract σ τ ν) (enters : ρ → Prop) (p : Pool σ τ) : Act ρ ν → Prop
  | .start r => enters r
  | .run i x => ∀ n t, p.tasks[i]? = some (n, t) → c.may x p.store t

/-- **Own steps within a contract.** `guarantee` is that a statement leaves another task what that one relies on,
unless the two clash; `pair` is what is known of every two tasks. -/
theorem Secured.step {c : Contract σ τ ν} {enters : ρ → Prop} {pair : τ → τ → Prop} {clash : ν → σ → τ → τ → Prop}
    {act : Act ρ ν} (hstart : ∀ s r, c.inv s → enters r → c.Secure prog s (prog.enter r))
    (guarantee : ∀ x s t o, c.inv s → c.brings s t → pair t o → ¬ clash x s t o → c.rely o s (prog.exec x s t).store)
    (hpair : ∀ i n t, p.tasks[i]? = some (n, t) → ∀ o ∈ p.tasks.eraseIdx i, pair t o.2)
    (hallowed : p.Allowed c enters act) (hapart : p.Apart clash act) (h : Secured prog c p) :
    Secured prog c (p.step prog act) := by
  refine ⟨?_, tasks_step (fun r he => ?_) (fun i x n t he hi => ?_) h.tasks⟩
  · cases act with
    | start r => exact h.inv
    | run i x =>
      cases hi : p.tasks[i]? with
      | none =>
        rw [step_run_none hi]
        exact h.inv
      | some a =>
        rw [step_run hi]
        exact ((h.tasks a (List.mem_of_getElem? hi)).exec h.inv (hallowed a.1 a.2 hi)).1
  · subst he
    exact hstart p.store r h.inv hallowed
  · subst he
    have ht : c.Secure prog p.store t := h.tasks (n, t) (List.mem_of_getElem? hi)
    refine ⟨(ht.exec h.inv (hallowed n t hi)).2, fun o ho => ?_⟩
    -- another task finds what it relies on
    have hmem : o ∈ p.tasks := (perm_eraseIdx hi).mem_iff.mpr (List.mem_cons_of_mem _ ho)
    exact (h.tasks o hmem).rely (guarantee x p.store t o.2 h.inv (ht.brings_self h.inv) (hpair i n t hi o ho)
      (hapart n t hi o ho))

end Pool

end AcaSocial
