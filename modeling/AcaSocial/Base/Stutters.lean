import Mathlib.Data.List.Induction
import AcaSocial.Base.Tasks

/-!
# Programs that wait more

A program may keep more of its store and its tasks than another one and otherwise work as that does, except that some
of its statements change nothing that the other one knows of. What the other one keeps to is kept to by both.

* **`Pool.image`** — what the other program knows of a pool.
* **`Pool.Reordered`** — two pools with the same tasks, in any order.
* **`Stutters`** — every statement is one of the other program, or changes nothing for it.
* **`Stutters.keeps`** — what a step of the other program keeps is kept.
* **`Stutters.run`** — a run is one of the other program, up to the order of the tasks.
-/

namespace AcaSocial

variable {σ σ' ρ τ τ' ν ν' α α' : Type}

namespace Pool

/-- What `f` knows of the store and `g` of the tasks. -/
def image (f : σ → σ') (g : τ → τ') (p : Pool σ τ) : Pool σ' τ' :=
  ⟨f p.store, p.tasks.map (Prod.map id g), p.requests⟩

/-- The pools differ in the order of their tasks at most. -/
structure Reordered (p q : Pool σ τ) : Prop where
  store : p.store = q.store
  tasks : p.tasks.Perm q.tasks
  requests : p.requests = q.requests

variable {p q : Pool σ τ}

/-- A pool is a reordering of itself. -/
theorem Reordered.refl (p : Pool σ τ) : Reordered p p := ⟨rfl, .refl _, rfl⟩

/-- A step of one pool is a step of the other, on the same task. -/
theorem Reordered.step (prog : Program σ ρ τ ν α) (h : Reordered p q) (act : Act ρ ν) :
    ∃ act', Reordered (p.step prog act) (q.step prog act') := by
  obtain ⟨s, ts, k⟩ := p
  obtain ⟨s', us, k'⟩ := q
  obtain ⟨rfl, htasks, rfl⟩ := h
  cases act with
  | start r => exact ⟨.start r, rfl, htasks.append_right _, rfl⟩
  | run i x =>
    cases hi : ts[i]? with
    | none =>
      -- neither pool has a task there, or the other one runs none
      refine ⟨.run us.length x, ?_⟩
      rw [step_run_none hi, step_run_none (List.getElem?_eq_none (Nat.le_refl _))]
      exact ⟨rfl, htasks, rfl⟩
    | some a =>
      obtain ⟨j, hj⟩ := List.mem_iff_getElem?.mp (htasks.mem_iff.mp (List.mem_of_getElem? hi))
      refine ⟨.run j x, ?_⟩
      have hi : (⟨s, ts, k⟩ : Pool σ τ).tasks[i]? = some (a.1, a.2) := hi
      have hj : (⟨s, us, k⟩ : Pool σ τ).tasks[j]? = some (a.1, a.2) := hj
      rw [step_run hi, step_run hj]
      have hothers : (ts.eraseIdx i).Perm (us.eraseIdx j) :=
        ((perm_eraseIdx hi).symm.trans (htasks.trans (perm_eraseIdx hj))).cons_inv
      exact ⟨rfl, hothers.append_right _, rfl⟩

end Pool

/-- Every statement of `prog` is one of `prog'`, with what `f` and `g` know, or it changes nothing of that. -/
structure Stutters (prog : Program σ ρ τ ν α) (prog' : Program σ' ρ τ' ν' α') (f : σ → σ') (g : τ → τ') : Prop where
  enter : ∀ r, g (prog.enter r) = prog'.enter r
  exec : ∀ x s t, (∃ x', f (prog.exec x s t).store = (prog'.exec x' (f s) (g t)).store
      ∧ (prog.exec x s t).next.map g = (prog'.exec x' (f s) (g t)).next)
    ∨ (f (prog.exec x s t).store = f s ∧ (prog.exec x s t).next.map g = [g t])

namespace Stutters

variable {prog : Program σ ρ τ ν α} {prog' : Program σ' ρ τ' ν' α'} {f : σ → σ'} {g : τ → τ'} {p : Pool σ τ}

open Pool

/-- A new request enters both programs alike. -/
theorem image_start (h : Stutters prog prog' f g) (r : ρ) :
    (p.step prog (.start r)).image f g = (p.image f g).step prog' (.start r) := by
  have htasks : (p.tasks ++ [(p.requests, prog.enter r)]).map (Prod.map id g)
      = (p.image f g).tasks ++ [(p.requests, prog'.enter r)] := by
    rw [List.map_append, ← h.enter r]
    rfl
  exact congrArg (fun ts => (⟨f p.store, ts, p.requests + 1⟩ : Pool σ' τ')) htasks

/-- A statement of one task is a statement of the same task in the other program, or the pool stays as it is. -/
theorem image_run (h : Stutters prog prog' f g) (i : Nat) (x : ν) :
    (∃ x', (p.step prog (.run i x)).image f g = (p.image f g).step prog' (.run i x'))
      ∨ ((p.step prog (.run i x)).image f g).Reordered (p.image f g) := by
  cases hi : p.tasks[i]? with
  | none =>
    rw [step_run_none hi]
    exact .inr (.refl _)
  | some a =>
    obtain ⟨n, t⟩ := a
    -- the task has the same place in the image
    have hi' : (p.image f g).tasks[i]? = some (n, g t) := by
      show (p.tasks.map (Prod.map id g))[i]? = _
      rw [List.getElem?_map, hi]
      rfl
    have hothers : (p.image f g).tasks.eraseIdx i = (p.tasks.eraseIdx i).map (Prod.map id g) :=
      (List.eraseIdx_map (Prod.map id g) p.tasks i)
    have hnext : ∀ ts : List τ, (ts.map (Prod.mk n)).map (Prod.map id g) = (ts.map g).map (Prod.mk n) := by
      intro ts
      rw [List.map_map, List.map_map]
      rfl
    rw [step_run hi]
    -- it makes the step of the other program, or it waits
    rcases h.exec x p.store t with ⟨x', hstore, htasks⟩ | ⟨hstore, htasks⟩
    · refine .inl ⟨x', ?_⟩
      rw [step_run hi']
      unfold image at hothers ⊢
      dsimp only at hothers ⊢
      rw [List.map_append, hnext, htasks, hothers, hstore]
    · refine .inr ⟨hstore, ?_, rfl⟩
      -- a task that waits goes to the end of the list
      show ((p.tasks.eraseIdx i ++ _).map _).Perm _
      rw [List.map_append, hnext, htasks, ← hothers]
      exact (List.perm_append_singleton _ _).trans (perm_eraseIdx hi').symm

/-- **The step rule.** What does not depend on the order of the tasks and is kept by the step of the other program is
kept. -/
theorem keeps (h : Stutters prog prog' f g) {P : Pool σ' τ' → Prop} {act : Act ρ ν}
    (hreorder : ∀ p q : Pool σ' τ', p.Reordered q → P q → P p)
    (hstart : ∀ r, act = .start r → P ((p.image f g).step prog' (.start r)))
    (hrun : ∀ i x, act = .run i x → ∀ x', P ((p.image f g).step prog' (.run i x'))) (hp : P (p.image f g)) :
    P ((p.step prog act).image f g) := by
  cases act with
  | start r =>
    rw [h.image_start]
    exact hstart r rfl
  | run i x =>
    rcases h.image_run (p := p) i x with ⟨x', hstep⟩ | hsame
    · rw [hstep]
      exact hrun i x rfl x'
    · exact hreorder _ _ hsame hp

/-- **The run rule.** A run of the program is a run of the other one, up to the order of the tasks. -/
theorem run (h : Stutters prog prog' f g) (p : Pool σ τ) (acts : List (Act ρ ν)) :
    ∃ acts', ((AcaSocial.run (Pool.step prog) p acts).image f g).Reordered
      (AcaSocial.run (Pool.step prog') (p.image f g) acts') := by
  induction acts using List.reverseRecOn with
  | nil => exact ⟨[], .refl _⟩
  | append_singleton acts act ih =>
    obtain ⟨acts', hrun⟩ := ih
    rw [AcaSocial.run_append]
    generalize AcaSocial.run (Pool.step prog) p acts = p₁ at hrun ⊢
    show ∃ acts', ((p₁.step prog act).image f g).Reordered _
    cases act with
    | start r =>
      obtain ⟨act', hact⟩ := hrun.step prog' (.start r)
      refine ⟨acts' ++ [act'], ?_⟩
      rw [AcaSocial.run_append, h.image_start]
      exact hact
    | run i x =>
      rcases h.image_run (p := p₁) i x with ⟨x', hstep⟩ | hsame
      · obtain ⟨act', hact⟩ := hrun.step prog' (.run i x')
        refine ⟨acts' ++ [act'], ?_⟩
        rw [AcaSocial.run_append, hstep]
        exact hact
      · exact ⟨acts', hsame.store.trans hrun.store, hsame.tasks.trans hrun.tasks, hsame.requests.trans hrun.requests⟩

end Stutters

end AcaSocial
