import AcaSocial.Base.Tasks
import Mathlib.Algebra.Order.Ring.Int

/-!
# Requests that run alone

A request that runs alone runs all its statements with nothing between them.

* **`Program.advance`** — the next statement of the first task of an effect. What it goes on with comes
  after the other tasks.
* **`Program.finish`** — a number of statements, one after another.
* **`Program.Ends`** — the effect that is reached when no task is left. There is one at most, and
  `ends_finish` says that it is reached, when a rank goes down with every statement.

`Ends.advance` is the rule with which a request is followed statement by statement. `run_finish` says
that it is one of the interleavings.
-/

namespace AcaSocial.Program

variable {σ ρ τ ν α : Type} (prog : Program σ ρ τ ν α) (x : ν)

/-- The next statement of the first task. -/
def advance (e : Effect σ τ α) : Effect σ τ α :=
  match e.next with
  | [] => e
  | t :: ts =>
    let e' := prog.exec x e.store t
    ⟨e'.store, ts ++ e'.next, e'.reply.or e.reply⟩

/-- The next `n` statements. -/
def finish : Nat → Effect σ τ α → Effect σ τ α
  | 0, e => e
  | n + 1, e => finish n (prog.advance x e)

/-- The tasks of `e` have run to their ends and left `f`. -/
structure Ends (e f : Effect σ τ α) : Prop where
  done : f.next = []
  reached : ∃ n, prog.finish x n e = f

variable {prog x} {e f f' : Effect σ τ α}

/-- A task that is over does nothing more, -/
theorem advance_of_over (h : e.next = []) : prog.advance x e = e := by
  rw [advance, h]

/-- however often it is asked to. -/
theorem finish_of_over (h : e.next = []) (n : Nat) : prog.finish x n e = e := by
  induction n with
  | zero => rfl
  | succ n ih =>
    rw [finish, advance_of_over h]
    exact ih

/-- A request ends as it does after its next statement. -/
theorem Ends.advance (h : prog.Ends x e f) : prog.Ends x (prog.advance x e) f := by
  obtain ⟨hover, n, hn⟩ := h
  cases n with
  | zero =>
    have hn : e = f := hn
    subst hn
    rw [advance_of_over hover]
    exact ⟨hover, 0, rfl⟩
  | succ n => exact ⟨hover, n, hn⟩

/-- A request that is over has ended as it is. -/
theorem Ends.eq (h : prog.Ends x e f) (hover : e.next = []) : f = e := by
  obtain ⟨-, n, rfl⟩ := h
  exact finish_of_over hover n

/-- The statements that are left are counted by a rank that every statement takes down. -/
theorem ends_finish (rank : τ → Nat)
    (hrank : ∀ s t, ((prog.exec x s t).next.map rank).sum < rank t) {n : Nat} {e : Effect σ τ α}
    (hn : (e.next.map rank).sum ≤ n) : prog.Ends x e (prog.finish x n e) := by
  refine ⟨?_, n, rfl⟩
  induction n generalizing e with
  | zero =>
    cases hnext : e.next with
    | nil => exact hnext
    | cons t ts =>
      -- the rank of a task is over that of what it goes on with
      have ht := hrank e.store t
      rw [hnext, List.map_cons, List.sum_cons] at hn
      omega
  | succ n ih =>
    show (prog.finish x n (prog.advance x e)).next = []
    cases hnext : e.next with
    | nil =>
      rw [advance_of_over hnext, finish_of_over hnext]
      exact hnext
    | cons t ts =>
      apply ih
      have ht := hrank e.store t
      have hadvance : (prog.advance x e).next = ts ++ (prog.exec x e.store t).next := by
        rw [Program.advance, hnext]
      rw [hnext, List.map_cons, List.sum_cons] at hn
      rw [hadvance, List.map_append, List.sum_append]
      omega

/-- **A request alone is an interleaving.** Its statements are those of the first task of the pool, one
after another. -/
theorem run_finish (n k m : Nat) (e : Effect σ τ α) :
    run (Pool.step prog) ⟨e.store, e.next.map (Prod.mk k), m⟩ (List.replicate n (.run 0 x))
      = ⟨(prog.finish x n e).store, (prog.finish x n e).next.map (Prod.mk k), m⟩ := by
  induction n generalizing e with
  | zero => rfl
  | succ n ih =>
    rw [List.replicate_succ, run_cons, finish, ← ih (prog.advance x e)]
    congr 1
    cases hnext : e.next with
    | nil =>
      rw [advance_of_over hnext, hnext]
      rfl
    | cons t ts =>
      have hzero : ((t :: ts).map (Prod.mk k))[0]? = some (k, t) := rfl
      rw [Pool.step_run hzero, Program.advance, hnext]
      simp only [List.map_cons, List.eraseIdx_cons_zero, List.map_append]

end AcaSocial.Program
