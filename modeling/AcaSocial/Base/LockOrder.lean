import Mathlib.Logic.Relation
import Mathlib.Order.Basic
import AcaSocial.Base.Tasks

/-!
# Locks that are taken one after another

A transaction that works on several rows locks them one by one and holds them all to its end. Another transaction that
wants one of them waits.

* **`LocksStep`** — what a statement may do with locks: keep them, take one more, or give all of its task back.
* **`Pool.Separate`** — no two tasks hold one lock, and what a task holds is locked.
* **`not_transGen_of_rank`** — tasks of which each wants something after what it keeps others from, in some order, never
  wait for each other in a cycle.
* **`cycle_of_next`** — only what waits in turn is on a cycle.
-/

namespace AcaSocial

variable {σ ρ τ ν α κ : Type} (locks : σ → List κ) (held : τ → List κ)

/-- A statement of the task `t` on the store `s` leaves the locks as they are, or takes a free one, or gives back all
that its task holds. -/
inductive LocksStep (s : σ) (t : τ) (e : Effect σ τ α) : Prop where
  | keep (t' : τ) (hnext : e.next = [t']) (hheld : held t' = held t) (hlocks : locks e.store = locks s)
  | acquire (t' : τ) (k : κ) (hnext : e.next = [t']) (hheld : held t' = held t ++ [k]) (hfree : k ∉ locks s)
      (hlocks : locks e.store = k :: locks s)
  | release (hnext : e.next = []) (hlocks : ∀ k, k ∈ locks e.store ↔ k ∈ locks s ∧ k ∉ held t)

namespace Pool

/-- What the tasks hold is locked, and no two of them hold the same. -/
structure Separate (p : Pool σ τ) : Prop where
  locked : ∀ a ∈ p.tasks, ∀ k ∈ held a.2, k ∈ locks p.store
  apart : p.tasks.Pairwise fun a b => (held a.2).Disjoint (held b.2)

variable {locks held} {prog : Program σ ρ τ ν α} {p : Pool σ τ}

/-- Without tasks nothing is held twice. -/
theorem Separate.idle (s : σ) : Separate locks held (Pool.idle s) :=
  ⟨fun _ ha => absurd ha List.not_mem_nil, .nil⟩

/-- While a task holds a lock, no other task holds it. -/
theorem Separate.others (h : Separate locks held p) {i : Nat} {a : Nat × τ} (hi : p.tasks[i]? = some a) :
    ∀ o ∈ p.tasks.eraseIdx i, (held a.2).Disjoint (held o.2) :=
  (pairwise_others (fun _ _ hab => List.disjoint_symm hab) h.apart hi).1

/-- **One step.** Locks stay separate. -/
theorem Separate.step (hstart : ∀ r, held (prog.enter r) = [])
    (hlocks : ∀ x s t, LocksStep locks held s t (prog.exec x s t)) (h : Separate locks held p) (act : Act ρ ν) :
    Separate locks held (p.step prog act) := by
  constructor
  · refine tasks_step (J := fun s t => ∀ k ∈ held t, k ∈ locks s) (fun r _ k hk => ?_) (fun i x n t _ hi => ?_) h.locked
    · rw [hstart] at hk
      exact absurd hk List.not_mem_nil
    · have hown : ∀ k ∈ held t, k ∈ locks p.store := h.locked (n, t) (List.mem_of_getElem? hi)
      have hmem : ∀ o ∈ p.tasks.eraseIdx i, ∀ k ∈ held o.2, k ∈ locks p.store := fun o ho =>
        h.locked o ((perm_eraseIdx hi).mem_iff.mpr (List.mem_cons_of_mem _ ho))
      cases hlocks x p.store t with
      | keep t' hnext hheld hstore =>
        rw [hnext, hstore]
        refine ⟨fun t'' ht'' => ?_, hmem⟩
        rw [List.mem_singleton.mp ht'', hheld]
        exact hown
      | acquire t' k hnext hheld hfree hstore =>
        rw [hnext, hstore]
        refine ⟨fun t'' ht'' j hj => ?_, fun o ho j hj => List.mem_cons_of_mem k (hmem o ho j hj)⟩
        rw [List.mem_singleton.mp ht'', hheld] at hj
        rcases List.mem_append.mp hj with hj | hj
        · exact List.mem_cons_of_mem k (hown j hj)
        · exact List.mem_singleton.mp hj ▸ List.mem_cons_self
      | release hnext hstore =>
        rw [hnext]
        refine ⟨fun _ ht'' => absurd ht'' List.not_mem_nil, fun o ho k hk => ?_⟩
        exact (hstore k).mpr ⟨hmem o ho k hk, fun hkt => h.others hi o ho hkt hk⟩
  · refine pairwise_step (P := fun t o => (held t).Disjoint (held o)) (fun _ _ hto => List.disjoint_symm hto)
      (fun r _ a _ => ?_) (fun i x n t _ hi => ?_) h.apart
    · rw [hstart]
      exact List.disjoint_nil_right _
    · cases hlocks x p.store t with
      | keep t' hnext hheld _ =>
        rw [hnext]
        refine ⟨List.pairwise_singleton _ _, fun o _ hto t'' ht'' => ?_⟩
        rw [List.mem_singleton.mp ht'', hheld]
        exact List.disjoint_symm hto
      | acquire t' k hnext hheld hfree _ =>
        rw [hnext]
        refine ⟨List.pairwise_singleton _ _, fun o ho hto t'' ht'' => ?_⟩
        rw [List.mem_singleton.mp ht'', hheld]
        -- the new lock was free, so no other task holds it
        refine List.disjoint_append_right.mpr ⟨List.disjoint_symm hto, List.disjoint_singleton.mpr fun hk => hfree ?_⟩
        exact h.locked o ((perm_eraseIdx hi).mem_iff.mpr (List.mem_cons_of_mem _ ho)) k hk
      | release hnext _ =>
        rw [hnext]
        exact ⟨.nil, fun _ _ _ _ ht'' => absurd ht'' List.not_mem_nil⟩

end Pool

/-! ## Waiting

A task waits for others as long as it wants a lock that they hold. When every task wants something that comes after what
it keeps others from, a chain of waiting tasks goes up and does not come back. -/

/-- A chain of a relation, of which every pair that goes on to a third one is a pair of another relation, is a chain of
that one. -/
theorem transGen_of_next {R R' : τ → τ → Prop} (h : ∀ a b c, R' a b → R' b c → R a b) {a b c : τ}
    (hab : Relation.TransGen R' a b) (hbc : R' b c) : Relation.TransGen R a b := by
  induction hab generalizing c with
  | single hab => exact .single (h _ _ _ hab hbc)
  | tail _ hlast ih => exact .tail (ih hlast) (h _ _ _ hlast hbc)

/-- On a cycle every pair goes on. -/
theorem cycle_of_next {R R' : τ → τ → Prop} (h : ∀ a b c, R' a b → R' b c → R a b) {a : τ}
    (hcycle : Relation.TransGen R' a a) : Relation.TransGen R a a := by
  obtain ⟨b, hab, -⟩ := Relation.TransGen.head'_iff.mp hcycle
  exact transGen_of_next h hcycle hab

/-- **No deadlock.** When each task that is waited for and waits itself comes after the one that waits for it, none wait
in a cycle. -/
theorem not_transGen_of_rank [Preorder κ] {R : τ → τ → Prop} {f : τ → κ}
    (h : ∀ a b c, R a b → R b c → f a < f b) (a : τ) : ¬ Relation.TransGen R a a := by
  intro hcycle
  have hup : Relation.TransGen (fun a b => f a < f b) a a := cycle_of_next h hcycle
  have hlt : ∀ {b}, Relation.TransGen (fun a b => f a < f b) a b → f a < f b := by
    intro b hab
    induction hab with
    | single hab => exact hab
    | tail _ hlast ih => exact ih.trans hlast
  exact lt_irrefl _ (hlt hup)

end AcaSocial
