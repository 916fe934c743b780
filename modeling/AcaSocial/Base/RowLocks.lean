import AcaSocial.Base.Tasks

/-!
# Row locks

A transaction locks a row before it reads it and holds the lock to its end. Another transaction that wants
the row waits.

* **`LockStep`** — what a statement may do with locks: keep them, take a free one, or give its own back.
* **`Pool.Exclusive`** — the locked rows are those that the tasks hold, and no two tasks hold one.

`Exclusive.step` carries this over a step, and `Exclusive.others` is what it is for: while a task holds a
row, no other task does.

* **`HoldStep`**, **`Pool.Accounted`** — the same for tasks that hold several rows and give them all back at once.
-/

namespace AcaSocial

variable {σ ρ τ ν α κ : Type} (locks : σ → List κ) (holds : τ → Option κ)

/-- A statement of the task `t` on the store `s` leaves the locks as they are, or takes a free one, or gives
back that of its task. -/
inductive LockStep [DecidableEq κ] (s : σ) (t : τ) (e : Effect σ τ α) : Prop where
  | keep (hnext : e.next.filterMap holds = (holds t).toList) (hlocks : locks e.store = locks s)
  | acquire {k : κ} (hnone : holds t = none) (hfree : k ∉ locks s)
      (hnext : e.next.filterMap holds = [k]) (hlocks : locks e.store = k :: locks s)
  | release {k : κ} (hheld : holds t = some k) (hnext : e.next.filterMap holds = [])
      (hlocks : locks e.store = (locks s).erase k)

namespace Pool

/-- The locked rows are those that the tasks hold, each held by one. -/
structure Exclusive (p : Pool σ τ) : Prop where
  perm : (p.tasks.filterMap fun a => holds a.2).Perm (locks p.store)
  nodup : (locks p.store).Nodup

variable {locks holds} {prog : Program σ ρ τ ν α} {p : Pool σ τ}

/-- Without locks and without tasks there is nothing to exclude. -/
theorem Exclusive.idle {s : σ} (h : locks s = []) : Exclusive locks holds (Pool.idle s) := by
  constructor
  · show List.Perm [] (locks s)
    rw [h]
  · show (locks s).Nodup
    rw [h]
    exact List.nodup_nil

/-- While a task holds a row, no other task holds it. -/
theorem Exclusive.others (h : Exclusive locks holds p) {i n : Nat} {t : τ} {k : κ}
    (hi : p.tasks[i]? = some (n, t)) (hk : holds t = some k) :
    ∀ a ∈ p.tasks.eraseIdx i, holds a.2 ≠ some k := by
  intro a ha hsame
  have hsplit := filterMap_run (fun a => holds a.2) hi
  have hheld : ((holds t).toList ++ (p.tasks.eraseIdx i).filterMap fun a => holds a.2).Nodup :=
    (hsplit.symm.trans h.perm).nodup_iff.mpr h.nodup
  rw [hk] at hheld
  -- the row would be there twice
  have hnot := (List.nodup_cons.mp hheld).1
  exact hnot (List.mem_filterMap.mpr ⟨a, ha, hsame⟩)

/-- The rows held after the next statement of a task. -/
theorem filterMap_next (n : Nat) (ts : List τ) :
    (ts.map (Prod.mk n)).filterMap (fun a => holds a.2) = ts.filterMap holds := by
  rw [List.filterMap_map]
  rfl

/-- **One step.** Locks stay exclusive. -/
theorem Exclusive.step [DecidableEq κ] (hstart : ∀ r, holds (prog.enter r) = none)
    (hlock : ∀ x s t, LockStep locks holds s t (prog.exec x s t)) (h : Exclusive locks holds p)
    (act : Act ρ ν) : Exclusive locks holds (p.step prog act) := by
  cases act with
  | start r =>
    refine ⟨?_, h.nodup⟩
    show ((p.tasks ++ [(p.requests, prog.enter r)]).filterMap fun a => holds a.2).Perm (locks p.store)
    -- a task that enters holds nothing
    have hnone : [(p.requests, prog.enter r)].filterMap (fun a => holds a.2) = [] :=
      List.filterMap_cons_none (hstart r)
    rw [List.filterMap_append, hnone, List.append_nil]
    exact h.perm
  | run i x =>
    cases hi : p.tasks[i]? with
    | none =>
      rw [step_run_none hi]
      exact h
    | some a =>
      obtain ⟨n, t⟩ := a
      -- the rows of the task that runs, apart from those of the others
      have hheld : ((holds t).toList ++ (p.tasks.eraseIdx i).filterMap fun a => holds a.2).Perm
          (locks p.store) := (filterMap_run (fun a => holds a.2) hi).symm.trans h.perm
      rw [step_run hi]
      have hafter : ((p.tasks.eraseIdx i ++ (prog.exec x p.store t).next.map (Prod.mk n)).filterMap
          fun a => holds a.2).Perm ((prog.exec x p.store t).next.filterMap holds
            ++ (p.tasks.eraseIdx i).filterMap fun a => holds a.2) := by
        rw [List.filterMap_append, filterMap_next]
        exact List.perm_append_comm
      -- the row it holds stays, is taken, or is given back
      cases hlock x p.store t with
      | keep hnext hlocks =>
        rw [hnext] at hafter
        constructor
        · show List.Perm _ (locks (prog.exec x p.store t).store)
          rw [hlocks]
          exact hafter.trans hheld
        · show (locks (prog.exec x p.store t).store).Nodup
          rw [hlocks]
          exact h.nodup
      | acquire hnone hfree hnext hlocks =>
        rw [hnone] at hheld
        rw [hnext] at hafter
        constructor
        · show List.Perm _ (locks (prog.exec x p.store t).store)
          rw [hlocks]
          exact hafter.trans (hheld.cons _)
        · show (locks (prog.exec x p.store t).store).Nodup
          rw [hlocks]
          exact List.nodup_cons.mpr ⟨hfree, h.nodup⟩
      | @release k hk hnext hlocks =>
        rw [hk] at hheld
        rw [hnext] at hafter
        constructor
        · show List.Perm _ (locks (prog.exec x p.store t).store)
          rw [hlocks]
          have herase := hheld.erase k
          rw [Option.toList_some, List.singleton_append, List.erase_cons_head] at herase
          exact hafter.trans herase
        · show (locks (prog.exec x p.store t).store).Nodup
          rw [hlocks]
          exact h.nodup.erase k

end Pool

/-! ## Several rows at once

A task may hold any number of rows. The same induction, with the list of what each task holds in the place of the one
row. -/

variable (held : τ → List κ)

/-- A statement of the task `t` on the store `s` leaves the locks as they are, or takes free ones, or gives back those of
its task. -/
inductive HoldStep [DecidableEq κ] (s : σ) (t : τ) (e : Effect σ τ α) : Prop where
  | keep (hnext : e.next.flatMap held = held t) (hlocks : locks e.store = locks s)
  | acquire (ks : List κ) (hnone : held t = []) (hnext : e.next.flatMap held = ks) (hnodup : ks.Nodup)
      (hfree : ∀ k ∈ ks, k ∉ locks s) (hlocks : locks e.store = ks ++ locks s)
  | release (hnext : e.next.flatMap held = []) (hlocks : locks e.store = (locks s).filter fun k => decide (k ∉ held t))

variable {locks held} in
/-- The same from a store with the same locks. -/
theorem HoldStep.of_eq [DecidableEq κ] {s s' : σ} {t : τ} {e : Effect σ τ α} (h : HoldStep locks held s' t e)
    (hs : locks s' = locks s) : HoldStep locks held s t e := by
  cases h with
  | keep hnext hlocks => exact .keep hnext (hlocks.trans hs)
  | acquire ks hnone hnext hnodup hfree hlocks => exact .acquire ks hnone hnext hnodup (hs ▸ hfree) (hs ▸ hlocks)
  | release hnext hlocks => exact .release hnext (hs ▸ hlocks)

namespace Pool

/-- The locked rows are those that the tasks hold, each held by one. -/
structure Accounted (p : Pool σ τ) : Prop where
  perm : (p.tasks.flatMap fun a => held a.2).Perm (locks p.store)
  nodup : (locks p.store).Nodup

variable {locks held} {P : Program σ ρ τ ν α} {p : Pool σ τ}

/-- Without locks and without tasks the account is empty. -/
theorem Accounted.idle {s : σ} (h : locks s = []) : Accounted locks held (Pool.idle s) := by
  constructor
  · show List.Perm [] (locks s)
    rw [h]
  · show (locks s).Nodup
    rw [h]
    exact List.nodup_nil

/-- The rows of one task and those of the others. -/
theorem Accounted.split (h : Accounted locks held p) {i n : Nat} {t : τ} (hi : p.tasks[i]? = some (n, t)) :
    (held t ++ (p.tasks.eraseIdx i).flatMap fun a => held a.2).Perm (locks p.store) := by
  have hsplit := (perm_eraseIdx hi).flatMap_right fun a => held a.2
  exact hsplit.symm.trans h.perm

/-- What a task holds, no other task holds. -/
theorem Accounted.others (h : Accounted locks held p) {i n : Nat} {t : τ} (hi : p.tasks[i]? = some (n, t)) {k : κ}
    (hk : k ∈ held t) : ∀ a ∈ p.tasks.eraseIdx i, k ∉ held a.2 := by
  intro a ha hsame
  have hnodup := (h.split hi).nodup_iff.mpr h.nodup
  exact (List.nodup_append.mp hnodup).2.2 k hk k (List.mem_flatMap.mpr ⟨a, ha, hsame⟩) rfl

/-- Without tasks nothing is locked. -/
theorem Accounted.locks_eq_nil (h : Accounted locks held p) (hp : p.tasks = []) : locks p.store = [] := by
  have hperm := h.perm
  rw [hp] at hperm
  exact List.perm_nil.mp hperm.symm

/-- What newly admitted tasks hold is read off the tasks alone. -/
theorem flatMap_next (n : Nat) (ts : List τ) : (ts.map (Prod.mk n)).flatMap (fun a => held a.2) = ts.flatMap held := by
  rw [List.flatMap_map]

/-- **One step.** Every locked row is still held by one task. -/
theorem Accounted.step [DecidableEq κ] (hstart : ∀ r, held (P.enter r) = [])
    (hhold : ∀ x s t, HoldStep locks held s t (P.exec x s t)) (h : Accounted locks held p) (act : Act ρ ν) :
    Accounted locks held (p.step P act) := by
  cases act with
  | start r =>
    refine ⟨?_, h.nodup⟩
    show ((p.tasks ++ [(p.requests, P.enter r)]).flatMap fun a => held a.2).Perm (locks p.store)
    rw [List.flatMap_append, List.flatMap_singleton, hstart, List.append_nil]
    exact h.perm
  | run i x =>
    cases hi : p.tasks[i]? with
    | none =>
      rw [step_run_none hi]
      exact h
    | some a =>
      obtain ⟨n, t⟩ := a
      have hheld := h.split hi
      have hnodup := hheld.nodup_iff.mpr h.nodup
      rw [step_run hi]
      have hafter : ((p.tasks.eraseIdx i ++ (P.exec x p.store t).next.map (Prod.mk n)).flatMap
          fun a => held a.2).Perm ((P.exec x p.store t).next.flatMap held
            ++ (p.tasks.eraseIdx i).flatMap fun a => held a.2) := by
        rw [List.flatMap_append, flatMap_next]
        exact List.perm_append_comm
      cases hhold x p.store t with
      | keep hnext hlocks =>
        rw [hnext] at hafter
        constructor
        · show List.Perm _ (locks (P.exec x p.store t).store)
          rw [hlocks]
          exact hafter.trans hheld
        · show (locks (P.exec x p.store t).store).Nodup
          rw [hlocks]
          exact h.nodup
      | acquire ks hnone hnext hks hfree hlocks =>
        rw [hnone, List.nil_append] at hheld
        rw [hnext] at hafter
        constructor
        · show List.Perm _ (locks (P.exec x p.store t).store)
          rw [hlocks]
          exact hafter.trans (hheld.append_left ks)
        · show (locks (P.exec x p.store t).store).Nodup
          rw [hlocks]
          exact List.nodup_append.mpr ⟨hks, h.nodup, fun a ha b hb hab => hfree a ha (hab ▸ hb)⟩
      | release hnext hlocks =>
        rw [hnext, List.nil_append] at hafter
        -- what is not the task's own is what the others hold
        have hrest : ((locks p.store).filter fun k => decide (k ∉ held t)).Perm
            ((p.tasks.eraseIdx i).flatMap fun a => held a.2) := by
          have hown : (held t).filter (fun k => decide (k ∉ held t)) = [] := List.filter_eq_nil_iff.mpr (by simp)
          have hfilter := hheld.symm.filter fun k => decide (k ∉ held t)
          rw [List.filter_append, hown, List.nil_append] at hfilter
          refine hfilter.trans (.of_eq (List.filter_eq_self.mpr fun k hk => decide_eq_true fun hkt => ?_))
          exact (List.nodup_append.mp hnodup).2.2 k hkt k hk rfl
        constructor
        · show List.Perm _ (locks (P.exec x p.store t).store)
          rw [hlocks]
          exact hafter.trans hrest.symm
        · show (locks (P.exec x p.store t).store).Nodup
          rw [hlocks]
          exact h.nodup.filter _

/-- **Own steps, and the steps of tasks that hold other rows.** `I` is about the store, `J` about a task beside it. What a
statement keeps of these is kept by every step. -/
theorem Accounted.keeps {I : σ → Prop} {J : σ → τ → Prop} (h : Accounted locks held p) (act : Act ρ ν)
    (hstart : ∀ s r, I s → J s (P.enter r))
    (hown : ∀ x s t, I s → J s t →
      I (P.exec x s t).store ∧ ∀ t' ∈ (P.exec x s t).next, J (P.exec x s t).store t')
    (hrely : ∀ x s t o, I s → J s t → J s o → (∀ k ∈ held o, k ∉ held t) → J (P.exec x s t).store o)
    (hI : I p.store) (hJ : ∀ a ∈ p.tasks, J p.store a.2) :
    I (p.step P act).store ∧ ∀ a ∈ (p.step P act).tasks, J (p.step P act).store a.2 := by
  refine ⟨?_, tasks_step (fun r _ => hstart _ r hI) (fun i x n t _ hi => ?_) hJ⟩
  · cases act with
    | start r => exact hI
    | run i x =>
      cases hi : p.tasks[i]? with
      | none =>
        rw [step_run_none hi]
        exact hI
      | some a =>
        rw [step_run hi]
        exact (hown x p.store a.2 hI (hJ a (List.mem_of_getElem? hi))).1
  · have hsplit := perm_eraseIdx hi
    have ht := hJ (n, t) (hsplit.mem_iff.mpr List.mem_cons_self)
    refine ⟨(hown x p.store t hI ht).2, fun o ho => ?_⟩
    refine hrely x p.store t o.2 hI ht (hJ o (hsplit.mem_iff.mpr (List.mem_cons_of_mem _ ho))) fun k hk hkt => ?_
    exact h.others hi hkt o ho hk

end Pool

end AcaSocial
