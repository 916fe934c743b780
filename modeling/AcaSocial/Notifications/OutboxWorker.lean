import AcaSocial.Notifications.ExactlyOnce

/-!
# Rounds of the outbox worker

Several instances of the discussion service may run their workers beside each other. A round locks the rows that it
publishes and skips those that another round has locked.

* **`Store.Undelivered`** — the row of this id has not been delivered.
* **`Holding`** — a round holds the rows that it works on, and none of them has been delivered.
* **`delivered_final`** — a row that has been delivered is not published again, and it stays as it is.
-/

namespace AcaSocial.Notifications

variable {sp : Spelling} {x : Input} {s s' : Store} {t : Task} {next : List Task}

/-- The row of this id has not been delivered. -/
def Store.Undelivered (s : Store) (id : Id) : Prop := ∀ row ∈ s.outbox, row.event.id = id → row.deliveredAt = none

/-- The rows of a round are locked and have not been delivered. -/
structure RoundHolds (s : Store) (b : Batch) (rest : List OutboxEvent) : Prop where
  undelivered : ∀ id ∈ b.locked, s.Undelivered id
  rest : ∀ e ∈ rest, e.id ∈ b.locked
  outcomes : ∀ o ∈ b.outcomes, o.1 ∈ b.locked

def Holding (s : Store) : Task → Prop
  | .publish b rest => RoundHolds s b rest
  | .update b row _ rest => RoundHolds s b (row :: rest)
  | _ => True

/-- A row that a round does not hold stays as the round finds it. -/
theorem tried_of_not_mem {b : Batch} (houtcomes : ∀ o ∈ b.outcomes, o.1 ∈ b.locked) {row : OutboxRow}
    (hrow : row.event.id ∉ b.locked) : row.tried b.startedAt (b.outcomes.lookup row.event.id) = row := by
  have hnone : b.outcomes.lookup row.event.id = none := by
    rw [List.lookup_eq_none_iff]
    intro o ho
    exact bne_iff_ne.mpr fun heq => hrow (heq ▸ houtcomes o ho)
  rw [hnone]
  rfl

/-- The rows of new events have not been delivered. -/
theorem eq_or_newRow {now : Time} {es : List OutboxEvent} {rows : Table Id OutboxRow fun r => r.event.id} {row : OutboxRow}
    (h : row ∈ es.foldl (fun rows e => rows.insert (Store.newRow now e)) rows) :
    row ∈ rows ∨ ∃ e, row = Store.newRow now e := by
  induction es generalizing rows with
  | nil => exact .inl h
  | cons e es ih =>
    rcases ih h with hmem | hnew
    · exact (Table.mem_insert.mp hmem).imp id fun hnew => ⟨e, hnew.1⟩
    · exact .inr hnew

/-- A statement leaves the rows alone that its task does not hold. -/
theorem Does.undelivered (hdo : Does sp x s t s' next) (ht : Holding s t) {id : Id} (hid : id ∉ t.locked)
    (h : s.Undelivered id) : s'.Undelivered id := by
  cases hdo with
  | called c =>
    intro row hrow hrowId
    rcases eq_or_newRow hrow with hold | ⟨e, rfl⟩
    · exact h row hold hrowId
    · rfl
  | committed b =>
    intro row hrow hrowId
    obtain ⟨row₀, hrow₀, rfl⟩ := List.mem_map.mp hrow
    rw [OutboxRow.tried_event] at hrowId
    rw [tried_of_not_mem (RoundHolds.outcomes ht) (hrowId ▸ hid)]
    exact h row₀ hrow₀ hrowId
  | _ => exact h

/-- A statement leaves the rows alone that have been delivered. -/
theorem Does.delivered (hdo : Does sp x s t s' next) (ht : Holding s t) {row : OutboxRow} (hrow : row ∈ s.outbox)
    (hdelivered : row.deliveredAt ≠ none) : row ∈ s'.outbox := by
  cases hdo with
  | called c =>
    show row ∈ List.foldl (fun rows e => rows.insert (Store.newRow s.now e)) s.outbox _
    generalize (s.db.step c).outbox.rows.drop s.outbox.rows.length = es
    generalize s.outbox = rows at hrow
    induction es generalizing rows with
    | nil => exact hrow
    | cons e es ih => exact ih (rows.insert (Store.newRow s.now e)) (Table.mem_insert.mpr (.inl hrow))
  | committed b =>
    have hfree : row.event.id ∉ b.locked := fun hin => hdelivered (RoundHolds.undelivered ht _ hin row hrow rfl)
    refine List.mem_map.mpr ⟨row, hrow, ?_⟩
    exact tried_of_not_mem (RoundHolds.outcomes ht) hfree
  | _ => exact hrow

/-- **Own steps.** A round goes on with the rows that it holds. -/
theorem Does.holding (hdo : Does sp x s t s' next) (ht : Holding s t) : ∀ t' ∈ next, Holding s' t' := by
  intro t' ht'
  cases hdo with
  | selected =>
    obtain rfl := List.mem_singleton.mp ht'
    refine ⟨fun id hid row hrow hrowId => ?_, fun e he => List.mem_map_of_mem he, fun o ho => absurd ho List.not_mem_nil⟩
    -- the row that is due is the only one of its id
    obtain ⟨e, he, heid⟩ := List.mem_map.mp hid
    obtain ⟨row', hrow', rfl⟩ := List.mem_map.mp he
    obtain ⟨hmem, hdue⟩ := Table.mem_select.mp (List.mem_of_mem_take hrow')
    rw [Table.eq_of_key_eq hrow hmem (hrowId.trans heid.symm)]
    exact (of_decide_eq_true hdue).1
  | published b row rest =>
    obtain rfl := List.mem_singleton.mp ht'
    exact { ht with }
  | updated b row acked rest =>
    obtain rfl := List.mem_singleton.mp ht'
    have hround : RoundHolds s b (row :: rest) := ht
    refine ⟨hround.undelivered, fun e he => hround.rest e (List.mem_cons_of_mem row he), fun o ho => ?_⟩
    rcases List.mem_append.mp ho with ho | ho
    · exact hround.outcomes o ho
    · rw [List.mem_singleton.mp ho]
      exact hround.rest row List.mem_cons_self
  | stopped | called | committed | dropped | rejected | responded | read => exact absurd ht' List.not_mem_nil
  | _ =>
    obtain rfl := List.mem_singleton.mp ht'
    trivial

/-- **The steps of others.** -/
theorem Does.holding_other {o : Task} (hdo : Does sp x s t s' next) (ht : Holding s t) (ho : Holding s o)
    (hother : ∀ id ∈ o.locked, id ∉ t.locked) : Holding s' o := by
  cases o with
  | publish b rest =>
    exact ⟨fun id hid => hdo.undelivered ht (hother id hid) (RoundHolds.undelivered ho id hid), RoundHolds.rest ho,
      RoundHolds.outcomes ho⟩
  | update b row acked rest =>
    exact ⟨fun id hid => hdo.undelivered ht (hother id hid) (RoundHolds.undelivered ho id hid), RoundHolds.rest ho,
      RoundHolds.outcomes ho⟩
  | _ => trivial

/-- The message of a row that has been delivered is not sent. -/
theorem sentBy_delivered (ht : Holding s t) {row : OutboxRow} (hrow : row ∈ s.outbox)
    (hdelivered : row.deliveredAt ≠ none) : sp.message row.event ∉ sentBy sp x t := by
  intro hin
  unfold sentBy at hin
  split at hin
  · next b e rest =>
    split at hin
    · have hmessage := List.mem_singleton.mp hin
      simp only [Spelling.message, Message.mk.injEq, Payload.object.injEq, List.cons.injEq, Prod.mk.injEq,
        Member.value.injEq, Unknown.string.injEq, true_and] at hmessage
      have hid : row.event.id = e.id := sp.injective _ _ hmessage.2.1
      have hlocked := RoundHolds.rest ht e List.mem_cons_self
      exact hdelivered (RoundHolds.undelivered ht e.id hlocked row hrow hid)
    · exact List.not_mem_nil hin
  · exact List.not_mem_nil hin

/-- A statement publishes no copy of an event whose row is marked delivered. -/
theorem Does.count_delivered (hdo : Does sp x s t s' next) (ht : Holding s t) {row : OutboxRow} (hrow : row ∈ s.outbox)
    (hdelivered : row.deliveredAt ≠ none) :
    s'.stream.count (sp.message row.event) = s.stream.count (sp.message row.event) := by
  have hsent : (s.stream ++ sentBy sp x t).count (sp.message row.event) = s.stream.count (sp.message row.event) := by
    rw [List.count_append, List.count_eq_zero.mpr (sentBy_delivered ht hrow hdelivered), Nat.add_zero]
  cases hdo with
  | stopped t => exact hsent
  | published b e rest => exact hsent
  | _ => rfl

/-- Time passes. -/
theorem holding_wait (elapsed : Time) (h : Holding s t) : Holding (s.wait elapsed) t := by
  cases t with
  | publish b rest => exact { (h : RoundHolds s b rest) with }
  | update b row acked rest => exact { (h : RoundHolds s b (row :: rest)) with }
  | _ => trivial

/-- What holds of the rounds in every interleaving, from the stores that `Safe` is about. -/
theorem holding_step {p : Pool Store Task} (h : Safe sp p) (hheld : ∀ a ∈ p.tasks, Holding p.store a.2)
    (act : Act Request Input) : ∀ a ∈ (p.step (pipeline sp) act).tasks, Holding (p.step (pipeline sp) act).store a.2 := by
  have hdoes : ∀ x (s : Store) t, Does sp x (s.wait x.elapsed) t ((pipeline sp).exec x s t).store
      ((pipeline sp).exec x s t).next := fun x s t => statement_does sp x (s.wait x.elapsed) t
  exact (h.rows.keeps (P := pipeline sp) act (I := fun _ => True) (J := Holding) (fun s q _ => by cases q <;> trivial)
    (fun x s t _ ht => ⟨trivial, (hdoes x s t).holding (holding_wait x.elapsed ht)⟩)
    (fun x s t o _ ht ho hother =>
      (hdoes x s t).holding_other (holding_wait x.elapsed ht) (holding_wait x.elapsed ho) hother) trivial hheld).2

/-- Along every run, a worker in the middle of an event holds its row. -/
theorem holding_after (sp : Spelling) (acts : List (Act Request Input)) :
    ∀ a ∈ (pipelineAfter sp acts).tasks, Holding (pipelineAfter sp acts).store a.2 :=
  (run_invariant (P := fun p => Safe sp p ∧ ∀ a ∈ p.tasks, Holding p.store a.2)
    (fun _ act h => ⟨h.1.step act, holding_step h.1 h.2 act⟩) ⟨.idle sp, fun _ ha => absurd ha List.not_mem_nil⟩ acts).2

/-- One step leaves a delivered row and the copies of its message as they are. -/
theorem delivered_step (sp : Spelling) {p : Pool Store Task} (hheld : ∀ a ∈ p.tasks, Holding p.store a.2) (act : Act Request Input)
    {row : OutboxRow} (hrow : row ∈ p.store.outbox) (hdelivered : row.deliveredAt ≠ none) :
    row ∈ (p.step (pipeline sp) act).store.outbox
      ∧ (p.step (pipeline sp) act).store.stream.count (sp.message row.event)
        = p.store.stream.count (sp.message row.event) := by
  cases act with
  | start q => exact ⟨hrow, rfl⟩
  | run i x =>
    cases hi : p.tasks[i]? with
    | none =>
      rw [Pool.step_run_none hi]
      exact ⟨hrow, rfl⟩
    | some a =>
      have ht : Holding (p.store.wait x.elapsed) a.2 := holding_wait x.elapsed (hheld a (List.mem_of_getElem? hi))
      have hdo := statement_does sp x (p.store.wait x.elapsed) a.2
      rw [Pool.step_run hi]
      exact ⟨hdo.delivered ht hrow hdelivered, hdo.count_delivered ht hrow hdelivered⟩

/-- **A delivered row is final.** After a row has been marked as delivered it stays as it is, and its message is not
published again. -/
theorem delivered_final (sp : Spelling) (acts acts' : List (Act Request Input)) {row : OutboxRow}
    (hrow : row ∈ (pipelineAfter sp acts).store.outbox) (hdelivered : row.deliveredAt ≠ none) :
    row ∈ (pipelineAfter sp (acts ++ acts')).store.outbox
      ∧ (pipelineAfter sp (acts ++ acts')).store.stream.count (sp.message row.event)
        = (pipelineAfter sp acts).store.stream.count (sp.message row.event) := by
  rw [pipelineAfter, run_append]
  refine (run_invariant (P := fun p => (Safe sp p ∧ ∀ a ∈ p.tasks, Holding p.store a.2) ∧ row ∈ p.store.outbox
    ∧ p.store.stream.count (sp.message row.event)
      = (pipelineAfter sp acts).store.stream.count (sp.message row.event)) (fun p act h => ?_) ?_ acts').2
  · obtain ⟨⟨hsafe, hheld⟩, hin, hcount⟩ := h
    obtain ⟨hin', hcount'⟩ := delivered_step sp hheld act hin hdelivered
    exact ⟨⟨hsafe.step act, holding_step hsafe hheld act⟩, hin', hcount'.trans hcount⟩
  · exact ⟨⟨safe_after sp acts, holding_after sp acts⟩, hrow, rfl⟩

/-! ### A run

One worker asks, publishes and marks one event. -/

namespace Sample

/-- A round of the worker, in which nothing fails. -/
def round : List (Act Request Input) := .start .deliver :: List.replicate 6 (.run 0 {})

end Sample

/-- After the round the event is marked, and its message is in the stream once, whatever comes next. -/
theorem delivered_final_asked :
    ∃ row ∈ (pipelineAfter Sample.spelling (Sample.asked ++ Sample.round)).store.outbox,
      row ∈ (pipelineAfter Sample.spelling (Sample.asked ++ Sample.round ++ Sample.round)).store.outbox
        ∧ (pipelineAfter Sample.spelling (Sample.asked ++ Sample.round ++ Sample.round)).store.stream.count
            (Sample.spelling.message row.event)
          = (pipelineAfter Sample.spelling (Sample.asked ++ Sample.round)).store.stream.count
            (Sample.spelling.message row.event) := by
  have hrow : ∃ row ∈ (pipelineAfter Sample.spelling (Sample.asked ++ Sample.round)).store.outbox.rows,
      row.deliveredAt ≠ none := by decide
  obtain ⟨row, hrow, hdelivered⟩ := hrow
  exact ⟨row, hrow, delivered_final Sample.spelling (Sample.asked ++ Sample.round) Sample.round hrow hdelivered⟩

end AcaSocial.Notifications
