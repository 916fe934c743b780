import AcaSocial.Notifications.OutboxWorker

/-!
# Recovery

Whatever has failed so far, the pipeline can finish: when every process dies and comes back, rounds of the worker publish
what is left in the outbox, and deliveries settle what is left in the stream.

* **`Leads`** — what the pipeline can come to without a new call of the discussion service.
* **`leads_stopped`** — every task in flight ends.
* **`leads_delivered`** — rounds of the worker, by induction on the rows that are left.
* **`leads_settled`** — deliveries, one for each message that is left.
* **`recovers`** — then each event for somebody has exactly one notification.
-/

namespace AcaSocial.Notifications

variable {sp : Spelling} {s s' : Store} {t t' : Task} {p p' p'' : Pool Store Task} {e : OutboxEvent}

/-- Without a new call of the discussion service the pipeline can come from `p` to `p'`. -/
def Leads (sp : Spelling) (p p' : Pool Store Task) : Prop :=
  ∃ acts : List (Act Request Input), (∀ c, Act.start (.call c) ∉ acts) ∧ run (Pool.step (pipeline sp)) p acts = p'

theorem Leads.refl (sp : Spelling) (p : Pool Store Task) : Leads sp p p := ⟨[], fun _ => List.not_mem_nil, rfl⟩

/-- What leads on leads further. -/
theorem Leads.trans (h : Leads sp p p') (h' : Leads sp p' p'') : Leads sp p p'' := by
  obtain ⟨acts, hacts, hrun⟩ := h
  obtain ⟨acts', hacts', hrun'⟩ := h'
  refine ⟨acts ++ acts', fun c hc => (List.mem_append.mp hc).elim (hacts c) (hacts' c), ?_⟩
  rw [run_append, hrun, hrun']

/-- The invariant is kept on the way. -/
theorem Leads.safe (h : Leads sp p p') (hsafe : Safe sp p) : Safe sp p' := by
  obtain ⟨acts, -, rfl⟩ := h
  exact run_invariant (P := Safe sp) (fun _ act h => h.step act) hsafe acts

/-! ## Every process dies

The tasks in flight fail, and hold no lock and no claim afterwards. -/

/-- A statement that fails goes on with nothing. -/
theorem statement_fails (sp : Spelling) (s : Store) (t : Task) : (statement sp { fails := true } s t).next = [] := by
  cases t <;> rfl

/-- Every task in flight ends. -/
theorem leads_stopped (sp : Spelling) (p : Pool Store Task) : ∃ p', Leads sp p p' ∧ p'.tasks = [] := by
  obtain ⟨s, tasks, k⟩ := p
  induction tasks generalizing s with
  | nil => exact ⟨_, .refl sp _, rfl⟩
  | cons a tasks ih =>
    obtain ⟨n, t⟩ := a
    let s₁ := ((pipeline sp).exec { fails := true } s t).store
    have hstep : Pool.step (pipeline sp) ⟨s, (n, t) :: tasks, k⟩ (.run 0 { fails := true }) = ⟨s₁, tasks, k⟩ := by
      have hnext : ((pipeline sp).exec { fails := true } s t).next = [] := statement_fails sp (s.wait 0) t
      show Pool.mk _ (tasks ++ ((pipeline sp).exec { fails := true } s t).next.map (Prod.mk n)) k = _
      rw [hnext, List.map_nil, List.append_nil]
    obtain ⟨p', hleads, hp'⟩ := ih s₁
    refine ⟨p', .trans ⟨[.run 0 { fails := true }], fun c hc => ?_, hstep⟩ hleads, hp'⟩
    cases List.mem_singleton.mp hc

/-! ## Rounds of the worker

A round publishes the rows that are due and notes that they have been delivered. -/

/-- The loop over the rows of a round, when nothing fails. -/
theorem round_run (sp : Spelling) (rest : List OutboxEvent) (b : Batch) (s : Store) (n k : Nat) :
    ∃ s', run (Pool.step (pipeline sp)) ⟨s, [(n, .publish b rest)], k⟩
        (List.replicate (2 * rest.length + 1) (.run 0 {})) = ⟨s', [], k⟩
      ∧ s'.outbox.rows = s.outbox.rows.map fun row =>
          row.tried b.startedAt ((b.outcomes ++ rest.map fun e => (e.id, true)).lookup row.event.id) := by
  induction rest generalizing b s with
  | nil =>
    refine ⟨(commitBatch (s.wait 0) b).store, rfl, ?_⟩
    rw [List.map_nil, List.append_nil]
    rfl
  | cons row rest ih =>
    let s₁ := (sent sp {} (s.wait 0) (.publish b (row :: rest))).wait 0
    obtain ⟨s', hrun, houtbox⟩ := ih { b with outcomes := b.outcomes ++ [(row.id, true)] } s₁
    refine ⟨s', ?_, ?_⟩
    · rw [show 2 * (row :: rest).length + 1 = (2 * rest.length + 1) + 2 by rw [List.length_cons]; omega]
      exact hrun
    · rw [houtbox, List.map_cons, List.append_assoc]
      rfl

/-- The rows that are left. -/
def Store.left (s : Store) : List OutboxRow := s.outbox.select fun row => decide (row.deliveredAt = none)

/-- There is a time at which all rows are due. -/
theorem exists_bound (rows : List OutboxRow) : ∃ now, ∀ row ∈ rows, row.nextAttemptAt ≤ now := by
  induction rows with
  | nil => exact ⟨0, fun _ hr => absurd hr List.not_mem_nil⟩
  | cons row rows ih =>
    obtain ⟨now, hnow⟩ := ih
    refine ⟨now + row.nextAttemptAt, fun row' hrow' => ?_⟩
    rcases List.mem_cons.mp hrow' with rfl | hrow'
    · exact Nat.le_add_left _ _
    · exact Nat.le_trans (hnow row' hrow') (Nat.le_add_right _ _)

/-- What is confirmed of a row and of no other is that it has been delivered. -/
theorem lookup_confirmed (events : List OutboxEvent) (id : Id) :
    (events.map fun e => (e.id, true)).lookup id = if id ∈ events.map (·.id) then some true else none := by
  induction events with
  | nil => rfl
  | cons e events ih =>
    rw [List.map_cons, List.map_cons, List.lookup_cons, ih]
    by_cases hid : id = e.id
    · rw [hid, beq_self_eq_true, if_pos List.mem_cons_self]
    · rw [beq_false_of_ne hid]
      by_cases hin : id ∈ events.map (·.id)
      · rw [if_pos hin, if_pos (List.mem_cons_of_mem _ hin)]
      · rw [if_neg hin, if_neg fun hmem => (List.mem_cons.mp hmem).elim hid hin]

/-- After a round fewer rows are left. -/
theorem left_lt {events : List OutboxEvent} {startedAt : Time} (hevents : ∃ row ∈ s.left, row.event.id ∈ events.map (·.id))
    (houtbox : s'.outbox.rows = s.outbox.rows.map fun row =>
      row.tried startedAt ((events.map fun e => (e.id, true)).lookup row.event.id)) : s'.left.length < s.left.length := by
  let f := fun row : OutboxRow => row.tried startedAt ((events.map fun e => (e.id, true)).lookup row.event.id)
  have hf : ∀ row, (f row).deliveredAt = none ↔ row.event.id ∉ events.map (·.id) ∧ row.deliveredAt = none := by
    intro row
    show (OutboxRow.tried row startedAt _).deliveredAt = none ↔ _
    rw [lookup_confirmed]
    by_cases hid : row.event.id ∈ events.map (·.id)
    · rw [if_pos hid]
      exact iff_of_false (fun h => by cases h) fun h => h.1 hid
    · rw [if_neg hid]
      exact ⟨fun h => ⟨hid, h⟩, fun h => h.2⟩
  have hleft : s'.left = (s.left.filter fun row => decide (row.event.id ∉ events.map (·.id))).map f := by
    show s'.outbox.rows.filter _ = _
    rw [houtbox, List.filter_map]
    refine congrArg (List.map f) ?_
    show s.outbox.rows.filter _ = (s.outbox.rows.filter _).filter _
    rw [List.filter_filter]
    refine List.filter_congr fun row _ => ?_
    show decide ((f row).deliveredAt = none) = _
    rw [decide_eq_decide.mpr (hf row), Bool.decide_and]
  obtain ⟨row, hrow, hid⟩ := hevents
  rw [hleft, List.length_map]
  exact List.length_filter_lt_length_iff_exists.mpr ⟨row, hrow, by simpa using hid⟩

/-- One round, long enough after the last. -/
theorem leads_round (sp : Spelling) (hlocks : p.store.rowLocks = []) (hp : p.tasks = []) (hleft : p.store.left ≠ []) :
    ∃ p', Leads sp p p' ∧ p'.tasks = [] ∧ p'.store.left.length < p.store.left.length := by
  obtain ⟨s, tasks, k⟩ := p
  obtain rfl : tasks = [] := hp
  obtain ⟨late, hlate⟩ := exists_bound s.outbox.rows
  -- late enough, every row that is left is due, as none is locked
  have hdue : (s.wait late).due = s.left := by
    refine List.filter_congr fun row hrow => decide_eq_decide.mpr ⟨fun h => h.1, fun h => ⟨h, ?_, ?_⟩⟩
    · exact Nat.le_trans (hlate row hrow) (Nat.le_add_left _ _)
    · show row.event.id ∉ s.rowLocks
      rw [show s.rowLocks = [] from hlocks]
      exact List.not_mem_nil
  let events := ((s.wait late).due.take 20).map (·.event)
  obtain ⟨s', hrun, houtbox⟩ := round_run sp events ⟨(s.wait late).now, events.map (·.id), []⟩ (select (s.wait late)).store k
    (k + 1)
  refine ⟨⟨s', [], k + 1⟩, ⟨.start .deliver :: .run 0 { elapsed := late } :: List.replicate (2 * events.length + 1)
    (.run 0 {}), fun c hc => ?_, hrun⟩, rfl, left_lt ?_ houtbox⟩
  · rcases List.mem_cons.mp hc with hc | hc
    · cases hc
    · rcases List.mem_cons.mp hc with hc | hc
      · cases hc
      · cases List.eq_of_mem_replicate hc
  · -- the first row that is left is one of the round
    obtain ⟨row, rows, hrows⟩ := List.exists_cons_of_ne_nil hleft
    refine ⟨row, ?_, ?_⟩
    · show row ∈ s.left
      rw [show s.left = row :: rows from hrows]
      exact List.mem_cons_self
    · show row.event.id ∈ (((s.wait late).due.take 20).map (·.event)).map (·.id)
      rw [hdue, show s.left = row :: rows from hrows]
      exact List.mem_cons_self

/-- Rounds of the worker, until no row is left. -/
theorem leads_delivered (h : Safe sp p) (hp : p.tasks = []) : ∃ p', Leads sp p p' ∧ p'.tasks = [] ∧ p'.store.left = [] := by
  generalize hn : p.store.left.length = n
  induction n using Nat.strongRecOn generalizing p with
  | ind n ih =>
    by_cases hleft : p.store.left = []
    · exact ⟨p, .refl sp p, hp, hleft⟩
    · obtain ⟨p₁, hleads, hp₁, hlt⟩ := leads_round sp (h.rows.locks_eq_nil hp) hp hleft
      obtain ⟨p', hleads', hp', hleft'⟩ := ih _ (hn ▸ hlt) (hleads.safe h) hp₁ rfl
      exact ⟨p', hleads.trans hleads', hp', hleft'⟩

/-! ## Deliveries

A message that is open is delivered again until it is settled. -/

/-- An input with which a delivery goes through. -/
def attentive : Input := { display := .ok (some "Nguyễn Văn An") }

/-- A delivery alone comes to its end, and settles the message at the position. -/
def Settles (sp : Spelling) (s : Store) (t : Task) (i : Nat) : Prop :=
  ∀ n k, ∃ m s', run (Pool.step (pipeline sp)) ⟨s, [(n, t)], k⟩ (List.replicate m (.run 0 attentive)) = ⟨s', [], k⟩
    ∧ i ∈ s'.acknowledged ∧ (∀ j ∈ s.acknowledged, j ∈ s'.acknowledged) ∧ s'.stream = s.stream ∧ s'.outbox = s.outbox

/-- One statement, and then the others. -/
theorem Settles.step {i : Nat} {s₁ : Store} (hstep : statement sp attentive (s.wait 0) t = ⟨s₁, [t'], none⟩)
    (hacknowledged : s₁.acknowledged = s.acknowledged) (hstream : s₁.stream = s.stream) (houtbox : s₁.outbox = s.outbox)
    (h : Settles sp s₁ t' i) : Settles sp s t i := by
  intro n k
  obtain ⟨m, s', hrun, hin, hold, hstream', houtbox'⟩ := h n k
  refine ⟨m + 1, s', ?_, hin, fun j hj => hold j (hacknowledged ▸ hj), hstream'.trans hstream, houtbox'.trans houtbox⟩
  rw [List.replicate_succ, Pool.run_alone]
  show run (Pool.step (pipeline sp)) ⟨(statement sp attentive (s.wait 0) t).store,
    (statement sp attentive (s.wait 0) t).next.map (Prod.mk n), k⟩ _ = _
  rw [hstep]
  exact hrun

/-- To acknowledge a message settles it. -/
theorem settles_respond (sp : Spelling) (s : Store) (i : Nat) (saved : Option Notification) :
    Settles sp s (.respond i saved) i :=
  fun _ _ => ⟨1, _, rfl, List.mem_cons_self, fun _ hj => List.mem_cons_of_mem i hj, rfl, rfl⟩

/-- To save the notification settles its message. -/
theorem settles_save (sp : Spelling) (s : Store) (i : Nat) (event : DomainEvent) (data : Fields) (startedAt : Time) :
    Settles sp s (.save i event data startedAt) i :=
  .step rfl rfl rfl rfl (settles_respond sp _ i _)

/-- No other delivery has claimed the event. -/
theorem settles_claim (hclaims : s.claims = []) (i : Nat) (event : DomainEvent) (data : Fields) (startedAt : Option Time) :
    Settles sp s (.claim i event data startedAt) i := by
  have hfree : event.eventId ∉ (s.wait 0).claims := by
    show event.eventId ∉ s.claims
    rw [hclaims]
    exact List.not_mem_nil
  have hstatement : statement sp attentive (s.wait 0) (.claim i event data startedAt)
      = claim (s.wait 0) i event data startedAt := rfl
  unfold claim at hstatement
  rw [if_neg hfree] at hstatement
  by_cases hin : ((s.wait 0).inbox.get? event.eventId).isSome
  · rw [if_pos hin] at hstatement
    exact .step hstatement rfl rfl rfl (settles_respond sp _ i none)
  · rw [if_neg hin] at hstatement
    exact .step hstatement rfl rfl rfl (settles_save sp _ i event data _)

/-- To look up the author settles a message in the end. -/
theorem settles_display (hclaims : s.claims = []) (i : Nat) (event : DomainEvent) (actorId : String) :
    Settles sp s (.display i event actorId) i := by
  have hstatement : statement sp attentive (s.wait 0) (.display i event actorId)
      = ⟨s.wait 0, [.claim i event (event.data.set "actorName" (.string "Nguyễn Văn An")) none], none⟩ := rfl
  exact .step hstatement rfl rfl rfl (settles_claim hclaims i event _ none)

/-- To look up the event settles its message in the end. -/
theorem settles_existsBy (hclaims : s.claims = []) (i : Nat) (event : DomainEvent) :
    Settles sp s (.existsBy i event) i := by
  have hstatement : statement sp attentive (s.wait 0) (.existsBy i event) = lookUp (s.wait 0) i event := rfl
  unfold lookUp at hstatement
  split at hstatement
  · exact .step hstatement rfl rfl rfl (settles_respond sp _ i none)
  · split at hstatement
    · exact .step hstatement rfl rfl rfl (settles_claim hclaims i event _ none)
    · exact .step hstatement rfl rfl rfl (settles_claim hclaims i event _ none)
    · exact .step hstatement rfl rfl rfl (settles_display hclaims i event _)

/-- A message of an event of the outbox that is not settled. -/
theorem settles_receive (hclaims : s.claims = []) (he : WellFormed e) {i : Nat}
    (hi : s.stream[i]? = some (sp.message e)) (hopen : s.Open i) : Settles sp s (.receive i) i := by
  have hstatement : statement sp attentive (s.wait 0) (.receive i) = receive attentive (s.wait 0) i := rfl
  have hm : (s.wait 0).stream[i]? = some (sp.message e) := hi
  have hopen' : (s.wait 0).Open i := hopen
  rw [receive, hm] at hstatement
  simp only [if_pos hopen', he.decode_message] at hstatement
  split at hstatement
  · exact .step hstatement rfl rfl rfl (settles_respond sp _ i none)
  · exact .step hstatement rfl rfl rfl (settles_existsBy hclaims i (sp.event e))

/-- A delivery of each message that is left. -/
theorem leads_settled (positions : List Nat) (h : Safe sp p) (hp : p.tasks = []) :
    ∃ p', Leads sp p p' ∧ p'.tasks = [] ∧ p'.store.outbox = p.store.outbox ∧ p'.store.stream = p.store.stream
      ∧ (∀ j ∈ p.store.acknowledged, j ∈ p'.store.acknowledged)
      ∧ ∀ i ∈ positions, i < p.store.stream.length → i ∈ p'.store.acknowledged := by
  induction positions generalizing p with
  | nil => exact ⟨p, .refl sp p, hp, rfl, rfl, fun _ hj => hj, fun _ hi => absurd hi List.not_mem_nil⟩
  | cons i positions ih =>
    by_cases hskip : i ∈ p.store.acknowledged ∨ p.store.stream.length ≤ i
    · obtain ⟨p', hleads, hp', houtbox, hstream, hold, hall⟩ := ih h hp
      refine ⟨p', hleads, hp', houtbox, hstream, hold, fun j hj hlt => ?_⟩
      rcases List.mem_cons.mp hj with rfl | hj
      · exact hold j (hskip.resolve_right (Nat.not_le.mpr hlt))
      · exact hall j hj hlt
    · obtain ⟨hnot, hlt⟩ := not_or.mp hskip
      -- the message is that of an event of the outbox
      have hwellFormed := h.reached.wellFormed
      obtain ⟨calls, r, -, hsteps, hsim⟩ := h.reached
      obtain ⟨m, hm⟩ : ∃ m, p.store.stream[i]? = some m := ⟨_, List.getElem?_eq_getElem (Nat.not_le.mp hlt)⟩
      obtain ⟨e, he, hmessage⟩ := hsim.message (Relay.Sound.init.steps hsteps) hm
      subst hmessage
      have hopen : p.store.Open i := ⟨hnot, hsim.terminated ▸ List.not_mem_nil⟩
      have hsettles := settles_receive (h.claims.locks_eq_nil hp) (hwellFormed e he) hm hopen
      obtain ⟨s, tasks, k⟩ := p
      obtain rfl : tasks = [] := hp
      obtain ⟨m, s', hrun, hin, hold, hstream, houtbox⟩ := hsettles k (k + 1)
      have hleads : Leads sp ⟨s, [], k⟩ ⟨s', [], k + 1⟩ := by
        refine ⟨.start (.message i) :: List.replicate m (.run 0 attentive), fun c hc => ?_, hrun⟩
        rcases List.mem_cons.mp hc with hc | hc
        · cases hc
        · cases List.eq_of_mem_replicate hc
      obtain ⟨p', hleads', hp', houtbox', hstream', hold', hall⟩ := ih (hleads.safe h) rfl
      refine ⟨p', hleads.trans hleads', hp', houtbox'.trans houtbox, hstream'.trans hstream,
        fun j hj => hold' j (hold j hj), fun j hj hjlt => ?_⟩
      rcases List.mem_cons.mp hj with rfl | hj
      · exact hold' j hin
      · refine hall j hj ?_
        show j < s'.stream.length
        rw [hstream]
        exact hjlt

/-- **Recovery.** From every state the pipeline can come, without a new call of the discussion service, to one in which
every row of the outbox has been delivered and every message is settled. There each event for somebody has exactly one
notification. -/
theorem recovers (sp : Spelling) (acts : List (Act Request Input)) :
    ∃ acts', (∀ c, Act.start (.call c) ∉ acts') ∧ (pipelineAfter sp (acts ++ acts')).tasks = []
      ∧ (∀ row ∈ (pipelineAfter sp (acts ++ acts')).store.outbox, row.deliveredAt ≠ none)
      ∧ (∀ i < (pipelineAfter sp (acts ++ acts')).store.stream.length,
        i ∈ (pipelineAfter sp (acts ++ acts')).store.acknowledged)
      ∧ ∃ accepted : List OutboxEvent,
        accepted.Perm ((pipelineAfter sp (acts ++ acts')).store.db.outbox.rows.filter fun e => decide (Wanted sp e))
        ∧ List.Forall₂ (Notifies sp) accepted (pipelineAfter sp (acts ++ acts')).store.notifications.rows := by
  -- first the tasks in flight stop, then the outbox is delivered, then the messages are settled
  obtain ⟨p₁, hleads₁, hp₁⟩ := leads_stopped sp (pipelineAfter sp acts)
  have hsafe₁ := hleads₁.safe (safe_after sp acts)
  obtain ⟨p₂, hleads₂, hp₂, hleft⟩ := leads_delivered hsafe₁ hp₁
  have hsafe₂ := hleads₂.safe hsafe₁
  obtain ⟨p₃, hleads₃, hp₃, houtbox, hstream, -, hall⟩ :=
    leads_settled (List.range p₂.store.stream.length) hsafe₂ hp₂
  have hsafe₃ := hleads₃.safe hsafe₂
  obtain ⟨acts', hacts', hrun⟩ := (hleads₁.trans hleads₂).trans hleads₃
  have hafter : pipelineAfter sp (acts ++ acts') = p₃ := by
    rw [pipelineAfter, run_append]
    exact hrun
  refine ⟨acts', hacts', ?_⟩
  rw [hafter]
  have hdelivered : ∀ row ∈ p₃.store.outbox, row.deliveredAt ≠ none := by
    rw [houtbox]
    intro row hrow hnone
    have hin : row ∈ p₂.store.left := Table.mem_select.mpr ⟨hrow, decide_eq_true hnone⟩
    rw [hleft] at hin
    exact List.not_mem_nil hin
  have hsettled : ∀ i < p₃.store.stream.length, i ∈ p₃.store.acknowledged := by
    rw [hstream]
    exact fun i hi => hall i (List.mem_range.mpr hi) hi
  refine ⟨hp₃, hdelivered, hsettled, ?_⟩
  obtain ⟨calls, r, -, hsteps, hsim⟩ := hsafe₃.reached
  refine ⟨r.accepted, ?_, hsim.notifications⟩
  rw [← hsim.log]
  refine (Relay.Sound.init.steps hsteps).perm ?_ (fun e he => ?_) fun i hi => ?_
  · rw [hsim.log]
    exact .of_map _ p₃.store.db.outbox.nodup
  · rw [hsim.log, ← hsim.rows] at he
    obtain ⟨row, hrow, rfl⟩ := List.mem_map.mp he
    exact hsim.delivered row hrow (hdelivered row hrow)
  · rw [← hsim.acknowledged]
    refine hsettled i ?_
    rw [hsim.stream, List.length_map]
    exact hi

end AcaSocial.Notifications
