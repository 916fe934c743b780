import AcaSocial.Discussion.OutboxEvents
import AcaSocial.Notifications.Delivery

/-!
# Statements of the pipeline

What a statement does, said once.

* **`Does`** — the stores that a statement leaves and the tasks that it goes on as, one constructor for each outcome;
  `statement_does` shows that there are no others.
* **`Does.locked`**, **`Does.claimed_step`** — rows are locked and an event is claimed only when no other task has
  them, and they are given back at the end of the transaction.
* **`Store.Later`** — what is only added to: events, messages, claimed events and notifications.
* **`Does.inbox`** — an event is entered in the inbox by the task that has claimed it.
-/

namespace AcaSocial.Notifications

/-- The data that the consumer stores for an event. -/
inductive Prepared (event : DomainEvent) : Fields → Prop where
  | keep (h : authorship event = .keep) : Prepared event event.data
  | mask (h : authorship event = .mask) : Prepared event (masked event.data)
  | name {actorId : String} {reply : DisplayReply} {data : Fields} (h : authorship event = .resolve actorId)
      (hdata : named event.data reply = .ok data) : Prepared event data

/-- A statement of a task may leave these stores and go on as these tasks. -/
inductive Does (sp : Spelling) (x : Input) (s : Store) : Task → Store → List Task → Prop where
  | called (c : Call) : Does sp x s (.call c) (s.serve c) []
  | stopped (t : Task) : Does sp x s t (stop (sent sp x s t) t).store []
  | selected : Does sp x s .select (select s).store (select s).next
  | committed (b : Batch) : Does sp x s (.publish b []) (commitBatch s b).store []
  | published (b : Batch) (row : OutboxEvent) (rest : List OutboxEvent) :
      Does sp x s (.publish b (row :: rest)) (sent sp x s (.publish b (row :: rest)))
        [.update b row (x.stored && x.confirmed) rest]
  | updated (b : Batch) (row : OutboxEvent) (acked : Bool) (rest : List OutboxEvent) :
      Does sp x s (.update b row acked rest) s [.publish { b with outcomes := b.outcomes ++ [(row.id, acked)] } rest]
  /-- A delivery of a message that is settled or that cannot be processed now, or a notification that is not found. -/
  | dropped {t : Task} (hlocked : t.locked = []) (hclaimed : t.claimed = []) : Does sp x s t s []
  | rejected {i : Nat} {m : Message} {e : ConsumerError} (hm : s.stream[i]? = some m) (hdecode : decode m = .error e) :
      Does sp x s (.receive i) (terminate x s i) []
  | unaddressed {i : Nat} {m : Message} {event : DomainEvent} (hm : s.stream[i]? = some m)
      (hdecode : decode m = .ok event) (hnone : event.recipientId = "") : Does sp x s (.receive i) s [.respond i none]
  | addressed {i : Nat} {m : Message} {event : DomainEvent} (hm : s.stream[i]? = some m)
      (hdecode : decode m = .ok event) (hsome : event.recipientId ≠ "") : Does sp x s (.receive i) s [.existsBy i event]
  | known {i : Nat} {event : DomainEvent} (hin : (s.inbox.get? event.eventId).isSome) :
      Does sp x s (.existsBy i event) s [.respond i none]
  | prepared {i : Nat} {event : DomainEvent} {data : Fields} (hdata : Prepared event data) :
      Does sp x s (.existsBy i event) s [.claim i event data none]
  | asks {i : Nat} {event : DomainEvent} {actorId : String} (h : authorship event = .resolve actorId) :
      Does sp x s (.existsBy i event) s [.display i event actorId]
  | resolved {i : Nat} {event : DomainEvent} {actorId : String} {data : Fields}
      (hdata : named event.data x.display = .ok data) :
      Does sp x s (.display i event actorId) s [.claim i event data none]
  | waits {i : Nat} {event : DomainEvent} {data : Fields} {startedAt : Option Time} (hin : event.eventId ∈ s.claims) :
      Does sp x s (.claim i event data startedAt) s [.claim i event data (some (startedAt.getD s.now))]
  | conflicts {i : Nat} {event : DomainEvent} {data : Fields} {startedAt : Option Time}
      (hin : (s.inbox.get? event.eventId).isSome) :
      Does sp x s (.claim i event data startedAt) s [.respond i none]
  | claimed {i : Nat} {event : DomainEvent} {data : Fields} {startedAt : Option Time} (hfree : event.eventId ∉ s.claims)
      (hnew : s.inbox.get? event.eventId = none) :
      Does sp x s (.claim i event data startedAt) { s with claims := event.eventId :: s.claims }
        [.save i event data (startedAt.getD s.now)]
  | saved (i : Nat) (event : DomainEvent) (data : Fields) (startedAt : Time) :
      Does sp x s (.save i event data startedAt) (save s i event data startedAt).store
        [.respond i (some (newNotification event data startedAt s.notifications.next))]
  | responded (i : Nat) (n : Option Notification) : Does sp x s (.respond i n) (respond x s i n).store []
  | found {recipientId : String} {id : Nat} {n : Notification} (hn : s.notificationOf recipientId id = some n) :
      Does sp x s (.find recipientId id) s [.mark recipientId id]
  | marked (recipientId : String) (id : Nat) :
      Does sp x s (.mark recipientId id) (markRow s recipientId id).store [.reread recipientId id]
  | read {recipientId : String} {id : Nat} {n : Notification} (hn : s.notificationOf recipientId id = some n) :
      Does sp x s (.reread recipientId id) { s with published := s.published ++ [n] } []

variable {sp : Spelling} {x : Input} {s s' s'' : Store} {t : Task} {next : List Task}

/-- A message that is received is processed or settled. -/
theorem receive_does (i : Nat) : Does sp x s (.receive i) (receive x s i).store (receive x s i).next := by
  unfold receive
  split
  · exact .dropped rfl rfl
  · next m hm =>
    split
    · split
      · next e hdecode => exact .rejected hm hdecode
      · next event hdecode =>
        split
        · next hnone => exact .unaddressed hm hdecode hnone
        · next hsome => exact .addressed hm hdecode hsome
    · exact .dropped rfl rfl

/-- An event that is known is not processed again. -/
theorem lookUp_does (i : Nat) (event : DomainEvent) :
    Does sp x s (.existsBy i event) (lookUp s i event).store (lookUp s i event).next := by
  unfold lookUp
  split
  · next hin => exact .known hin
  · split
    · next h => exact .prepared (.keep h)
    · next h => exact .prepared (.mask h)
    · next h => exact .asks h

/-- An event is claimed by one consumer. -/
theorem claim_does (i : Nat) (event : DomainEvent) (data : Fields) (startedAt : Option Time) :
    Does sp x s (.claim i event data startedAt) (claim s i event data startedAt).store
      (claim s i event data startedAt).next := by
  unfold claim
  split
  · next hin => exact .waits hin
  · next hfree =>
    split
    · next hin => exact .conflicts hin
    · next hnew => exact .claimed hfree (Option.not_isSome_iff_eq_none.mp hnew)

/-- **One statement.** -/
theorem statement_does (sp : Spelling) (x : Input) (s : Store) (t : Task) :
    Does sp x s t (statement sp x s t).store (statement sp x s t).next := by
  -- when nothing fails
  have hproceed : Does sp x s t (proceed sp x s t).store (proceed sp x s t).next := by
    cases t with
    | call c => exact .called c
    | select => exact .selected
    | publish b rest =>
      cases rest with
      | nil => exact .committed b
      | cons row rest => exact .published b row rest
    | update b row acked rest => exact .updated b row acked rest
    | receive i => exact receive_does i
    | existsBy i event => exact lookUp_does i event
    | display i event actorId =>
      show Does sp x s _ (resolve x s i event).store (resolve x s i event).next
      unfold resolve
      split
      · exact .dropped rfl rfl
      · next data hdata => exact .resolved hdata
    | claim i event data startedAt => exact claim_does i event data startedAt
    | save i event data startedAt => exact .saved i event data startedAt
    | respond i n => exact .responded i n
    | find recipientId id =>
      show Does sp x s _ (findOneBy s recipientId id).store (findOneBy s recipientId id).next
      unfold findOneBy
      split
      · exact .dropped rfl rfl
      · next n hn => exact .found hn
    | mark recipientId id => exact .marked recipientId id
    | reread recipientId id =>
      show Does sp x s _ (reread s recipientId id).store (reread s recipientId id).next
      unfold reread
      split
      · exact .dropped rfl rfl
      · next n hn => exact .read hn
  -- a call is decided about by `serve`; any other statement may fail, which stops its task
  unfold statement
  split
  · exact hproceed
  · split
    · exact .stopped t
    · exact hproceed

/-! ## Locks and claims

What tasks hold, and that no two hold the same. -/

/-- The ids of rows that are due. -/
theorem due_ids (s : Store) : (((s.due.take 20).map (·.event)).map (·.id)).Nodup
    ∧ ∀ k ∈ ((s.due.take 20).map (·.event)).map (·.id), k ∉ s.rowLocks := by
  constructor
  · rw [List.map_map]
    have hsub : (s.due.take 20).Sublist s.outbox.rows := (List.take_sublist _ _).trans List.filter_sublist
    exact (hsub.map fun r => r.event.id).nodup s.outbox.nodup
  · intro k hk
    rw [List.map_map] at hk
    obtain ⟨r, hr, rfl⟩ := List.mem_map.mp hk
    have hdue := (Table.mem_select.mp (List.mem_of_mem_take hr)).2
    exact (of_decide_eq_true hdue).2.2

/-- Rows of the outbox are locked by one round at a time. -/
theorem Does.locked {reply : Option Answer} (h : Does sp x s t s' next) :
    HoldStep Store.rowLocks Task.locked s t (⟨s', next, reply⟩ : Step) := by
  cases h with
  | stopped t => exact .release rfl rfl
  | selected => exact .acquire _ rfl (List.append_nil _) (due_ids s).1 (due_ids s).2 rfl
  | committed b => exact .release rfl rfl
  | published b row rest => exact .keep (List.append_nil _) rfl
  | updated b row acked rest => exact .keep (List.append_nil _) rfl
  | dropped hlocked => exact .keep hlocked.symm rfl
  | _ => exact .keep rfl rfl

/-- An event is claimed by one delivery at a time. -/
theorem Does.claimed_step {reply : Option Answer} (h : Does sp x s t s' next) :
    HoldStep Store.claims Task.claimed s t (⟨s', next, reply⟩ : Step) := by
  cases h with
  | stopped t => exact .release rfl rfl
  | dropped _ hclaimed => exact .keep hclaimed.symm rfl
  | claimed hfree hnew =>
    exact .acquire _ rfl rfl (List.pairwise_singleton _ _) (fun k hk => List.mem_singleton.mp hk ▸ hfree) rfl
  | saved i event data startedAt =>
    refine .release rfl ?_
    show s.claims.filter _ = s.claims.filter _
    simp [Task.claimed]
  | _ => exact .keep rfl rfl

/-! ## What is only added to

Rows, messages and notifications stay. -/

/-- What is in the stores stays there. -/
structure Store.Later (s s' : Store) : Prop where
  outbox : ∀ e ∈ s.db.outbox, e ∈ s'.db.outbox
  stream : s.stream <+: s'.stream
  inbox : ∀ k, (s.inbox.get? k).isSome → (s'.inbox.get? k).isSome
  notifications : ∀ n ∈ s.notifications, ∃ n' ∈ s'.notifications, n' = { n with readAt := n'.readAt }

namespace Store.Later

theorem refl (s : Store) : s.Later s :=
  ⟨fun _ he => he, List.prefix_rfl, fun _ hk => hk, fun n hn => ⟨n, hn, rfl⟩⟩

/-- What the other columns and the account of the stream are does not matter. -/
theorem of_eq (hdb : s'.db = s.db) (hstream : s.stream <+: s'.stream) (hinbox : s'.inbox = s.inbox)
    (hnotifications : s'.notifications = s.notifications) : s.Later s' := by
  constructor
  · rw [hdb]
    exact fun _ he => he
  · exact hstream
  · rw [hinbox]
    exact fun _ hk => hk
  · rw [hnotifications]
    exact fun n hn => ⟨n, hn, rfl⟩

/-- A message stays at its position. -/
theorem message (h : s.Later s') {i : Nat} {m : Message} (hi : s.stream[i]? = some m) : s'.stream[i]? = some m := by
  obtain ⟨more, hmore⟩ := h.stream
  rw [← hmore, List.getElem?_append_left (List.getElem?_eq_some_iff.mp hi).1]
  exact hi

end Store.Later

/-- The new notification beside the others. -/
theorem mem_insert_new {rows : Serial Notification Notification.id} {event : DomainEvent} {data : Fields} {now : Time}
    {n : Notification} : n ∈ rows.insert (newNotification event data now) (newNotification_id event data now) ↔
      n ∈ rows ∨ n = newNotification event data now rows.next := Serial.mem_insert

/-- A statement takes nothing away. -/
theorem Does.later (h : Does sp x s t s' next) : s.Later s' := by
  cases h with
  | called c =>
    obtain ⟨-, es, hrows, -⟩ := outbox_step s.db c
    refine ⟨fun e he => ?_, List.prefix_rfl, fun _ hk => hk, fun n hn => ⟨n, hn, rfl⟩⟩
    show e ∈ (s.db.step c).outbox.rows
    rw [hrows]
    exact List.mem_append_left es he
  | stopped t => exact .of_eq rfl (List.prefix_append _ _) rfl rfl
  | published b row rest => exact .of_eq rfl (List.prefix_append _ _) rfl rfl
  | saved i event data startedAt =>
    refine ⟨fun _ he => he, List.prefix_rfl, fun k hk => ?_, fun n hn => ⟨n, ?_, rfl⟩⟩
    · show ((s.inbox.insert _).get? k).isSome
      rw [Table.get?_insert]
      split
      · rfl
      · exact hk
    · exact mem_insert_new.mpr (.inl hn)
  | marked recipientId id =>
    refine ⟨fun _ he => he, List.prefix_rfl, fun _ hk => hk, fun n hn => ?_⟩
    refine ⟨_, List.mem_map_of_mem hn, ?_⟩
    split <;> rfl
  | _ => exact .of_eq rfl List.prefix_rfl rfl rfl

/-- An event is entered in the inbox by the task that has claimed it. -/
theorem Does.inbox (h : Does sp x s t s' next) {k : String} (hk : k ∉ t.claimed) :
    s'.inbox.get? k = s.inbox.get? k := by
  cases h with
  | saved i event data startedAt =>
    have hne : event.eventId ≠ k := fun he => hk (List.mem_singleton.mpr he.symm)
    show (s.inbox.insert _).get? k = _
    rw [Table.get?_insert, if_neg hne]
  | _ => rfl

end AcaSocial.Notifications
