import Mathlib.Data.List.TakeWhile
import AcaSocial.Base.Relay
import AcaSocial.Notifications.DeliveryStep

/-!
# One notification for each event

The pipeline is a relay: events are entered in the outbox, copied to the stream, and accepted when they are entered in the
inbox, in one transaction with their notification.

* **`Wanted`** — the events that are for somebody; **`Notifies`** — the notification of an event.
* **`Simulates`** — the stores stand for a relay: one event was accepted for each row of the inbox, and each notification
  is that of its event.
* **`Working`** — what a task in flight knows.
* **`Does.simulates`** — a statement is a few steps of the relay.
* **`one_notification`**, **`no_event_lost`** — what follows for every interleaving.
-/

namespace AcaSocial.Notifications

variable {sp : Spelling} {x : Input} {s s' : Store} {t : Task} {next : List Task} {e : OutboxEvent} {r r' : Relay OutboxEvent}

/-! ## Events as the consumer reads them

The payload of an event is JSON when it arrives. What the discussion service enters is well formed, and the consumer
accepts it. -/

/-- An event of the outbox that the consumer can read. -/
structure WellFormed (e : OutboxEvent) : Prop where
  typed : filled e.eventType = true
  unreceived : e.payload.lookup "receiverId" = none
  addressed : e.payload.lookup "recipientId" = none ∨ ∃ u, e.payload.lookup "recipientId" = some (.uuid (Id.text u))

/-- What a call emits is well formed. -/
theorem wellFormed_of_emits {db : Db} {c : Call} (h : Emits db c e.eventType e.payload) : WellFormed e := by
  obtain ⟨hreceiver, hrecipient⟩ := h.recipient
  refine ⟨?_, hreceiver, hrecipient⟩
  generalize e.eventType = type, e.payload = data at h
  cases h <;> decide

/-- The fields of a payload are found under their names. -/
theorem lookup_fields (sp : Spelling) (data : EventData) (field : String) :
    (sp.fields data).lookup field = (data.lookup field).map sp.value := by
  induction data with
  | nil => rfl
  | cons f data ih =>
    obtain ⟨key, v⟩ := f
    show List.lookup field ((key, sp.value v) :: sp.fields data) = _
    rw [List.lookup_cons, List.lookup_cons, ih]
    split <;> rfl

/-- The event is for somebody. -/
def Wanted (sp : Spelling) (e : OutboxEvent) : Prop := (sp.event e).recipientId ≠ ""

instance (sp : Spelling) : DecidablePred (Wanted sp) := fun _ => inferInstanceAs (Decidable (_ ≠ _))

/-- The recipient as the consumer reads it. -/
theorem WellFormed.recipient_event (sp : Spelling) (h : WellFormed e) :
    recipient (sp.event e).data = (e.payload.lookup "recipientId").map sp.value := by
  show (Fields.present (sp.fields e.payload) "recipientId").or (Fields.present (sp.fields e.payload) "receiverId") = _
  rw [Fields.present, Fields.present, lookup_fields, lookup_fields, h.unreceived]
  rcases h.addressed with hnone | ⟨u, hu⟩
  · rw [hnone]
    rfl
  · rw [hu]
    rfl

/-- A text that is not blank is not empty. -/
theorem ne_empty_of_filled {text : String} (h : filled text = true) : text ≠ "" := by
  rintro rfl
  exact absurd h (by decide)

/-- A well-formed event is wanted when it names a recipient. -/
theorem WellFormed.wanted_iff (h : WellFormed e) :
    Wanted sp e ↔ ∃ u, e.payload.lookup "recipientId" = some (.uuid (Id.text u)) := by
  rw [Wanted, DomainEvent.recipientId, h.recipient_event sp]
  rcases h.addressed with hnone | ⟨u, hu⟩
  · rw [hnone]
    exact iff_of_false (fun hne => hne rfl) (by rintro ⟨u, hu⟩; cases hu)
  · rw [hu]
    exact iff_of_true (ne_empty_of_filled (sp.filled (Id.text u))) ⟨u, rfl⟩

/-- **The consumer reads what was published.** -/
theorem WellFormed.decode_message (h : WellFormed e) : decode (sp.message e) = .ok (sp.event e) := by
  have hid : Member.filledString (.value (.string (sp.event e).eventId)) = some (sp.event e).eventId :=
    if_pos (sp.filled (Id.text e.id))
  have htype : Member.filledString (.value (.string (sp.event e).eventType)) = some (sp.event e).eventType :=
    if_pos h.typed
  have hvalid : validateDomainEvent (sp.message e).data = .ok (sp.event e) := by
    have hrecipient := h.recipient_event sp
    simp only [Spelling.message, validateDomainEvent, List.lookup_cons]
    simp only [beq_self_eq_true, Option.bind_some, hid, htype, String.reduceBEq, hrecipient]
    rcases h.addressed with hnone | ⟨u, hu⟩
    · rw [hnone]
      rfl
    · rw [hu]
      exact if_pos (sp.filled (Id.text u))
  rw [decode, hvalid]
  exact if_neg fun hne => hne rfl

/-! ## The relay behind the stores

An outbox, a stream and an inbox, without users and texts. The stores of the services simulate this relay, and what
holds of it holds of them. -/

/-- The notification is that of the event. -/
def Notifies (sp : Spelling) (e : OutboxEvent) (n : Notification) : Prop :=
  ∃ data startedAt, Prepared (sp.event e) data
    ∧ n = { newNotification (sp.event e) data startedAt n.id with readAt := n.readAt }

/-- The stores stand for the relay. -/
structure Simulates (sp : Spelling) (s : Store) (r : Relay OutboxEvent) : Prop where
  log : r.log = s.db.outbox.rows
  rows : s.outbox.rows.map (·.event) = s.db.outbox.rows
  delivered : ∀ row ∈ s.outbox, row.deliveredAt ≠ none → row.event ∈ r.sent
  stream : s.stream = r.channel.map sp.message
  acknowledged : s.acknowledged = r.settled
  terminated : s.terminated = []
  inbox : s.inbox.rows.map (·.eventId) = r.accepted.map fun e => (sp.event e).eventId
  notifications : List.Forall₂ (Notifies sp) r.accepted s.notifications.rows

theorem Simulates.init (sp : Spelling) : Simulates sp .init .init where
  log := rfl
  rows := rfl
  delivered _ hr := absurd hr List.not_mem_nil
  stream := rfl
  acknowledged := rfl
  terminated := rfl
  inbox := rfl
  notifications := .nil

/-- What every run of the pipeline keeps: the discussion service has come to its state by calls, and the stores stand for
a relay. -/
def Reached (sp : Spelling) (s : Store) : Prop :=
  ∃ calls r, s.db = Db.after calls ∧ Relation.ReflTransGen (Relay.Step (Wanted sp)) .init r ∧ Simulates sp s r

/-- Events of the outbox with one id are one event. -/
theorem eq_of_eventId (sp : Spelling) {db : Db} {e e' : OutboxEvent} (he : e ∈ db.outbox) (he' : e' ∈ db.outbox)
    (h : (sp.event e).eventId = (sp.event e').eventId) : e = e' :=
  Table.eq_of_key_eq (t := db.outbox.toTable) he he' (sp.injective e.id e'.id h)

/-- Events with one message are one event. -/
theorem eq_of_message (sp : Spelling) {db : Db} {e e' : OutboxEvent} (he : e ∈ db.outbox) (he' : e' ∈ db.outbox)
    (h : sp.message e = sp.message e') : e = e' := by
  refine eq_of_eventId sp he he' ?_
  simp only [Spelling.message, Message.mk.injEq, Payload.object.injEq, List.cons.injEq, Prod.mk.injEq,
    Member.value.injEq, Unknown.string.injEq, true_and] at h
  exact h.2.1

namespace Simulates

/-- The copy of an event is in the channel where its message is in the stream. -/
theorem channel (h : Simulates sp s r) (hsound : r.Sound (Wanted sp)) (he : e ∈ s.db.outbox) {i : Nat}
    (hi : s.stream[i]? = some (sp.message e)) : r.channel[i]? = some e := by
  rw [h.stream, List.getElem?_map, Option.map_eq_some_iff] at hi
  obtain ⟨e', he', hmessage⟩ := hi
  have hlog : e' ∈ s.db.outbox := by
    have hin := hsound.channel e' (List.mem_of_getElem? he')
    rw [h.log] at hin
    exact hin
  rw [he', eq_of_message sp hlog he hmessage]

/-- A message of the stream is that of an event. -/
theorem message (h : Simulates sp s r) (hsound : r.Sound (Wanted sp)) {i : Nat} {m : Message}
    (hm : s.stream[i]? = some m) : ∃ e ∈ s.db.outbox, m = sp.message e := by
  rw [h.stream, List.getElem?_map, Option.map_eq_some_iff] at hm
  obtain ⟨e, he, rfl⟩ := hm
  have hin := hsound.channel e (List.mem_of_getElem? he)
  rw [h.log] at hin
  exact ⟨e, hin, rfl⟩

/-- The inbox holds the events that have been accepted. -/
theorem mem_accepted (h : Simulates sp s r) (hsound : r.Sound (Wanted sp)) (he : e ∈ s.db.outbox) :
    e ∈ r.accepted ↔ (s.inbox.get? (sp.event e).eventId).isSome := by
  have hkeys : (s.inbox.get? (sp.event e).eventId).isSome ↔ (sp.event e).eventId ∈ s.inbox.rows.map (·.eventId) := by
    rw [Option.isSome_iff_exists]
    constructor
    · rintro ⟨row, hrow⟩
      obtain ⟨hmem, hkey⟩ := Table.get?_eq_some.mp hrow
      exact List.mem_map.mpr ⟨row, hmem, hkey⟩
    · intro hmem
      obtain ⟨row, hrow, hkey⟩ := List.mem_map.mp hmem
      exact ⟨row, Table.get?_eq_some.mpr ⟨hrow, hkey⟩⟩
  rw [hkeys, h.inbox]
  constructor
  · exact fun hmem => List.mem_map.mpr ⟨e, hmem, rfl⟩
  · intro hmem
    obtain ⟨e', he', hid⟩ := List.mem_map.mp hmem
    have hin := hsound.channel e' (hsound.accepted e' he').1
    rw [h.log] at hin
    rw [← eq_of_eventId sp hin he hid]
    exact he'

end Simulates

/-! ## What a task knows

A task that publishes or consumes carries an event. What it knows of the stores stays true while others run. -/

/-- The delivery at a position is one of this event, which is for somebody. -/
def Carries (sp : Spelling) (s : Store) (i : Nat) (event : DomainEvent) : Prop :=
  ∃ e ∈ s.db.outbox, s.stream[i]? = some (sp.message e) ∧ event = sp.event e ∧ Wanted sp e

/-- The rows of a round are events of the outbox, and those that were confirmed are in the stream. -/
structure BatchKnown (sp : Spelling) (s : Store) (b : Batch) (rest : List OutboxEvent) : Prop where
  rest : ∀ e ∈ rest, e ∈ s.db.outbox
  confirmed : ∀ id, (id, true) ∈ b.outcomes → ∃ e ∈ s.db.outbox, e.id = id ∧ sp.message e ∈ s.stream

def Working (sp : Spelling) (s : Store) : Task → Prop
  | .publish b rest => BatchKnown sp s b rest
  | .update b row acked rest => BatchKnown sp s b (row :: rest) ∧ (acked = true → sp.message row ∈ s.stream)
  | .existsBy i event => Carries sp s i event
  | .display i event actorId => Carries sp s i event ∧ authorship event = .resolve actorId
  | .claim i event data _ => Carries sp s i event ∧ Prepared event data
  | .save i event data _ => Carries sp s i event ∧ Prepared event data ∧ s.inbox.get? event.eventId = none
  | .respond i _ => ∃ e ∈ s.db.outbox, s.stream[i]? = some (sp.message e)
    ∧ (Wanted sp e → (s.inbox.get? (sp.event e).eventId).isSome)
  | _ => True

/-- A task that carries an event still carries it after what others do. -/
theorem Carries.later {i : Nat} {event : DomainEvent} (h : Carries sp s i event) (hl : s.Later s') :
    Carries sp s' i event := by
  obtain ⟨e, he, hi, rfl, hw⟩ := h
  exact ⟨e, hl.outbox e he, hl.message hi, rfl, hw⟩

/-- The rest of a batch is still to be published after what others do. -/
theorem BatchKnown.later {b : Batch} {rest : List OutboxEvent} (h : BatchKnown sp s b rest) (hl : s.Later s') :
    BatchKnown sp s' b rest := by
  refine ⟨fun e he => hl.outbox e (h.rest e he), fun id hid => ?_⟩
  obtain ⟨e, he, heid, hin⟩ := h.confirmed id hid
  exact ⟨e, hl.outbox e he, heid, hl.stream.subset hin⟩

/-- **The steps of others.** A task keeps what it knows. -/
theorem Working.later (h : Working sp s t) (hl : s.Later s')
    (hinbox : ∀ k ∈ t.claimed, s'.inbox.get? k = s.inbox.get? k) : Working sp s' t := by
  cases t with
  | publish b rest => exact BatchKnown.later h hl
  | update b row acked rest => exact ⟨BatchKnown.later h.1 hl, fun hacked => hl.stream.subset (h.2 hacked)⟩
  | existsBy i event => exact Carries.later h hl
  | display i event actorId => exact ⟨Carries.later h.1 hl, h.2⟩
  | claim i event data startedAt => exact ⟨Carries.later h.1 hl, h.2⟩
  | save i event data startedAt =>
    exact ⟨Carries.later h.1 hl, h.2.1, (hinbox _ List.mem_cons_self).trans h.2.2⟩
  | respond i saved =>
    obtain ⟨e, he, hi, hdone⟩ := h
    exact ⟨e, hl.outbox e he, hl.message hi, fun hw => hl.inbox _ (hdone hw)⟩
  | _ => trivial

/-! ## One statement

Each statement is a step of the relay or leaves it as it is. -/

/-- The rows of new events, with the defaults. -/
theorem rows_enter (now : Time) (es : List OutboxEvent) (rows : Table Id OutboxRow fun r => r.event.id)
    (h : (rows.rows.map (·.event.id) ++ es.map (·.id)).Nodup) :
    (es.foldl (fun rows e => rows.insert (Store.newRow now e)) rows).rows = rows.rows ++ es.map (Store.newRow now) := by
  induction es generalizing rows with
  | nil => exact (List.append_nil _).symm
  | cons e es ih =>
    have hnew : rows.get? e.id = none := by
      refine Table.get?_eq_none.mpr fun r hr hid => ?_
      exact (List.nodup_append.mp h).2.2 _ (List.mem_map_of_mem hr) e.id List.mem_cons_self hid
    have hinsert : (rows.insert (Store.newRow now e)).rows = rows.rows ++ [Store.newRow now e] := Table.rows_insert hnew
    rw [List.foldl_cons, ih, hinsert, List.map_cons, List.append_assoc]
    · rfl
    · rw [hinsert, List.map_append, List.append_assoc]
      exact h

/-- A call of the discussion service enters its events. -/
theorem Simulates.called (h : Simulates sp s r) (c : Call) :
    ∃ es, Simulates sp (s.serve c) { r with log := r.log ++ es } := by
  obtain ⟨-, es, hrows, -⟩ := outbox_step s.db c
  have hlength : s.outbox.rows.length = s.db.outbox.rows.length := by rw [← h.rows, List.length_map]
  have hdrop : (s.db.step c).outbox.rows.drop s.outbox.rows.length = es := by rw [hrows, hlength, List.drop_left]
  -- the ids of the new events are not those of old ones
  have hnodup : (s.outbox.rows.map (·.event.id) ++ es.map (·.id)).Nodup := by
    have hkeys : ((s.db.step c).outbox.rows.map (·.id)).Nodup := (s.db.step c).outbox.nodup
    rw [hrows, ← h.rows, List.map_append, List.map_map] at hkeys
    exact hkeys
  have houtbox : (s.serve c).outbox.rows = s.outbox.rows ++ es.map (Store.newRow s.now) := by
    rw [← hdrop] at hnodup ⊢
    exact rows_enter s.now _ s.outbox hnodup
  refine ⟨es, { h with log := ?_, rows := ?_, delivered := ?_ }⟩
  · rw [h.log]
    exact hrows.symm
  · rw [houtbox, List.map_append, h.rows, List.map_map]
    show s.db.outbox.rows ++ es.map id = _
    rw [List.map_id]
    exact hrows.symm
  · intro row hrow hdelivered
    have hmem : row ∈ (s.serve c).outbox.rows := hrow
    rw [houtbox] at hmem
    rcases List.mem_append.mp hmem with hold | hnew
    · exact h.delivered row hold hdelivered
    · -- a new row has not been delivered
      obtain ⟨e, -, rfl⟩ := List.mem_map.mp hnew
      exact absurd rfl hdelivered

/-- A message goes out. -/
theorem Simulates.sent (h : Simulates sp s r) (hw : Working sp s t) :
    ∃ r', Relation.ReflTransGen (Relay.Step (Wanted sp)) r r' ∧ Simulates sp (sent sp x s t) r' := by
  by_cases hnone : sentBy sp x t = []
  · refine ⟨r, .refl, { h with stream := ?_ }⟩
    show s.stream ++ sentBy sp x t = _
    rw [hnone, List.append_nil]
    exact h.stream
  · unfold sentBy at hnone
    split at hnone
    · next b row rest =>
      by_cases hstored : x.stored = true
      · have hin : row ∈ r.log := h.log ▸ BatchKnown.rest hw row List.mem_cons_self
        refine ⟨_, .single (.copy row hin), { h with stream := ?_ }⟩
        show s.stream ++ sentBy sp x (.publish b (row :: rest)) = _
        rw [sentBy, if_pos hstored, h.stream, List.map_append]
        rfl
      · rw [if_neg hstored] at hnone
        exact absurd rfl hnone
    · exact absurd rfl hnone

/-- The rows of a round are marked as delivered when they were confirmed. -/
theorem Simulates.committed (h : Simulates sp s r) (hsound : r.Sound (Wanted sp)) {b : Batch}
    (hw : Working sp s (.publish b [])) :
    ∃ r', Relation.ReflTransGen (Relay.Step (Wanted sp)) r r' ∧ Simulates sp (commitBatch s b).store r' := by
  -- every copy of a row that was confirmed may be marked
  let es := r.channel.filter fun e => decide (b.outcomes.lookup e.id = some true)
  refine ⟨_, Relay.steps_mark es fun e he => (List.mem_filter.mp he).1, { h with rows := ?_, delivered := ?_ }⟩
  · show (s.outbox.rows.map _).map _ = _
    rw [List.map_map]
    refine Eq.trans (List.map_congr_left fun r _ => ?_) h.rows
    exact OutboxRow.tried_event r b.startedAt _
  · intro row hrow hdelivered
    obtain ⟨row₀, hrow₀, rfl⟩ := List.mem_map.mp hrow
    rw [OutboxRow.tried_event]
    refine List.mem_append.mpr ?_
    by_cases hacked : b.outcomes.lookup row₀.event.id = some true
    · have hmem : (row₀.event.id, true) ∈ b.outcomes := by
        obtain ⟨l₁, l₂, hl, -⟩ := List.lookup_eq_some_iff.mp hacked
        rw [hl]
        exact List.mem_append_right _ List.mem_cons_self
      obtain ⟨e, he, hid, hin⟩ := BatchKnown.confirmed hw row₀.event.id hmem
      have hrowIn : row₀.event ∈ s.db.outbox := by
        have hmap : row₀.event ∈ s.outbox.rows.map (·.event) := List.mem_map_of_mem hrow₀
        rw [h.rows] at hmap
        exact hmap
      have hsame : e = row₀.event := Table.eq_of_key_eq (t := s.db.outbox.toTable) he hrowIn hid
      obtain ⟨i, hi⟩ := List.mem_iff_getElem?.mp hin
      refine .inl (List.mem_filter.mpr ⟨?_, decide_eq_true hacked⟩)
      rw [← hsame]
      exact List.mem_of_getElem? (h.channel hsound he hi)
    · refine .inr (h.delivered row₀ hrow₀ ?_)
      cases hlookup : b.outcomes.lookup row₀.event.id with
      | none =>
        rw [hlookup] at hdelivered
        exact hdelivered
      | some acked =>
        cases acked with
        | true => exact absurd hlookup hacked
        | false =>
          rw [hlookup] at hdelivered
          exact hdelivered

/-- The transaction of a delivery enters the event and its notification. -/
theorem Simulates.saved (h : Simulates sp s r) (hsound : r.Sound (Wanted sp)) {i : Nat} {event : DomainEvent}
    {data : Fields} {startedAt : Time} (hw : Working sp s (.save i event data startedAt)) :
    ∃ r', Relation.ReflTransGen (Relay.Step (Wanted sp)) r r' ∧ Simulates sp (save s i event data startedAt).store r' := by
  obtain ⟨⟨e, he, hi, rfl, hwanted⟩, hdata, hnew⟩ := hw
  have hchannel := List.mem_of_getElem? (h.channel hsound he hi)
  have hnot : e ∉ r.accepted := by
    rw [h.mem_accepted hsound he, hnew]
    exact Bool.false_ne_true
  refine ⟨_, .single (.accept e hchannel hwanted hnot), { h with inbox := ?_, notifications := ?_ }⟩
  · show (s.inbox.insert _).rows.map _ = _
    rw [Table.rows_insert hnew, List.map_append, h.inbox, List.map_append]
    rfl
  · show List.Forall₂ _ _ (s.notifications.toTable.insert _).rows
    rw [Table.rows_insert s.notifications.get?_next]
    exact List.rel_append h.notifications (.cons ⟨data, startedAt, hdata, rfl⟩ .nil)

/-- A notification that is marked as read is that of its event. -/
theorem Simulates.marked (h : Simulates sp s r) (recipientId : String) (id : Nat) :
    Simulates sp (markRow s recipientId id).store r := by
  refine { h with notifications := ?_ }
  show List.Forall₂ _ _ (s.notifications.rows.map _)
  refine List.forall₂_map_right_iff.mpr (h.notifications.imp fun e n hn => ?_)
  obtain ⟨data, startedAt, hdata, heq⟩ := hn
  split
  · exact ⟨data, startedAt, hdata, congrArg (Notification.markedRead · s.now) heq⟩
  · exact ⟨data, startedAt, hdata, heq⟩

/-- **One statement.** It is a few steps of the relay. -/
theorem Does.simulates (hdo : Does sp x s t s' next) (hemitted : ∀ e ∈ s.db.outbox, WellFormed e)
    (h : Simulates sp s r) (hsound : r.Sound (Wanted sp)) (hw : Working sp s t) :
    ∃ r', Relation.ReflTransGen (Relay.Step (Wanted sp)) r r' ∧ Simulates sp s' r' := by
  cases hdo with
  | called c =>
    obtain ⟨es, hes⟩ := h.called c
    exact ⟨_, .single (.append es), hes⟩
  | stopped t =>
    obtain ⟨r', hsteps, hsent⟩ := h.sent (x := x) hw
    exact ⟨r', hsteps, { hsent with }⟩
  | published b row rest => exact h.sent hw
  | committed b => exact h.committed hsound hw
  | rejected hm hdecode =>
    -- a message of the stream can be read
    obtain ⟨e, he, rfl⟩ := h.message hsound hm
    rw [(hemitted e he).decode_message] at hdecode
    cases hdecode
  | saved i event data startedAt => exact h.saved hsound hw
  | responded i n =>
    obtain ⟨e, he, hi, hdone⟩ := hw
    by_cases hreceived : x.received = true
    · have hstep : Relay.Step (Wanted sp) r { r with settled := i :: r.settled } :=
        .settle i e (h.channel hsound he hi) fun hwanted => (h.mem_accepted hsound he).mpr (hdone hwanted)
      refine ⟨_, .single hstep, { h with acknowledged := ?_ }⟩
      show (if x.received then i :: s.acknowledged else s.acknowledged) = _
      rw [if_pos hreceived, h.acknowledged]
    · refine ⟨r, .refl, { h with acknowledged := ?_ }⟩
      show (if x.received then i :: s.acknowledged else s.acknowledged) = _
      rw [if_neg hreceived, h.acknowledged]
  | marked recipientId id => exact ⟨r, .refl, h.marked recipientId id⟩
  | _ => exact ⟨r, .refl, { h with }⟩

/-! ## Every interleaving

The stores simulate the relay along every interleaving, with crashes and repeated deliveries. -/

/-- All events of the outbox are well formed. -/
theorem Reached.wellFormed (h : Reached sp s) : ∀ e ∈ s.db.outbox, WellFormed e := by
  obtain ⟨calls, -, hdb, -⟩ := h
  rw [hdb]
  intro e he
  obtain ⟨before, c, hemitted⟩ := outbox_emitted calls e he
  exact wellFormed_of_emits hemitted.2

/-- A statement keeps what every run keeps. -/
theorem Does.reached (hdo : Does sp x s t s' next) (h : Reached sp s) (hw : Working sp s t) : Reached sp s' := by
  have hwellFormed := h.wellFormed
  obtain ⟨calls, r, hdb, hsteps, hsim⟩ := h
  obtain ⟨r', hsteps', hsim'⟩ := hdo.simulates hwellFormed hsim (Relay.Sound.init.steps hsteps) hw
  have hcalls : ∃ calls', s'.db = Db.after calls' := by
    cases hdo with
    | called c =>
      have hafter : Db.after (calls ++ [c]) = (Db.after calls).step c := run_append _ calls [c]
      exact ⟨calls ++ [c], (congrArg (Db.step · c) hdb).trans hafter.symm⟩
    | _ => exact ⟨calls, hdb⟩
  obtain ⟨calls', hdb'⟩ := hcalls
  exact ⟨calls', r', hdb', hsteps.trans hsteps', hsim'⟩

/-- **Own steps.** What a statement leaves its task to do, the task does knowingly: a batch is of the outbox, a
confirmed message is in the stream, a message in hand is that of an event, and the event of a message that is to be
acknowledged has been accepted. -/
theorem Does.working (hdo : Does sp x s t s' next) (h : Reached sp s) (hw : Working sp s t) :
    ∀ t' ∈ next, Working sp s' t' := by
  have hlater := hdo.later
  have hwellFormed := h.wellFormed
  obtain ⟨calls, r, hdb, hsteps, hsim⟩ := h
  have hsound := Relay.Sound.init.steps hsteps
  intro t' ht'
  cases hdo with
  | selected =>
    obtain rfl := List.mem_singleton.mp ht'
    refine ⟨fun e he => ?_, fun _ hid => absurd hid List.not_mem_nil⟩
    obtain ⟨row, hrow, rfl⟩ := List.mem_map.mp he
    have hin : row.event ∈ s.outbox.rows.map (·.event) :=
      List.mem_map_of_mem (Table.mem_select.mp (List.mem_of_mem_take hrow)).1
    rw [hsim.rows] at hin
    exact hin
  -- what was confirmed has been stored
  | published b row rest =>
    obtain rfl := List.mem_singleton.mp ht'
    refine ⟨BatchKnown.later hw hlater, fun hacked => ?_⟩
    have hstored : x.stored = true := (Bool.and_eq_true_iff.mp hacked).1
    show _ ∈ s.stream ++ sentBy sp x (.publish b (row :: rest))
    rw [sentBy, if_pos hstored]
    exact List.mem_append_right _ List.mem_cons_self
  | updated b row acked rest =>
    obtain rfl := List.mem_singleton.mp ht'
    obtain ⟨hknown, hacked⟩ := hw
    refine ⟨fun e he => hknown.rest e (List.mem_cons_of_mem row he), fun id hid => ?_⟩
    rcases List.mem_append.mp hid with hid | hid
    · exact hknown.confirmed id hid
    · obtain ⟨rfl, rfl⟩ := Prod.mk.inj (List.mem_singleton.mp hid)
      exact ⟨row, hknown.rest row List.mem_cons_self, rfl, hacked rfl⟩
  -- the message is that of an event, which the consumer reads back
  | unaddressed hm hdecode hnone =>
    obtain rfl := List.mem_singleton.mp ht'
    obtain ⟨e, he, rfl⟩ := hsim.message hsound hm
    rw [(hwellFormed e he).decode_message] at hdecode
    obtain rfl := Except.ok.inj hdecode
    exact ⟨e, he, hm, fun hwanted => absurd hnone hwanted⟩
  | addressed hm hdecode hsome =>
    obtain rfl := List.mem_singleton.mp ht'
    obtain ⟨e, he, rfl⟩ := hsim.message hsound hm
    rw [(hwellFormed e he).decode_message] at hdecode
    obtain rfl := Except.ok.inj hdecode
    exact ⟨e, he, hm, rfl, hsome⟩
  | known hin =>
    obtain rfl := List.mem_singleton.mp ht'
    obtain ⟨e, he, hi, rfl, -⟩ := hw
    exact ⟨e, he, hi, fun _ => hin⟩
  | prepared hdata =>
    obtain rfl := List.mem_singleton.mp ht'
    exact ⟨hw, hdata⟩
  | asks hauthorship =>
    obtain rfl := List.mem_singleton.mp ht'
    exact ⟨hw, hauthorship⟩
  | resolved hdata =>
    obtain rfl := List.mem_singleton.mp ht'
    exact ⟨hw.1, .name hw.2 hdata⟩
  | waits hin =>
    obtain rfl := List.mem_singleton.mp ht'
    exact hw
  | conflicts hin =>
    obtain rfl := List.mem_singleton.mp ht'
    obtain ⟨⟨e, he, hi, rfl, -⟩, -⟩ := hw
    exact ⟨e, he, hi, fun _ => hin⟩
  | claimed hfree hnew =>
    obtain rfl := List.mem_singleton.mp ht'
    exact ⟨Carries.later hw.1 hlater, hw.2, hnew⟩
  -- the inbox has the event from here on
  | saved i event data startedAt =>
    obtain rfl := List.mem_singleton.mp ht'
    obtain ⟨⟨e, he, hi, rfl, -⟩, -⟩ := hw
    refine ⟨e, he, hi, fun _ => ?_⟩
    show ((s.inbox.insert _).get? _).isSome
    rw [Table.get?_insert, if_pos rfl]
    rfl
  | found hn =>
    obtain rfl := List.mem_singleton.mp ht'
    trivial
  | marked recipientId id =>
    obtain rfl := List.mem_singleton.mp ht'
    trivial
  | _ => exact absurd ht' List.not_mem_nil

/-- What holds in every interleaving. -/
structure Safe (sp : Spelling) (p : Pool Store Task) : Prop where
  rows : p.Accounted Store.rowLocks Task.locked
  claims : p.Accounted Store.claims Task.claimed
  reached : Reached sp p.store
  working : ∀ a ∈ p.tasks, Working sp p.store a.2

theorem Safe.idle (sp : Spelling) : Safe sp (Pool.idle .init) :=
  ⟨.idle rfl, .idle rfl, ⟨[], _, rfl, .refl, .init sp⟩, fun _ ha => absurd ha List.not_mem_nil⟩

/-- Time passes. -/
theorem Reached.wait (h : Reached sp s) (elapsed : Time) : Reached sp (s.wait elapsed) := by
  obtain ⟨calls, r, hdb, hsteps, hsim⟩ := h
  exact ⟨calls, r, hdb, hsteps, { hsim with }⟩

theorem later_wait (s : Store) (elapsed : Time) : s.Later (s.wait elapsed) := .of_eq rfl List.prefix_rfl rfl rfl

/-- **One step.** -/
theorem Safe.step {p : Pool Store Task} (h : Safe sp p) (act : Act Request Input) : Safe sp (p.step (pipeline sp) act) := by
  have hheld : ∀ q : Request, (enter q).locked = [] ∧ (enter q).claimed = [] := by
    intro q
    cases q <;> exact ⟨rfl, rfl⟩
  have hdoes : ∀ x (s : Store) t, Does sp x (s.wait x.elapsed) t ((pipeline sp).exec x s t).store
      ((pipeline sp).exec x s t).next := fun x s t => statement_does sp x (s.wait x.elapsed) t
  have hrows : ∀ x (s : Store) t, HoldStep Store.rowLocks Task.locked s t ((pipeline sp).exec x s t) := by
    intro x s t
    have hstep : HoldStep Store.rowLocks Task.locked (s.wait x.elapsed) t ((pipeline sp).exec x s t) := (hdoes x s t).locked
    exact hstep.of_eq rfl
  have hclaims : ∀ x (s : Store) t, HoldStep Store.claims Task.claimed s t ((pipeline sp).exec x s t) := by
    intro x s t
    have hstep : HoldStep Store.claims Task.claimed (s.wait x.elapsed) t ((pipeline sp).exec x s t) :=
      (hdoes x s t).claimed_step
    exact hstep.of_eq rfl
  have hkept := h.claims.keeps (P := pipeline sp) act (I := Reached sp) (J := Working sp)
    (fun s q _ => by cases q <;> trivial)
    (fun x s t hI hJ => by
      have hJ' := Working.later hJ (later_wait s x.elapsed) fun _ _ => rfl
      have hI' := hI.wait x.elapsed
      exact ⟨(hdoes x s t).reached hI' hJ', (hdoes x s t).working hI' hJ'⟩)
    (fun x s t o _ _ ho hother => by
      have ho' := Working.later ho (later_wait s x.elapsed) fun _ _ => rfl
      exact Working.later ho' (hdoes x s t).later fun k hk => (hdoes x s t).inbox (hother k hk))
    h.reached h.working
  exact ⟨h.rows.step (fun q => (hheld q).1) hrows act, h.claims.step (fun q => (hheld q).2) hclaims act, hkept.1, hkept.2⟩

/-- The pipeline after any interleaving. -/
def pipelineAfter (sp : Spelling) (acts : List (Act Request Input)) : Pool Store Task :=
  run (Pool.step (pipeline sp)) (Pool.idle .init) acts

/-- The invariant holds after every interleaving. -/
theorem safe_after (sp : Spelling) (acts : List (Act Request Input)) : Safe sp (pipelineAfter sp acts) :=
  run_invariant (P := Safe sp) (fun _ act h => h.step act) (.idle sp) acts

/-- A row that is matched has a notification. -/
theorem exists_notification {es : List OutboxEvent} {ns : List Notification} (h : List.Forall₂ (Notifies sp) es ns)
    (he : e ∈ es) : ∃ n ∈ ns, Notifies sp e n := by
  induction h with
  | nil => exact absurd he List.not_mem_nil
  | cons hn _ ih =>
    rcases List.mem_cons.mp he with rfl | he
    · exact ⟨_, List.mem_cons_self, hn⟩
    · obtain ⟨n, hin, hn'⟩ := ih he
      exact ⟨n, List.mem_cons_of_mem _ hin, hn'⟩

/-- **One notification for each event.** Whatever fails and is delivered again, the notifications are those of different
events, each of which the outbox holds and is for somebody. -/
theorem one_notification (sp : Spelling) (acts : List (Act Request Input)) :
    ∃ accepted : List OutboxEvent, accepted.Nodup
      ∧ (∀ e ∈ accepted, e ∈ (pipelineAfter sp acts).store.db.outbox ∧ Wanted sp e)
      ∧ List.Forall₂ (Notifies sp) accepted (pipelineAfter sp acts).store.notifications.rows := by
  obtain ⟨calls, r, -, hsteps, hsim⟩ := (safe_after sp acts).reached
  have hsound := Relay.Sound.init.steps hsteps
  refine ⟨r.accepted, hsound.nodup, fun e he => ?_, hsim.notifications⟩
  obtain ⟨hchannel, hwanted⟩ := hsound.accepted e he
  have hin := hsound.channel e hchannel
  rw [hsim.log] at hin
  exact ⟨hin, hwanted⟩

/-- **No event is lost.** No message is given up, and an event that is for somebody has its notification, or its row is
still to be published, or its message is still to be delivered. -/
theorem no_event_lost (sp : Spelling) (acts : List (Act Request Input)) :
    (pipelineAfter sp acts).store.terminated = []
      ∧ ∀ e ∈ (pipelineAfter sp acts).store.db.outbox, ∀ u, e.payload.lookup "recipientId" = some (.uuid (Id.text u)) →
        (∃ n ∈ (pipelineAfter sp acts).store.notifications, Notifies sp e n)
        ∨ (∃ row ∈ (pipelineAfter sp acts).store.outbox, row.event = e ∧ row.deliveredAt = none)
        ∨ ∃ i, (pipelineAfter sp acts).store.stream[i]? = some (sp.message e)
          ∧ (pipelineAfter sp acts).store.Open i := by
  have hreached := (safe_after sp acts).reached
  have hwellFormed := hreached.wellFormed
  generalize (pipelineAfter sp acts).store = s at hreached hwellFormed ⊢
  obtain ⟨calls, r, -, hsteps, hsim⟩ := hreached
  have hsound := Relay.Sound.init.steps hsteps
  refine ⟨hsim.terminated, fun e he u hu => ?_⟩
  have hwanted : Wanted sp e := (hwellFormed e he).wanted_iff.mpr ⟨u, hu⟩
  -- what the simulated relay owes, found again in the rows and in the stream
  by_cases haccepted : e ∈ r.accepted
  · exact .inl (exists_notification hsim.notifications haccepted)
  · refine .inr ((hsound.owed hwanted haccepted).imp (fun hunsent => ?_) fun howed => ?_)
    · have hmap : e ∈ s.outbox.rows.map (·.event) := by
        rw [hsim.rows]
        exact he
      obtain ⟨row, hrow, rfl⟩ := List.mem_map.mp hmap
      refine ⟨row, hrow, rfl, ?_⟩
      by_contra hdelivered
      exact hunsent (hsim.delivered row hrow hdelivered)
    · obtain ⟨i, hi, hunsettled⟩ := howed
      refine ⟨i, ?_, ?_, ?_⟩
      · rw [hsim.stream, List.getElem?_map, hi]
        rfl
      · rw [hsim.acknowledged]
        exact hunsettled
      · rw [hsim.terminated]
        exact List.not_mem_nil

/-! ### A run

A question whose author is notified. -/

theorem filled_of_mem {text : String} {c : Char} (hc : c ∈ text.toList) (hspace : Text.isSpace c = false) :
    filled text = true := by
  have hne : Text.trim text.toList ≠ [] := by
    intro hnil
    have hreverse := List.reverse_eq_nil_iff.mp hnil
    have hall := List.dropWhile_eq_nil_iff.mp hreverse
    have hdrop : c ∈ text.toList.dropWhile Text.isSpace := by
      have hsplit := List.takeWhile_append_dropWhile (p := Text.isSpace) (l := text.toList)
      rw [← hsplit] at hc
      refine (List.mem_append.mp hc).resolve_left fun htake => ?_
      rw [List.mem_takeWhile_imp htake] at hspace
      cases hspace
    rw [hall c (List.mem_reverse.mpr hdrop)] at hspace
    cases hspace
  simp [filled, hne]

namespace Sample

/-- Ids with their decimal digits at the end. -/
def spelling : Spelling where
  text t := String.ofList ("30000000-0000-4000-8000-".toList ++ (Nat.toDigits 10 t.id).leftpad 12 '0')
  filled t := by
    refine filled_of_mem (c := '3') ?_ (by decide)
    rw [String.toList_ofList]
    exact List.mem_append_left _ (by decide)
  injective i j h := by
    have hpad := List.append_cancel_left (String.ofList_injective h)
    have hdigits : ∀ k : Id, Nat.ofDigitChars 10 ((Nat.toDigits 10 k).leftpad 12 '0') 0 = k := by
      intro k
      rw [List.leftpad, Nat.ofDigitChars_append, Nat.ofDigitChars_replicate_zero, Nat.mul_zero,
        Nat.ofDigitChars_ten_toDigits]
    rw [← hdigits i, ← hdigits j]
    exact congrArg (Nat.ofDigitChars 10 · 0) hpad

/-- A student opens a forum and asks a question there. -/
def asked : List (Act Request Input) :=
  [.start (.call AcaSocial.Sample.openForum), .run 0 {}, .start (.call AcaSocial.Sample.ask), .run 0 {}]

end Sample

theorem no_event_lost_asked :
    ∃ e ∈ (pipelineAfter Sample.spelling Sample.asked).store.db.outbox,
      (∃ n ∈ (pipelineAfter Sample.spelling Sample.asked).store.notifications, Notifies Sample.spelling e n)
      ∨ (∃ row ∈ (pipelineAfter Sample.spelling Sample.asked).store.outbox, row.event = e ∧ row.deliveredAt = none)
      ∨ ∃ i, (pipelineAfter Sample.spelling Sample.asked).store.stream[i]? = some (Sample.spelling.message e)
        ∧ (pipelineAfter Sample.spelling Sample.asked).store.Open i := by
  have hevent : ∃ e ∈ (pipelineAfter Sample.spelling Sample.asked).store.db.outbox.rows,
      e.payload.lookup "recipientId" = some (.uuid (Id.text 1)) := by decide
  obtain ⟨e, he, hu⟩ := hevent
  exact ⟨e, he, (no_event_lost Sample.spelling Sample.asked).2 e he 1 hu⟩

end AcaSocial.Notifications
