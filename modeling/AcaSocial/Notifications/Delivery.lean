import AcaSocial.Base.RowLocks
import AcaSocial.Discussion.Service
import AcaSocial.Notifications.NotificationsService

/-!
# From the outbox to the notifications

`events/outbox.worker.ts` and `common/nats/nats.publisher.ts` of the discussion service, and
`notifications/nats.consumer.ts`, `processEvent` and `markRead` of `notifications/notifications.service.ts`, beside each
other: calls of the discussion service, rounds of the outbox worker, deliveries of messages and users who read.

* **`Spelling`** — how ids are printed; **`Spelling.message`** is the message of an event.
* **`Store`** — the two databases with their locks, and the stream between them.
* **`Task`** — what is in flight; **`Task.locked`** and **`Task.claimed`** are the rows and the event that it holds.
* **`pipeline`** — the statements, with time passing before each. Any of them may fail, and with it the transaction.

The stream stores a message or does not, and the acknowledgement of either side may get lost. A message that is not
settled may be delivered at any time, also while it is being processed.
-/

namespace AcaSocial.Notifications

/-! ## Messages

A message of the stream is the row of the outbox with every value spelled as a string, and the consumer reads it back.
-/

/-- How the database prints the ids of rows, and the spelling of ids that requests name. -/
structure Spelling where
  text : UuidText → String
  filled : ∀ t, filled (text t) = true
  injective : ∀ i j : Id, text (Id.text i) = text (Id.text j) → i = j

structure Message where
  subject : String
  data : Payload
  deriving DecidableEq

namespace Spelling

variable (sp : Spelling)

/-- A value after `JSON.stringify` and `JSON.parse`. -/
def value : Json → Unknown
  | .null => .null
  | .bool b => .bool b
  | .num n => .other (toString n)
  | .str text => .string text
  | .uuid t => .string (sp.text t)

def fields (data : EventData) : Fields := data.map fun f => (f.1, sp.value f.2)

/-- The event that `publish(row.event_type, row.payload, row.id)` sends. -/
def event (e : OutboxEvent) : DomainEvent := ⟨sp.text (Id.text e.id), e.eventType, sp.fields e.payload⟩

/-- The message of `publish`. -/
def message (e : OutboxEvent) : Message where
  subject := "ac.social." ++ e.eventType
  data := .object [("eventId", .value (.string (sp.event e).eventId)),
    ("eventType", .value (.string (sp.event e).eventType)), ("data", .record (sp.event e).data)]

end Spelling

/-- What the consumer makes of a message before it processes the event. -/
def decode (m : Message) : Except ConsumerError DomainEvent :=
  match validateDomainEvent m.data with
  | .error e => .error e
  | .ok event =>
    if m.subject ≠ "ac.social." ++ event.eventType then
      .error (.invalidDomainEvent "Event type does not match subject")
    else .ok event

/-! ## The stores

The outbox of the discussion service, the stream, and the table of notifications. -/

/-- A row of `discussion_outbox` with the columns that the worker writes. -/
structure OutboxRow where
  event : OutboxEvent
  createdAt : Time
  deliveredAt : Option Time
  attempts : Nat
  nextAttemptAt : Time
  deriving DecidableEq

structure Store where
  now : Time
  /-- The tables of the discussion service, which enters events in the outbox. -/
  db : Db
  /-- The rows of the outbox, in the order of `created_at`. -/
  outbox : Table Id OutboxRow fun r => r.event.id
  /-- The rows of the outbox that a transaction has locked. -/
  rowLocks : List Id
  stream : List Message
  /-- The messages that have been acknowledged, by their positions in the stream. -/
  acknowledged : List Nat
  terminated : List Nat
  /-- The events that a transaction has claimed and not committed. -/
  claims : List String
  inbox : Table String InboxEvent InboxEvent.eventId
  notifications : Serial Notification Notification.id
  /-- What has been published to the streams of the users. -/
  published : List Notification

/-- The stores before anything has happened. -/
def Store.init : Store := ⟨0, Db.empty, ∅, [], [], [], [], [], ∅, ∅, []⟩

namespace Store

def wait (s : Store) (elapsed : Time) : Store := { s with now := s.now + elapsed }

/-- A new row of the outbox. -/
def newRow (now : Time) (e : OutboxEvent) : OutboxRow := ⟨e, now, none, 0, now⟩

/-- A call of the discussion service. The rows of its events have the defaults of the other columns. -/
def serve (s : Store) (c : Call) : Store :=
  { s with
    db := s.db.step c
    outbox := ((s.db.step c).outbox.rows.drop s.outbox.rows.length).foldl
      (fun rows e => rows.insert (newRow s.now e)) s.outbox }

/-- `delivered_at IS NULL AND next_attempt_at <= now()`, of the rows that are not locked. -/
def due (s : Store) : List OutboxRow :=
  s.outbox.select fun r =>
    decide (r.deliveredAt = none ∧ r.nextAttemptAt ≤ s.now ∧ r.event.id ∉ s.rowLocks)

/-- The message is still delivered. -/
def Open (s : Store) (i : Nat) : Prop := i ∉ s.acknowledged ∧ i ∉ s.terminated

instance (s : Store) (i : Nat) : Decidable (s.Open i) := inferInstanceAs (Decidable (_ ∧ _))

end Store

/-! ## The tasks

What a worker, a consumer or a reader is about to do, with all that it has read. -/

/-- A transaction of the outbox worker: its time, the rows it has locked, and what became of those that it has tried. -/
structure Batch where
  startedAt : Time
  locked : List Id
  outcomes : List (Id × Bool)
  deriving DecidableEq

/-- The row after the statement for its outcome. -/
def OutboxRow.tried (r : OutboxRow) (startedAt : Time) : Option Bool → OutboxRow
  | none => r
  | some true => { r with deliveredAt := some startedAt }
  | some false => { r with attempts := r.attempts + 1, nextAttemptAt := startedAt + 5000 }

/-- An attempt to deliver changes no event. -/
@[simp] theorem OutboxRow.tried_event (r : OutboxRow) (startedAt : Time) (outcome : Option Bool) :
    (r.tried startedAt outcome).event = r.event := by
  cases outcome with
  | none => rfl
  | some acked => cases acked <;> rfl

inductive Request where
  | call (c : Call)
  /-- A round of the outbox worker. -/
  | deliver
  /-- A delivery of the message at a position of the stream. -/
  | message (i : Nat)
  | markRead (recipientId : String) (id : Nat)

inductive Task where
  | call (c : Call)
  | select
  | publish (b : Batch) (rest : List OutboxEvent)
  | update (b : Batch) (row : OutboxEvent) (acked : Bool) (rest : List OutboxEvent)
  | receive (i : Nat)
  | existsBy (i : Nat) (event : DomainEvent)
  | display (i : Nat) (event : DomainEvent) (actorId : String)
  | claim (i : Nat) (event : DomainEvent) (data : Fields) (startedAt : Option Time)
  | save (i : Nat) (event : DomainEvent) (data : Fields) (startedAt : Time)
  | respond (i : Nat) (saved : Option Notification)
  | find (recipientId : String) (id : Nat)
  | mark (recipientId : String) (id : Nat)
  | reread (recipientId : String) (id : Nat)

/-- The rows of the outbox that the task has locked. -/
def Task.locked : Task → List Id
  | .publish b _ | .update b _ _ _ => b.locked
  | _ => []

/-- The event that the task has claimed. -/
def Task.claimed : Task → List String
  | .save _ event _ _ => [event.eventId]
  | _ => []

/-- What a statement takes from outside. -/
structure Input where
  elapsed : Time := 0
  /-- The statement fails, or the process dies. -/
  fails : Bool := false
  /-- The stream stores the message, and the publisher learns of it. -/
  stored : Bool := true
  confirmed : Bool := true
  /-- The stream learns that the consumer has settled the message. -/
  received : Bool := true
  display : DisplayReply := .unreachable

/-- What a request ends with. -/
inductive Answer where
  | served (result : Except HttpError Response)
  | read (result : Except String Notification)

abbrev Step := Effect Store Task Answer

section

variable (sp : Spelling) (x : Input) (s : Store)

/-- The message that the stream stores when it is published. -/
def sentBy : Task → List Message
  | .publish _ (row :: _) => if x.stored then [sp.message row] else []
  | _ => []

/-- The stores with the message that the task publishes, if it is to publish one. -/
def sent (t : Task) : Store := { s with stream := s.stream ++ sentBy sp x t }

/-- The task ends, and with it what its transaction holds. -/
def stop (t : Task) : Step :=
  ⟨{ s with
      rowLocks := s.rowLocks.filter fun k => decide (k ∉ t.locked)
      claims := s.claims.filter fun k => decide (k ∉ t.claimed) }, [], none⟩

/-! ## The outbox worker

One round of the worker: a batch of rows is locked and read, each row is published and then marked, and the
transaction commits. -/

/-- `SELECT … ORDER BY created_at LIMIT 20 FOR UPDATE SKIP LOCKED`. -/
def select : Step :=
  let rows := (s.due.take 20).map (·.event)
  let ids := rows.map (·.id)
  ⟨{ s with rowLocks := ids ++ s.rowLocks }, [.publish ⟨s.now, ids, []⟩ rows], none⟩

/-- The end of the loop over the rows, and `COMMIT`. -/
def commitBatch (b : Batch) : Step :=
  ⟨{ s with
      outbox := s.outbox.modify (fun r => r.tried b.startedAt (b.outcomes.lookup r.event.id)) (by simp)
      rowLocks := s.rowLocks.filter fun k => decide (k ∉ b.locked) }, [], none⟩

/-- `nats.publish(row.event_type, row.payload, row.id)`, and what the worker learns of it. -/
def publishRow (b : Batch) (row : OutboxEvent) (rest : List OutboxEvent) : Step :=
  ⟨sent sp x s (.publish b (row :: rest)), [.update b row (x.stored && x.confirmed) rest], none⟩

/-- The statement for a row that was confirmed, or the one in the handler. -/
def updateRow (b : Batch) (row : OutboxEvent) (acked : Bool) (rest : List OutboxEvent) : Step :=
  ⟨s, [.publish { b with outcomes := b.outcomes ++ [(row.id, acked)] } rest], none⟩

/-! ## The consumer

A delivery: the message is decoded, its recipient resolved, the event claimed and the notification saved, before the
message is acknowledged. -/

/-- The end of a delivery: `ack`, or `term`. -/
def acknowledge (i : Nat) : Store :=
  { s with acknowledged := if x.received then i :: s.acknowledged else s.acknowledged }

def terminate (i : Nat) : Store := { s with terminated := if x.received then i :: s.terminated else s.terminated }

/-- A message comes in. -/
def receive (i : Nat) : Step :=
  match s.stream[i]? with
  | none => ⟨s, [], none⟩
  | some m =>
    if s.Open i then
      match decode m with
      | .error _ => ⟨terminate x s i, [], none⟩
      | .ok event => if event.recipientId = "" then ⟨s, [.respond i none], none⟩ else ⟨s, [.existsBy i event], none⟩
    else ⟨s, [], none⟩

/-- `existsBy(InboxEvent, { eventId })`, and what the event type asks for. -/
def lookUp (i : Nat) (event : DomainEvent) : Step :=
  if (s.inbox.get? event.eventId).isSome then ⟨s, [.respond i none], none⟩
  else match authorship event with
    | .keep => ⟨s, [.claim i event event.data none], none⟩
    | .mask => ⟨s, [.claim i event (masked event.data) none], none⟩
    | .resolve actorId => ⟨s, [.display i event actorId], none⟩

/-- The display name of the author. -/
def resolve (i : Nat) (event : DomainEvent) : Step :=
  match named event.data x.display with
  | .error _ => ⟨s, [], none⟩
  | .ok data => ⟨s, [.claim i event data none], none⟩

/-- `INSERT … ON CONFLICT DO NOTHING RETURNING`, which waits for another transaction that has claimed the event. -/
def claim (i : Nat) (event : DomainEvent) (data : Fields) (startedAt : Option Time) : Step :=
  let began := startedAt.getD s.now
  if event.eventId ∈ s.claims then ⟨s, [.claim i event data (some began)], none⟩
  else if (s.inbox.get? event.eventId).isSome then ⟨s, [.respond i none], none⟩
  else ⟨{ s with claims := event.eventId :: s.claims }, [.save i event data began], none⟩

/-- `INSERT` of the notification, and `COMMIT`. -/
def save (i : Nat) (event : DomainEvent) (data : Fields) (startedAt : Time) : Step :=
  ⟨{ s with
      claims := s.claims.filter fun k => decide (k ≠ event.eventId)
      inbox := s.inbox.insert ⟨event.eventId, startedAt⟩
      notifications := s.notifications.insert (newNotification event data startedAt) (newNotification_id _ _ _) },
    [.respond i (some (newNotification event data startedAt s.notifications.next))], none⟩

/-- The notification goes to the streams of the users, and the message is acknowledged. -/
def respond (i : Nat) (saved : Option Notification) : Step :=
  ⟨{ acknowledge x s i with published := s.published ++ saved.toList }, [], none⟩

/-! ## Users who read

`markRead`: the row is looked up for the user, updated, and read again for the answer. -/

/-- `findOneBy({ id, recipientId })`. -/
def Store.notificationOf (recipientId : String) (id : Nat) : Option Notification :=
  (s.notifications.get? id).filter fun n => decide (n.recipientId = recipientId)

def findOneBy (recipientId : String) (id : Nat) : Step :=
  match s.notificationOf recipientId id with
  | none => ⟨s, [], some (.read (.error "Notification not found"))⟩
  | some _ => ⟨s, [.mark recipientId id], none⟩

/-- `UPDATE … SET "readAt" = COALESCE("readAt", CURRENT_TIMESTAMP)`. -/
def markRow (recipientId : String) (id : Nat) : Step :=
  ⟨{ s with
      notifications := s.notifications.modify
        (fun n => if n.id = id ∧ n.recipientId = recipientId then n.markedRead s.now else n)
        (by intro n; split <;> rfl) }, [.reread recipientId id], none⟩

def reread (recipientId : String) (id : Nat) : Step :=
  match s.notificationOf recipientId id with
  | none => ⟨s, [], some (.read (.error "Notification not found"))⟩
  | some n => ⟨{ s with published := s.published ++ [n] }, [], some (.read (.ok n))⟩

/-! ## The pipeline

All of them as one program, whose requests are what starts a task and whose input is what the outside answers. -/

/-- The next statement of a task, when nothing fails. -/
def proceed : Task → Step
  | .call c => ⟨s.serve c, [], some (.served (AcaSocial.serve s.db c).result)⟩
  | .select => select s
  | .publish b [] => commitBatch s b
  | .publish b (row :: rest) => publishRow sp x s b row rest
  | .update b row acked rest => updateRow s b row acked rest
  | .receive i => receive x s i
  | .existsBy i event => lookUp s i event
  | .display i event _ => resolve x s i event
  | .claim i event data startedAt => claim s i event data startedAt
  | .save i event data startedAt => save s i event data startedAt
  | .respond i saved => respond x s i saved
  | .find recipientId id => findOneBy s recipientId id
  | .mark recipientId id => markRow s recipientId id
  | .reread recipientId id => reread s recipientId id

/-- The next statement of a task. A call of the discussion service is one transaction, which `serve` decides about. -/
def statement (t : Task) : Step :=
  match t with
  | .call c => proceed sp x s (.call c)
  | t => if x.fails then stop (sent sp x s t) t else proceed sp x s t

end

def enter : Request → Task
  | .call c => .call c
  | .deliver => .select
  | .message i => .receive i
  | .markRead recipientId id => .find recipientId id

/-- The two services and the stream. -/
def pipeline (sp : Spelling) : Program Store Request Task Input Answer where
  enter := enter
  exec x s := statement sp x (s.wait x.elapsed)

end AcaSocial.Notifications
