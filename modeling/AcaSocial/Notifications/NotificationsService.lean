import AcaSocial.Base.Table
import AcaSocial.Base.Text

/-!
# Notifications

`notifications/domain-event.ts`, `notifications/notification-content.ts` and the pure parts of
`notifications/notifications.service.ts`: what an event has to look like, and what becomes of it.

* **`Unknown`**, **`Fields`** — a value of `Record<string, unknown>`, and the record.
* **`validateDomainEvent`** — the events that are let in; **`DomainEvent`** is what it lets in.
* **`contextualBody`**, **`titleFor`**, **`bodyFor`** — the texts of a notification.
* **`masked`**, **`named`** — the data of an event after the consumer has looked at its author.
* **`newNotification`** — the row that is saved.
-/

namespace AcaSocial.Notifications

/-- Milliseconds. -/
abbrev Time := Nat

/-! ## Events

The events as the consumer receives them, and what makes one valid. -/

/-- A value of `unknown`. -/
inductive Unknown where
  | null
  | bool (b : Bool)
  | string (text : String)
  /-- A number, an array or an object, as `String` shows it. -/
  | other (shown : String)
  deriving DecidableEq

/-- `Record<string, unknown>`: the fields that are present. -/
abbrev Fields := List (String × Unknown)

/-- A member of the object that `JSON.parse` gives. -/
inductive Member where
  | value (v : Unknown)
  /-- An object that is no array. -/
  | record (fields : Fields)
  deriving DecidableEq

/-- The data of a message. -/
inductive Payload where
  /-- `JSON.parse` fails. -/
  | malformed
  /-- A primitive value, `null` or an array. -/
  | value
  | object (members : List (String × Member))
  deriving DecidableEq

structure DomainEvent where
  eventId : String
  eventType : String
  data : Fields
  deriving DecidableEq

/-- The errors of the consumer: an `InvalidDomainEventError`, and any other. -/
inductive ConsumerError where
  | invalidDomainEvent (message : String)
  | failed (message : String)
  deriving DecidableEq

/-- `text.trim()` is not empty. -/
def filled (text : String) : Bool := !(Text.trim text.toList).isEmpty

/-- `String(value)`. -/
def Unknown.text : Unknown → String
  | .null => "null"
  | .bool b => if b then "true" else "false"
  | .string text => text
  | .other shown => shown

/-- The value of a field that is neither `null` nor missing. -/
def Fields.present (data : Fields) (field : String) : Option Unknown :=
  (data.lookup field).filter fun v => decide (v ≠ .null)

/-- `event.data.recipientId ?? event.data.receiverId`. -/
def recipient (data : Fields) : Option Unknown :=
  (data.present "recipientId").or (data.present "receiverId")

/-- `typeof value === 'string' && value.trim()`. -/
def Member.filledString : Member → Option String
  | .value (.string text) => if filled text then some text else none
  | _ => none

/-- `validateDomainEvent(value)`, with the event if it is one. -/
def validateDomainEvent : Payload → Except ConsumerError DomainEvent
  | .malformed => .error (.invalidDomainEvent "Invalid event JSON")
  | .value => .error (.invalidDomainEvent "Invalid event envelope")
  | .object members =>
    match (members.lookup "eventId").bind Member.filledString,
        (members.lookup "eventType").bind Member.filledString, members.lookup "data" with
    | some eventId, some eventType, some (.record data) =>
      match recipient data with
      | none => .ok ⟨eventId, eventType, data⟩
      | some (.string recipientId) =>
        if filled recipientId then .ok ⟨eventId, eventType, data⟩
        else .error (.invalidDomainEvent "Invalid event recipient")
      | some _ => .error (.invalidDomainEvent "Invalid event recipient")
    | _, _, _ => .error (.invalidDomainEvent "Invalid event envelope")

/-- `String(event.data.recipientId ?? event.data.receiverId ?? "")`. -/
def DomainEvent.recipientId (event : DomainEvent) : String := ((recipient event.data).map Unknown.text).getD ""

/-! ## Texts

The titles and texts of notifications. -/

/-- `text(value)` of `notification-content.ts`. -/
def textOf (value : Option Unknown) : List Char :=
  match value with
  | some (.string text) => Text.trim (Text.collapse false text.toList)
  | _ => []

/-- `text.slice(0, n)` as it is stored: half a surrogate pair becomes `U+FFFD`. -/
def slice : Nat → List Char → List Char
  | _, [] => []
  | n, c :: text =>
    if n = 0 then []
    else if n < Text.utf16Size c then ['\uFFFD']
    else c :: slice (n - Text.utf16Size c) text

/-- `contextualBody(type, data)`. -/
def contextualBody (type : String) (data : Fields) : Option String :=
  let title := String.ofList (slice 300 (textOf ((data.present "discussionTitle").or (data.lookup "title"))))
  if type = "discussion.created" ∧ title ≠ "" then some ("Bạn đã tạo bài viết “" ++ title ++ "”.")
  else if type = "comment.created" then
    let actorName := String.ofList (textOf (data.lookup "actorName"))
    let actor := if data.lookup "isAnonymous" = some (.bool true) then "Người dùng ẩn danh"
      else if actorName ≠ "" then actorName else "Một người dùng"
    let post := if title ≠ "" then "bài viết “" ++ title ++ "”" else "bài viết của bạn"
    let preview := String.ofList (slice 180 (textOf (data.lookup "commentPreview")))
    some (actor ++ " đã bình luận vào " ++ post ++ "." ++ if preview ≠ "" then " “" ++ preview ++ "”" else "")
  else if type = "mention.created" then
    some (if title ≠ "" then "Bạn được nhắc đến trong “" ++ title ++ "”."
      else "Bạn được nhắc đến trong một cuộc thảo luận.")
  else none

def titles : List (String × String) :=
  [("answer.created", "Có câu trả lời mới"),
    ("answer.accepted", "Câu trả lời của bạn đã được chấp nhận"),
    ("mention.created", "Bạn được nhắc đến"),
    ("badge.awarded", "Bạn nhận được badge mới"),
    ("user.followed", "Bạn có người theo dõi mới"),
    ("discussion.created", "Bài viết mới được tạo"),
    ("comment.created", "Có bình luận mới trên bài viết của bạn")]

def titleFor (type : String) : String := (titles.lookup type).getD "Thông báo mới"

def bodies : List (String × String) :=
  [("answer.created", "Một người dùng vừa trả lời câu hỏi của bạn."),
    ("answer.accepted", "Câu trả lời của bạn vừa được chấp nhận."),
    ("mention.created", "Bạn vừa được nhắc đến trong một cuộc thảo luận."),
    ("badge.awarded", "Bạn vừa đạt được một thành tựu mới."),
    ("user.followed", "Một người dùng vừa bắt đầu theo dõi bạn."),
    ("discussion.created", "Bạn vừa tạo một bài viết mới thành công."),
    ("comment.created", "Có người vừa bình luận vào bài viết của bạn.")]

def bodyFor (type : String) : String := (bodies.lookup type).getD "Bạn có một thông báo mới trên AcaSocial."

/-! ## The author of a comment

What the consumer looks up of an author, and what it leaves out when the author is masked. -/

/-- `data[field] = value`. -/
def Fields.set (data : Fields) (field : String) (value : Unknown) : Fields :=
  data.filter (fun f => decide (f.1 ≠ field)) ++ [(field, value)]

/-- `delete data[field]`. -/
def Fields.delete (data : Fields) (field : String) : Fields := data.filter fun f => decide (f.1 ≠ field)

/-- The data of an anonymous comment. -/
def masked (data : Fields) : Fields := ((data.set "actorId" .null).delete "actorName").delete "senderId"

/-- What the consumer does with the author of an event. -/
inductive Authorship where
  /-- The data are stored as they are. -/
  | keep
  /-- The author is taken out. -/
  | mask
  /-- The display name of this user is asked for. -/
  | resolve (actorId : String)
  deriving DecidableEq

/-- The branches of `processEvent` on the event type and `data.isAnonymous`. -/
def authorship (event : DomainEvent) : Authorship :=
  if event.eventType = "comment.created" then
    match event.data.lookup "isAnonymous", event.data.lookup "actorId" with
    | some (.bool true), _ => .mask
    | some (.bool false), some (.string actorId) => .resolve actorId
    | _, _ => .keep
  else .keep

/-- What `GET /internal/users/:id/display` answers. -/
inductive DisplayReply where
  | unreachable
  | notFound
  /-- Any other status that is not `ok`. -/
  | failed (status : Nat)
  /-- `displayName` of the body, if it is a string. -/
  | ok (displayName : Option String)
  deriving DecidableEq

/-- The data with the name of the author. -/
def named (data : Fields) : DisplayReply → Except ConsumerError Fields
  | .unreachable => .error (.failed "fetch failed")
  | .notFound => .ok (data.set "actorName" (.string "Người dùng đã xóa tài khoản"))
  | .failed status => .error (.failed ("Identity display lookup failed: " ++ toString status))
  | .ok displayName =>
    match displayName with
    | some name =>
      if filled name then .ok (data.set "actorName" (.string name))
      else .error (.failed "Identity display lookup returned an invalid profile")
    | none => .error (.failed "Identity display lookup returned an invalid profile")

/-! ## Rows

The rows of the table, and how they are listed. -/

/-- A row of `inbox_events`. -/
structure InboxEvent where
  eventId : String
  processedAt : Time
  deriving DecidableEq

structure Notification where
  id : Nat
  recipientId : String
  actorId : Option String
  type : String
  title : String
  body : String
  data : Fields
  priority : String
  readAt : Option Time
  createdAt : Time
  deriving DecidableEq

/-- `optionalString(value)`. -/
def optionalString : Option Unknown → Option String
  | some (.string text) => if text ≠ "" then some text else none
  | _ => none

/-- The row that `processEvent` saves. -/
def newNotification (event : DomainEvent) (data : Fields) (now : Time) (id : Nat) : Notification where
  id := id
  recipientId := event.recipientId
  actorId := optionalString ((data.present "actorId").or (data.lookup "senderId"))
  type := event.eventType
  title := titleFor event.eventType
  body := (contextualBody event.eventType data).getD (bodyFor event.eventType)
  data := data
  priority := if "system.".toList.isPrefixOf event.eventType.toList then "high" else "normal"
  readAt := none
  createdAt := now

@[simp] theorem newNotification_id (event : DomainEvent) (data : Fields) (now : Time) (id : Nat) :
    (newNotification event data now id).id = id := rfl

/-- A row after `readAt = COALESCE("readAt", CURRENT_TIMESTAMP)`. -/
def Notification.markedRead (n : Notification) (now : Time) : Notification := { n with readAt := n.readAt.or (some now) }

/-- `find({ where: { recipientId }, order: { createdAt: "DESC" }, take: limit })`. -/
def listForUser (notifications : List Notification) (recipientId : String) (limit : Nat) : List Notification :=
  ((notifications.filter fun n => decide (n.recipientId = recipientId)).mergeSort
    fun a b => decide (b.createdAt ≤ a.createdAt)).take limit

/-! ## Fields

The payload as a list of fields. -/

theorem lookup_filter_self (data : Fields) (field : String) :
    (data.filter fun f => decide (f.1 ≠ field)).lookup field = none := by
  rw [List.lookup_eq_none_iff]
  intro f hf
  have hne := of_decide_eq_true (List.mem_filter.mp hf).2
  simpa using Ne.symm hne

theorem lookup_filter_of_ne (data : Fields) {field other : String} (hne : other ≠ field) :
    (data.filter fun f => decide (f.1 ≠ field)).lookup other = data.lookup other := by
  induction data with
  | nil => rfl
  | cons f data ih =>
    obtain ⟨key, v⟩ := f
    by_cases hkey : key = field
    · subst hkey
      rw [List.filter_cons_of_neg (by simp), ih, List.lookup_cons, beq_false_of_ne hne]
    · rw [List.filter_cons_of_pos (by simpa using hkey), List.lookup_cons, List.lookup_cons, ih]

@[simp] theorem lookup_set_self (data : Fields) (field : String) (v : Unknown) :
    (data.set field v).lookup field = some v := by
  rw [Fields.set, List.lookup_append, lookup_filter_self]
  simp

/-- To set a field leaves the others. -/
theorem lookup_set_of_ne (data : Fields) {field other : String} (v : Unknown) (hne : other ≠ field) :
    (data.set field v).lookup other = data.lookup other := by
  rw [Fields.set, List.lookup_append, lookup_filter_of_ne data hne, List.lookup_cons, beq_false_of_ne hne]
  simp

@[simp] theorem lookup_delete_self (data : Fields) (field : String) : (data.delete field).lookup field = none :=
  lookup_filter_self data field

/-- To delete a field leaves the others. -/
theorem lookup_delete_of_ne (data : Fields) {field other : String} (hne : other ≠ field) :
    (data.delete field).lookup other = data.lookup other := lookup_filter_of_ne data hne

/-- Of an anonymous comment neither the author nor a name is left. -/
theorem lookup_masked (data : Fields) :
    (masked data).lookup "actorId" = some .null ∧ (masked data).lookup "actorName" = none
      ∧ (masked data).lookup "senderId" = none := by
  refine ⟨?_, ?_, lookup_delete_self _ _⟩
  · rw [masked, lookup_delete_of_ne _ (by decide), lookup_delete_of_ne _ (by decide), lookup_set_self]
  · rw [masked, lookup_delete_of_ne _ (by decide), lookup_delete_self]

/-- A masked payload has the other fields. -/
theorem lookup_masked_of_ne (data : Fields) {field : String} (ha : field ≠ "actorId") (hn : field ≠ "actorName")
    (hs : field ≠ "senderId") : (masked data).lookup field = data.lookup field := by
  rw [masked, lookup_delete_of_ne _ hs, lookup_delete_of_ne _ hn, lookup_set_of_ne _ _ ha]

end AcaSocial.Notifications
