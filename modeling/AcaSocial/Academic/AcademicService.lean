import AcaSocial.Base.Guard
import AcaSocial.Base.Run
import AcaSocial.Discussion.Entities

/-!
# The academic catalogue

`academic.service.ts` behind `academic.controller.ts`: majors, their curricula, and the topics.

* **`Major`**, **`Curriculum`**, **`Topic`** — the rows, with the columns that the methods read.
* **`AcademicService`** — the methods that write them. Every method that is reached through the
  controller starts with `requireAdmin`.
* **`Operation`**, **`Db.step`** — the service as a transition system whose calls are atomic.

A database reads ids back in lower case, and a request may spell them as it likes.
-/

namespace AcaSocial.Academic

/-! ## Rows

The tables of the service. -/

inductive CatalogStatus where
  | active
  | inactive
deriving DecidableEq

inductive CurriculumStatus where
  | draft
  | active
  | retired
deriving DecidableEq

structure Major where
  id : Id
  code : String
  name : String
  description : String
  status : CatalogStatus
deriving DecidableEq

structure Curriculum where
  id : Id
  trainingProgramId : Option Id
  majorId : Id
  version : String
  effectiveYear : Nat
  status : CurriculumStatus
deriving DecidableEq

structure Topic where
  id : Id
  code : String
  name : String
  description : String
  parentTopicId : Option Id
  status : CatalogStatus
deriving DecidableEq

structure Db where
  majors : Serial Major Major.id
  curricula : Serial Curriculum Curriculum.id
  topics : Serial Topic Topic.id

def Db.empty : Db := ⟨∅, ∅, ∅⟩

/-! ## Requests

The dtos of its methods. -/

structure CatalogDto where
  code : String
  name : String
  description : Option String := none
  status : Option CatalogStatus := none

structure UpdateCatalogDto where
  name : Option String := none
  description : Option String := none
  status : Option CatalogStatus := none

structure CurriculumDto where
  majorId : UuidText
  version : String
  effectiveYear : Nat
  status : Option CurriculumStatus := none

structure TopicDto where
  code : String
  name : String
  description : Option String := none
  parentTopicId : Option UuidText := none
  status : Option CatalogStatus := none

/-- `parentTopicId` may be left out, `null`, or an id. -/
structure UpdateTopicDto extends UpdateCatalogDto where
  parentTopicId : Option (Option UuidText) := none

/-! ## Methods

The methods on majors, curricula and topics. -/

/-- What PostgreSQL answers to a row whose unique columns are taken. -/
def duplicateKey : HttpError := .internal "duplicate key value violates unique constraint"

def requireAdmin (user : GatewayUser) : Except HttpError Id := do
  let id ← orThrow user.id (.unauthorized "Authentication required")
  require (user.role = some .admin) (.forbidden "Admin role required")
  return id

namespace AcademicService

/-- `createCatalog('major', dto)`. -/
def createMajor (s : Db) (dto : CatalogDto) : Except HttpError (Db × Major) := do
  require (¬ s.majors.rows.any fun m => decide (m.code = dto.code)) (.conflict "major code already exists")
  let major : Id → Major := fun id =>
    ⟨id, dto.code, dto.name, dto.description.getD "", dto.status.getD .active⟩
  return ({ s with majors := s.majors.insert major fun _ => rfl }, major s.majors.next)

/-- `updateCatalog('major', id, dto)`. -/
def updateMajor (s : Db) (id : UuidText) (dto : UpdateCatalogDto) : Except HttpError (Db × Major) := do
  let item ← orThrow (s.majors.get? id.id) (.notFound "major not found")
  let item := { item with
    name := dto.name.getD item.name
    description := dto.description.getD item.description
    status := dto.status.getD item.status }
  return ({ s with majors := s.majors.save item }, item)

/-- The check for another active curriculum reads one row that is active, whichever comes first. -/
def updateCurriculumStatus (s : Db) (id : UuidText) (status : CurriculumStatus) :
    Except HttpError (Db × Curriculum) := do
  let curriculum ← orThrow (s.curricula.get? id.id) (.notFound "Curriculum not found")
  if status = .active then
    let other := s.curricula.rows.find? fun c =>
      decide (c.majorId = curriculum.majorId ∧ c.status = .active)
    require (¬ other.any fun c => decide (Id.text c.id ≠ id))
      (.conflict "This major already has an active curriculum")
  let curriculum := { curriculum with status }
  return ({ s with curricula := s.curricula.save curriculum }, curriculum)

/-- `version` is unique among the curricula of a major that belong to no training program. -/
def createCurriculum (s : Db) (dto : CurriculumDto) : Except HttpError (Db × Curriculum) := do
  require (s.majors.get? dto.majorId.id).isSome (.notFound "Major not found")
  require (¬ s.curricula.rows.any fun c => decide (c.trainingProgramId = none
    ∧ c.majorId = dto.majorId.id ∧ c.version = dto.version)) duplicateKey
  let curriculum : Id → Curriculum := fun id =>
    ⟨id, none, dto.majorId.id, dto.version, dto.effectiveYear, dto.status.getD .draft⟩
  return ({ s with curricula := s.curricula.insert curriculum fun _ => rfl },
    curriculum s.curricula.next)

/-- `exists(Topic, id, 'Parent topic')`, when a parent is named. -/
def requireParent (s : Db) (parentTopicId : Option UuidText) : Except HttpError Unit :=
  match parentTopicId with
  | some p => require (s.topics.get? p.id).isSome (.notFound "Parent topic not found")
  | none => .ok ()

def createTopic (s : Db) (dto : TopicDto) : Except HttpError (Db × Topic) := do
  requireParent s dto.parentTopicId
  require (¬ s.topics.rows.any fun t => decide (t.code = dto.code)) duplicateKey
  let topic : Id → Topic := fun id =>
    { id
      code := dto.code
      name := dto.name
      description := dto.description.getD ""
      parentTopicId := dto.parentTopicId.map (·.id)
      status := dto.status.getD .active }
  return ({ s with topics := s.topics.insert topic fun _ => rfl }, topic s.topics.next)

/-- The parent is compared with the topic as the two ids are spelled. -/
def updateTopic (s : Db) (id : UuidText) (dto : UpdateTopicDto) : Except HttpError (Db × Topic) := do
  let topic ← orThrow (s.topics.get? id.id) (.notFound "Topic not found")
  require (dto.parentTopicId ≠ some (some id)) (.badRequest "Topic cannot be its own parent")
  requireParent s dto.parentTopicId.join
  let topic := { topic with
    name := dto.name.getD topic.name
    description := dto.description.getD topic.description
    status := dto.status.getD topic.status
    parentTopicId := match dto.parentTopicId with
      | some p => p.map (·.id)
      | none => topic.parentTopicId }
  return ({ s with topics := s.topics.save topic }, topic)

end AcademicService

/-! ## The service as a transition system

A call of an administrator changes the tables or is refused. -/

inductive Operation where
  | createMajor (dto : CatalogDto)
  | updateMajor (id : UuidText) (dto : UpdateCatalogDto)
  | createCurriculum (dto : CurriculumDto)
  | updateCurriculumStatus (id : UuidText) (status : CurriculumStatus)
  | createTopic (dto : TopicDto)
  | updateTopic (id : UuidText) (dto : UpdateTopicDto)

inductive Response where
  | major (m : Major)
  | curriculum (c : Curriculum)
  | topic (t : Topic)
deriving DecidableEq

/-- An operation and who asks for it. -/
structure Call where
  user : GatewayUser
  operation : Operation

/-- The state and the response of an operation, once the caller is admitted. -/
def Operation.perform (s : Db) : Operation → Except HttpError (Db × Response)
  | .createMajor dto => (AcademicService.createMajor s dto).map fun (s, m) => (s, .major m)
  | .updateMajor id dto => (AcademicService.updateMajor s id dto).map fun (s, m) => (s, .major m)
  | .createCurriculum dto =>
    (AcademicService.createCurriculum s dto).map fun (s, c) => (s, .curriculum c)
  | .updateCurriculumStatus id status =>
    (AcademicService.updateCurriculumStatus s id status).map fun (s, c) => (s, .curriculum c)
  | .createTopic dto => (AcademicService.createTopic s dto).map fun (s, t) => (s, .topic t)
  | .updateTopic id dto => (AcademicService.updateTopic s id dto).map fun (s, t) => (s, .topic t)

def serve (s : Db) (c : Call) : Outcome Db HttpError Response :=
  let body := do
    let _ ← requireAdmin c.user
    c.operation.perform s
  commit s body fun _ response => .ok response

def Db.step (s : Db) (c : Call) : Db := (serve s c).state

/-- The guard lets administrators through. -/
@[simp] theorem requireAdmin_eq_ok {user : GatewayUser} {i : Id} :
    requireAdmin user = .ok i ↔ user.id = some i ∧ user.role = some .admin := by
  simp only [requireAdmin, bind_eq_ok, orThrow_eq_ok, require_eq_ok, pure_eq_ok]
  constructor
  · rintro ⟨j, hj, -, hrole, rfl⟩
    exact ⟨hj, hrole⟩
  · rintro ⟨hi, hrole⟩
    exact ⟨i, hi, (), hrole, rfl⟩

/-- An administrator is admitted, nobody else. -/
def Admitted (user : GatewayUser) : Prop := user.id.isSome ∧ user.role = some .admin

instance (user : GatewayUser) : Decidable (Admitted user) := inferInstanceAs (Decidable (_ ∧ _))

/-- A call of an administrator leaves what the operation does, and every other call leaves nothing. -/
theorem step_eq (s : Db) (c : Call) :
    s.step c = if Admitted c.user then
      match c.operation.perform s with
      | .ok (s', _) => s'
      | .error _ => s
    else s := by
  unfold Db.step serve
  by_cases hadmitted : Admitted c.user
  · rw [if_pos hadmitted]
    obtain ⟨i, hi⟩ := Option.isSome_iff_exists.mp hadmitted.1
    rw [requireAdmin_eq_ok.mpr ⟨hi, hadmitted.2⟩, ok_bind]
    cases c.operation.perform s with
    | error e => rfl
    | ok p => rfl
  · rw [if_neg hadmitted]
    refine commit_induction (P := (· = s)) rfl fun s' response hbody => ?_
    obtain ⟨i, hi, -⟩ := bind_eq_ok.mp hbody
    obtain ⟨hid, hrole⟩ := requireAdmin_eq_ok.mp hi
    exact absurd ⟨Option.isSome_of_eq_some hid, hrole⟩ hadmitted

/-! ## What the operations leave alone

Each method writes one table. -/

/-- The state after an operation, which is the state before it when the operation is refused. -/
def Operation.after (s : Db) (o : Operation) : Db :=
  match o.perform s with
  | .ok (s', _) => s'
  | .error _ => s

section

variable {α : Type} {s : Db} {o : Operation} {x : Except HttpError (Db × α)} {f : α → Response}

/-- The tables after a method that succeeds. -/
theorem Operation.after_ok (h : o.perform s = x.map fun p => (p.1, f p.2)) {p : Db × α} (hx : x = .ok p) :
    o.after s = p.1 := by
  rw [Operation.after, h, hx]
  rfl

/-- The tables after a method that fails. -/
theorem Operation.after_error (h : o.perform s = x.map fun p => (p.1, f p.2)) {e : HttpError}
    (hx : x = .error e) : o.after s = s := by
  rw [Operation.after, h, hx]
  rfl

/-- What an operation leaves alone when it goes through, it leaves alone. -/
theorem after_frame {β : Type} {F : Db → β} (h : o.perform s = x.map fun p => (p.1, f p.2))
    (hx : ∀ p, x = .ok p → F p.1 = F s) : F (o.after s) = F s := by
  cases hx' : x with
  | error e => rw [Operation.after_error h hx']
  | ok p =>
    rw [Operation.after_ok h hx']
    exact hx p hx'

/-- A new major leaves the curricula and the topics. -/
theorem createMajor_frame {dto : CatalogDto} {p : Db × Major}
    (h : AcademicService.createMajor s dto = .ok p) : p.1.curricula = s.curricula ∧ p.1.topics = s.topics := by
  simp only [AcademicService.createMajor, bind_eq_ok, pure_eq_ok] at h
  obtain ⟨-, -, rfl⟩ := h
  exact ⟨rfl, rfl⟩

/-- An edit of a major leaves the curricula and the topics. -/
theorem updateMajor_frame {id : UuidText} {dto : UpdateCatalogDto} {p : Db × Major}
    (h : AcademicService.updateMajor s id dto = .ok p) : p.1.curricula = s.curricula ∧ p.1.topics = s.topics := by
  simp only [AcademicService.updateMajor, bind_eq_ok, pure_eq_ok] at h
  obtain ⟨-, -, rfl⟩ := h
  exact ⟨rfl, rfl⟩

/-- A new curriculum leaves the topics. -/
theorem topics_createCurriculum {dto : CurriculumDto} {p : Db × Curriculum}
    (h : AcademicService.createCurriculum s dto = .ok p) : p.1.topics = s.topics := by
  simp only [AcademicService.createCurriculum, bind_eq_ok, pure_eq_ok] at h
  obtain ⟨-, -, -, -, rfl⟩ := h
  rfl

/-- A status of a curriculum leaves the topics. -/
theorem topics_updateCurriculumStatus {id : UuidText} {status : CurriculumStatus} {p : Db × Curriculum}
    (h : AcademicService.updateCurriculumStatus s id status = .ok p) : p.1.topics = s.topics := by
  simp only [AcademicService.updateCurriculumStatus, bind_eq_ok] at h
  obtain ⟨c, -, h⟩ := h
  split at h
  · obtain ⟨-, -, h⟩ := bind_eq_ok.mp h
    rw [← pure_eq_ok.mp h]
  · rw [← pure_eq_ok.mp h]

/-- A new topic leaves the curricula. -/
theorem curricula_createTopic {dto : TopicDto} {p : Db × Topic}
    (h : AcademicService.createTopic s dto = .ok p) : p.1.curricula = s.curricula := by
  simp only [AcademicService.createTopic, bind_eq_ok, pure_eq_ok] at h
  obtain ⟨-, -, -, -, rfl⟩ := h
  rfl

/-- An edit of a topic leaves the curricula. -/
theorem curricula_updateTopic {id : UuidText} {dto : UpdateTopicDto} {p : Db × Topic}
    (h : AcademicService.updateTopic s id dto = .ok p) : p.1.curricula = s.curricula := by
  simp only [AcademicService.updateTopic, bind_eq_ok, pure_eq_ok] at h
  obtain ⟨-, -, -, -, -, -, rfl⟩ := h
  rfl

end

end AcaSocial.Academic
