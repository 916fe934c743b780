import AcaSocial.Academic.AcademicService

/-!
# Courses of curricula

The rest of `academic.service.ts`: courses, the courses of a curriculum, the topics of a course, and what other services
ask for.

* **`Catalogue`** — all tables of the service, around those of `AcademicService.lean`.
* **`Catalogue.context`**, **`Catalogue.major`** — the answers to other services.
* **`CatalogueOperation`**, **`Catalogue.step`** — the service with all its requests.
-/

namespace AcaSocial.Academic

/-! ## Rows

Courses, their place in a curriculum, and their topics. -/

inductive CourseType where
  | required
  | elective
deriving DecidableEq

structure Course where
  id : Id
  code : Option String
  name : String
  description : String
  status : CatalogStatus
deriving DecidableEq

structure CurriculumCourse where
  id : Id
  curriculumId : Id
  courseId : Id
  courseType : CourseType
  recommendedSemester : Option Nat
  displayOrder : Nat
deriving DecidableEq

structure CourseTopic where
  courseId : Id
  topicId : Id
  relevanceWeight : Rat
deriving DecidableEq

/-- `@Unique(['courseId', 'topicId'])`. -/
def CourseTopic.key (t : CourseTopic) : Id × Id := (t.courseId, t.topicId)

structure Catalogue where
  db : Db
  courses : Serial Course Course.id
  curriculumCourses : Serial CurriculumCourse CurriculumCourse.id
  courseTopics : Table (Id × Id) CourseTopic CourseTopic.key

def Catalogue.empty : Catalogue := ⟨.empty, ∅, ∅, ∅⟩

/-! ## Requests

The bodies of the requests, and what a context answers. -/

structure CurriculumCourseDto where
  curriculumId : UuidText
  courseId : UuidText
  courseType : CourseType
  recommendedSemester : Option Nat := none
  displayOrder : Option Nat := none

structure CourseTopicItem where
  topicId : UuidText
  relevanceWeight : Option Rat := none

/-- What `context` answers. -/
structure Context where
  curriculumCourseId : Id
  majorId : Id
  curriculumId : Id
  courseId : Id
  major : Major
  curriculum : Curriculum
  course : Course
  allowedTopics : List CourseTopic
deriving DecidableEq

/-! ## Methods

The methods of `AcademicService` on these tables. -/

namespace Catalogue

variable (s : Catalogue)

/-- `createCatalog('course', dto)`. -/
def createCourse (dto : CatalogDto) : Except HttpError (Catalogue × Course) := do
  require (¬ s.courses.rows.any fun c => decide (c.code = some dto.code)) (.conflict "course code already exists")
  let course : Id → Course := fun id => ⟨id, some dto.code, dto.name, dto.description.getD "", dto.status.getD .active⟩
  return ({ s with courses := s.courses.insert course fun _ => rfl }, course s.courses.next)

/-- `updateCatalog('course', id, dto)`. -/
def updateCourse (id : UuidText) (dto : UpdateCatalogDto) : Except HttpError (Catalogue × Course) := do
  let item ← orThrow (s.courses.get? id.id) (.notFound "course not found")
  let item := { item with
    name := dto.name.getD item.name
    description := dto.description.getD item.description
    status := dto.status.getD item.status }
  return ({ s with courses := s.courses.save item }, item)

/-- The two checks run side by side, and the first failure is reported. -/
def addCurriculumCourse (dto : CurriculumCourseDto) : Except HttpError (Catalogue × CurriculumCourse) := do
  require (s.db.curricula.get? dto.curriculumId.id).isSome (.notFound "Curriculum not found")
  require (s.courses.get? dto.courseId.id).isSome (.notFound "Course not found")
  require (¬ s.curriculumCourses.rows.any fun c => decide (c.curriculumId = dto.curriculumId.id
    ∧ c.courseId = dto.courseId.id)) (.conflict "Course already belongs to this curriculum")
  let item : Id → CurriculumCourse := fun id =>
    { id
      curriculumId := dto.curriculumId.id
      courseId := dto.courseId.id
      courseType := dto.courseType
      recommendedSemester := dto.recommendedSemester
      displayOrder := dto.displayOrder.getD 0 }
  return ({ s with curriculumCourses := s.curriculumCourses.insert item fun _ => rfl }, item s.curriculumCourses.next)

/-- The topics of a course. -/
def topicsOf (courseId : Id) : List CourseTopic := s.courseTopics.select fun t => decide (t.courseId = courseId)

/-- Topics that are named twice are found as the request spells them, and topics that are named in two spellings by the
number of rows. -/
def setCourseTopics (courseId : UuidText) (items : List CourseTopicItem) :
    Except HttpError (Catalogue × List CourseTopic) := do
  require (s.courses.get? courseId.id).isSome (.notFound "Course not found")
  let ids := (items.map (·.topicId)).eraseDups
  require (ids.length = items.length) (.badRequest "Duplicate topic")
  let topics := s.db.topics.select fun t => decide (t.id ∈ ids.map (·.id))
  require (topics.length = ids.length ∧ ¬ topics.any fun t => decide (t.status ≠ .active))
    (.badRequest "One or more active topics do not exist")
  let rows := items.map fun item => ⟨courseId.id, item.topicId.id, item.relevanceWeight.getD 1⟩
  let s := { s with
    courseTopics := rows.foldl Table.insert (s.courseTopics.erase fun t => decide (t.courseId = courseId.id)) }
  return (s, s.topicsOf courseId.id)

/-- What becomes of a relation that leads nowhere. -/
def dangling : HttpError := .internal "Cannot read properties of null"

def context (curriculumCourseId : UuidText) : Except HttpError Context := do
  let item ← orThrow (s.curriculumCourses.get? curriculumCourseId.id) (.notFound "Curriculum course not found")
  let course ← orThrow (s.courses.get? item.courseId) dangling
  let curriculum ← orThrow (s.db.curricula.get? item.curriculumId) dangling
  let major ← orThrow (s.db.majors.get? curriculum.majorId) dangling
  require (course.status = .active ∧ curriculum.status = .active ∧ major.status = .active)
    (.notFound "Active academic context not found")
  let topicRows := s.topicsOf item.courseId
  -- the status of every topic is read
  require (∀ row ∈ topicRows, (s.db.topics.get? row.topicId).isSome) dangling
  let allowedTopics := topicRows.filter fun row =>
    (s.db.topics.get? row.topicId).any fun t => decide (t.status = .active)
  return ⟨item.id, curriculum.majorId, item.curriculumId, item.courseId, major, curriculum, course, allowedTopics⟩

def major (id : UuidText) : Except HttpError Major := do
  let major ← orThrow (s.db.majors.get? id.id) (.notFound "Active major not found")
  require (major.status = .active) (.notFound "Active major not found")
  return major

end Catalogue

/-! ## The service as a transition system

One call after the other; a call that fails leaves the tables as they were. -/

/-- A request of an administrator. -/
inductive CatalogueOperation where
  | plain (o : Operation)
  | createCourse (dto : CatalogDto)
  | updateCourse (id : UuidText) (dto : UpdateCatalogDto)
  | addCurriculumCourse (dto : CurriculumCourseDto)
  | setCourseTopics (id : UuidText) (items : List CourseTopicItem)

inductive CatalogueResponse where
  | plain (r : Response)
  | course (c : Course)
  | curriculumCourse (c : CurriculumCourse)
  | courseTopics (topics : List CourseTopic)
deriving DecidableEq

structure CatalogueCall where
  user : GatewayUser
  operation : CatalogueOperation

def CatalogueOperation.perform (s : Catalogue) : CatalogueOperation → Except HttpError (Catalogue × CatalogueResponse)
  | .plain o => (o.perform s.db).map fun (db, r) => ({ s with db }, .plain r)
  | .createCourse dto => (s.createCourse dto).map fun (s, c) => (s, .course c)
  | .updateCourse id dto => (s.updateCourse id dto).map fun (s, c) => (s, .course c)
  | .addCurriculumCourse dto => (s.addCurriculumCourse dto).map fun (s, c) => (s, .curriculumCourse c)
  | .setCourseTopics id items => (s.setCourseTopics id items).map fun (s, topics) => (s, .courseTopics topics)

def Catalogue.serve (s : Catalogue) (c : CatalogueCall) : Outcome Catalogue HttpError CatalogueResponse :=
  let body := do
    let _ ← requireAdmin c.user
    c.operation.perform s
  commit s body fun _ response => .ok response

def Catalogue.step (s : Catalogue) (c : CatalogueCall) : Catalogue := (s.serve c).state

end AcaSocial.Academic
