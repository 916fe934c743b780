import AcaSocial.Academic.ActiveCurricula
import AcaSocial.Academic.Catalogue
import AcaSocial.Academic.TopicForest
import AcaSocial.Base.References
import Mathlib.Data.List.Perm.Subperm

/-!
# What a call does to the catalogue

No method deletes a major, a curriculum, a course, a topic or a course of a curriculum, and none writes the references of
these rows again. The topics of a course are replaced as a whole.

* **`Catalogue.majorRows`** and the like — the rows that are there, with the references that they keep.
* **`Catalogue.Step`** — what a call may do to each table.
* **`Catalogue.Linked`** — every reference leads to a row.

`catalogue_step` is about every call, and `setCourseTopics_ok` about the one method that deletes.
-/

namespace AcaSocial.Academic

variable {s s' : Catalogue} {db : Db}

namespace Catalogue

/-! ## The rows that are there

Rows are never deleted but the topics of courses, so that references stay good. -/

def majorRows (s : Catalogue) : Id → Option Unit := s.db.majors.column fun _ => ()

/-- The curricula, with their majors. -/
def curriculumRows (s : Catalogue) : Id → Option Id := s.db.curricula.column Curriculum.majorId

def courseRows (s : Catalogue) : Id → Option Unit := s.courses.column fun _ => ()

def topicRows (s : Catalogue) : Id → Option Unit := s.db.topics.column fun _ => ()

/-- The courses of curricula, with the curriculum and the course. -/
def itemRows (s : Catalogue) : Id → Option (Id × Id) := s.curriculumCourses.column fun c => (c.curriculumId, c.courseId)

/-- The course and the topic are there. -/
def Covers (s : Catalogue) (t : CourseTopic) : Prop := (s.courseRows t.courseId).isSome ∧ (s.topicRows t.topicId).isSome

/-- Rows are added below rows that are there, and only topics of courses are taken away. -/
structure Step (s s' : Catalogue) : Prop where
  majors : Appends (fun _ => True) s.majorRows s'.majorRows
  curricula : Appends (fun m => (s.majorRows m).isSome) s.curriculumRows s'.curriculumRows
  courses : Appends (fun _ => True) s.courseRows s'.courseRows
  topics : Appends (fun _ => True) s.topicRows s'.topicRows
  items : Appends (fun c => (s.curriculumRows c.1).isSome ∧ (s.courseRows c.2).isSome) s.itemRows s'.itemRows
  courseTopics : ∀ t ∈ s'.courseTopics, t ∈ s.courseTopics ∨ s.Covers t

/-- Every reference leads to a row. -/
structure Linked (s : Catalogue) : Prop where
  curricula : Refers s.curriculumRows id s.majorRows
  inCurricula : Refers s.itemRows Prod.fst s.curriculumRows
  inCourses : Refers s.itemRows Prod.snd s.courseRows
  courseTopics : ∀ t ∈ s.courseTopics, s.Covers t

theorem linked_empty : Linked .empty where
  curricula _ _ h := (by cases h)
  inCurricula _ _ h := (by cases h)
  inCourses _ _ h := (by cases h)
  courseTopics _ h := absurd h List.not_mem_nil

theorem Step.refl (s : Catalogue) : Step s s :=
  ⟨.refl _ _, .refl _ _, .refl _ _, .refl _ _, .refl _ _, fun _ => .inl⟩

/-- A step keeps the references good. -/
theorem Linked.step (h : Linked s) (hstep : Step s s') : Linked s' where
  curricula := h.curricula.appends hstep.curricula hstep.majors.grows fun _ hm => hm
  inCurricula := h.inCurricula.appends hstep.items hstep.curricula.grows fun _ hc => hc.1
  inCourses := h.inCourses.appends hstep.items hstep.courses.grows fun _ hc => hc.2
  courseTopics t ht := by
    have hcovers : s.Covers t := by
      rcases hstep.courseTopics t ht with hold | hnew
      · exact h.courseTopics t hold
      · exact hnew
    exact ⟨hstep.courses.grows.isSome hcovers.1, hstep.topics.grows.isSome hcovers.2⟩

/-! ## The operations on majors, curricula and topics

What they add, and below which rows. -/

/-- Majors are added, and written over under their ids. -/
theorem majors_appends (o : Operation) : Appends (fun _ => True) (db.majors.column fun _ => ())
    ((o.after db).majors.column fun _ => ()) := by
  have hframe : (o.after db).majors = db.majors → Appends (fun _ => True) (db.majors.column fun _ => ())
      ((o.after db).majors.column fun _ => ()) := fun hsame => hsame ▸ .refl _ _
  cases o with
  | createMajor dto =>
    cases h : AcademicService.createMajor db dto with
    | error e => exact hframe (congrArg Db.majors (Operation.after_error rfl h))
    | ok p =>
      rw [Operation.after_ok rfl h]
      simp only [AcademicService.createMajor, bind_eq_ok, pure_eq_ok] at h
      obtain ⟨-, -, rfl⟩ := h
      exact .insert trivial
  | updateMajor id dto =>
    cases h : AcademicService.updateMajor db id dto with
    | error e => exact hframe (congrArg Db.majors (Operation.after_error rfl h))
    | ok p =>
      rw [Operation.after_ok rfl h]
      simp only [AcademicService.updateMajor, bind_eq_ok, orThrow_eq_ok, pure_eq_ok] at h
      obtain ⟨item, hitem, rfl⟩ := h
      exact .save hitem rfl rfl
  -- the other four write other tables
  | createCurriculum dto =>
    refine hframe (after_frame (F := Db.majors) rfl fun p h => ?_)
    simp only [AcademicService.createCurriculum, bind_eq_ok, pure_eq_ok] at h
    obtain ⟨-, -, -, -, rfl⟩ := h
    rfl
  | updateCurriculumStatus id status =>
    refine hframe (after_frame (F := Db.majors) rfl fun p h => ?_)
    obtain ⟨db', c'⟩ := p
    obtain ⟨c, -, -, rfl⟩ := updateCurriculumStatus_ok h
    rfl
  | createTopic dto =>
    refine hframe (after_frame (F := Db.majors) rfl fun p h => ?_)
    simp only [AcademicService.createTopic, bind_eq_ok, pure_eq_ok] at h
    obtain ⟨-, -, -, -, rfl⟩ := h
    rfl
  | updateTopic id dto =>
    refine hframe (after_frame (F := Db.majors) rfl fun p h => ?_)
    simp only [AcademicService.updateTopic, bind_eq_ok, pure_eq_ok] at h
    obtain ⟨-, -, -, -, -, -, rfl⟩ := h
    rfl

/-- A curriculum is added to a major that is there, and stays with it. -/
theorem curricula_appends (o : Operation) : Appends (fun m => (db.majors.column (fun _ => ()) m).isSome)
    (db.curricula.column Curriculum.majorId) ((o.after db).curricula.column Curriculum.majorId) := by
  have hstep := curricula_step db o
  generalize (o.after db).curricula = curricula at hstep
  cases hstep with
  | aside hcreate => exact .refl _ _
  | created dto h =>
    refine .insert ?_
    rw [Table.column, Option.isSome_map]
    exact h.1
  | saved id status hc hfirst => exact .save hc rfl rfl

/-- No topic goes. -/
theorem topics_appends (o : Operation) : Appends (fun _ => True) (db.topics.column fun _ => ())
    ((o.after db).topics.column fun _ => ()) := by
  have hgrows : (∀ k, (db.topics.get? k).isSome → ((o.after db).topics.get? k).isSome) →
      Appends (fun _ => True) (db.topics.column fun _ => ()) ((o.after db).topics.column fun _ => ()) := by
    intro hkept
    refine ⟨fun k c hk => ?_, fun _ _ _ => .inr trivial⟩
    obtain ⟨t₀, ht₀, -⟩ := Option.map_eq_some_iff.mp hk
    obtain ⟨t, ht⟩ := Option.isSome_iff_exists.mp (hkept k (Option.isSome_of_eq_some ht₀))
    exact Option.map_eq_some_iff.mpr ⟨t, ht, rfl⟩
  have hstep := topics_step db o
  generalize o.after db = db' at hstep hgrows
  cases hstep with
  | aside htopics _ => exact hgrows fun k hk => by rwa [htopics]
  | created dto hparent hlinks hkept => exact hgrows hkept
  | moved id dto htopic hother hparent hnew hlinks hkept => exact hgrows hkept

/-! ## The topics of a course

The rows that `setCourseTopics` writes refer to a course and to topics that are there. -/

/-- Rows under new keys go to the end of a table in their order. -/
theorem rows_foldl_insert (rows : List CourseTopic) (t : Table (Id × Id) CourseTopic CourseTopic.key)
    (hnodup : (rows.map CourseTopic.key).Nodup) (hnew : ∀ r ∈ rows, t.get? r.key = none) :
    (rows.foldl Table.insert t).rows = t.rows ++ rows := by
  induction rows generalizing t with
  | nil => exact (List.append_nil _).symm
  | cons r rows ih =>
    have hr := hnew r List.mem_cons_self
    obtain ⟨hother, hnodup⟩ := List.nodup_cons.mp hnodup
    rw [List.foldl_cons, ih _ hnodup fun r' hr' => ?_, Table.rows_insert hr, List.append_assoc]
    · rfl
    · rw [Table.get?_insert, if_neg fun hkey : r.key = r'.key => hother (hkey ▸ List.mem_map_of_mem hr')]
      exact hnew r' (List.mem_cons_of_mem r hr')

/-- Names stay in their order when repetitions go. -/
theorem eraseDups_sublist (names : List UuidText) : names.eraseDups.Sublist names := by
  induction hlength : names.length using Nat.strongRecOn generalizing names with
  | _ n ih =>
    cases names with
    | nil => exact .slnil
    | cons i names =>
      rw [List.eraseDups_cons]
      have hfilter := List.length_filter_le (fun j => !j == i) names
      have hrest := ih _ (by rw [List.length_cons] at hlength; omega) (names.filter fun j => !j == i) rfl
      exact (hrest.trans List.filter_sublist).cons_cons i

/-- As many rows as names: every name is that of a row, and no two are of the same. -/
theorem select_eq_names {t : Serial Topic Topic.id} {names : List Id}
    (hlength : names.length ≤ (t.select fun r => decide (r.id ∈ names)).length) :
    names.Nodup ∧ ∀ i ∈ names, ∃ r ∈ t.select fun r => decide (r.id ∈ names), r.id = i := by
  have hnodup : ((t.select fun r => decide (r.id ∈ names)).map Topic.id).Nodup :=
    (List.filter_sublist.map Topic.id).nodup t.nodup
  have hsub : (t.select fun r => decide (r.id ∈ names)).map Topic.id ⊆ names := by
    intro i hi
    obtain ⟨r, hr, rfl⟩ := List.mem_map.mp hi
    exact of_decide_eq_true (Table.mem_select.mp hr).2
  have hperm := (hnodup.subperm hsub).perm_of_length_le (by rwa [List.length_map])
  refine ⟨hperm.nodup_iff.mp hnodup, fun i hi => ?_⟩
  exact List.mem_map.mp (hperm.mem_iff.mpr hi)

/-- The rows that `setCourseTopics` makes of its items. -/
def newTopics (courseId : UuidText) (items : List CourseTopicItem) : List CourseTopic :=
  items.map fun item => ⟨courseId.id, item.topicId.id, item.relevanceWeight.getD 1⟩

/-- **The method that deletes.** The course has the topics of the request afterwards, each of them once, and they were
active. -/
theorem setCourseTopics_ok {courseId : UuidText} {items : List CourseTopicItem} {topics : List CourseTopic}
    (h : s.setCourseTopics courseId items = .ok (s', topics)) :
    s'.courseTopics.rows = (s.courseTopics.erase fun t => decide (t.courseId = courseId.id)).rows ++ newTopics courseId items
      ∧ s' = { s with courseTopics := s'.courseTopics } ∧ (s.courses.get? courseId.id).isSome
      ∧ ∀ item ∈ items, ∃ t, s.db.topics.get? item.topicId.id = some t ∧ t.status = .active := by
  simp only [setCourseTopics, bind_eq_ok, require_eq_ok, pure_eq_ok, Prod.mk.injEq] at h
  obtain ⟨-, hcourse, -, hspelled, -, ⟨hlength, hactive⟩, rfl, -⟩ := h
  -- nothing is named twice in one spelling, and then nothing in two
  have hids : (items.map (·.topicId)).eraseDups = items.map (·.topicId) :=
    (eraseDups_sublist _).eq_of_length (by rw [hspelled, List.length_map])
  rw [hids] at hlength hactive
  obtain ⟨hnodup, hfound⟩ := select_eq_names (Nat.le_of_eq ((List.length_map UuidText.id).trans hlength.symm))
  refine ⟨rows_foldl_insert _ _ ?_ fun r hr => ?_, rfl, hcourse, fun item hitem => ?_⟩
  · have hkeys : (newTopics courseId items).map CourseTopic.key
        = ((items.map (·.topicId)).map (·.id)).map fun i => (courseId.id, i) := by
      simp only [newTopics, List.map_map]
      rfl
    rw [newTopics] at hkeys
    rw [hkeys]
    exact hnodup.map fun _ _ hpair => (Prod.mk.inj hpair).2
  · -- the old topics of the course are gone
    obtain ⟨item, -, rfl⟩ := List.mem_map.mp hr
    rw [Table.get?_eq_none]
    intro t ht hkey
    exact of_decide_eq_false (Table.mem_erase.mp ht).2 (Prod.mk.inj hkey).1
  · obtain ⟨t, ht, hid⟩ := hfound item.topicId.id (List.mem_map_of_mem (List.mem_map_of_mem hitem))
    refine ⟨t, hid ▸ Table.get?_key (Table.mem_select.mp ht).1, ?_⟩
    by_contra hinactive
    exact hactive (List.any_eq_true.mpr ⟨t, ht, decide_eq_true hinactive⟩)

/-! ## Every call

A call is refused or is one of these steps. -/

/-- An operation that is carried out is a step. -/
theorem perform_step {o : CatalogueOperation} {r : CatalogueResponse} (h : o.perform s = .ok (s', r)) : s.Step s' := by
  cases o with
  -- the operations of the smaller model
  | plain o =>
    obtain ⟨p, hp, he⟩ := map_eq_ok.mp h
    obtain ⟨rfl, -⟩ := Prod.mk.inj he
    have hafter : o.after s.db = p.1 := by
      rw [Operation.after, hp]
    rw [← hafter]
    exact ⟨majors_appends o, curricula_appends o, .refl _ _, topics_appends o, .refl _ _, fun _ => .inl⟩
  | createCourse dto =>
    obtain ⟨p, hp, he⟩ := map_eq_ok.mp h
    obtain ⟨rfl, -⟩ := Prod.mk.inj he
    simp only [createCourse, bind_eq_ok, pure_eq_ok] at hp
    obtain ⟨-, -, rfl⟩ := hp
    exact { Step.refl s with courses := .insert trivial }
  | updateCourse id dto =>
    obtain ⟨p, hp, he⟩ := map_eq_ok.mp h
    obtain ⟨rfl, -⟩ := Prod.mk.inj he
    simp only [updateCourse, bind_eq_ok, orThrow_eq_ok, pure_eq_ok] at hp
    obtain ⟨item, hitem, rfl⟩ := hp
    exact { Step.refl s with courses := .save hitem rfl rfl }
  -- the curriculum and the course have been looked up
  | addCurriculumCourse dto =>
    obtain ⟨p, hp, he⟩ := map_eq_ok.mp h
    obtain ⟨rfl, -⟩ := Prod.mk.inj he
    simp only [addCurriculumCourse, bind_eq_ok, require_eq_ok, pure_eq_ok] at hp
    obtain ⟨-, hcurriculum, -, hcourse, -, -, rfl⟩ := hp
    refine { Step.refl s with items := .insert ⟨?_, ?_⟩ }
    · rw [curriculumRows, Table.column, Option.isSome_map]
      exact hcurriculum
    · rw [courseRows, Table.column, Option.isSome_map]
      exact hcourse
  | setCourseTopics id items =>
    obtain ⟨p, hp, he⟩ := map_eq_ok.mp h
    obtain ⟨rfl, -⟩ := Prod.mk.inj he
    obtain ⟨hrows, hsame, hcourse, htopics⟩ := setCourseTopics_ok hp
    rw [hsame]
    refine { Step.refl s with courseTopics := fun t ht => ?_ }
    have ht : t ∈ p.1.courseTopics.rows := ht
    rw [hrows, List.mem_append] at ht
    -- a row was kept from before, or comes from the request
    rcases ht with hold | hnew
    · exact .inl (Table.mem_erase.mp hold).1
    · obtain ⟨item, hitem, rfl⟩ := List.mem_map.mp hnew
      obtain ⟨topic, htopic, -⟩ := htopics item hitem
      refine .inr ⟨?_, ?_⟩
      · rw [courseRows, Table.column, Option.isSome_map]
        exact hcourse
      · rw [topicRows, Table.column, htopic]
        rfl

/-- **Every call.** -/
theorem catalogue_step (s : Catalogue) (c : CatalogueCall) : s.Step (s.step c) := by
  refine commit_induction (P := s.Step) (.refl s) fun s' r h => ?_
  obtain ⟨i, -, hperform⟩ := bind_eq_ok.mp h
  exact perform_step hperform

/-- A call keeps the references good. -/
theorem Linked.call (h : Linked s) (c : CatalogueCall) : Linked (s.step c) := h.step (catalogue_step s c)

end Catalogue

end AcaSocial.Academic
