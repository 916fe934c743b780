import AcaSocial.Academic.AcademicService

/-!
# One active curriculum for each major

A curriculum becomes active when its status is changed, which checks for another active one, or when
it is created, which does not.

* **`OneActive`** — two active curricula of a major are one.
* **`AddsActive`** — the call creates an active curriculum for a major that has one.

`active_curricula_unique` says that the second is all that can break the first, and
`not_active_curricula_unique` is a run that does.
-/

namespace AcaSocial.Academic

/-- Each major has at most one active curriculum. -/
def OneActive (s : Db) : Prop :=
  ∀ c ∈ s.curricula, ∀ c' ∈ s.curricula, c.status = .active → c'.status = .active →
    c.majorId = c'.majorId → c = c'

/-- `createCurriculum` accepts the request: the major is there, and the version is not taken. -/
def Creatable (s : Db) (dto : CurriculumDto) : Prop :=
  (s.majors.get? dto.majorId.id).isSome ∧ ¬ s.curricula.rows.any fun c =>
    decide (c.trainingProgramId = none ∧ c.majorId = dto.majorId.id ∧ c.version = dto.version)

instance (s : Db) (dto : CurriculumDto) : Decidable (Creatable s dto) :=
  inferInstanceAs (Decidable (_ ∧ _))

/-- The call creates an active curriculum for a major that has one already. -/
def AddsActive (s : Db) (c : Call) : Prop :=
  match c.operation with
  | .createCurriculum dto => Admitted c.user ∧ Creatable s dto ∧ dto.status = some .active
      ∧ ∃ other ∈ s.curricula.rows, other.majorId = dto.majorId.id ∧ other.status = .active
  | _ => False

instance (s : Db) (c : Call) : Decidable (AddsActive s c) := by
  unfold AddsActive
  split <;> infer_instance

/-! ## What the operations do to the curricula

Two operations write the table. `createCurriculum` inserts a row with the status of the request,
`updateCurriculumStatus` first looks for another active version. -/

/-- The row that `createCurriculum` inserts. -/
def newCurriculum (dto : CurriculumDto) (id : Id) : Curriculum :=
  ⟨id, none, dto.majorId.id, dto.version, dto.effectiveYear, dto.status.getD .draft⟩

/-- A new curriculum is inserted as asked for, or nothing happens. -/
theorem createCurriculum_cases (s : Db) (dto : CurriculumDto) :
    (Creatable s dto ∧ ∃ c, AcademicService.createCurriculum s dto
        = .ok ({ s with curricula := s.curricula.insert (newCurriculum dto) fun _ => rfl }, c))
      ∨ (¬ Creatable s dto ∧ ∃ e, AcademicService.createCurriculum s dto = .error e) := by
  unfold AcademicService.createCurriculum
  by_cases hmajor : (s.majors.get? dto.majorId.id).isSome = true
  · rw [require_bind, if_pos hmajor, require_bind]
    by_cases hversion : s.curricula.rows.any (fun c => decide (c.trainingProgramId = none
        ∧ c.majorId = dto.majorId.id ∧ c.version = dto.version)) = true
    · rw [if_neg (not_not_intro hversion)]
      exact .inr ⟨fun hc => hc.2 hversion, _, rfl⟩
    · rw [if_pos hversion]
      exact .inl ⟨⟨hmajor, hversion⟩, _, rfl⟩
  · rw [require_bind, if_neg hmajor]
    exact .inr ⟨fun hc => hmajor hc.1, _, rfl⟩

/-- A status is saved only if, for the status `active`, the first active curriculum of the major that is
found is the curriculum itself. -/
theorem updateCurriculumStatus_ok {s s' : Db} {id : UuidText} {status : CurriculumStatus} {c' : Curriculum}
    (h : AcademicService.updateCurriculumStatus s id status = .ok (s', c')) :
    ∃ c, s.curricula.get? id.id = some c
      ∧ (status = .active → ∀ other, s.curricula.rows.find? (fun o =>
          decide (o.majorId = c.majorId ∧ o.status = .active)) = some other → other.id = c.id)
      ∧ s' = { s with curricula := s.curricula.save { c with status } } := by
  simp only [AcademicService.updateCurriculumStatus, bind_eq_ok, orThrow_eq_ok] at h
  obtain ⟨c, hc, h⟩ := h
  have hid : c.id = id.id := (Table.get?_eq_some.mp hc).2
  refine ⟨c, hc, ?_⟩
  by_cases hstatus : status = .active
  · rw [if_pos hstatus] at h
    obtain ⟨u, hcheck, hsave⟩ := bind_eq_ok.mp h
    have hnone := require_eq_ok.mp hcheck
    have hs' := pure_eq_ok.mp hsave
    refine ⟨fun _ other hother => ?_, (Prod.mk.inj hs').1.symm⟩
    -- the texts are compared, and equal texts have equal ids
    have htext : Id.text other.id = id := by
      by_contra hne
      refine hnone ?_
      rw [hother]
      exact decide_eq_true hne
    rw [hid, ← htext]
    rfl
  · rw [if_neg hstatus] at h
    have hs' := pure_eq_ok.mp h
    exact ⟨fun hactive => absurd hactive hstatus, (Prod.mk.inj hs').1.symm⟩

/-- What an operation does to the curricula: nothing, the insertion of a row, or a new status. -/
inductive CurriculaStep (s : Db) : Operation → Serial Curriculum Curriculum.id → Prop where
  | aside {o : Operation} (hcreate : ∀ dto, o = .createCurriculum dto → ¬ Creatable s dto) :
      CurriculaStep s o s.curricula
  | created (dto : CurriculumDto) (h : Creatable s dto) :
      CurriculaStep s (.createCurriculum dto) (s.curricula.insert (newCurriculum dto) fun _ => rfl)
  | saved (id : UuidText) (status : CurriculumStatus) {c : Curriculum}
      (hc : s.curricula.get? id.id = some c)
      (hfirst : status = .active → ∀ other, s.curricula.rows.find? (fun o =>
        decide (o.majorId = c.majorId ∧ o.status = .active)) = some other → other.id = c.id) :
      CurriculaStep s (.updateCurriculumStatus id status) (s.curricula.save { c with status })

/-- **What an operation does to the curricula.** -/
theorem curricula_step (s : Db) (o : Operation) : CurriculaStep s o (o.after s).curricula := by
  cases o with
  -- four of the six operations leave the table alone
  | createMajor dto =>
    rw [after_frame (F := Db.curricula) rfl fun p hp => (createMajor_frame hp).1]
    exact .aside (fun _ h => by cases h)
  | updateMajor id dto =>
    rw [after_frame (F := Db.curricula) rfl fun p hp => (updateMajor_frame hp).1]
    exact .aside (fun _ h => by cases h)
  | createTopic dto =>
    rw [after_frame (F := Db.curricula) rfl fun p hp => curricula_createTopic hp]
    exact .aside (fun _ h => by cases h)
  | updateTopic id dto =>
    rw [after_frame (F := Db.curricula) rfl fun p hp => curricula_updateTopic hp]
    exact .aside (fun _ h => by cases h)
  | createCurriculum dto =>
    rcases createCurriculum_cases s dto with ⟨hcreatable, c, he⟩ | ⟨hnot, e, he⟩
    · rw [Operation.after_ok rfl he]
      -- `createCurriculum_cases` also says why nothing was created
      exact .created dto hcreatable
    · rw [Operation.after_error rfl he]
      refine .aside fun dto' hdto => ?_
      cases hdto
      exact hnot
  | updateCurriculumStatus id status =>
    cases h : AcademicService.updateCurriculumStatus s id status with
    | error e =>
      rw [Operation.after_error rfl h]
      exact .aside (fun _ h => by cases h)
    | ok p =>
      rw [Operation.after_ok rfl h]
      obtain ⟨s', c'⟩ := p
      obtain ⟨c, hc, hfirst, hs'⟩ := updateCurriculumStatus_ok h
      rw [hs']
      exact .saved id status hc hfirst

/-! ## The invariant

At most one version of a programme is active, as long as no curriculum is created active beside an active one. -/

/-- The invariant is about the table of curricula alone. -/
theorem oneActive_of_curricula {s s' : Db} (h : OneActive s) (he : s'.curricula = s.curricula) :
    OneActive s' := by
  unfold OneActive
  rw [he]
  exact h

/-- A creation keeps the invariant exactly when it adds no second active curriculum to a major. -/
theorem oneActive_insert {s s' : Db} {dto : CurriculumDto} (h : OneActive s)
    (he : s'.curricula = s.curricula.insert (newCurriculum dto) fun _ => rfl) :
    OneActive s' ↔ ¬ (dto.status = some .active
      ∧ ∃ other ∈ s.curricula.rows, other.majorId = dto.majorId.id ∧ other.status = .active) := by
  have hnew : (newCurriculum dto s.curricula.next).status = .active ↔ dto.status = some .active := by
    rw [newCurriculum]
    cases dto.status with
    | none => exact ⟨(fun h => by cases h), (fun h => by cases h)⟩
    | some status => simp
  unfold OneActive
  rw [he]
  constructor
  · rintro hone ⟨hactive, other, hother, hmajor, hstatus⟩
    have hsame := hone other (Serial.mem_insert.mpr (.inl hother)) _ (Serial.mem_insert.mpr (.inr rfl))
      hstatus (hnew.mpr hactive) hmajor
    -- the new row has a new id
    have hfresh := s.curricula.fresh other hother
    rw [hsame] at hfresh
    exact absurd hfresh (Nat.lt_irrefl _)
  · intro hnot c hc c' hc' hactive hactive' hmajor
    rcases Serial.mem_insert.mp hc with hc | rfl <;> rcases Serial.mem_insert.mp hc' with hc' | rfl
    · exact h c hc c' hc' hactive hactive' hmajor
    · exact absurd ⟨hnew.mp hactive', c, hc, hmajor, hactive⟩ hnot
    · exact absurd ⟨hnew.mp hactive, c', hc', hmajor.symm, hactive'⟩ hnot
    · rfl

/-- A change of status keeps the invariant: no other curriculum of the major is active then. -/
theorem oneActive_save {s s' : Db} {c : Curriculum} {status : CurriculumStatus} (h : OneActive s)
    (hfirst : status = .active → ∀ other, s.curricula.rows.find? (fun o =>
      decide (o.majorId = c.majorId ∧ o.status = .active)) = some other → other.id = c.id)
    (he : s'.curricula = s.curricula.save { c with status }) : OneActive s' := by
  -- no active curriculum of the major has another id
  have hother : status = .active → ∀ o ∈ s.curricula, o.status = .active → o.majorId = c.majorId →
      o.id = c.id := by
    intro hactive o ho hstatus hmajor
    cases hfind : s.curricula.rows.find? fun o => decide (o.majorId = c.majorId ∧ o.status = .active) with
    | none =>
      have hnone := List.find?_eq_none.mp hfind o ho
      exact absurd (decide_eq_true ⟨hmajor, hstatus⟩) hnone
    | some other =>
      have hmem := List.mem_of_find?_eq_some hfind
      have hprop : other.majorId = c.majorId ∧ other.status = .active := by
        simpa using List.find?_some hfind
      rw [h o ho other hmem hstatus hprop.2 (hmajor.trans hprop.1.symm)]
      exact hfirst hactive other hfind
  unfold OneActive
  rw [he]
  intro a ha b hb hactive hactive' hmajor
  rcases Serial.mem_save.mp ha with ⟨rfl, -⟩ | ⟨ha, hane⟩ <;>
    rcases Serial.mem_save.mp hb with ⟨rfl, -⟩ | ⟨hb, hbne⟩
  · rfl
  · exact absurd (hother hactive b hb hactive' hmajor.symm) hbne
  · exact absurd (hother hactive' a ha hactive hmajor) hane
  · exact h a ha b hb hactive hactive' hmajor

/-- **One call.** It keeps the invariant exactly when it does not create a second active curriculum. -/
theorem oneActive_step (s : Db) (c : Call) (h : OneActive s) :
    OneActive (s.step c) ↔ ¬ AddsActive s c := by
  rw [step_eq]
  by_cases hadmitted : Admitted c.user
  · rw [if_pos hadmitted]
    show OneActive (c.operation.after s) ↔ _
    -- the step is read off the table, and the condition off the operation
    have hstep := curricula_step s c.operation
    generalize hcurricula : (c.operation.after s).curricula = curricula at hstep
    unfold AddsActive
    cases hop : c.operation with
    -- the one operation that can add an active row without looking
    | createCurriculum dto =>
      rw [hop] at hstep hcurricula
      cases hstep with
      | aside hcreate =>
        have hnot := hcreate dto rfl
        exact iff_of_true (oneActive_of_curricula h hcurricula) fun hadds => hnot hadds.2.1
      | created _ hcreatable =>
        rw [oneActive_insert h hcurricula]
        exact not_congr ⟨fun hadds => ⟨hadmitted, hcreatable, hadds⟩, fun hadds => hadds.2.2⟩
    | updateCurriculumStatus id status =>
      rw [hop] at hstep hcurricula
      cases hstep with
      | aside => exact iff_of_true (oneActive_of_curricula h hcurricula) not_false
      | saved _ _ _ hfirst =>
        exact iff_of_true (oneActive_save h hfirst hcurricula) not_false
    | _ =>
      rw [hop] at hstep hcurricula
      cases hstep with
      | aside => exact iff_of_true (oneActive_of_curricula h hcurricula) not_false
  -- turned away by the guard
  · rw [if_neg hadmitted]
    refine iff_of_true h fun hadds => ?_
    unfold AddsActive at hadds
    split at hadds
    · exact hadmitted hadds.1
    · exact hadds

/-- Along a run from a state with at most one active curriculum for each major, this stays so in every state
exactly when no call creates an active curriculum for a major that has one. -/
theorem active_curricula_unique (s : Db) (h : OneActive s) (calls : List Call) :
    Always Db.step OneActive s calls ↔ Meets Db.step (fun s c => ¬ AddsActive s c) s calls :=
  always_iff_meets (fun c _ s hs => oneActive_step s c hs) h

/-! ## Samples

Two versions of one programme, the second made active when the first is archived, and a third created active beside
it. -/

namespace Sample

def administrator : GatewayUser := ⟨some 9, some .admin⟩

def call (o : Operation) : Call := ⟨administrator, o⟩

/-- The major `0`, a curriculum of it, and its activation. -/
def activated : List Call :=
  [call (.createMajor { code := "CNTT", name := "Công nghệ thông tin" }),
    call (.createCurriculum { majorId := Id.text 0, version := "2024", effectiveYear := 2024 }),
    call (.updateCurriculumStatus (Id.text 0) .active)]

/-- A second curriculum, created as an active one. -/
def createdActive : Call :=
  call (.createCurriculum
    { majorId := Id.text 0, version := "2025", effectiveYear := 2025, status := some .active })

end Sample

/-- Archiving the first version and activating the second keeps the invariant throughout. -/
theorem active_curricula_unique_activated :
    Always Db.step OneActive Db.empty Sample.activated :=
  (active_curricula_unique Db.empty (fun _ hc => absurd hc List.not_mem_nil) Sample.activated).mpr
    (by decide)

/-- A major with an active curriculum, for which a second one is created active. -/
theorem not_active_curricula_unique :
    OneActive Db.empty
      ∧ ¬ Always Db.step OneActive Db.empty (Sample.activated ++ [Sample.createdActive]) := by
  have hempty : OneActive Db.empty := fun _ hc => absurd hc List.not_mem_nil
  refine ⟨hempty, fun halways => ?_⟩
  have hlast := halways.last
  have hsame := hlast ⟨0, none, 0, "2024", 2024, .active⟩ (by decide)
    ⟨1, none, 0, "2025", 2025, .active⟩ (by decide) rfl rfl rfl
  exact absurd hsame (by decide)

end AcaSocial.Academic
