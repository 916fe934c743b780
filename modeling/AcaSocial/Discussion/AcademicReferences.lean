import AcaSocial.Academic.CatalogueStep
import AcaSocial.Discussion.AcademicRooms

/-!
# Rooms and posts beside the catalogue

The discussion service asks the academic service for the major of a room and for the context of a course, and copies what it
is told into rooms and posts. Each service has a database of its own, so no foreign key guards the copies.

* **`Campus`** — both databases, and the past of the catalogue, for answers that come late.
* **`World.asking`** — what a request finds when its questions are put to a catalogue, or fail.
* **`Catalogue.Knows`** — an academic context is that of rows of the catalogue.

`references_hold` is about every interleaving of calls to the two services. It needs no assumption on the answers.
-/

namespace AcaSocial

open Academic (Catalogue CatalogueCall)

variable {w : World} {s s' : Db} {user : GatewayUser} {c : Call} {a a' : Catalogue}

/-! ## Questions

A question to the academic service is answered from its catalogue, or fails: it may be out of reach or take too long.
-/

/-- A question that is not answered. -/
inductive Failure where
  | unreachable
  | failed
deriving DecidableEq

def Failure.reply {α : Type} : Failure → Reply α
  | .unreachable => .unreachable
  | .failed => .failed

/-- The answer over HTTP to `/internal/academic/contexts/:id`. -/
def Academic.Catalogue.contextReply (a : Catalogue) (u : UuidText) : Reply AcademicContext :=
  match a.context u with
  | .ok ctx => .ok ⟨ctx.curriculumCourseId, ctx.majorId, ctx.curriculumId, ctx.courseId⟩
  | .error (.notFound _) => .notFound
  | .error _ => .failed

/-- The answer over HTTP to `/internal/academic/majors/:id`. -/
def Academic.Catalogue.majorReply (a : Catalogue) (u : UuidText) : Reply Unit :=
  match a.major u with
  | .ok _ => .ok ()
  | .error (.notFound _) => .notFound
  | .error _ => .failed

/-- The questions of a request are put to `a`, and those that `fails` names get no answer. -/
def World.asking (w : World) (a : Catalogue) (fails : UuidText → Option Failure) : World :=
  { w with
    academicContext := fun u => (fails u).elim (a.contextReply u) Failure.reply
    major := fun u => (fails u).elim (a.majorReply u) Failure.reply }

/-! ## Two services

The catalogue changes while the discussion service asks. An answer may come from an earlier catalogue, but from none
that never was. -/

structure Campus where
  past : List Catalogue
  catalogue : Catalogue
  discussion : Db

/-- A call to one of the services. The questions of a call to the discussion service are answered from the catalogue as it
was `age` calls ago. -/
inductive CampusEvent where
  | academic (c : CatalogueCall)
  | discussion (c : Call) (age : Nat) (fails : UuidText → Option Failure)

/-- The catalogue that answers. -/
def Campus.answering (s : Campus) (age : Nat) : Catalogue := (s.catalogue :: s.past).getD age s.catalogue

def Campus.step (s : Campus) : CampusEvent → Campus
  | .academic c => ⟨s.catalogue :: s.past, s.catalogue.step c, s.discussion⟩
  | .discussion c age fails =>
    { s with discussion := s.discussion.step { c with world := c.world.asking (s.answering age) fails } }

/-! ## What the catalogue knows

The rows of the catalogue are never deleted, so that what was known once stays known. -/

namespace Academic.Catalogue

/-- The rows of `a` are still there, with their references. -/
structure Keeps (a a' : Catalogue) : Prop where
  majors : Grows a.majorRows a'.majorRows
  curricula : Grows a.curriculumRows a'.curriculumRows
  courses : Grows a.courseRows a'.courseRows
  items : Grows a.itemRows a'.itemRows

theorem Keeps.refl (a : Catalogue) : a.Keeps a := ⟨.refl _, .refl _, .refl _, .refl _⟩

/-- A call of an administrator keeps what is known. -/
theorem Keeps.step (h : a.Keeps a') (c : CatalogueCall) : a.Keeps (a'.step c) := by
  have hstep := catalogue_step a' c
  exact ⟨h.majors.trans hstep.majors.grows, h.curricula.trans hstep.curricula.grows, h.courses.trans hstep.courses.grows,
    h.items.trans hstep.items.grows⟩

/-- The course of a curriculum, with all that it refers to. -/
structure Item (a : Catalogue) (ctx : AcademicContext) : Prop where
  item : a.itemRows ctx.curriculumCourseId = some (ctx.curriculumId, ctx.courseId)
  curriculum : a.curriculumRows ctx.curriculumId = some ctx.majorId
  major : (a.majorRows ctx.majorId).isSome
  course : (a.courseRows ctx.courseId).isSome

/-- A context that is known stays known. -/
theorem Item.keeps {ctx : AcademicContext} (h : a.Item ctx) (hkeeps : a.Keeps a') : a'.Item ctx :=
  ⟨hkeeps.items _ _ h.item, hkeeps.curricula _ _ h.curriculum, hkeeps.majors.isSome h.major, hkeeps.courses.isSome h.course⟩

/-- A context of the catalogue: a major, or the course of a curriculum of it. -/
inductive Knows (a : Catalogue) : Id → Option Id → Option Id → Option Id → Prop where
  | major {m : Id} (hmajor : (a.majorRows m).isSome) : Knows a m none none none
  | course (ctx : AcademicContext) (hitem : a.Item ctx) :
      Knows a ctx.majorId (some ctx.curriculumId) (some ctx.courseId) (some ctx.curriculumCourseId)

/-- A reference that is known stays known. -/
theorem Knows.keeps {m : Id} {i j k : Option Id} (h : a.Knows m i j k) (hkeeps : a.Keeps a') : a'.Knows m i j k := by
  cases h with
  | major hmajor => exact .major (hkeeps.majors.isSome hmajor)
  | course ctx hitem => exact .course ctx (hitem.keeps hkeeps)

/-- What the catalogue says of the course of a curriculum. -/
def contextOf (a : Catalogue) (k : Id) : AcademicContext :=
  match a.itemRows k with
  | some (curriculumId, courseId) => ⟨k, (a.curriculumRows curriculumId).getD 0, curriculumId, courseId⟩
  | none => ⟨k, 0, 0, 0⟩

/-- A known context is the one of its course. -/
theorem Item.contextOf {ctx : AcademicContext} (h : a.Item ctx) : a.contextOf ctx.curriculumCourseId = ctx := by
  rw [Catalogue.contextOf, h.item]
  show AcademicContext.mk _ ((a.curriculumRows ctx.curriculumId).getD 0) _ _ = ctx
  rw [h.curriculum]
  rfl

/-! ## Answers

What an answer says is in the catalogue that gave it. -/

/-- A row that is found has a value in each column. -/
theorem isSome_column {ρ : Type} {key : ρ → Nat} {γ : Type} {t : Serial ρ key} {col : ρ → γ} {k : Nat} {r : ρ}
    (h : t.get? k = some r) : (t.column col k).isSome := by
  rw [Table.column, h]
  rfl

/-- A context that is answered is in the catalogue. -/
theorem contextReply_item {u : UuidText} {ctx : AcademicContext} (h : a.contextReply u = .ok ctx) : a.Item ctx := by
  unfold contextReply at h
  split at h
  · next answer hok =>
    obtain rfl := Reply.ok.inj h
    simp only [context, bind_eq_ok, orThrow_eq_ok, require_eq_ok, pure_eq_ok] at hok
    obtain ⟨item, hitem, course, hcourse, curriculum, hcurriculum, major, hmajor, -, -, -, -, rfl⟩ := hok
    obtain ⟨hmem, -⟩ := Table.get?_eq_some.mp hitem
    refine ⟨?_, ?_, isSome_column hmajor, isSome_column hcourse⟩
    · rw [itemRows, Table.column, Table.get?_key hmem]
      rfl
    · rw [curriculumRows, Table.column, hcurriculum]
      rfl
  · cases h
  · cases h

/-- A major that is answered is in the catalogue. -/
theorem majorReply_ok {u : UuidText} {x : Unit} (h : a.majorReply u = .ok x) : (a.majorRows u.id).isSome := by
  unfold majorReply at h
  split at h
  · next major hok =>
    simp only [Catalogue.major, bind_eq_ok, orThrow_eq_ok] at hok
    obtain ⟨row, hrow, -⟩ := hok
    exact isSome_column hrow
  · cases h
  · cases h

end Academic.Catalogue

open Academic.Catalogue

/-- An answer about a course is from the catalogue. -/
theorem context_asking {fails : UuidText → Option Failure} {u : UuidText} {ctx : AcademicContext}
    (h : (w.asking a fails).academicContext u = .ok ctx) : a.Item ctx := by
  have h : (fails u).elim (a.contextReply u) Failure.reply = .ok ctx := h
  cases hfails : fails u with
  | none =>
    rw [hfails] at h
    exact contextReply_item h
  | some f =>
    rw [hfails] at h
    cases f <;> cases h

/-- An answer about a major is from the catalogue. -/
theorem major_asking {fails : UuidText → Option Failure} {u : UuidText} {x : Unit}
    (h : (w.asking a fails).major u = .ok x) : (a.majorRows u.id).isSome := by
  have h : (fails u).elim (a.majorReply u) Failure.reply = .ok x := h
  cases hfails : fails u with
  | none =>
    rw [hfails] at h
    exact majorReply_ok h
  | some f =>
    rw [hfails] at h
    cases f <;> cases h

/-- Answers stay what they were. -/
theorem steady_asking (h : a.Keeps a') (fails : UuidText → Option Failure) : (w.asking a fails).Steady a'.contextOf :=
  fun _ _ hctx => ((context_asking hctx).keeps h).contextOf

/-! ## What the discussion service copies

Bindings of rooms and contexts of posts are copied from answers. -/

/-- The binding of a room is known. -/
def RoomAcademicBinding.KnownTo (b : RoomAcademicBinding) (a : Catalogue) : Prop :=
  a.Knows b.majorId b.curriculumId b.courseId b.curriculumCourseId

/-- A post has no academic context, or one that is known. -/
def Discussion.KnownTo (p : Discussion) (a : Catalogue) : Prop :=
  (p.majorId = none ∧ p.curriculumId = none ∧ p.courseId = none ∧ p.curriculumCourseId = none)
    ∨ ∃ m, p.majorId = some m ∧ a.Knows m p.curriculumId p.courseId p.curriculumCourseId

/-- The context that the service works with is known. -/
theorem context_item {fails : UuidText → Option Failure} {u : UuidText} {ctx : AcademicContext}
    (h : AcademicReferenceService.context (w.asking a fails) u = .ok ctx) : a.Item ctx := by
  unfold AcademicReferenceService.context at h
  split at h
  · cases h
  · cases h
  · cases h
  · next hanswer =>
    obtain rfl := Except.ok.inj h
    exact context_asking hanswer

/-- A new binding is that of a confirmed major, of a course, or of the room above. -/
theorem createRoom_binding {dto : CreateRoomDto} {fails : UuidText → Option Failure} {r : Id} {b : RoomAcademicBinding}
    {a₀ : Catalogue} (hknown : ∀ r b, s.binding? r = some b → b.KnownTo a) (hkeeps : a₀.Keeps a)
    (hb : (RoomsService.create (w.asking a₀ fails) s dto user).state.binding? r = some b) : b.KnownTo a := by
  revert hb
  rw [RoomsService.create]
  refine commit_induction (P := fun s' : Db => s'.binding? r = some b → b.KnownTo a) (hknown r b) fun s' i h hb => ?_
  obtain ⟨⟨actor, parent, context⟩, hchecks, h⟩ := bind_eq_ok.mp h
  obtain ⟨-, -, h⟩ := bind_eq_ok.mp h
  simp only [RoomsService.createTx, bind_eq_ok, pure_eq_ok, Prod.mk.injEq] at h
  obtain ⟨-, -, rfl, -⟩ := h
  have hctx := RoomsService.createChecks_ok hchecks
  -- whatever is added, the other rooms keep their bindings
  have hadded : ∀ b₀, b₀.KnownTo a → RoomsService.createBinding s dto s.rooms.next parent context = some b₀ →
      b.KnownTo a := by
    intro b₀ hb₀ hbinding
    rw [hbinding] at hb
    have hb : (s.bindings.insert b₀).get? r = some b := hb
    rw [Table.get?_insert] at hb
    split at hb
    · obtain rfl := Option.some.inj hb
      cases hold : s.bindings.get? r with
      -- any other room takes the binding of its parent
      | none => exact hb₀
      | some b₁ => exact hknown r b₁ hold
    · exact hknown r b hb
  cases hbinding : RoomsService.createBinding s dto s.rooms.next parent context with
  | none =>
    rw [hbinding] at hb
    exact hknown r b hb
  | some b₀ =>
    refine hadded b₀ ?_ hbinding
    unfold RoomsService.createBinding at hbinding
    split at hbinding
    -- the room of a major: the academic service has confirmed the major
    · next hmajor =>
      obtain ⟨m, hm, rfl⟩ := Option.map_eq_some_iff.mp hbinding
      have hconfirmed := hctx.major hmajor hm
      unfold AcademicReferenceService.major at hconfirmed
      split at hconfirmed
      · cases hconfirmed
      · cases hconfirmed
      · cases hconfirmed
      · next hanswer => exact .major (hkeeps.majors.isSome (major_asking hanswer))
    · cases context with
      -- the room of a course takes the context that was answered
      | some ctx =>
        obtain rfl := Option.some.inj hbinding
        have hcourse : dto.roomType = .course := Classical.byContradiction fun hne => by cases hctx.others hne
        obtain ⟨room, u, ctx', b₁, -, -, hok, he, -⟩ := hctx.course hcourse
        obtain rfl := Option.some.inj he
        exact .course ctx ((context_item hok).keeps hkeeps)
      | none =>
        obtain ⟨b₁, hb₁, rfl⟩ := Option.map_eq_some_iff.mp hbinding
        obtain ⟨room, -, hb₁⟩ := Option.bind_eq_some_iff.mp hb₁
        exact hknown room.id b₁ hb₁

/-- A new post takes its context from a course that has been answered, or from its room. -/
theorem newPost_known {dto : CreateDiscussionDto} {fails : UuidText → Option Failure} {q : Discussion} {a₀ : Catalogue}
    (hknown : ∀ r b, s.binding? r = some b → b.KnownTo a) (hkeeps : a₀.Keeps a)
    (hnew : PostAcademic (w.asking a₀ fails) s dto q) : q.KnownTo a := by
  obtain ⟨author, selected, room, i, hselected, hroom, -, rfl⟩ := hnew.selected
  cases selected with
  | some ctx =>
    cases hcourse : dto.curriculumCourseId with
    | none =>
      rw [hcourse] at hselected
      cases hselected
    | some u =>
      rw [hcourse] at hselected
      obtain ⟨ctx', hok, he⟩ := map_eq_ok.mp hselected
      obtain rfl := Option.some.inj he
      exact .inr ⟨_, rfl, .course ctx' ((context_item hok).keeps hkeeps)⟩
  | none =>
    unfold Discussion.KnownTo DiscussionsService.newPost
    rw [hroom]
    cases hb : s.binding? dto.roomId.id with
    | none => exact .inl ⟨rfl, rfl, rfl, rfl⟩
    | some b => exact .inr ⟨b.majorId, rfl, hknown _ b hb⟩

/-- Posts with the same academic context are known together. -/
theorem Discussion.KnownTo.congr {p q : Discussion} (hsame : q.academic = p.academic) (h : p.KnownTo a) : q.KnownTo a := by
  simp only [Discussion.academic, Prod.mk.injEq] at hsame
  obtain ⟨-, hmajor, hcurriculum, hcourse, hselected⟩ := hsame
  rw [Discussion.KnownTo, hmajor, hcurriculum, hcourse, hselected]
  exact h

/-! ## The invariant

What has been copied is known to the catalogue as it is now. -/

/-- The catalogue knows what the discussion service has copied. -/
structure References (a : Catalogue) (s : Db) : Prop where
  bindings : ∀ r b, s.binding? r = some b → b.KnownTo a
  posts : ∀ i p, s.discussions.get? i = some p → p.KnownTo a

/-- References stay known. -/
theorem References.keeps (h : References a s) (hkeeps : a.Keeps a') : References a' s where
  bindings r b hb := (h.bindings r b hb).keeps hkeeps
  posts i p hp := by
    rcases h.posts i p hp with hnone | ⟨m, hm, hknows⟩
    · exact .inl hnone
    · exact .inr ⟨m, hm, hknows.keeps hkeeps⟩

/-- A call of the discussion service whose questions an earlier catalogue answers. -/
theorem References.call (h : References a s) {a₀ : Catalogue} (hkeeps : a₀.Keeps a) (fails : UuidText → Option Failure)
    (hworld : c.world = w.asking a₀ fails) : References a (s.step c) := by
  have hposts : (∀ dto, c.operation ≠ .discussions (.create dto)) → ∀ i q, (s.step c).discussions.get? i = some q →
      q.KnownTo a := by
    intro hop i q hq
    obtain ⟨p, hp, hsame⟩ := keptPost (keepsPosts hop) hq
    exact (h.posts i p hp).congr hsame
  -- only two operations add references: a new room, and a new post
  by_cases hroom : ∃ dto, c.operation = .rooms (.create dto)
  · obtain ⟨dto, hop⟩ := hroom
    refine ⟨fun r b hb => ?_, hposts fun dto' hop' => (by cases hop.symm.trans hop')⟩
    obtain ⟨_, user, o⟩ := c
    obtain rfl : o = .rooms (.create dto) := hop
    have hworld : _ = w.asking a₀ fails := hworld
    subst hworld
    exact createRoom_binding h.bindings hkeeps hb
  · have hbindings := (places_step (s := s) (c := c) fun dto hop => hroom ⟨dto, hop⟩).2
    refine ⟨fun r b hb => ?_, ?_⟩
    · rw [Db.binding?, hbindings] at hb
      exact h.bindings r b hb
    · by_cases hpost : ∃ dto, c.operation = .discussions (.create dto)
      · obtain ⟨dto, hop⟩ := hpost
        intro i q hq
        obtain ⟨_, user, o⟩ := c
        obtain rfl : o = .discussions (.create dto) := hop
        have hworld : _ = w.asking a₀ fails := hworld
        subst hworld
        rcases createPost_cases dto hq with hold | hnew
        · exact h.posts i q hold
        · exact newPost_known h.bindings hkeeps hnew
      · exact hposts fun dto hop => hpost ⟨dto, hop⟩

/-- The state of both services. -/
structure Campus.Sound (s : Campus) : Prop where
  past : ∀ a ∈ s.catalogue :: s.past, a.Keeps s.catalogue
  references : References s.catalogue s.discussion
  bound : AcademicBound s.catalogue.contextOf s.discussion

/-- What a binding says of a course stays true. -/
theorem AcademicBound.keeps (h : AcademicBound a.contextOf s) (hrefs : References a' s) : AcademicBound a'.contextOf s :=
  { h with
    steady := fun r b k hb hk => by
      have hknown := hrefs.bindings r b hb
      unfold RoomAcademicBinding.KnownTo at hknown
      generalize b.majorId = m, b.curriculumId = i, b.courseId = j, b.curriculumCourseId = k' at hknown hk
      cases hknown with
      | major hmajor => cases hk
      | course ctx hitem =>
        obtain rfl := Option.some.inj hk
        rw [hitem.contextOf]
        exact ⟨rfl, rfl⟩ }

/-- The catalogue that answers is the present one or an earlier one. -/
theorem Campus.answering_mem (s : Campus) (age : Nat) : s.answering age ∈ s.catalogue :: s.past := by
  show (s.catalogue :: s.past).getD age s.catalogue ∈ _
  rw [List.getD_eq_getElem?_getD]
  cases h : (s.catalogue :: s.past)[age]? with
  | none => exact List.mem_cons_self
  | some a => exact List.mem_of_getElem? h

/-- One event keeps the references. -/
theorem Campus.Sound.step {s : Campus} (h : s.Sound) (e : CampusEvent) : (s.step e).Sound := by
  cases e with
  | academic c =>
    have hkeeps : s.catalogue.Keeps (s.catalogue.step c) := (Keeps.refl s.catalogue).step c
    have hrefs := h.references.keeps hkeeps
    refine ⟨fun a ha => ?_, hrefs, h.bound.keeps hrefs⟩
    rcases List.mem_cons.mp ha with rfl | ha
    · exact .refl _
    · exact (h.past a ha).step c
  | discussion c age fails =>
    have hkeeps := h.past _ (s.answering_mem age)
    exact ⟨h.past, h.references.call hkeeps fails rfl, academicBound_step h.bound (steady_asking hkeeps fails)⟩

/-! ## Runs

The invariant holds along every run of the two services. -/

theorem Campus.sound_start (a : Catalogue) : Sound ⟨[], a, .empty⟩ where
  past a' ha := List.mem_singleton.mp ha ▸ .refl _
  references := ⟨fun _ _ h => (by cases h), fun _ _ h => (by cases h)⟩
  bound := academicBound_empty

/-- **References across services hold.** In every interleaving of calls to the academic and to the discussion service,
whichever questions fail or are answered late, the academic contexts of rooms and posts hang together, and each is that of
a major and of a course of a curriculum that are in the catalogue, with the same references there. -/
theorem references_hold (a : Catalogue) (events : List CampusEvent) :
    Coherent (run Campus.step ⟨[], a, .empty⟩ events).discussion
      ∧ References (run Campus.step ⟨[], a, .empty⟩ events).catalogue
        (run Campus.step ⟨[], a, .empty⟩ events).discussion := by
  have hsound : (run Campus.step ⟨[], a, .empty⟩ events).Sound :=
    run_invariant (P := Campus.Sound) (fun _ e h => h.step e) (Campus.sound_start a) events
  exact ⟨hsound.bound.coherent, hsound.references⟩

/-! ## A sample

A catalogue with one course, and a room for it. -/

namespace Sample

def catalogued (o : Academic.CatalogueOperation) : CampusEvent := .academic ⟨administrator, o⟩

def discussed (o : Operation) (age : Nat) : CampusEvent := .discussion ⟨World.quiet 5, administrator, o⟩ age fun _ => none

/-- A course of an active curriculum gets a room. The curriculum is retired, and another room is asked for, once with an
answer from before and once with a new one. -/
def retiredCurriculum : List CampusEvent :=
  [catalogued (.plain (.createMajor { code := "CNTT", name := "Công nghệ thông tin" })),
   catalogued (.plain (.createCurriculum
    { majorId := Id.text 0, version := "2025", effectiveYear := 2025, status := some .active })),
   catalogued (.createCourse { code := "INT1306", name := "Cấu trúc dữ liệu" }),
   catalogued (.createCourse { code := "INT1340", name := "Nhập môn công nghệ phần mềm" }),
   catalogued (.addCurriculumCourse { curriculumId := Id.text 0, courseId := Id.text 0, courseType := .required }),
   catalogued (.addCurriculumCourse { curriculumId := Id.text 0, courseId := Id.text 1, courseType := .elective }),
   discussed (.rooms (.create { slug := "cntt", name := "CNTT", roomType := .major, majorId := some (Id.text 0) })) 0,
   discussed (.rooms (.create
    { slug := "ctdl", name := "CTDL", roomType := .course, parentRoomId := some (Id.text 0),
      curriculumCourseId := some (Id.text 0) })) 0,
   catalogued (.plain (.updateCurriculumStatus (Id.text 0) .retired)),
   discussed (.rooms (.create
    { slug := "cnpm", name := "CNPM", roomType := .course, parentRoomId := some (Id.text 0),
      curriculumCourseId := some (Id.text 1) })) 1,
   discussed (.rooms (.create
    { slug := "cnpm-2", name := "CNPM", roomType := .course, parentRoomId := some (Id.text 0),
      curriculumCourseId := some (Id.text 1) })) 0]

end Sample

example : (run Campus.step ⟨[], .empty, .empty⟩ Sample.retiredCurriculum).discussion.bindings.rows
    = [⟨0, 0, none, none, none⟩, ⟨1, 0, some 0, some 0, some 0⟩, ⟨2, 0, some 0, some 1, some 1⟩] := by decide

end AcaSocial
