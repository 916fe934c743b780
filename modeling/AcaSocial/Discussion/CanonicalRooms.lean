import AcaSocial.Discussion.RoomStatements

/-!
# Canonical rooms

`create` queries for a room of the same subject and inserts the new one in a later transaction. The
constraints of the database are on the slug of a room and on the room of a binding, so they do not refuse a
second room of a subject.

* **`subject`** — what a room with a binding is the canonical room of.
* **`CanonicalUnique`** — no subject has two rooms.
* **`Bound`** — every binding is of a room that is there.
* **`CreateChecked`** — what a create has found out so far: its context is that of its course, and once it has
  queried, its subject has no room.
* **`InsertsBetween`** — a create inserts a room inside the window between the query and the transaction of
  another create for the same subject.

`canonical_rooms_unique` says that every state of an interleaving has unique canonical rooms when no create
inserts inside such a window. What a create has queried then still holds when it inserts, so its query is
what keeps the subjects unique.
-/

namespace AcaSocial

variable {w : World} {s s' : Db} {t : RoomTask}

open RoomTask (statement)

/-! ## Subjects

A canonical room is about a major or about a course of a curriculum. -/

/-- A room of type `major` is the room of a major, one of type `course` that of a course in a curriculum. -/
def RoomAcademicBinding.subject (b : RoomAcademicBinding) : RoomType → Option (RoomType × Id)
  | .major => some (.major, b.majorId)
  | .course => b.curriculumCourseId.map (RoomType.course, ·)
  | .event | .forum => none

/-- The subject of the room of a binding. -/
def Db.subject (s : Db) (b : RoomAcademicBinding) : Option (RoomType × Id) :=
  (s.room? b.roomId).bind fun room => b.subject room.roomType

/-- No subject has two rooms. -/
def CanonicalUnique (s : Db) : Prop :=
  ∀ b ∈ s.bindings.rows, ∀ b' ∈ s.bindings.rows, ∀ k ∈ s.subject b, k ∈ s.subject b' → b.roomId = b'.roomId

instance (s : Db) : Decidable (CanonicalUnique s) :=
  inferInstanceAs (Decidable (∀ b ∈ s.bindings.rows, ∀ b' ∈ s.bindings.rows, ∀ k ∈ s.subject b,
    k ∈ s.subject b' → b.roomId = b'.roomId))

/-- A binding refers to a room. -/
def Bound (s : Db) : Prop := ∀ b ∈ s.bindings.rows, (s.room? b.roomId).isSome

/-- A room has the subject. -/
def HasCanonical (s : Db) (k : RoomType × Id) : Prop := ∃ b ∈ s.bindings.rows, k ∈ s.subject b

/-- The subject of the room that the transaction of `create` inserts. -/
def RoomTask.subject : RoomTask → Option (RoomType × Id)
  | .createTx dto _ _ _ context =>
    match dto.roomType with
    | .major => dto.majorId.map fun m => (.major, m.id)
    | .course => context.map fun c => (.course, c.curriculumCourseId)
    | .event | .forum => none
  | _ => none

/-- No room has the slug of the room that the transaction of `create` inserts. -/
def RoomTask.SlugFree (s : Db) : RoomTask → Prop
  | .createTx dto _ _ _ _ => ¬ s.rooms.rows.any fun r => decide (r.slug = dto.slug)
  | _ => False

/-- The transaction of a create inserts a room while another create, for the same subject, is between its query
for a canonical room and its transaction. -/
def InsertsBetween (_ : World) (s : Db) (t other : RoomTask) : Prop :=
  t.SlugFree s ∧ ∃ k ∈ t.subject, k ∈ other.subject

instance (s : Db) : DecidablePred (RoomTask.SlugFree s)
  | .createTx dto _ _ _ _ => inferInstanceAs (Decidable (¬ s.rooms.rows.any fun r => decide (r.slug = dto.slug)))
  | .create .. | .createExisting .. | .join .. | .joinMembership .. | .joinSave .. | .addRule .. | .addRuleTx ..
  | .updateMembership .. | .updateMembershipTx .. | .updateStatus .. | .updateStatusRead .. | .updateStatusSave ..
  | .updatePolicy .. | .updatePolicyTx .. => .isFalse not_false

instance (w : World) (s : Db) (t other : RoomTask) : Decidable (InsertsBetween w s t other) :=
  inferInstanceAs (Decidable (t.SlugFree s ∧ ∃ k ∈ t.subject, k ∈ other.subject))

/-- The academic service answers with the context of the course that it is asked for. -/
def World.AnswersCourse (w : World) : Prop :=
  ∀ u ctx, w.academicContext u = .ok ctx → ctx.curriculumCourseId = u.id

/-! ## What a statement does to the bindings

Bindings are inserted by the transaction of `create` alone. -/

/-- The transaction of `create` only fails when the slug is taken. -/
theorem createTx_isOk {dto : CreateRoomDto} {actor : Id} {parent : Option Room}
    {context : Option AcademicContext} (hslug : ¬ s.rooms.rows.any fun r => decide (r.slug = dto.slug)) :
    ∃ p, RoomsService.createTx w s dto actor parent context = .ok p := by
  unfold RoomsService.createTx
  rw [require_bind, if_pos hslug]
  exact ⟨_, rfl⟩

/-- A transaction that leaves the bindings leaves them. -/
theorem bindings_commit {α β : Type} {x : Except HttpError (Db × α)} {respond : Db → α → Except HttpError β}
    {f : β → Response} (h : ∀ p, x = .ok p → p.1.bindings = s.bindings) :
    (RoomEffect.done ((commit s x respond).map f)).store.bindings = s.bindings := by
  cases x with
  | error e => rfl
  | ok p => exact h p rfl

/-- Every statement but the transaction of `create` leaves the bindings. -/
theorem bindings_statement (h : ∀ dto user actor parent context, t ≠ .createTx dto user actor parent context) :
    (statement w s t).store.bindings = s.bindings := by
  cases t with
  | createTx dto user actor parent context => exact absurd rfl (h dto user actor parent context)
  | joinSave existing m =>
    refine bindings_commit fun p hp => ?_
    simp only [RoomsService.joinSave, bind_eq_ok, pure_eq_ok] at hp
    obtain ⟨-, -, rfl⟩ := hp
    rfl
  | addRuleTx id dto =>
    refine bindings_commit fun p hp => ?_
    simp only [RoomsService.addRuleTx, bind_eq_ok, pure_eq_ok] at hp
    obtain ⟨-, -, -, -, rfl⟩ := hp
    rfl
  | updateMembershipTx id memberId dto user actor =>
    refine bindings_commit fun p hp => ?_
    simp only [RoomsService.updateMembershipTx, bind_eq_ok, pure_eq_ok] at hp
    obtain ⟨-, -, -, -, -, -, -, -, -, -, rfl⟩ := hp
    rfl
  | updateStatusSave room => rfl
  | updatePolicyTx id dto user =>
    refine bindings_commit fun p hp => ?_
    simp only [RoomsService.updatePolicyTx, bind_eq_ok, pure_eq_ok] at hp
    obtain ⟨-, -, -, -, rfl⟩ := hp
    rfl
  | _ => exact congrArg Db.bindings (statement_aside rfl)

/-! ## Unique subjects

The existence query and the insertion are two statements. -/

/-- Rooms keep their types, so a binding keeps its subject. -/
theorem subject_statement (hg : Grounded s t) {b : RoomAcademicBinding} (hroom : (s.room? b.roomId).isSome) :
    (statement w s t).store.subject b = s.subject b := by
  obtain ⟨room, hroom⟩ := Option.isSome_iff_exists.mp hroom
  obtain ⟨room', hroom', hfixed⟩ := (extends_statement (w := w) hg b.roomId).room room hroom
  have htype : room'.roomType = room.roomType := (Prod.mk.inj hfixed).1
  have hroom' : (statement w s t).store.room? b.roomId = some room' := hroom'
  rw [Db.subject, Db.subject, hroom, hroom']
  exact congrArg b.subject htype

/-- The same bindings with the same subjects. -/
theorem canonicalUnique_same (hrows : s'.bindings.rows = s.bindings.rows)
    (hsubject : ∀ b ∈ s.bindings.rows, s'.subject b = s.subject b) (h : CanonicalUnique s) :
    CanonicalUnique s' := by
  intro b hb b' hb' k hk hk'
  rw [hrows] at hb hb'
  rw [hsubject b hb] at hk
  rw [hsubject b' hb'] at hk'
  exact h b hb b' hb' k hk hk'

/-- A binding of a new room keeps the subjects unique when no room has its subject. -/
theorem canonicalUnique_insert {b : RoomAcademicBinding} (hrows : s'.bindings.rows = s.bindings.rows ++ [b])
    (hsubject : ∀ b' ∈ s.bindings.rows, s'.subject b' = s.subject b')
    (hnot : ∀ k ∈ s'.subject b, ¬ HasCanonical s k) (h : CanonicalUnique s) : CanonicalUnique s' := by
  have hmem : ∀ b', b' ∈ s'.bindings.rows ↔ b' ∈ s.bindings.rows ∨ b' = b := by
    intro b'
    rw [hrows, List.mem_append, List.mem_singleton]
  intro b₁ hb₁ b₂ hb₂ k hk₁ hk₂
  rcases (hmem b₁).mp hb₁ with hb₁ | rfl <;> rcases (hmem b₂).mp hb₂ with hb₂ | rfl
  · rw [hsubject b₁ hb₁] at hk₁
    rw [hsubject b₂ hb₂] at hk₂
    exact h b₁ hb₁ b₂ hb₂ k hk₁ hk₂
  · rw [hsubject b₁ hb₁] at hk₁
    exact absurd ⟨b₁, hb₁, hk₁⟩ (hnot k hk₂)
  · rw [hsubject b₂ hb₂] at hk₂
    exact absurd ⟨b₂, hb₂, hk₂⟩ (hnot k hk₁)
  · rfl

/-- What a statement does to the bindings: nothing, or it adds that of a new room. -/
inductive BindingStep (s s' : Db) : RoomTask → Prop where
  | same {t : RoomTask} (hbindings : s'.bindings = s.bindings) : BindingStep s s' t
  | added {dto : CreateRoomDto} {user : GatewayUser} {actor : Id} {parent : Option Room}
      {context : Option AcademicContext} {b : RoomAcademicBinding}
      (hslug : ¬ s.rooms.rows.any fun r => decide (r.slug = dto.slug))
      (hb : RoomsService.createBinding s dto s.rooms.next parent context = some b)
      (hbindings : s'.bindings = s.bindings.insert b)
      (hroom : (s'.room? b.roomId).map Room.roomType = some dto.roomType) :
      BindingStep s s' (.createTx dto user actor parent context)

/-- What a creation does to the bindings. -/
theorem bindingStep_createTx (w : World) (s : Db) (dto : CreateRoomDto) (user : GatewayUser) (actor : Id)
    (parent : Option Room) (context : Option AcademicContext) :
    BindingStep s (statement w s (.createTx dto user actor parent context)).store
      (.createTx dto user actor parent context) := by
  have hstore : (statement w s (.createTx dto user actor parent context)).store
      = (RoomEffect.done ((commit s (RoomsService.createTx w s dto actor parent context) fun s roomId =>
        RoomsService.findOne s roomId user).map .room)).store := rfl
  by_cases hslug : s.rooms.rows.any fun r => decide (r.slug = dto.slug)
  · -- the transaction fails, and nothing changes
    have herror : RoomsService.createTx w s dto actor parent context
        = .error (.conflict "Room slug or academic binding already exists") := by
      unfold RoomsService.createTx
      rw [require_bind, if_neg (not_not.mpr hslug)]
    exact .same (bindings_commit fun p hp => (by cases herror.symm.trans hp))
  · obtain ⟨⟨s', a⟩, hok⟩ : ∃ p, RoomsService.createTx w s dto actor parent context = .ok p := createTx_isOk hslug
    obtain ⟨room, owner, rfl, ⟨htype, -⟩, -, -, hbindings, hroll⟩ := createTx_ok hok
    -- the slug is free, so the room is inserted, and the binding with it if the type has one
    rw [hok] at hstore
    rw [show (statement w s (.createTx dto user actor parent context)).store = s' from hstore]
    cases hb : RoomsService.createBinding s dto s.rooms.next parent context with
    | none =>
      rw [hb] at hbindings
      exact .same hbindings
    | some b =>
      rw [hb] at hbindings
      refine .added hslug hb hbindings ?_
      show (s'.roll b.roomId).room.map Room.roomType = some dto.roomType
      rw [hroll, if_pos (RoomsService.createBinding_roomId hb).symm, ← htype]
      rfl

/-- **What a statement does to the bindings.** -/
theorem bindingStep_statement (w : World) (s : Db) (t : RoomTask) :
    BindingStep s (statement w s t).store t := by
  by_cases hcreate : ∃ dto user actor parent context, t = .createTx dto user actor parent context
  · obtain ⟨dto, user, actor, parent, context, rfl⟩ := hcreate
    exact bindingStep_createTx w s dto user actor parent context
  · refine .same (bindings_statement fun dto user actor parent context ht => ?_)
    exact hcreate ⟨dto, user, actor, parent, context, ht⟩

/-- Every binding stays bound. -/
theorem bound_statement (hg : Grounded s t) (hbound : Bound s) : Bound (statement w s t).store := by
  have hstay : ∀ b ∈ s.bindings.rows, ((statement w s t).store.room? b.roomId).isSome := by
    intro b hb
    obtain ⟨room, hroom⟩ := Option.isSome_iff_exists.mp (hbound b hb)
    obtain ⟨room', hroom', -⟩ := (extends_statement (w := w) hg b.roomId).room room hroom
    exact Option.isSome_iff_exists.mpr ⟨room', hroom'⟩
  intro b hb
  have hstep := bindingStep_statement w s t
  generalize (statement w s t).store = s' at hstep hstay hb ⊢
  cases hstep with
  | same hbindings =>
    rw [hbindings] at hb
    exact hstay b hb
  | added hslug hb' hbindings hroom =>
    rw [hbindings] at hb
    rcases Table.mem_insert.mp hb with hb | ⟨rfl, -⟩
    · exact hstay b hb
    · obtain ⟨room, hroom, -⟩ := Option.map_eq_some_iff.mp hroom
      exact Option.isSome_iff_exists.mpr ⟨room, hroom⟩

/-! ## What a create has found out

The task of a create carries the context of its course, and its query is about the course that the request
names, so the two have to agree. After the query the subject of the task has no room. -/

/-- The context of a new room of a course is that of the course that the request names. -/
def CourseAsked (dto : CreateRoomDto) (context : Option AcademicContext) : Prop :=
  dto.roomType = .course →
    ∃ u ctx, dto.curriculumCourseId = some u ∧ context = some ctx ∧ ctx.curriculumCourseId = u.id

/-- What a create has found out before its next statement. -/
def CreateChecked (s : Db) : RoomTask → Prop
  | .createExisting dto _ _ _ context => CourseAsked dto context
  | .createTx dto user actor parent context => CourseAsked dto context
    ∧ ∀ k ∈ (RoomTask.createTx dto user actor parent context).subject, ¬ HasCanonical s k
  | _ => True

/-- A binding with the subject of a major is what the query for a canonical major room looks for. -/
theorem subject_major {b : RoomAcademicBinding} {i : Id} (h : s.subject b = some (.major, i)) :
    b.majorId = i ∧ (s.room? b.roomId).any fun r => decide (r.roomType = .major) := by
  obtain ⟨room, hroom, hkey⟩ := Option.bind_eq_some_iff.mp h
  rw [hroom]
  cases htype : room.roomType <;> rw [htype] at hkey <;> simp_all [RoomAcademicBinding.subject]

/-- The same for the course of a curriculum. -/
theorem subject_course {b : RoomAcademicBinding} {i : Id} (h : s.subject b = some (.course, i)) :
    b.curriculumCourseId = some i ∧ (s.room? b.roomId).any fun r => decide (r.roomType = .course) := by
  obtain ⟨room, hroom, hkey⟩ := Option.bind_eq_some_iff.mp h
  rw [hroom]
  cases htype : room.roomType <;> rw [htype] at hkey <;> simp_all [RoomAcademicBinding.subject]

/-- The query of `create` passes when the subject has no room. -/
theorem not_hasCanonical_of_createExisting {dto : CreateRoomDto} {user : GatewayUser} {actor : Id}
    {parent : Option Room} {context : Option AcademicContext} (hasked : CourseAsked dto context)
    (h : RoomsService.createExisting s dto = .ok ()) :
    ∀ k ∈ (RoomTask.createTx dto user actor parent context).subject, ¬ HasCanonical s k := by
  rintro k hk ⟨b, hb, hsubject⟩
  unfold RoomTask.subject at hk
  unfold RoomsService.createExisting at h
  cases htype : dto.roomType with
  -- the query looks for a room of the major by the id
  | major =>
    simp only [htype, Option.mem_def, Option.map_eq_some_iff] at hk
    obtain ⟨m, hm, rfl⟩ := hk
    simp only [htype, hm, if_true, reduceCtorEq, if_false, require_bind, Option.map_some] at h
    split at h
    · next hnone =>
      obtain ⟨hid, hroom⟩ := subject_major hsubject
      refine hnone (List.any_eq_true.mpr ⟨b, hb, ?_⟩)
      rw [hroom, hid]
      simp
    · cases h
  -- the query looks for a room of the course by the id that the context gave
  | course =>
    obtain ⟨u, ctx, hu, rfl, hctx⟩ := hasked htype
    simp only [htype, Option.mem_def, Option.map_some, Option.some.injEq] at hk
    subst hk
    simp only [htype, hu, if_true, reduceCtorEq, if_false, Option.map_some] at h
    obtain ⟨hid, hroom⟩ := subject_course hsubject
    refine require_eq_ok.mp h (List.any_eq_true.mpr ⟨b, hb, ?_⟩)
    rw [hroom, hid, hctx]
    simp
  | event => simp [htype] at hk
  | forum => simp [htype] at hk

/-- The binding that a create gives its room has the subject of the create. -/
theorem createBinding_subject {dto : CreateRoomDto} {user : GatewayUser} {actor a : Id} {parent : Option Room}
    {context : Option AcademicContext} {b : RoomAcademicBinding} (hasked : CourseAsked dto context)
    (hb : RoomsService.createBinding s dto a parent context = some b) :
    b.subject dto.roomType = (RoomTask.createTx dto user actor parent context).subject := by
  unfold RoomsService.createBinding at hb
  unfold RoomTask.subject
  cases htype : dto.roomType with
  | major =>
    rw [if_pos htype] at hb
    obtain ⟨m, hm, rfl⟩ := Option.map_eq_some_iff.mp hb
    simp only [htype, hm]
    rfl
  | course =>
    obtain ⟨u, ctx, -, rfl, -⟩ := hasked htype
    rw [if_neg (by rw [htype]; simp)] at hb
    obtain rfl := Option.some.inj hb
    simp only [htype]
    rfl
  | event =>
    simp only [htype]
    rfl
  | forum =>
    simp only [htype]
    rfl

/-- A statement gives a subject a room only as the transaction of a create for it. -/
theorem hasCanonical_statement (hg : Grounded s t) (hbound : Bound s) (hchecked : CreateChecked s t) {k : RoomType × Id}
    (h : HasCanonical (statement w s t).store k) : HasCanonical s k ∨ t.SlugFree s ∧ k ∈ t.subject := by
  have hsubject : ∀ b ∈ s.bindings.rows, (statement w s t).store.subject b = s.subject b :=
    fun b hb => subject_statement hg (hbound b hb)
  have hstep := bindingStep_statement w s t
  obtain ⟨b, hb, hk⟩ := h
  generalize (statement w s t).store = s' at hstep hsubject hb hk
  cases hstep with
  | same hbindings =>
    rw [hbindings] at hb
    exact .inl ⟨b, hb, hsubject b hb ▸ hk⟩
  | added hslug hb' hbindings hroom =>
    rw [hbindings] at hb
    rcases Table.mem_insert.mp hb with hb | ⟨rfl, -⟩
    · exact .inl ⟨b, hb, hsubject b hb ▸ hk⟩
    · obtain ⟨room, hroom, htype⟩ := Option.map_eq_some_iff.mp hroom
      rw [Db.subject, hroom, Option.bind_some, htype] at hk
      exact .inr ⟨hslug, createBinding_subject hchecked.1 hb' ▸ hk⟩

/-- **One statement.** It keeps the subjects unique. -/
theorem canonical_statement (hg : Grounded s t) (hbound : Bound s) (hchecked : CreateChecked s t) (h : CanonicalUnique s) :
    CanonicalUnique (statement w s t).store := by
  have hsubject : ∀ b ∈ s.bindings.rows, (statement w s t).store.subject b = s.subject b :=
    fun b hb => subject_statement hg (hbound b hb)
  have hstep := bindingStep_statement w s t
  generalize (statement w s t).store = s' at hstep hsubject ⊢
  cases hstep with
  | same hbindings => exact canonicalUnique_same (congrArg Table.rows hbindings) hsubject h
  | @added dto user actor parent context b hslug hb hbindings hroom =>
    have hnew : ∀ b' ∈ s.bindings.rows, b'.roomId ≠ b.roomId := by
      intro b' hb' he
      have hthere := hbound b' hb'
      rw [he, RoomsService.createBinding_roomId hb, Db.room?, s.rooms.get?_next] at hthere
      exact absurd hthere Bool.false_ne_true
    have hrows : s'.bindings.rows = s.bindings.rows ++ [b] := by
      rw [hbindings]
      exact Table.rows_insert (Table.get?_eq_none.mpr hnew)
    refine canonicalUnique_insert hrows hsubject (fun k hk => ?_) h
    obtain ⟨room, hroom, htype⟩ := Option.map_eq_some_iff.mp hroom
    rw [Db.subject, hroom, Option.bind_some, htype, createBinding_subject hchecked.1 hb] at hk
    exact hchecked.2 k hk

/-- A request goes on with what it has found out. -/
theorem checked_next (hw : w.AnswersCourse) (hchecked : CreateChecked s t) :
    ∀ t' ∈ (statement w s t).next, CreateChecked (statement w s t).store t' := by
  cases t with
  | create dto user =>
    rw [statement_aside rfl]
    refine next_orFail fun c hc => next_go fun hcourse => ?_
    obtain ⟨actor, parent, context⟩ := c
    -- for a course, the context that goes on is the answer about the unit named
    obtain ⟨room, u, ctx, b, -, -, hanswer, hcontext, -, -, hu⟩ := (RoomsService.createChecks_ok hc).course hcourse
    refine ⟨u, ctx, hu, hcontext, hw u ctx ?_⟩
    unfold AcademicReferenceService.context at hanswer
    split at hanswer
    · cases hanswer
    · cases hanswer
    · cases hanswer
    · next hok => rw [hok, Except.ok.inj hanswer]
  -- the query has passed, and what it found holds in this state
  | createExisting dto user actor parent context =>
    rw [statement_aside rfl]
    exact next_orFail fun _ hexisting => next_go ⟨hchecked, not_hasCanonical_of_createExisting hchecked hexisting⟩
  | createTx | joinSave | addRuleTx | updateMembershipTx | updateStatusSave | updatePolicyTx =>
    exact fun _ ht' => absurd ht' List.not_mem_nil
  | joinMembership room actor =>
    rw [statement_aside rfl]
    refine next_orFail fun next _ => ?_
    cases next with
    | inl m => exact fun _ ht' => absurd ht' List.not_mem_nil
    | inr m => exact next_go trivial
  | _ =>
    rw [statement_aside rfl]
    exact next_orFail fun _ _ => next_go trivial

/-- What a create has found out still holds after a statement that does not insert inside its window. -/
theorem checked_other {o : RoomTask} (hg : Grounded s t) (hbound : Bound s) (hchecked : CreateChecked s t)
    (hapart : ¬ InsertsBetween w s t o) (ho : CreateChecked s o) : CreateChecked (statement w s t).store o := by
  cases o with
  | createTx dto user actor parent context =>
    refine ⟨ho.1, fun k hk hcanonical => ?_⟩
    rcases hasCanonical_statement hg hbound hchecked hcanonical with hbefore | ⟨hslug, hsame⟩
    · exact ho.2 k hk hbefore
    · exact hapart ⟨hslug, k, hsame, hk⟩
  | createExisting dto user actor parent context => exact ho
  | _ => trivial

/-! ## Interleavings

Along an interleaving in which nothing inserts for a subject between the two, subjects have one room. -/

/-- The invariant of the interleavings. -/
structure CanonicalPool (p : Pool Db RoomTask) : Prop where
  grounded : GroundedPool (p, ())
  bound : Bound p.store
  unique : CanonicalUnique p.store
  checked : ∀ a ∈ p.tasks, CreateChecked p.store a.2

/-- One statement keeps the invariant. -/
theorem canonicalPool_step {p : Pool Db RoomTask} (h : CanonicalPool p) {act : Act RoomRequest World}
    (hacademic : ∀ i w, act = .run i w → w.AnswersCourse) (hapart : p.Apart InsertsBetween act) :
    CanonicalPool (p.step roomTasks act) := by
  have hgrounded : GroundedPool (Pool.observe roomTasks (fun _ _ _ _ g => g) (p, ()) act) := grounded_step h.grounded act
  have hchecked : ∀ a ∈ (p.step roomTasks act).tasks, CreateChecked (p.step roomTasks act).store a.2 := by
    refine Pool.tasks_step (fun r _ => ?_) (fun i w n t he hi => ?_) h.checked
    · obtain ⟨user, o⟩ := r
      cases o <;> trivial
    -- the statement of one request, and what the others have checked
    · have hsplit := Pool.perm_eraseIdx hi
      have ht : (n, t) ∈ p.tasks := List.mem_of_getElem? hi
      subst he
      refine ⟨checked_next (hacademic i w rfl) (h.checked (n, t) ht), fun o ho => ?_⟩
      exact checked_other (h.grounded.2 (n, t) ht) h.bound (h.checked (n, t) ht) (hapart n t hi o ho)
        (h.checked o (hsplit.mem_iff.mpr (List.mem_cons_of_mem _ ho)))
  cases act with
  | start r => exact ⟨hgrounded, h.bound, h.unique, hchecked⟩
  | run i w =>
    cases hi : p.tasks[i]? with
    | none =>
      rw [Pool.step_run_none hi]
      exact h
    | some a =>
      have ha := List.mem_of_getElem? hi
      have hg := h.grounded.2 a ha
      have hstore : (p.step roomTasks (.run i w)).store = (statement w p.store a.2).store := by
        rw [Pool.step_run hi]
        rfl
      refine ⟨hgrounded, ?_, ?_, hchecked⟩
      · rw [hstore]
        exact bound_statement hg h.bound
      · rw [hstore]
        exact canonical_statement hg h.bound (h.checked a ha) h.unique

/-- **Canonical rooms are unique.** In every interleaving of any room operations, no major has two rooms of
type `major` and no course of a curriculum two of type `course` in any state, when no create inserts its room
between the query for a canonical room and the transaction of another create for the same subject. -/
theorem canonical_rooms_unique (acts : List (Act RoomRequest World))
    (hacademic : ∀ i w, Act.run i w ∈ acts → w.AnswersCourse)
    (hapart : Meets (Pool.step roomTasks) (fun p act => p.Apart InsertsBetween act) (.idle .empty) acts) :
    Always (Pool.step roomTasks) (fun p => CanonicalUnique p.store) (.idle .empty) acts := by
  have hidle : CanonicalPool (.idle .empty) :=
    ⟨groundedPool_idle _ _, fun b hb => absurd hb List.not_mem_nil, fun b hb => absurd hb List.not_mem_nil,
      fun a ha => absurd ha List.not_mem_nil⟩
  have hpools := always_of_meets (P := CanonicalPool) (fun act hact p hp hapart =>
    canonicalPool_step hp (fun i w he => hacademic i w (he ▸ hact)) hapart) hidle hapart
  exact hpools.imp fun _ hp => hp.unique

/-! ## Samples

Two creations for one subject, one after the other and at once. -/

namespace Sample

/-- The academic service knows every major, and every course is one of the major `7`. -/
def academic : World :=
  { World.quiet 5 with major := fun _ => .ok (), academicContext := fun u => .ok ⟨u.id, 7, 20, 30⟩ }

/-- An administrator creates the room of the major `7` under a slug. -/
def createMajor (slug : String) : Act RoomRequest World :=
  .start ⟨administrator, .create
    { slug, name := "Khoa học máy tính", roomType := .major, majorId := some (Id.text 7) }⟩

/-- An administrator creates the room of the course `40` under the first room. -/
def createCourse (slug : String) : Act RoomRequest World :=
  .start ⟨administrator, .create
    { slug, name := "Cấu trúc dữ liệu", roomType := .course, parentRoomId := some (Id.text Db.empty.rooms.next)
      curriculumCourseId := some (Id.text 40) }⟩

/-- The creates of two rooms of the major and of two rooms of a course, one after the other. -/
def createsInTurn : List (Act RoomRequest World) :=
  [createMajor "khmt", createMajor "khoa-hoc-may-tinh", createCourse "ctdl", createCourse "cau-truc-du-lieu"].flatMap
    fun create => create :: List.replicate 3 (.run 0 academic)

/-- Two creates query before either inserts. -/
def twoCreates : List (Act RoomRequest World) :=
  [createMajor "khmt", createMajor "khoa-hoc-may-tinh"] ++ List.replicate 6 (.run 0 academic)

end Sample

/-- The second room of the major and that of the course are refused. -/
theorem canonical_rooms_unique_inTurn :
    Always (Pool.step roomTasks) (fun p => CanonicalUnique p.store) (.idle .empty) Sample.createsInTurn
      ∧ (AcaSocial.run (Pool.step roomTasks) (.idle .empty) Sample.createsInTurn).store.bindings.rows.length = 2 := by
  refine ⟨canonical_rooms_unique Sample.createsInTurn ?_ (by decide), by decide⟩
  intro i w hw u ctx hctx
  have hworld : w = Sample.academic := by
    simp only [Sample.createsInTurn, Sample.createMajor, Sample.createCourse, List.flatMap_cons, List.flatMap_nil,
      List.mem_append, List.mem_cons, List.mem_replicate, reduceCtorEq, Act.run.injEq] at hw
    tauto
  subst hworld
  obtain rfl := Reply.ok.inj hctx
  rfl

/-- Both rooms are those of the major. -/
theorem not_canonical_rooms_unique :
    ¬ Always (Pool.step roomTasks) (fun p => CanonicalUnique p.store) (.idle .empty) Sample.twoCreates := by
  intro hall
  have hlast := hall.last
  revert hlast
  decide

end AcaSocial
