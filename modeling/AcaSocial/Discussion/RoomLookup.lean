import AcaSocial.Discussion.Feed
import AcaSocial.Discussion.RoomStep

/-!
# Rooms by id and by slug

`findOne(idOrSlug, user)` of `rooms/rooms.service.ts`. A text with the form of a UUID is an id, and any other text is
a slug.

* **`isUuid`** — the form of a UUID.
* **`lookup`** — the room that the text names.
* **`SlugStep`** — what a call does to the slugs: a room keeps its own, and a new room has one that was free.
* **`findIdOrSlug_slug`** — a room is found by its slug, unless the slug has the form of a UUID.
* **`rooms_findable`** — the same for the rooms of every run.
-/

namespace AcaSocial

/-! ## The form of a UUID

A text has the form of a UUID by its lengths and characters, as the regular expression of the source checks it. -/

/-- `[0-9a-f]`, without regard to case. -/
def isHex (c : Char) : Bool := c.isDigit || "abcdef".toList.contains c.toLower

/-- The characters of the pattern, one after the other. -/
def uuidShape : List (Char → Bool) :=
  let hex := fun n => List.replicate n isHex
  let dash := fun c => decide (c = '-')
  hex 8 ++ dash :: hex 4 ++ dash :: "12345".toList.contains :: hex 3 ++
    dash :: (fun c => "89ab".toList.contains c.toLower) :: hex 3 ++ dash :: hex 12

/-- The text has one character for each of the shape. -/
def fits : List (Char → Bool) → List Char → Bool
  | [], [] => true
  | p :: shape, c :: text => p c && fits shape text
  | _, _ => false

/-- `/^[0-9a-f]{8}-[0-9a-f]{4}-[1-5][0-9a-f]{3}-[89ab][0-9a-f]{3}-[0-9a-f]{12}$/i`, read one character after the
other. -/
def isUuid (text : String) : Bool := fits uuidShape text.toList

/-- The spelling in lower case. -/
def lowered (text : String) : String := String.ofList (text.toList.map Char.toLower)

example : isUuid "30000000-0000-4000-8000-00000000010A" = true := by decide

/-! ## The lookup

A room is looked up by its id when the text has the form of one, and by its slug otherwise. -/

/-- A room, as `findOne` responds with it. -/
structure RoomDetail where
  room : Room
  academicBinding : Option RoomAcademicBinding
  deriving DecidableEq

namespace RoomsService

/-- `where: isUuid ? { id: idOrSlug } : { slug: idOrSlug }`. The database prints the id of a row as `idText`, and reads
letters of either case. -/
def lookup (idText : Id → String) (s : Db) (idOrSlug : String) : Option Room :=
  s.rooms.rows.find? fun r =>
    if isUuid idOrSlug then decide (idText r.id = lowered idOrSlug) else decide (r.slug = idOrSlug)

/-- `findOne(idOrSlug, user)`. -/
def findIdOrSlug (idText : Id → String) (s : Db) (idOrSlug : String) (user : GatewayUser) :
    Except HttpError RoomDetail := do
  let room ← orThrow (lookup idText s idOrSlug) (.notFound "Room not found")
  require (room.visibility ≠ .privateRoom ∨ user.isModerator
      ∨ (user.id.bind (s.membership? room.id)).any fun m => decide (m.status = .active))
    (.notFound "Room not found")
  return ⟨room, s.binding? room.id⟩

/-- The viewer may see the room. -/
def VisibleTo (s : Db) (user : GatewayUser) (room : Room) : Prop :=
  room.visibility ≠ .privateRoom ∨ user.isModerator
    ∨ (user.id.bind (s.membership? room.id)).any fun m => decide (m.status = .active)

/-- The ids that the database has generated are UUIDs of the version that it says, in lower case, and no two are the
same. -/
def GeneratedIds (idText : Id → String) (s : Db) : Prop :=
  (∀ r ∈ s.rooms, isUuid (idText r.id) = true ∧ lowered (idText r.id) = idText r.id)
    ∧ ∀ r ∈ s.rooms, ∀ r' ∈ s.rooms, idText r.id = idText r'.id → r.id = r'.id

/-- No two rooms have one slug. -/
def SlugsDistinct (s : Db) : Prop := ∀ r ∈ s.rooms, ∀ r' ∈ s.rooms, r.slug = r'.slug → r.id = r'.id

/-- Every room is found by its id and by its slug, by everybody who may see it. -/
def Findable (idText : Id → String) (s : Db) : Prop :=
  ∀ user, ∀ r ∈ s.rooms, VisibleTo s user r →
    findIdOrSlug idText s (idText r.id) user = .ok ⟨r, s.binding? r.id⟩
      ∧ findIdOrSlug idText s r.slug user = .ok ⟨r, s.binding? r.id⟩

/-- The slug of the room is not taken for the id of something else. -/
def NotMistaken (idText : Id → String) (r : Room) : Prop := isUuid r.slug = false ∨ lowered r.slug = idText r.id

variable {idText : Id → String} {s s' : Db} {user : GatewayUser} {r : Room}

/-! ### One state

In one state all rooms are found under both exactly when no slug has the form of a UUID. -/

/-- A viewer of the room gets it when the text names it. -/
theorem findIdOrSlug_eq_ok {text : String} (hr : r ∈ s.rooms) (hvisible : VisibleTo s user r) :
    findIdOrSlug idText s text user = .ok ⟨r, s.binding? r.id⟩ ↔ lookup idText s text = some r := by
  simp only [findIdOrSlug, bind_eq_ok, orThrow_eq_ok, require_eq_ok, pure_eq_ok]
  constructor
  · rintro ⟨room, hroom, -, -, heq⟩
    obtain rfl : room = r := congrArg RoomDetail.room heq
    exact hroom
  · intro hroom
    exact ⟨r, hroom, (), hvisible, rfl⟩

/-- A room is the first that a condition selects, if it is the only one. -/
theorem find?_rooms {p : Room → Bool} (hr : r ∈ s.rooms)
    (hunique : p r = true → ∀ r' ∈ s.rooms, p r' = true → r'.id = r.id) :
    s.rooms.rows.find? p = some r ↔ p r = true := by
  constructor
  · exact fun h => List.find?_some h
  · intro hp
    cases hfind : s.rooms.rows.find? p with
    | none => exact absurd hp (List.find?_eq_none.mp hfind r hr)
    | some r' =>
      have hmem : r' ∈ s.rooms := List.mem_of_find?_eq_some hfind
      rw [Table.eq_of_key_eq hmem hr (hunique hp r' hmem (List.find?_some hfind))]

/-- A room is found under its id. -/
theorem lookup_id (hids : GeneratedIds idText s) (hr : r ∈ s.rooms) : lookup idText s (idText r.id) = some r := by
  obtain ⟨huuid, hlower⟩ := hids.1 r hr
  simp only [lookup, huuid, hlower, if_pos]
  refine (find?_rooms hr fun _ r' hr' hsame => ?_).mpr (decide_eq_true rfl)
  exact hids.2 r' hr' r hr (of_decide_eq_true hsame)

/-- By its id, a room is read as the other services read the room of a post. -/
theorem findIdOrSlug_id (hids : GeneratedIds idText s) (hr : r ∈ s.rooms) :
    findIdOrSlug idText s (idText r.id) user = (findOne s r.id user).map fun room => ⟨room, s.binding? room.id⟩ := by
  have hroom : s.room? r.id = some r := Table.get?_eq_some.mpr ⟨hr, rfl⟩
  rw [findIdOrSlug, findOne, lookup_id hids hr, hroom, orThrow_some, ok_bind, ok_bind, require_bind, require_bind]
  split <;> rfl

/-- By its slug, a room is found if and only if the slug is not mistaken for an id. -/
theorem lookup_slug (hids : GeneratedIds idText s) (hslugs : SlugsDistinct s) (hr : r ∈ s.rooms) :
    lookup idText s r.slug = some r ↔ NotMistaken idText r := by
  cases huuid : isUuid r.slug with
  | true =>
    -- the text is compared with the ids
    simp only [lookup, huuid, if_pos]
    have hunique : decide (idText r.id = lowered r.slug) = true → ∀ r' ∈ s.rooms,
        decide (idText r'.id = lowered r.slug) = true → r'.id = r.id := fun hown r' hr' hsame =>
      hids.2 r' hr' r hr ((of_decide_eq_true hsame).trans (of_decide_eq_true hown).symm)
    rw [find?_rooms hr hunique, decide_eq_true_iff, NotMistaken, huuid]
    exact ⟨fun hown => .inr hown.symm, fun h => (h.resolve_left Bool.noConfusion).symm⟩
  | false =>
    simp only [lookup, huuid, Bool.false_eq_true, if_false]
    rw [find?_rooms hr fun _ r' hr' hsame => hslugs r' hr' r hr (of_decide_eq_true hsame)]
    exact iff_of_true (decide_eq_true rfl) (.inl huuid)

/-- Everybody may see the room as a moderator. -/
theorem findable_iff (hids : GeneratedIds idText s) (hslugs : SlugsDistinct s) :
    Findable idText s ↔ ∀ r ∈ s.rooms, NotMistaken idText r := by
  constructor
  · intro h r hr
    have hvisible : VisibleTo s Sample.administrator r := .inr (.inl rfl)
    exact (lookup_slug hids hslugs hr).mp ((findIdOrSlug_eq_ok hr hvisible).mp (h _ r hr hvisible).2)
  · intro h user r hr hvisible
    rw [findIdOrSlug_eq_ok hr hvisible, findIdOrSlug_eq_ok hr hvisible]
    exact ⟨lookup_id hids hr, (lookup_slug hids hslugs hr).mpr (h r hr)⟩

/-! ### Slugs along a run

Slugs are written by creations alone, and no two rooms have one. -/

/-- What a call does to the slugs. -/
def SlugStep (c : Call) (s s' : Db) : Prop :=
  ∀ r' ∈ s'.rooms, (∃ r ∈ s.rooms, r.id = r'.id ∧ r.slug = r'.slug)
    ∨ ∃ dto, c.operation = .rooms (.create dto) ∧ r'.slug = dto.slug ∧ r'.id = s.rooms.next
      ∧ ∀ r ∈ s.rooms, r.slug ≠ dto.slug

variable {c : Call}

theorem SlugStep.same (h : s'.rooms = s.rooms) : SlugStep c s s' :=
  fun r' hr' => .inl ⟨r', h ▸ hr', rfl, rfl⟩

/-- A room is saved under its slug. -/
theorem SlugStep.save {room room' : Room} {k : Id} (h : s'.rooms = s.rooms.save room') (hroom : s.room? k = some room)
    (hslug : room'.slug = room.slug) (hid : room'.id = room.id) : SlugStep c s s' := by
  intro r' hr'
  rw [h] at hr'
  rcases Serial.mem_save.mp hr' with ⟨rfl, -⟩ | ⟨hr', -⟩
  · exact .inl ⟨room, (Table.get?_eq_some.mp hroom).1, hid.symm, hslug.symm⟩
  · exact .inl ⟨r', hr', rfl, rfl⟩

/-- A new room has the slug of the dto, which no room had. -/
theorem create_slugStep (w : World) (dto : CreateRoomDto) :
    SlugStep ⟨w, user, .rooms (.create dto)⟩ s (create w s dto user).state := by
  refine commit_induction (P := SlugStep _ s) (.same rfl) fun s' a h => ?_
  simp only [createTx, bind_eq_ok, require_eq_ok, pure_eq_ok, Prod.mk.injEq] at h
  obtain ⟨-, -, ⟨parent, context⟩, -, -, hfree, rfl, -⟩ := h
  intro r' hr'
  rcases Serial.mem_insert.mp hr' with hr' | rfl
  · exact .inl ⟨r', hr', rfl, rfl⟩
  · refine .inr ⟨dto, rfl, rfl, rfl, fun r hr hslug => hfree ?_⟩
    exact List.any_eq_true.mpr ⟨r, hr, decide_eq_true hslug⟩

/-- To join writes no slug. -/
theorem join_slugStep (id : UuidText) : SlugStep c s (join s id user).state := by
  rcases join_cases s id user with hsame | ⟨actor, room, m, -, -, -, hsaved⟩
  · exact .same (congrArg Db.rooms hsame)
  · rw [hsaved]
    exact .same rfl

/-- A rule writes no slug. -/
theorem addRule_slugStep (w : World) (id : UuidText) (dto : CreateRoomRuleDto) :
    SlugStep c s (addRule w s id dto user).state := by
  rw [addRule]
  refine commit_induction (P := SlugStep c s) (.same rfl) fun s' a h => ?_
  simp only [addRuleTx, bind_eq_ok, orThrow_eq_ok, pure_eq_ok, Prod.mk.injEq] at h
  obtain ⟨-, -, room, hroom, -, -, rfl, -⟩ := h
  exact .save rfl hroom rfl rfl

/-- A membership writes no slug. -/
theorem updateMembership_slugStep (w : World) (id memberId : UuidText) (dto : UpdateMembershipDto) :
    SlugStep c s (updateMembership w s id memberId dto user).state := by
  rw [updateMembership]
  refine commit_induction (P := SlugStep c s) (.same rfl) fun s' a h => ?_
  simp only [updateMembershipTx, bind_eq_ok, pure_eq_ok, Prod.mk.injEq] at h
  obtain ⟨-, -, -, -, -, -, -, -, -, -, -, -, rfl, -⟩ := h
  exact .same rfl

/-- A status writes no slug. -/
theorem updateStatus_slugStep (w : World) (id : UuidText) (status : RoomStatus) :
    SlugStep c s (updateStatus w s id status user).state := by
  refine commit_induction (P := SlugStep c s) (.same rfl) fun s' a h => ?_
  simp only [bind_eq_ok, orThrow_eq_ok, pure_eq_ok, Prod.mk.injEq] at h
  obtain ⟨-, -, room, hroom, rfl, -⟩ := h
  exact .save rfl hroom rfl rfl

/-- A policy writes no slug. -/
theorem updatePolicy_slugStep (w : World) (id : UuidText) (dto : UpdateRoomPolicyDto) :
    SlugStep c s (updatePolicy w s id dto user).state := by
  rw [updatePolicy]
  refine commit_induction (P := SlugStep c s) (.same rfl) fun s' a h => ?_
  simp only [updatePolicyTx, bind_eq_ok, orThrow_eq_ok, pure_eq_ok, Prod.mk.injEq] at h
  obtain ⟨-, -, room, hroom, -, -, rfl, -⟩ := h
  exact .save rfl hroom rfl rfl

/-- Whatever the call, a room keeps its slug or is new. -/
theorem slug_step (s : Db) (c : Call) : SlugStep c s (s.step c) := by
  cases hrooms : c.operation.isRooms with
  | false =>
    rcases seats_step (s := s) hrooms with hsame | ⟨k, u, hjoined⟩
    · exact .same (Prod.mk.inj hsame).1
    · exact .same (Prod.mk.inj hjoined).1
  | true =>
    obtain ⟨w, user, o⟩ := c
    cases o with
    | rooms o =>
      cases o with
      | create dto => exact create_slugStep w dto
      | join id => exact join_slugStep id
      | addRule id dto => exact addRule_slugStep w id dto
      | updateMembership id memberId dto => exact updateMembership_slugStep w id memberId dto
      | updateStatus id status => exact updateStatus_slugStep w id status
      | updatePolicy id dto => exact updatePolicy_slugStep w id dto
    | _ => cases hrooms

/-- A call keeps the slugs apart. -/
theorem SlugsDistinct.step (h : SlugsDistinct s) (c : Call) : SlugsDistinct (s.step c) := by
  intro r₁ hr₁ r₂ hr₂ hsame
  rcases slug_step s c r₁ hr₁ with ⟨r, hr, hid, hslug⟩ | ⟨dto, hop, hslug, hid, hfree⟩
  · rcases slug_step s c r₂ hr₂ with ⟨r', hr', hid', hslug'⟩ | ⟨dto, -, hslug', -, hfree⟩
    · rw [← hid, ← hid']
      exact h r hr r' hr' (hslug.trans (hsame.trans hslug'.symm))
    · exact absurd (hslug.trans (hsame.trans hslug')) (hfree r hr)
  · rcases slug_step s c r₂ hr₂ with ⟨r', hr', -, hslug'⟩ | ⟨_, -, -, hid', -⟩
    · exact absurd (hslug'.trans (hsame.symm.trans hslug)) (hfree r' hr')
    · exact hid.trans hid'.symm

/-- No two rooms have one slug after any run. -/
theorem slugsDistinct_after (calls : List Call) : SlugsDistinct (Db.after calls) :=
  run_invariant (P := SlugsDistinct) (fun _ c h => h.step c) (fun _ hr => absurd hr List.not_mem_nil) calls

/-- The call creates no room whose slug has the form of a UUID. -/
def PlainSlug (c : Call) : Prop := ∀ dto, c.operation = .rooms (.create dto) → isUuid dto.slug = false

/-- The slugs of the rooms are those of the calls. -/
theorem plain_slugs {calls : List Call} (hcalls : ∀ c ∈ calls, PlainSlug c)
    (h : ∀ r ∈ s.rooms, isUuid r.slug = false) : ∀ r ∈ (run Db.step s calls).rooms, isUuid r.slug = false := by
  induction calls generalizing s with
  | nil => exact h
  | cons c calls ih =>
    refine ih (fun c' hc' => hcalls c' (List.mem_cons_of_mem c hc')) fun r' hr' => ?_
    rcases slug_step s c r' hr' with ⟨r, hr, -, hslug⟩ | ⟨dto, hop, hslug, -, -⟩
    · rw [← hslug]
      exact h r hr
    · rw [hslug]
      exact hcalls c List.mem_cons_self dto hop

/-- **Rooms are found by id and by slug.** After every run they are, if and only if no slug is mistaken for an id; and
so they are when no call has created a room under a slug with the form of a UUID. -/
theorem rooms_findable {calls : List Call} (hids : GeneratedIds idText (Db.after calls)) :
    (Findable idText (Db.after calls) ↔ ∀ r ∈ (Db.after calls).rooms, NotMistaken idText r)
      ∧ ((∀ c ∈ calls, PlainSlug c) → Findable idText (Db.after calls)) := by
  have hiff := findable_iff hids (slugsDistinct_after calls)
  refine ⟨hiff, fun hcalls => hiff.mpr fun r hr => .inl ?_⟩
  exact plain_slugs hcalls (fun _ hr => absurd hr List.not_mem_nil) r hr

/-! ### Samples

A forum that is found, and one with the slug of a UUID that is not. -/

/-- Ids as the database prints them. -/
def printed (i : Id) : String :=
  String.ofList ("30000000-0000-4000-8000-00000000000".toList ++ [Char.ofNat (48 + i)])

theorem generatedIds_printed (h : ∀ r ∈ s.rooms.rows, r.id = 0) : GeneratedIds printed s := by
  refine ⟨fun r hr => ?_, fun r hr r' hr' _ => (h r hr).trans (h r' hr').symm⟩
  rw [h r hr]
  decide

theorem rooms_findable_forum :
    GeneratedIds printed (Db.after [Sample.openForum]) ∧ (∀ c ∈ [Sample.openForum], PlainSlug c)
      ∧ Findable printed (Db.after [Sample.openForum]) := by
  have hids : GeneratedIds printed (Db.after [Sample.openForum]) := generatedIds_printed (by decide)
  have hplain : ∀ c ∈ [Sample.openForum], PlainSlug c := by
    intro c hc dto hop
    rw [List.mem_singleton.mp hc] at hop
    cases hop
    decide
  exact ⟨hids, hplain, (rooms_findable hids).2 hplain⟩

/-- A room under a slug that has the form of a UUID. -/
def disguised : CreateRoomDto :=
  { slug := "11111111-1111-4111-8111-111111111111", name := "Nhóm học", roomType := .forum }

def disguisedRoom : List Call := [Sample.call 0 (Sample.student 1) (.rooms (.create disguised))]

/-- The slug is one that is accepted, and nobody finds the room by it. -/
theorem rooms_findable_disguised :
    TagsService.isSlug disguised.slug = true ∧ disguised.slug.length = 36
      ∧ GeneratedIds printed (Db.after disguisedRoom)
      ∧ ((Db.after disguisedRoom).rooms.rows.map (·.slug)) = [disguised.slug]
      ∧ findIdOrSlug printed (Db.after disguisedRoom) disguised.slug (Sample.student 1)
        = .error (.notFound "Room not found")
      ∧ ¬ Findable printed (Db.after disguisedRoom) := by
  have hnone : findIdOrSlug printed (Db.after disguisedRoom) disguised.slug (Sample.student 1)
      = .error (.notFound "Room not found") := by decide
  refine ⟨by decide, by decide, generatedIds_printed (by decide), by decide, hnone, fun hfindable => ?_⟩
  let room := (Db.after disguisedRoom).rooms.rows.head (by decide)
  have hroom : room ∈ (Db.after disguisedRoom).rooms := List.head_mem (by decide)
  have hvisible : VisibleTo (Db.after disguisedRoom) (Sample.student 1) room := .inl (by decide)
  have hslug : room.slug = disguised.slug := by decide
  have hfound := (hfindable _ room hroom hvisible).2
  rw [hslug, hnone] at hfound
  cases hfound

end RoomsService

end AcaSocial
