import AcaSocial.Discussion.Service

/-!
# The feed and the detail page

`findAll` decides in one SQL condition what `findOne` decides by `requireReadable` and then by the room of
the post.

* **`InFeed`** — some page of `findAll` without a filter has the post.
* **`ShutOut`** — who is listed a post but not shown it: its author, once the room is private and the author
  is no active member of it.

`feed_agrees` says that the two show the same posts exactly when nobody is shut out.
-/

namespace AcaSocial

variable {w : World} {s : Db} {user : GatewayUser} {d : Discussion}

/-! ## Pages

A feed is cut into pages. -/

/-- The pages have the rows and no others. -/
theorem exists_mem_pageOf {α : Type} {rows : List α} {limit : Nat} {x : α} (hlimit : 0 < limit) :
    (∃ page, x ∈ pageOf (page + 1) limit rows) ↔ x ∈ rows := by
  constructor
  · rintro ⟨page, hx⟩
    exact mem_of_mem_pageOf hx
  · intro hx
    obtain ⟨i, hi, rfl⟩ := List.mem_iff_getElem.mp hx
    refine ⟨i / limit, List.mem_iff_getElem.mpr ⟨i % limit, ?_, ?_⟩⟩
    · -- the position on its page
      have hmod := Nat.mod_lt i hlimit
      have hdiv := Nat.div_add_mod' i limit
      rw [pageOf, List.length_take, List.length_drop, Nat.add_sub_cancel]
      omega
    · simp only [pageOf, List.getElem_take, List.getElem_drop, Nat.add_sub_cancel]
      congr 1
      exact Nat.div_add_mod' i limit

/-! ## The feed

The posts that a viewer is shown, and where. -/

/-- Some page of `findAll` has the post. -/
def InFeed (w : World) (s : Db) (limit : Nat) (sort : SortBy) (user : GatewayUser) (d : Discussion) : Prop :=
  ∃ page, ∃ view ∈ (DiscussionsService.findAll w s { page := page + 1, limit, sort } user).data, view.id = d.id

/-- The viewer is an active member of the room. -/
def GatewayUser.activeIn (user : GatewayUser) (s : Db) (r : Id) : Bool :=
  (user.id.bind (s.membership? r)).any fun m => decide (m.status = .active)

/-- `requireReadable` passes. -/
def Readable (user : GatewayUser) (d : Discussion) : Prop :=
  approved d ∨ user.isModerator ∨ user.id = some d.authorId

/-- Without a filter, the condition of the query is about the post, its room and the viewer. -/
theorem listed_iff {page limit : Nat} {sort : SortBy} (hlive : d.deletedAt = none) :
    DiscussionsService.listed w s { page, limit, sort } user d
      ↔ Readable user d ∧ (user.isModerator ∨ DiscussionsService.roomAdmits s user d) := by
  simp only [DiscussionsService.listed, hlive, Option.isNone_none, Option.all_none, Bool.true_and, Bool.and_true,
    Bool.and_eq_true, Bool.or_eq_true, decide_eq_true_eq, Readable]
  tauto

/-- A filter only leaves posts out. -/
theorem of_listed {filter : FilterDiscussionDto} (h : DiscussionsService.listed w s filter user d) :
    d.deletedAt = none ∧ Readable user d ∧ (user.isModerator ∨ DiscussionsService.roomAdmits s user d) := by
  simp only [DiscussionsService.listed, Bool.and_eq_true, Bool.or_eq_true, decide_eq_true_eq,
    Option.isNone_iff_eq_none] at h
  obtain ⟨⟨⟨⟨⟨⟨⟨⟨hlive, hreadable⟩, -⟩, -⟩, hroom⟩, -⟩, -⟩, -⟩, -⟩ := h
  refine ⟨hlive, ?_, hroom⟩
  unfold Readable
  tauto

/-- A post is in the feed when the query has it: the pages together are the rows. -/
theorem inFeed_iff {limit : Nat} {sort : SortBy} (hlimit : 0 < limit) (hd : d ∈ s.discussions)
    (hlive : d.deletedAt = none) :
    InFeed w s limit sort user d
      ↔ Readable user d ∧ (user.isModerator ∨ DiscussionsService.roomAdmits s user d) := by
  have hquery : DiscussionsService.listed w s { page := 1, limit, sort } user d
      ↔ Readable user d ∧ (user.isModerator ∨ DiscussionsService.roomAdmits s user d) := listed_iff hlive
  rw [← hquery]
  constructor
  · rintro ⟨page, view, hview, hid⟩
    obtain ⟨d', hd', rfl⟩ := List.mem_map.mp hview
    have hrow := List.mem_mergeSort.mp (mem_of_mem_pageOf hd')
    obtain ⟨hmem, hlisted⟩ := Table.mem_select.mp hrow
    obtain rfl : d' = d := Table.eq_of_key_eq hmem hd hid
    exact hlisted
  · intro hlisted
    have hrow : d ∈ (s.discussions.select (DiscussionsService.listed w s { page := 1, limit, sort } user)).mergeSort
        fun a b => (DiscussionsService.sortKey sort a).le (decide (sort = .oldest))
          (DiscussionsService.sortKey sort b) :=
      List.mem_mergeSort.mpr (Table.mem_select.mpr ⟨hd, hlisted⟩)
    obtain ⟨page, hpage⟩ := (exists_mem_pageOf hlimit).mpr hrow
    exact ⟨page, _, List.mem_map_of_mem hpage, rfl⟩

/-! ## The detail page

Who may open a post, and who its room. -/

/-- A room is shown to members, and to moderators. -/
theorem findOne_isOk {r : Id} :
    (∃ room, RoomsService.findOne s r user = .ok room) ↔ ∃ room, s.room? r = some room
      ∧ (room.visibility ≠ .privateRoom ∨ user.isModerator ∨ user.activeIn s r) := by
  simp only [RoomsService.findOne, bind_eq_ok, orThrow_eq_ok, require_eq_ok, pure_eq_ok]
  constructor
  · rintro ⟨room', room, hroom, -, hvisible, rfl⟩
    have hid : room.id = r := (Table.get?_eq_some.mp hroom).2
    rw [hid] at hvisible
    exact ⟨room, hroom, hvisible⟩
  · rintro ⟨room, hroom, hvisible⟩
    have hid : room.id = r := (Table.get?_eq_some.mp hroom).2
    refine ⟨room, room, hroom, (), ?_, rfl⟩
    rw [hid]
    exact hvisible

/-- A post is shown to those who see its room. -/
theorem requireVisible_eq_ok {k : Option Id} {u : Unit} :
    RoomsService.requireVisible s k user = .ok u ↔ ∀ r ∈ k, ∃ room, s.room? r = some room
      ∧ (room.visibility ≠ .privateRoom ∨ user.isModerator ∨ user.activeIn s r) := by
  cases k with
  | none => exact ⟨fun _ r hr => (by cases hr), fun _ => rfl⟩
  | some r =>
    simp only [Option.mem_some, forall_eq']
    rw [← findOne_isOk]
    show (RoomsService.findOne s r user).map (fun _ => ()) = .ok u ↔ _
    cases RoomsService.findOne s r user with
    | error e => exact iff_of_false (fun hu => by cases hu) (by rintro ⟨room, hroom⟩; cases hroom)
    | ok room => exact ⟨fun _ => ⟨room, rfl⟩, fun _ => rfl⟩

/-- The detail of a post. -/
theorem detail_eq_ok {i : Id} {detail : DiscussionDetail} :
    DiscussionsService.findOne w s i user = .ok detail ↔ ∃ p, s.post? i = some p ∧ Readable user p
      ∧ RoomsService.requireVisible s p.roomId user = .ok ()
      ∧ detail = { ContentPresenter.discussion w s user p with
        acceptedAnswer := DiscussionsService.acceptedView w s user p } := by
  simp only [DiscussionsService.findOne, bind_eq_ok, orThrow_eq_ok, requireReadable_eq_ok, pure_eq_ok]
  constructor
  · rintro ⟨p, hp, -, hreadable, ⟨⟩, hvisible, rfl⟩
    exact ⟨p, hp, hreadable, hvisible, rfl⟩
  · rintro ⟨p, hp, hreadable, hvisible, rfl⟩
    exact ⟨p, hp, (), hreadable, (), hvisible, rfl⟩

/-- The endpoint responds with the detail, and counts the view of a post that is there. -/
theorem view_eq_ok {id : UuidText} {detail : DiscussionDetail} :
    (DiscussionsService.view w s id user).result = .ok detail
      ↔ DiscussionsService.findOne w s id.id user = .ok detail := by
  unfold DiscussionsService.view
  show (commit s (DiscussionsService.findOne w s id.id user >>= _) _).result = _ ↔ _
  cases h : DiscussionsService.findOne w s id.id user with
  | error e => rfl
  | ok found =>
    obtain ⟨p, hp, -⟩ := detail_eq_ok.mp h
    have hlock : lockPost s id.id = .ok p := lockPost_eq_ok.mpr hp
    rw [ok_bind, hlock]
    rfl

/-- The endpoint answers with the post when `requireReadable` and the room let the viewer through. -/
theorem view_isOk (hd : d ∈ s.discussions) (hlive : d.deletedAt = none) :
    (∃ detail, (DiscussionsService.view w s (Id.text d.id) user).result = .ok detail)
      ↔ Readable user d ∧ ∀ r ∈ d.roomId, ∃ room, s.room? r = some room
        ∧ (room.visibility ≠ .privateRoom ∨ user.isModerator ∨ user.activeIn s r) := by
  have hpost : s.post? d.id = some d := Content.post?_eq_some.mpr ⟨hd, rfl, hlive⟩
  simp only [view_eq_ok, detail_eq_ok, ← requireVisible_eq_ok (u := ())]
  constructor
  · rintro ⟨detail, p, hp, hreadable, hvisible, -⟩
    obtain rfl := Option.some.inj (hpost.symm.trans hp)
    exact ⟨hreadable, hvisible⟩
  · rintro ⟨hreadable, hvisible⟩
    exact ⟨_, d, hpost, hreadable, hvisible, rfl⟩

/-! ## The two together

A viewer can open what the feed shows, unless the room is hidden. -/

/-- **Who is listed a post without being shown it.** The second case does not arise while `room_id` refers
to a room. -/
inductive ShutOut (s : Db) (user : GatewayUser) (d : Discussion) : Prop where
  | author {r : Id} {room : Room} (hr : d.roomId = some r) (hroom : s.room? r = some room)
      (hprivate : room.visibility = .privateRoom) (hauthor : user.id = some d.authorId)
      (hrole : ¬ user.isModerator) (hmember : ¬ user.activeIn s r)
  | dangling {r : Id} (hr : d.roomId = some r) (hroom : s.room? r = none) (hreadable : Readable user d)

/-- A post without a room is not shut out. -/
theorem ShutOut.room (h : ShutOut s user d) : ∃ r, d.roomId = some r := by
  cases h with
  | author hr => exact ⟨_, hr⟩
  | dangling hr => exact ⟨_, hr⟩

/-- The condition of the list on the room, with the room at hand. -/
theorem roomAdmits_iff {r : Id} (hr : d.roomId = some r) :
    DiscussionsService.roomAdmits s user d ↔ user.id = some d.authorId
      ∨ (∀ room, s.room? r = some room → room.visibility ≠ .privateRoom) ∨ user.activeIn s r := by
  unfold DiscussionsService.roomAdmits GatewayUser.activeIn
  rw [hr]
  dsimp only
  cases s.room? r with
  | none => simp
  | some room => simp [or_assoc]

/-- **The feed agrees with the detail page.** A post is on a page of the feed exactly when its own page
opens, for every viewer that is not shut out of it, and for no other. -/
theorem feed_agrees {limit : Nat} {sort : SortBy} (hlimit : 0 < limit) (hd : d ∈ s.discussions)
    (hlive : d.deletedAt = none) :
    (InFeed w s limit sort user d
        ↔ ∃ detail, (DiscussionsService.view w s (Id.text d.id) user).result = .ok detail)
      ↔ ¬ ShutOut s user d := by
  rw [inFeed_iff hlimit hd hlive, view_isOk hd hlive]
  by_cases hreadable : Readable user d
  · simp only [hreadable, true_and]
    cases hr : d.roomId with
    | none =>
      have hadmits : DiscussionsService.roomAdmits s user d := by
        rw [DiscussionsService.roomAdmits, hr]
      refine iff_of_true (iff_of_true (.inr hadmits) fun r hr' => (by cases hr')) fun hout => ?_
      obtain ⟨r, hr'⟩ := hout.room
      cases hr.symm.trans hr'
    | some r =>
      rw [roomAdmits_iff hr]
      simp only [Option.mem_some, forall_eq']
      cases hroom : s.room? r with
      | none =>
        -- the list has the post, the detail page has no room
        have hout : ShutOut s user d := .dangling hr hroom hreadable
        simp [hout]
      | some room =>
        have hout : ShutOut s user d ↔ room.visibility = .privateRoom ∧ user.id = some d.authorId
            ∧ ¬ user.isModerator ∧ ¬ user.activeIn s r := by
          constructor
          · intro hout
            cases hout with
            | author hr' hroom' hprivate hauthor hrole hmember =>
              obtain rfl := Option.some.inj (hr.symm.trans hr')
              obtain rfl := Option.some.inj (hroom.symm.trans hroom')
              exact ⟨hprivate, hauthor, hrole, hmember⟩
            | dangling hr' hroom' _ =>
              obtain rfl := Option.some.inj (hr.symm.trans hr')
              cases hroom.symm.trans hroom'
          · rintro ⟨hprivate, hauthor, hrole, hmember⟩
            exact .author hr hroom hprivate hauthor hrole hmember
        rw [hout]
        simp only [Option.some.injEq, forall_eq', exists_eq_left']
        tauto
  · refine iff_of_true (iff_of_false (fun h => hreadable h.1) fun h => hreadable h.1) fun hout => ?_
    cases hout with
    | author _ _ _ hauthor _ _ => exact hreadable (.inr (.inr hauthor))
    | dangling _ _ h => exact hreadable h

/-! ## Samples

A question in a private room. -/

namespace Sample

/-- A private room of student `1`, `0`, in which student `2` asks. Then the owner bans student `2`. -/
def privateRoom : List Call := [
  call 0 (student 1) (.rooms (.create
    { slug := "nhom-kin", name := "Nhóm kín", roomType := .forum, visibility := some .privateRoom })),
  join 2,
  call 2 (student 2) (.discussions (.create
    { roomId := Id.text 0, title := "Which chapters are in the exam?",
      content := "The syllabus does not say which chapters.", postType := .question })),
  call 3 (student 1) (.rooms (.updateMembership (Id.text 0) (Id.text 2) { role := .member, status := .banned }))]

def question : Discussion := (Db.after privateRoom).discussions.rows.head (by decide)

end Sample

theorem question_mem : Sample.question ∈ (Db.after Sample.privateRoom).discussions :=
  List.head_mem (by decide)

theorem feed_agrees_owner :
    InFeed (World.quiet 5) (Db.after Sample.privateRoom) 20 .newest (Sample.student 1) Sample.question
      ↔ ∃ detail, (DiscussionsService.view (World.quiet 5) (Db.after Sample.privateRoom)
        (Id.text Sample.question.id) (Sample.student 1)).result = .ok detail := by
  refine (feed_agrees (by decide) question_mem (by decide)).mpr fun hout => ?_
  cases hout with
  | author _ _ _ hauthor => exact absurd hauthor (by decide)
  | @dangling r hr hroom =>
    obtain rfl : 0 = r := Option.some.inj hr
    exact absurd hroom (by decide)

/-- Student `2` is listed the question and not shown it. -/
theorem not_feed_agrees :
    InFeed (World.quiet 5) (Db.after Sample.privateRoom) 20 .newest (Sample.student 2) Sample.question
      ∧ ¬ ∃ detail, (DiscussionsService.view (World.quiet 5) (Db.after Sample.privateRoom)
        (Id.text Sample.question.id) (Sample.student 2)).result = .ok detail := by
  constructor
  · exact (inFeed_iff (by decide) question_mem (by decide)).mpr ⟨.inr (.inr (by decide)), .inr (by decide)⟩
  · rw [view_isOk question_mem (by decide)]
    rintro ⟨-, hroom⟩
    obtain ⟨room, hroom, hvisible⟩ := hroom 0 (by decide)
    obtain rfl : _ = room := Option.some.inj hroom
    revert hvisible
    decide

end AcaSocial
