import AcaSocial.Discussion.Service

/-!
# The post permission that is shown

`list` shows `effectivePostPermission`, which `postPermission` takes from the membership and the review policy.
`assertCanPost` also looks at the actor, at the visibility of the room and at its posting policy.

* **`canPost`** — `assertCanPost` with the membership that it may insert.
* **`ShownAsEnforced`** — what is shown is what `canPost` does.
* **`RoomMembership.silenced`** — the memberships that both refuse.
* **`Welcomes`** — the checks that only `assertCanPost` makes.

`permission_shown_iff` says that the two agree exactly for the signed-in viewers who are silenced or welcome.
-/

namespace AcaSocial

variable {w : World} {s : Db} {user : GatewayUser} {room : Room} {m : Option RoomMembership}

/-! ## What is enforced

`assertCanPost` as the conditions under which it refuses. -/

namespace RoomsService

/-- `assertCanPost(roomId, user)`: the automatic join, and the decision on what it leaves. -/
def canPost (w : World) (s : Db) (roomId : Id) (user : GatewayUser) : Except HttpError PostContext := do
  let actor ← authenticated user
  assertCanPost w (autoJoin s roomId actor) roomId user

end RoomsService

/-- What `list` shows of a room is what `canPost` does there. -/
structure ShownAsEnforced (w : World) (s : Db) (user : GatewayUser) (l : RoomListing) : Prop where
  blocked : l.effectivePostPermission = .blocked ↔ ¬ ∃ c, RoomsService.canPost w s l.room.id user = .ok c
  approval : ∀ c, RoomsService.canPost w s l.room.id user = .ok c →
    (c.requiresApproval ↔ l.effectivePostPermission = .approval)

/-- The membership forbids to post: it is banned, muted, expired or blocked. -/
def RoomMembership.silenced (now : Time) (m : RoomMembership) : Bool :=
  decide (m.status = .banned ∨ m.status = .muted ∨ m.postPermission = .blocked) || m.expired now

/-- The membership after the automatic join. -/
def joinedAs (room : Room) (userId : Id) (m : Option RoomMembership) : Option RoomMembership :=
  match m with
  | some m => some m
  | none =>
    if RoomsService.admitsStrangers room then
      some ⟨room.id, userId, .member, .active, .inherit, none, none⟩
    else none

/-- A private room and the posting policy `members` ask for an active membership, `approved_contributors` for
one with a role. -/
structure Welcomes (room : Room) (m : Option RoomMembership) : Prop where
  active : room.visibility = .privateRoom ∨ room.postingPolicy = .members → m.any fun m => decide (m.status = .active)
  contributor : room.postingPolicy = .approved → m.any fun m => decide (m.status = .active ∧ m.role ≠ .member)

/-- The membership of the viewer, when there is one. -/
def Db.membershipOf (s : Db) (user : GatewayUser) (r : Id) : Option RoomMembership := user.id.bind (s.membership? r)

/-- The viewer is signed in, and the membership forbids to post or the room welcomes it. -/
def Settled (w : World) (s : Db) (user : GatewayUser) (room : Room) : Prop :=
  ∃ u, user.id = some u
    ∧ ((s.membership? room.id u).any (·.silenced w.now) ∨ Welcomes room (joinedAs room u (s.membership? room.id u)))

/-! ## `postPermission`

The status that the list shows, from the same columns. -/

/-- It blocks exactly the silenced memberships. -/
theorem postPermission_blocked {now : Time} :
    RoomsService.postPermission now room m = .blocked ↔ m.any (·.silenced now) := by
  cases m with
  | none =>
    unfold RoomsService.postPermission
    dsimp only [Option.any_none]
    refine iff_of_false ?_ Bool.false_ne_true
    split <;> intro h <;> cases h
  | some m =>
    simp only [RoomsService.postPermission, RoomMembership.silenced, Option.any_some]
    by_cases hexpired : m.expired now
    · simp [hexpired]
    · cases m.status <;> cases m.postPermission <;> cases room.reviewPolicy <;> simp [hexpired]

/-- The automatic join gives no other permission than none at all. -/
theorem postPermission_joinedAs {now : Time} {u : Id} :
    RoomsService.postPermission now room (joinedAs room u m) = RoomsService.postPermission now room m := by
  cases m with
  | some m => rfl
  | none =>
    unfold joinedAs
    dsimp only
    split
    · rfl
    · rfl

/-- To join silences nobody. -/
theorem silenced_joinedAs {now : Time} {u : Id} :
    (joinedAs room u m).any (·.silenced now) = m.any (·.silenced now) := by
  cases m with
  | some m => rfl
  | none =>
    unfold joinedAs
    dsimp only
    split
    · rfl
    · rfl

/-- A member is silenced by the permission, by the status or for a time. -/
theorem any_silenced {now : Time} : m.any (·.silenced now)
    ↔ m.any (fun m => decide (m.postPermission = .blocked ∨ m.status = .banned ∨ m.status = .muted))
      ∨ m.any (·.expired now) := by
  cases m with
  | none => simp
  | some m =>
    simp only [Option.any_some, RoomMembership.silenced, Bool.or_eq_true, decide_eq_true_eq]
    tauto

/-! ## `assertCanPost`

The check in the state after the user has joined. -/

/-- The membership after the user has joined. -/
theorem membership_autoJoin {r u : Id} (hroom : s.room? r = some room) :
    (RoomsService.autoJoin s r u).membership? r u = joinedAs room u (s.membership? r u) := by
  have hid : room.id = r := (Table.get?_eq_some.mp hroom).2
  show Table.get? (RoomsService.autoJoined s r u) (r, u) = _
  unfold RoomsService.autoJoined joinedAs
  rw [hroom, Option.any_some, hid]
  split
  · -- the row is inserted where there is none
    rw [Table.get?_insert, if_pos rfl]
    show some ((s.membership? r u).getD _) = _
    cases s.membership? r u <;> rfl
  · show s.membership? r u = _
    cases s.membership? r u <;> rfl

/-- **`assertCanPost` by its decision.** -/
theorem canPost_eq_ok {u : Id} {c : PostContext} (huser : user.id = some u)
    (hroom : s.room? room.id = some room) (hactive : room.status = .active) :
    RoomsService.canPost w s room.id user = .ok c
      ↔ (¬ (s.membership? room.id u).any (·.silenced w.now)) ∧ Welcomes room (joinedAs room u (s.membership? room.id u))
        ∧ c = ⟨room, s.binding? room.id,
          decide (RoomsService.postPermission w.now room (s.membership? room.id u) = .approval)⟩ := by
  have hauth : authenticated user = .ok u := authenticated_eq_ok.mpr huser
  have hroom' : (RoomsService.autoJoin s room.id u).room? room.id = some room := hroom
  have hsilenced : (joinedAs room u (s.membership? room.id u)).any (·.silenced w.now)
      = (s.membership? room.id u).any (·.silenced w.now) := silenced_joinedAs
  have hpermission : RoomsService.postPermission w.now room (joinedAs room u (s.membership? room.id u))
      = RoomsService.postPermission w.now room (s.membership? room.id u) := postPermission_joinedAs
  rw [← hsilenced, ← hpermission]
  simp only [RoomsService.canPost, RoomsService.assertCanPost, bind_eq_ok, hauth, Except.ok.injEq, exists_eq_left',
    orThrow_eq_ok, require_eq_ok, pure_eq_ok, hroom', Option.some.injEq, membership_autoJoin hroom, hactive]
  generalize joinedAs room u (s.membership? room.id u) = m
  have hbinding : (RoomsService.autoJoin s room.id u).binding? room.id = s.binding? room.id := rfl
  rw [hbinding]
  constructor
  · rintro ⟨-, -, -, hexpired, -, hblocked, -, hprivate, -, hmembers, -, happroved, rfl⟩
    refine ⟨fun hsilenced => ?_, ⟨fun hneeds => hneeds.elim hprivate hmembers, happroved⟩, rfl⟩
    exact (any_silenced.mp hsilenced).elim hblocked hexpired
  · rintro ⟨hsilenced, hwelcome, rfl⟩
    rw [any_silenced, not_or] at hsilenced
    exact ⟨(), trivial, (), hsilenced.2, (), hsilenced.1, (), fun h => hwelcome.active (.inl h), (),
      fun h => hwelcome.active (.inr h), (), hwelcome.contributor, rfl⟩

/-! ## The two together

The list shows what is enforced, in one state and at one time. -/

/-- The rooms that `list` shows are stored, with the permission by the membership of the viewer. -/
theorem mem_list {collation : String → String → Bool} {type : Option RoomType} {parent : Option UuidText}
    {l : RoomListing} (h : l ∈ RoomsService.list collation w s type parent user) :
    s.room? l.room.id = some l.room
      ∧ l.effectivePostPermission = RoomsService.postPermission w.now l.room (s.membershipOf user l.room.id) := by
  obtain ⟨room, hroom, rfl⟩ := List.mem_map.mp h
  obtain ⟨hmem, -⟩ := Table.mem_select.mp (List.mem_mergeSort.mp hroom)
  exact ⟨Table.get?_key hmem, rfl⟩

/-- A room that is not private is listed to everybody. -/
theorem exists_mem_list {collation : String → String → Bool} (hroom : room ∈ s.rooms)
    (hvisible : room.visibility ≠ .privateRoom) :
    ∃ l ∈ RoomsService.list collation w s none none user, l.room = room :=
  ⟨_, List.mem_map_of_mem (List.mem_mergeSort.mpr (Table.mem_select.mpr ⟨hroom, by simp [hvisible]⟩)), rfl⟩

/-- **The permission that is shown is the one that is enforced**, for every active room of the list, exactly
when the viewer is signed in and silenced or welcome there. -/
theorem permission_shown_iff {collation : String → String → Bool} {type : Option RoomType}
    {parent : Option UuidText} {l : RoomListing} (h : l ∈ RoomsService.list collation w s type parent user)
    (hactive : l.room.status = .active) : ShownAsEnforced w s user l ↔ Settled w s user l.room := by
  obtain ⟨hroom, hshown⟩ := mem_list h
  cases huser : user.id with
  | none =>
    -- a guest is not shown a blocked room, and is refused
    have hrefused : ¬ ∃ c, RoomsService.canPost w s l.room.id user = .ok c := by
      rintro ⟨c, hc⟩
      obtain ⟨u, hu, -⟩ := bind_eq_ok.mp hc
      cases huser.symm.trans (authenticated_eq_ok.mp hu)
    have hopen : ¬ l.effectivePostPermission = .blocked := by
      rw [hshown, postPermission_blocked, Db.membershipOf, huser]
      exact Bool.false_ne_true
    refine iff_of_false (fun hagree => hopen (hagree.blocked.mpr hrefused)) ?_
    rintro ⟨u, hu, -⟩
    cases huser.symm.trans hu
  | some u =>
    have hmember : s.membershipOf user l.room.id = s.membership? l.room.id u := by
      rw [Db.membershipOf, huser]
      rfl
    rw [hmember] at hshown
    have hok := fun c => canPost_eq_ok (w := w) (c := c) huser hroom hactive
    have hsettled : Settled w s user l.room ↔ (s.membership? l.room.id u).any (·.silenced w.now)
        ∨ Welcomes l.room (joinedAs l.room u (s.membership? l.room.id u)) := by
      constructor
      · rintro ⟨u', hu', h⟩
        obtain rfl := Option.some.inj (huser.symm.trans hu')
        exact h
      · exact fun h => ⟨u, huser, h⟩
    rw [hsettled]
    constructor
    · intro hagree
      by_cases hsilenced : (s.membership? l.room.id u).any (·.silenced w.now)
      · exact .inl hsilenced
      · -- the room is not shown as blocked, so the check passes
        have hopen : ¬ l.effectivePostPermission = .blocked := by
          rw [hshown, postPermission_blocked]
          exact hsilenced
        obtain ⟨c, hc⟩ := not_not.mp fun hrefused => hopen (hagree.blocked.mpr hrefused)
        exact .inr ((hok c).mp hc).2.1
    · intro hcase
      refine ⟨?_, fun c hc => ?_⟩
      · rw [hshown, postPermission_blocked]
        constructor
        · rintro hsilenced ⟨c, hc⟩
          exact ((hok c).mp hc).1 hsilenced
        · intro hrefused
          by_contra hsilenced
          exact hrefused ⟨_, (hok _).mpr ⟨hsilenced, hcase.resolve_left hsilenced, rfl⟩⟩
      · obtain ⟨-, -, rfl⟩ := (hok c).mp hc
        rw [hshown]
        exact decide_eq_true_iff

/-! ## Samples

A room for members only, seen by its owner and by others. -/

namespace Sample

/-- The room `0` of student `1`, in which only members post, and members are approved. -/
def membersOnly : Db := Db.after [call 0 (student 1) (.rooms (.create
  { slug := "nhom-hoc", name := "Nhóm học", roomType := .forum, postingPolicy := some .members,
    membershipPolicy := some .approval }))]

def onlyRoom : Room := membersOnly.rooms.rows.head (by decide)

/-- The rooms that a student is listed. -/
def listings (i : Id) : List RoomListing :=
  RoomsService.list (fun a b => decide (a ≤ b)) (World.quiet 5) membersOnly none none (student i)

end Sample

theorem exists_listing (i : Id) : ∃ l ∈ Sample.listings i, l.room = Sample.onlyRoom :=
  exists_mem_list (List.head_mem (by decide)) (by decide)

theorem permission_shown_owner :
    ∃ l ∈ Sample.listings 1, ShownAsEnforced (World.quiet 5) Sample.membersOnly (Sample.student 1) l := by
  obtain ⟨l, hl, hroom⟩ := exists_listing 1
  refine ⟨l, hl, (permission_shown_iff hl (by rw [hroom]; decide)).mpr ⟨1, rfl, .inr ⟨fun _ => ?_, fun h => ?_⟩⟩⟩
  · rw [hroom]
    decide
  · rw [hroom] at h
    exact absurd h (by decide)

/-- A stranger is shown that posts are direct, and may not post. -/
theorem not_permission_shown :
    ∃ l ∈ Sample.listings 2, l.room.status = .active ∧ l.effectivePostPermission = .direct
      ∧ ¬ ShownAsEnforced (World.quiet 5) Sample.membersOnly (Sample.student 2) l := by
  obtain ⟨l, hl, hroom⟩ := exists_listing 2
  have hdirect : l.effectivePostPermission = .direct := by
    rw [(mem_list hl).2, hroom]
    decide
  refine ⟨l, hl, by rw [hroom]; decide, hdirect, fun hagree => ?_⟩
  have hrefused : ¬ ∃ c, RoomsService.canPost (World.quiet 5) Sample.membersOnly l.room.id (Sample.student 2) = .ok c := by
    rintro ⟨c, hc⟩
    have herror : (RoomsService.canPost (World.quiet 5) Sample.membersOnly Sample.onlyRoom.id (Sample.student 2)).isOk
        = false := by decide
    rw [← hroom, hc] at herror
    cases herror
  cases hdirect.symm.trans (hagree.blocked.mpr hrefused)

end AcaSocial
