import AcaSocial.Discussion.RoomStep

/-!
# Owners of rooms

* **`Roll.Owned`** — a room has an active owner, and what is not a room yet has no members.
* **`rooms_owned`** — so it is in every reachable state, with one membership for each user.
* **`Roll.KeepsOwners`**, **`Roll.KeepsPolicy`** — the active owners stay who they are; the policy of
  the room and the permissions of its members stay as they are.
* **`no_escalation`** — nobody but an owner or an admin changes these, and nobody but an admin the
  policy of a room that is locked.
-/

namespace AcaSocial

variable {c : Call} {r : Id} {t t' t'' : Roll}

/-! ## Every room has an owner

A room begins with its creator as owner, and the last active owner is neither demoted nor removed. -/

/-- A room has an active owner; before there is a room nobody is in it. -/
structure Roll.Owned (t : Roll) : Prop where
  none : t.room = .none → ∀ u, t.member u = .none
  owner : ∀ room, t.room = some room → ∃ u m, t.member u = some m ∧ m.activeOwner

/-- Who is an active owner is not pending, muted, banned or gone. -/
theorem RoomMembership.activeOwner_iff {m : RoomMembership} :
    m.activeOwner ↔ m.role = .owner ∧ m.status = .active := decide_eq_true_iff

/-- A new room has an owner. -/
theorem Roll.Owned.created {room : Room} {m : RoomMembership} (hinv : t.Owned) (hnew : t.room = .none)
    (howner : m.activeOwner) : ((t.setRoom room).admitted m).Owned := by
  refine ⟨(fun h => by cases h), fun _ _ => ⟨m.userId, m, ?_, howner⟩⟩
  have hfree : t.member m.userId = .none := hinv.none hnew m.userId
  simp [Roll.admitted, hfree]

/-- A room that is written keeps its owners. -/
theorem Roll.Owned.setRoom {room room' : Room} (hinv : t.Owned) (hroom : t.room = some room) :
    (t.setRoom room').Owned := ⟨(fun h => by cases h), fun _ _ => hinv.owner room hroom⟩

/-- A membership is written that is still an active owner's, or was not, or there is another owner. -/
theorem Roll.Owned.enrol {room : Room} {m : RoomMembership} (hinv : t.Owned) (hroom : t.room = some room)
    (hkept : ∀ m₀, t.member m.userId = some m₀ → m₀.activeOwner → m.activeOwner
      ∨ ∃ u m', u ≠ m.userId ∧ t.member u = some m' ∧ m'.activeOwner) : (t.enrol m).Owned := by
  refine ⟨fun hnone => (by cases hroom.symm.trans hnone), fun _ _ => ?_⟩
  obtain ⟨u, m', hm', howner⟩ := hinv.owner room hroom
  by_cases hu : m.userId = u
  · rcases hkept m' (hu ▸ hm') howner with hstill | ⟨v, m'', hv, hm'', howner'⟩
    · exact ⟨u, m, if_pos hu, hstill⟩
    · exact ⟨v, m'', (t.member_enrol_of_ne hv.symm).trans hm'', howner'⟩
  · exact ⟨u, m', (t.member_enrol_of_ne hu).trans hm', howner⟩

/-- A step keeps an active owner in the room. -/
theorem owned_step (h : RoomStep c r t t') (hinv : t.Owned) : t'.Owned := by
  cases h with
  | same => exact hinv
  | created hop hnew huser hrow => exact hinv.created hnew hrow.2
  | @admitted room m hroom hrow =>
    refine ⟨fun hnone => (by cases hroom.symm.trans hnone), fun _ _ => ?_⟩
    obtain ⟨u, m', hm', howner⟩ := hinv.owner room hroom
    refine ⟨u, m', ?_, howner⟩
    simp [Roll.admitted, hm']
  | joined hop hroom hrow hleft =>
    refine hinv.enrol hroom fun m' hm' howner => ?_
    -- an active owner does not join again
    have hgone := (hleft m' hm').1
    rw [(RoomMembership.activeOwner_iff.mp howner).2] at hgone
    cases hgone
  | @membershipUpdated id memberId dto actor room m hop hroom hm hneed hlast hlocked =>
    refine hinv.enrol hroom fun m' hm' howner => ?_
    obtain rfl : m = m' := Option.some.inj (hm.symm.trans hm')
    by_cases hkept : dto.role = .owner ∧ dto.status = .active
    · exact .inl (RoomMembership.activeOwner_iff.mpr hkept)
    · -- the check for the last owner has found another one
      exact .inr (hlast howner (by tauto))
  | described _ hroom | policyUpdated _ hroom => exact hinv.setRoom hroom

/-- **Every room has an owner after every run.** -/
theorem owned_after (calls : List Call) (r : Id) : ((Db.after calls).roll r).Owned := by
  have hempty : (Db.empty.roll r).Owned := by
    refine ⟨fun _ u => rfl, fun room hroom => ?_⟩
    have hnone : (Db.empty.roll r).room = none := rfl
    cases hnone.symm.trans hroom
  exact run_invariant (P := fun s : Db => (s.roll r).Owned)
    (fun s c h => owned_step (room_step s c r) h) hempty calls

/-- In every reachable state every room has an active owner, and a user has one membership in it at
most. -/
theorem rooms_owned (calls : List Call) (r : Id) (room : Room)
    (hroom : (Db.after calls).room? r = some room) :
    (∃ m ∈ (Db.after calls).memberships, m.roomId = r ∧ m.role = .owner ∧ m.status = .active)
    ∧ (((Db.after calls).memberships.select fun m => decide (m.roomId = r)).map
      (·.userId)).Nodup := by
  constructor
  · obtain ⟨u, m, hm, howner⟩ := (owned_after calls r).owner room hroom
    obtain ⟨hmem, hkey⟩ := Table.get?_eq_some.mp hm
    exact ⟨m, hmem, congrArg Prod.fst hkey, RoomMembership.activeOwner_iff.mp howner⟩
  · have hkeys := (Db.after calls).memberships.nodup
    refine List.Nodup.map_on (fun m hm m' hm' hu => ?_) (hkeys.of_map.filter _)
    obtain ⟨hmem, hmr⟩ := Table.mem_select.mp hm
    obtain ⟨hmem', hmr'⟩ := Table.mem_select.mp hm'
    exact Table.eq_of_key_eq hmem hmem' (Prod.ext
      ((of_decide_eq_true hmr).trans (of_decide_eq_true hmr').symm) hu)

theorem rooms_owned_forum : ∃ m ∈ (Db.after [Sample.openForum]).memberships,
    m.roomId = 0 ∧ m.role = .owner ∧ m.status = .active := by
  obtain ⟨room, hroom⟩ : ∃ room, (Db.after [Sample.openForum]).room? 0 = some room :=
    Option.isSome_iff_exists.mp (by decide)
  exact (rooms_owned [Sample.openForum] 0 room hroom).1

/-! ## Who changes owners and policy

Owners and policies change by the calls of owners and administrators only. -/

/-- The operation is one on the room `r`. -/
def Operation.onRoom (r : Id) : Operation → Bool
  | .rooms (.join id) | .rooms (.addRule id _) | .rooms (.updateMembership id _ _)
  | .rooms (.updateStatus id _) | .rooms (.updatePolicy id _) => decide (id.id = r)
  | _ => false

namespace Roll

/-- The same users are active owners. -/
def KeepsOwners (t t' : Roll) : Prop :=
  ∀ u, (t'.member u).any (·.activeOwner) = (t.member u).any (·.activeOwner)

/-- The policy of the room and the permissions of its members stay. -/
structure KeepsPolicy (t t' : Roll) : Prop where
  room : ∀ room, t.room = some room → ∃ room', t'.room = some room'
    ∧ room'.reviewPolicy = room.reviewPolicy ∧ room'.policyLocked = room.policyLocked
  permission : ∀ u m, t.member u = some m → ∃ m', t'.member u = some m'
    ∧ m'.postPermission = m.postPermission

theorem KeepsOwners.refl (t : Roll) : t.KeepsOwners t := fun _ => rfl

theorem KeepsOwners.trans (h : t.KeepsOwners t') (h' : t'.KeepsOwners t'') : t.KeepsOwners t'' :=
  fun u => (h' u).trans (h u)

theorem KeepsPolicy.refl (t : Roll) : t.KeepsPolicy t :=
  ⟨fun room hroom => ⟨room, hroom, rfl, rfl⟩, fun _ m hm => ⟨m, hm, rfl⟩⟩

theorem KeepsPolicy.trans (h : t.KeepsPolicy t') (h' : t'.KeepsPolicy t'') :
    t.KeepsPolicy t'' where
  room room hroom := by
    obtain ⟨room', hroom', hreview, hlocked⟩ := h.room room hroom
    obtain ⟨room'', hroom'', hreview', hlocked'⟩ := h'.room room' hroom'
    exact ⟨room'', hroom'', hreview'.trans hreview, hlocked'.trans hlocked⟩
  permission u m hm := by
    obtain ⟨m', hm', hsame⟩ := h.permission u m hm
    obtain ⟨m'', hm'', hsame'⟩ := h'.permission u m' hm'
    exact ⟨m'', hm'', hsame'.trans hsame⟩

/-- The room stays, and a membership is written with the permission that it had. -/
theorem KeepsPolicy.enrol {m : RoomMembership} (h : ∀ m₀, t.member m.userId = some m₀ →
    m.postPermission = m₀.postPermission) : t.KeepsPolicy (t.enrol m) where
  room room hroom := ⟨room, hroom, rfl, rfl⟩
  permission u m₀ hm₀ := by
    by_cases hu : m.userId = u
    · exact ⟨m, if_pos hu, h m₀ (hu ▸ hm₀)⟩
    · exact ⟨m₀, (if_neg hu).trans hm₀, rfl⟩

/-- A new member changes no policy. -/
theorem KeepsPolicy.admitted (m : RoomMembership) : t.KeepsPolicy (t.admitted m) where
  room room hroom := ⟨room, hroom, rfl, rfl⟩
  permission u m₀ hm₀ := by
    refine ⟨m₀, ?_, rfl⟩
    simp [Roll.admitted, hm₀]

/-- A room that keeps its policies keeps them. -/
theorem KeepsPolicy.setRoom {room room' : Room} (hroom : t.room = some room)
    (hkept : room'.reviewPolicy = room.reviewPolicy ∧ room'.policyLocked = room.policyLocked) :
    t.KeepsPolicy (t.setRoom room') where
  room room₀ hroom₀ := by
    obtain rfl : room = room₀ := Option.some.inj (hroom.symm.trans hroom₀)
    exact ⟨room', rfl, hkept⟩
  permission _ m hm := ⟨m, hm, rfl⟩

/-- A membership is written that is not an active owner's and was not. -/
theorem KeepsOwners.enrol {m : RoomMembership} (hnew : m.activeOwner = false)
    (hold : ∀ m₀, t.member m.userId = some m₀ → m₀.activeOwner = false) :
    t.KeepsOwners (t.enrol m) := by
  intro u
  by_cases hu : m.userId = u
  · subst hu
    rw [t.member_enrol_self, Option.any_some, hnew]
    cases hm₀ : t.member m.userId with
    | none => rfl
    | some m₀ => exact (hold m₀ hm₀).symm
  · rw [t.member_enrol_of_ne hu]

/-- A new member who is no owner changes no owner. -/
theorem KeepsOwners.admitted {m : RoomMembership} (hnew : m.activeOwner = false) :
    t.KeepsOwners (t.admitted m) := by
  intro u
  simp only [Roll.admitted]
  split
  · cases hm₀ : t.member u with
    | none => exact hnew
    | some m₀ => rfl
  · rfl

end Roll

open Roll

/-- Who has another role is no owner. -/
theorem activeOwner_of_role {m : RoomMembership} (h : m.role ≠ .owner) : m.activeOwner = false :=
  decide_eq_false fun ho => h ho.1

/-- Who does not own the room keeps its owners and its policy. -/
theorem keeps_of_not_ownedBy {room : Room} (h : RoomStep c r t t') (hroom : t.room = some room)
    (hactor : c.operation.onRoom r = true → ¬ t.ownedBy c.world.now c.user) :
    t.KeepsPolicy t' ∧ t.KeepsOwners t' := by
  cases h with
  | same => exact ⟨.refl t, .refl t⟩
  | created _ hnew => cases hroom.symm.trans hnew
  | admitted _ hrow =>
    exact ⟨.admitted _, .admitted (activeOwner_of_role (by rw [hrow]; intro h; cases h))⟩
  | joined _ _ hrow hleft =>
    refine ⟨.enrol fun m₀ hm₀ => (hleft m₀ hm₀).2,
      .enrol (activeOwner_of_role (by rw [hrow]; intro h; cases h)) fun m₀ hm₀ => ?_⟩
    refine decide_eq_false fun ho => ?_
    cases (hleft m₀ hm₀).1.symm.trans ho.2
  | @membershipUpdated id memberId dto actor room' m hop _ hm hneed =>
    have hnot : ¬ t.ownedBy c.world.now c.user :=
      hactor (by rw [hop.1]; exact decide_eq_true hop.2)
    -- so neither the membership nor the request is about an owner or a permission
    have hfree := fun hneeds => hnot (hneed hneeds)
    have hpermission : dto.postPermission = none := by
      cases hp : dto.postPermission with
      | none => rfl
      | some p => exact absurd (.inr (.inr (by rw [hp]; rfl))) hfree
    refine ⟨.enrol fun m₀ hm₀ => ?_, .enrol (activeOwner_of_role fun ho => hfree (.inr (.inl ho)))
      fun m₀ hm₀ => ?_⟩
    all_goals obtain rfl : m = m₀ := Option.some.inj (hm.symm.trans hm₀)
    · rw [hpermission]
      rfl
    · exact activeOwner_of_role fun ho => hfree (.inl ho)
  | described _ hroom' hkept => exact ⟨.setRoom hroom' hkept, .refl t⟩
  | policyUpdated hop _ howner =>
    exact absurd howner (hactor (by rw [hop.1]; exact decide_eq_true hop.2))

/-- Who is not an admin keeps the policy of a room that is locked. -/
theorem keepsPolicy_of_locked {room : Room} (h : RoomStep c r t t') (hroom : t.room = some room)
    (hlock : room.policyLocked = true)
    (hactor : c.operation.onRoom r = true → c.user.role ≠ some .admin) : t.KeepsPolicy t' := by
  cases h with
  | same => exact .refl t
  | created _ hnew => cases hroom.symm.trans hnew
  | admitted => exact .admitted _
  | joined _ _ _ hleft => exact .enrol fun m₀ hm₀ => (hleft m₀ hm₀).2
  | @membershipUpdated id memberId dto actor room' m hop hroom' hm _ _ hlocked =>
    obtain rfl : room = room' := Option.some.inj (hroom.symm.trans hroom')
    refine .enrol fun m₀ hm₀ => ?_
    obtain rfl : m = m₀ := Option.some.inj (hm.symm.trans hm₀)
    exact hlocked hlock (hactor (by rw [hop.1]; exact decide_eq_true hop.2))
  | described _ hroom' hkept => exact .setRoom hroom' hkept
  | @policyUpdated id dto room' _ hop hroom' _ hlocked =>
    obtain rfl : room = room' := Option.some.inj (hroom.symm.trans hroom')
    exact absurd (hlocked hlock) (hactor (by rw [hop.1]; exact decide_eq_true hop.2))

/-- In every run from a state in which the room is there, the active owners, the policy and the
permissions stay if whoever acts on the room neither owns it nor is an admin; in a room that is
locked the policy and the permissions stay if no admin acts on it. -/
theorem no_escalation (s : Db) (r : Id) (calls : List Call) (hroom : (s.room? r).isSome) :
    (Meets Db.step (fun s c => c.operation.onRoom r = true →
        ¬ (s.roll r).ownedBy c.world.now c.user) s calls →
      Always Db.step (fun s' => (s.roll r).KeepsPolicy (s'.roll r)
        ∧ (s.roll r).KeepsOwners (s'.roll r)) s calls)
    ∧ ((s.room? r).any (·.policyLocked) = true →
      Meets Db.step (fun _ c => c.operation.onRoom r = true → c.user.role ≠ some .admin) s calls →
      Always Db.step (fun s' => (s.roll r).KeepsPolicy (s'.roll r)) s calls) := by
  obtain ⟨room, hroom⟩ := Option.isSome_iff_exists.mp hroom
  constructor
  · intro hactors
    refine always_of_meets (fun c _ s₁ hkept hactor => ?_) ⟨.refl _, .refl _⟩ hactors
    obtain ⟨room', hroom', -⟩ := hkept.1.room room hroom
    have hstep := keeps_of_not_ownedBy (room_step s₁ c r) hroom' hactor
    exact ⟨hkept.1.trans hstep.1, hkept.2.trans hstep.2⟩
  · intro hlock hactors
    rw [hroom, Option.any_some] at hlock
    refine always_of_meets (fun c _ s₁ hkept hactor => ?_) (.refl _) hactors
    obtain ⟨room', hroom', -, hlock'⟩ := hkept.room room hroom
    exact hkept.trans (keepsPolicy_of_locked (room_step s₁ c r) hroom' (hlock'.trans hlock)
      hactor)

namespace Sample

/-- A membership of the room `0` is written by `user`. -/
def promote (user : GatewayUser) (i : Id) (role : MemberRole) : Call :=
  call 2 user (.rooms (.updateMembership (Id.text 0) (Id.text i) { role, status := .active }))

/-- The policy of the room `0` is written by `user`. -/
def setPolicy (user : GatewayUser) (reviewPolicy : ReviewPolicy) (lock : Option Bool) : Call :=
  call 3 user (.rooms (.updatePolicy (Id.text 0) { reviewPolicy, policyLocked := lock }))

/-- A moderator of the whole site. -/
def siteModerator : GatewayUser := ⟨some 8, some .moderator⟩

end Sample

/-- A room that a student has joined and an administrator has locked: a site moderator makes the
student a moderator, who makes herself an owner in vain; and its owner opens it in vain. -/
theorem no_escalation_locked :
    let s := Db.after [Sample.openForum, Sample.join 2,
      Sample.setPolicy Sample.administrator .approval (some true)]
    let promotions := [Sample.promote Sample.siteModerator 2 .moderator,
      Sample.promote (Sample.student 2) 2 .owner]
    (s.roll 0).KeepsOwners ((run Db.step s promotions).roll 0)
      ∧ (s.roll 0).KeepsPolicy ((s.step (Sample.setPolicy (Sample.student 1) .direct none)).roll 0) :=
  ⟨((no_escalation _ 0 _ (by decide)).1 (by decide)).last.2,
    ((no_escalation _ 0 [_] (by decide)).2 (by decide) (by decide)).last⟩

end AcaSocial
