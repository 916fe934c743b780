import AcaSocial.Discussion.RoomStatements

/-!
# Policies of rooms while their status changes

`updatePolicy` and `addRule` lock the row of the room. `updateStatus` reads the room and saves its copy
of the whole row later without a lock, so a policy that commits between the two is taken back.

* **`Policy`** — the review policy, its lock and the version of the rules.
* **`notePolicies`** — an observer keeps the values of the last `updatePolicy` that has committed and
  counts the rules that were added.
* **`RevertsPolicy`** — the save of a status writes another policy than the one that is stored.

`policies_survive_status_changes` says that the stored policies are those of the observer exactly when
no save reverts one.
-/

namespace AcaSocial

variable {w : World} {s s' : Db} {t : RoomTask}

open RoomTask (statement)

/-- The columns that `updatePolicy` and `addRule` write. -/
structure Policy where
  reviewPolicy : ReviewPolicy
  policyLocked : Bool
  rulesVersion : Nat
deriving DecidableEq

def Room.policy (room : Room) : Policy := ⟨room.reviewPolicy, room.policyLocked, room.rulesVersion⟩

/-- What is stored of the policy of each room. -/
def Db.policy (s : Db) (r : Id) : Option Policy := (s.room? r).map Room.policy

/-- What the transactions that commit make of the policies. A new room has the policy that it was created
with, `updatePolicy` sets the first two columns, and `addRule` counts. -/
def notePolicies (w : World) (s : Db) (_ : Nat) (t : RoomTask) (g : Id → Option Policy) :
    Id → Option Policy :=
  if t.commits w s then
    match t with
    | .createTx dto _ _ _ _ =>
      Function.update g s.rooms.next (some ⟨dto.reviewPolicy.getD .direct, false, 1⟩)
    | .updatePolicyTx id dto _ =>
      Function.update g id.id ((g id.id).map fun policy =>
        ⟨dto.reviewPolicy, dto.policyLocked.getD policy.policyLocked, policy.rulesVersion⟩)
    | .addRuleTx id _ =>
      Function.update g id.id ((g id.id).map fun policy =>
        { policy with rulesVersion := policy.rulesVersion + 1 })
    | _ => g
  else g

/-- The copy of a room that `updateStatus` is going to save. -/
def RoomTask.roomCopy : RoomTask → Option Room
  | .updateStatusSave room => some room
  | _ => none

/-- The policy that is stored is not that of the copy. -/
def Outdated (s : Db) (room : Room) : Prop := s.policy room.id ≠ some room.policy

instance (s : Db) (room : Room) : Decidable (Outdated s room) := inferInstanceAs (Decidable (_ ≠ _))

/-- The save of a status writes a policy that is no longer the one that is stored. -/
def RevertsPolicy (p : Pool Db RoomTask) (act : Act RoomRequest World) : Prop :=
  ∃ t ∈ p.running act, ∃ room ∈ t.roomCopy, Outdated p.store room

instance (p : Pool Db RoomTask) (act : Act RoomRequest World) : Decidable (RevertsPolicy p act) :=
  inferInstanceAs (Decidable (∃ t ∈ p.running act, ∃ room ∈ t.roomCopy, Outdated p.store room))

/-! ## One statement

What each statement of a status change, and of a policy change, does to the policy of a room. -/

/-- The policies of some rolls. -/
def policiesOf (rolls : Id → Roll) (r : Id) : Option Policy := (rolls r).room.map Room.policy

/-- The roll of the store holds the policies of its rooms. -/
theorem policiesOf_roll (s : Db) : policiesOf s.roll = s.policy := rfl

/-- Only members are written. -/
theorem policiesOf_enrol {rolls : Id → Roll} {i : Id} {m : RoomMembership} :
    (policiesOf fun r => if i = r then (rolls r).enrol m else rolls r) = policiesOf rolls := by
  funext r
  show Option.map _ (if i = r then (rolls r).enrol m else rolls r).room = _
  split <;> rfl

/-- One room is written. -/
theorem policiesOf_setRoom {rolls : Id → Roll} {i : Id} {room : Room} :
    (policiesOf fun r => if i = r then (rolls r).setRoom room else rolls r)
      = Function.update (policiesOf rolls) i (some room.policy) := by
  funext r
  show Option.map _ (if i = r then (rolls r).setRoom room else rolls r).room = _
  by_cases hr : r = i
  · subst hr
    rw [Function.update_self, if_pos rfl]
    rfl
  · rw [Function.update_of_ne hr, if_neg fun he => hr he.symm]
    rfl

/-- The policy of a room that exists is its own. -/
theorem policy_of_room? {k : Id} {room : Room} (h : s.room? k = some room) :
    s.policy k = some room.policy := congrArg (Option.map Room.policy) h

/-- **One statement.** It leaves the policies of the observer exactly when it reverts none. -/
theorem policies_statement (n : Nat) (hg : Grounded s t) :
    (statement w s t).store.policy = notePolicies w s n t s.policy
      ↔ ¬ ∃ room ∈ t.roomCopy, Outdated s room := by
  have hcase := statement_rolls (w := w) hg
  rw [← policiesOf_roll]
  generalize (statement w s t).store.roll = rolls at hcase ⊢
  cases hcase with
  | aside hrefused =>
    have hnote : notePolicies w s n t s.policy = s.policy :=
      if_neg (by rw [hrefused]; exact Bool.false_ne_true)
    rw [hnote, policiesOf_roll]
    refine iff_of_true rfl ?_
    rintro ⟨room, hroom, -⟩
    -- the save of a status is never refused
    cases t with
    | updateStatusSave room' => cases hrefused
    | _ => cases hroom
  | @created dto user actor parent context room hok hcolumns =>
    refine iff_of_true ?_ (by rintro ⟨room, hroom, -⟩; cases hroom)
    obtain ⟨-, hreview, hlocked, hversion⟩ := hcolumns
    have hpolicy : room.policy = ⟨dto.reviewPolicy.getD .direct, false, 1⟩ := by
      rw [Room.policy, hreview, hlocked, hversion]
    rw [notePolicies, if_pos hok]
    simp only [← hpolicy]
    rw [← policiesOf_roll, ← policiesOf_setRoom]
    -- the owner is admitted to the room, and its columns stay
    funext r
    show Option.map _ (if s.rooms.next = r
      then ((s.roll r).setRoom room).admitted ⟨s.rooms.next, actor, .owner, .active, .inherit, some actor, none⟩
      else s.roll r).room = Option.map _ (if s.rooms.next = r then (s.roll r).setRoom room else s.roll r).room
    split <;> rfl
  | @joinSaved existing m hok hfree =>
    rw [policiesOf_enrol, policiesOf_roll]
    exact iff_of_true (ite_self _).symm (by rintro ⟨room, hroom, -⟩; cases hroom)
  | @ruleAdded id dto room hok hroom =>
    refine iff_of_true ?_ (by rintro ⟨room, hroom, -⟩; cases hroom)
    rw [policiesOf_setRoom, policiesOf_roll, notePolicies, if_pos hok]
    simp only [policy_of_room? hroom]
    rfl
  | membershipUpdated hok hroom hm huser hlast =>
    rw [policiesOf_enrol, policiesOf_roll]
    exact iff_of_true (ite_self _).symm (by rintro ⟨room, hroom, -⟩; cases hroom)
  | @statusSaved room row hrow hfixed =>
    have hnote : notePolicies w s n (.updateStatusSave room) s.policy = s.policy := ite_self _
    rw [policiesOf_setRoom, policiesOf_roll, hnote]
    constructor
    · rintro hsame ⟨room', hroom', hout⟩
      obtain rfl := Option.some.inj hroom'
      refine hout ?_
      have hat := congrFun hsame room.id
      rw [Function.update_self] at hat
      exact hat.symm
    · intro hkept
      have hstored : s.policy room.id = some room.policy := by
        by_contra hout
        exact hkept ⟨room, rfl, hout⟩
      rw [← hstored, Function.update_eq_self]
  | @policyUpdated id dto user room hok hroom =>
    refine iff_of_true ?_ (by rintro ⟨room, hroom, -⟩; cases hroom)
    rw [policiesOf_setRoom, policiesOf_roll, notePolicies, if_pos hok]
    simp only [policy_of_room? hroom]
    rfl

/-! ## Interleavings

A status change saves the room as it was read, so it may bring back the policy of that moment. -/

/-- **Policies survive changes of status.** In every interleaving of any room operations, the review policy
and the lock of every room are those of the last `updatePolicy` that has committed, and the version of the
rules counts the rules that were added, exactly when no save of a status writes back an older policy. -/
theorem policies_survive_status_changes (s : Db) (acts : List (Act RoomRequest World)) :
    Always (Pool.observe roomTasks notePolicies) (fun q => q.1.store.policy = q.2) (.idle s, s.policy) acts
      ↔ Meets (Pool.observe roomTasks notePolicies) (fun q act => ¬ RevertsPolicy q.1 act)
        (.idle s, s.policy) acts := by
  refine Pool.always_iff_of_statements (P := fun s g => s.policy = g) (Q := GroundedPool)
    (c := fun s t => ∃ room ∈ t.roomCopy, Outdated s room) (fun q act hq => grounded_step hq act)
    (fun w n t p g hq ht hp => ?_) (groundedPool_idle s s.policy) rfl
  have hp : p.store.policy = g := hp
  subst hp
  exact policies_statement n (hq.2 (n, t) ht)

/-! ## Samples

A status change that is overtaken by a change of policy. -/

namespace Sample

/-- The room `0`, with its owner. -/
def opened : Db := Db.after [openForum]

/-- The owner archives the room, in three statements. -/
def archive : Act RoomRequest World := .start ⟨student 1, .updateStatus (Id.text 0) .archived⟩

/-- An administrator locks a policy of approval. -/
def lockPolicy : Act RoomRequest World :=
  .start ⟨administrator, .updatePolicy (Id.text 0) { reviewPolicy := .approval, policyLocked := some true }⟩

/-- The lock commits between the read of the room and its save. -/
def lockAmid : List (Act RoomRequest World) :=
  [archive, lockPolicy, .run 0 (World.quiet 5), .run 1 (World.quiet 5), .run 0 (World.quiet 5),
    .run 1 (World.quiet 5), .run 0 (World.quiet 5)]

end Sample

/-- The save of the status unlocks the policy. -/
theorem not_policies_survive_status_changes :
    ¬ Always (Pool.observe roomTasks notePolicies) (fun q => q.1.store.policy = q.2)
        (.idle Sample.opened, Sample.opened.policy) Sample.lockAmid
      ∧ (run (Pool.step roomTasks) (.idle Sample.opened) (Sample.lockAmid.take 6)).store.policy 0
        = some ⟨.approval, true, 1⟩
      ∧ (run (Pool.step roomTasks) (.idle Sample.opened) Sample.lockAmid).store.policy 0
        = some ⟨.direct, false, 1⟩ := by
  refine ⟨fun hall => ?_, by decide, by decide⟩
  have hlast := congrFun hall.last 0
  revert hlast
  decide

end AcaSocial
