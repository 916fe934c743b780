import AcaSocial.Base.Successions
import AcaSocial.Discussion.RoomPolicies

/-!
# The rules of rooms

A room has rules under codes. `addRule` retires the rule in force under a code and adds the next version of it, while it
holds the row of the room. The number in the row of the room is written by `addRule` and, from an older copy, by `updateStatus`.

* **`Db.rulesOf`** — the rules of a room under a code, as they were added.
* **`RulesInOrder`** — their versions are `1, …, n`, and only the last is in force.
* **`Db.RuleStep`** — what a statement may do to the rules.

`rules_in_order` is about every interleaving of requests, and `rules_appended` says that of a rule only the end is ever written.
-/

namespace AcaSocial

variable {w : World} {s s' : Db} {t : RoomTask} {id : UuidText} {dto : CreateRoomRuleDto} {rule : RoomRule} {r : Id}
  {code : String}

open RoomTask (statement)
open RoomsService (addRuleTx activeRule?)

/-- The rules of the room `r` under a code. -/
def Db.rulesOf (s : Db) (r : Id) (code : String) : List RoomRule :=
  s.rules.select fun rule => decide (rule.roomId = r ∧ rule.ruleCode = code)

/-- The rules of the room `r`. -/
def Db.rulesIn (s : Db) (r : Id) : List RoomRule := s.rules.select fun rule => decide (rule.roomId = r)

/-- A rule that is no longer in force. -/
def RoomRule.retired (rule : RoomRule) : RoomRule := { rule with active := false }

/-- What becomes of the rule `r` when `rule` comes into force. -/
def RoomRule.after (r rule : RoomRule) : RoomRule :=
  if r.roomId = rule.roomId ∧ r.ruleCode = rule.ruleCode then r.retired else r

/-- The versions of each rule follow each other, the last is in force, and no room counts more rules than it has. -/
structure RulesInOrder (s : Db) : Prop where
  succession : ∀ r code, Succession RoomRule.version RoomRule.active (s.rulesOf r code)
  counted : ∀ r room, s.room? r = some room → room.rulesVersion ≤ (s.rulesIn r).length + 1

/-- What a statement does to the rules. A new rule takes the place of the one in force. -/
inductive Db.RuleStep (w : World) (s : Db) : RoomTask → Db → Prop where
  | kept {t : RoomTask} {s' : Db} (hnone : ∀ id dto, t = .addRuleTx id dto → t.commits w s = false)
      (hrules : s'.rules = s.rules) : RuleStep w s t s'
  | added {id : UuidText} {dto : CreateRoomRuleDto} {rule : RoomRule} {s' : Db} (hroom : rule.roomId = id.id)
      (hactive : rule.active = true) (hversion : rule.version = (s.rulesOf rule.roomId rule.ruleCode).length + 1)
      (hrules : s'.rules.rows = s.rules.rows.map (·.after rule) ++ [rule]) :
      RuleStep w s (.addRuleTx id dto) s'

/-! ## The rule in force

The last version of a rule is the one in force, and the others are not. -/

/-- The rule in force is the last version. -/
theorem activeRule?_eq (h : Succession RoomRule.version RoomRule.active (s.rulesOf r code)) :
    activeRule? s r code = (s.rulesOf r code).getLast? := by
  have hselect : s.rules.select (fun rule => decide (rule.roomId = r ∧ rule.ruleCode = code ∧ rule.active))
      = (s.rulesOf r code).filter RoomRule.active := by
    rw [Db.rulesOf, Table.select, Table.select, List.filter_filter]
    refine List.filter_congr fun rule _ => ?_
    by_cases hcode : rule.roomId = r ∧ rule.ruleCode = code
    · simp [hcode.1, hcode.2]
    · simp only [decide_eq_false hcode, Bool.and_false, decide_eq_false_iff_not]
      exact fun hall => hcode ⟨hall.1, hall.2.1⟩
  rw [activeRule?, hselect]
  rcases List.eq_nil_or_concat' (s.rulesOf r code) with hnil | ⟨l, last, hlast⟩
  · rw [hnil]
    rfl
  · rw [hlast] at h ⊢
    rw [h.filter_active, List.getLast?_concat]
    rfl

/-- The versions of a rule are the rows with its room and its code. -/
theorem mem_rulesOf : rule ∈ s.rulesOf r code ↔ rule ∈ s.rules ∧ rule.roomId = r ∧ rule.ruleCode = code := by
  rw [Db.rulesOf, Table.mem_select, decide_eq_true_iff]

/-- The next version is not there yet, so the unique constraint lets it in. -/
theorem rules_get?_next (h : Succession RoomRule.version RoomRule.active (s.rulesOf r code)) :
    s.rules.get? (r, code, (s.rulesOf r code).length + 1) = none := by
  rw [Table.get?_eq_none]
  intro rule hrule hkey
  simp only [Prod.mk.injEq] at hkey
  have hle := h.version_le (mem_rulesOf.mpr ⟨hrule, hkey.1, hkey.2.1⟩)
  omega

/-- To retire the rule in force is to retire all rules under its code. -/
theorem rows_retired {l : List RoomRule} {last : RoomRule}
    (h : Succession RoomRule.version RoomRule.active (s.rulesOf rule.roomId rule.ruleCode))
    (hlast : s.rulesOf rule.roomId rule.ruleCode = l ++ [last]) :
    (s.rules.save last.retired).rows = s.rules.rows.map (·.after rule) := by
  obtain ⟨hmem, hroom, hcode⟩ := mem_rulesOf.mp (hlast ▸ List.mem_append_right l (List.mem_singleton_self last))
  refine List.map_congr_left fun old hold => ?_
  by_cases hkey : (old.roomId, old.ruleCode, old.version) = (last.roomId, last.ruleCode, last.version)
  · obtain rfl := Table.eq_of_key_eq hold hmem hkey
    exact (if_pos rfl).trans (if_pos ⟨hroom, hcode⟩).symm
  · refine (if_neg hkey).trans ?_
    unfold RoomRule.after
    split
    · next hsame =>
      -- a rule of another version is not in force
      have hactive : old.active = false := by
        by_contra hactive
        have hversion := (h.newest old (mem_rulesOf.mpr ⟨hold, hsame⟩)).mp (by simpa using hactive)
        have hcopy := h
        rw [hlast] at hversion hcopy
        rw [List.length_append, List.length_singleton] at hversion
        refine hkey ?_
        rw [hsame.1, hsame.2, hroom, hcode, hversion, hcopy.version_last]
      rw [RoomRule.retired, ← hactive]
    · rfl

/-- The rule that comes next in a room. -/
def nextRule (s : Db) (roomId : Id) (dto : CreateRoomRuleDto) : RoomRule :=
  ⟨roomId, dto.ruleCode, (s.rulesOf roomId dto.ruleCode).length + 1, dto.title, dto.description, dto.severity, true⟩

/-- A rule of a room is added whenever the room is there. -/
theorem addRuleTx_ok {room : Room} (dto : CreateRoomRuleDto)
    (h : ∀ r code, Succession RoomRule.version RoomRule.active (s.rulesOf r code)) (hroom : s.room? id.id = some room) :
    ∃ s', addRuleTx s id dto = .ok (s', nextRule s room.id dto)
      ∧ s'.rules.rows = s.rules.rows.map (·.after (nextRule s room.id dto)) ++ [nextRule s room.id dto] := by
  have hsuccession := h room.id dto.ruleCode
  have hnew := rules_get?_next hsuccession
  unfold RoomsService.addRuleTx
  rw [hroom, orThrow_some, ok_bind]
  simp only [activeRule?_eq hsuccession]
  rcases List.eq_nil_or_concat' (s.rulesOf room.id dto.ruleCode) with hnil | ⟨l, last, hlast⟩
  · rw [nextRule, hnil]
    rw [hnil] at hnew
    refine ⟨_, bind_eq_ok.mpr ⟨(), require_eq_ok.mpr hnew, rfl⟩, ?_⟩
    -- no rule is retired
    refine (Table.rows_insert hnew).trans (congrArg (· ++ [_]) ?_)
    refine (List.map_id' _).symm.trans (List.map_congr_left fun rule hrule => (if_neg fun hin => ?_).symm)
    have hmem : rule ∈ s.rulesOf room.id dto.ruleCode := mem_rulesOf.mpr ⟨hrule, hin⟩
    rw [hnil] at hmem
    exact absurd hmem List.not_mem_nil
  · have hversion : last.version + 1 = (s.rulesOf room.id dto.ruleCode).length + 1 := by
      have hcopy := hsuccession
      rw [hlast] at hcopy
      rw [hcopy.version_last, hlast, List.length_append, List.length_singleton]
    have hfree : (s.rules.save last.retired).get? (room.id, dto.ruleCode, (s.rulesOf room.id dto.ruleCode).length + 1)
        = none := by
      rw [Table.get?_save, hnew, Option.map_none, ite_self]
    have hrows : (s.rules.save last.retired).rows = s.rules.rows.map (·.after (nextRule s room.id dto)) :=
      rows_retired hsuccession hlast
    rw [← hrows, nextRule, ← hversion]
    rw [← hversion] at hfree
    rw [hlast, List.getLast?_concat]
    exact ⟨_, bind_eq_ok.mpr ⟨(), require_eq_ok.mpr hfree, rfl⟩, Table.rows_insert hfree⟩

/-! ## One statement

Rules are written by `addRule` alone, in one transaction. -/

/-- Only `addRule` writes rules. -/
theorem rules_statement (h : ∀ id dto, t ≠ .addRuleTx id dto) : (statement w s t).store.rules = s.rules := by
  -- a transaction that keeps the rules keeps them whether it commits or not
  have hcommit : ∀ {α β : Type} {x : Except HttpError (Db × α)} {respond : Db → α → Except HttpError β} {f : β → Response},
      (∀ s' a, x = .ok (s', a) → s'.rules = s.rules) →
      (RoomEffect.done ((commit s x respond).map f)).store.rules = s.rules := by
    intro α β x respond f hx
    rcases store_commit s x respond f with ⟨-, hstore⟩ | ⟨s', a, hok, hstore⟩
    · rw [hstore]
    · rw [hstore]
      exact hx s' a hok
  cases t with
  | addRuleTx id dto => exact absurd rfl (h id dto)
  | createTx dto user actor parent context =>
    refine hcommit fun s' a hok => ?_
    simp only [RoomsService.createTx, bind_eq_ok, pure_eq_ok, Prod.mk.injEq] at hok
    obtain ⟨-, -, rfl, -⟩ := hok
    rfl
  | joinSave existing m =>
    refine hcommit fun s' a hok => ?_
    simp only [RoomsService.joinSave, bind_eq_ok, pure_eq_ok, Prod.mk.injEq] at hok
    obtain ⟨-, -, rfl, -⟩ := hok
    rfl
  | updateMembershipTx id memberId dto user actor =>
    refine hcommit fun s' a hok => ?_
    simp only [RoomsService.updateMembershipTx, bind_eq_ok, pure_eq_ok, Prod.mk.injEq] at hok
    obtain ⟨_, -, _, -, -, -, -, -, -, -, rfl, -⟩ := hok
    rfl
  | updatePolicyTx id dto user =>
    refine hcommit fun s' a hok => ?_
    simp only [RoomsService.updatePolicyTx, bind_eq_ok, pure_eq_ok, Prod.mk.injEq] at hok
    obtain ⟨_, -, -, -, rfl, -⟩ := hok
    rfl
  -- a save of the whole room, whose rules are rows of their own
  | updateStatusSave room => rfl
  | _ => rw [statement_aside rfl]

/-- **One statement.** -/
theorem rule_step (w : World) (t : RoomTask)
    (h : ∀ r code, Succession RoomRule.version RoomRule.active (s.rulesOf r code)) :
    s.RuleStep w t (statement w s t).store := by
  by_cases hadd : ∃ id dto, t = .addRuleTx id dto
  · obtain ⟨id, dto, rfl⟩ := hadd
    rcases store_commit s (addRuleTx s id dto) (fun _ r => .ok r) .rule with ⟨hrefused, hstore⟩ | ⟨s', a, hok, hstore⟩
    · exact .kept (fun _ _ _ => hrefused) (congrArg Db.rules hstore)
    · obtain ⟨room, hroom, -⟩ := addRuleTx_roll (r := id.id) hok
      obtain ⟨s'', hok', hrules⟩ := addRuleTx_ok dto h hroom
      obtain ⟨rfl, -⟩ := Prod.mk.inj (Except.ok.inj (hok.symm.trans hok'))
      have hid : room.id = id.id := (Table.get?_eq_some.mp hroom).2
      have hrows := (congrArg (fun s : Db => s.rules.rows) hstore).trans hrules
      exact .added hid rfl rfl hrows
  · have hnot : ∀ id dto, t ≠ .addRuleTx id dto := fun id dto he => hadd ⟨id, dto, he⟩
    exact .kept (fun id dto he => absurd he (hnot id dto)) (rules_statement hnot)

/-- A rule keeps its room, its code and its version. -/
theorem RoomRule.after_key (r rule : RoomRule) :
    (r.after rule).roomId = r.roomId ∧ (r.after rule).ruleCode = r.ruleCode ∧ (r.after rule).version = r.version := by
  unfold RoomRule.after
  split <;> exact ⟨rfl, rfl, rfl⟩

/-- The rules of a room under a code after a new one. -/
theorem rulesOf_added (hrules : s'.rules.rows = s.rules.rows.map (·.after rule) ++ [rule]) (r : Id) (code : String) :
    s'.rulesOf r code = if rule.roomId = r ∧ rule.ruleCode = code then (s.rulesOf r code).map RoomRule.retired ++ [rule]
      else s.rulesOf r code := by
  have hmap : (s.rules.rows.map (·.after rule)).filter (fun rule => decide (rule.roomId = r ∧ rule.ruleCode = code))
      = (s.rulesOf r code).map (·.after rule) := by
    rw [List.filter_map]
    refine congrArg (List.map _) (List.filter_congr fun old _ => ?_)
    show decide ((old.after rule).roomId = r ∧ (old.after rule).ruleCode = code) = _
    rw [(old.after_key rule).1, (old.after_key rule).2.1]
  rw [Db.rulesOf, Table.select, hrules, List.filter_append, hmap, List.filter_singleton]
  by_cases hsame : rule.roomId = r ∧ rule.ruleCode = code
  · rw [if_pos hsame, decide_eq_true hsame]
    refine congrArg (· ++ [rule]) (List.map_congr_left fun old hold => if_pos ?_)
    rw [hsame.1, hsame.2]
    exact (mem_rulesOf.mp hold).2
  · rw [if_neg hsame, decide_eq_false hsame, cond_false, List.append_nil]
    refine (List.map_congr_left fun old hold => if_neg fun hkey => hsame ?_).trans (List.map_id' _)
    obtain ⟨-, hroom, hcode⟩ := mem_rulesOf.mp hold
    exact ⟨hkey.1.symm.trans hroom, hkey.2.symm.trans hcode⟩

/-- The new rule counts in its room. -/
theorem length_rulesIn_added (hrules : s'.rules.rows = s.rules.rows.map (·.after rule) ++ [rule]) (r : Id) :
    (s'.rulesIn r).length = (s.rulesIn r).length + if rule.roomId = r then 1 else 0 := by
  have hmap : (s.rules.rows.map (·.after rule)).filter (fun rule => decide (rule.roomId = r))
      = (s.rulesIn r).map (·.after rule) := by
    rw [List.filter_map]
    refine congrArg (List.map _) (List.filter_congr fun old _ => ?_)
    show decide ((old.after rule).roomId = r) = _
    rw [(old.after_key rule).1]
  rw [Db.rulesIn, Table.select, hrules, List.filter_append, hmap, List.filter_singleton, List.length_append, List.length_map]
  by_cases hsame : rule.roomId = r
  · rw [if_pos hsame, decide_eq_true hsame]
    rfl
  · rw [if_neg hsame, decide_eq_false hsame]
    rfl

/-! ## The invariant

The versions of a rule are `1`, `2` and so on, and the room counts all rules that were added to it. -/

/-- A step keeps the versions in order. -/
theorem Db.RuleStep.succession (h : ∀ r code, Succession RoomRule.version RoomRule.active (s.rulesOf r code))
    (hstep : s.RuleStep w t s') (r : Id) (code : String) :
    Succession RoomRule.version RoomRule.active (s'.rulesOf r code) := by
  cases hstep with
  | kept hnone hrules =>
    rw [Db.rulesOf, hrules]
    exact h r code
  | added hroom hactive hversion hrules =>
    rw [rulesOf_added hrules]
    split
    · next hsame =>
      rw [hsame.1, hsame.2] at hversion
      exact (h r code).next (f := RoomRule.retired) (fun _ _ => rfl) (fun _ _ => rfl) hversion hactive
    · exact h r code

/-- Rules are never deleted. -/
theorem Db.RuleStep.length_le (hstep : s.RuleStep w t s') (r : Id) : (s.rulesIn r).length ≤ (s'.rulesIn r).length := by
  cases hstep with
  | kept hnone hrules =>
    rw [Db.rulesIn, Db.rulesIn, hrules]
  | added hroom hactive hversion hrules =>
    rw [length_rulesIn_added hrules]
    omega

/-- The copy of a room that is going to be saved counts no more rules than there are. -/
def Counted (s : Db) (room : Room) : Prop := room.rulesVersion ≤ (s.rulesIn room.id).length + 1

/-- What a room has counted is still there. -/
theorem Counted.later {room : Room} (h : Counted s room) (hstep : s.RuleStep w t s') : Counted s' room :=
  Nat.le_trans h (Nat.add_le_add_right (hstep.length_le room.id) 1)

/-- A statement leaves no room that counts more rules than it has. -/
theorem RulesInOrder.statement (h : RulesInOrder s) (hg : Grounded s t) (hcopy : ∀ room ∈ t.roomCopy, Counted s room) :
    RulesInOrder (statement w s t).store := by
  have hstep := rule_step w t h.succession
  refine ⟨hstep.succession h.succession, fun r room hroom => ?_⟩
  have hle := hstep.length_le r
  have hkept : ∀ {old : Room}, s.room? r = some old → room.rulesVersion = old.rulesVersion →
      room.rulesVersion ≤ ((RoomTask.statement w s t).store.rulesIn r).length + 1 := by
    intro old hold hsame
    have hcounted := h.counted r old hold
    omega
  have hroom : ((RoomTask.statement w s t).store.roll r).room = some room := hroom
  have hrolls := statement_rolls (w := w) hg
  generalize (RoomTask.statement w s t).store.roll = rolls at hrolls hroom
  cases hrolls with
  | aside hrefused => exact hkept hroom rfl
  | @created dto user actor parent context room' hok hcolumns =>
    dsimp only at hroom
    split at hroom
    · obtain rfl := Option.some.inj hroom
      have hone : room'.rulesVersion = 1 := hcolumns.2.2.2
      omega
    · exact hkept hroom rfl
  | joinSaved hok hfree | membershipUpdated hok =>
    refine hkept ?_ rfl
    dsimp only at hroom
    split at hroom <;> exact hroom
  | @ruleAdded id dto old hok hold =>
    dsimp only at hroom
    split at hroom
    · next hr =>
      subst hr
      obtain rfl := Option.some.inj hroom
      have hcounted := h.counted id.id old hold
      show old.rulesVersion + 1 ≤ _
      -- the rule that was added makes up for it
      cases hstep with
      | kept hnone => cases (hnone id dto rfl).symm.trans hok
      | added hin hactive hversion hrules =>
        rw [length_rulesIn_added hrules, if_pos hin]
        omega
    · exact hkept hroom rfl
  | @statusSaved copy row hrow hfixed =>
    dsimp only at hroom
    split at hroom
    · next hr =>
      subst hr
      obtain rfl := Option.some.inj hroom
      have hcounted : Counted s copy := hcopy copy rfl
      unfold Counted at hcounted
      omega
    · exact hkept hroom rfl
  | @policyUpdated id dto user old hok hold =>
    dsimp only at hroom
    split at hroom
    · next hr =>
      subst hr
      obtain rfl := Option.some.inj hroom
      exact hkept hold rfl
    · exact hkept hroom rfl

/-! ## What is written of a rule

Only the flag of a rule is ever written over. -/

/-- A statement adds to the rules under a code, and of those that are there it writes only the end. -/
theorem Db.RuleStep.appends (hstep : s.RuleStep w t s') (r : Id) (code : String) :
    (s.rulesOf r code).map RoomRule.retired <+: (s'.rulesOf r code).map RoomRule.retired := by
  cases hstep with
  | kept hnone hrules =>
    have hsame : s'.rulesOf r code = s.rulesOf r code := by rw [Db.rulesOf, Db.rulesOf, hrules]
    exact ⟨[], by rw [List.append_nil, hsame]⟩
  | added hroom hactive hversion hrules =>
    rw [rulesOf_added hrules]
    split
    · rw [List.map_append, List.map_map]
      exact List.prefix_append _ _
    · exact List.prefix_rfl

/-! ## Interleavings

The invariant holds at every statement of any interleaving, as the transaction checks the version that it inserts. -/

/-- The copies of a task are of rooms that are there, and count no more rules than there are. -/
structure RoomTask.Sound (t : RoomTask) (s : Db) : Prop where
  grounded : Grounded s t
  counted : ∀ room ∈ t.roomCopy, Counted s room

/-- What the proof carries along an interleaving. -/
structure SoundPool (p : Pool Db RoomTask) : Prop where
  rules : RulesInOrder p.store
  tasks : ∀ a ∈ p.tasks, a.2.Sound p.store

/-- Only `updateStatus` goes on with a copy, and it has just read it. -/
theorem counted_next (h : RulesInOrder s) : ∀ t' ∈ (statement w s t).next, ∀ room ∈ t'.roomCopy,
    Counted (statement w s t).store room := by
  have hgo : ∀ {t' : RoomTask}, t'.roomCopy = none → ∀ t'' ∈ (RoomTask.go s t').next, ∀ room ∈ t''.roomCopy,
      Counted (statement w s t).store room := by
    intro t' hnone t'' ht'' room hroom
    rw [List.mem_singleton.mp ht'', hnone] at hroom
    cases hroom
  cases t with
  | updateStatusRead id status =>
    rw [statement_aside rfl]
    refine next_orFail fun room hroom => next_go fun copy hcopy => ?_
    obtain rfl := Option.some.inj hcopy
    have hrow : s.room? id.id = some room := orThrow_eq_ok.mp hroom
    have hid : room.id = id.id := (Table.get?_eq_some.mp hrow).2
    show room.rulesVersion ≤ (s.rulesIn room.id).length + 1
    rw [hid]
    exact h.counted id.id room hrow
  | joinMembership room actor =>
    refine next_orFail fun next _ => ?_
    cases next with
    | inl m => exact fun _ ht' => absurd ht' List.not_mem_nil
    | inr m => exact hgo rfl
  | createTx | joinSave | addRuleTx | updateMembershipTx | updateStatusSave | updatePolicyTx =>
    exact fun _ ht' => absurd ht' List.not_mem_nil
  | _ => exact next_orFail fun _ _ => hgo rfl

theorem soundPool_idle (h : RulesInOrder s) : SoundPool (.idle s) :=
  ⟨h, fun _ ha => absurd ha List.not_mem_nil⟩

/-- A request starts without copies. -/
theorem sound_enter (r : RoomRequest) (s : Db) : (RoomTask.enter r).Sound s := by
  obtain ⟨user, o⟩ := r
  cases o <;> exact ⟨trivial, fun _ h => by cases h⟩

/-- **The step.** -/
theorem soundPool_step {p : Pool Db RoomTask} (h : SoundPool p) (act : Act RoomRequest World) :
    SoundPool (p.step roomTasks act) := by
  refine ⟨?_, Pool.tasks_step (J := fun s (t : RoomTask) => t.Sound s) (fun r _ => sound_enter r _) (fun i w n t _ hi => ?_) h.tasks⟩
  · cases act with
    | start r => exact h.rules
    | run i w =>
      cases hi : p.tasks[i]? with
      | none =>
        rw [Pool.step_run_none hi]
        exact h.rules
      | some a =>
        obtain ⟨n, t⟩ := a
        have ht := h.tasks (n, t) (List.mem_of_getElem? hi)
        rw [Pool.step_run hi]
        exact h.rules.statement ht.grounded ht.counted
  · have ht := h.tasks (n, t) (List.mem_of_getElem? hi)
    refine ⟨fun t' ht' => ⟨grounded_next ht.grounded t' ht', counted_next h.rules t' ht'⟩, fun o ho => ?_⟩
    -- the other tasks keep their copies, and rules only become more
    have hother := h.tasks o (List.mem_of_mem_eraseIdx ho)
    exact ⟨hother.grounded.mono (extends_statement ht.grounded),
      fun room hroom => (hother.counted room hroom).later (rule_step w t h.rules.succession)⟩

/-- One statement adds versions at the end. -/
theorem rules_appended_step {p : Pool Db RoomTask} (h : SoundPool p) (act : Act RoomRequest World) (r : Id)
    (code : String) : (p.store.rulesOf r code).map RoomRule.retired
      <+: ((p.step roomTasks act).store.rulesOf r code).map RoomRule.retired := by
  cases act with
  | start req => exact List.prefix_rfl
  | run i w =>
    cases hi : p.tasks[i]? with
    | none => exact ⟨[], by rw [List.append_nil, Pool.step_run_none hi]⟩
    | some a =>
      rw [Pool.step_run hi]
      exact (rule_step w a.2 h.rules.succession).appends r code

/-- **The rules of rooms are in order.** In every interleaving of room requests, the versions of each rule of a room
are `1, …, n` with only the last in force, no room counts more rules than it has, and a rule is added whenever its
transaction finds the room. -/
theorem rules_in_order (h : RulesInOrder s) (acts : List (Act RoomRequest World)) :
    Always (Pool.step roomTasks) (fun p => RulesInOrder p.store ∧ ∀ w id dto,
      RoomTask.commits w p.store (.addRuleTx id dto) = (p.store.room? id.id).isSome) (.idle s) acts := by
  have hsound : Always (Pool.step roomTasks) SoundPool (.idle s) acts :=
    always_of_meets (c := fun _ _ => True) (fun act _ p hp _ => soundPool_step hp act) (soundPool_idle h)
      (.of_forall (fun _ _ => trivial) _ _)
  refine hsound.imp fun p hp => ⟨hp.rules, fun w id dto => ?_⟩
  show (addRuleTx p.store id dto).isOk = _
  cases hroom : p.store.room? id.id with
  | none =>
    rw [addRuleTx, hroom]
    rfl
  | some room =>
    obtain ⟨s', hok, -⟩ := addRuleTx_ok dto hp.rules.succession hroom
    rw [hok]
    rfl

/-- **Rules are only appended.** Whatever requests run on, the rules under a code that were there are still the first
ones, with the same texts and versions. -/
theorem rules_appended (h : RulesInOrder s) (acts acts' : List (Act RoomRequest World)) (r : Id) (code : String) :
    ((run (Pool.step roomTasks) (.idle s) acts).store.rulesOf r code).map RoomRule.retired
      <+: ((run (Pool.step roomTasks) (.idle s) (acts ++ acts')).store.rulesOf r code).map RoomRule.retired := by
  have hsound : SoundPool (run (Pool.step roomTasks) (.idle s) acts) :=
    run_invariant (P := SoundPool) (fun p act hp => soundPool_step hp act) (soundPool_idle h) acts
  rw [run_append]
  generalize run (Pool.step roomTasks) (.idle s) acts = p at hsound
  -- the induction is on the rest of the interleaving
  induction acts' generalizing p with
  | nil => exact List.prefix_rfl
  | cons act acts' ih =>
    exact (rules_appended_step hsound act r code).trans (ih _ (soundPool_step hsound act))

/-! ## Samples

A room with two versions of a rule. -/

namespace Sample

/-- The owner of the room `0` posts a rule, in two statements. -/
def postRule (code title : String) : Act RoomRequest World :=
  .start ⟨student 1, .addRule (Id.text 0) ⟨code, title, title, .low⟩⟩

/-- Two versions of a rule, while the room is archived. The first rule is added between the read of the room and its
save. -/
def twoVersions : List (Act RoomRequest World) :=
  [archive, .run 0 (World.quiet 5), .run 0 (World.quiet 5), postRule "kind" "Be kind", .run 1 (World.quiet 5),
    .run 1 (World.quiet 5), .run 0 (World.quiet 5), postRule "kind" "Be kind to all", .run 0 (World.quiet 5),
    .run 0 (World.quiet 5)]

theorem opened_inOrder : RulesInOrder opened := by
  refine ⟨fun r code => .nil _ _, fun r room hroom => ?_⟩
  have hone : ∀ room ∈ opened.rooms.rows, room.rulesVersion = 1 := by decide
  rw [hone room (Table.get?_eq_some.mp hroom).1]
  exact Nat.le_add_left 1 _

end Sample

/-- The room counts one rule fewer than it has, and the second version is in force. -/
theorem rules_in_order_two_versions :
    RulesInOrder (run (Pool.step roomTasks) (.idle Sample.opened) Sample.twoVersions).store
      ∧ ((run (Pool.step roomTasks) (.idle Sample.opened) Sample.twoVersions).store.rulesOf 0 "kind").map
        (fun rule => (rule.version, rule.title, rule.active)) = [(1, "Be kind", false), (2, "Be kind to all", true)]
      ∧ ((run (Pool.step roomTasks) (.idle Sample.opened) Sample.twoVersions).store.room? 0).map Room.rulesVersion = some 2 :=
  ⟨(rules_in_order Sample.opened_inOrder Sample.twoVersions).last.1, by decide, by decide⟩

/-- The first version is still the first. -/
theorem rules_appended_two_versions :
    ((run (Pool.step roomTasks) (.idle Sample.opened) (Sample.twoVersions.take 7)).store.rulesOf 0 "kind").map
        RoomRule.retired
      <+: ((run (Pool.step roomTasks) (.idle Sample.opened)
        (Sample.twoVersions.take 7 ++ Sample.twoVersions.drop 7)).store.rulesOf 0 "kind").map RoomRule.retired :=
  rules_appended Sample.opened_inOrder _ _ 0 "kind"

end AcaSocial
