import AcaSocial.Notifications.OutboxWorker

/-!
# Reading

`markRead` reads the row, updates it and reads it again, and each of the three is a statement of its own. What is published
goes to the stream of its recipient, `streamForUser`.

* **`Store.Keeps`** — no notification is lost or changed, but for the time at which it was read, which is set once.
* **`Published`** — what a user sees in the stream is a row of that user, as it is or as it was before it was read.
* **`read_by_recipient`** — a notification is read by its recipient and by nobody else.
-/

namespace AcaSocial.Notifications

variable {sp : Spelling} {x : Input} {s s' s'' : Store} {t : Task} {next : List Task} {n m : Notification}

/-- `streamForUser(userId)`, of all that has been published. -/
def Store.streamForUser (s : Store) (userId : String) : List Notification :=
  s.published.filter fun n => decide (n.recipientId = userId)

/-! ## The rows

A notification is never deleted. Its `readAt` is written once. -/

/-- The row `m` is the row `n` at a later time. -/
def Notification.Later (n m : Notification) : Prop :=
  m = { n with readAt := m.readAt } ∧ ∀ readAt, n.readAt = some readAt → m.readAt = some readAt

theorem Notification.Later.refl (n : Notification) : n.Later n := ⟨rfl, fun _ h => h⟩

/-- A row that is later twice is later. -/
theorem Notification.Later.trans {k : Notification} (h : n.Later m) (h' : m.Later k) : n.Later k := by
  refine ⟨?_, fun readAt hread => h'.2 readAt (h.2 readAt hread)⟩
  rw [h'.1, h.1]

/-- The row that `markRead` leaves. -/
theorem Notification.later_markedRead (n : Notification) (now : Time) : n.Later (n.markedRead now) := by
  refine ⟨rfl, fun readAt hread => ?_⟩
  show n.readAt.or (some now) = some readAt
  rw [hread]
  rfl

/-- No notification is lost, and each is the same at a later time. -/
def Store.Keeps (s s' : Store) : Prop := ∀ n ∈ s.notifications, ∃ m ∈ s'.notifications, n.Later m

theorem Store.Keeps.refl (s : Store) : s.Keeps s := fun n hn => ⟨n, hn, .refl n⟩

/-- What is kept twice is kept. -/
theorem Store.Keeps.trans (h : s.Keeps s') (h' : s'.Keeps s'') : s.Keeps s'' := by
  intro n hn
  obtain ⟨m, hm, hnm⟩ := h n hn
  obtain ⟨k, hk, hmk⟩ := h' m hm
  exact ⟨k, hk, hnm.trans hmk⟩

/-- **The step.** A statement keeps every row. -/
theorem Does.keeps (hdo : Does sp x s t s' next) : s.Keeps s' := by
  cases hdo with
  | saved i event data startedAt =>
    exact fun n hn => ⟨n, mem_insert_new.mpr (.inl hn), .refl n⟩
  | marked recipientId id =>
    intro n hn
    refine ⟨_, List.mem_map_of_mem hn, ?_⟩
    split
    · exact n.later_markedRead s.now
    · exact .refl n
  | _ => exact fun n hn => ⟨n, hn, .refl n⟩

/-! ## Who has asked for it

A notification has been read because its recipient asked for it. -/

/-- The notification that a task is to mark as read, and for whom. -/
def Task.reads : Task → Option (String × Nat)
  | .find recipientId id | .mark recipientId id | .reread recipientId id => some (recipientId, id)
  | _ => none

/-- A task goes on with the notification that it was to mark. -/
theorem Does.reads (hdo : Does sp x s t s' next) : ∀ t' ∈ next, t'.reads = none ∨ t'.reads = t.reads := by
  intro t' ht'
  cases hdo with
  | stopped | called | committed | dropped | rejected | responded | read => exact absurd ht' List.not_mem_nil
  | found | marked =>
    obtain rfl := List.mem_singleton.mp ht'
    exact .inr rfl
  | _ =>
    obtain rfl := List.mem_singleton.mp ht'
    exact .inl rfl

/-- A row is marked as read by a task of its recipient. -/
theorem Does.read_by (hdo : Does sp x s t s' next) (hn : n ∈ s'.notifications) (hread : n.readAt ≠ none) :
    t.reads = some (n.recipientId, n.id)
      ∨ ∃ n₀ ∈ s.notifications, n₀.id = n.id ∧ n₀.recipientId = n.recipientId ∧ n₀.readAt ≠ none := by
  cases hdo with
  | saved i event data startedAt =>
    rcases mem_insert_new.mp hn with hold | rfl
    · exact .inr ⟨n, hold, rfl, rfl, hread⟩
    · exact absurd rfl hread
  | marked recipientId id =>
    obtain ⟨n₀, hn₀, rfl⟩ := List.mem_map.mp hn
    by_cases hrow : n₀.id = id ∧ n₀.recipientId = recipientId
    · obtain ⟨rfl, rfl⟩ := hrow
      rw [if_pos ⟨rfl, rfl⟩]
      exact .inl rfl
    · rw [if_neg hrow] at hread ⊢
      exact .inr ⟨n₀, hn₀, rfl, rfl, hread⟩
  | _ => exact .inr ⟨n, hn, rfl, rfl, hread⟩

/-! ## What is published

The stream is given the row as it was saved, when it is new and when it is read. -/

/-- The row is one of the table, or what it was before it was read. -/
def Published (s : Store) (m : Notification) : Prop :=
  ∃ n ∈ s.notifications, n = { m with readAt := n.readAt } ∧ (m.readAt = none ∨ m.readAt = n.readAt)

/-- What has been published is later found as it was, or read since. -/
theorem Published.later (h : Published s m) (hkeep : s.Keeps s') : Published s' m := by
  obtain ⟨n, hn, heq, hread⟩ := h
  obtain ⟨k, hk, hlater⟩ := hkeep n hn
  refine ⟨k, hk, ?_, ?_⟩
  · rw [hlater.1, heq]
  · cases hm : m.readAt with
    | none => exact .inl rfl
    | some readAt =>
      rw [hm] at hread
      have hsome : n.readAt = some readAt := (hread.resolve_left (fun h => by cases h)).symm
      exact .inr (hlater.2 readAt hsome).symm

/-- What a delivery is about to publish. -/
def Publishing (s : Store) : Task → Prop
  | .respond _ saved => ∀ m ∈ saved, Published s m
  | _ => True

/-- What is about to be published is still a row. -/
theorem Publishing.later (h : Publishing s t) (hkeep : s.Keeps s') : Publishing s' t := by
  cases t with
  | respond i saved => exact fun m hm => (h m hm).later hkeep
  | _ => trivial

/-- What a statement publishes is a row. -/
theorem Does.publishing (hdo : Does sp x s t s' next) (hpublished : ∀ m ∈ s.published, Published s m)
    (ht : Publishing s t) : (∀ m ∈ s'.published, Published s' m) ∧ ∀ t' ∈ next, Publishing s' t' := by
  have hkeep := hdo.keeps
  have hold : ∀ m ∈ s.published, Published s' m := fun m hm => (hpublished m hm).later hkeep
  cases hdo with
  | responded i saved =>
    refine ⟨fun m hm => ?_, fun _ ht' => absurd ht' List.not_mem_nil⟩
    rcases List.mem_append.mp hm with hm | hm
    · exact hold m hm
    · exact (ht m (Option.mem_toList.mp hm)).later hkeep
  -- what is read is published with the row that was read
  | @read recipientId id n hn =>
    refine ⟨fun m hm => ?_, fun _ ht' => absurd ht' List.not_mem_nil⟩
    rcases List.mem_append.mp hm with hm | hm
    · exact hold m hm
    · rw [List.mem_singleton.mp hm]
      have hget := (Option.filter_eq_some_iff.mp hn).1
      exact ⟨n, (Table.get?_eq_some.mp hget).1, rfl, .inr rfl⟩
  -- the row that is inserted is what the task will publish
  | saved i event data startedAt =>
    refine ⟨hold, fun t' ht' => ?_⟩
    obtain rfl := List.mem_singleton.mp ht'
    intro m hm
    obtain rfl := Option.some.inj hm
    refine ⟨_, mem_insert_new.mpr (.inr rfl), rfl, .inl rfl⟩
  | stopped | called | committed | dropped | rejected =>
    exact ⟨hold, fun _ ht' => absurd ht' List.not_mem_nil⟩
  | unaddressed | known | conflicts =>
    refine ⟨hold, fun t' ht' => ?_⟩
    obtain rfl := List.mem_singleton.mp ht'
    exact fun m hm => by cases hm
  | _ =>
    refine ⟨hold, fun t' ht' => ?_⟩
    obtain rfl := List.mem_singleton.mp ht'
    trivial

/-! ## Every interleaving

The three invariants hold along every interleaving. -/

theorem keeps_wait (s : Store) (elapsed : Time) : s.Keeps (s.wait elapsed) := .refl s

/-- **One step.** No notification is lost. -/
theorem keeps_step (sp : Spelling) (p : Pool Store Task) (act : Act Request Input) :
    p.store.Keeps (p.step (pipeline sp) act).store := by
  cases act with
  | start r => exact .refl _
  | run i x =>
    cases hi : p.tasks[i]? with
    | none =>
      rw [Pool.step_run_none hi]
      exact .refl _
    | some a =>
      rw [Pool.step_run hi]
      have hdo := statement_does sp x (p.store.wait x.elapsed) a.2
      exact (keeps_wait p.store x.elapsed).trans hdo.keeps

/-- Rows are kept along every run. -/
theorem keeps_run (sp : Spelling) (p : Pool Store Task) (acts : List (Act Request Input)) :
    p.store.Keeps (run (Pool.step (pipeline sp)) p acts).store :=
  run_invariant (P := fun q : Pool Store Task => p.store.Keeps q.store)
    (fun q act h => h.trans (keeps_step sp q act)) (.refl _) acts

/-- What is read, and what is to be marked as read, has been asked for. -/
structure Asked (asked : List (Act Request Input)) (p : Pool Store Task) : Prop where
  rows : ∀ n ∈ p.store.notifications, n.readAt ≠ none → Act.start (.markRead n.recipientId n.id) ∈ asked
  tasks : ∀ a ∈ p.tasks, ∀ q, a.2.reads = some q → Act.start (.markRead q.1 q.2) ∈ asked

variable {asked : List (Act Request Input)} {p : Pool Store Task}

/-- **One step.** -/
theorem Asked.step (h : Asked asked p) {act : Act Request Input} (hact : act ∈ asked) :
    Asked asked (p.step (pipeline sp) act) := by
  constructor
  · cases act with
    | start r => exact h.rows
    | run i x =>
      cases hi : p.tasks[i]? with
      | none =>
        rw [Pool.step_run_none hi]
        exact h.rows
      | some a =>
        rw [Pool.step_run hi]
        intro n hn hread
        have hdo := statement_does sp x (p.store.wait x.elapsed) a.2
        -- the row has just been read, or was read before
        rcases hdo.read_by hn hread with htask | ⟨n₀, hn₀, hid, hrecipient, hread₀⟩
        · exact h.tasks a (List.mem_of_getElem? hi) _ htask
        · rw [← hid, ← hrecipient]
          exact h.rows n₀ hn₀ hread₀
  · refine Pool.tasks_step (J := fun (_ : Store) (t : Task) => ∀ q, t.reads = some q →
      Act.start (Request.markRead q.1 q.2) ∈ asked)
      (fun r hr q hq => ?_) (fun i x n t _ hi => ⟨fun t' ht' q hq => ?_, fun o ho => ?_⟩) h.tasks
    · -- the request itself
      subst hr
      cases r with
      | markRead recipientId id =>
        obtain rfl := Option.some.inj hq
        exact hact
      | call c => cases hq
      | deliver => cases hq
      | message i => cases hq
    · have hdo := statement_does sp x (p.store.wait x.elapsed) t
      rcases hdo.reads t' ht' with hnone | hsame
      · cases hnone.symm.trans hq
      · exact h.tasks (n, t) (List.mem_of_getElem? hi) q (hsame.symm.trans hq)
    · exact h.tasks o (List.mem_of_mem_eraseIdx ho)

/-- Who reads has asked for it, after every interleaving. -/
theorem asked_after (sp : Spelling) (acts : List (Act Request Input)) : Asked acts (pipelineAfter sp acts) := by
  have hidle : Asked acts (Pool.idle .init) :=
    ⟨fun _ hn => absurd hn List.not_mem_nil, fun _ ha => absurd ha List.not_mem_nil⟩
  have hmeets : Meets (Pool.step (pipeline sp)) (fun _ act => act ∈ acts) (Pool.idle .init) acts :=
    .of_mem (fun _ _ he => he) _
  have halways := always_of_meets (P := Asked acts) (fun _ _ _ h hact => h.step hact) hidle hmeets
  exact halways.last

/-- What has been published are rows, and what the tasks publish next are rows. -/
structure Streamed (p : Pool Store Task) : Prop where
  published : ∀ m ∈ p.store.published, Published p.store m
  tasks : ∀ a ∈ p.tasks, Publishing p.store a.2

/-- **One step.** -/
theorem Streamed.step (h : Streamed p) (act : Act Request Input) : Streamed (p.step (pipeline sp) act) := by
  have hdo : ∀ x n t, (n, t) ∈ p.tasks → _ := fun x n t ht =>
    (statement_does sp x (p.store.wait x.elapsed) t).publishing h.published (h.tasks (n, t) ht)
  constructor
  · cases act with
    | start r => exact h.published
    | run i x =>
      cases hi : p.tasks[i]? with
      | none =>
        rw [Pool.step_run_none hi]
        exact h.published
      | some a =>
        rw [Pool.step_run hi]
        exact (hdo x a.1 a.2 (List.mem_of_getElem? hi)).1
  · refine Pool.tasks_step (J := Publishing) (fun r _ => ?_) (fun i x n t _ hi => ⟨?_, fun o ho => ?_⟩) h.tasks
    · cases r <;> trivial
    · exact (hdo x n t (List.mem_of_getElem? hi)).2
    · have hkeep := (statement_does sp x (p.store.wait x.elapsed) t).keeps
      exact (h.tasks o (List.mem_of_mem_eraseIdx ho)).later hkeep

/-- What was published are rows, after every interleaving. -/
theorem streamed_after (sp : Spelling) (acts : List (Act Request Input)) : Streamed (pipelineAfter sp acts) :=
  run_invariant (P := Streamed) (fun _ act h => h.step act)
    ⟨fun _ hm => absurd hm List.not_mem_nil, fun _ ha => absurd ha List.not_mem_nil⟩ acts

/-- **Every interleaving.** No notification is lost, and of each only the time at which it was read is ever written, once.
It is written only after its recipient has asked for it. What a user sees in the stream are rows of that user, each as it
is or as it was before it was read. -/
theorem read_by_recipient (sp : Spelling) (acts acts' : List (Act Request Input)) :
    (∀ n ∈ (pipelineAfter sp acts).store.notifications,
      ∃ m ∈ (pipelineAfter sp (acts ++ acts')).store.notifications, n.Later m)
    ∧ (∀ n ∈ (pipelineAfter sp acts).store.notifications, n.readAt ≠ none →
      Act.start (.markRead n.recipientId n.id) ∈ acts)
    ∧ ∀ userId, ∀ m ∈ (pipelineAfter sp acts).store.streamForUser userId,
      ∃ n ∈ (pipelineAfter sp acts).store.notifications, n.recipientId = userId ∧ n = { m with readAt := n.readAt }
        ∧ (m.readAt = none ∨ m.readAt = n.readAt) := by
  refine ⟨fun n hn => ?_, fun n hn hread => (asked_after sp acts).rows n hn hread, fun userId m hm => ?_⟩
  · have hkeep := keeps_run sp (pipelineAfter sp acts) acts'
    rw [pipelineAfter, run_append]
    exact hkeep n hn
  · obtain ⟨hm, hrecipient⟩ := List.mem_filter.mp hm
    obtain ⟨n, hn, heq, hread⟩ := (streamed_after sp acts).published m hm
    refine ⟨n, hn, ?_, heq, hread⟩
    rw [heq]
    exact of_decide_eq_true hrecipient

end AcaSocial.Notifications
