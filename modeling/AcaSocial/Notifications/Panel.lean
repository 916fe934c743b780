import AcaSocial.Frontend.Notifications
import AcaSocial.Notifications.Reading

/-!
# The list that a user sees

The browser asks for the list, opens the stream and asks for the list again, and puts what comes into its own list.
In the meantime messages are delivered and notifications are read.

* **`Printing`** — how rows become JSON.
* **`Covered`** — each row was there when the list was asked for, or it has been published since, or it is about to be.
* **`list_up_to_date`** — once everything has arrived, the list is the one that loading the page would show.

A delivery that fails after it has saved a notification does not publish it. The theorem is about runs without such
failures after the second request for the list.
-/

namespace AcaSocial.Notifications

open Frontend (ApiNotification mapApiNotification mergeAll ComparesIso Consistent Shows itemOf anyRead times)
open Timestamps (Format HasFormat)

variable {sp : Spelling} {x : Input} {s s' : Store} {t : Task} {next : List Task} {n m : Notification} {userId : String}
  {format : Format}

/-! ## Rows as JSON

What the API and the stream send of a row. Both send the whole row, so that two entries of one row differ in `readAt`
only. -/

/-- A value of `data`, of which the browser reads the texts. -/
def Unknown.sent : Unknown → Frontend.Unknown
  | .string text => .string text
  | _ => .other

/-- The texts of times and of the ids of rows. -/
structure Printing where
  toISOString : Time → String
  id : Nat → String
  injective : ∀ i j, id i = id j → i = j

namespace Printing

variable (pr : Printing)

def entry (n : Notification) : ApiNotification where
  id := pr.id n.id
  type := some n.type
  title := n.title
  body := n.body
  createdAt := pr.toISOString n.createdAt
  readAt := n.readAt.map pr.toISOString
  data := some (n.data.map fun f => (f.1, f.2.sent))

/-- `GET /api/notifications?limit=30`. -/
def load (s : Store) (userId : String) : List ApiNotification :=
  (listForUser s.notifications.rows userId 30).map pr.entry

/-- What the API or the stream delivers of these stores. -/
inductive Delivers (s : Store) (userId : String) : List ApiNotification → Prop where
  | load : Delivers s userId (pr.load s userId)
  | frame {m : Notification} (hm : m ∈ s.streamForUser userId) : Delivers s userId [pr.entry m]

end Printing

def Store.rowsOf (s : Store) (userId : String) : List Notification :=
  s.notifications.rows.filter fun n => decide (n.recipientId = userId)

/-- The rows of a user were created at different times, and the texts of the times are ordered as they are. -/
structure Dated (pr : Printing) (format : Format) (rows : List Notification) : Prop where
  literals : ∀ c, some c ∈ format → c ∈ Frontend.isoLiterals
  hasFormat : ∀ n ∈ rows, HasFormat format (pr.toISOString n.createdAt).toList
  later : ∀ n ∈ rows, ∀ m ∈ rows, n.createdAt < m.createdAt → pr.toISOString n.createdAt < pr.toISOString m.createdAt
  distinct : ∀ n ∈ rows, ∀ m ∈ rows, n.createdAt = m.createdAt → n.id = m.id

namespace Notification.Later

theorem id_eq (h : n.Later m) : m.id = n.id := by rw [h.1]

theorem recipientId_eq (h : n.Later m) : m.recipientId = n.recipientId := by rw [h.1]

theorem createdAt_eq (h : n.Later m) : m.createdAt = n.createdAt := by rw [h.1]

end Notification.Later

/-- The rows of a user. -/
theorem mem_rowsOf : n ∈ s.rowsOf userId ↔ n ∈ s.notifications ∧ n.recipientId = userId := by
  rw [Store.rowsOf, List.mem_filter, decide_eq_true_iff]
  rfl

/-- A user keeps the rows. -/
theorem Store.Keeps.rowsOf (h : s.Keeps s') (hn : n ∈ s.rowsOf userId) : ∃ m ∈ s'.rowsOf userId, n.Later m := by
  obtain ⟨hn, hrecipient⟩ := mem_rowsOf.mp hn
  obtain ⟨m, hm, hlater⟩ := h n hn
  exact ⟨m, mem_rowsOf.mpr ⟨hm, hlater.recipientId_eq.trans hrecipient⟩, hlater⟩

variable {pr : Printing}

/-- The time of an entry is that of its row. -/
theorem entry_time_eq (h : m.createdAt = n.createdAt) : (pr.entry m).time format = (pr.entry n).time format := by
  show Timestamps.stamp format (pr.toISOString m.createdAt).toList
    = Timestamps.stamp format (pr.toISOString n.createdAt).toList
  rw [h]

/-- What a copy of a row differs in. -/
theorem entry_unread (h : n = { m with readAt := n.readAt }) :
    { pr.entry m with readAt := none } = { pr.entry n with readAt := none } := by
  rw [h]
  rfl

/-- Copies of rows are consistent. -/
theorem Dated.consistent (h : Dated pr format (s.rowsOf userId)) {entries : List ApiNotification}
    (hentries : ∀ e ∈ entries, ∃ m, Published s m ∧ m.recipientId = userId ∧ e = pr.entry m) :
    Consistent format entries := by
  -- every entry is a copy of a row, but for the time of reading
  have hrow : ∀ e ∈ entries, ∃ n ∈ s.rowsOf userId, e.id = pr.id n.id ∧ e.createdAt = pr.toISOString n.createdAt
      ∧ { e with readAt := none } = { pr.entry n with readAt := none } := by
    intro e he
    obtain ⟨m, ⟨n, hn, hcopy, -⟩, hrecipient, rfl⟩ := hentries e he
    have hunread : { pr.entry m with readAt := none } = { pr.entry n with readAt := none } := entry_unread hcopy
    refine ⟨n, mem_rowsOf.mpr ⟨hn, ?_⟩, congrArg ApiNotification.id hunread, congrArg ApiNotification.createdAt hunread,
      hunread⟩
    rw [hcopy]
    exact hrecipient
  constructor
  · intro e he e' he' hid
    obtain ⟨n, hn, hnid, -, hnsame⟩ := hrow e he
    obtain ⟨n', hn', hnid', -, hnsame'⟩ := hrow e' he'
    have hkey : n.id = n'.id := pr.injective _ _ (hnid.symm.trans (hid.trans hnid'))
    obtain rfl := Table.eq_of_key_eq (mem_rowsOf.mp hn).1 (mem_rowsOf.mp hn').1 hkey
    exact hnsame.trans hnsame'.symm
  · intro e he e' he' hcreated
    obtain ⟨n, hn, hnid, hntime, -⟩ := hrow e he
    obtain ⟨n', hn', hnid', hntime', -⟩ := hrow e' he'
    have hsame : pr.toISOString n.createdAt = pr.toISOString n'.createdAt := hntime.symm.trans (hcreated.trans hntime')
    have htime : n.createdAt = n'.createdAt := by
      rcases Nat.lt_trichotomy n.createdAt n'.createdAt with hlt | heq | hgt
      · exact absurd (hsame ▸ h.later n hn n' hn' hlt) (lt_irrefl _)
      · exact heq
      · exact absurd (hsame ▸ h.later n' hn' n hn hgt) (lt_irrefl _)
    rw [hnid, hnid', h.distinct n hn n' hn' htime]
  · exact h.literals
  · intro e he
    obtain ⟨n, hn, -, htime, -⟩ := hrow e he
    rw [htime]
    exact h.hasFormat n hn

/-! ## Lists that are incomplete

The list of the browser is cut after 30 entries, and the answer of the API too. An entry that is missing in a list is
an older one than all that the list shows. -/

/-- **What is not needed.** A list that shows some copies shows all entries, if the copies include the newest entries,
and a read one of each that has been read. -/
theorem shows_of_covered {all seen : List ApiNotification} {shown : List Frontend.AppNotification}
    (hconsistent : Consistent format (all ++ seen))
    (hcopies : ∀ e ∈ seen, ∃ e' ∈ all, e'.id = e.id ∧ (e.readAt ≠ none → e'.readAt ≠ none))
    (hcovered : ∀ e ∈ all, e.time format ∈ newest 30 (times format all) →
      ∃ e' ∈ seen, e'.id = e.id ∧ (anyRead all e.id = true → anyRead seen e.id = true))
    (h : Shows format seen shown) : Shows format all shown := by
  have hleft : ∀ {e}, e ∈ all → e ∈ all ++ seen := fun he => List.mem_append_left _ he
  have hright : ∀ {e}, e ∈ seen → e ∈ all ++ seen := fun he => List.mem_append_right _ he
  have hnewest : newest 30 (times format seen) = newest 30 (times format all) := by
    apply newest_of_between
    · intro time htime
      obtain ⟨e, he, rfl⟩ := Frontend.mem_times.mp (newest_subset htime)
      obtain ⟨e', he', hid, -⟩ := hcovered e he htime
      exact Frontend.mem_times.mpr ⟨e', he', hconsistent.time_eq (hright he') (hleft he) hid⟩
    · intro time htime
      obtain ⟨e, he, rfl⟩ := Frontend.mem_times.mp htime
      obtain ⟨e', he', hid, -⟩ := hcopies e he
      exact Frontend.mem_times.mpr ⟨e', he', hconsistent.time_eq (hleft he') (hright he) hid⟩
  -- copies of a new entry have one item
  have hitem : ∀ e ∈ all, ∀ e' ∈ seen, e'.id = e.id → e.time format ∈ newest 30 (times format all) →
      itemOf seen e' = itemOf all e := by
    intro e he e' he' hid hnew
    have hread : anyRead seen e.id = anyRead all e.id := by
      rw [Bool.eq_iff_iff]
      constructor
      · intro hseen
        obtain ⟨e₁, he₁, hid₁, hread₁⟩ := Frontend.anyRead_iff.mp hseen
        obtain ⟨e₂, he₂, hid₂, hread₂⟩ := hcopies e₁ he₁
        exact Frontend.anyRead_iff.mpr ⟨e₂, he₂, hid₂.trans hid₁, hread₂ hread₁⟩
      · obtain ⟨-, -, -, hall⟩ := hcovered e he hnew
        exact hall
    rw [hconsistent.itemOf_eq (hright he') (hleft he) hid seen, itemOf, itemOf, hread]
  refine ⟨h.ordered, fun item => (h.mem item).trans ⟨?_, ?_⟩⟩
  · rintro ⟨e', he', hnew, rfl⟩
    obtain ⟨e, he, hid, -⟩ := hcopies e' he'
    have htime := hconsistent.time_eq (hleft he) (hright he') hid
    rw [hnewest, ← htime] at hnew
    exact ⟨e, he, hnew, hitem e he e' he' hid.symm hnew⟩
  · rintro ⟨e, he, hnew, rfl⟩
    obtain ⟨e', he', hid, -⟩ := hcovered e he hnew
    have htime := hconsistent.time_eq (hleft he) (hright he') hid.symm
    refine ⟨e', he', ?_, (hitem e he e' he' hid hnew).symm⟩
    rw [hnewest, ← htime]
    exact hnew

/-- Rows of one time are one row. -/
theorem Dated.eq_of_createdAt (h : Dated pr format (s.rowsOf userId)) (hn : n ∈ s.rowsOf userId)
    (hm : m ∈ s.rowsOf userId) (htime : n.createdAt = m.createdAt) : n = m :=
  Table.eq_of_key_eq (mem_rowsOf.mp hn).1 (mem_rowsOf.mp hm).1 (h.distinct n hn m hm htime)

/-- The texts of times are ordered as the times are. -/
theorem Dated.time_lt (h : Dated pr format (s.rowsOf userId)) (hn : n ∈ s.rowsOf userId) (hm : m ∈ s.rowsOf userId)
    (hlt : n.createdAt < m.createdAt) : (pr.entry n).time format < (pr.entry m).time format := by
  have htext := h.later n hn m hm hlt
  rw [String.lt_iff_toList_lt] at htext
  exact (Timestamps.lt_iff_stamp_lt (h.hasFormat n hn) (h.hasFormat m hm)).mp htext

/-- The rows that are among the newest are those that the API answers with. -/
theorem Dated.mem_listForUser (h : Dated pr format (s.rowsOf userId)) (hn : n ∈ s.rowsOf userId)
    (hnew : (pr.entry n).time format ∈ newest 30 (times format ((s.rowsOf userId).map pr.entry))) :
    n ∈ listForUser s.notifications.rows userId 30 := by
  have hperm := List.mergeSort_perm (s.rowsOf userId) fun a b => decide (b.createdAt ≤ a.createdAt)
  have hsorted : ((s.rowsOf userId).mergeSort fun a b => decide (b.createdAt ≤ a.createdAt)).Pairwise
      fun a b => decide (b.createdAt ≤ a.createdAt) = true := by
    apply List.pairwise_mergeSort
    · intro a b c hab hbc
      exact decide_eq_true (le_trans (of_decide_eq_true hbc) (of_decide_eq_true hab))
    · intro a b
      rw [Bool.or_eq_true, decide_eq_true_eq, decide_eq_true_eq]
      exact Nat.le_total _ _
  have hlist : listForUser s.notifications.rows userId 30
      = ((s.rowsOf userId).mergeSort fun a b => decide (b.createdAt ≤ a.createdAt)).take 30 := rfl
  rw [hlist]
  generalize (s.rowsOf userId).mergeSort (fun a b => decide (b.createdAt ≤ a.createdAt)) = rows at hperm hsorted ⊢
  have hmem : ∀ {a}, a ∈ rows → a ∈ s.rowsOf userId := fun ha => hperm.mem_iff.mp ha
  have hnodup : rows.Nodup := by
    have hall : (s.rowsOf userId).Nodup := (List.Nodup.of_map _ s.notifications.nodup).sublist List.filter_sublist
    exact hperm.nodup_iff.mpr hall
  -- sorted by the column, the rows are sorted by the printed times
  have htimes : (rows.map fun a => (pr.entry a).time format).Pairwise (· > ·) := by
    rw [List.pairwise_map]
    refine (hsorted.and hnodup).imp_of_mem fun {a b} ha hb hab => ?_
    refine h.time_lt (hmem hb) (hmem ha) (lt_of_le_of_ne (of_decide_eq_true hab.1) fun htime => ?_)
    exact hab.2 (h.eq_of_createdAt (hmem hb) (hmem ha) htime).symm
  have hset : (rows.map fun a => (pr.entry a).time format).toFinset
      = times format ((s.rowsOf userId).map pr.entry) := by
    rw [times, List.map_map]
    exact List.toFinset_eq_of_perm _ _ (hperm.map _)
  -- so the thirty newest times are those of the first thirty rows
  rw [← hset, ← mem_take_iff htimes, ← List.map_take] at hnew
  obtain ⟨a, ha, htime⟩ := List.mem_map.mp hnew
  have hrow := hmem (List.mem_of_mem_take ha)
  have hsame : a = n := by
    rcases Nat.lt_trichotomy a.createdAt n.createdAt with hless | htime' | hless
    · exact absurd htime (Nat.ne_of_lt (h.time_lt hrow hn hless))
    · exact h.eq_of_createdAt hrow hn htime'
    · exact absurd htime.symm (Nat.ne_of_lt (h.time_lt hn hrow hless))
  exact hsame ▸ ha

/-! ## What is published

A notification is published when it is saved and when it is read, unless the process fails in between. -/

/-- The task is about to publish. -/
def Task.publishes : Task → Bool
  | .respond _ (some _) | .reread _ _ => true
  | _ => false

/-- No statement that publishes fails. -/
def KeepsPublishing (p : Pool Store Task) : Act Request Input → Prop
  | .start _ => True
  | .run i x => x.fails = true → ∀ a ∈ p.tasks[i]?, a.2.publishes = false

instance (p : Pool Store Task) (act : Act Request Input) : Decidable (KeepsPublishing p act) := by
  cases act with
  | start r => exact .isTrue trivial
  | run i x => exact inferInstanceAs (Decidable (x.fails = true → ∀ a ∈ p.tasks[i]?, a.2.publishes = false))

/-- A statement that is about to publish succeeds. -/
theorem KeepsPublishing.succeeds {p : Pool Store Task} {i number : Nat} (h : KeepsPublishing p (.run i x))
    (hi : p.tasks[i]? = some (number, t)) (hpublishes : t.publishes = true) : x.fails = false := by
  cases hx : x.fails with
  | false => rfl
  | true =>
    have hquiet := h hx (number, t) hi
    cases hpublishes.symm.trans hquiet

/-- What has been published stays published. -/
theorem Does.published_prefix (hdo : Does sp x s t s' next) : s.published <+: s'.published := by
  cases hdo with
  | responded i saved => exact List.prefix_append _ _
  | read hn => exact List.prefix_append _ _
  | _ => exact ⟨[], List.append_nil _⟩

/-- A row is there as it was, or it is new and goes to the streams next, or it has been read and goes there next. -/
theorem Does.row (hdo : Does sp x s t s' next) (hn : n ∈ s'.notifications) :
    (∃ n₀ ∈ s.notifications, n₀.id = n.id ∧ n₀.recipientId = n.recipientId
        ∧ (n.readAt ≠ none → n₀.readAt ≠ none ∨ Task.reread n.recipientId n.id ∈ next))
      ∨ n.readAt = none ∧ ∃ i, Task.respond i (some n) ∈ next := by
  cases hdo with
  | saved i event data startedAt =>
    rcases mem_insert_new.mp hn with hold | rfl
    · exact .inl ⟨n, hold, rfl, rfl, .inl⟩
    · exact .inr ⟨rfl, i, List.mem_singleton_self _⟩
  | marked recipientId id =>
    obtain ⟨n₀, hn₀, rfl⟩ := List.mem_map.mp hn
    by_cases hrow : n₀.id = id ∧ n₀.recipientId = recipientId
    · obtain ⟨rfl, rfl⟩ := hrow
      rw [if_pos ⟨rfl, rfl⟩]
      exact .inl ⟨n₀, hn₀, rfl, rfl, fun _ => .inr (List.mem_singleton_self _)⟩
    · rw [if_neg hrow]
      exact .inl ⟨n₀, hn₀, rfl, rfl, .inl⟩
  | _ => exact .inl ⟨n, hn, rfl, rfl, .inl⟩

/-- What a delivery has saved is published. -/
theorem published_of_respond {i : Nat} (hfails : x.fails = false) :
    (statement sp x s (.respond i (some m))).store.published = s.published ++ [m] := by
  show (if x.fails then stop (sent sp x s (.respond i (some m))) (.respond i (some m))
    else respond x s i (some m)).store.published = _
  rw [hfails]
  rfl

/-- What has been marked as read is published. -/
theorem published_of_reread (hfails : x.fails = false) (hn : n ∈ s.notifications) :
    (statement sp x s (.reread n.recipientId n.id)).store.published = s.published ++ [n] := by
  have hfound : s.notificationOf n.recipientId n.id = some n :=
    Option.filter_eq_some_iff.mpr ⟨Table.get?_eq_some.mpr ⟨hn, rfl⟩, decide_eq_true rfl⟩
  show (if x.fails then stop (sent sp x s (.reread n.recipientId n.id)) (.reread n.recipientId n.id)
    else reread s n.recipientId n.id).store.published = _
  rw [hfails, reread, hfound]
  rfl

/-! ## Since the list was asked for

What has happened since then has been published, or is about to be. -/

/-- The copies that a client has: those of the stores `s₀`, and what was published after the first `k`. -/
def Copy (s₀ : Store) (k : Nat) (s : Store) (m : Notification) : Prop :=
  m ∈ s₀.notifications ∨ m ∈ s.published.drop k

/-- What was a copy stays one. -/
theorem Copy.later {s₀ : Store} {k : Nat} (h : Copy s₀ k s m) (hextends : s.published <+: s'.published) :
    Copy s₀ k s' m := by
  obtain ⟨more, hmore⟩ := hextends
  refine h.imp id fun hm => ?_
  rw [← hmore, List.drop_append]
  exact List.mem_append_left _ hm

/-- **The invariant.** There is a copy of each row, or it is going to be published. If it has been read, so has a copy,
or it is going to be published again. -/
structure Covered (s₀ : Store) (k : Nat) (p : Pool Store Task) : Prop where
  known : k ≤ p.store.published.length
  there : ∀ n ∈ p.store.notifications, (∃ m, Copy s₀ k p.store m ∧ m.id = n.id)
    ∨ ∃ a ∈ p.tasks, ∃ i m, a.2 = .respond i (some m) ∧ m.id = n.id
  read : ∀ n ∈ p.store.notifications, n.readAt ≠ none → (∃ m, Copy s₀ k p.store m ∧ m.id = n.id ∧ m.readAt ≠ none)
    ∨ ∃ a ∈ p.tasks, a.2 = .reread n.recipientId n.id

/-- At the beginning the list has all rows. -/
theorem covered_start (p : Pool Store Task) : Covered p.store p.store.published.length p where
  known := Nat.le_refl _
  there := fun n hn => .inl ⟨n, .inl hn, rfl⟩
  read := fun n hn hread => .inl ⟨n, .inl hn, rfl, hread⟩

/-- What a task publishes is a copy. -/
theorem copy_of_published {s₀ : Store} {k : Nat} {more : List Notification} (hk : k ≤ s.published.length)
    (hmore : s'.published = s.published ++ more) (hm : m ∈ more) : Copy s₀ k s' m := by
  refine .inr ?_
  rw [hmore, List.drop_append_of_le_length hk]
  exact List.mem_append_right _ hm

variable {p : Pool Store Task} {s₀ : Store} {k : Nat}

/-- **One step.** -/
theorem Covered.step (h : Covered s₀ k p) {act : Act Request Input} (hkeep : KeepsPublishing p act) :
    Covered s₀ k (p.step (pipeline sp) act) := by
  cases act with
  | start r =>
    refine ⟨h.known, fun n hn => (h.there n hn).imp_right ?_, fun n hn hread => (h.read n hn hread).imp_right ?_⟩
    · rintro ⟨a, ha, hpending⟩
      exact ⟨a, List.mem_append_left _ ha, hpending⟩
    · rintro ⟨a, ha, hpending⟩
      exact ⟨a, List.mem_append_left _ ha, hpending⟩
  | run i x =>
    cases hi : p.tasks[i]? with
    | none =>
      rw [Pool.step_run_none hi]
      exact h
    | some a =>
      obtain ⟨number, t⟩ := a
      rw [Pool.step_run hi]
      show Covered s₀ k ⟨(statement sp x (p.store.wait x.elapsed) t).store,
        p.tasks.eraseIdx i ++ (statement sp x (p.store.wait x.elapsed) t).next.map (Prod.mk number), p.requests⟩
      have hdo := statement_does sp x (p.store.wait x.elapsed) t
      have hextends : p.store.published <+: (statement sp x (p.store.wait x.elapsed) t).store.published :=
        hdo.published_prefix
      -- a copy that is still to be published is so by the task that runs, or by another
      have hothers : ∀ a ∈ p.tasks, a = (number, t) ∨ a ∈ p.tasks.eraseIdx i := fun a ha =>
        List.mem_cons.mp ((Pool.perm_eraseIdx hi).mem_iff.mp ha)
      refine ⟨h.known.trans hextends.length_le, fun n hn => ?_, fun n hn hread => ?_⟩
      · rcases hdo.row hn with ⟨n₀, hn₀, hid, hrecipient, -⟩ | ⟨hnone, j, hnext⟩
        · rcases h.there n₀ hn₀ with ⟨m, hcopy, hm⟩ | ⟨a, ha, j, m, hpending, hm⟩
          · exact .inl ⟨m, hcopy.later hextends, hm.trans hid⟩
          · rcases hothers a ha with rfl | hother
            · obtain rfl : t = .respond j (some m) := hpending
              have hmore : (statement sp x (p.store.wait x.elapsed) (.respond j (some m))).store.published
                  = p.store.published ++ [m] := published_of_respond (hkeep.succeeds hi rfl)
              exact .inl ⟨m, copy_of_published h.known hmore (List.mem_singleton_self m), hm.trans hid⟩
            · exact .inr ⟨a, List.mem_append_left _ hother, j, m, hpending, hm.trans hid⟩
        -- a new row is about to be published
        · exact .inr ⟨_, List.mem_append_right _ (List.mem_map_of_mem hnext), j, n, rfl, rfl⟩
      · rcases hdo.row hn with ⟨n₀, hn₀, hid, hrecipient, hold⟩ | ⟨hnone, -⟩
        · rcases hold hread with hread₀ | hnext
          · rcases h.read n₀ hn₀ hread₀ with ⟨m, hcopy, hm, hmread⟩ | ⟨a, ha, hpending⟩
            · exact .inl ⟨m, hcopy.later hextends, hm.trans hid, hmread⟩
            · rcases hothers a ha with rfl | hother
              · obtain rfl : t = .reread n₀.recipientId n₀.id := hpending
                have hn₀ : n₀ ∈ (p.store.wait x.elapsed).notifications := hn₀
                have hmore : (statement sp x (p.store.wait x.elapsed) (.reread n₀.recipientId n₀.id)).store.published
                    = p.store.published ++ [n₀] := published_of_reread (hkeep.succeeds hi rfl) hn₀
                exact .inl ⟨n₀, copy_of_published h.known hmore (List.mem_singleton_self n₀), hid, hread₀⟩
              · refine .inr ⟨a, List.mem_append_left _ hother, ?_⟩
                rw [hpending, hid, hrecipient]
          · exact .inr ⟨_, List.mem_append_right _ (List.mem_map_of_mem hnext), rfl⟩
        · exact absurd hnone hread

/-- Along a run without failures all changes are published or about to be. -/
theorem covered_after (p : Pool Store Task) {acts : List (Act Request Input)}
    (hkeep : Meets (Pool.step (pipeline sp)) KeepsPublishing p acts) :
    Covered p.store p.store.published.length (run (Pool.step (pipeline sp)) p acts) :=
  (always_of_meets (P := Covered p.store p.store.published.length) (fun _ _ _ h hc => h.step hc) (covered_start p)
    hkeep).last

/-- What has been published stays published. -/
theorem published_run (sp : Spelling) (p : Pool Store Task) (acts : List (Act Request Input)) :
    p.store.published <+: (run (Pool.step (pipeline sp)) p acts).store.published := by
  refine run_invariant (P := fun q : Pool Store Task => p.store.published <+: q.store.published)
    (fun q act h => h.trans ?_) (List.prefix_refl _) acts
  cases act with
  | start r => exact List.prefix_refl _
  | run i x =>
    cases hi : q.tasks[i]? with
    | none => exact ⟨[], by rw [List.append_nil, Pool.step_run_none hi]⟩
    | some a =>
      have hdo := statement_does sp x (q.store.wait x.elapsed) a.2
      rw [Pool.step_run hi]
      exact hdo.published_prefix

/-! ## What has been delivered

The entries of the answer and of the stream are rows as they were at some time. -/

/-- A row that a client has a copy of is a row of the same user. -/
theorem Published.of_copy (h : Published s m) (hn : n ∈ s.notifications) (hid : m.id = n.id) :
    n = { m with readAt := n.readAt } ∧ (m.readAt = none ∨ m.readAt = n.readAt) := by
  obtain ⟨n', hn', hcopy, hread⟩ := h
  have hkey : n'.id = n.id := by
    rw [hcopy]
    exact hid
  obtain rfl := Table.eq_of_key_eq hn' hn hkey
  exact ⟨hcopy, hread⟩

/-- What comes from the API or the stream are copies of rows of the user. -/
theorem published_of_delivers {acts acts' : List (Act Request Input)} (hextends : acts' <+: acts)
    {batch : List ApiNotification} (h : pr.Delivers (pipelineAfter sp acts').store userId batch) :
    ∀ e ∈ batch, ∃ m, Published (pipelineAfter sp acts).store m ∧ m.recipientId = userId ∧ e = pr.entry m := by
  obtain ⟨more, rfl⟩ := hextends
  have hkeep : (pipelineAfter sp acts').store.Keeps (pipelineAfter sp (acts' ++ more)).store := by
    have hrun : pipelineAfter sp (acts' ++ more) = run (Pool.step (pipeline sp)) (pipelineAfter sp acts') more :=
      run_append _ _ _
    rw [hrun]
    exact keeps_run sp (pipelineAfter sp acts') more
  intro e he
  cases h with
  | load =>
    obtain ⟨m, hm, rfl⟩ := List.mem_map.mp he
    have hrow : m ∈ (pipelineAfter sp acts').store.rowsOf userId :=
      (List.mergeSort_perm _ _).mem_iff.mp (List.mem_of_mem_take hm)
    obtain ⟨hm, hrecipient⟩ := mem_rowsOf.mp hrow
    have hself : Published (pipelineAfter sp acts').store m := ⟨m, hm, rfl, .inr rfl⟩
    exact ⟨m, hself.later hkeep, hrecipient, rfl⟩
  | @frame m hm =>
    obtain ⟨hpublished, hrecipient⟩ := List.mem_filter.mp hm
    have hself := (streamed_after sp acts').published m hpublished
    exact ⟨m, hself.later hkeep, of_decide_eq_true hrecipient, List.mem_singleton.mp he⟩

/-- What has copies of the newest rows, and a read one of each that has been read, is shown as the rows are. -/
theorem shows_rows {localeCompare : String → String → Int} (hlocale : ComparesIso localeCompare)
    (hdated : Dated pr format (s.rowsOf userId)) {batches : List (List ApiNotification)}
    (hcopies : ∀ e ∈ batches.flatten, ∃ m, Published s m ∧ m.recipientId = userId ∧ e = pr.entry m)
    (hcovered : ∀ n ∈ s.rowsOf userId,
      (pr.entry n).time format ∈ newest 30 (times format ((s.rowsOf userId).map pr.entry)) →
      (∃ e ∈ batches.flatten, e.id = pr.id n.id)
        ∧ (n.readAt ≠ none → ∃ e ∈ batches.flatten, e.id = pr.id n.id ∧ e.readAt ≠ none)) :
    Shows format ((s.rowsOf userId).map pr.entry) (mergeAll localeCompare batches) := by
  have hself : ∀ e ∈ (s.rowsOf userId).map pr.entry, ∃ m, Published s m ∧ m.recipientId = userId ∧ e = pr.entry m := by
    intro e he
    obtain ⟨n, hn, rfl⟩ := List.mem_map.mp he
    obtain ⟨hn, hrecipient⟩ := mem_rowsOf.mp hn
    exact ⟨n, ⟨n, hn, rfl, .inr rfl⟩, hrecipient, rfl⟩
  -- rows and copies are consistent together
  have hboth : Consistent format ((s.rowsOf userId).map pr.entry ++ batches.flatten) :=
    hdated.consistent fun e he => (List.mem_append.mp he).elim (hself e) (hcopies e)
  refine shows_of_covered hboth (fun e he => ?_) (fun e he hnew => ?_)
    (Frontend.shows_mergeAll hlocale (hboth.mono fun e he => List.mem_append_right _ he))
  · obtain ⟨m, ⟨n, hn, hcopy, hread⟩, hrecipient, rfl⟩ := hcopies e he
    have hrow : n ∈ s.rowsOf userId := by
      refine mem_rowsOf.mpr ⟨hn, ?_⟩
      rw [hcopy]
      exact hrecipient
    have hid : n.id = m.id := by rw [hcopy]
    refine ⟨pr.entry n, List.mem_map_of_mem hrow, congrArg pr.id hid, fun hm hnone => ?_⟩
    have hmread : m.readAt ≠ none := fun h => hm (by rw [Printing.entry, h]; rfl)
    have hnread : n.readAt ≠ none := (hread.resolve_left hmread) ▸ hmread
    exact hnread (Option.map_eq_none_iff.mp hnone)
  · obtain ⟨n, hn, rfl⟩ := List.mem_map.mp he
    obtain ⟨⟨e', he', hid⟩, hread⟩ := hcovered n hn hnew
    refine ⟨e', he', hid, fun hall => ?_⟩
    obtain ⟨e₁, he₁, hid₁, hread₁⟩ := Frontend.anyRead_iff.mp hall
    obtain ⟨n₁, hn₁, rfl⟩ := List.mem_map.mp he₁
    obtain rfl := Table.eq_of_key_eq (mem_rowsOf.mp hn₁).1 (mem_rowsOf.mp hn).1 (pr.injective _ _ hid₁)
    have hn₁read : n₁.readAt ≠ none := fun h => hread₁ (by rw [Printing.entry, h]; rfl)
    exact Frontend.anyRead_iff.mpr (hread hn₁read)

/-- Rows that were there before have the times that they had. -/
theorem Dated.keeps (h : Dated pr format (s'.rowsOf userId)) (hkeep : s.Keeps s') :
    Dated pr format (s.rowsOf userId) := by
  constructor
  · exact h.literals
  · intro n hn
    obtain ⟨m, hm, hlater⟩ := hkeep.rowsOf hn
    exact hlater.createdAt_eq ▸ h.hasFormat m hm
  · intro n hn n' hn' hlt
    obtain ⟨m, hm, hlater⟩ := hkeep.rowsOf hn
    obtain ⟨m', hm', hlater'⟩ := hkeep.rowsOf hn'
    rw [← hlater.createdAt_eq, ← hlater'.createdAt_eq] at hlt ⊢
    exact h.later m hm m' hm' hlt
  · intro n hn n' hn' heq
    obtain ⟨m, hm, hlater⟩ := hkeep.rowsOf hn
    obtain ⟨m', hm', hlater'⟩ := hkeep.rowsOf hn'
    rw [← hlater.id_eq, ← hlater'.id_eq]
    exact h.distinct m hm m' hm' (hlater.createdAt_eq.trans (heq.trans hlater'.createdAt_eq.symm))

/-- Rows are kept with their times. -/
theorem times_subset_of_keeps (hkeep : s.Keeps s') :
    times format ((s.rowsOf userId).map pr.entry) ⊆ times format ((s'.rowsOf userId).map pr.entry) := by
  intro time htime
  obtain ⟨e, he, rfl⟩ := Frontend.mem_times.mp htime
  obtain ⟨n, hn, rfl⟩ := List.mem_map.mp he
  obtain ⟨m, hm, hlater⟩ := hkeep.rowsOf hn
  exact Frontend.mem_times.mpr ⟨_, List.mem_map_of_mem hm, entry_time_eq hlater.createdAt_eq⟩

/-- A row that was there before and is among the newest was in the answer. -/
theorem Dated.mem_load (h : Dated pr format (s'.rowsOf userId)) (hkeep : s.Keeps s') (hm : m ∈ s.rowsOf userId)
    (hlater : m.Later n)
    (hnew : (pr.entry n).time format ∈ newest 30 (times format ((s'.rowsOf userId).map pr.entry))) :
    pr.entry m ∈ pr.load s userId := by
  refine List.mem_map_of_mem ((h.keeps hkeep).mem_listForUser hm ?_)
  have hthere : (pr.entry m).time format ∈ times format ((s.rowsOf userId).map pr.entry) :=
    Frontend.mem_times.mpr ⟨_, List.mem_map_of_mem hm, rfl⟩
  have htime : (pr.entry n).time format = (pr.entry m).time format := entry_time_eq hlater.createdAt_eq
  exact mem_newest_of_subset (times_subset_of_keeps hkeep) hthere (htime ▸ hnew)

/-- The copies that a client has cover the newest rows. -/
theorem Covered.newest {now : Pool Store Task} (h : Covered s₀ k now) (hidle : ∀ a ∈ now.tasks, a.2.publishes = false)
    (hrows : s₀.Keeps now.store) (hpublished : ∀ m ∈ now.store.published, Published now.store m)
    (hdated : Dated pr format (now.store.rowsOf userId)) {entries : List ApiNotification}
    (hload : ∀ e ∈ pr.load s₀ userId, e ∈ entries)
    (hframes : ∀ m ∈ now.store.published.drop k, m.recipientId = userId → pr.entry m ∈ entries)
    (hn : n ∈ now.store.rowsOf userId)
    (hnew : (pr.entry n).time format ∈ newest 30 (times format ((now.store.rowsOf userId).map pr.entry))) :
    (∃ e ∈ entries, e.id = pr.id n.id) ∧ (n.readAt ≠ none → ∃ e ∈ entries, e.id = pr.id n.id ∧ e.readAt ≠ none) := by
  obtain ⟨hrow, hrecipient⟩ := mem_rowsOf.mp hn
  -- a copy is in the first answer, if it was there by then, or among the frames since
  have hin : ∀ m, Copy s₀ k now.store m → m.id = n.id → pr.entry m ∈ entries := by
    intro m hcopy hid
    rcases hcopy with hm | hm
    · obtain ⟨n', hn', hlater⟩ := hrows m hm
      obtain rfl : n' = n := Table.eq_of_key_eq hn' hrow (hlater.id_eq.trans hid)
      have hmrow : m ∈ s₀.rowsOf userId :=
        mem_rowsOf.mpr ⟨hm, hlater.recipientId_eq.symm.trans hrecipient⟩
      exact hload _ (hdated.mem_load hrows hmrow hlater hnew)
    · obtain ⟨hcopy, -⟩ := (hpublished m (List.mem_of_mem_drop hm)).of_copy hrow hid
      have hsame : n.recipientId = m.recipientId := by rw [hcopy]
      exact hframes m hm (hsame.symm.trans hrecipient)
  refine ⟨?_, fun hread => ?_⟩
  · rcases h.there n hrow with ⟨m, hcopy, hid⟩ | ⟨a, ha, j, m, hpending, -⟩
    · exact ⟨_, hin m hcopy hid, congrArg pr.id hid⟩
    -- no task has anything left to publish
    · have hquiet := hidle a ha
      rw [hpending] at hquiet
      cases hquiet
  · rcases h.read n hrow hread with ⟨m, hcopy, hid, hmread⟩ | ⟨a, ha, hpending⟩
    · exact ⟨_, hin m hcopy hid, congrArg pr.id hid, fun hnone => hmread (Option.map_eq_none_iff.mp hnone)⟩
    · have hquiet := hidle a ha
      rw [hpending] at hquiet
      cases hquiet

/-- **The list of the browser is up to date.** The stream was opened, the list was asked for and its answer has come,
and everything that was published after the opening has come, in whatever order and beside whatever else has come from
the two. When nothing is about to be published, the list is what loading the page would show. -/
theorem list_up_to_date {localeCompare : String → String → Int} (hlocale : ComparesIso localeCompare)
    (opening asking since : List (Act Request Input))
    (hkeep : Meets (Pool.step (pipeline sp)) KeepsPublishing (pipelineAfter sp (opening ++ asking)) since)
    (hidle : ∀ a ∈ (pipelineAfter sp (opening ++ asking ++ since)).tasks, a.2.publishes = false)
    (hdated : Dated pr format ((pipelineAfter sp (opening ++ asking ++ since)).store.rowsOf userId))
    {batches : List (List ApiNotification)}
    (hdelivered : ∀ batch ∈ batches, ∃ acts, acts <+: opening ++ asking ++ since
      ∧ pr.Delivers (pipelineAfter sp acts).store userId batch)
    (hload : pr.load (pipelineAfter sp (opening ++ asking)).store userId ∈ batches)
    (hframes : ∀ m ∈ (pipelineAfter sp (opening ++ asking ++ since)).store.published.drop
      (pipelineAfter sp opening).store.published.length, m.recipientId = userId → [pr.entry m] ∈ batches) :
    mergeAll localeCompare batches
      = mergeAll localeCompare [pr.load (pipelineAfter sp (opening ++ asking ++ since)).store userId] := by
  have hrun : pipelineAfter sp (opening ++ asking ++ since)
      = run (Pool.step (pipeline sp)) (pipelineAfter sp (opening ++ asking)) since := by
    rw [pipelineAfter, run_append]
    rfl
  have hcovered := covered_after (pipelineAfter sp (opening ++ asking)) hkeep
  have hrows := keeps_run sp (pipelineAfter sp (opening ++ asking)) since
  have hopened : (pipelineAfter sp opening).store.published
      <+: (pipelineAfter sp (opening ++ asking)).store.published := by
    have h := published_run sp (pipelineAfter sp opening) asking
    rwa [pipelineAfter, pipelineAfter, run_append]
  have hstreamed := (streamed_after sp (opening ++ asking ++ since)).published
  have hcopies : ∀ batches' : List (List ApiNotification), (∀ batch ∈ batches', ∃ acts,
      acts <+: opening ++ asking ++ since ∧ pr.Delivers (pipelineAfter sp acts).store userId batch) →
      ∀ e ∈ batches'.flatten, ∃ m, Published (pipelineAfter sp (opening ++ asking ++ since)).store m
        ∧ m.recipientId = userId ∧ e = pr.entry m := by
    intro batches' hall e he
    obtain ⟨batch, hbatch, he⟩ := List.mem_flatten.mp he
    obtain ⟨acts, hextends, hdelivers⟩ := hall batch hbatch
    exact published_of_delivers hextends hdelivers e he
  rw [← hrun] at hcovered hrows
  have hframe : ∀ m ∈ (pipelineAfter sp (opening ++ asking ++ since)).store.published.drop
      (pipelineAfter sp (opening ++ asking)).store.published.length, m.recipientId = userId →
      pr.entry m ∈ batches.flatten := by
    intro m hm hrecipient
    have hin := hframes m (List.drop_subset_drop_left _ hopened.length_le hm) hrecipient
    exact List.mem_flatten.mpr ⟨_, hin, List.mem_singleton_self _⟩
  have hshown := shows_rows hlocale hdated (hcopies batches hdelivered) fun n hn hnew =>
    hcovered.newest hidle hrows hstreamed hdated (fun e he => List.mem_flatten.mpr ⟨_, hload, he⟩) hframe hn hnew
  -- the answer to a new request shows the rows as well
  have hfresh := shows_rows hlocale hdated
    (hcopies [pr.load (pipelineAfter sp (opening ++ asking ++ since)).store userId] fun batch hbatch =>
      ⟨_, List.prefix_refl _, List.mem_singleton.mp hbatch ▸ .load⟩) fun n hn hnew => by
    have hin : pr.entry n ∈ [pr.load (pipelineAfter sp (opening ++ asking ++ since)).store userId].flatten :=
      List.mem_flatten.mpr ⟨_, List.mem_singleton_self _, List.mem_map_of_mem (hdated.mem_listForUser hn hnew)⟩
    exact ⟨⟨_, hin, rfl⟩, fun hread => ⟨_, hin, rfl, fun hnone => hread (Option.map_eq_none_iff.mp hnone)⟩⟩
  exact hshown.unique hfresh fun e => Iff.rfl

/-! ### A run

A student is told of two questions, and reads the first. -/

namespace Sample

/-- `Date.prototype.toISOString` in the years of four digits. The years begin in March here, so that a leap day is the last
day of its year. -/
def toISOString (t : Time) : String :=
  let days := t / 86400000 + 719468
  let dayOfEra := days % 146097
  let yearOfEra := (dayOfEra - dayOfEra / 1460 + dayOfEra / 36524 - dayOfEra / 146096) / 365
  let dayOfYear := dayOfEra - (365 * yearOfEra + yearOfEra / 4 - yearOfEra / 100)
  let march := (5 * dayOfYear + 2) / 153
  let month := if march < 10 then march + 3 else march - 9
  let year := days / 146097 * 400 + yearOfEra + if month ≤ 2 then 1 else 0
  let day := dayOfYear - (153 * march + 2) / 5 + 1
  let digits (width n : Nat) : List Char := (Nat.toDigits 10 n).leftpad width '0'
  String.ofList (digits 4 year ++ '-' :: digits 2 month ++ '-' :: digits 2 day
    ++ 'T' :: digits 2 (t / 3600000 % 24) ++ ':' :: digits 2 (t / 60000 % 60) ++ ':' :: digits 2 (t / 1000 % 60)
    ++ '.' :: digits 3 (t % 1000) ++ ['Z'])

example : toISOString 1784535300000 = "2026-07-20T08:15:00.000Z" := by decide +kernel

def printing : Printing where
  toISOString := toISOString
  id := fun i => spelling.text (Id.text i)
  injective := spelling.injective

/-- The asking student. -/
def asker : String := "30000000-0000-4000-8000-000000000001"

/-- On the morning of a day the student is told of the question. -/
def opening : List (Act Request Input) :=
  .start (.call AcaSocial.Sample.openForum) :: .run 0 { elapsed := 1784535300000 }
    :: .start (.call AcaSocial.Sample.ask) :: .run 0 {} :: round ++ .start (.message 1) :: List.replicate 5 (.run 0 {})

/-- A minute later the student reads this, asks another question, and is told of it. -/
def since : List (Act Request Input) :=
  .start (.markRead asker 0) :: .run 0 { elapsed := 60000 } :: List.replicate 2 (.run 0 {})
    ++ .start (.call AcaSocial.Sample.ask) :: .run 0 {} :: round ++ .start (.message 2) :: List.replicate 5 (.run 0 {})

/-- The list is asked for when the stream has been opened. What is published afterwards comes before the answer, and the
last of it first. -/
def received : List (List ApiNotification) :=
  (((pipelineAfter spelling (opening ++ since)).store.published.drop
    (pipelineAfter spelling opening).store.published.length).map fun m => [printing.entry m]).reverse
    ++ [printing.load (pipelineAfter spelling opening).store asker]

/-- No statement of the run fails. -/
def succeeds : Act Request Input → Bool
  | .start _ => true
  | .run _ x => !x.fails

end Sample

/-- The answer that comes last has the first notification unread. -/
theorem list_up_to_date_told :
    mergeAll Frontend.byCodeUnits Sample.received = mergeAll Frontend.byCodeUnits
      [Sample.printing.load (pipelineAfter Sample.spelling (Sample.opening ++ Sample.since)).store Sample.asker]
    ∧ Sample.received.flatten.map (fun e => (e.createdAt, e.readAt)) = [("2026-07-20T08:16:00.000Z", none),
      ("2026-07-20T08:15:00.000Z", some "2026-07-20T08:16:00.000Z"), ("2026-07-20T08:15:00.000Z", none)] := by
  have hkeep : Meets (Pool.step (pipeline Sample.spelling)) KeepsPublishing
      (pipelineAfter Sample.spelling (Sample.opening ++ [])) Sample.since := by
    have hall : Sample.since.all Sample.succeeds = true := by decide +kernel
    refine Meets.of_mem (fun p act hact => ?_) _
    have hsucceeds := List.all_eq_true.mp hall act hact
    cases act with
    | start r => trivial
    | run i x =>
      intro hfails
      rw [Sample.succeeds, hfails] at hsucceeds
      cases hsucceeds
  have hidle : ∀ a ∈ (pipelineAfter Sample.spelling (Sample.opening ++ [] ++ Sample.since)).tasks,
      a.2.publishes = false := by decide +kernel
  have hdated : Dated Sample.printing Frontend.isoString
      ((pipelineAfter Sample.spelling (Sample.opening ++ [] ++ Sample.since)).store.rowsOf Sample.asker) := by
    have hliterals : ((Frontend.isoString.filterMap id).all fun c => decide (c ∈ Frontend.isoLiterals)) = true := by
      decide +kernel
    refine ⟨fun c hc => ?_, by decide +kernel, by decide +kernel, by decide +kernel⟩
    exact of_decide_eq_true (List.all_eq_true.mp hliterals c (List.mem_filterMap.mpr ⟨some c, hc, rfl⟩))
  refine ⟨?_, by decide +kernel⟩
  refine list_up_to_date Frontend.byCodeUnits_comparesIso Sample.opening [] Sample.since hkeep hidle hdated
    (fun batch hbatch => ?_) (List.mem_append_right _ (List.mem_singleton_self _)) fun m hm hrecipient => ?_
  · rcases List.mem_append.mp hbatch with hbatch | hbatch
    · obtain ⟨m, hm, rfl⟩ := List.mem_map.mp (List.mem_reverse.mp hbatch)
      -- all that has been published is the student's
      have hall : ((pipelineAfter Sample.spelling (Sample.opening ++ Sample.since)).store.published.all fun m =>
          decide (m.recipientId = Sample.asker)) = true := by decide +kernel
      have hrecipient := List.all_eq_true.mp hall m (List.mem_of_mem_drop hm)
      exact ⟨_, List.prefix_refl _, .frame (List.mem_filter.mpr ⟨List.mem_of_mem_drop hm, hrecipient⟩)⟩
    · rw [List.mem_singleton.mp hbatch]
      exact ⟨Sample.opening, List.prefix_append _ _, .load⟩
  · exact List.mem_append_left _ (List.mem_reverse.mpr (List.mem_map.mpr ⟨m, hm, rfl⟩))

end AcaSocial.Notifications
