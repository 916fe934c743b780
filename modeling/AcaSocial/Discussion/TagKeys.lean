import AcaSocial.Base.Stutters
import AcaSocial.Discussion.TagTransactions

/-!
# Key locks of tags

A row is locked in a mode. The check of a foreign key locks the row that it finds `FOR KEY SHARE`, in which others may
update the row but not select it `FOR UPDATE`. So a transaction that links tags holds their rows before it counts them,
and one that selects them `FOR UPDATE` waits for it.

* **`RowMode`**, **`TagTx.mode`** — the modes, and the one in which a statement locks its row.
* **`TagWrite.keyChecks`** — the foreign keys to check for a written row, at the end of its statement.
* **`keyTransactions`** — `tagTransactions` with these locks. A transaction that has to wait for a row of `tags` notes
  the row in `waits`.
* **`keyTransactions_stutters`** — the locks only let transactions wait more and fail more: every run is one of
  `tagTransactions`.
-/

namespace AcaSocial

/-! ## Modes

Of two transactions, one may hold a row `FOR KEY SHARE` while the other one holds it `FOR NO KEY UPDATE`, and both may
hold it `FOR KEY SHARE`. All other pairs of modes conflict. -/

/-- A mode in which a row of `tags` is locked. -/
inductive RowMode where
  /-- `FOR KEY SHARE`, by the check of a foreign key. -/
  | keyShare
  /-- `FOR NO KEY UPDATE`, by an `UPDATE` that leaves `name` and `slug` as they are. -/
  | noKeyUpdate
  /-- `FOR UPDATE`, also by a `DELETE` and by an `UPDATE` of `name` or `slug`, which are unique. -/
  | update
  deriving DecidableEq

namespace TagTx

/-- The tag whose row the next statement locks. -/
def wants : TagTx → Option Id
  | .lockTag k _ | .count _ k _ | .deleteRow k _ => some k
  | .updateRow _ mem _ => some mem.id
  | _ => none

/-- The mode in which the next statement locks the row. -/
def mode (row : Tag) : TagTx → RowMode
  | .count _ _ _ => .noKeyUpdate
  | .updateRow read mem _ =>
    let saved := Tag.overwrite read mem row
    if saved.name = row.name ∧ saved.slug = row.slug then .noKeyUpdate else .update
  | _ => .update

/-- The statement writes one of the rows of an `INSERT` of links. The keys are checked after the last one. -/
def inserting : TagTx → Bool
  | .insertLink _ _ _ | .addLink _ _ _ => true
  | _ => false

end TagTx

/-- A check of a foreign key. -/
inductive KeyCheck where
  /-- The tag that a row refers to is there. -/
  | references (tagId : Id)
  /-- No tag is merged into one that has been deleted. -/
  | unreferenced (tagId : Id)
  deriving DecidableEq

/-- The checks that a written row makes necessary. -/
def TagWrite.keyChecks : TagWrite → List KeyCheck
  | .link _ k => [.references k]
  | .save read mem =>
    if mem.mergedIntoTagId = read.mergedIntoTagId then [] else mem.mergedIntoTagId.toList.map .references
  | .insert tag => tag.mergedIntoTagId.toList.map .references
  | .delete k => [.unreferenced k]
  | .unlink _ _ | .count _ _ => []

/-- The first tag that is merged into the given one. -/
def TagTables.mergedInto (T : TagTables) (k : Id) : Option Tag :=
  (T.tags.select fun tag => decide (tag.mergedIntoTagId = some k)).head?

/-! ## Transactions with key locks

Beside its row locks a transaction holds the key locks of the tags that its rows refer to. Key locks pass each other,
and pass an update that leaves name and slug alone; they wait for `FOR UPDATE`, which waits for them. -/

/-- A store with the tags that are locked `FOR UPDATE` and, once for each transaction, `FOR KEY SHARE`. -/
structure KeyStore extends TagStore where
  updates : List Id
  shares : List Id

/-- A transaction with the checks that it has still to make, the tags that it has locked `FOR UPDATE` and
`FOR KEY SHARE`, and the row that it waits for. -/
structure KeyTask extends TagTask where
  checks : List KeyCheck := []
  updates : List Id := []
  shares : List Id := []
  waits : Option (Id × RowMode) := none

abbrev KeyEffect := Effect KeyStore KeyTask Bool

namespace KeyTask

variable (s : KeyStore) (t : KeyTask)

/-- What the statements and the checks of a transaction see. -/
def sees : TagTables := t.view s.toTagStore

/-- The check that comes next, when the last statement is over. -/
def due : Option KeyCheck := if t.body.inserting then none else t.checks.head?

/-- The row of `tags` that the transaction locks next, and the mode. -/
def asks : Option (Id × RowMode) :=
  match t.due with
  | some (.references k) => ((t.sees s).tags.get? k).map fun _ => (k, .keyShare)
  | some (.unreferenced k) => ((t.sees s).mergedInto k).map fun tag => (tag.id, .keyShare)
  | none => t.body.wants.bind fun k => ((t.sees s).tags.get? k).map fun row => (k, t.body.mode row)

/-- Another transaction holds the row in a mode that conflicts with the given one. -/
def barred (w : Id × RowMode) : Bool :=
  match w.2 with
  | .keyShare => decide (w.1 ∉ t.updates ∧ w.1 ∈ s.updates)
  | .noKeyUpdate => t.blocked s.toTagStore (.tag w.1)
  | .update => t.blocked s.toTagStore (.tag w.1) || decide (t.shares.count w.1 < s.shares.count w.1)

/-- The wait that the transaction begins with its next statement or check. -/
def begins : Option (Id × RowMode) := (t.asks s).filter (t.barred s)

/-- What the next statement locks `FOR UPDATE` that its transaction has not locked so before. -/
def takes : List Id :=
  ((t.asks s).filter fun w => decide (w.2 = .update ∧ w.1 ∉ t.updates)).toList.map Prod.fst

/-- What a statement leaves, with the key locks. At its end the transaction gives them back. -/
def withKeys (e : TagEffect) : KeyEffect where
  store :=
    if e.next.isEmpty then
      { toTagStore := e.store
        updates := s.updates.filter fun k => decide (k ∉ t.updates)
        shares := s.shares.diff t.shares }
    else { toTagStore := e.store, updates := t.takes s ++ s.updates, shares := s.shares }
  next := e.next.map fun t' =>
    { toTagTask := t'
      checks := t.checks ++ (t'.writes.drop t.writes.length).flatMap TagWrite.keyChecks
      updates := t.takes s ++ t.updates
      shares := t.shares }
  reply := e.reply

/-- A check that the database has made. The row that a key refers to stays locked. -/
def checked (shared : List Id) : KeyEffect :=
  ⟨{ s with shares := shared.diff t.shares ++ s.shares },
    [{ t with checks := t.checks.tail, shares := shared.diff t.shares ++ t.shares, waits := none }], none⟩

/-- The transaction ends without a trace, as after a failed check. -/
def abort : KeyEffect := t.withKeys s (t.toTagTask.rollback s.toTagStore)

/-- The next statement of a transaction, or the next check of the last one. -/
def statement : KeyEffect :=
  match t.begins s with
  | some w => ⟨s, [{ t with waits := some w }], none⟩
  | none =>
    match t.due with
    | some (.references k) => if ((t.sees s).tags.get? k).isSome then t.checked s [k] else t.abort s
    | some (.unreferenced k) => if ((t.sees s).mergedInto k).isSome then t.abort s else t.checked s []
    | none => t.withKeys s (t.toTagTask.statement s.toTagStore)

end KeyTask

/-- The requests as transactions with key locks. -/
def keyTransactions : Program KeyStore TagRequest KeyTask Bool Bool where
  enter r := { toTagTask := tagTransactions.enter r }
  exec fails s t := if fails then t.abort s else t.statement s

/-! ## The transactions without key locks

Taken away, the key locks leave the transactions of the model without them, some of whose steps are now steps of
waiting. -/

section

variable {s : KeyStore} {t : KeyTask}

/-- **The cases of a statement.** The transaction begins to wait, a key is checked, or the transaction goes on or fails
as it may without key locks. -/
inductive KeyStep (fails : Bool) (s : KeyStore) (t : KeyTask) : KeyEffect → Prop where
  | waited (w : Id × RowMode) (hfails : fails = false) (hbegins : t.begins s = some w) :
      KeyStep fails s t ⟨s, [{ t with waits := some w }], none⟩
  | checked (shared : List Id) : KeyStep fails s t (t.checked s shared)
  | moved (x : Bool) : KeyStep fails s t (t.withKeys s (tagTransactions.exec x s.toTagStore t.toTagTask))

/-- A step of a transaction with key locks is a step without them, or waits. -/
theorem keyStep_exec (fails : Bool) (s : KeyStore) (t : KeyTask) : KeyStep fails s t (keyTransactions.exec fails s t) := by
  have habort : KeyStep fails s t (t.abort s) := .moved true
  cases fails with
  | true => exact habort
  | false =>
    show KeyStep false s t (t.statement s)
    unfold KeyTask.statement
    split
    · next w hbegins => exact .waited w rfl hbegins
    · split
      · split
        · exact .checked _
        · exact habort
      · split
        · exact habort
        · exact .checked _
      · exact .moved false

/-- **Refinement.** Key locks only let transactions wait more and fail more. -/
theorem keyTransactions_stutters :
    Stutters keyTransactions tagTransactions KeyStore.toTagStore KeyTask.toTagTask where
  enter _ := rfl
  exec fails s t := by
    have hstep := keyStep_exec fails s t
    generalize keyTransactions.exec fails s t = e at hstep
    cases hstep with
    | waited w => exact .inr ⟨rfl, rfl⟩
    | checked shared => exact .inr ⟨rfl, rfl⟩
    | moved x =>
      refine .inl ⟨x, ?_, ?_⟩
      · unfold KeyTask.withKeys
        dsimp only
        split <;> rfl
      · unfold KeyTask.withKeys
        rw [List.map_map]
        exact List.map_id _

/-- Every run with key locks is one without, up to the order of the transactions. -/
theorem keyTransactions_refines (s : KeyStore) (acts : List (Act TagRequest Bool)) :
    ∃ acts', ((run (Pool.step keyTransactions) (.idle s) acts).image KeyStore.toTagStore KeyTask.toTagTask).Reordered
      (run (Pool.step tagTransactions) (.idle s.toTagStore) acts') :=
  keyTransactions_stutters.run (.idle s) acts

end

end AcaSocial
