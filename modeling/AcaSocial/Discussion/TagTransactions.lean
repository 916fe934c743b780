import Mathlib.Data.List.Dedup
import AcaSocial.Base.Interference
import AcaSocial.Base.LockOrder
import AcaSocial.Discussion.ModerationService

/-!
# The transactions on tags, statement by statement

The discussion service writes `tags` and `discussion_tags` in transactions under READ COMMITTED. A statement sees what
has been committed before it and what its own transaction has written. A row that a transaction writes or selects
`FOR UPDATE` stays locked to its end, and a statement that wants a locked row waits.

* **`TagTx`** — a transaction as a tree of statements, each with what follows it for every result.
* **`createStatements`**, … — the transactions of the services, in their order of statements.
* **`tagTransactions`** — what one statement does to the committed tables, the locks and its transaction.
* **Left out.** The columns of discussions: whether the checks of a post let a request through is up to an input,
  which may end a transaction at any statement, as a failing statement does or the victim of a deadlock. The modes of
  locks and the checks of foreign keys, which only let a transaction wait or fail; `TagKeys` adds them. `updated_at`,
  which every `save` of a status changes, so that it always has something to write.
-/

namespace AcaSocial

/-! ## Texts of ids

The order of the locks is the order of texts, as `ORDER BY` and `sort` compare them, and not the one of the ids. -/

/-- The code of a hex digit: digits come before capital letters and these before small ones. -/
def hexCode (digit : Nat) (upper : Bool) : Nat :=
  if digit < 10 then 48 + digit else if upper then 55 + digit else 87 + digit

namespace UuidText

/-- The code of the last digit. -/
def lastCode (t : UuidText) : Nat := hexCode (t.id % 16) (t.upper % 2 = 1)

/-- The digits before the last one. -/
def beforeLast (t : UuidText) : UuidText := ⟨t.id / 16, t.upper / 2⟩

/-- The order of the last `n` digits of two texts, digit by digit. The hyphens of two uuids are at the same places. -/
def compareDigits : Nat → UuidText → UuidText → Ordering
  | 0, a, b => compare a.id b.id
  | n + 1, a, b => (compareDigits n a.beforeLast b.beforeLast).then (compare a.lastCode b.lastCode)

/-- The order of JavaScript on the texts of uuids, of 32 digits. -/
def le (a b : UuidText) : Prop := compareDigits 32 a b ≠ .gt

instance : DecidableRel le := fun a b => inferInstanceAs (Decidable (compareDigits 32 a b ≠ .gt))

end UuidText

/-- `[...ids].sort()`. -/
def sortTexts (ids : List UuidText) : List UuidText := ids.insertionSort UuidText.le

/-! ## Tables

The tables that the transactions read and write, and the rows in them. -/

/-- The tables `tags` and `discussion_tags`. -/
structure TagTables where
  tags : Table Id Tag Tag.id
  links : Table (Id × Id) DiscussionTag fun l => (l.discussionId, l.tagId)

def Db.tagTables (s : Db) : TagTables := ⟨s.tags.toTable, s.discussionTags⟩

/-- `save` writes the columns in which the entity differs from the row that it has read again. -/
def Tag.overwrite (read mem row : Tag) : Tag :=
  { row with
    name := if mem.name = read.name then row.name else mem.name
    slug := if mem.slug = read.slug then row.slug else mem.slug
    description := if mem.description = read.description then row.description else mem.description
    usageCount := if mem.usageCount = read.usageCount then row.usageCount else mem.usageCount
    status := if mem.status = read.status then row.status else mem.status
    mergedIntoTagId :=
      if mem.mergedIntoTagId = read.mergedIntoTagId then row.mergedIntoTagId else mem.mergedIntoTagId }

/-- A row after `usage_count = GREATEST(usage_count + $1, 0)` for the tag `k`. -/
def Tag.counted (delta : Int) (k : Id) (row : Tag) : Tag :=
  if row.id = k then { row with usageCount := max (row.usageCount + delta) 0 } else row

/-- A row after the `UPDATE` of a `save`. -/
def Tag.saved (read mem row : Tag) : Tag := if row.id = mem.id then Tag.overwrite read mem row else row

@[simp] theorem Tag.counted_id (delta : Int) (k : Id) (row : Tag) : (Tag.counted delta k row).id = row.id := by
  unfold counted
  split <;> rfl

@[simp] theorem Tag.saved_id (read mem row : Tag) : (Tag.saved read mem row).id = row.id := by
  unfold saved
  split <;> rfl

/-- A row that a statement has written. -/
inductive TagWrite where
  | link (discussionId tagId : Id)
  | unlink (discussionId tagId : Id)
  | count (delta : Int) (tagId : Id)
  | save (read mem : Tag)
  | insert (tag : Tag)
  | delete (tagId : Id)

namespace TagTables

variable (T : TagTables)

/-- The tags with the given ids. -/
def findTags (ids : List UuidText) : List Tag := T.tags.select fun t => decide (t.id ∈ ids.map (·.id))

/-- The tags with the given ids, all of them there and active. -/
def activeTags (ids : List UuidText) : Option (List Tag) :=
  let tags := T.findTags ids
  if tags.length = ids.length ∧ ∀ t ∈ tags, t.status = .active then some tags else none

/-- The source and the target of a merge that may go on. -/
def mergeable (sourceId targetId : UuidText) : Option (Tag × Tag) :=
  let tags := T.findTags [sourceId, targetId]
  let find := fun id : UuidText => tags.find? fun t => decide (Id.text t.id = id)
  match find sourceId, find targetId with
  | some source, some target =>
    if sourceId ≠ targetId ∧ source.status ≠ .merged ∧ target.status = .active then some (source, target)
    else none
  | _, _ => none

/-- The tags of a discussion. -/
def tagIdsOf (discussionId : Id) : List Id :=
  (T.links.select fun l => decide (l.discussionId = discussionId)).map (·.tagId)

/-- The discussions that are linked to a tag. -/
def linkedTo (tagId : Id) : List Id := (T.links.select fun l => decide (l.tagId = tagId)).map (·.discussionId)

def linked (discussionId tagId : Id) : Bool := (T.links.get? (discussionId, tagId)).isSome

/-- What a written row makes of the tables. -/
def write : TagWrite → TagTables
  | .link d k => { T with links := T.links.insert ⟨d, k⟩ }
  | .unlink d k => { T with links := T.links.erase fun l => decide (l.discussionId = d ∧ l.tagId = k) }
  | .count delta k => { T with tags := T.tags.modify (Tag.counted delta k) (Tag.counted_id delta k) }
  | .save read mem => { T with tags := T.tags.modify (Tag.saved read mem) (Tag.saved_id read mem) }
  | .insert tag => { T with tags := T.tags.insert tag }
  | .delete k => { T with tags := T.tags.erase fun t => decide (t.id = k) }

end TagTables

namespace TagTables

variable {T : TagTables}

/-- The query finds the tags with these ids, whichever way the ids are spelled. -/
theorem mem_findTags {ids : List UuidText} {tag : Tag} :
    tag ∈ T.findTags ids ↔ tag ∈ T.tags ∧ tag.id ∈ ids.map (·.id) := by
  unfold findTags
  rw [Table.mem_select, decide_eq_true_eq]

/-- The check is passed by tags that are all there and active, each named once. -/
theorem activeTags_eq_some {ids : List UuidText} {tags : List Tag} (h : T.activeTags ids = some tags) :
    tags = T.findTags ids ∧ tags.length = ids.length ∧ ∀ t ∈ tags, t.status = .active := by
  unfold activeTags at h
  dsimp only at h
  split at h
  · next hall =>
    obtain rfl := Option.some.inj h
    exact ⟨rfl, hall⟩
  · cases h

/-- What the method has checked before it merges. -/
theorem mergeable_eq_some {a b : UuidText} {source target : Tag} (h : T.mergeable a b = some (source, target)) :
    a ≠ b ∧ (source ∈ T.tags ∧ Id.text source.id = a) ∧ (target ∈ T.tags ∧ Id.text target.id = b)
      ∧ source.status ≠ .merged ∧ target.status = .active := by
  have hfind : ∀ {u : UuidText} {t : Tag}, ((T.findTags [a, b]).find? fun t => decide (Id.text t.id = u)) = some t →
      t ∈ T.tags ∧ Id.text t.id = u := by
    intro u t hfound
    have htext := List.find?_some hfound
    exact ⟨(mem_findTags.mp (List.mem_of_find?_eq_some hfound)).1, of_decide_eq_true htext⟩
  unfold mergeable at h
  dsimp only at h
  split at h
  · next hsource htarget =>
    split at h
    · next hall =>
      obtain ⟨rfl, rfl⟩ := Prod.mk.inj (Option.some.inj h)
      exact ⟨hall.1, hfind hsource, hfind htarget, hall.2⟩
    · cases h
  · cases h

/-- An update of a counter writes one row. -/
theorem get?_write_count (delta : Int) (j k : Id) :
    (T.write (.count delta j)).tags.get? k = (T.tags.get? k).map (Tag.counted delta j) :=
  Table.get?_modify T.tags _ (Tag.counted_id delta j) k

/-- A save writes one row, in the columns that differ. -/
theorem get?_write_save (read mem : Tag) (k : Id) :
    (T.write (.save read mem)).tags.get? k = (T.tags.get? k).map (Tag.saved read mem) :=
  Table.get?_modify T.tags _ (Tag.saved_id read mem) k

/-- A deletion takes one row away. -/
theorem get?_write_delete (j k : Id) : (T.write (.delete j)).tags.get? k = if j = k then none else T.tags.get? k := by
  show (T.tags.erase _).get? k = _
  rw [Table.get?_erase]
  cases hget : T.tags.get? k with
  | none => simp
  | some t =>
    obtain rfl := (Table.get?_eq_some.mp hget).2
    by_cases hj : t.id = j
    · simp [hj]
    · simp [hj, Ne.symm hj]

/-! ### Links

The links between posts and tags, as a relation. -/

theorem linked_iff {d k : Id} : T.linked d k = true ↔ ⟨d, k⟩ ∈ T.links := by
  unfold linked
  rw [Table.mem_iff_get?, Option.isSome_iff_exists]
  constructor
  · rintro ⟨l, hl⟩
    obtain ⟨hd, hk⟩ := Prod.mk.inj (Table.get?_eq_some.mp hl).2
    exact hl.trans (congrArg some (by rw [← hd, ← hk]))
  · exact fun hl => ⟨_, hl⟩

/-- The posts with a tag are those that are linked to it. -/
theorem mem_linkedTo {d k : Id} : d ∈ T.linkedTo k ↔ T.linked d k = true := by
  rw [linked_iff]
  simp only [linkedTo, List.mem_map, Table.mem_select, decide_eq_true_eq]
  constructor
  · rintro ⟨l, ⟨hl, rfl⟩, rfl⟩
    exact hl
  · exact fun hl => ⟨_, ⟨hl, rfl⟩, rfl⟩

/-- The tags of a post are those that it is linked to. -/
theorem mem_tagIdsOf {d k : Id} : k ∈ T.tagIdsOf d ↔ T.linked d k = true := by
  rw [linked_iff]
  simp only [tagIdsOf, List.mem_map, Table.mem_select, decide_eq_true_eq]
  constructor
  · rintro ⟨l, ⟨hl, rfl⟩, rfl⟩
    exact hl
  · exact fun hl => ⟨_, ⟨hl, rfl⟩, rfl⟩

/-- A link that is added is one more. -/
theorem linked_write_link (d k d' k' : Id) :
    (T.write (.link d k)).linked d' k' = true ↔ (d = d' ∧ k = k') ∨ T.linked d' k' = true := by
  show ((T.links.insert ⟨d, k⟩).get? (d', k')).isSome = true ↔ _
  rw [Table.get?_insert]
  by_cases he : d = d' ∧ k = k'
  · rw [if_pos (by rw [he.1, he.2])]
    exact iff_of_true rfl (.inl he)
  · rw [if_neg fun hk => he (Prod.mk.inj hk), or_iff_right he]
    rfl

/-- A link that is taken away is one less. -/
theorem linked_write_unlink (d k d' k' : Id) :
    (T.write (.unlink d k)).linked d' k' = true ↔ T.linked d' k' = true ∧ ¬ (d = d' ∧ k = k') := by
  rw [linked_iff, linked_iff]
  show (⟨d', k'⟩ : DiscussionTag) ∈ T.links.erase _ ↔ _
  rw [Table.mem_erase, decide_eq_false_iff_not]
  exact and_congr_right fun _ => not_congr ⟨fun h => ⟨h.1.symm, h.2.symm⟩, fun h => ⟨h.1.symm, h.2.symm⟩⟩

/-- A written row changes a link only when it is that link. -/
theorem linked_write {w : TagWrite} {d k : Id} (hlink : w ≠ .link d k) (hunlink : w ≠ .unlink d k) :
    (T.write w).linked d k = T.linked d k := by
  cases w with
  | link d' k' =>
    refine Bool.eq_iff_iff.mpr ((linked_write_link d' k' d k).trans (or_iff_right fun he => hlink ?_))
    rw [he.1, he.2]
  | unlink d' k' =>
    refine Bool.eq_iff_iff.mpr ((linked_write_unlink d' k' d k).trans (and_iff_left fun he => hunlink ?_))
    rw [he.1, he.2]
  | count | save | insert | delete => rfl

/-- Where the links after a transaction come from. -/
theorem linked_writes {ws : List TagWrite} {d k : Id} (h : (ws.foldl write T).linked d k = true) :
    .link d k ∈ ws ∨ (T.linked d k = true ∧ .unlink d k ∉ ws) := by
  induction ws generalizing T with
  | nil => exact .inr ⟨h, List.not_mem_nil⟩
  | cons w ws ih =>
    rcases ih h with hmem | ⟨hold, hnot⟩
    · exact .inl (List.mem_cons_of_mem w hmem)
    · by_cases hlink : w = .link d k
      · exact .inl (hlink ▸ List.mem_cons_self)
      · by_cases hunlink : w = .unlink d k
        · subst hunlink
          exact absurd ⟨rfl, rfl⟩ ((linked_write_unlink d k d k).mp hold).2
        · rw [linked_write hlink hunlink] at hold
          refine .inr ⟨hold, fun hmem => ?_⟩
          rcases List.mem_cons.mp hmem with hmem | hmem
          · exact hunlink hmem.symm
          · exact hnot hmem

/-- A link that a transaction does not delete stays. -/
theorem linked_writes_of {ws : List TagWrite} {d k : Id} (h : T.linked d k = true) (hnot : .unlink d k ∉ ws) :
    (ws.foldl write T).linked d k = true := by
  induction ws generalizing T with
  | nil => exact h
  | cons w ws ih =>
    refine ih ?_ fun hmem => hnot (List.mem_cons_of_mem w hmem)
    by_cases hlink : w = .link d k
    · subst hlink
      exact (linked_write_link d k d k).mpr (.inl ⟨rfl, rfl⟩)
    · rw [linked_write hlink fun hunlink => hnot (hunlink ▸ List.mem_cons_self)]
      exact h

end TagTables

/-! ## Transactions

A transaction is the rest of its statements. What a statement reads is given to what follows it. -/

/-- A transaction, from its next statement on. -/
inductive TagTx where
  /-- `lockPost`: the row of the discussion `FOR UPDATE`. -/
  | lockPost (id : Id) (next : TagTx)
  /-- `INSERT` of a discussion, under an id that the database makes. -/
  | insertPost (next : Id → TagTx)
  /-- `tags` without its result. -/
  | checkTags (ids : List UuidText) (next : TagTx)
  | tags (ids : List UuidText) (next : List Tag → TagTx)
  /-- `findBy` of `merge` with the checks after it. -/
  | mergeable (sourceId targetId : UuidText) (next : Tag → Tag → TagTx)
  /-- The relation `tags` of a discussion. -/
  | tagsOf (id : Id) (next : List Id → TagTx)
  /-- The rows that `INSERT … SELECT` selects. -/
  | selectLinks (tagId : Id) (next : List Id → TagTx)
  /-- The rows that `DELETE … WHERE tag_id=$1` finds. -/
  | deleteLinks (tagId : Id) (next : List Id → TagTx)
  | countLinks (tagId : Id) (next : Nat → TagTx)
  /-- `findOne` of a tag, with its `NotFoundException`. -/
  | findTag (tagId : Id) (next : Tag → TagTx)
  /-- The row that `save` reads again. -/
  | load (tagId : Id) (next : Option Tag → TagTx)
  /-- One row of `SELECT … FOR UPDATE`. -/
  | lockTag (tagId : Id) (next : TagTx)
  /-- `UPDATE tags SET usage_count = GREATEST(usage_count + $1, 0) WHERE id = $2`. -/
  | count (delta : Int) (tagId : Id) (next : TagTx)
  /-- The `UPDATE` of `save`. -/
  | updateRow (read mem : Tag) (next : TagTx)
  /-- The `INSERT` of `save`, when the row is gone. -/
  | insertRow (mem : Tag) (next : TagTx)
  | deleteRow (tagId : Id) (next : TagTx)
  /-- `INSERT` of a link, which fails when the link is there. -/
  | insertLink (discussionId tagId : Id) (next : TagTx)
  /-- `INSERT` of a link, `ON CONFLICT DO NOTHING`. -/
  | addLink (discussionId tagId : Id) (next : TagTx)
  | deleteLink (discussionId tagId : Id) (next : TagTx)
  | commit
  | rollback

namespace TagTx

/-- `manager.save(tag)`. -/
def save (mem : Tag) (next : TagTx) : TagTx :=
  .load mem.id fun
    | some read => .updateRow read mem next
    | none => .insertRow mem next

def insertLinks (discussionId : Id) (tagIds : List Id) (next : TagTx) : TagTx :=
  tagIds.foldr (.insertLink discussionId) next

/-- `save` of a discussion with its relation `tags`: links that it lacks are inserted, others deleted. -/
def saveTags (discussionId : Id) (tagIds : List Id) (next : TagTx) : TagTx :=
  .tagsOf discussionId fun now =>
    insertLinks discussionId (tagIds.filter fun k => decide (k ∉ now)) <|
      (now.filter fun k => decide (k ∉ tagIds)).foldr (.deleteLink discussionId) next

/-- `SELECT id FROM tags WHERE id = ANY($1::uuid[]) ORDER BY id FOR UPDATE`. -/
def lockTags (ids : List UuidText) (next : TagTx) : TagTx :=
  ((ids.map (·.id)).dedup.insertionSort (· ≤ ·)).foldr .lockTag next

/-- `tagCounts`. -/
def tagCounts (ids : List UuidText) (delta : Int) (next : TagTx) : TagTx :=
  (sortTexts ids).foldr (fun t next => .count delta t.id next) next

end TagTx

open TagTx

namespace DiscussionsService

def createStatements (tagIds : List UuidText) : TagTx :=
  .tags tagIds.eraseDups fun tags => .insertPost fun id =>
    insertLinks id (tags.map (·.id)) <| TagTx.tagCounts tagIds.eraseDups 1 .commit

/-- `waits` says that the edit becomes a draft, which the post and its room decide. -/
def updateStatements (id : UuidText) (tagIds : List UuidText) (waits : Bool) : TagTx :=
  .lockPost id.id <|
    if waits then .checkTags tagIds.eraseDups .commit
    else .tags tagIds.eraseDups fun tags => .tagsOf id.id fun old =>
      lockTags (old.map Id.text ++ tagIds.eraseDups) <|
        TagTx.tagCounts ((old.map Id.text).filter fun t => decide (t ∉ tagIds.eraseDups)) (-1) <|
          TagTx.tagCounts (((tags.map (·.id)).filter fun k => decide (k ∉ old)).map Id.text) 1 <|
            saveTags id.id (tags.map (·.id)) .commit

def removeStatements (id : UuidText) : TagTx :=
  .lockPost id.id <| .tagsOf id.id fun old => TagTx.tagCounts (old.map Id.text) (-1) .commit

end DiscussionsService

namespace ModerationService

/-- `[...new Set([...full.tags.map((t) => t.id), ...draft.tagIds])].sort()`. -/
def affectedTexts (old : List Id) (tagIds : List UuidText) : List UuidText :=
  sortTexts (old.map Id.text ++ tagIds).eraseDups

/-- `Number(draft.tagIds.includes(tagId)) - Number(full.tags.some((t) => t.id === tagId))`. -/
def deltaOf (old : List Id) (tagIds : List UuidText) (tagId : UuidText) : Int :=
  (if tagId ∈ tagIds then 1 else 0) - (if tagId ∈ old.map Id.text then 1 else 0)

/-- A review that allows a draft with the given tags. -/
def reviewStatements (id : UuidText) (tagIds : List UuidText) : TagTx :=
  .lockPost id.id <| .tags tagIds fun tags => .tagsOf id.id fun old =>
    lockTags (affectedTexts old tagIds) <|
      (affectedTexts old tagIds).foldr
        (fun t next => if deltaOf old tagIds t = 0 then next else .count (deltaOf old tagIds t) t.id next) <|
        saveTags id.id (tags.map (·.id)) .commit

end ModerationService

namespace TagsService

def updateStatements (id : UuidText) (dto : UpdateTagDto) : TagTx :=
  .lockTag id.id <| .findTag id.id fun tag =>
    if ∀ slug ∈ dto.slug, slug = tag.slug then
      TagTx.save { tag with
        name := dto.name.getD tag.name
        description := dto.description <|> tag.description } .commit
    else .rollback

def removeStatements (id : UuidText) : TagTx :=
  .lockTag id.id <| .findTag id.id fun tag => .deleteLinks tag.id fun ds =>
    ds.foldr (fun d next => .deleteLink d tag.id next) <| .deleteRow tag.id .commit

def setStatusStatements (id : UuidText) (active : Bool) : TagTx :=
  .findTag id.id fun tag =>
    if tag.status = .merged then .rollback
    else TagTx.save { tag with status := if active then .active else .inactive } .commit

def mergeStatements (sourceId targetId : UuidText) : TagTx :=
  .mergeable sourceId targetId fun source target => .selectLinks source.id fun ds =>
    ds.foldr (fun d next => .addLink d target.id next) <| .deleteLinks source.id fun ds =>
      ds.foldr (fun d next => .deleteLink d source.id next) <|
        TagTx.save { source with status := .merged, mergedIntoTagId := some target.id, usageCount := 0 } <|
          .countLinks target.id fun n => TagTx.save { target with usageCount := n } .commit

end TagsService

/-- A request that begins a transaction. -/
inductive TagRequest where
  | create (tagIds : List UuidText)
  | update (id : UuidText) (tagIds : List UuidText) (waits : Bool)
  | remove (id : UuidText)
  | review (id : UuidText) (tagIds : List UuidText)
  | updateTag (id : UuidText) (dto : UpdateTagDto)
  | removeTag (id : UuidText)
  | setStatus (id : UuidText) (active : Bool)
  | merge (sourceId targetId : UuidText)
  deriving DecidableEq

namespace TagRequest

def statements : TagRequest → TagTx
  | .create tagIds => DiscussionsService.createStatements tagIds
  | .update id tagIds waits => DiscussionsService.updateStatements id tagIds waits
  | .remove id => DiscussionsService.removeStatements id
  | .review id tagIds => ModerationService.reviewStatements id tagIds
  | .updateTag id dto => TagsService.updateStatements id dto
  | .removeTag id => TagsService.removeStatements id
  | .setStatus id active => TagsService.setStatusStatements id active
  | .merge sourceId targetId => TagsService.mergeStatements sourceId targetId

/-- The tags that an edit names. -/
def names : TagRequest → List UuidText
  | .update _ tagIds _ => tagIds.eraseDups
  | _ => []

end TagRequest

/-! ## Statements

The methods of the two services, as lists of statements. -/

/-- A row that a transaction may lock. -/
inductive RowLock where
  | post (id : Id)
  | tag (id : Id)
  | link (discussionId tagId : Id)
  deriving DecidableEq

/-- What is committed, the rows that are locked, and the next id of a discussion. -/
structure TagStore where
  tables : TagTables
  locks : List RowLock
  nextPost : Id

/-- A transaction in flight: what is left of it, what it has written, and its locks in the order in which it took
them. The other fields record what it has read: the tags that it found active and may link, those whose links it
deletes, and the rows that it has read but not locked. -/
structure TagTask where
  body : TagTx
  names : List UuidText := []
  writes : List TagWrite := []
  locks : List RowLock := []
  tagged : List Id := []
  dropped : List Id := []
  watched : List RowLock := []

abbrev TagEffect := Effect TagStore TagTask Bool

namespace TagTask

variable (s : TagStore) (t : TagTask)

/-- What the statements of a transaction see. -/
def view : TagTables := t.writes.foldl TagTables.write s.tables

/-- The transaction goes on. -/
def goOn (body : TagTx) : TagEffect := ⟨s, [{ t with body }], none⟩

/-- The statement waits for a locked row. -/
def wait : TagEffect := ⟨s, [t], none⟩

/-- The transaction ends: its locks are free. -/
def finish (tables : TagTables) (committed : Bool) : TagEffect :=
  ⟨{ s with tables, locks := s.locks.filter fun r => decide (r ∉ t.locks) }, [], some committed⟩

def rollback : TagEffect := t.finish s s.tables false

/-- The statement writes a row and goes on. The row is locked before, when no other transaction holds it. -/
def lockAnd (r : RowLock) (writes : List TagWrite) (body : TagTx) : TagEffect :=
  if r ∈ t.locks then ⟨s, [{ t with body, writes := t.writes ++ writes }], none⟩
  else if r ∈ s.locks then t.wait s
  else
    ⟨{ s with locks := r :: s.locks },
      [{ t with
        body
        writes := t.writes ++ writes
        locks := t.locks ++ [r]
        watched := t.watched.filter fun r' => decide (r' ≠ r) }], none⟩

/-- Another transaction holds the row. -/
def blocked (r : RowLock) : Bool := decide (r ∉ t.locks ∧ r ∈ s.locks)

/-- The next statement of a transaction. -/
def statement : TagEffect :=
  match t.body with
  | .lockPost id next => t.lockAnd s (.post id) [] next
  | .insertPost next => ⟨{ s with nextPost := s.nextPost + 1 }, [{ t with body := next s.nextPost }], none⟩
  | .checkTags ids next => if ((t.view s).activeTags ids).isSome then t.goOn s next else t.rollback s
  | .tags ids next =>
    match (t.view s).activeTags ids with
    | some found => ⟨s, [{ t with body := next found, tagged := found.map (·.id) ++ t.tagged }], none⟩
    | none => t.rollback s
  | .mergeable sourceId targetId next =>
    match (t.view s).mergeable sourceId targetId with
    | some (source, target) => ⟨s, [{ t with body := next source target, tagged := target.id :: t.tagged }], none⟩
    | none => t.rollback s
  | .tagsOf id next =>
    ⟨s, [{ t with body := next ((t.view s).tagIdsOf id), watched := .post id :: t.watched }], none⟩
  | .selectLinks k next => t.goOn s (next ((t.view s).linkedTo k))
  | .deleteLinks k next =>
    ⟨s, [{ t with
      body := next ((t.view s).linkedTo k), dropped := k :: t.dropped, watched := .tag k :: t.watched }], none⟩
  | .countLinks k next =>
    ⟨s, [{ t with body := next ((t.view s).linkedTo k).length, watched := .tag k :: t.watched }], none⟩
  | .findTag k next =>
    match (t.view s).tags.get? k with
    | some tag => ⟨s, [{ t with body := next tag, watched := .tag k :: t.watched }], none⟩
    | none => t.rollback s
  | .load k next => t.goOn s (next ((t.view s).tags.get? k))
  | .lockTag k next => if ((t.view s).tags.get? k).isSome then t.lockAnd s (.tag k) [] next else t.goOn s next
  | .count delta k next =>
    if ((t.view s).tags.get? k).isSome then t.lockAnd s (.tag k) [.count delta k] next else t.goOn s next
  | .updateRow read mem next =>
    if ((t.view s).tags.get? mem.id).isSome then t.lockAnd s (.tag mem.id) [.save read mem] next else t.goOn s next
  | .insertRow mem next => ⟨s, [{ t with body := next, writes := t.writes ++ [.insert mem] }], none⟩
  | .deleteRow k next =>
    if ((t.view s).tags.get? k).isSome then t.lockAnd s (.tag k) [.delete k] next else t.goOn s next
  | .insertLink d k next =>
    if t.blocked s (.link d k) then t.wait s
    else if (t.view s).linked d k then t.rollback s
    else t.lockAnd s (.link d k) [.link d k] next
  | .addLink d k next =>
    if t.blocked s (.link d k) then t.wait s
    else if (t.view s).linked d k then t.goOn s next
    else t.lockAnd s (.link d k) [.link d k] next
  | .deleteLink d k next =>
    if (t.view s).linked d k then t.lockAnd s (.link d k) [.unlink d k] next else t.goOn s next
  | .commit => t.finish s (t.view s) true
  | .rollback => t.rollback s

end TagTask

/-- The requests as transactions. An input may end the transaction instead of its next statement. -/
def tagTransactions : Program TagStore TagRequest TagTask Bool Bool where
  enter r := { body := r.statements, names := r.names }
  exec fails s t := if fails then t.rollback s else t.statement s

/-! ## Texts in order

The texts of ids have one length, so that they are ordered as the ids are. -/

/-- Digits are ordered as their values are. -/
theorem hexCode_lt_hexCode {a b : Nat} (ha : a < 16) (hb : b < 16) : hexCode a false < hexCode b false ↔ a < b := by
  simp only [hexCode, Bool.false_eq_true, if_false]
  split <;> split <;> omega

theorem UuidText.beforeLast_text (i : Nat) : beforeLast (Id.text i) = Id.text (i / 16) :=
  congrArg (UuidText.mk (i / 16)) (Nat.zero_div 2)

theorem UuidText.lastCode_text (i : Nat) : lastCode (Id.text i) = hexCode (i % 16) false := by
  unfold lastCode Id.text
  rfl

/-- Texts without capital letters are in the order of their ids. -/
theorem UuidText.compareDigits_text (n i j : Nat) : compareDigits n (Id.text i) (Id.text j) = compare i j := by
  induction n generalizing i j with
  | zero => rfl
  | succ n ih =>
    have hi := Nat.mod_lt i (show 0 < 16 by decide)
    have hj := Nat.mod_lt j (show 0 < 16 by decide)
    have hij := hexCode_lt_hexCode hi hj
    have hji := hexCode_lt_hexCode hj hi
    rw [compareDigits, beforeLast_text, beforeLast_text, lastCode_text, lastCode_text, ih]
    rcases Nat.lt_trichotomy (i / 16) (j / 16) with hlt | heq | hgt
    · have hall : i < j := by omega
      rw [Nat.compare_eq_lt.mpr hlt, Nat.compare_eq_lt.mpr hall]
      rfl
    · rw [Nat.compare_eq_eq.mpr heq]
      show compare (hexCode (i % 16) false) (hexCode (j % 16) false) = _
      rcases Nat.lt_trichotomy i j with hlt | rfl | hgt
      · rw [Nat.compare_eq_lt.mpr hlt, Nat.compare_eq_lt]
        omega
      · rw [Nat.compare_eq_eq.mpr (rfl : i = i), Nat.compare_eq_eq]
      · rw [Nat.compare_eq_gt.mpr hgt, Nat.compare_eq_gt]
        omega
    · have hall : j < i := by omega
      rw [Nat.compare_eq_gt.mpr hgt, Nat.compare_eq_gt.mpr hall]
      rfl

/-- The texts of ids are ordered as the ids are. -/
theorem UuidText.le_text {i j : Id} : UuidText.le (Id.text i) (Id.text j) ↔ i ≤ j := by
  show compareDigits 32 (Id.text i) (Id.text j) ≠ .gt ↔ _
  rw [compareDigits_text, Ne, Nat.compare_eq_gt]
  exact Nat.not_lt

/-- Ids that the database has printed are sorted as ids. -/
theorem sortTexts_map_text (ids : List Id) :
    sortTexts (ids.map Id.text) = (ids.insertionSort (· ≤ ·)).map Id.text :=
  (List.map_insertionSort (· ≤ ·) UuidText.le Id.text ids fun _ _ _ _ => UuidText.le_text.symm).symm

/-- Sorting keeps the texts. -/
theorem mem_sortTexts {ids : List UuidText} {u : UuidText} : u ∈ sortTexts ids ↔ u ∈ ids :=
  (List.perm_insertionSort _ _).mem_iff

/-! ## Locks

A row that is locked stays as it is for other transactions until the transaction ends. -/

section

variable {s : TagStore} {t : TagTask}

/-- The rows of tags that a transaction holds, in the order in which it took them. -/
def RowLock.tag? : RowLock → Option Id
  | .tag k => some k
  | _ => none

def TagTask.tagLocks (t : TagTask) : List Id := t.locks.filterMap RowLock.tag?

/-- The locked tags are among the locks. -/
theorem TagTask.mem_tagLocks {k : Id} : k ∈ t.tagLocks ↔ .tag k ∈ t.locks := by
  simp only [tagLocks, List.mem_filterMap]
  constructor
  · rintro ⟨r, hr, hk⟩
    cases r with
    | tag j => exact Option.some.inj hk ▸ hr
    | post | link => cases hk
  · exact fun hk => ⟨.tag k, hk, rfl⟩

/-- The tags whose links the next statement begins to delete. -/
def TagTx.drops : TagTx → List Id
  | .deleteLinks k _ => [k]
  | _ => []

/-- The tags that the next statement has to find active for the transaction to link them. -/
def TagTx.checks : TagTx → List Id
  | .tags ids _ => ids.map (·.id)
  | .mergeable _ targetId _ => [targetId.id]
  | _ => []

/-- **The cases of a statement.** The transaction ends, it locks a row and goes on, or it goes on with the locks that it
has. -/
inductive TagStep (s : TagStore) (t : TagTask) : TagEffect → Prop where
  | finished (tables : TagTables) (committed : Bool)
      (htables : tables = s.tables ∨ (t.body = .commit ∧ tables = t.view s)) :
      TagStep s t (t.finish s tables committed)
  | locked (r : RowLock) (ws : List TagWrite) (body : TagTx) : TagStep s t (t.lockAnd s r ws body)
  | moved (s' : TagStore) (t' : TagTask) (htables : s'.tables = s.tables) (hlocks : s'.locks = s.locks)
      (hheld : t'.locks = t.locks) (htagged : ∀ k ∈ t'.tagged, k ∈ t.tagged ∨ k ∈ t.body.checks)
      (hdropped : ∀ k ∈ t'.dropped, k ∈ t.dropped ∨ k ∈ t.body.drops) : TagStep s t ⟨s', [t'], none⟩

/-- **What a statement does**, in one case for each kind of statement. -/
theorem tagStep_statement (s : TagStore) (t : TagTask) : TagStep s t (t.statement s) := by
  -- going on, waiting and rolling back touch neither tables nor marks
  have hgo : ∀ body, TagStep s t (t.goOn s body) := fun body =>
    .moved s _ rfl rfl rfl (fun _ hk => .inl hk) fun _ hk => .inl hk
  have hwait : TagStep s t (t.wait s) := .moved s t rfl rfl rfl (fun _ hk => .inl hk) fun _ hk => .inl hk
  have hrollback : TagStep s t (t.rollback s) := .finished s.tables false (.inl rfl)
  unfold TagTask.statement
  split
  case h_1 => exact .locked _ _ _
  case h_2 => exact .moved _ _ rfl rfl rfl (fun _ hk => .inl hk) fun _ hk => .inl hk
  case h_3 =>
    split
    · exact hgo _
    · exact hrollback
  -- the tags that are found are marked
  case h_4 ids next hbody =>
    split
    · next found hfound =>
      refine .moved _ _ rfl rfl rfl (fun k hk => ?_) fun _ hk => .inl hk
      rcases List.mem_append.mp hk with hk | hk
      · obtain ⟨tag, htag, rfl⟩ := List.mem_map.mp hk
        obtain ⟨rfl, -⟩ := TagTables.activeTags_eq_some hfound
        rw [hbody]
        exact .inr (TagTables.mem_findTags.mp htag).2
      · exact .inl hk
    · exact hrollback
  case h_5 a b next hbody =>
    split
    · next source target hfound =>
      refine .moved _ _ rfl rfl rfl (fun k hk => ?_) fun _ hk => .inl hk
      rcases List.mem_cons.mp hk with rfl | hk
      · obtain ⟨-, -, htarget, -⟩ := TagTables.mergeable_eq_some hfound
        rw [hbody]
        exact .inr (List.mem_singleton.mpr (congrArg UuidText.id htarget.2))
      · exact .inl hk
    · exact hrollback
  case h_6 => exact .moved _ _ rfl rfl rfl (fun _ hk => .inl hk) fun _ hk => .inl hk
  case h_7 => exact hgo _
  -- the tag whose links are selected is marked as dropped
  case h_8 k next hbody =>
    refine .moved _ _ rfl rfl rfl (fun _ hk => .inl hk) fun j hj => ?_
    rcases List.mem_cons.mp hj with rfl | hj
    · rw [hbody]
      exact .inr (List.mem_singleton_self j)
    · exact .inl hj
  case h_9 => exact .moved _ _ rfl rfl rfl (fun _ hk => .inl hk) fun _ hk => .inl hk
  case h_10 =>
    split
    · exact .moved _ _ rfl rfl rfl (fun _ hk => .inl hk) fun _ hk => .inl hk
    · exact hrollback
  case h_11 => exact hgo _
  -- a row that is there is locked, another one is passed over
  case h_12 | h_13 | h_14 | h_16 | h_19 =>
    split
    · exact .locked _ _ _
    · exact hgo _
  case h_15 => exact .moved _ _ rfl rfl rfl (fun _ hk => .inl hk) fun _ hk => .inl hk
  case h_17 =>
    split
    · exact hwait
    · split
      · exact hrollback
      · exact .locked _ _ _
  case h_18 =>
    split
    · exact hwait
    · split
      · exact hgo _
      · exact .locked _ _ _
  case h_20 hbody => exact .finished _ _ (.inr ⟨hbody, rfl⟩)
  case h_21 => exact hrollback

/-- What `TagStep` says of an input that may end the transaction. -/
theorem tagStep_exec (fails : Bool) (s : TagStore) (t : TagTask) : TagStep s t (tagTransactions.exec fails s t) := by
  show TagStep s t (if fails then t.rollback s else t.statement s)
  split
  · exact .finished s.tables false (.inl rfl)
  · exact tagStep_statement s t

/-- What locking a row leaves: the transaction goes on with it, or it waits. -/
theorem lockAnd_cases {P : TagEffect → Prop} {r : RowLock} {ws : List TagWrite} {body : TagTx}
    (hheld : r ∈ t.locks → P ⟨s, [{ t with body, writes := t.writes ++ ws }], none⟩) (hwait : P (t.wait s))
    (hfree : r ∉ t.locks → r ∉ s.locks → P ⟨{ s with locks := r :: s.locks },
      [{ t with
        body
        writes := t.writes ++ ws
        locks := t.locks ++ [r]
        watched := t.watched.filter fun r' => decide (r' ≠ r) }], none⟩) : P (t.lockAnd s r ws body) := by
  unfold TagTask.lockAnd
  split
  · next hr => exact hheld hr
  · next hr =>
    split
    · exact hwait
    · next hrs => exact hfree hr hrs

section

variable {e : TagEffect}

/-- Every statement keeps to the discipline of locks. -/
theorem TagStep.locksStep (hstep : TagStep s t e) : LocksStep TagStore.locks TagTask.locks s t e := by
  cases hstep with
  | finished tables committed =>
    refine .release rfl fun k => ?_
    show k ∈ s.locks.filter _ ↔ _
    rw [List.mem_filter, decide_eq_true_eq]
  | locked r ws body =>
    refine lockAnd_cases (fun _ => ?_) ?_ fun _ hfree => ?_
    · exact .keep _ rfl rfl rfl
    · exact .keep _ rfl rfl rfl
    · exact .acquire _ r rfl rfl hfree rfl
  | moved s' t' _ hlocks hheld => exact .keep t' rfl hheld hlocks

/-- A statement changes no committed row, except that a transaction commits all that it has written. -/
theorem TagStep.tables (hstep : TagStep s t e) :
    e.store.tables = s.tables ∨ (t.body = .commit ∧ e.store.tables = t.view s) := by
  cases hstep with
  | finished tables committed htables => exact htables
  | locked r ws body =>
    refine lockAnd_cases (P := fun e => e.store.tables = s.tables ∨ _) (fun _ => ?_) ?_ fun _ _ => ?_
    · exact .inl rfl
    · exact .inl rfl
    · exact .inl rfl
  | moved s' t' htables => exact .inl htables

/-- What a statement adds to the tags that its transaction has found active, and to those whose links it deletes. -/
theorem TagStep.marks (hstep : TagStep s t e) : ∀ t' ∈ e.next,
    (∀ k ∈ t'.tagged, k ∈ t.tagged ∨ k ∈ t.body.checks) ∧ ∀ k ∈ t'.dropped, k ∈ t.dropped ∨ k ∈ t.body.drops := by
  have hsame : ∀ t₁ : TagTask, t₁.tagged = t.tagged → t₁.dropped = t.dropped → ∀ t' ∈ [t₁],
      (∀ k ∈ t'.tagged, k ∈ t.tagged ∨ k ∈ t.body.checks) ∧ ∀ k ∈ t'.dropped, k ∈ t.dropped ∨ k ∈ t.body.drops := by
    intro t₁ htagged hdropped t' ht'
    obtain rfl := List.mem_singleton.mp ht'
    exact ⟨fun k hk => .inl (htagged ▸ hk), fun k hk => .inl (hdropped ▸ hk)⟩
  cases hstep with
  | finished => exact fun _ ht' => absurd ht' List.not_mem_nil
  | locked r ws body =>
    refine lockAnd_cases (P := fun e => ∀ t' ∈ e.next, (∀ k ∈ t'.tagged, k ∈ t.tagged ∨ k ∈ t.body.checks)
      ∧ ∀ k ∈ t'.dropped, k ∈ t.dropped ∨ k ∈ t.body.drops) (fun _ => ?_) ?_ fun _ _ => ?_
    · exact hsame _ rfl rfl
    · exact hsame _ rfl rfl
    · exact hsame _ rfl rfl
  | moved s' t₁ _ _ _ htagged hdropped =>
    intro t' ht'
    obtain rfl := List.mem_singleton.mp ht'
    exact ⟨htagged, hdropped⟩

/-- A transaction goes on as one transaction, or it has ended. -/
theorem TagStep.pairwise_next (hstep : TagStep s t e) {P : TagTask → TagTask → Prop} : e.next.Pairwise P := by
  cases hstep with
  | finished => exact .nil
  | locked r ws body =>
    refine lockAnd_cases (P := fun e => e.next.Pairwise P) (fun _ => ?_) ?_ fun _ _ => ?_
    · exact List.pairwise_singleton _ _
    · exact List.pairwise_singleton _ _
    · exact List.pairwise_singleton _ _
  | moved => exact List.pairwise_singleton _ _

end

/-- In every interleaving no two transactions hold a row. -/
theorem separate_step {p : Pool TagStore TagTask} (h : p.Separate TagStore.locks TagTask.locks)
    (act : Act TagRequest Bool) : (p.step tagTransactions act).Separate TagStore.locks TagTask.locks :=
  h.step (fun _ => rfl) (fun fails s t => (tagStep_exec fails s t).locksStep) act

end

/-! ## A store for examples

Two tags and two posts. -/

namespace Sample

def activeTag (id : Id) (name : String) (usageCount : Int) : Tag :=
  ⟨id, name, name, none, usageCount, .active, none, 0⟩

/-- The tags `3` and `5`, of which the discussion `0` has the first. -/
def twoTags : TagStore where
  tables := ⟨((∅ : Table Id Tag Tag.id).insert (activeTag 3 "graphs" 1)).insert (activeTag 5 "do-thi" 0),
    (∅ : Table (Id × Id) DiscussionTag fun l => (l.discussionId, l.tagId)).insert ⟨0, 3⟩⟩
  locks := []
  nextPost := 1

end Sample

end AcaSocial
