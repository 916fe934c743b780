import AcaSocial.Discussion.TagKeys

/-!
# The order in which transactions lock tags

Transactions that lock several tags do so in the order of their ids, so that no two wait for each other. A merge saves
its source before its target, whatever their ids are, and a new post counts its tags in the order of the texts in which
they were written. And the checks of foreign keys lock tags out of this order: a new post shares the keys of all its
tags before it counts the first.

* **`TagTx.Ascends`** — what is left of a transaction locks tags only after those that it has asked for.
* **`TagRequest.InOrder`** — the requests whose transactions ascend.
* **`WaitsInOrder`** — where a key lock has a part in it, a transaction that is waited for waits for a later row.
* **`tagLocks_ordered`** — in every interleaving of such requests and waits, locks are taken in order and no cycle of
  waiting transactions comes up.
-/

namespace AcaSocial

variable {s : TagStore} {t : TagTask} {asked : List Id} {next : TagTx}

/-! ## Ascending transactions

A transaction ascends when it asks for the rows of tags in the order of their ids, and never goes back. -/

/-- A statement on the tag `k` locks a tag that has been asked for, or one after all of these. -/
def AsksFor (ascends : List Id → Prop) (asked : List Id) (k : Id) : Prop :=
  (k ∈ asked ∧ ascends asked) ∨ (k ∉ asked ∧ (∀ j ∈ asked, j < k) ∧ ascends (asked ++ [k]))

/-- What is left of a transaction asks for tags in the order of their ids, after those that it has asked for. A row
that comes back after it was deleted is left out. -/
def TagTx.Ascends (asked : List Id) : TagTx → Prop
  | .lockPost _ next | .checkTags _ next | .insertLink _ _ next | .addLink _ _ next | .deleteLink _ _ next =>
    next.Ascends asked
  | .insertPost next => ∀ d, (next d).Ascends asked
  | .tags ids next => ∀ tags : List Tag, (∀ t ∈ tags, t.id ∈ ids.map (·.id)) → (next tags).Ascends asked
  | .mergeable a b next => ∀ source target : Tag, a ≠ b → Id.text source.id = a → Id.text target.id = b →
    (next source target).Ascends asked
  | .tagsOf _ next | .selectLinks _ next | .deleteLinks _ next => ∀ ids, (next ids).Ascends asked
  | .countLinks _ next => ∀ n, (next n).Ascends asked
  | .findTag k next => ∀ tag : Tag, tag.id = k → (next tag).Ascends asked
  | .load k next => ∀ row : Option Tag, (∀ t ∈ row, t.id = k) → (next row).Ascends asked
  | .lockTag k next | .count _ k next | .deleteRow k next => AsksFor (fun asked => next.Ascends asked) asked k
  | .updateRow _ mem next => AsksFor (fun asked => next.Ascends asked) asked mem.id
  | .insertRow _ _ | .commit | .rollback => True

namespace TagTx

/-- Statements that ask for nothing new. -/
theorem ascends_foldr {α : Type} {f : α → TagTx → TagTx} {l : List α}
    (hf : ∀ a ∈ l, ∀ next : TagTx, next.Ascends asked → (f a next).Ascends asked) (h : next.Ascends asked) :
    (l.foldr f next).Ascends asked := by
  induction l with
  | nil => exact h
  | cons a l ih =>
    exact hf a List.mem_cons_self _ (ih fun b hb => hf b (List.mem_cons_of_mem a hb))

/-- Statements that ask for tags in order. -/
theorem ascends_foldr_sorted {α : Type} {f : α → TagTx → TagTx} {g : α → Id} {l : List α}
    (hf : ∀ asked a (next : TagTx), AsksFor (fun asked => next.Ascends asked) asked (g a) →
      (f a next).Ascends asked)
    (hsorted : (l.map g).Pairwise (· ≤ ·)) (hasked : ∀ j ∈ asked, ∀ a ∈ l, j ≤ g a)
    (h : ∀ asked', (∀ j, j ∈ asked' ↔ j ∈ asked ∨ j ∈ l.map g) → next.Ascends asked') :
    (l.foldr f next).Ascends asked := by
  induction l generalizing asked with
  | nil => exact h asked fun j => by simp
  | cons a l ih =>
    obtain ⟨hfirst, hsorted⟩ := List.pairwise_cons.mp hsorted
    have hlater : ∀ b ∈ l, g a ≤ g b := fun b hb => hfirst (g b) (List.mem_map_of_mem hb)
    refine hf asked a _ ?_
    -- a tag that is locked already is not asked for again
    by_cases hmem : g a ∈ asked
    · refine .inl ⟨hmem, ih hsorted (fun j hj b hb => hasked j hj b (List.mem_cons_of_mem a hb)) fun asked' hall => ?_⟩
      refine h asked' fun j => (hall j).trans ?_
      rw [List.map_cons, List.mem_cons]
      constructor
      · exact fun hj => hj.imp id .inr
      · rintro (hj | rfl | hj)
        · exact .inl hj
        · exact .inl hmem
        · exact .inr hj
    -- what was asked for before is no later in the order, and another tag
    · refine .inr ⟨hmem, fun j hj => ?_, ih hsorted (fun j hj b hb => ?_) fun asked' hall => ?_⟩
      · have hle := hasked j hj a List.mem_cons_self
        exact lt_of_le_of_ne hle fun he => hmem (he ▸ hj)
      · rcases List.mem_append.mp hj with hj | hj
        · exact hasked j hj b (List.mem_cons_of_mem a hb)
        · exact List.mem_singleton.mp hj ▸ hlater b hb
      · refine h asked' fun j => (hall j).trans ?_
        rw [List.map_cons, List.mem_cons, List.mem_append, List.mem_singleton, or_assoc]

/-- The ids of a locking query are locked in order. -/
theorem ascends_lockTags {ids : List UuidText}
    (h : ∀ asked', (∀ j, j ∈ asked' ↔ j ∈ ids.map (·.id)) → next.Ascends asked') :
    (lockTags ids next).Ascends [] := by
  unfold lockTags
  refine ascends_foldr_sorted (g := id) (fun _ _ _ h => h) ?_ (fun _ hj => absurd hj List.not_mem_nil) ?_
  · rw [List.map_id]
    exact List.pairwise_insertionSort _ _
  · intro asked' hall
    refine h asked' fun j => (hall j).trans ?_
    rw [List.map_id, (List.perm_insertionSort _ _).mem_iff, List.mem_dedup]
    exact or_iff_right List.not_mem_nil

/-- Counters are updated in the order of the texts of the ids. -/
theorem ascends_tagCounts {ids : List UuidText} {delta : Int} (hids : ∀ u ∈ ids, u.id ∈ asked)
    (h : next.Ascends asked) : (tagCounts ids delta next).Ascends asked :=
  ascends_foldr (fun u hu _ hnext => .inl ⟨hids u (mem_sortTexts.mp hu), hnext⟩) h

/-- The links of a post take no lock that is in the way. -/
theorem ascends_saveTags {d : Id} {tagIds : List Id} (h : next.Ascends asked) :
    (saveTags d tagIds next).Ascends asked := by
  intro now
  refine ascends_foldr (fun _ _ _ h => h) ?_
  exact ascends_foldr (fun _ _ _ h => h) h

/-- Saving a tag asks for it. -/
theorem ascends_save {mem : Tag} (h : AsksFor (fun asked => next.Ascends asked) asked mem.id) :
    (save mem next).Ascends asked := by
  intro row _
  cases row with
  | none => trivial
  | some read => exact h

end TagTx

/-! ## The transactions of the services

All ascend but a merge of a later tag into an earlier one. -/

/-- The requests that ask for tags in order: a merge goes from a smaller id to a larger one, and the tags of a new post
are written so that their texts sort as the ids do. -/
def TagRequest.InOrder : TagRequest → Prop
  | .create tagIds => ((sortTexts tagIds.eraseDups).map (·.id)).Pairwise (· ≤ ·)
  | .merge sourceId targetId => sourceId.id ≤ targetId.id
  | _ => True

instance : DecidablePred TagRequest.InOrder
  | .create tagIds =>
    inferInstanceAs (Decidable (((sortTexts tagIds.eraseDups).map (·.id)).Pairwise (· ≤ ·)))
  | .merge sourceId targetId => inferInstanceAs (Decidable (sourceId.id ≤ targetId.id))
  | .update _ _ _ | .remove _ | .review _ _ | .updateTag _ _ | .removeTag _ | .setStatus _ _ => .isTrue trivial

open TagTx

/-- A tag that is asked for first. -/
theorem AsksFor.first {ascends : List Id → Prop} {k : Id} (h : ascends [k]) : AsksFor ascends [] k :=
  .inr ⟨List.not_mem_nil, fun _ hj => absurd hj List.not_mem_nil, h⟩

/-- Every transaction of the services that is in order ascends. -/
theorem ascends_statements {r : TagRequest} (h : r.InOrder) : r.statements.Ascends [] := by
  cases r with
  | create tagIds =>
    intro tags _ d
    refine ascends_foldr (fun _ _ _ h => h) ?_
    exact ascends_foldr_sorted (g := UuidText.id) (fun _ _ _ h => h) h (fun _ hj => absurd hj List.not_mem_nil)
      fun _ _ => trivial
  | update id tagIds waits =>
    show Ascends [] (if waits then _ else _)
    split
    · trivial
    · intro tags htags old
      refine ascends_lockTags fun asked' hall => ?_
      refine ascends_tagCounts (fun u hu => ?_) (ascends_tagCounts (fun u hu => ?_) (ascends_saveTags trivial))
      · exact (hall u.id).mpr (List.mem_map_of_mem (List.mem_append_left _ (List.mem_filter.mp hu).1))
      · obtain ⟨k, hk, rfl⟩ := List.mem_map.mp hu
        obtain ⟨tag, htag, rfl⟩ := List.mem_map.mp (List.mem_filter.mp hk).1
        obtain ⟨v, hv, hid⟩ := List.mem_map.mp (htags tag htag)
        exact (hall _).mpr (List.mem_map.mpr ⟨v, List.mem_append_right _ hv, hid⟩)
  | remove id =>
    intro old
    refine ascends_foldr_sorted (g := UuidText.id) (fun _ _ _ h => h) ?_ (fun _ hj => absurd hj List.not_mem_nil)
      fun _ _ => trivial
    -- the ids are as the database prints them
    rw [sortTexts_map_text, List.map_map]
    exact List.map_id _ ▸ List.pairwise_insertionSort _ _
  | review id tagIds =>
    intro tags _ old
    refine ascends_lockTags fun asked' hall => ?_
    refine ascends_foldr (fun u hu next hnext => ?_) (ascends_saveTags trivial)
    split
    · exact hnext
    · exact .inl ⟨(hall u.id).mpr (List.mem_map_of_mem hu), hnext⟩
  | updateTag id dto =>
    refine AsksFor.first fun tag htag => ?_
    dsimp only
    split
    · exact ascends_save (.inl ⟨List.mem_singleton.mpr htag, trivial⟩)
    · trivial
  | removeTag id =>
    refine AsksFor.first fun tag htag ds => ?_
    exact ascends_foldr (fun _ _ _ h => h) (.inl ⟨List.mem_singleton.mpr htag, trivial⟩)
  | setStatus id active =>
    intro tag _
    dsimp only
    split
    · trivial
    · exact ascends_save (.first trivial)
  | merge sourceId targetId =>
    intro source target hne hsource htarget ds
    refine ascends_foldr (fun _ _ _ h => h) fun ds => ?_
    refine ascends_foldr (fun _ _ _ h => h) (ascends_save (.first fun n => ascends_save (.inr ?_)))
    -- two different texts of printed ids are two ids
    have hlt : source.id < target.id := by
      subst hsource htarget
      exact lt_of_le_of_ne h fun he => hne (congrArg Id.text he)
    refine ⟨fun hmem => ?_, fun j hj => ?_, trivial⟩
    · exact absurd (List.mem_singleton.mp hmem) (Nat.ne_of_gt hlt)
    · exact List.mem_singleton.mp hj ▸ hlt

/-! ## Rows that are there

A lock on a row that is gone is none, so that only rows that are there are waited for. -/

namespace TagTables

variable {T : TagTables} {k : Id}

/-- Of the rows that a transaction writes, only one that is inserted makes a tag appear, and only one that is deleted
makes it vanish. -/
theorem tags_write (w : TagWrite) (k : Id) : ((T.write w).tags.get? k).isSome = (T.tags.get? k).isSome
    ∨ (∃ tag, w = .insert tag) ∨ w = .delete k := by
  cases w with
  | link | unlink => exact .inl rfl
  | count delta j =>
    rw [get?_write_count, Option.isSome_map]
    exact .inl rfl
  | save read mem =>
    rw [get?_write_save, Option.isSome_map]
    exact .inl rfl
  | insert tag => exact .inr (.inl ⟨tag, rfl⟩)
  | delete j =>
    by_cases hj : j = k
    · exact .inr (.inr (congrArg _ hj))
    · rw [get?_write_delete, if_neg hj]
      exact .inl rfl

/-- The same for all that a transaction has written. -/
theorem tags_writes (ws : List TagWrite) (k : Id) (hinsert : ∀ tag, .insert tag ∉ ws) (hdelete : .delete k ∉ ws) :
    ((ws.foldl write T).tags.get? k).isSome = (T.tags.get? k).isSome := by
  induction ws generalizing T with
  | nil => rfl
  | cons w ws ih =>
    have hrest : ((ws.foldl write (T.write w)).tags.get? k).isSome = ((T.write w).tags.get? k).isSome :=
      ih (fun tag h => hinsert tag (List.mem_cons_of_mem w h)) fun h => hdelete (List.mem_cons_of_mem w h)
    refine hrest.trans ?_
    rcases tags_write (T := T) w k with hsame | ⟨tag, rfl⟩ | rfl
    · exact hsame
    · exact absurd List.mem_cons_self (hinsert tag)
    · exact absurd List.mem_cons_self hdelete

/-- Without inserted rows no tag appears. -/
theorem isSome_of_writes {ws : List TagWrite} (hinsert : ∀ tag, .insert tag ∉ ws)
    (h : ((ws.foldl write T).tags.get? k).isSome) : (T.tags.get? k).isSome := by
  induction ws generalizing T with
  | nil => exact h
  | cons w ws ih =>
    have hrest : ((T.write w).tags.get? k).isSome := ih (fun tag h => hinsert tag (List.mem_cons_of_mem w h)) h
    rcases tags_write (T := T) w k with hsame | ⟨tag, rfl⟩ | rfl
    · exact hsame ▸ hrest
    · exact absurd List.mem_cons_self (hinsert tag)
    · rw [get?_write_delete, if_pos rfl] at hrest
      cases hrest

end TagTables

/-! ## What a transaction has asked for

The ids that a transaction has asked for so far. All that it will ask for are above them. -/

/-- The tag whose row the next statement of a transaction wants, when it is there and not held already. -/
def TagTask.wants (s : TagStore) (t : TagTask) : Option Id :=
  t.body.wants.filter fun k => decide (k ∉ t.tagLocks) && ((t.view s).tags.get? k).isSome

/-- The next statement inserts a tag whose row is gone. -/
def TagTx.inserts : TagTx → Bool
  | .insertRow _ _ => true
  | _ => false

/-- **The invariant of a transaction.** It has asked for tags in the order of their ids, it holds those that were there,
and it asks for the others later. -/
structure Asked (asked : List Id) (s : TagStore) (t : TagTask) : Prop where
  ascends : t.body.Ascends asked
  sorted : asked.Pairwise (· < ·)
  held : t.tagLocks.Sublist asked
  gone : ∀ k ∈ asked, k ∉ t.tagLocks → s.tables.tags.get? k = none
  noInsert : ∀ tag, .insert tag ∉ t.writes
  deleted : ∀ k, .delete k ∈ t.writes → k ∈ t.tagLocks

namespace Asked

/-- A row that is gone for the transaction is gone, or the transaction has deleted it. -/
theorem get?_view (h : Asked asked s t) {k : Id} (hk : k ∉ t.tagLocks) :
    ((t.view s).tags.get? k).isSome = (s.tables.tags.get? k).isSome :=
  TagTables.tags_writes t.writes k h.noInsert fun hmem => hk (h.deleted k hmem)

/-- The row that a transaction wants comes after all that it has asked for. -/
theorem lt_of_wants (h : Asked asked s t) {k : Id} (hk : k ∈ t.wants s) : ∀ j ∈ t.tagLocks, j < k := by
  obtain ⟨hwants, hfree⟩ := Option.filter_eq_some_iff.mp hk
  obtain ⟨hfree, hthere⟩ := Bool.and_eq_true_iff.mp hfree
  have hfree := of_decide_eq_true hfree
  rw [h.get?_view hfree] at hthere
  have hasks : ∀ {next : TagTx}, AsksFor (fun asked => next.Ascends asked) asked k → ∀ j ∈ t.tagLocks, j < k := by
    rintro next (⟨hmem, -⟩ | ⟨-, hlt, -⟩) j hj
    · rw [h.gone k hmem hfree] at hthere
      cases hthere
    · exact hlt j (h.held.subset hj)
  have hascends := h.ascends
  cases hbody : t.body <;> rw [hbody] at hwants hascends <;> cases hwants
  all_goals exact hasks hascends

/-- A statement that locks no tag. -/
theorem goOn (h : Asked asked s t) {s' : TagStore} {t' : TagTask} (htables : s'.tables = s.tables)
    (hbody : t'.body.Ascends asked) (hlocks : t'.tagLocks = t.tagLocks)
    (hinsert : ∀ tag, .insert tag ∈ t'.writes → .insert tag ∈ t.writes)
    (hdelete : ∀ k, .delete k ∈ t'.writes → .delete k ∈ t.writes) : Asked asked s' t' := by
  refine ⟨hbody, h.sorted, hlocks ▸ h.held, fun k hk hkt => ?_, fun tag hmem => h.noInsert tag (hinsert tag hmem),
    fun k hmem => hlocks ▸ h.deleted k (hdelete k hmem)⟩
  rw [htables]
  exact h.gone k hk (hlocks ▸ hkt)

/-- A row that is gone is asked for, but not locked. -/
theorem skip (h : Asked asked s t) {k : Id} (hasks : AsksFor (fun asked => next.Ascends asked) asked k)
    (hrow : ¬ ((t.view s).tags.get? k).isSome) :
    ∀ t' ∈ (t.goOn s next).next, ∃ asked', Asked asked' (t.goOn s next).store t' := by
  intro t' ht'
  obtain rfl := List.mem_singleton.mp ht'
  rcases hasks with ⟨-, hnext⟩ | ⟨hnew, hlt, hnext⟩
  · exact ⟨asked, h.goOn rfl hnext rfl (fun _ => id) fun _ => id⟩
  · have hfree : k ∉ t.tagLocks := fun hk => hnew (h.held.subset hk)
    rw [h.get?_view hfree, Bool.not_eq_true, Option.isSome_eq_false_iff, Option.isNone_iff_eq_none] at hrow
    refine ⟨asked ++ [k], hnext, ?_, h.held.trans (List.sublist_append_left _ _), fun j hj hjt => ?_, h.noInsert,
      h.deleted⟩
    · exact List.pairwise_append.mpr ⟨h.sorted, List.pairwise_singleton _ _, fun j hj i hi =>
        List.mem_singleton.mp hi ▸ hlt j hj⟩
    · rcases List.mem_append.mp hj with hj | hj
      · exact h.gone j hj hjt
      · exact List.mem_singleton.mp hj ▸ hrow

/-- A row that is there is locked after those that the transaction holds. -/
theorem lockAnd (h : Asked asked s t) {k : Id} {ws : List TagWrite}
    (hasks : AsksFor (fun asked => next.Ascends asked) asked k) (hrow : ((t.view s).tags.get? k).isSome)
    (hinsert : ∀ tag, .insert tag ∉ ws) (hdelete : ∀ j, .delete j ∈ ws → j = k) :
    ∀ t' ∈ (t.lockAnd s (.tag k) ws next).next, ∃ asked', Asked asked' (t.lockAnd s (.tag k) ws next).store t' := by
  have hnoInsert : ∀ tag, .insert tag ∉ t.writes ++ ws := fun tag hmem =>
    (List.mem_append.mp hmem).elim (h.noInsert tag) (hinsert tag)
  unfold TagTask.lockAnd
  split
  -- the row is locked already, it is locked by another transaction, or it is free
  · next hheld =>
    have hk : k ∈ t.tagLocks := TagTask.mem_tagLocks.mpr hheld
    intro t' ht'
    obtain rfl := List.mem_singleton.mp ht'
    rcases hasks with ⟨-, hnext⟩ | ⟨hnew, -⟩
    · refine ⟨asked, hnext, h.sorted, h.held, h.gone, hnoInsert, fun j hmem => ?_⟩
      exact (List.mem_append.mp hmem).elim (h.deleted j) fun hmem => hdelete j hmem ▸ hk
    · exact absurd (h.held.subset hk) hnew
  · next hheld =>
    have hfree : k ∉ t.tagLocks := fun hk => hheld (TagTask.mem_tagLocks.mp hk)
    split
    -- the transaction waits
    · intro t' ht'
      obtain rfl := List.mem_singleton.mp ht'
      exact ⟨asked, h⟩
    · intro t' ht'
      obtain rfl := List.mem_singleton.mp ht'
      rw [h.get?_view hfree] at hrow
      rcases hasks with ⟨hmem, -⟩ | ⟨hnew, hlt, hnext⟩
      · -- what it asked for before was not there, and is not there now
        rw [h.gone k hmem hfree] at hrow
        cases hrow
      · have hlocks : (t.locks ++ [RowLock.tag k]).filterMap RowLock.tag? = t.tagLocks ++ [k] :=
          List.filterMap_append
        refine ⟨asked ++ [k], hnext, ?_, ?_, fun j hj hjt => ?_, hnoInsert, fun j hmem => ?_⟩
        · exact List.pairwise_append.mpr ⟨h.sorted, List.pairwise_singleton _ _, fun j hj i hi =>
            List.mem_singleton.mp hi ▸ hlt j hj⟩
        · show ((t.locks ++ [RowLock.tag k]).filterMap RowLock.tag?).Sublist _
          rw [hlocks]
          exact h.held.append (List.Sublist.refl [k])
        · have hjt : j ∉ (t.locks ++ [RowLock.tag k]).filterMap RowLock.tag? := hjt
          rw [hlocks] at hjt
          rcases List.mem_append.mp hj with hj | hj
          · exact h.gone j hj fun hjt' => hjt (List.mem_append_left _ hjt')
          · exact absurd (List.mem_append_right _ hj) hjt
        · show j ∈ (t.locks ++ [RowLock.tag k]).filterMap RowLock.tag?
          rw [hlocks]
          rcases List.mem_append.mp hmem with hmem | hmem
          · exact List.mem_append_left _ (h.deleted j hmem)
          · exact List.mem_append_right _ (List.mem_singleton.mpr (hdelete j hmem))

/-- A row of another table is locked. -/
theorem lockOther (h : Asked asked s t) {r : RowLock} {ws : List TagWrite} (hr : r.tag? = none)
    (hnext : next.Ascends asked) (hinsert : ∀ tag, .insert tag ∉ ws) (hdelete : ∀ k, .delete k ∉ ws) :
    ∀ t' ∈ (t.lockAnd s r ws next).next, ∃ asked', Asked asked' (t.lockAnd s r ws next).store t' := by
  have hold : ∀ w ∈ t.writes ++ ws, w ∈ t.writes ∨ w ∈ ws := fun w hw => List.mem_append.mp hw
  have hgo : ∀ (s' : TagStore) (t' : TagTask), s'.tables = s.tables → t'.body = next → t'.tagLocks = t.tagLocks →
      t'.writes = t.writes ++ ws → Asked asked s' t' := by
    intro s' t' htables hbody hlocks hwrites
    refine h.goOn htables (hbody ▸ hnext) hlocks (fun tag hmem => ?_) fun k hmem => ?_
    · exact (hold _ (hwrites ▸ hmem)).resolve_right (hinsert tag)
    · exact (hold _ (hwrites ▸ hmem)).resolve_right (hdelete k)
  unfold TagTask.lockAnd
  split
  · intro t' ht'
    obtain rfl := List.mem_singleton.mp ht'
    exact ⟨asked, hgo _ _ rfl rfl rfl rfl⟩
  · split
    · intro t' ht'
      obtain rfl := List.mem_singleton.mp ht'
      exact ⟨asked, h⟩
    · intro t' ht'
      obtain rfl := List.mem_singleton.mp ht'
      refine ⟨asked, hgo _ _ rfl rfl ?_ rfl⟩
      show (t.locks ++ [r]).filterMap RowLock.tag? = t.tagLocks
      rw [List.filterMap_append, List.filterMap_cons_none hr, List.filterMap_nil, List.append_nil]
      rfl

/-- **One statement.** A transaction that inserts no tag goes on in the order of the ids. -/
theorem statement (h : Asked asked s t) (hmay : t.body.inserts = false) :
    ∀ t' ∈ (t.statement s).next, ∃ asked', Asked asked' (t.statement s).store t' := by
  have hascends := h.ascends
  -- a statement that neither locks nor writes
  have hgo : ∀ (s' : TagStore) (t' : TagTask), s'.tables = s.tables → t'.body.Ascends asked →
      t'.tagLocks = t.tagLocks → t'.writes = t.writes → ∀ t'' ∈ [t'], ∃ asked', Asked asked' s' t'' := by
    intro s' t' htables hbody hlocks hwrites t'' ht''
    obtain rfl := List.mem_singleton.mp ht''
    exact ⟨asked, h.goOn htables hbody hlocks (fun _ hmem => hwrites ▸ hmem) fun _ hmem => hwrites ▸ hmem⟩
  have hover : ∀ {s' : TagStore} {t' : TagTask}, t' ∈ ([] : List TagTask) → ∃ asked', Asked asked' s' t' :=
    fun hmem => absurd hmem List.not_mem_nil
  unfold TagTask.statement
  cases hbody : t.body <;> rw [hbody] at hascends hmay <;> dsimp only
  case lockPost id next => exact h.lockOther rfl hascends (fun _ => List.not_mem_nil) fun _ => List.not_mem_nil
  case insertPost next => exact hgo _ _ rfl (hascends _) rfl rfl
  case checkTags ids next =>
    split
    · exact hgo _ _ rfl hascends rfl rfl
    · exact fun _ => hover
  -- what is found is found under the id that was asked for
  case tags ids next =>
    split
    · next found hfound =>
      refine hgo _ _ rfl (hascends found fun tag htag => ?_) rfl rfl
      obtain ⟨rfl, -⟩ := TagTables.activeTags_eq_some hfound
      exact (TagTables.mem_findTags.mp htag).2
    · exact fun _ => hover
  case mergeable a b next =>
    split
    · next source target hfound =>
      obtain ⟨hne, hsource, htarget, -⟩ := TagTables.mergeable_eq_some hfound
      exact hgo _ _ rfl (hascends _ _ hne hsource.2 htarget.2) rfl rfl
    · exact fun _ => hover
  case tagsOf id next => exact hgo _ _ rfl (hascends _) rfl rfl
  case selectLinks k next => exact hgo _ _ rfl (hascends _) rfl rfl
  case deleteLinks k next => exact hgo _ _ rfl (hascends _) rfl rfl
  case countLinks k next => exact hgo _ _ rfl (hascends _) rfl rfl
  case findTag k next =>
    split
    · next tag htag => exact hgo _ _ rfl (hascends tag (Table.get?_eq_some.mp htag).2) rfl rfl
    · exact fun _ => hover
  case load k next => exact hgo _ _ rfl (hascends _ fun tag htag => (Table.get?_eq_some.mp htag).2) rfl rfl
  case lockTag k next =>
    split
    · next hrow => exact h.lockAnd hascends hrow (fun _ => List.not_mem_nil) fun _ hmem => absurd hmem List.not_mem_nil
    · next hrow => exact h.skip hascends hrow
  case count delta k next =>
    split
    · next hrow =>
      exact h.lockAnd hascends hrow (fun _ hmem => (by cases List.mem_singleton.mp hmem))
        fun _ hmem => (by cases List.mem_singleton.mp hmem)
    · next hrow => exact h.skip hascends hrow
  case updateRow read mem next =>
    split
    · next hrow =>
      exact h.lockAnd hascends hrow (fun _ hmem => (by cases List.mem_singleton.mp hmem))
        fun _ hmem => (by cases List.mem_singleton.mp hmem)
    · next hrow => exact h.skip hascends hrow
  -- the condition leaves new tags out
  case insertRow mem next => cases hmay
  case deleteRow k next =>
    split
    · next hrow =>
      exact h.lockAnd hascends hrow (fun _ hmem => (by cases List.mem_singleton.mp hmem))
        fun _ hmem => TagWrite.delete.inj (List.mem_singleton.mp hmem)
    · next hrow => exact h.skip hascends hrow
  -- a link is no tag, and its row is locked outside the order
  case insertLink d k next =>
    split
    · exact hgo _ _ rfl h.ascends rfl rfl
    · split
      · exact fun _ => hover
      · exact h.lockOther rfl hascends (fun _ hmem => (by cases List.mem_singleton.mp hmem))
          fun _ hmem => (by cases List.mem_singleton.mp hmem)
  case addLink d k next =>
    split
    · exact hgo _ _ rfl h.ascends rfl rfl
    · split
      · exact hgo _ _ rfl hascends rfl rfl
      · exact h.lockOther rfl hascends (fun _ hmem => (by cases List.mem_singleton.mp hmem))
          fun _ hmem => (by cases List.mem_singleton.mp hmem)
  case deleteLink d k next =>
    split
    · exact h.lockOther rfl hascends (fun _ hmem => (by cases List.mem_singleton.mp hmem))
        fun _ hmem => (by cases List.mem_singleton.mp hmem)
    · exact hgo _ _ rfl hascends rfl rfl
  case commit => exact fun _ => hover
  case rollback => exact fun _ => hover

/-- Another transaction makes no tag appear. -/
theorem others {t' : TagTask} (h : Asked asked s t) {fails : Bool}
    (hinsert : ∀ tag, .insert tag ∉ t'.writes) : Asked asked (tagTransactions.exec fails s t').store t := by
  refine ⟨h.ascends, h.sorted, h.held, fun k hk hkt => ?_, h.noInsert, h.deleted⟩
  have hgone := h.gone k hk hkt
  rcases (tagStep_exec fails s t').tables with hsame | ⟨-, hview⟩
  · rw [hsame]
    exact hgone
  · rw [hview, ← Option.isNone_iff_eq_none, ← Option.isSome_eq_false_iff, ← Bool.not_eq_true]
    intro hthere
    have hold := TagTables.isSome_of_writes hinsert hthere
    rw [hgone] at hold
    cases hold

end Asked

/-! ## Runs without key locks

The locks that the statements of the source take, without those of the foreign keys. -/

/-- A request that comes in asks for tags in order, and a statement inserts no tag whose row is gone. -/
def AsksInOrder (p : Pool TagStore TagTask) : Act TagRequest Bool → Prop
  | .start r => r.InOrder
  | .run i x => ∀ t ∈ p.running (.run i x : Act TagRequest Bool), t.body.inserts = false

/-- Every transaction has asked for tags in order. -/
def AllAsked (p : Pool TagStore TagTask) : Prop := ∀ a ∈ p.tasks, ∃ asked, Asked asked p.store a.2

/-- One statement keeps what has been asked for. -/
theorem AllAsked.step {p : Pool TagStore TagTask} {act : Act TagRequest Bool} (h : AllAsked p)
    (hact : AsksInOrder p act) : AllAsked (p.step tagTransactions act) := by
  refine Pool.tasks_step (J := fun s t => ∃ asked, Asked asked s t) (fun r he => ?_) (fun i x n t he hi => ?_) h
  · subst he
    refine ⟨[], ascends_statements hact, .nil, List.nil_sublist _, ?_, fun _ => List.not_mem_nil, ?_⟩
    · exact fun _ hmem => absurd hmem List.not_mem_nil
    · exact fun _ hmem => absurd hmem List.not_mem_nil
  · subst he
    obtain ⟨asked, hasked⟩ := h (n, t) (List.mem_of_getElem? hi)
    constructor
    · show ∀ t' ∈ (if x then t.rollback p.store else t.statement p.store).next, ∃ asked',
        Asked asked' (if x then t.rollback p.store else t.statement p.store).store t'
      split
      · exact fun _ hmem => absurd hmem List.not_mem_nil
      · refine hasked.statement (hact t ?_)
        rw [Option.mem_def, Pool.running, hi]
        rfl
    · intro o ho
      obtain ⟨asked', hasked'⟩ := h o ((Pool.perm_eraseIdx hi).mem_iff.mpr (List.mem_cons_of_mem _ ho))
      exact ⟨asked', hasked'.others hasked.noInsert⟩

/-! ## Waiting

A transaction waits for a row in a mode, and for every other one that holds the row in a mode that conflicts with it.
Rows that are written or selected `FOR UPDATE` are asked for in order. The rows whose keys are shared are not, so of two
waits in a row in which one of them has a part the order has to be required. -/

namespace KeyTask

/-- The transaction holds the row in a mode that conflicts with the given one. -/
def Bars (t : KeyTask) (w : Id × RowMode) : Prop :=
  (w.2 = .keyShare ∧ w.1 ∈ t.updates) ∨ (w.2 ≠ .keyShare ∧ w.1 ∈ t.tagLocks) ∨ (w.2 = .update ∧ w.1 ∈ t.shares)

/-- The lock that is waited for, or the one that bars it, is `FOR KEY SHARE`. -/
def BarsByKey (t : KeyTask) (w : Id × RowMode) : Prop := w.2 = .keyShare ∨ (w.2 = .update ∧ w.1 ∈ t.shares)

instance (t : KeyTask) (w : Id × RowMode) : Decidable (t.Bars w) := inferInstanceAs (Decidable (_ ∨ _))

instance (t : KeyTask) (w : Id × RowMode) : Decidable (t.BarsByKey w) := inferInstanceAs (Decidable (_ ∨ _))

/-- A row that is barred by a lock of the source is locked. -/
theorem Bars.mem_tagLocks {t : KeyTask} {w : Id × RowMode} (h : t.Bars w) (hkey : ¬ t.BarsByKey w) :
    w.1 ∈ t.tagLocks := by
  rcases h with ⟨hshare, -⟩ | ⟨-, hheld⟩ | hshared
  · exact absurd (.inl hshare) hkey
  · exact hheld
  · exact absurd (.inr hshared) hkey

/-- All rows that the transaction has locked come before a row that it waits to lock. -/
def Behind (t : KeyTask) : Prop :=
  ∀ w ∈ t.waits, w.2 ≠ .keyShare → w.1 ∉ t.tagLocks → ∀ j ∈ t.tagLocks, j < w.1

/-- A statement that begins to wait asks for a row after those that its transaction has locked. -/
theorem behind_of_begins {s : KeyStore} {t : KeyTask} {asked : List Id} {w : Id × RowMode}
    (h : Asked asked s.toTagStore t.toTagTask) (hbegins : t.begins s = some w) : Behind { t with waits := some w } := by
  intro w' hw' hmode hfree j hj
  obtain rfl := Option.some.inj hw'
  have hasks : t.asks s = some w := (Option.filter_eq_some_iff.mp hbegins).1
  refine h.lt_of_wants ?_ j hj
  unfold asks at hasks
  split at hasks
  · obtain ⟨_, -, rfl⟩ := Option.map_eq_some_iff.mp hasks
    exact absurd rfl hmode
  · obtain ⟨_, -, rfl⟩ := Option.map_eq_some_iff.mp hasks
    exact absurd rfl hmode
  · obtain ⟨k, hk, hrow⟩ := Option.bind_eq_some_iff.mp hasks
    obtain ⟨row, hget, rfl⟩ := Option.map_eq_some_iff.mp hrow
    refine Option.filter_eq_some_iff.mpr ⟨hk, Bool.and_eq_true_iff.mpr ⟨decide_eq_true hfree, ?_⟩⟩
    exact Option.isSome_iff_exists.mpr ⟨row, hget⟩

end KeyTask

/-- One transaction waits for a row of `tags` that another one holds. -/
def TagWaitsFor (ts : List (Nat × KeyTask)) (a b : Nat × KeyTask) : Prop :=
  a ∈ ts ∧ b ∈ ts ∧ a.1 ≠ b.1 ∧ ∃ w ∈ a.2.waits, b.2.Bars w

/-- When one transaction waits for a second one and this for a third, and a lock `FOR KEY SHARE` has a part in one of the
two waits, the second waits for a row after that for which the first waits. -/
def WaitsInOrder (ts : List (Nat × KeyTask)) : Prop :=
  ∀ a ∈ ts, ∀ b ∈ ts, ∀ c ∈ ts, ∀ v ∈ a.2.waits, ∀ w ∈ b.2.waits, a.1 ≠ b.1 → b.1 ≠ c.1 → b.2.Bars v → c.2.Bars w →
    b.2.BarsByKey v ∨ c.2.BarsByKey w → v.1 < w.1

instance : DecidablePred WaitsInOrder := fun ts =>
  inferInstanceAs (Decidable (∀ a ∈ ts, ∀ b ∈ ts, ∀ c ∈ ts, ∀ v ∈ a.2.waits, ∀ w ∈ b.2.waits, a.1 ≠ b.1 → b.1 ≠ c.1 →
    b.2.Bars v → c.2.Bars w → b.2.BarsByKey v ∨ c.2.BarsByKey w → v.1 < w.1))

/-- **No cycle.** Along a chain of waits the rows go up: by the order in which transactions lock rows, and where a key lock
has a part by the order of the waits. -/
theorem not_transGen_tagWaitsFor {ts : List (Nat × KeyTask)} (hbehind : ∀ a ∈ ts, a.2.Behind)
    (hapart : ∀ a ∈ ts, ∀ b ∈ ts, a.1 ≠ b.1 → a.2.tagLocks.Disjoint b.2.tagLocks) (horder : WaitsInOrder ts)
    (a : Nat × KeyTask) : ¬ Relation.TransGen (TagWaitsFor ts) a a := by
  refine not_transGen_of_rank (f := fun a : Nat × KeyTask => (a.2.waits.map Prod.fst).getD 0) ?_ a
  rintro a b c ⟨ha, hb, hab, v, hv, hbars⟩ ⟨-, hc, hbc, w, hw, hbars'⟩
  have hv : a.2.waits = some v := hv
  have hw : b.2.waits = some w := hw
  rw [hv, hw]
  show v.1 < w.1
  by_cases hkey : b.2.BarsByKey v ∨ c.2.BarsByKey w
  · exact horder a ha b hb c hc v hv w hw hab hbc hbars hbars' hkey
  · obtain ⟨hnot, hnot'⟩ := not_or.mp hkey
    have hheld : w.1 ∈ c.2.tagLocks := hbars'.mem_tagLocks hnot'
    refine hbehind b hb w hw (fun hshare => hnot' (.inl hshare)) (fun hown => ?_) v.1 (hbars.mem_tagLocks hnot)
    exact hapart b hb c hc hbc hown hheld

/-! ## Runs

With the key locks. A row is waited for because of a lock that the source takes, or because of one that a foreign key
takes, and the two kinds of waits are ordered together. -/

/-- A request that comes in asks for tags in order. A statement inserts no tag whose row is gone, and when it begins to
wait, the waits are in order. -/
def LocksInOrder (p : Pool KeyStore KeyTask) : Act TagRequest Bool → Prop
  | .start r => r.InOrder
  | .run i fails => ∀ a ∈ p.tasks[i]?, a.2.body.inserts = false
    ∧ (fails = false → ∀ w ∈ a.2.begins p.store,
      WaitsInOrder ((a.1, { a.2 with waits := some w }) :: p.tasks.eraseIdx i))

instance (p : Pool KeyStore KeyTask) : DecidablePred (LocksInOrder p)
  | .start r => inferInstanceAs (Decidable r.InOrder)
  | .run i fails => inferInstanceAs (Decidable (∀ a ∈ p.tasks[i]?, a.2.body.inserts = false
    ∧ (fails = false → ∀ w ∈ a.2.begins p.store,
      WaitsInOrder ((a.1, { a.2 with waits := some w }) :: p.tasks.eraseIdx i))))

/-- Every transaction has locked tags in the order of their ids, and none wait for each other in a cycle. -/
structure TagLocksOrdered (p : Pool KeyStore KeyTask) : Prop where
  ascending : ∀ a ∈ p.tasks, a.2.tagLocks.Pairwise (· < ·)
  acyclic : ∀ a, ¬ Relation.TransGen (TagWaitsFor p.tasks) a a

/-- The pool without key locks. -/
abbrev withoutKeys (p : Pool KeyStore KeyTask) : Pool TagStore TagTask :=
  p.image KeyStore.toTagStore KeyTask.toTagTask

/-- The invariant of the pool. -/
structure KeysOrdered (p : Pool KeyStore KeyTask) : Prop where
  asked : AllAsked (withoutKeys p)
  separate : (withoutKeys p).Separate TagStore.locks TagTask.locks
  behind : ∀ a ∈ p.tasks, a.2.Behind
  acyclic : ∀ a, ¬ Relation.TransGen (TagWaitsFor p.tasks) a a

namespace KeysOrdered

variable {p : Pool KeyStore KeyTask} {act : Act TagRequest Bool}

theorem idle (s : KeyStore) : KeysOrdered (.idle s) := by
  refine ⟨fun _ ha => absurd ha List.not_mem_nil, .idle _, fun _ ha => absurd ha List.not_mem_nil, fun a hcycle => ?_⟩
  obtain ⟨b, ⟨ha, -⟩, -⟩ := Relation.TransGen.head'_iff.mp hcycle
  exact List.not_mem_nil ha

/-- The task at a position, without its key locks. -/
theorem mem_withoutKeys {a : Nat × KeyTask} (ha : a ∈ p.tasks) : (a.1, a.2.toTagTask) ∈ (withoutKeys p).tasks :=
  List.mem_map_of_mem ha

theorem askedOf (h : KeysOrdered p) {a : Nat × KeyTask} (ha : a ∈ p.tasks) :
    ∃ asked, Asked asked p.store.toTagStore a.2.toTagTask := h.asked _ (mem_withoutKeys ha)

/-- The invariant says that no transactions wait for each other. -/
theorem ordered (h : KeysOrdered p) : TagLocksOrdered p := by
  refine ⟨fun a ha => ?_, h.acyclic⟩
  obtain ⟨asked, hasked⟩ := h.askedOf ha
  exact hasked.sorted.sublist hasked.held

/-- Two transactions have locked different rows. -/
theorem apart (h : (withoutKeys p).Separate TagStore.locks TagTask.locks) :
    ∀ a ∈ p.tasks, ∀ b ∈ p.tasks, a.1 ≠ b.1 → a.2.tagLocks.Disjoint b.2.tagLocks := by
  intro a ha b hb hne k hka hkb
  have hpairs : p.tasks.Pairwise fun a b => a.2.locks.Disjoint b.2.locks := (List.pairwise_map (f := Prod.map id KeyTask.toTagTask)).mp h.apart
  let apart := fun a b : Nat × KeyTask => a.1 ≠ b.1 → a.2.locks.Disjoint b.2.locks
  have hkept : p.tasks.Pairwise apart := by
    refine hpairs.imp ?_
    intro a b hab _
    exact hab
  have hflip : p.tasks.Pairwise (flip apart) := by
    refine hpairs.imp ?_
    intro a b hab _
    exact List.disjoint_symm hab
  have hdisjoint : apart a b := hkept.forall_of_forall_of_flip (fun _ _ hself => absurd rfl hself) hflip ha hb
  exact hdisjoint hne (TagTask.mem_tagLocks.mp hka) (TagTask.mem_tagLocks.mp hkb)

/-- **What is without key locks** is kept as `tagTransactions` keeps it. -/
theorem step_withoutKeys (h : KeysOrdered p) (hact : LocksInOrder p act) :
    AllAsked (withoutKeys (p.step keyTransactions act))
      ∧ (withoutKeys (p.step keyTransactions act)).Separate TagStore.locks TagTask.locks := by
  constructor
  · refine keyTransactions_stutters.keeps (P := AllAsked) (fun p q hpq hq a ha => ?_) (fun r he => ?_)
      (fun i x he x' => ?_) h.asked
    · rw [hpq.store]
      exact hq a (hpq.tasks.mem_iff.mp ha)
    · subst he
      have hasks : AsksInOrder (withoutKeys p) (.start r) := hact
      exact h.asked.step hasks
    · subst he
      have hasks : AsksInOrder (withoutKeys p) (.run i x') := by
        intro t ht
        obtain ⟨a, ha, rfl⟩ := Option.map_eq_some_iff.mp ht
        have ha : (p.tasks.map (Prod.map id KeyTask.toTagTask))[i]? = some a := ha
        rw [List.getElem?_map] at ha
        obtain ⟨b, hb, rfl⟩ := Option.map_eq_some_iff.mp ha
        exact (hact b hb).1
      exact h.asked.step hasks
  · refine keyTransactions_stutters.keeps (P := fun p => p.Separate TagStore.locks TagTask.locks)
      (fun p q hpq hq => ⟨fun a ha => ?_, ?_⟩) (fun r _ => separate_step h.separate _)
      (fun i _ _ x' => separate_step h.separate _) h.separate
    · rw [hpq.store]
      exact hq.locked a (hpq.tasks.mem_iff.mp ha)
    · exact (hpq.tasks.pairwise_iff fun hab => List.disjoint_symm hab).mpr hq.apart

/-- A transaction waits for a row behind those that it has. -/
theorem step_behind (h : KeysOrdered p) : ∀ a ∈ (p.step keyTransactions act).tasks, a.2.Behind := by
  have hnone : ∀ {t : KeyTask}, t.waits = none → t.Behind := fun hwaits w hw => by
    rw [hwaits] at hw
    cases hw
  refine Pool.tasks_step (J := fun _ (t : KeyTask) => t.Behind) (fun r _ => hnone rfl) (fun i fails n t _ hi => ?_) h.behind
  constructor
  · have hstep := keyStep_exec fails p.store t
    generalize keyTransactions.exec fails p.store t = e at hstep
    cases hstep with
    | waited w hfails hbegins =>
      intro t' ht'
      obtain rfl := List.mem_singleton.mp ht'
      obtain ⟨asked, hasked⟩ := h.askedOf (List.mem_of_getElem? hi)
      exact KeyTask.behind_of_begins hasked hbegins
    | checked shared =>
      intro t' ht'
      obtain rfl := List.mem_singleton.mp ht'
      exact hnone rfl
    | moved x =>
      intro t' ht'
      obtain ⟨t₁, -, rfl⟩ := List.mem_map.mp ht'
      exact hnone rfl
  · exact fun o ho => h.behind o ((Pool.perm_eraseIdx hi).mem_iff.mpr (List.mem_cons_of_mem _ ho))

/-- A transaction that goes on waits for nothing, so that it is on no cycle. -/
theorem acyclic_of_waiting {p' : Pool KeyStore KeyTask} (h : KeysOrdered p)
    (hold : ∀ a ∈ p'.tasks, a.2.waits ≠ none → a ∈ p.tasks) (a : Nat × KeyTask) :
    ¬ Relation.TransGen (TagWaitsFor p'.tasks) a a := by
  intro hcycle
  refine h.acyclic a (cycle_of_next (fun a b c hab hbc => ?_) hcycle)
  obtain ⟨ha, hb, hne, w, hw, hbars⟩ := hab
  obtain ⟨-, -, -, w', hw', -⟩ := hbc
  refine ⟨hold a ha fun hnone => ?_, hold b hb fun hnone => ?_, hne, w, hw, hbars⟩
  · rw [hnone] at hw
    cases hw
  · rw [hnone] at hw'
    cases hw'

/-- A step closes no cycle of waits. -/
theorem step_acyclic (h : KeysOrdered p) (hact : LocksInOrder p act) (a : Nat × KeyTask) :
    ¬ Relation.TransGen (TagWaitsFor (p.step keyTransactions act).tasks) a a := by
  have hbehind : ∀ a ∈ (p.step keyTransactions act).tasks, a.2.Behind := h.step_behind
  have hseparate := (h.step_withoutKeys hact).2
  cases act with
  | start r =>
    refine h.acyclic_of_waiting (fun a ha hwaits => ?_) a
    rcases List.mem_append.mp ha with ha | ha
    · exact ha
    · rw [List.mem_singleton.mp ha] at hwaits
      exact absurd rfl hwaits
  | run i fails =>
    cases hi : p.tasks[i]? with
    | none =>
      rw [Pool.step_run_none hi]
      exact h.acyclic a
    | some b =>
      obtain ⟨n, t⟩ := b
      have hothers : ∀ o ∈ p.tasks.eraseIdx i, o ∈ p.tasks := fun o ho =>
        (Pool.perm_eraseIdx hi).mem_iff.mpr (List.mem_cons_of_mem _ ho)
      obtain ⟨-, horder⟩ := hact (n, t) hi
      have hgo : (∀ t' ∈ (keyTransactions.exec fails p.store t).next, t'.waits = none) →
          ¬ Relation.TransGen (TagWaitsFor (p.step keyTransactions (.run i fails)).tasks) a a := by
        intro hnone
        rw [Pool.step_run hi]
        refine h.acyclic_of_waiting (fun o ho hwaits => ?_) a
        rcases List.mem_append.mp ho with ho | ho
        · exact hothers o ho
        · obtain ⟨t', ht', rfl⟩ := List.mem_map.mp ho
          exact absurd (hnone t' ht') hwaits
      have hstep := keyStep_exec fails p.store t
      generalize he : keyTransactions.exec fails p.store t = e at hstep hgo
      cases hstep with
      | checked shared =>
        refine hgo fun t' ht' => ?_
        obtain rfl := List.mem_singleton.mp ht'
        rfl
      | moved x =>
        refine hgo fun t' ht' => ?_
        obtain ⟨t₁, -, rfl⟩ := List.mem_map.mp ht'
        rfl
      | waited w hfails hbegins =>
        -- the only step that adds a wait is one that begins it
        refine not_transGen_tagWaitsFor hbehind (apart hseparate) ?_ a
        have hmem : ∀ o ∈ (p.step keyTransactions (.run i fails)).tasks,
            o ∈ (n, { t with waits := some w }) :: p.tasks.eraseIdx i := by
          intro o ho
          rw [Pool.step_run hi, he] at ho
          rcases List.mem_append.mp ho with ho | ho
          · exact List.mem_cons_of_mem _ ho
          · exact List.mem_singleton.mp ho ▸ List.mem_cons_self
        exact fun a ha b hb c hc => horder hfails w hbegins a (hmem a ha) b (hmem b hb) c (hmem c hc)

/-- One statement keeps the order. -/
theorem step (h : KeysOrdered p) (hact : LocksInOrder p act) : KeysOrdered (p.step keyTransactions act) := by
  obtain ⟨hasked, hseparate⟩ := h.step_withoutKeys hact
  exact ⟨hasked, hseparate, h.step_behind, h.step_acyclic hact⟩

end KeysOrdered

namespace Sample

/-- The two tags and another discussion, `1`, that has none. -/
def twoTagKeys : KeyStore := { toTagStore := { twoTags with nextPost := 2 }, updates := [], shares := [] }

/-- A merge and a new post that names the tags of the merge in the other order, statement by statement in turn. -/
def mergeAndPost : List (Act TagRequest Bool) :=
  [.start (.merge (Id.text 3) (Id.text 5)), .start (.create [Id.text 5, Id.text 3])] ++ List.replicate 25 (.run 0 false)

/-- Two merges of the tags `3` and `5` into each other, in turn until both wait. -/
def crossMerges : List (Act TagRequest Bool) :=
  [.start (.merge (Id.text 5) (Id.text 3)), .start (.merge (Id.text 3) (Id.text 5))]
    ++ List.replicate 26 (.run 0 false)

/-- The merge of `3` into `5` and an edit that gives the discussion `1` both tags, in turn until both wait. -/
def mergeAndEdit : List (Act TagRequest Bool) :=
  [.start (.merge (Id.text 3) (Id.text 5)), .start (.update (Id.text 1) [Id.text 3, Id.text 5] false)]
    ++ List.replicate 16 (.run 0 false)

/-- The number of each transaction, what it waits for, and the rows that it has locked and shared. -/
def waitsOf (p : Pool KeyStore KeyTask) : List (Nat × Option (Id × RowMode) × List Id × List Id) :=
  p.tasks.map fun a => (a.1, a.2.waits, a.2.tagLocks, a.2.shares)

end Sample

/-- Two transactions that wait for rows of each other. -/
theorem not_ordered_of_waiting {p : Pool KeyStore KeyTask} {n m : Nat} {v w : Id × RowMode} {locks locks' shares shares' : List Id}
    (h : Sample.waitsOf p = [(n, some v, locks, shares), (m, some w, locks', shares')]) (hne : n ≠ m)
    (hv : v.2 ≠ .keyShare ∧ v.1 ∈ locks' ∨ v.2 = .update ∧ v.1 ∈ shares')
    (hw : w.2 ≠ .keyShare ∧ w.1 ∈ locks ∨ w.2 = .update ∧ w.1 ∈ shares) : ¬ TagLocksOrdered p := by
  intro hordered
  obtain ⟨a, rest, htasks, ha, hrest⟩ := List.map_eq_cons_iff.mp h
  obtain ⟨b, rest, rfl, hb, -⟩ := List.map_eq_cons_iff.mp hrest
  simp only [Prod.mk.injEq] at ha hb
  obtain ⟨rfl, hwaits, rfl, rfl⟩ := ha
  obtain ⟨rfl, hwaits', rfl, rfl⟩ := hb
  have hmem : a ∈ p.tasks := htasks ▸ List.mem_cons_self
  have hmem' : b ∈ p.tasks := htasks ▸ List.mem_cons_of_mem a List.mem_cons_self
  have hab : TagWaitsFor p.tasks a b := ⟨hmem, hmem', hne, v, hwaits, .inr hv⟩
  have hba : TagWaitsFor p.tasks b a := ⟨hmem', hmem, hne.symm, w, hwaits', .inr hw⟩
  exact hordered.acyclic a (.tail (.single hab) hba)

end AcaSocial
