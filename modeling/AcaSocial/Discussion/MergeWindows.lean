import AcaSocial.Discussion.TagTransactions

/-!
# Merges beside transactions that tag

A transaction that gives tags to a discussion checks that they are active, and inserts the links later. A merge deletes
the links of its source that are there when it does so. Neither sees the other before it commits.

* **`NoMergedLinks`** — no discussion is linked to a tag that has been merged.
* **`Clashes`** — a merge deletes links while another transaction has found its source active, or the other way around.
* **`merges_leave_no_links`** — in every interleaving without clashes no link to a merged tag is ever committed.
-/

namespace AcaSocial

variable {s : TagStore} {t o : TagTask} {d k : Id}

namespace TagTables

variable {T : TagTables}

/-- The tag is there and has been merged into another. -/
def Merged (T : TagTables) (k : Id) : Prop := ∃ tag ∈ T.tags.get? k, tag.status = .merged

instance (T : TagTables) : DecidablePred T.Merged := fun k =>
  inferInstanceAs (Decidable (∃ tag ∈ T.tags.get? k, tag.status = .merged))

/-- No discussion is linked to a tag that has been merged. -/
def NoMergedLinks (T : TagTables) : Prop := ∀ l ∈ T.links.rows, ¬ T.Merged l.tagId

instance (T : TagTables) : Decidable T.NoMergedLinks :=
  inferInstanceAs (Decidable (∀ l ∈ T.links.rows, ¬ T.Merged l.tagId))

/-- No post is linked to a merged tag. -/
theorem noMergedLinks_iff : T.NoMergedLinks ↔ ∀ d k, T.linked d k = true → ¬ T.Merged k :=
  ⟨fun h _ _ hl => h _ (linked_iff.mp hl), fun h l hl => h l.discussionId l.tagId (linked_iff.mpr hl)⟩

/-- A tag is merged by a written row only when that row says so. -/
theorem merged_write {w : TagWrite} (h : (T.write w).Merged k) : T.Merged k
    ∨ (∃ read mem, w = .save read mem ∧ mem.id = k ∧ mem.status = .merged)
    ∨ ∃ tag, w = .insert tag ∧ tag.id = k ∧ tag.status = .merged := by
  obtain ⟨row, hrow, hmerged⟩ := h
  rw [Option.mem_def] at hrow
  cases w with
  | link | unlink => exact .inl ⟨row, hrow, hmerged⟩
  | count delta j =>
    rw [get?_write_count] at hrow
    obtain ⟨old, hold, rfl⟩ := Option.map_eq_some_iff.mp hrow
    refine .inl ⟨old, hold, ?_⟩
    unfold Tag.counted at hmerged
    split at hmerged <;> exact hmerged
  -- a saved row writes the status when it differs from what was read
  | save read mem =>
    rw [get?_write_save] at hrow
    obtain ⟨old, hold, rfl⟩ := Option.map_eq_some_iff.mp hrow
    unfold Tag.saved at hmerged
    split at hmerged
    · next hid =>
      dsimp only [Tag.overwrite] at hmerged
      split at hmerged
      · exact .inl ⟨old, hold, hmerged⟩
      · exact .inr (.inl ⟨read, mem, rfl, hid ▸ (Table.get?_eq_some.mp hold).2, hmerged⟩)
    · exact .inl ⟨old, hold, hmerged⟩
  -- a new row does not replace one that is there
  | insert tag =>
    have hrow : (T.tags.insert tag).get? k = some row := hrow
    rw [Table.get?_insert] at hrow
    split at hrow
    · next hid =>
      cases hold : T.tags.get? k with
      | none =>
        rw [hold] at hrow
        obtain rfl := Option.some.inj hrow
        exact .inr (.inr ⟨tag, rfl, hid, hmerged⟩)
      | some old =>
        rw [hold] at hrow
        obtain rfl := Option.some.inj hrow
        exact .inl ⟨old, hold, hmerged⟩
    · exact .inl ⟨row, hrow, hmerged⟩
  | delete j =>
    rw [get?_write_delete] at hrow
    split at hrow
    · cases hrow
    · exact .inl ⟨row, hrow, hmerged⟩

/-- A tag is merged after some writes if it was before, or if one of them merges it. -/
theorem merged_writes {ws : List TagWrite} (h : (ws.foldl write T).Merged k) : T.Merged k
    ∨ (∃ read mem, .save read mem ∈ ws ∧ mem.id = k ∧ mem.status = .merged)
    ∨ ∃ tag, .insert tag ∈ ws ∧ tag.id = k ∧ tag.status = .merged := by
  induction ws generalizing T with
  | nil => exact .inl h
  | cons w ws ih =>
    rcases ih h with hold | ⟨read, mem, hmem, hk⟩ | ⟨tag, hmem, hk⟩
    · rcases merged_write hold with hold | ⟨read, mem, rfl, hk⟩ | ⟨tag, rfl, hk⟩
      · exact .inl hold
      · exact .inr (.inl ⟨read, mem, List.mem_cons_self, hk⟩)
      · exact .inr (.inr ⟨tag, List.mem_cons_self, hk⟩)
    · exact .inr (.inl ⟨read, mem, List.mem_cons_of_mem w hmem, hk⟩)
    · exact .inr (.inr ⟨tag, List.mem_cons_of_mem w hmem, hk⟩)

end TagTables

/-! ## Careful transactions

A transaction is careful when it links posts to tags that it has checked, and merges tags whose links it has read. -/

namespace TagTx

/-- The links that the next statements delete, one after the other. -/
def deletesNext : TagTx → List (Id × Id)
  | .deleteLink d k next => (d, k) :: next.deletesNext
  | _ => []

/-- What is left of a transaction links only tags that it has found active, and turns only tags into merged ones whose
links it has deleted. -/
def Careful (tagged dropped : List Id) : TagTx → Prop
  | .lockPost _ next | .checkTags _ next | .lockTag _ next | .count _ _ next | .deleteLink _ _ next =>
    next.Careful tagged dropped
  | .insertPost next => ∀ d, (next d).Careful tagged dropped
  | .tagsOf _ next | .selectLinks _ next => ∀ ids, (next ids).Careful tagged dropped
  | .deleteLinks k next => k ∉ tagged ∧ ∀ ds, (∀ d ∈ ds, (d, k) ∈ (next ds).deletesNext)
    ∧ (next ds).Careful tagged (k :: dropped)
  | .countLinks _ next => ∀ n, (next n).Careful tagged dropped
  | .findTag _ next => ∀ tag, (next tag).Careful tagged dropped
  | .load _ next => ∀ row, (next row).Careful tagged dropped
  | .updateRow _ mem next | .insertRow mem next =>
    (mem.status = .merged → mem.id ∈ dropped) ∧ next.Careful tagged dropped
  | .insertLink _ k next | .addLink _ k next => k ∈ tagged ∧ next.Careful tagged dropped
  | .tags _ _ | .mergeable _ _ _ | .deleteRow _ _ => False
  | .commit | .rollback => True

/-- A transaction that has not written yet, and is careful once it has checked its tags. -/
def Checks : TagTx → Prop
  | .lockPost _ next | .checkTags _ next => next.Checks
  | .tags _ next => ∀ tags : List Tag, (next tags).Careful (tags.map (·.id)) []
  | .mergeable _ _ next => ∀ source target : Tag, source.id ≠ target.id → target.status = .active →
    (next source target).Careful [target.id] []
  | tx => tx.Careful [] []

variable {tagged dropped : List Id} {next : TagTx}

theorem careful_foldr {α : Type} {f : α → TagTx → TagTx} {l : List α}
    (hf : ∀ a ∈ l, ∀ next : TagTx, next.Careful tagged dropped → (f a next).Careful tagged dropped)
    (h : next.Careful tagged dropped) : (l.foldr f next).Careful tagged dropped := by
  induction l with
  | nil => exact h
  | cons a l ih => exact hf a List.mem_cons_self _ (ih fun b hb => hf b (List.mem_cons_of_mem a hb))

/-- The links of a post are to tags that were checked. -/
theorem careful_saveTags {tagIds : List Id} (htags : ∀ k ∈ tagIds, k ∈ tagged) (h : next.Careful tagged dropped) :
    (saveTags d tagIds next).Careful tagged dropped := by
  intro now
  refine careful_foldr (fun k hk _ h => ⟨htags k (List.mem_filter.mp hk).1, h⟩) ?_
  exact careful_foldr (fun _ _ _ h => h) h

/-- A tag is saved as merged when its links have been read. -/
theorem careful_save {mem : Tag} (hmem : mem.status = .merged → mem.id ∈ dropped)
    (h : next.Careful tagged dropped) : (save mem next).Careful tagged dropped := by
  intro row
  cases row with
  | none => exact ⟨hmem, h⟩
  | some read => exact ⟨hmem, h⟩

/-- The links that were read are deleted. -/
theorem mem_deletesNext_foldr {ds : List Id} (hd : d ∈ ds) :
    (d, k) ∈ (ds.foldr (fun d next => TagTx.deleteLink d k next) next).deletesNext := by
  induction ds with
  | nil => exact absurd hd List.not_mem_nil
  | cons d' ds ih =>
    rcases List.mem_cons.mp hd with rfl | hd
    · exact List.mem_cons_self
    · exact List.mem_cons_of_mem _ (ih hd)

end TagTx

/-- The requests that link tags, change their status or merge them, and the removal of a discussion. -/
def TagRequest.Retags : TagRequest → Prop
  | .updateTag _ _ | .removeTag _ => False
  | _ => True

instance : DecidablePred TagRequest.Retags
  | .updateTag _ _ | .removeTag _ => .isFalse not_false
  | .create _ | .update _ _ _ | .remove _ | .review _ _ | .setStatus _ _ | .merge _ _ => .isTrue trivial

open TagTx

/-- The transactions of the services check before they link. -/
theorem checks_statements {r : TagRequest} (h : r.Retags) : r.statements.Checks := by
  cases r with
  | create tagIds =>
    intro tags d
    exact careful_foldr (fun k hk _ h => ⟨hk, h⟩) (careful_foldr (fun _ _ _ h => h) trivial)
  | update id tagIds waits =>
    show Checks (if waits then _ else _)
    split
    · trivial
    · intro tags old
      refine careful_foldr (fun _ _ _ h => h) (careful_foldr (fun _ _ _ h => h) ?_)
      -- the counters are saved for tags that are locked, with what was read of them
      exact careful_foldr (fun _ _ _ h => h) (careful_saveTags (fun _ hk => hk) trivial)
  | remove id => exact fun old => careful_foldr (fun _ _ _ h => h) trivial
  | review id tagIds =>
    intro tags old
    refine careful_foldr (fun _ _ _ h => h) (careful_foldr (fun u _ next h => ?_)
      (careful_saveTags (fun _ hk => hk) trivial))
    split <;> exact h
  | updateTag | removeTag => exact h.elim
  | setStatus id active =>
    intro tag
    dsimp only
    split
    · trivial
    · refine careful_save (fun hmerged => ?_) trivial
      cases active <;> cases hmerged
  -- the target is locked and not merged before anything points to it
  | merge sourceId targetId =>
    intro source target hne hactive ds
    refine careful_foldr (fun _ _ _ h => ⟨List.mem_singleton_self _, h⟩) ⟨fun hmem => ?_, fun ds => ⟨?_, ?_⟩⟩
    · exact hne (List.mem_singleton.mp hmem)
    · exact fun _ hd => mem_deletesNext_foldr hd
    · refine careful_foldr (fun _ _ _ h => h) (careful_save (fun _ => List.mem_singleton_self _) fun n => ?_)
      exact careful_save (fun hmerged => (by cases hactive.symm.trans hmerged)) trivial

/-! ## Transactions in flight

What a transaction has checked or read, and will rely on. -/

/-- **The invariant of a transaction.** What it links it has found active, and is not merged; what it turns into a
merged tag has no links but those that it deletes. -/
structure Tagging (s : TagStore) (t : TagTask) : Prop where
  active : ∀ k ∈ t.tagged, ¬ s.tables.Merged k
  links : ∀ d k, .link d k ∈ t.writes → k ∈ t.tagged
  saves : ∀ read mem, .save read mem ∈ t.writes → mem.status = .merged → mem.id ∈ t.dropped
  inserts : ∀ tag, .insert tag ∈ t.writes → tag.status = .merged → tag.id ∈ t.dropped
  apart : ∀ k ∈ t.tagged, k ∉ t.dropped
  unlinked : ∀ k ∈ t.dropped, ∀ d, s.tables.linked d k = true →
    .unlink d k ∈ t.writes ∨ (d, k) ∈ t.body.deletesNext

namespace Tagging

/-- A tag that a transaction merges is one whose links it deletes. -/
theorem merged_view (h : Tagging s t) (hmerged : (t.view s).Merged k) : s.tables.Merged k ∨ k ∈ t.dropped := by
  rcases TagTables.merged_writes hmerged with hold | ⟨read, mem, hmem, rfl, hstatus⟩ | ⟨tag, hmem, rfl, hstatus⟩
  · exact .inl hold
  · exact .inr (h.saves read mem hmem hstatus)
  · exact .inr (h.inserts tag hmem hstatus)

/-- A link that a transaction makes is to a tag that it has found active. -/
theorem linked_view (h : Tagging s t) (hlinked : (t.view s).linked d k = true) :
    k ∈ t.tagged ∨ (s.tables.linked d k = true ∧ .unlink d k ∉ t.writes) :=
  (TagTables.linked_writes hlinked).imp (h.links d k) id

/-- **A commit.** It leaves no link to a merged tag. -/
theorem commit (h : Tagging s t) (hinv : s.tables.NoMergedLinks) (hbody : t.body = .commit) :
    (t.view s).NoMergedLinks := by
  refine TagTables.noMergedLinks_iff.mpr fun d k hlinked hmerged => ?_
  rcases h.linked_view hlinked with htagged | ⟨hold, hkept⟩
  · rcases h.merged_view hmerged with hmerged | hdropped
    · exact h.active k htagged hmerged
    · exact h.apart k htagged hdropped
  · rcases h.merged_view hmerged with hmerged | hdropped
    · exact TagTables.noMergedLinks_iff.mp hinv d k hold hmerged
    · rcases h.unlinked k hdropped d hold with hmem | hmem
      · exact hkept hmem
      · rw [hbody] at hmem
        exact absurd hmem List.not_mem_nil

/-- A statement after which a transaction has written some more links to tags that it has found active, or saved tags
whose links it has deleted. -/
theorem goOn (h : Tagging s t) {s' : TagStore} {t' : TagTask} {ws : List TagWrite} (htables : s'.tables = s.tables)
    (htagged : t'.tagged = t.tagged) (hdropped : t'.dropped = t.dropped) (hwrites : t'.writes = t.writes ++ ws)
    (hlinks : ∀ d k, .link d k ∈ ws → k ∈ t.tagged)
    (hsaves : ∀ read mem, .save read mem ∈ ws → mem.status = .merged → mem.id ∈ t.dropped)
    (hinserts : ∀ tag, .insert tag ∈ ws → tag.status = .merged → tag.id ∈ t.dropped)
    (hdeletes : ∀ d k, k ∈ t.dropped → s.tables.linked d k = true → (d, k) ∈ t.body.deletesNext →
      .unlink d k ∈ t.writes ++ ws ∨ (d, k) ∈ t'.body.deletesNext) : Tagging s' t' := by
  constructor
  · rw [htagged, htables]
    exact h.active
  · rw [hwrites, htagged]
    exact fun d k hmem => (List.mem_append.mp hmem).elim (h.links d k) (hlinks d k)
  · rw [hwrites, hdropped]
    exact fun read mem hmem => (List.mem_append.mp hmem).elim (h.saves read mem) (hsaves read mem)
  · rw [hwrites, hdropped]
    exact fun tag hmem => (List.mem_append.mp hmem).elim (h.inserts tag) (hinserts tag)
  · rw [htagged, hdropped]
    exact h.apart
  · rw [hdropped, htables, hwrites]
    intro k hk d hlinked
    rcases h.unlinked k hk d hlinked with hmem | hmem
    · exact .inl (List.mem_append_left ws hmem)
    · exact hdeletes d k hk hlinked hmem

end Tagging

/-- What is left of a transaction is careful, or it has only begun. -/
structure Merging (s : TagStore) (t : TagTask) : Prop where
  holds : Tagging s t
  body : t.body.Careful t.tagged t.dropped
    ∨ (t.body.Checks ∧ t.writes = [] ∧ t.tagged = [] ∧ t.dropped = [])

namespace Merging

open TagTask in
/-- A careful statement that locks a row. -/
theorem lockAnd (h : Tagging s t) {next : TagTx} {r : RowLock} {ws : List TagWrite}
    (hbody : t.body.Careful t.tagged t.dropped) (hnext : next.Careful t.tagged t.dropped)
    (hlinks : ∀ d k, .link d k ∈ ws → k ∈ t.tagged)
    (hsaves : ∀ read mem, .save read mem ∈ ws → mem.status = .merged → mem.id ∈ t.dropped)
    (hinserts : ∀ tag, .insert tag ∈ ws → tag.status = .merged → tag.id ∈ t.dropped)
    (hdeletes : ∀ d k, k ∈ t.dropped → s.tables.linked d k = true → (d, k) ∈ t.body.deletesNext →
      .unlink d k ∈ t.writes ++ ws ∨ (d, k) ∈ next.deletesNext) :
    ∀ t' ∈ (t.lockAnd s r ws next).next, Merging (t.lockAnd s r ws next).store t' := by
  unfold TagTask.lockAnd
  split
  · intro t' ht'
    obtain rfl := List.mem_singleton.mp ht'
    exact ⟨h.goOn rfl rfl rfl rfl hlinks hsaves hinserts hdeletes, .inl hnext⟩
  · split
    · intro t' ht'
      obtain rfl := List.mem_singleton.mp ht'
      exact ⟨h, .inl hbody⟩
    · intro t' ht'
      obtain rfl := List.mem_singleton.mp ht'
      exact ⟨h.goOn rfl rfl rfl rfl hlinks hsaves hinserts hdeletes, .inl hnext⟩

/-- A careful statement that locks nothing and writes nothing. -/
theorem goOn (h : Tagging s t) {s' : TagStore} {t' : TagTask} (htables : s'.tables = s.tables)
    (htagged : t'.tagged = t.tagged) (hdropped : t'.dropped = t.dropped) (hwrites : t'.writes = t.writes)
    (hnext : t'.body.Careful t.tagged t.dropped)
    (hdeletes : ∀ d k, k ∈ t.dropped → s.tables.linked d k = true → (d, k) ∈ t.body.deletesNext →
      .unlink d k ∈ t.writes ∨ (d, k) ∈ t'.body.deletesNext) : ∀ t'' ∈ [t'], Merging s' t'' := by
  intro t'' ht''
  obtain rfl := List.mem_singleton.mp ht''
  refine ⟨h.goOn htables htagged hdropped
    (show t''.writes = t.writes ++ [] from hwrites.trans (List.append_nil _).symm) ?_ ?_ ?_ ?_, .inl ?_⟩
  · exact fun _ _ hmem => absurd hmem List.not_mem_nil
  · exact fun _ _ hmem => absurd hmem List.not_mem_nil
  · exact fun _ hmem => absurd hmem List.not_mem_nil
  · rw [List.append_nil]
    exact hdeletes
  · rw [htagged, hdropped]
    exact hnext

/-- The next statement of a transaction that is careful. -/
theorem careful_statement (h : Tagging s t) (hcareful : t.body.Careful t.tagged t.dropped) :
    ∀ t' ∈ (t.statement s).next, Merging (t.statement s).store t' := by
  have hself := hcareful
  have hover : ∀ {s' : TagStore} {t' : TagTask}, t' ∈ ([] : List TagTask) → Merging s' t' :=
    fun hmem => absurd hmem List.not_mem_nil
  have hnone : ∀ {tx : TagTx} {P : Prop} {d k : Id}, tx.deletesNext = [] → (d, k) ∈ tx.deletesNext → P :=
    fun hnil hmem => absurd (hnil ▸ hmem) List.not_mem_nil
  unfold TagTask.statement
  cases hbody : t.body <;> rw [hbody] at hcareful <;> dsimp only
  case lockPost id next =>
    exact lockAnd h hself hcareful (fun _ _ hmem => absurd hmem List.not_mem_nil)
      (fun _ _ hmem => absurd hmem List.not_mem_nil) (fun _ hmem => absurd hmem List.not_mem_nil)
      fun _ _ _ _ hmem => hnone (hbody ▸ rfl) hmem
  case insertPost next => exact goOn h rfl rfl rfl rfl (hcareful _) fun _ _ _ _ hmem => hnone (hbody ▸ rfl) hmem
  case checkTags ids next =>
    split
    · exact goOn h rfl rfl rfl rfl hcareful fun _ _ _ _ hmem => hnone (hbody ▸ rfl) hmem
    · exact fun _ => hover
  case tags => exact hcareful.elim
  case mergeable => exact hcareful.elim
  case deleteRow => exact hcareful.elim
  case tagsOf id next => exact goOn h rfl rfl rfl rfl (hcareful _) fun _ _ _ _ hmem => hnone (hbody ▸ rfl) hmem
  case selectLinks k next => exact goOn h rfl rfl rfl rfl (hcareful _) fun _ _ _ _ hmem => hnone (hbody ▸ rfl) hmem
  case countLinks k next => exact goOn h rfl rfl rfl rfl (hcareful _) fun _ _ _ _ hmem => hnone (hbody ▸ rfl) hmem
  case findTag k next =>
    split
    · exact goOn h rfl rfl rfl rfl (hcareful _) fun _ _ _ _ hmem => hnone (hbody ▸ rfl) hmem
    · exact fun _ => hover
  case load k next => exact goOn h rfl rfl rfl rfl (hcareful _) fun _ _ _ _ hmem => hnone (hbody ▸ rfl) hmem
  case deleteLinks k next =>
    -- every link that is there is among those that the next statements delete
    obtain ⟨hnot, hnext⟩ := hcareful
    obtain ⟨hdeletes, hnext⟩ := hnext ((t.view s).linkedTo k)
    intro t' ht'
    obtain rfl := List.mem_singleton.mp ht'
    refine ⟨⟨h.active, h.links, ?_, ?_, ?_, ?_⟩, .inl hnext⟩
    · exact fun read mem hmem hmerged => List.mem_cons_of_mem k (h.saves read mem hmem hmerged)
    · exact fun tag hmem hmerged => List.mem_cons_of_mem k (h.inserts tag hmem hmerged)
    · intro j hj hmem
      rcases List.mem_cons.mp hmem with rfl | hmem
      · exact hnot hj
      · exact h.apart j hj hmem
    · intro j hj d hlinked
      rcases List.mem_cons.mp hj with rfl | hj
      · by_cases hdeleted : .unlink d j ∈ t.writes
        · exact .inl hdeleted
        · refine .inr (hdeletes d (TagTables.mem_linkedTo.mpr ?_))
          exact TagTables.linked_writes_of hlinked hdeleted
      · exact .inl ((h.unlinked j hj d hlinked).resolve_right fun hmem => hnone (hbody ▸ rfl) hmem)
  case lockTag k next =>
    split
    · exact lockAnd h hself hcareful (fun _ _ hmem => absurd hmem List.not_mem_nil)
        (fun _ _ hmem => absurd hmem List.not_mem_nil) (fun _ hmem => absurd hmem List.not_mem_nil)
        fun _ _ _ _ hmem => hnone (hbody ▸ rfl) hmem
    · exact goOn h rfl rfl rfl rfl hcareful fun _ _ _ _ hmem => hnone (hbody ▸ rfl) hmem
  case count delta k next =>
    split
    · exact lockAnd h hself hcareful (fun _ _ hmem => (by cases List.mem_singleton.mp hmem))
        (fun _ _ hmem => (by cases List.mem_singleton.mp hmem)) (fun _ hmem => (by cases List.mem_singleton.mp hmem))
        fun _ _ _ _ hmem => hnone (hbody ▸ rfl) hmem
    · exact goOn h rfl rfl rfl rfl hcareful fun _ _ _ _ hmem => hnone (hbody ▸ rfl) hmem
  case updateRow read mem next =>
    split
    · refine lockAnd h hself hcareful.2 (fun _ _ hmem => (by cases List.mem_singleton.mp hmem)) (fun _ _ hmem => ?_)
        (fun _ hmem => (by cases List.mem_singleton.mp hmem)) fun _ _ _ _ hmem => hnone (hbody ▸ rfl) hmem
      obtain ⟨rfl, rfl⟩ := TagWrite.save.inj (List.mem_singleton.mp hmem)
      exact hcareful.1
    · exact goOn h rfl rfl rfl rfl hcareful.2 fun _ _ _ _ hmem => hnone (hbody ▸ rfl) hmem
  case insertRow mem next =>
    intro t' ht'
    obtain rfl := List.mem_singleton.mp ht'
    refine ⟨h.goOn rfl rfl rfl rfl (fun _ _ hmem => (by cases List.mem_singleton.mp hmem))
      (fun _ _ hmem => (by cases List.mem_singleton.mp hmem)) (fun tag hmem => ?_)
      fun _ _ _ _ hmem => hnone (hbody ▸ rfl) hmem, .inl hcareful.2⟩
    obtain rfl := TagWrite.insert.inj (List.mem_singleton.mp hmem)
    exact hcareful.1
  case insertLink d k next =>
    split
    · exact goOn h rfl rfl rfl rfl hself fun _ _ _ _ hmem => hnone (hbody ▸ rfl) hmem
    · split
      · exact fun _ => hover
      · refine lockAnd h hself hcareful.2 (fun _ _ hmem => ?_) (fun _ _ hmem => (by cases List.mem_singleton.mp hmem))
          (fun _ hmem => (by cases List.mem_singleton.mp hmem)) fun _ _ _ _ hmem => hnone (hbody ▸ rfl) hmem
        obtain ⟨-, rfl⟩ := TagWrite.link.inj (List.mem_singleton.mp hmem)
        exact hcareful.1
  case addLink d k next =>
    split
    · exact goOn h rfl rfl rfl rfl hself fun _ _ _ _ hmem => hnone (hbody ▸ rfl) hmem
    · split
      · exact goOn h rfl rfl rfl rfl hcareful.2 fun _ _ _ _ hmem => hnone (hbody ▸ rfl) hmem
      · refine lockAnd h hself hcareful.2 (fun _ _ hmem => ?_) (fun _ _ hmem => (by cases List.mem_singleton.mp hmem))
          (fun _ hmem => (by cases List.mem_singleton.mp hmem)) fun _ _ _ _ hmem => hnone (hbody ▸ rfl) hmem
        obtain ⟨-, rfl⟩ := TagWrite.link.inj (List.mem_singleton.mp hmem)
        exact hcareful.1
  case deleteLink d k next =>
    split
    · refine lockAnd h hself hcareful (fun _ _ hmem => (by cases List.mem_singleton.mp hmem))
        (fun _ _ hmem => (by cases List.mem_singleton.mp hmem)) (fun _ hmem => (by cases List.mem_singleton.mp hmem))
        fun d' k' _ _ hmem => ?_
      rw [hbody] at hmem
      rcases List.mem_cons.mp hmem with he | hmem
      · obtain ⟨rfl, rfl⟩ := Prod.mk.inj he
        exact .inl (List.mem_append_right _ (List.mem_singleton_self _))
      · exact .inr hmem
    · next hgone =>
      refine goOn h rfl rfl rfl rfl hcareful fun d' k' _ hlinked hmem => ?_
      rw [hbody] at hmem
      rcases List.mem_cons.mp hmem with he | hmem
      · obtain ⟨rfl, rfl⟩ := Prod.mk.inj he
        -- the link is there, so the transaction has deleted it already
        refine .inl (Classical.byContradiction fun hkept => hgone ?_)
        exact TagTables.linked_writes_of hlinked hkept
      · exact .inr hmem
  case commit => exact fun _ => hover
  case rollback => exact fun _ => hover

/-- The next statement of a transaction. -/
theorem statement (h : Merging s t) : ∀ t' ∈ (t.statement s).next, Merging (t.statement s).store t' := by
  -- past its checks, or still before them and without a write of its own
  rcases h.body with hcareful | ⟨hchecks, hwrites, htagged, hdropped⟩
  · exact careful_statement h.holds hcareful
  · have hempty : ∀ (s' : TagStore) (t' : TagTask), t'.writes = [] → t'.dropped = [] →
        (∀ k ∈ t'.tagged, ¬ s'.tables.Merged k) → Tagging s' t' := by
      intro s' t' hwrites hdropped hactive
      refine ⟨hactive, ?_, ?_, ?_, ?_, ?_⟩
      · exact fun _ _ hmem => absurd (hwrites ▸ hmem) List.not_mem_nil
      · exact fun _ _ hmem => absurd (hwrites ▸ hmem) List.not_mem_nil
      · exact fun _ hmem => absurd (hwrites ▸ hmem) List.not_mem_nil
      · exact fun _ _ hmem => absurd (hdropped ▸ hmem) List.not_mem_nil
      · exact fun _ hmem => absurd (hdropped ▸ hmem) List.not_mem_nil
    have hnobody : ∀ {s' : TagStore} {t' : TagTask}, t'.tagged = [] → ∀ k ∈ t'.tagged, ¬ s'.tables.Merged k :=
      fun hnil k hmem => absurd (hnil ▸ hmem) List.not_mem_nil
    have hbegun : ∀ (s' : TagStore) (t' : TagTask), t'.body.Checks → t'.writes = [] → t'.tagged = [] →
        t'.dropped = [] → Merging s' t' := fun s' t' hchecks hwrites htagged hdropped =>
      ⟨hempty s' t' hwrites hdropped (hnobody htagged), .inr ⟨hchecks, hwrites, htagged, hdropped⟩⟩
    have hover : ∀ {s' : TagStore} {t' : TagTask}, t' ∈ ([] : List TagTask) → Merging s' t' :=
      fun hmem => absurd hmem List.not_mem_nil
    have hview : t.view s = s.tables := by
      rw [TagTask.view, hwrites]
      rfl
    cases hbody : t.body
    case lockPost id next =>
      have hnext : next.Checks := by rwa [hbody] at hchecks
      unfold TagTask.statement
      rw [hbody]
      show ∀ t' ∈ (t.lockAnd s (.post id) [] next).next, Merging (t.lockAnd s (.post id) [] next).store t'
      have hnil : t.writes ++ [] = [] := by rw [hwrites, List.append_nil]
      unfold TagTask.lockAnd
      split
      · intro t' ht'
        obtain rfl := List.mem_singleton.mp ht'
        exact hbegun _ _ hnext hnil htagged hdropped
      · split
        · intro t' ht'
          obtain rfl := List.mem_singleton.mp ht'
          exact h
        · intro t' ht'
          obtain rfl := List.mem_singleton.mp ht'
          exact hbegun _ _ hnext hnil htagged hdropped
    case checkTags ids next =>
      have hnext : next.Checks := by rwa [hbody] at hchecks
      unfold TagTask.statement
      rw [hbody]
      dsimp only
      split
      · exact fun t' ht' => List.mem_singleton.mp ht' ▸ hbegun _ _ hnext hwrites htagged hdropped
      · exact fun _ => hover
    -- the tags that are found are active, and are held from here on
    case tags ids next =>
      rw [hbody] at hchecks
      unfold TagTask.statement
      rw [hbody]
      dsimp only
      split
      · next found hfound =>
        intro t' ht'
        obtain rfl := List.mem_singleton.mp ht'
        obtain ⟨rfl, -, hactive⟩ := TagTables.activeTags_eq_some hfound
        refine ⟨hempty _ _ hwrites hdropped fun k hk => ?_, .inl ?_⟩
        · rw [htagged, List.append_nil] at hk
          obtain ⟨tag, htag, rfl⟩ := List.mem_map.mp hk
          rintro ⟨row, hrow, hmerged⟩
          have hthere := Table.get?_key (TagTables.mem_findTags.mp htag).1
          rw [hview] at hthere
          obtain rfl := Option.some.inj (hthere.symm.trans hrow)
          cases (hactive tag htag).symm.trans hmerged
        · rw [htagged, hdropped, List.append_nil]
          exact hchecks _
      · exact fun _ => hover
    -- the target is active, and is held from here on
    case mergeable a b next =>
      rw [hbody] at hchecks
      unfold TagTask.statement
      rw [hbody]
      dsimp only
      split
      · next source target hfound =>
        intro t' ht'
        obtain rfl := List.mem_singleton.mp ht'
        obtain ⟨hne, hsource, htarget, -, hactive⟩ := TagTables.mergeable_eq_some hfound
        have hids : source.id ≠ target.id := fun he => hne (hsource.2.symm.trans ((congrArg Id.text he).trans htarget.2))
        refine ⟨hempty _ _ hwrites hdropped fun k hk => ?_, .inl ?_⟩
        · rw [htagged] at hk
          obtain rfl := List.mem_singleton.mp hk
          rintro ⟨row, hrow, hmerged⟩
          have hthere := Table.get?_key htarget.1
          rw [hview] at hthere
          obtain rfl := Option.some.inj (hthere.symm.trans hrow)
          cases hactive.symm.trans hmerged
        · rw [htagged, hdropped]
          exact hchecks source target hids hactive
      · exact fun _ => hover
    all_goals
      refine careful_statement h.holds ?_
      rw [htagged, hdropped, hbody]
      rw [hbody] at hchecks
      exact hchecks

/-- Another transaction leaves what a transaction has found and deleted, when the two are about different tags. -/
theorem others (h : Merging s t) {fails : Bool} (ho : Merging s o) (htagged : ∀ k ∈ t.tagged, k ∉ o.dropped)
    (hdropped : ∀ k ∈ t.dropped, k ∉ o.tagged) : Merging (tagTransactions.exec fails s o).store t := by
  refine ⟨⟨fun k hk => ?_, h.holds.links, h.holds.saves, h.holds.inserts, h.holds.apart, fun k hk d hlinked => ?_⟩,
    h.body⟩
  · intro hmerged
    rcases (tagStep_exec fails s o).tables with hsame | ⟨-, hview⟩
    · exact h.holds.active k hk (hsame ▸ hmerged)
    · rw [hview] at hmerged
      exact (ho.holds.merged_view hmerged).elim (h.holds.active k hk) (htagged k hk)
  · rcases (tagStep_exec fails s o).tables with hsame | ⟨-, hview⟩
    · exact h.holds.unlinked k hk d (hsame ▸ hlinked)
    · rw [hview] at hlinked
      rcases ho.holds.linked_view hlinked with hmem | ⟨hold, -⟩
      · exact absurd hmem (hdropped k hk)
      · exact h.holds.unlinked k hk d hold

end Merging

/-! ## Windows that do not overlap

A merge and a call that links the merged tag must not run between the check and the write of the other. -/

/-- The next statement of a transaction begins to delete the links of a tag that another transaction in flight has found
active, or finds a tag active whose links another one has begun to delete. -/
def Clashes (fails : Bool) (_ : TagStore) (t o : TagTask) : Prop :=
  fails = false ∧ ((∃ k ∈ t.body.drops, k ∈ o.tagged) ∨ ∃ k ∈ t.body.checks, k ∈ o.dropped)

instance (fails : Bool) (s : TagStore) (t o : TagTask) : Decidable (Clashes fails s t o) :=
  inferInstanceAs (Decidable (_ ∧ ((∃ k ∈ t.body.drops, k ∈ o.tagged) ∨ ∃ k ∈ t.body.checks, k ∈ o.dropped)))

/-- No tag that one transaction links is one whose links the other deletes. -/
def ApartFrom (t o : TagTask) : Prop := (∀ k ∈ t.tagged, k ∉ o.dropped) ∧ ∀ k ∈ t.dropped, k ∉ o.tagged

/-- The condition is the same for both transactions. -/
theorem ApartFrom.symm (h : ApartFrom t o) : ApartFrom o t :=
  ⟨fun k hk hkt => h.2 k hkt hk, fun k hk hkt => h.1 k hkt hk⟩

/-- Requests that are not about the tags themselves but for their status and merges, and statements apart. -/
def WindowsApart (p : Pool TagStore TagTask) (act : Act TagRequest Bool) : Prop :=
  (∀ r, act = .start r → r.Retags) ∧ p.Apart Clashes act

instance (p : Pool TagStore TagTask) : DecidablePred (WindowsApart p)
  | .start r => decidable_of_iff r.Retags
    ⟨fun h => ⟨fun _ he => Act.start.inj he ▸ h, trivial⟩, fun h => h.1 r rfl⟩
  | .run i x => decidable_of_iff (p.Apart Clashes (.run i x : Act TagRequest Bool))
    ⟨fun h => ⟨fun _ he => (nomatch he), h⟩, fun h => h.2⟩

/-- The invariant of the pool. -/
structure WindowsKept (p : Pool TagStore TagTask) : Prop where
  links : p.store.tables.NoMergedLinks
  tasks : ∀ a ∈ p.tasks, Merging p.store a.2
  apart : p.tasks.Pairwise fun a b => ApartFrom a.2 b.2

/-- One statement of one transaction keeps the invariant. -/
theorem WindowsKept.step {p : Pool TagStore TagTask} {act : Act TagRequest Bool} (h : WindowsKept p)
    (hact : WindowsApart p act) : WindowsKept (p.step tagTransactions act) := by
  obtain ⟨hretags, hapart⟩ := hact
  constructor
  · cases act with
    | start r => exact h.links
    | run i x =>
      cases hi : p.tasks[i]? with
      | none =>
        rw [Pool.step_run_none hi]
        exact h.links
      | some a =>
        rw [Pool.step_run hi]
        show (tagTransactions.exec x p.store a.2).store.tables.NoMergedLinks
        rcases (tagStep_exec x p.store a.2).tables with hsame | ⟨hbody, hview⟩
        · rw [hsame]
          exact h.links
        · rw [hview]
          exact (h.tasks a (List.mem_of_getElem? hi)).holds.commit h.links hbody
  -- every transaction knows what it needs, also after a step of another one
  · refine Pool.tasks_step (J := Merging) (fun r he => ?_) (fun i x n t he hi => ?_) h.tasks
    · have hnil : ∀ {w : TagWrite}, w ∉ ([] : List TagWrite) := List.not_mem_nil
      refine ⟨⟨?_, ?_, ?_, ?_, ?_, ?_⟩, .inr ⟨checks_statements (hretags r he), rfl, rfl, rfl⟩⟩
      · exact fun _ hmem => absurd hmem List.not_mem_nil
      · exact fun _ _ hmem => absurd hmem hnil
      · exact fun _ _ hmem => absurd hmem hnil
      · exact fun _ hmem => absurd hmem hnil
      · exact fun _ hmem => absurd hmem List.not_mem_nil
      · exact fun _ hmem => absurd hmem List.not_mem_nil
    · subst he
      have ht : Merging p.store t := h.tasks (n, t) (List.mem_of_getElem? hi)
      constructor
      · show ∀ t' ∈ (if x then t.rollback p.store else t.statement p.store).next,
          Merging (if x then t.rollback p.store else t.statement p.store).store t'
        split
        · exact fun _ hmem => absurd hmem List.not_mem_nil
        · exact ht.statement
      · intro o ho
        have hother := (Pool.pairwise_others (fun _ _ => ApartFrom.symm) h.apart hi).1 o ho
        have hmem : o ∈ p.tasks := (Pool.perm_eraseIdx hi).mem_iff.mpr (List.mem_cons_of_mem _ ho)
        exact (h.tasks o hmem).others ht hother.symm.1 hother.symm.2
  -- the windows of two transactions stay apart
  · refine Pool.pairwise_step (P := ApartFrom) (fun _ _ => ApartFrom.symm) (fun r _ a _ => ?_) (fun i x n t he hi => ?_)
      h.apart
    · exact ⟨fun _ _ hmem => absurd hmem List.not_mem_nil, fun _ _ hmem => absurd hmem List.not_mem_nil⟩
    · subst he
      constructor
      · exact (tagStep_exec x p.store t).pairwise_next
      · intro o ho hto t' ht'
        obtain ⟨htagged, hdropped⟩ := (tagStep_exec x p.store t).marks t' ht'
        have hnot := hapart n t hi o ho
        have hgoes : x = false := by
          cases x with
          | true => exact absurd ht' List.not_mem_nil
          | false => rfl
        constructor
        · intro k hk hkt
          rcases hdropped k hkt with hkt | hdrops
          · exact hto.2 k hkt hk
          · exact hnot ⟨hgoes, .inl ⟨k, hdrops, hk⟩⟩
        · intro k hk hkt
          rcases htagged k hkt with hkt | hchecks
          · exact hto.1 k hkt hk
          · exact hnot ⟨hgoes, .inr ⟨k, hchecks, hk⟩⟩

/-- **Merges and tagging.** From tables without links to merged tags, in every interleaving of transactions in which no
merge begins to delete links to a tag that another transaction in flight has found active, and no transaction finds a
tag active whose links a merge in flight has begun to delete, no state has a link to a merged tag. -/
theorem merges_leave_no_links (s : TagStore) (h : s.tables.NoMergedLinks) (acts : List (Act TagRequest Bool))
    (hacts : Meets (Pool.step tagTransactions) WindowsApart (.idle s) acts) :
    Always (Pool.step tagTransactions) (fun p => p.store.tables.NoMergedLinks) (.idle s) acts := by
  have hidle : WindowsKept (.idle s) := ⟨h, fun _ ha => absurd ha List.not_mem_nil, .nil⟩
  exact (always_of_meets (fun _ _ _ hp hact => WindowsKept.step hp hact) hidle hacts).imp fun _ hp => hp.links

/-! ## Samples

A merge beside a new post, in an order in which both may run. -/

namespace Sample

/-- A new post finds the tag `3` active, the tag is merged, and the post is linked to it. -/
def mergeAmidPost : List (Act TagRequest Bool) :=
  [.start (.create [Id.text 3]), .run 0 false, .start (.merge (Id.text 3) (Id.text 5))]
    ++ List.replicate 11 (.run 1 false) ++ List.replicate 6 (.run 0 false)

/-- A new post beside a merge of another tag into the one that it names. -/
def mergeBesidePost : List (Act TagRequest Bool) :=
  [.start (.create [Id.text 5]), .start (.merge (Id.text 3) (Id.text 5))] ++ List.replicate 20 (.run 0 false)

end Sample

theorem merges_leave_no_links_mergeBesidePost :
    Always (Pool.step tagTransactions) (fun p => p.store.tables.NoMergedLinks) (.idle Sample.twoTags)
      Sample.mergeBesidePost :=
  merges_leave_no_links Sample.twoTags (by decide) Sample.mergeBesidePost (by decide)

/-- All transactions have ended, and the new post is linked to a merged tag. -/
theorem not_merges_leave_no_links :
    Sample.twoTags.tables.NoMergedLinks
      ∧ (run (Pool.step tagTransactions) (.idle Sample.twoTags) Sample.mergeAmidPost).tasks.isEmpty
      ∧ ¬ (run (Pool.step tagTransactions) (.idle Sample.twoTags) Sample.mergeAmidPost).store.tables.NoMergedLinks := by
  decide

end AcaSocial
