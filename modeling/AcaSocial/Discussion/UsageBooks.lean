import AcaSocial.Discussion.TagTransactions

/-!
# What a transaction owes to usage counts

The counter `usage_count` of a tag is moved by relative updates, set by a merge to a count of its links, and rewritten by
`save` when the entity that is saved was read before the row has changed. Other transactions commit in between.

* **`TagTables.Exact`** — the usage count of every tag is the number of its links.
* **`TagTask.Relies`** — what a transaction relies on about the commits of others: the rows that it has locked, and those
  that it has read and not locked, stay as they are.
* **`Books`** — what a transaction in flight owes: by how much the counts that it sees lag behind the links that it sees.
* **`Safe`** — a transaction that leaves the counts exact when it commits, whatever others commit within what it relies
  on. One rule for each kind of statement.
-/

namespace AcaSocial

variable {s s' : TagStore} {t t' o : TagTask} {d k : Id}

/-! ## Counts and links of a tag

The counter of a tag is exact when it is the number of the posts that are linked to it. -/

/-- What a written row changes. A link is part of its discussion and of its tag. -/
def TagWrite.Touches : TagWrite → RowLock → Prop
  | .link d k, r | .unlink d k, r => r = .link d k ∨ r = .post d ∨ r = .tag k
  | .count _ k, r | .delete k, r => r = .tag k
  | .save read mem, r => r = .tag mem.id ∧ mem.usageCount ≠ read.usageCount
  | .insert tag, r => r = .tag tag.id

instance (w : TagWrite) : DecidablePred w.Touches := fun r =>
  match w with
  | .link d k | .unlink d k => inferInstanceAs (Decidable (r = .link d k ∨ r = .post d ∨ r = .tag k))
  | .count _ k | .delete k => inferInstanceAs (Decidable (r = .tag k))
  | .save read mem => inferInstanceAs (Decidable (r = .tag mem.id ∧ mem.usageCount ≠ read.usageCount))
  | .insert tag => inferInstanceAs (Decidable (r = .tag tag.id))

/-- The written row is no new tag and no deleted one. -/
def TagWrite.Keeps : TagWrite → Prop
  | .insert _ | .delete _ => False
  | _ => True

/-- The usage count of the tag `k` after a written row. -/
def TagWrite.usage (k : Id) : TagWrite → Option Int → Option Int
  | .link _ _, n | .unlink _ _, n => n
  | .count delta j, n => if j = k then n.map fun n => max (n + delta) 0 else n
  | .save read mem, n => if mem.id = k ∧ mem.usageCount ≠ read.usageCount then n.map fun _ => mem.usageCount else n
  | .insert tag, n => if tag.id = k then some (n.getD tag.usageCount) else n
  | .delete j, n => if j = k then none else n

namespace TagTables

variable {T T' : TagTables} {w : TagWrite} {ws : List TagWrite}

/-- The usage count of a tag that is there. -/
def usage (T : TagTables) (k : Id) : Option Int := (T.tags.get? k).map (·.usageCount)

/-- The number of its links. -/
def uses (T : TagTables) (k : Id) : Nat := (T.linkedTo k).length

/-- The usage count of every tag is the number of its links. -/
def Exact (T : TagTables) : Prop := ∀ tag ∈ T.tags.rows, tag.usageCount = T.uses tag.id

instance (T : TagTables) : Decidable T.Exact :=
  inferInstanceAs (Decidable (∀ tag ∈ T.tags.rows, tag.usageCount = T.uses tag.id))

theorem exact_iff : T.Exact ↔ ∀ k, ∀ n ∈ T.usage k, n = T.uses k := by
  constructor
  · intro h k n hn
    obtain ⟨tag, htag, rfl⟩ := Option.map_eq_some_iff.mp hn
    obtain ⟨hmem, rfl⟩ := Table.get?_eq_some.mp htag
    exact h tag hmem
  · intro h tag hmem
    exact h tag.id tag.usageCount (Option.map_eq_some_iff.mpr ⟨tag, Table.get?_key hmem, rfl⟩)

/-- What a written row makes of a usage count. -/
theorem usage_write (w : TagWrite) (k : Id) : (T.write w).usage k = w.usage k (T.usage k) := by
  unfold usage TagWrite.usage
  cases w with
  | link | unlink => rfl
  | count delta j =>
    rw [get?_write_count, Option.map_map]
    dsimp only
    cases hrow : T.tags.get? k with
    | none => simp
    | some row =>
      obtain ⟨-, rfl⟩ := Table.get?_eq_some.mp hrow
      simp only [Option.map_some, Function.comp_apply, Tag.counted]
      by_cases hj : row.id = j
      · rw [if_pos hj, if_pos hj.symm]
      · rw [if_neg hj, if_neg (Ne.symm hj)]
  | save read mem =>
    rw [get?_write_save, Option.map_map]
    dsimp only
    cases hrow : T.tags.get? k with
    | none => simp
    | some row =>
      obtain ⟨-, rfl⟩ := Table.get?_eq_some.mp hrow
      simp only [Option.map_some, Function.comp_apply, Tag.saved, Tag.overwrite]
      -- `save` writes the count of the row that it names, and only if it differs from what was read
      by_cases hid : row.id = mem.id
      · by_cases hsame : mem.usageCount = read.usageCount
        · simp only [hid, hsame, if_true, ne_eq, not_true_eq_false, and_false, if_false]
        · simp only [hid, hsame, if_true, if_false, ne_eq, not_false_eq_true, and_self]
      · rw [if_neg hid, if_neg fun h => hid h.1.symm]
  | insert tag =>
    show ((T.tags.insert tag).get? k).map _ = _
    rw [Table.get?_insert]
    dsimp only
    split
    · cases T.tags.get? k <;> rfl
    · rfl
  | delete j =>
    rw [get?_write_delete]
    dsimp only
    split <;> rfl

/-- A row that does not touch a tag leaves its count alone. -/
theorem usage_write_of_not (h : ¬ w.Touches (.tag k)) : (T.write w).usage k = T.usage k := by
  rw [usage_write]
  unfold TagWrite.usage
  unfold TagWrite.Touches at h
  cases w with
  | link | unlink => rfl
  | count delta j => exact if_neg fun hj => h (congrArg _ hj.symm)
  | save read mem => exact if_neg fun hj => h ⟨congrArg _ hj.1.symm, hj.2⟩
  | insert tag => exact if_neg fun hj => h (congrArg _ hj.symm)
  | delete j => exact if_neg fun hj => h (congrArg _ hj.symm)

/-- Tags neither come nor go. -/
theorem isSome_usage_writes (h : ∀ w ∈ ws, w.Keeps) : ((ws.foldl write T).usage k).isSome = (T.usage k).isSome := by
  induction ws generalizing T with
  | nil => rfl
  | cons w ws ih =>
    refine (ih fun w hw => h w (List.mem_cons_of_mem _ hw)).trans ?_
    rw [usage_write]
    have hkeeps := h w List.mem_cons_self
    unfold TagWrite.usage
    cases w with
    | link | unlink => rfl
    | count | save =>
      dsimp only
      split
      · exact Option.isSome_map
      · rfl
    | insert | delete => exact hkeeps.elim

/-! ### Numbers of links

A link that is written changes the number of one tag by one, or changes nothing. -/

theorem nodup_linkedTo : (T.linkedTo k).Nodup := by
  unfold linkedTo Table.select
  refine (List.nodup_map_iff_inj_on ?_).mpr fun l hl l' hl' he => ?_
  · exact T.links.nodup.of_map.filter _
  · have hk : l.tagId = l'.tagId := (of_decide_eq_true (List.mem_filter.mp hl).2).trans
      (of_decide_eq_true (List.mem_filter.mp hl').2).symm
    cases l
    cases l'
    exact congrArg₂ DiscussionTag.mk he hk

/-- Tables with the same links of a tag have as many of them. -/
theorem uses_congr (h : ∀ d, T'.linked d k = T.linked d k) : T'.uses k = T.uses k := by
  refine List.Perm.length_eq ((List.perm_ext_iff_of_nodup nodup_linkedTo nodup_linkedTo).mpr fun d => ?_)
  rw [mem_linkedTo, mem_linkedTo, h]

theorem nodup_tagIdsOf : (T.tagIdsOf d).Nodup := by
  unfold tagIdsOf Table.select
  refine (List.nodup_map_iff_inj_on ?_).mpr fun l hl l' hl' he => ?_
  · exact T.links.nodup.of_map.filter _
  · have hd : l.discussionId = l'.discussionId := (of_decide_eq_true (List.mem_filter.mp hl).2).trans
      (of_decide_eq_true (List.mem_filter.mp hl').2).symm
    cases l
    cases l'
    exact congrArg₂ DiscussionTag.mk hd he

/-- A new link is one more. -/
theorem uses_write_link (h : ¬ T.linked d k = true) : (T.write (.link d k)).uses k = T.uses k + 1 := by
  have hmem : d ∉ T.linkedTo k := fun hd => h (mem_linkedTo.mp hd)
  refine List.Perm.length_eq
    ((List.perm_ext_iff_of_nodup nodup_linkedTo (nodup_linkedTo.cons hmem)).mpr fun d' => ?_)
  rw [mem_linkedTo, linked_write_link, List.mem_cons, mem_linkedTo]
  exact or_congr_left ⟨fun he => he.1.symm, fun he => ⟨he.symm, rfl⟩⟩

/-- A link that is deleted is one less. -/
theorem uses_write_unlink (h : T.linked d k = true) : (T.write (.unlink d k)).uses k + 1 = T.uses k := by
  have hmem : d ∉ (T.write (.unlink d k)).linkedTo k :=
    fun hd => ((linked_write_unlink d k d k).mp (mem_linkedTo.mp hd)).2 ⟨rfl, rfl⟩
  show (d :: (T.write (.unlink d k)).linkedTo k).length = (T.linkedTo k).length
  refine List.Perm.length_eq
    ((List.perm_ext_iff_of_nodup (nodup_linkedTo.cons hmem) nodup_linkedTo).mpr fun d' => ?_)
  rw [List.mem_cons, mem_linkedTo, linked_write_unlink, mem_linkedTo]
  constructor
  · rintro (rfl | ⟨hlinked, -⟩)
    · exact h
    · exact hlinked
  · intro hlinked
    by_cases hd : d = d'
    · exact .inl hd.symm
    · exact .inr ⟨hlinked, fun he => hd he.1⟩

/-- A row that does not touch a link leaves it alone. -/
theorem linked_write_of_not (h : ¬ w.Touches (.link d k)) : (T.write w).linked d k = T.linked d k :=
  linked_write (fun he => h (he ▸ .inl rfl)) fun he => h (he ▸ .inl rfl)

/-- A row that does not touch a tag leaves its links alone. -/
theorem linked_write_of_not_tag (h : ¬ w.Touches (.tag k)) : (T.write w).linked d k = T.linked d k :=
  linked_write (fun he => h (he ▸ .inr (.inr rfl))) fun he => h (he ▸ .inr (.inr rfl))

/-- A write that does not touch a tag leaves its number of posts. -/
theorem uses_write_of_not (h : ¬ w.Touches (.tag k)) : (T.write w).uses k = T.uses k :=
  uses_congr fun _ => linked_write_of_not_tag h

/-- Two tables that agree on a link agree on it after a written row. -/
theorem linked_write_congr (h : T'.linked d k = T.linked d k) (w : TagWrite) :
    (T'.write w).linked d k = (T.write w).linked d k := by
  by_cases hw : w.Touches (.link d k)
  · cases w with
    | link d' k' =>
      refine Bool.eq_iff_iff.mpr ((linked_write_link d' k' d k).trans ?_)
      rw [h, linked_write_link]
    | unlink d' k' =>
      refine Bool.eq_iff_iff.mpr ((linked_write_unlink d' k' d k).trans ?_)
      rw [h, linked_write_unlink]
    | count | save | insert | delete => exact h
  · rw [linked_write_of_not hw, linked_write_of_not hw, h]

theorem linked_writes_congr (h : T'.linked d k = T.linked d k) (ws : List TagWrite) :
    (ws.foldl write T').linked d k = (ws.foldl write T).linked d k := by
  induction ws generalizing T T' with
  | nil => exact h
  | cons w ws ih => exact ih (linked_write_congr h w)

/-- And so do two that agree on a usage count. -/
theorem usage_writes_congr (h : T'.usage k = T.usage k) (ws : List TagWrite) :
    (ws.foldl write T').usage k = (ws.foldl write T).usage k := by
  induction ws generalizing T T' with
  | nil => exact h
  | cons w ws ih => exact ih (by rw [usage_write, usage_write, h])

/-- **What a transaction adds to the links of a tag** is the same from all tables that agree on the links that it
touches. -/
theorem uses_writes_add (h : ∀ w ∈ ws, ∀ d, w.Touches (.link d k) → T'.linked d k = T.linked d k) :
    (ws.foldl write T').uses k + T.uses k = (ws.foldl write T).uses k + T'.uses k := by
  induction ws generalizing T T' with
  | nil => exact Nat.add_comm _ _
  -- the first write changes both tables by the same number, as it finds the same link in both
  | cons w ws ih =>
    have hrest : (ws.foldl write (T'.write w)).uses k + (T.write w).uses k
        = (ws.foldl write (T.write w)).uses k + (T'.write w).uses k :=
      ih fun w' hw' d hd => linked_write_congr (h w' (List.mem_cons_of_mem w hw') d hd) w
    have hsame : ¬ w.Touches (.tag k) → (T'.write w).uses k + T.uses k = (T.write w).uses k + T'.uses k := fun hw => by
      rw [uses_write_of_not hw, uses_write_of_not hw, Nat.add_comm]
    have hfirst : (T'.write w).uses k + T.uses k = (T.write w).uses k + T'.uses k := by
      cases w with
      | link d j =>
        by_cases hj : k = j
        · subst hj
          have hlinked := h _ List.mem_cons_self d (.inl rfl)
          -- a link that is there is not added again
          by_cases hold : T.linked d k = true
          · have hsame : ∀ {T : TagTables}, T.linked d k = true → (T.write (.link d k)).uses k = T.uses k :=
              fun hold => uses_congr fun d' => Bool.eq_iff_iff.mpr ((linked_write_link d k d' k).trans
                (or_iff_right_of_imp fun he => he.1 ▸ hold))
            rw [hsame hold, hsame (hlinked.trans hold), Nat.add_comm]
          · rw [uses_write_link hold, uses_write_link (hlinked ▸ hold)]
            omega
        · exact hsame fun he => he.elim (fun h => by cases h) fun he => he.elim (fun h => by cases h) fun he => hj (RowLock.tag.inj he)
      | unlink d j =>
        by_cases hj : k = j
        · subst hj
          have hlinked := h _ List.mem_cons_self d (.inl rfl)
          by_cases hold : T.linked d k = true
          · have hone := uses_write_unlink hold
            have hother := uses_write_unlink (hlinked.trans hold)
            omega
          · have hsame : ∀ {T : TagTables}, ¬ T.linked d k = true → (T.write (.unlink d k)).uses k = T.uses k :=
              fun hold => uses_congr fun d' => Bool.eq_iff_iff.mpr ((linked_write_unlink d k d' k).trans
                (and_iff_left_of_imp fun hd he => hold (he.1 ▸ hd)))
            rw [hsame hold, hsame (hlinked ▸ hold), Nat.add_comm]
        · exact hsame fun he => he.elim (fun h => by cases h) fun he => he.elim (fun h => by cases h) fun he => hj (RowLock.tag.inj he)
      | count | save | insert | delete => exact Nat.add_comm _ _
    show (ws.foldl write (T'.write w)).uses k + T.uses k = (ws.foldl write (T.write w)).uses k + T'.uses k
    omega

/-- A transaction that touches a tag only by its links leaves its count alone. -/
theorem usage_writes_of_links (h : ∀ w ∈ ws, w.Touches (.tag k) → ∃ d, w = .link d k ∨ w = .unlink d k) :
    (ws.foldl write T).usage k = T.usage k := by
  induction ws generalizing T with
  | nil => rfl
  | cons w ws ih =>
    refine (ih fun w hw => h w (List.mem_cons_of_mem _ hw)).trans ?_
    by_cases hw : w.Touches (.tag k)
    · obtain ⟨d, rfl | rfl⟩ := h w List.mem_cons_self hw
      · rfl
      · rfl
    · exact usage_write_of_not hw

end TagTables

/-! ## What a transaction relies on

What other transactions may do while this one waits. The rows that it has locked stay as they are. -/

/-- The transaction has locked the tag, or has read it. -/
def TagTask.Pins (t : TagTask) (k : Id) : Prop := .tag k ∈ t.locks ∨ .tag k ∈ t.watched

/-- The transaction has locked the tag, if it is there. -/
def TagTask.HasTag (s : TagStore) (t : TagTask) (k : Id) : Prop := (s.tables.usage k).isSome → .tag k ∈ t.locks

/-- **The rely.** Other transactions leave the count and the links of a tag that this one has pinned, the links that it
has locked, and those of a discussion that it has read. No tag comes or goes. -/
structure TagTask.Relies (t : TagTask) (s s' : TagStore) : Prop where
  usage : ∀ k, t.Pins k → s'.tables.usage k = s.tables.usage k
  tags : ∀ k, t.Pins k → (s.tables.usage k).isSome → ∀ d, s'.tables.linked d k = s.tables.linked d k
  links : ∀ d k, .link d k ∈ t.locks ∨ .post d ∈ t.watched → s'.tables.linked d k = s.tables.linked d k
  rows : ∀ k, (s'.tables.usage k).isSome = (s.tables.usage k).isSome

namespace TagTask.Relies

/-- Nothing but the tables matters. -/
theorem of_tables (h : s'.tables = s.tables) : t.Relies s s' := by
  constructor <;> rw [h] <;> intros <;> rfl

theorem trans {s'' : TagStore} (h : t.Relies s s') (h' : t.Relies s' s'') : t.Relies s s'' where
  usage k hk := (h'.usage k hk).trans (h.usage k hk)
  tags k hk hrow d := (h'.tags k hk ((h.rows k).trans hrow) d).trans (h.tags k hk hrow d)
  links d k hk := (h'.links d k hk).trans (h.links d k hk)
  rows k := (h'.rows k).trans (h.rows k)

end TagTask.Relies

/-- The next statement of an edit reads the tags of the discussion, and the edit names one of them in other letters than
the database prints. -/
def MisspellsTags (s : TagStore) (t : TagTask) : Prop :=
  match t.body with
  | .tagsOf d _ => ∃ u ∈ t.names, (t.view s).linked d u.id = true ∧ u ≠ Id.text u.id
  | _ => False

instance (s : TagStore) (t : TagTask) : Decidable (MisspellsTags s t) := by
  unfold MisspellsTags
  split <;> infer_instance

/-- The transaction has locked all that it has written. -/
structure HasLocked (s : TagStore) (t : TagTask) : Prop where
  keeps : ∀ w ∈ t.writes, w.Keeps
  links : ∀ w ∈ t.writes, ∀ d k, w.Touches (.link d k) → .link d k ∈ t.locks
  tags : ∀ w ∈ t.writes, ∀ k, w.Touches (.tag k) → (s.tables.usage k).isSome → .tag k ∈ t.locks

/-- The counts are exact, and a transaction that commits has locked what it has written. -/
def usageContract : Contract TagStore TagTask Bool where
  inv s := s.tables.Exact
  rely := TagTask.Relies
  brings s t := t.body = .commit → HasLocked s t
  may _ s t := ¬ MisspellsTags s t
  refl _ _ := .of_tables rfl
  trans _ _ _ _ h h' := h.trans h'

/-- The transaction keeps the counts exact to its end. -/
abbrev Safe (s : TagStore) (t : TagTask) : Prop := usageContract.Secure tagTransactions s t

def TagTx.commits : TagTx → Bool
  | .commit => true
  | _ => false

/-- The transaction commits a change of what another one has read and not locked. -/
def Overwrites (fails : Bool) (_ : TagStore) (t o : TagTask) : Prop :=
  fails = false ∧ t.body.commits ∧ ∃ r ∈ o.watched, ∃ w ∈ t.writes, w.Touches r

instance (fails : Bool) (s : TagStore) (t o : TagTask) : Decidable (Overwrites fails s t o) :=
  inferInstanceAs (Decidable (_ ∧ t.body.commits ∧ ∃ r ∈ o.watched, ∃ w ∈ t.writes, w.Touches r))

/-! ## Books

The counters that a transaction still owes. Its view of the tables is exact when it owes nothing. -/

/-- **The books of a transaction.** `owed k` is by how much the count of the tag `k` lags behind its links, as the
transaction sees them. It has locked the links that it has written, and the tags whose counts it has. A tag whose links
alone it has written is not square. -/
structure Books (s : TagStore) (t : TagTask) (owed : Id → Int) : Prop where
  exact : s.tables.Exact
  owes : ∀ k, ∀ n ∈ (t.view s).usage k, n + owed k = (t.view s).uses k
  keeps : ∀ w ∈ t.writes, w.Keeps
  links : ∀ w ∈ t.writes, ∀ d k, w.Touches (.link d k) → .link d k ∈ t.locks
  tags : ∀ w ∈ t.writes, ∀ k, w.Touches (.tag k) → .tag k ∈ t.locks
    ∨ ((∃ d, w = .link d k ∨ w = .unlink d k) ∧ ((s.tables.usage k).isSome → owed k ≠ 0))

namespace Books

variable {owed owed' : Id → Int}

/-- A transaction that has written nothing owes nothing. -/
theorem start (h : s.tables.Exact) (hwrites : t.writes = []) : Books s t fun _ => 0 := by
  have hnil : ∀ {P : TagWrite → Prop}, ∀ w ∈ t.writes, P w := by
    rw [hwrites]
    exact fun _ hw => absurd hw List.not_mem_nil
  refine ⟨h, fun k n hn => ?_, hnil, hnil, hnil⟩
  have hview : t.view s = s.tables := by
    rw [TagTask.view, hwrites]
    rfl
  rw [hview] at hn ⊢
  rw [TagTables.exact_iff.mp h k n hn, Int.add_zero]

/-- A tag that the transaction sees is there. -/
theorem isSome_view (h : Books s t owed) (k : Id) : ((t.view s).usage k).isSome = (s.tables.usage k).isSome :=
  TagTables.isSome_usage_writes h.keeps

/-- **Stability.** The books stay in order while others do what the transaction relies on. -/
theorem rely (h : Books s t owed) (hrely : t.Relies s s') (hexact : s'.tables.Exact) : Books s' t owed := by
  refine ⟨hexact, fun k n hn => ?_, h.keeps, h.links, fun w hw k hk => ?_⟩
  · have hrow : (s.tables.usage k).isSome := by
      rw [← hrely.rows, ← TagTables.isSome_usage_writes h.keeps, Option.isSome_iff_exists]
      exact ⟨n, hn⟩
    -- what the transaction sees of a tag, by whether it holds the row
    by_cases hlock : .tag k ∈ t.locks
    · -- a tag that is locked: the others have left it alone
      have hsame : ∀ d, s'.tables.linked d k = s.tables.linked d k := hrely.tags k (.inl hlock) hrow
      have huses : (t.view s').uses k = (t.view s).uses k :=
        TagTables.uses_congr fun d => TagTables.linked_writes_congr (hsame d) t.writes
      have husage : (t.view s').usage k = (t.view s).usage k :=
        TagTables.usage_writes_congr (hrely.usage k (.inl hlock)) t.writes
      rw [huses]
      exact h.owes k n (husage ▸ hn)
    · -- a tag that is not locked: the transaction has written some of its links, and those are locked
      have hlinks : ∀ w ∈ t.writes, w.Touches (.tag k) → ∃ d, w = .link d k ∨ w = .unlink d k :=
        fun w hw hk => ((h.tags w hw k hk).resolve_left hlock).1
      have hadd : (t.view s').uses k + s.tables.uses k = (t.view s).uses k + s'.tables.uses k :=
        TagTables.uses_writes_add fun w hw d hd => hrely.links d k (.inl (h.links w hw d k hd))
      obtain ⟨m, hm⟩ := Option.isSome_iff_exists.mp hrow
      have hold : m + owed k = (t.view s).uses k :=
        h.owes k m ((TagTables.usage_writes_of_links hlinks).trans hm)
      -- the stored counter is exact in both states, so the two differences agree
      have hcount : m = s.tables.uses k := TagTables.exact_iff.mp h.exact k m hm
      have hcount' : n = s'.tables.uses k :=
        TagTables.exact_iff.mp hexact k n ((TagTables.usage_writes_of_links hlinks).symm.trans hn)
      omega
  · refine (h.tags w hw k hk).imp_right fun hlinks => ⟨hlinks.1, fun hrow => hlinks.2 ?_⟩
    rwa [← hrely.rows]

/-- The books at the commit of a transaction that owes nothing. -/
theorem hasLocked (h : Books s t fun _ => 0) : HasLocked s t where
  keeps := h.keeps
  links := h.links
  tags w hw k hk hrow := (h.tags w hw k hk).resolve_right fun hlinks => hlinks.2 hrow rfl

/-- A transaction that owes nothing sees exact counters. -/
theorem exact_view (h : Books s t fun _ => 0) : (t.view s).Exact :=
  TagTables.exact_iff.mpr fun k n hn => by
    rw [← h.owes k n hn, Int.add_zero]

/-- A statement that writes nothing. What a tag that is not there owes does not matter. -/
theorem same (h : Books s t owed) (htables : s'.tables = s.tables) (hwrites : t'.writes = t.writes)
    (hlocks : ∀ r ∈ t.locks, r ∈ t'.locks) (howed : ∀ k, (s.tables.usage k).isSome → owed' k = owed k) :
    Books s' t' owed' := by
  have hview : t'.view s' = t.view s := by rw [TagTask.view, TagTask.view, htables, hwrites]
  constructor
  · rw [htables]
    exact h.exact
  · rw [hview]
    intro k n hn
    have hrow : (s.tables.usage k).isSome := by
      rw [← h.isSome_view, Option.isSome_iff_exists]
      exact ⟨n, hn⟩
    rw [howed k hrow]
    exact h.owes k n hn
  · rw [hwrites]
    exact h.keeps
  · rw [hwrites]
    exact fun w hw d k hd => hlocks _ (h.links w hw d k hd)
  · rw [hwrites, htables]
    intro w hw k hk
    refine (h.tags w hw k hk).imp (hlocks _) fun hlinks => ⟨hlinks.1, fun hrow => ?_⟩
    rw [howed k hrow]
    exact hlinks.2 hrow

/-- A statement that writes a row of the tag `k`, or one of its links. -/
theorem write (h : Books s t owed) {w : TagWrite} (htables : s'.tables = s.tables) (hwrites : t'.writes = t.writes ++ [w])
    (hlocks : ∀ r ∈ t.locks, r ∈ t'.locks) (hsame : ∀ j, j ≠ k → owed' j = owed j)
    (htouch : ∀ j, w.Touches (.tag j) → j = k)
    (howes : ∀ n ∈ ((t.view s).write w).usage k, n + owed' k = ((t.view s).write w).uses k) (hkeeps : w.Keeps)
    (hlink : ∀ d j, w.Touches (.link d j) → .link d j ∈ t'.locks)
    (htag : .tag k ∈ t'.locks
      ∨ ((∃ d, w = .link d k ∨ w = .unlink d k) ∧ ((s.tables.usage k).isSome → owed' k ≠ 0))) : Books s' t' owed' := by
  -- the transaction sees what it has written
  have hview : t'.view s' = (t.view s).write w := by
    rw [TagTask.view, TagTask.view, htables, hwrites, List.foldl_append]
    rfl
  constructor
  · rw [htables]
    exact h.exact
  · rw [hview]
    intro j n hn
    -- the debt of the one tag changes, and no other
    by_cases hj : j = k
    · exact hj ▸ howes n (hj ▸ hn)
    · have hnot : ¬ w.Touches (.tag j) := fun hw => hj (htouch j hw)
      rw [TagTables.usage_write_of_not hnot] at hn
      rw [TagTables.uses_write_of_not hnot, hsame j hj]
      exact h.owes j n hn
  · rw [hwrites]
    intro w' hw'
    rcases List.mem_append.mp hw' with hw' | hw'
    · exact h.keeps w' hw'
    · exact List.mem_singleton.mp hw' ▸ hkeeps
  · rw [hwrites]
    intro w' hw' d j hd
    rcases List.mem_append.mp hw' with hw' | hw'
    · exact hlocks _ (h.links w' hw' d j hd)
    · exact hlink d j (List.mem_singleton.mp hw' ▸ hd)
  · rw [hwrites, htables]
    intro w' hw' j hj
    rcases List.mem_append.mp hw' with hw' | hw'
    · refine (h.tags w' hw' j hj).elim (fun hlock => .inl (hlocks _ hlock)) fun hlinks => ?_
      by_cases hjk : j = k
      · -- the tag of the new row
        subst hjk
        exact htag.imp_right fun hnew => ⟨hlinks.1, hnew.2⟩
      · refine .inr ⟨hlinks.1, fun hrow => ?_⟩
        rw [hsame j hjk]
        exact hlinks.2 hrow
    · obtain rfl := List.mem_singleton.mp hw'
      obtain rfl := htouch j hj
      exact htag

end Books

/-! ## Later states of a transaction

Between two statements others run. `Passes` says what the transaction finds then, and `Arrives` with which statement
it goes on. -/

/-- The transaction `t` of the store `s` has become the transaction `t'` of the store `s'`, and has written `ws`. What it
has pinned it still sees, but for what it has written. -/
structure Passes (s : TagStore) (t : TagTask) (s' : TagStore) (t' : TagTask) (ws : List TagWrite) : Prop where
  names : t'.names = t.names
  rows : ∀ k, (s'.tables.usage k).isSome = (s.tables.usage k).isSome
  locks : ∀ r ∈ t.locks, r ∈ t'.locks
  pins : ∀ k, t.Pins k → t'.Pins k
  posts : ∀ d, .post d ∈ t.watched → .post d ∈ t'.watched
  usage : ∀ k, t.Pins k → (t'.view s').usage k = (ws.foldl TagTables.write (t.view s)).usage k
  linked : ∀ d k, .post d ∈ t.watched ∨ (t.Pins k ∧ (s.tables.usage k).isSome) →
    (t'.view s').linked d k = (ws.foldl TagTables.write (t.view s)).linked d k

namespace Passes

variable {ws ws' : List TagWrite}

theorem trans {s'' : TagStore} {t'' : TagTask} (h : Passes s t s' t' ws) (h' : Passes s' t' s'' t'' ws') :
    Passes s t s'' t'' (ws ++ ws') where
  names := h'.names.trans h.names
  rows k := (h'.rows k).trans (h.rows k)
  locks r hr := h'.locks r (h.locks r hr)
  pins k hk := h'.pins k (h.pins k hk)
  posts d hd := h'.posts d (h.posts d hd)
  usage k hk := by
    rw [h'.usage k (h.pins k hk), List.foldl_append]
    exact TagTables.usage_writes_congr (h.usage k hk) ws'
  linked d k hk := by
    have hk' : .post d ∈ t'.watched ∨ (t'.Pins k ∧ (s'.tables.usage k).isSome) :=
      hk.imp (h.posts d) fun hpin => ⟨h.pins k hpin.1, (h.rows k).trans hpin.2⟩
    rw [h'.linked d k hk', List.foldl_append]
    exact TagTables.linked_writes_congr (h.linked d k hk) ws'

/-- One statement, after others have committed what they may. -/
theorem of_rely {s'' : TagStore} (hrely : t.Relies s s') (htables : s''.tables = s'.tables) (hnames : t'.names = t.names)
    (hwrites : t'.writes = t.writes ++ ws) (hlocks : ∀ r ∈ t.locks, r ∈ t'.locks) (hpins : ∀ k, t.Pins k → t'.Pins k)
    (hposts : ∀ d, .post d ∈ t.watched → .post d ∈ t'.watched) : Passes s t s'' t' ws where
  names := hnames
  rows k := by rw [htables, hrely.rows]
  locks := hlocks
  pins := hpins
  posts := hposts
  usage k hk := by
    rw [TagTask.view, htables, hwrites, List.foldl_append]
    exact TagTables.usage_writes_congr (TagTables.usage_writes_congr (hrely.usage k hk) t.writes) ws
  linked d k hk := by
    have hsame : s'.tables.linked d k = s.tables.linked d k :=
      hk.elim (fun hd => hrely.links d k (.inr hd)) fun hpin => hrely.tags k hpin.1 hpin.2 d
    rw [TagTask.view, htables, hwrites, List.foldl_append]
    exact TagTables.linked_writes_congr (TagTables.linked_writes_congr hsame t.writes) ws

/-- A tag that is locked stays locked. -/
theorem hasTag (h : Passes s t s' t' ws) (hk : t.HasTag s k) : t'.HasTag s' k := by
  intro hrow
  rw [h.rows] at hrow
  exact h.locks _ (hk hrow)

/-- A statement that only reads. -/
theorem reads (hrely : t.Relies s s') (hnames : t'.names = t.names) (hwrites : t'.writes = t.writes)
    (hlocks : t'.locks = t.locks) (hwatched : ∀ r ∈ t.watched, r ∈ t'.watched) : Passes s t s' t' [] :=
  of_rely hrely rfl hnames (hwrites.trans (List.append_nil _).symm) (fun _ hr => hlocks ▸ hr)
    (fun _ hk => hk.imp (fun hlock => hlocks ▸ hlock) (hwatched _)) fun _ hd => hwatched _ hd

end Passes

/-- The transaction has come to the statement `body`, with the books `owed`. -/
structure Arrives (s : TagStore) (t : TagTask) (s' : TagStore) (t' : TagTask) (ws : List TagWrite) (body : TagTx)
    (owed : Id → Int) : Prop extends Passes s t s' t' ws where
  atBody : t'.body = body
  books : Books s' t' owed

namespace Arrives

variable {ws ws' : List TagWrite} {body : TagTx} {owed : Id → Int}

theorem after {s'' : TagStore} {t'' : TagTask} (h : Arrives s' t' s'' t'' ws' body owed)
    (hbefore : Passes s t s' t' ws) :
    Arrives s t s'' t'' (ws ++ ws') body owed :=
  ⟨hbefore.trans h.toPasses, h.atBody, h.books⟩

/-- Where a transaction stands. -/
theorem here (hbody : t.body = body) (hbooks : Books s t owed) : Arrives s t s t [] body owed :=
  ⟨.reads (.of_tables rfl) rfl rfl rfl fun _ hr => hr, hbody, hbooks⟩

/-- A statement that only reads. -/
theorem reads (hrely : t.Relies s s') (hbooks : Books s' t owed) (hnames : t'.names = t.names)
    (hwrites : t'.writes = t.writes) (hlocks : t'.locks = t.locks) (hwatched : ∀ r ∈ t.watched, r ∈ t'.watched) :
    Arrives s t s' t' [] t'.body owed :=
  ⟨.reads hrely hnames hwrites hlocks hwatched, rfl,
    hbooks.same rfl hwrites (fun _ hr => hlocks ▸ hr) fun _ _ => rfl⟩

end Arrives

/-! ## Statements

One rule for each kind of statement: a transaction is safe if it is safe after its next statement, whatever the others
have done before. -/

namespace Safe

variable {owed g : Id → Int} {next : TagTx}

/-- **The rule of a statement** that does not commit. -/
theorem of_statement (hbooks : Books s t owed) (hbody : t.body ≠ .commit)
    (hnext : ∀ s', t.Relies s s' → Books s' t owed → ¬ MisspellsTags s' t → ¬ (t.statement s').Waits s' t →
      ∀ t' ∈ (t.statement s').next, Safe (t.statement s').store t') : Safe s t := by
  constructor
  · exact fun _ _ _ hcommit => absurd hcommit hbody
  · intro s' x hrely hexact _
    show (tagTransactions.exec x s' t).store.tables.Exact
    rcases (tagStep_exec x s' t).tables with hsame | ⟨hcommit, -⟩
    · rw [hsame]
      exact hexact
    · exact absurd hcommit hbody
  · intro s' x hrely hexact hmay hwaits t' ht'
    cases x with
    | true => exact absurd ht' List.not_mem_nil
    | false => exact hnext s' hrely (hbooks.rely hrely hexact) hmay hwaits t' ht'

/-- **The rule of a commit.** The transaction owes nothing. -/
theorem commit (hbody : t.body = .commit) (hbooks : Books s t fun _ => 0) : Safe s t := by
  have hstatement : ∀ s', t.statement s' = t.finish s' (t.view s') true := fun s' => by
    unfold TagTask.statement
    rw [hbody]
  constructor
  · exact fun s' hrely hexact _ => (hbooks.rely hrely hexact).hasLocked
  · intro s' x hrely hexact _
    cases x with
    | true => exact hexact
    | false =>
      show (t.statement s').store.tables.Exact
      rw [hstatement]
      exact (hbooks.rely hrely hexact).exact_view
  · intro s' x _ _ _ _ t' ht'
    cases x with
    | true => exact absurd ht' List.not_mem_nil
    | false =>
      have ht' : t' ∈ (t.statement s').next := ht'
      rw [hstatement] at ht'
      exact absurd ht' List.not_mem_nil

/-- A transaction that is rolled back writes nothing. -/
theorem rollback (hbody : t.body = .rollback) (hbooks : Books s t owed) : Safe s t := by
  refine of_statement hbooks (fun h => by cases hbody.symm.trans h) fun s' _ _ _ _ => ?_
  unfold TagTask.statement
  rw [hbody]
  exact fun _ ht' => absurd ht' List.not_mem_nil

/-! ### Statements that only read

These leave the books, and give what they have read to the next statement. -/

/-- The check of the tags of a dto reads them. -/
theorem checkTags {ids : List UuidText} (hbooks : Books s t owed) (hbody : t.body = .checkTags ids next)
    (hnext : ∀ s' t', Arrives s t s' t' [] next owed → Safe s' t') : Safe s t := by
  refine of_statement hbooks (fun h => by cases hbody.symm.trans h) fun s' hrely hbooks' _ _ => ?_
  unfold TagTask.statement
  rw [hbody]
  dsimp only
  split
  · intro t' ht'
    obtain rfl := List.mem_singleton.mp ht'
    exact hnext s' _ (.reads hrely hbooks' rfl rfl rfl fun _ hr => hr)
  · exact fun _ ht' => absurd ht' List.not_mem_nil

/-- The tags that are found have the ids that were asked for, each once. -/
theorem tags {ids : List UuidText} {next : List Tag → TagTx} (hbooks : Books s t owed) (hbody : t.body = .tags ids next)
    (hnext : ∀ s' t' found, (found.map (·.id)).Perm (ids.map (·.id)) → (found.map (·.id)).Nodup →
      Arrives s t s' t' [] (next found) owed → Safe s' t') : Safe s t := by
  refine of_statement hbooks (fun h => by cases hbody.symm.trans h) fun s' hrely hbooks' _ _ => ?_
  unfold TagTask.statement
  rw [hbody]
  dsimp only
  split
  · next found hfound =>
    intro t' ht'
    obtain rfl := List.mem_singleton.mp ht'
    obtain ⟨rfl, hlength, -⟩ := TagTables.activeTags_eq_some hfound
    have hnodup : (((t.view s').findTags ids).map (·.id)).Nodup :=
      (List.filter_sublist.map Tag.id).nodup (t.view s').tags.nodup
    refine hnext s' _ _ ?_ hnodup (.reads hrely hbooks' rfl rfl rfl fun _ hr => hr)
    refine (List.subperm_of_subset hnodup fun k hk => ?_).perm_of_length_le ?_
    · obtain ⟨tag, htag, rfl⟩ := List.mem_map.mp hk
      exact (TagTables.mem_findTags.mp htag).2
    · rw [List.length_map, List.length_map, hlength]
  · exact fun _ ht' => absurd ht' List.not_mem_nil

/-- The check of a merge reads the two tags. -/
theorem mergeable {a b : UuidText} {next : Tag → Tag → TagTx} (hbooks : Books s t owed)
    (hbody : t.body = .mergeable a b next)
    (hnext : ∀ s' t' source target, source.id ≠ target.id → (s'.tables.usage source.id).isSome →
      (s'.tables.usage target.id).isSome → Arrives s t s' t' [] (next source target) owed → Safe s' t') : Safe s t := by
  refine of_statement hbooks (fun h => by cases hbody.symm.trans h) fun s' hrely hbooks' _ _ => ?_
  unfold TagTask.statement
  rw [hbody]
  dsimp only
  split
  · next source target hfound =>
    intro t' ht'
    obtain rfl := List.mem_singleton.mp ht'
    obtain ⟨hne, hsource, htarget, -, -⟩ := TagTables.mergeable_eq_some hfound
    have hrow : ∀ tag ∈ (t.view s').tags, (s'.tables.usage tag.id).isSome := fun tag htag => by
      rw [← hbooks'.isSome_view, TagTables.usage, Table.get?_key htag]
      rfl
    refine hnext s' _ source target (fun he => hne ?_) (hrow source hsource.1) (hrow target htarget.1)
      (.reads hrely hbooks' rfl rfl rfl fun _ hr => hr)
    exact hsource.2.symm.trans ((congrArg Id.text he).trans htarget.2)
  · exact fun _ ht' => absurd ht' List.not_mem_nil

/-- An edit reads the tags of its discussion, and relies on them from then on. -/
theorem tagsOf {next : List Id → TagTx} (hbooks : Books s t owed) (hbody : t.body = .tagsOf d next)
    (hnext : ∀ s' t' old, old.Nodup → .post d ∈ t'.watched → (∀ k, k ∈ old ↔ (t'.view s').linked d k = true) →
      (∀ u ∈ t.names, u.id ∈ old → u = Id.text u.id) → Arrives s t s' t' [] (next old) owed → Safe s' t') :
    Safe s t := by
  refine of_statement hbooks (fun h => by cases hbody.symm.trans h) fun s' hrely hbooks' hspelled _ => ?_
  unfold TagTask.statement
  rw [hbody]
  intro t' ht'
  obtain rfl := List.mem_singleton.mp ht'
  refine hnext s' _ _ TagTables.nodup_tagIdsOf List.mem_cons_self (fun k => TagTables.mem_tagIdsOf) (fun u hu hmem => ?_)
    (.reads hrely hbooks' rfl rfl rfl fun _ hr => List.mem_cons_of_mem _ hr)
  unfold MisspellsTags at hspelled
  rw [hbody] at hspelled
  exact Classical.byContradiction fun hne => hspelled ⟨u, hu, TagTables.mem_tagIdsOf.mp hmem, hne⟩

/-- The links of a tag are read. -/
theorem selectLinks {next : List Id → TagTx} (hbooks : Books s t owed) (hbody : t.body = .selectLinks k next)
    (hnext : ∀ s' t' ds, Arrives s t s' t' [] (next ds) owed → Safe s' t') : Safe s t := by
  refine of_statement hbooks (fun h => by cases hbody.symm.trans h) fun s' hrely hbooks' _ _ => ?_
  unfold TagTask.statement
  rw [hbody]
  intro t' ht'
  obtain rfl := List.mem_singleton.mp ht'
  exact hnext s' _ _ (.reads hrely hbooks' rfl rfl rfl fun _ hr => hr)

/-- A merge finds the links of its source, and relies on them from then on. -/
theorem deleteLinks {next : List Id → TagTx} (hbooks : Books s t owed) (hbody : t.body = .deleteLinks k next)
    (hnext : ∀ s' t' ds, t'.Pins k → (∀ d, (t'.view s').linked d k = true → d ∈ ds) →
      Arrives s t s' t' [] (next ds) owed → Safe s' t') : Safe s t := by
  refine of_statement hbooks (fun h => by cases hbody.symm.trans h) fun s' hrely hbooks' _ _ => ?_
  unfold TagTask.statement
  rw [hbody]
  intro t' ht'
  obtain rfl := List.mem_singleton.mp ht'
  exact hnext s' _ _ (.inr List.mem_cons_self) (fun d hd => TagTables.mem_linkedTo.mpr hd)
    (.reads hrely hbooks' rfl rfl rfl fun _ hr => List.mem_cons_of_mem _ hr)

/-- A merge counts the links of its target, and relies on them from then on. -/
theorem countLinks {next : Nat → TagTx} (hbooks : Books s t owed) (hbody : t.body = .countLinks k next)
    (hnext : ∀ s' t', t'.Pins k → Arrives s t s' t' [] (next ((t'.view s').uses k)) owed → Safe s' t') : Safe s t := by
  refine of_statement hbooks (fun h => by cases hbody.symm.trans h) fun s' hrely hbooks' _ _ => ?_
  unfold TagTask.statement
  rw [hbody]
  intro t' ht'
  obtain rfl := List.mem_singleton.mp ht'
  exact hnext s' _ (.inr List.mem_cons_self) (.reads hrely hbooks' rfl rfl rfl fun _ hr => List.mem_cons_of_mem _ hr)

/-- A change of status reads its tag, and relies on its count from then on. -/
theorem findTag {next : Tag → TagTx} (hbooks : Books s t owed) (hbody : t.body = .findTag k next)
    (hnext : ∀ s' t' tag, tag.id = k → t'.Pins k → (t'.view s').usage k = some tag.usageCount →
      Arrives s t s' t' [] (next tag) owed → Safe s' t') : Safe s t := by
  refine of_statement hbooks (fun h => by cases hbody.symm.trans h) fun s' hrely hbooks' _ _ => ?_
  unfold TagTask.statement
  rw [hbody]
  dsimp only
  split
  · next tag htag =>
    intro t' ht'
    obtain rfl := List.mem_singleton.mp ht'
    exact hnext s' _ tag (Table.get?_eq_some.mp htag).2 (.inr List.mem_cons_self) (congrArg (Option.map _) htag)
      (.reads hrely hbooks' rfl rfl rfl fun _ hr => List.mem_cons_of_mem _ hr)
  · exact fun _ ht' => absurd ht' List.not_mem_nil

/-- A new post has no links yet. -/
theorem insertPost {next : Id → TagTx} (hbooks : Books s t owed) (hbody : t.body = .insertPost next)
    (hnext : ∀ s' t' d, Arrives s t s' t' [] (next d) owed → Safe s' t') : Safe s t := by
  refine of_statement hbooks (fun h => by cases hbody.symm.trans h) fun s' hrely hbooks' _ _ => ?_
  unfold TagTask.statement
  rw [hbody]
  intro t' ht'
  obtain rfl := List.mem_singleton.mp ht'
  exact hnext _ _ s'.nextPost ⟨.of_rely hrely rfl rfl (List.append_nil _).symm (fun _ hr => hr) (fun _ hk => hk)
    fun _ hd => hd, rfl, hbooks'.same rfl rfl (fun _ hr => hr) fun _ _ => rfl⟩

/-! ### Statements that lock

These wait until the row is free, and the row then stays as it is. -/

/-- A statement that locks the row that it writes, or goes on with the lock that it has. -/
theorem lockAnd {s₀ : TagStore} {r : RowLock} {ws : List TagWrite} (hrely : t.Relies s₀ s)
    (hpost : ∀ d, r = .post d → .post d ∉ t.watched) (hwaits : ¬ (t.lockAnd s r ws next).Waits s t)
    (hnext : ∀ s' t', s'.tables = s.tables → t'.body = next → t'.writes = t.writes ++ ws → r ∈ t'.locks →
      Passes s₀ t s' t' ws → Safe s' t') :
    ∀ t' ∈ (t.lockAnd s r ws next).next, Safe (t.lockAnd s r ws next).store t' := by
  revert hwaits
  refine lockAnd_cases (P := fun e => ¬ e.Waits s t → ∀ t' ∈ e.next, Safe e.store t') (fun hheld _ => ?_)
    (fun hwaits => absurd ⟨rfl, rfl⟩ hwaits) fun hnew _ _ => ?_
  · intro t' ht'
    obtain rfl := List.mem_singleton.mp ht'
    exact hnext s _ rfl rfl rfl hheld
      (.of_rely hrely rfl rfl rfl (fun _ hr => hr) (fun _ hk => hk) fun _ hd => hd)
  · intro t' ht'
    obtain rfl := List.mem_singleton.mp ht'
    have hwatched : ∀ r' ∈ t.watched, r' ≠ r → r' ∈ t.watched.filter fun r' => decide (r' ≠ r) :=
      fun r' hr' hne => List.mem_filter.mpr ⟨hr', decide_eq_true hne⟩
    refine hnext _ _ rfl rfl rfl (List.mem_append_right _ (List.mem_singleton_self r)) (.of_rely hrely rfl rfl rfl
      (fun _ hr => List.mem_append_left _ hr) (fun k hk => ?_) fun d hd => ?_)
    · rcases hk with hlock | hwatch
      · exact .inl (List.mem_append_left _ hlock)
      · -- a tag that was watched is now locked, or still watched
        by_cases hr : .tag k = r
        · exact .inl (List.mem_append_right _ (List.mem_singleton.mpr hr))
        · exact .inr (hwatched _ hwatch hr)
    · exact hwatched _ hd fun hr => hpost d hr.symm hd

/-- A locked post keeps its links. -/
theorem lockPost (hbooks : Books s t owed) (hbody : t.body = .lockPost d next) (hwatched : t.watched = [])
    (hnext : ∀ s' t', Arrives s t s' t' [] next owed → Safe s' t') : Safe s t := by
  refine of_statement hbooks (fun h => by cases hbody.symm.trans h) fun s' hrely hbooks' _ => ?_
  unfold TagTask.statement
  rw [hbody]
  refine fun hwaits => lockAnd hrely (fun _ _ => hwatched ▸ List.not_mem_nil) hwaits ?_
  intro s'' t'' htables hbody' hwrites _ hpasses
  exact hnext s'' t'' ⟨hpasses, hbody', hbooks'.same htables (hwrites.trans (List.append_nil _)) hpasses.locks
    fun _ _ => rfl⟩

/-- A locked tag keeps its row. -/
theorem lockTag (hbooks : Books s t owed) (hbody : t.body = .lockTag k next)
    (hnext : ∀ s' t', t'.HasTag s' k → Arrives s t s' t' [] next owed → Safe s' t') :
    Safe s t := by
  refine of_statement hbooks (fun h => by cases hbody.symm.trans h) fun s' hrely hbooks' _ => ?_
  unfold TagTask.statement
  rw [hbody]
  dsimp only
  split
  · refine fun hwaits => lockAnd hrely (fun _ h => by cases h) hwaits ?_
    intro s'' t'' htables hbody' hwrites hlock hpasses
    exact hnext s'' t'' (fun _ => hlock) ⟨hpasses, hbody', hbooks'.same htables (hwrites.trans (List.append_nil _))
      hpasses.locks fun _ _ => rfl⟩
  · next hgone =>
    intro _ t' ht'
    obtain rfl := List.mem_singleton.mp ht'
    refine hnext s' _ (fun hrow => absurd ?_ hgone) (.reads hrely hbooks' rfl rfl rfl fun _ hr => hr)
    rwa [← hbooks'.isSome_view, TagTables.usage, Option.isSome_map] at hrow

/-! ### Statements that write

These change the view of the transaction, and what it owes. -/

/-- A relative update. `hroom` is that the count does not fall below zero. -/
theorem count {delta : Int} (hbooks : Books s t owed) (hbody : t.body = .count delta k next)
    (howed : g k = owed k - delta) (hsame : ∀ j, j ≠ k → g j = owed j)
    (hroom : ∀ s', Passes s t s' t [] → owed k - delta ≤ (t.view s').uses k)
    (hnext : ∀ s' t' ws, (∀ w ∈ ws, w = .count delta k) → Arrives s t s' t' ws next g → Safe s' t') : Safe s t := by
  refine of_statement hbooks (fun h => by cases hbody.symm.trans h) fun s' hrely hbooks' _ => ?_
  unfold TagTask.statement
  rw [hbody]
  dsimp only
  split
  -- the row is there and is locked, and the counter moves by what was owed
  · refine fun hwaits => lockAnd hrely (fun _ h => by cases h) hwaits ?_
    intro s'' t'' htables hbody' hwrites hlock hpasses
    refine hnext s'' t'' _ (fun w hw => List.mem_singleton.mp hw) ⟨hpasses, hbody', ?_⟩
    refine hbooks'.write htables hwrites hpasses.locks hsame (fun j hj => RowLock.tag.inj hj) (fun n hn => ?_) trivial
      (fun _ _ hd => (by cases hd)) (.inl hlock)
    rw [TagTables.usage_write] at hn
    obtain ⟨m, hm, rfl⟩ := Option.map_eq_some_iff.mp ((if_pos rfl).symm.trans hn)
    have howes : m + owed k = (t.view s').uses k := hbooks'.owes k m hm
    have huses : ((t.view s').write (.count delta k)).uses k = (t.view s').uses k :=
      TagTables.uses_congr fun _ => rfl
    have hleft := hroom s' (.reads hrely rfl rfl rfl fun _ hr => hr)
    rw [huses, howed, max_eq_left (by omega)]
    omega
  -- there is no such tag, and the update changes no row
  · next hgone =>
    intro _ t' ht'
    obtain rfl := List.mem_singleton.mp ht'
    refine hnext s' _ [] (fun _ hw => absurd hw List.not_mem_nil) ⟨.reads hrely rfl rfl rfl fun _ hr => hr, rfl, ?_⟩
    refine hbooks'.same rfl rfl (fun _ hr => hr) fun j hrow => hsame j fun hj => hgone ?_
    subst hj
    rwa [← hbooks'.isSome_view, TagTables.usage, Option.isSome_map] at hrow

/-- The books of a link that the transaction has inserted. -/
theorem books_link (hbooks : Books s t owed) (hnew : ¬ (t.view s).linked d k = true) (htables : s'.tables = s.tables)
    (hwrites : t'.writes = t.writes ++ [.link d k]) (hlocks : ∀ r ∈ t.locks, r ∈ t'.locks) (hlock : .link d k ∈ t'.locks)
    (howed : g k = owed k + 1) (hsame : ∀ j, j ≠ k → g j = owed j)
    (hset : t.HasTag s k ∨ g k ≠ 0) : Books s' t' g := by
  refine hbooks.write htables hwrites hlocks hsame (fun j hj => ?_) (fun n hn => ?_) trivial (fun d' j hd => ?_) ?_
  · exact hj.elim (fun h => by cases h) fun hj => hj.elim (fun h => by cases h) fun hj => RowLock.tag.inj hj
  · have howes : n + owed k = (t.view s).uses k := hbooks.owes k n hn
    rw [TagTables.uses_write_link hnew, howed]
    omega
  · exact hd.elim (fun hd => hd ▸ hlock) fun hd => hd.elim (fun h => by cases h) (fun h => by cases h)
  · by_cases hrow : (s.tables.usage k).isSome
    · exact hset.imp (fun hheld => hlocks _ (hheld hrow)) fun hne => ⟨⟨d, .inl rfl⟩, fun _ => hne⟩
    · exact .inr ⟨⟨d, .inl rfl⟩, fun hthere => absurd hthere hrow⟩

/-- The link is new, or the transaction ends. -/
theorem insertLink (hbooks : Books s t owed) (hbody : t.body = .insertLink d k next) (howed : g k = owed k + 1)
    (hsame : ∀ j, j ≠ k → g j = owed j) (hset : t.HasTag s k ∨ g k ≠ 0)
    (hnext : ∀ s' t', Arrives s t s' t' [.link d k] next g → Safe s' t') : Safe s t := by
  refine of_statement hbooks (fun h => by cases hbody.symm.trans h) fun s' hrely hbooks' _ => ?_
  unfold TagTask.statement
  rw [hbody]
  dsimp only
  split
  · exact fun hwaits => absurd ⟨rfl, rfl⟩ hwaits
  · split
    · exact fun _ _ ht' => absurd ht' List.not_mem_nil
    · next hnew =>
      refine fun hwaits => lockAnd hrely (fun _ h => by cases h) hwaits ?_
      intro s'' t'' htables hbody' hwrites hlock hpasses
      refine hnext s'' t'' ⟨hpasses, hbody', books_link hbooks' hnew htables hwrites hpasses.locks hlock howed hsame ?_⟩
      exact hset.imp_left fun hheld hrow => hheld (hrely.rows k ▸ hrow)

/-- The link is new, or it is there. -/
theorem addLink (hbooks : Books s t owed) (hbody : t.body = .addLink d k next) (howed : g k = owed k + 1)
    (hsame : ∀ j, j ≠ k → g j = owed j) (hset : t.HasTag s k ∨ g k ≠ 0)
    (hthere : ∀ s' t', Arrives s t s' t' [] next owed → Safe s' t')
    (hnext : ∀ s' t', Arrives s t s' t' [.link d k] next g → Safe s' t') : Safe s t := by
  refine of_statement hbooks (fun h => by cases hbody.symm.trans h) fun s' hrely hbooks' _ => ?_
  unfold TagTask.statement
  rw [hbody]
  dsimp only
  split
  · exact fun hwaits => absurd ⟨rfl, rfl⟩ hwaits
  · split
    · intro _ t' ht'
      obtain rfl := List.mem_singleton.mp ht'
      exact hthere s' _ (.reads hrely hbooks' rfl rfl rfl fun _ hr => hr)
    · next hnew =>
      refine fun hwaits => lockAnd hrely (fun _ h => by cases h) hwaits ?_
      intro s'' t'' htables hbody' hwrites hlock hpasses
      refine hnext s'' t'' ⟨hpasses, hbody', books_link hbooks' hnew htables hwrites hpasses.locks hlock howed hsame ?_⟩
      exact hset.imp_left fun hheld hrow => hheld (hrely.rows k ▸ hrow)

/-- The link is deleted, or it is gone. -/
theorem deleteLink (hbooks : Books s t owed) (hbody : t.body = .deleteLink d k next) (howed : g k = owed k - 1)
    (hsame : ∀ j, j ≠ k → g j = owed j) (hset : t.HasTag s k ∨ g k ≠ 0)
    (hgone : ∀ s' t', (t'.view s').linked d k = false → Arrives s t s' t' [] next owed → Safe s' t')
    (hnext : ∀ s' t', Arrives s t s' t' [.unlink d k] next g → Safe s' t') : Safe s t := by
  refine of_statement hbooks (fun h => by cases hbody.symm.trans h) fun s' hrely hbooks' _ => ?_
  unfold TagTask.statement
  rw [hbody]
  dsimp only
  split
  -- the link goes, and one use of the tag with it
  · next hlinked =>
    refine fun hwaits => lockAnd hrely (fun _ h => by cases h) hwaits ?_
    intro s'' t'' htables hbody' hwrites hlock hpasses
    refine hnext s'' t'' ⟨hpasses, hbody', ?_⟩
    refine hbooks'.write htables hwrites hpasses.locks hsame (fun j hj => ?_) (fun n hn => ?_) trivial
      (fun d' j hd => ?_) ?_
    · exact hj.elim (fun h => by cases h) fun hj => hj.elim (fun h => by cases h) fun hj => RowLock.tag.inj hj
    · have howes : n + owed k = (t.view s').uses k := hbooks'.owes k n hn
      have hone := TagTables.uses_write_unlink hlinked
      rw [howed]
      omega
    · exact hd.elim (fun hd => hd ▸ hlock) fun hd => hd.elim (fun h => by cases h) (fun h => by cases h)
    · by_cases hrow : (s'.tables.usage k).isSome
      · refine hset.imp (fun hheld => hpasses.locks _ (hheld ?_)) fun hne => ⟨⟨d, .inr rfl⟩, fun _ => hne⟩
        rwa [← hrely.rows]
      · exact .inr ⟨⟨d, .inr rfl⟩, fun hthere => absurd hthere hrow⟩
  -- another transaction has deleted it, and nothing is written
  · next hnot =>
    intro _ t' ht'
    obtain rfl := List.mem_singleton.mp ht'
    exact hgone s' _ (Bool.eq_false_iff.mpr hnot) (.reads hrely hbooks' rfl rfl rfl fun _ hr => hr)

/-- `save` reads the row again, which is still there. -/
theorem load {next : Option Tag → TagTx} (hbooks : Books s t owed) (hbody : t.body = .load k next)
    (hrow : (s.tables.usage k).isSome)
    (hnext : ∀ s' t' read, (t'.view s').usage k = some read.usageCount →
      Arrives s t s' t' [] (next (some read)) owed → Safe s' t') : Safe s t := by
  refine of_statement hbooks (fun h => by cases hbody.symm.trans h) fun s' hrely hbooks' _ _ => ?_
  have hthere : ((t.view s').usage k).isSome := by
    rw [hbooks'.isSome_view, hrely.rows]
    exact hrow
  unfold TagTables.usage at hthere
  rw [Option.isSome_map] at hthere
  obtain ⟨read, hread⟩ := Option.isSome_iff_exists.mp hthere
  unfold TagTask.statement
  rw [hbody]
  intro t' ht'
  obtain rfl := List.mem_singleton.mp ht'
  have harrives : Arrives s t s' { t with body := next ((t.view s').tags.get? k) } []
      (next ((t.view s').tags.get? k)) owed := .reads hrely hbooks' rfl rfl rfl fun _ hr => hr
  refine hnext s' _ read (congrArg (Option.map _) hread) ?_
  rw [← hread]
  exact harrives

/-- The `UPDATE` of a `save` whose transaction has pinned the count that it has read again. -/
theorem updateRow {read mem : Tag} (hbooks : Books s t owed) (hbody : t.body = .updateRow read mem next)
    (hpin : t.Pins mem.id) (hread : (t.view s).usage mem.id = some read.usageCount)
    (hsame : ∀ j, j ≠ mem.id → g j = owed j)
    (howes : ∀ s', Passes s t s' t [] → Books s' t owed → mem.usageCount + g mem.id = (t.view s').uses mem.id)
    (hnext : ∀ s' t', Arrives s t s' t' [.save read mem] next g → Safe s' t') : Safe s t := by
  refine of_statement hbooks (fun h => by cases hbody.symm.trans h) fun s' hrely hbooks' _ => ?_
  have hpasses : Passes s t s' t [] := .reads hrely rfl rfl rfl fun _ hr => hr
  have hcount : (t.view s').usage mem.id = some read.usageCount := (hpasses.usage mem.id hpin).trans hread
  have hthere : ((t.view s').tags.get? mem.id).isSome := by
    rw [← Option.isSome_map (f := (·.usageCount))]
    exact congrArg Option.isSome hcount
  unfold TagTask.statement
  rw [hbody]
  dsimp only
  rw [if_pos hthere]
  refine fun hwaits => lockAnd hrely (fun _ h => by cases h) hwaits ?_
  intro s'' t'' htables hbody' hwrites hlock hlater
  refine hnext s'' t'' ⟨hlater, hbody', ?_⟩
  refine hbooks'.write htables hwrites hlater.locks hsame (fun j hj => RowLock.tag.inj hj.1) (fun n hn => ?_) trivial
    (fun _ _ hd => (by cases hd.1)) (.inl hlock)
  have huses : ((t.view s').write (.save read mem)).uses mem.id = (t.view s').uses mem.id :=
    TagTables.uses_congr fun _ => rfl
  rw [TagTables.usage_write, hcount] at hn
  -- the new count is that of the entity, also where it is not written
  have hnew : n = mem.usageCount := by
    unfold TagWrite.usage at hn
    by_cases he : mem.usageCount = read.usageCount
    · rw [he]
      exact (Option.some.inj ((if_neg fun h => h.2 he).symm.trans hn)).symm
    · exact (Option.some.inj ((if_pos ⟨rfl, he⟩).symm.trans hn)).symm
  rw [hnew, huses]
  exact howes s' hpasses hbooks'

/-- **The rule of `save`** for a tag whose count the transaction has pinned: it becomes the count of the entity. -/
theorem save {mem : Tag} (hbooks : Books s t owed) (hbody : t.body = TagTx.save mem next)
    (hrow : (s.tables.usage mem.id).isSome) (hpin : t.Pins mem.id) (hsame : ∀ j, j ≠ mem.id → g j = owed j)
    (howes : ∀ s' t', Passes s t s' t' [] → Books s' t' owed →
      mem.usageCount + g mem.id = (t'.view s').uses mem.id)
    (hnext : ∀ s' t' read, Arrives s t s' t' [.save read mem] next g → Safe s' t') : Safe s t := by
  refine load hbooks hbody hrow fun s₁ t₁ read hread h₁ => ?_
  refine updateRow h₁.books h₁.atBody (h₁.pins mem.id hpin) hread hsame (fun s₂ hpasses hbooks₂ => ?_)
    fun s₂ t₂ h₂ => hnext s₂ t₂ read (h₂.after h₁.toPasses)
  exact howes s₂ t₁ (h₁.toPasses.trans hpasses) hbooks₂

end Safe

end AcaSocial
