import AcaSocial.Discussion.TagUsage
import AcaSocial.Discussion.UsageBooks

/-!
# Usage counts under interleaving

The transactions of the services keep the usage counts exact, whatever other transactions commit between their
statements, as long as nobody commits a change of what another one has read and not locked.

* **`counts`** — the relative updates of a transaction, one after the other.
* **`safe_update`**, … — each transaction is verified from its first statement to its commit.
* **`CountsApart`** — no transaction overwrites what another one relies on, and no edit misspells a tag that it keeps.
* **`usageCounts_exact`** — in every interleaving of that kind the counts are exact in every state.
-/

namespace AcaSocial

variable {s s' : TagStore} {t t' : TagTask} {d k : Id} {owed : Id → Int} {next : TagTx}

open TagTx

/-! ## Relative updates

`UPDATE ... SET usage_count = usage_count + 1` is a statement of its own for each tag, in the order of the texts of
the ids. -/

/-- The relative updates of some tags, one after the other. -/
def TagTx.counts (us : List (Id × Int)) (next : TagTx) : TagTx := us.foldr (fun u next => .count u.2 u.1 next) next

/-- The loop of the source is a list of updates. -/
theorem tagCounts_eq_counts (ids : List UuidText) (delta : Int) (next : TagTx) :
    tagCounts ids delta next = counts ((sortTexts ids).map fun u => (u.id, delta)) next := by
  unfold tagCounts counts
  rw [List.foldr_map]

theorem counts_append (us vs : List (Id × Int)) (next : TagTx) :
    counts (us ++ vs) next = counts us (counts vs next) := List.foldr_append

/-- A written row that changes no link. -/
def TagWrite.Counts : TagWrite → Prop
  | .count _ _ => True
  | _ => False

/-- Updates of counters leave the links alone. -/
theorem TagTables.linked_counts {T : TagTables} {ws : List TagWrite} (h : ∀ w ∈ ws, w.Counts) :
    (ws.foldl TagTables.write T).linked d k = T.linked d k := by
  induction ws generalizing T with
  | nil => rfl
  | cons w ws ih =>
    have hcounts : w.Counts := h w List.mem_cons_self
    refine (ih fun w' hw' => h w' (List.mem_cons_of_mem w hw')).trans (TagTables.linked_write ?_ ?_)
    · rintro rfl
      exact hcounts
    · rintro rfl
      exact hcounts

/-- **The updates of a transaction.** `room k` is a number of links that stay with the tag `k` while the updates run. -/
theorem safe_counts {us : List (Id × Int)} (room : Id → Nat) (hbooks : Books s t owed) (hbody : t.body = counts us next)
    (hroom : ∀ s' t' ws, Passes s t s' t' ws → (∀ w ∈ ws, w.Counts) → ∀ k, room k ≤ (t'.view s').uses k)
    (hstays : Stays (fun k => room k - owed k) us)
    (hnext : ∀ s' t' ws, (∀ w ∈ ws, w.Counts) → Arrives s t s' t' ws next (fun k => owed k - total us k) → Safe s' t') :
    Safe s t := by
  -- each update pays a part of what is owed
  induction us generalizing s t owed with
  | nil =>
    have howed : (fun k => owed k - total [] k) = owed := funext fun k => Int.sub_zero _
    rw [howed] at hnext
    exact hnext s t [] (fun _ hw => absurd hw List.not_mem_nil) (.here hbody hbooks)
  | cons u us ih =>
    obtain ⟨hfirst, hrest⟩ := hstays
    refine Safe.count (g := fun k => owed k - if u.1 = k then u.2 else 0) hbooks hbody ?_ ?_ ?_ ?_
    · exact congrArg _ (if_pos rfl)
    · exact fun j hj => (congrArg _ (if_neg (Ne.symm hj))).trans (Int.sub_zero _)
    · intro s' hpasses
      have hle := hroom s' t [] hpasses (fun _ hw => absurd hw List.not_mem_nil) u.1
      have hle : (room u.1 : Int) ≤ (t.view s').uses u.1 := Int.ofNat_le.mpr hle
      have hfirst : 0 ≤ (room u.1 - owed u.1 : Int) + u.2 := hfirst
      omega
    · intro s₁ t₁ ws₁ hws₁ h₁
      have hcounts₁ : ∀ w ∈ ws₁, w.Counts := fun w hw => hws₁ w hw ▸ trivial
      have happend : ∀ {ws : List TagWrite}, (∀ w ∈ ws, w.Counts) → ∀ w ∈ ws₁ ++ ws, w.Counts :=
        fun hws w hw => (List.mem_append.mp hw).elim (hcounts₁ w) (hws w)
      -- what is owed from here on is less by the first update
      refine ih h₁.books h₁.atBody (fun s₂ t₂ ws₂ h₂ hws₂ => ?_) ?_ fun s₂ t₂ ws₂ hws₂ h₂ => ?_
      · exact hroom s₂ t₂ _ (h₁.toPasses.trans h₂) (happend hws₂)
      · have hchanged : changed (fun k => room k - owed k) u
            = fun k => room k - (owed k - if u.1 = k then u.2 else 0) := funext fun k => by
          show (room k - owed k : Int) + (if u.1 = k then u.2 else 0) = _
          omega
        rwa [hchanged] at hrest
      · refine hnext s₂ t₂ (ws₁ ++ ws₂) (happend hws₂) ?_
        have howed : (fun k => owed k - total (u :: us) k)
            = fun k => (owed k - if u.1 = k then u.2 else 0) - total us k := funext fun k => by
          rw [total_cons]
          omega
        rw [howed]
        exact h₂.after h₁.toPasses

/-! ## Links

What the statements of a transaction make of the links. -/

/-- New links of a discussion to tags that are locked, or that owe nothing to the other side. -/
theorem safe_insertLinks {ks : List Id} (hnodup : ks.Nodup) (hbooks : Books s t owed)
    (hbody : t.body = insertLinks d ks next) (hset : ∀ k ∈ ks, t.HasTag s k ∨ 0 ≤ owed k)
    (hnext : ∀ s' t' ws, (∀ w ∈ ws, ∃ k ∈ ks, w = .link d k) →
      Arrives s t s' t' ws next (fun k => owed k + if k ∈ ks then 1 else 0) → Safe s' t') : Safe s t := by
  -- each new link is owed to the counter of its tag
  induction ks generalizing s t owed with
  | nil =>
    have howed : (fun k => owed k + if k ∈ [] then 1 else 0) = owed :=
      funext fun k => (congrArg _ (if_neg List.not_mem_nil)).trans (Int.add_zero _)
    rw [howed] at hnext
    exact hnext s t [] (fun _ hw => absurd hw List.not_mem_nil) (.here hbody hbooks)
  | cons k ks ih =>
    obtain ⟨hk, hnodup⟩ := List.nodup_cons.mp hnodup
    refine Safe.insertLink (g := fun j => owed j + if j = k then 1 else 0) hbooks hbody ?_ ?_ ?_ ?_
    · exact congrArg _ (if_pos rfl)
    · exact fun j hj => (congrArg _ (if_neg hj)).trans (Int.add_zero _)
    · refine (hset k List.mem_cons_self).imp_right fun hle => ?_
      rw [if_pos rfl]
      omega
    · intro s₁ t₁ h₁
      refine ih hnodup h₁.books h₁.atBody (fun j hj => ?_) fun s₂ t₂ ws₂ hws₂ h₂ => ?_
      · refine (hset j (List.mem_cons_of_mem k hj)).imp h₁.hasTag fun hle => ?_
        split <;> omega
      · refine hnext s₂ t₂ ([.link d k] ++ ws₂) (fun w hw => ?_) ?_
        · rcases List.mem_append.mp hw with hw | hw
          · exact ⟨k, List.mem_cons_self, List.mem_singleton.mp hw⟩
          · obtain ⟨j, hj, rfl⟩ := hws₂ w hw
            exact ⟨j, List.mem_cons_of_mem k hj, rfl⟩
        · have howed : (fun j => owed j + if j ∈ k :: ks then 1 else 0)
              = fun j => (owed j + if j = k then 1 else 0) + if j ∈ ks then 1 else 0 := funext fun j => by
            by_cases hj : j = k
            · subst hj
              simp [hk]
            · simp [hj]
          rw [howed]
          exact h₂.after h₁.toPasses

/-- Links of a discussion that are deleted, all of them there and of tags that are locked. -/
theorem safe_deleteLinks {ks : List Id} (hnodup : ks.Nodup) (hbooks : Books s t owed)
    (hbody : t.body = ks.foldr (.deleteLink d) next) (hset : ∀ k ∈ ks, t.HasTag s k) (hpost : .post d ∈ t.watched)
    (hlinked : ∀ k ∈ ks, (t.view s).linked d k = true)
    (hnext : ∀ s' t' ws, Arrives s t s' t' ws next (fun k => owed k - if k ∈ ks then 1 else 0) → Safe s' t') :
    Safe s t := by
  induction ks generalizing s t owed with
  | nil =>
    have howed : (fun k => owed k - if k ∈ [] then 1 else 0) = owed :=
      funext fun k => (congrArg _ (if_neg List.not_mem_nil)).trans (Int.sub_zero _)
    rw [howed] at hnext
    exact hnext s t [] (.here hbody hbooks)
  | cons k ks ih =>
    obtain ⟨hk, hnodup⟩ := List.nodup_cons.mp hnodup
    refine Safe.deleteLink (g := fun j => owed j - if j = k then 1 else 0) hbooks hbody ?_ ?_ ?_ ?_ ?_
    · exact congrArg _ (if_pos rfl)
    · exact fun j hj => (congrArg _ (if_neg hj)).trans (Int.sub_zero _)
    · exact .inl (hset k List.mem_cons_self)
    · -- the link is still there
      intro s₁ t₁ hgone h₁
      have hstill : (t₁.view s₁).linked d k = true :=
        (h₁.linked d k (.inl hpost)).trans (hlinked k List.mem_cons_self)
      rw [hgone] at hstill
      cases hstill
    · intro s₁ t₁ h₁
      refine ih hnodup h₁.books h₁.atBody (fun j hj => h₁.hasTag (hset j (List.mem_cons_of_mem k hj)))
        (h₁.posts d hpost) (fun j hj => ?_) fun s₂ t₂ ws₂ h₂ => ?_
      · rw [h₁.linked d j (.inl hpost)]
        exact (TagTables.linked_write_unlink d k d j).mpr
          ⟨hlinked j (List.mem_cons_of_mem k hj), fun he => hk (he.2 ▸ hj)⟩
      · have howed : (fun j => owed j - if j ∈ k :: ks then 1 else 0)
            = fun j => (owed j - if j = k then 1 else 0) - if j ∈ ks then 1 else 0 := funext fun j => by
          by_cases hj : j = k
          · subst hj
            simp [hk]
          · simp [hj]
        rw [howed] at hnext
        exact hnext s₂ t₂ _ (h₂.after h₁.toPasses)

/-- The links of a discussion become those of its new tags, whose counts have been moved before. -/
theorem safe_saveTags {old new : List Id}
    (hbooks : Books s t fun k => (if k ∈ old then 1 else 0) - if k ∈ new then 1 else 0)
    (hbody : t.body = saveTags d new .commit) (hnew : new.Nodup) (hpost : .post d ∈ t.watched)
    (hold : ∀ k, k ∈ old ↔ (t.view s).linked d k = true) (hset : ∀ k, k ∈ old ∨ k ∈ new → t.HasTag s k) : Safe s t := by
  refine Safe.tagsOf hbooks hbody fun s₁ t₁ now hnodup hpost₁ hnow _ h₁ => ?_
  have hsame : ∀ k, k ∈ now ↔ k ∈ old := fun k => by
    rw [hnow, hold, h₁.linked d k (.inl hpost)]
    rfl
  refine safe_insertLinks (hnew.filter _) h₁.books h₁.atBody (fun k hk => ?_) fun s₂ t₂ ws hws h₂ => ?_
  · exact .inl (h₁.hasTag (hset k (.inr (List.mem_filter.mp hk).1)))
  · refine safe_deleteLinks (hnodup.filter _) h₂.books h₂.atBody (fun k hk => ?_) (h₂.posts d hpost₁) (fun k hk => ?_)
      fun s₃ t₃ _ h₃ => ?_
    · exact h₂.hasTag (h₁.hasTag (hset k (.inl ((hsame k).mp (List.mem_filter.mp hk).1))))
    · rw [h₂.linked d k (.inl hpost₁)]
      refine TagTables.linked_writes_of ((hnow k).mp (List.mem_filter.mp hk).1) fun hmem => ?_
      obtain ⟨j, -, he⟩ := hws _ hmem
      cases he
    · refine Safe.commit h₃.atBody (h₃.books.same rfl rfl (fun _ hr => hr) fun k _ => ?_)
      simp only [List.mem_filter, decide_eq_true_eq, hsame]
      by_cases hkold : k ∈ old <;> by_cases hknew : k ∈ new <;> simp [hkold, hknew]

/-- The tags of a locking query. -/
theorem safe_lockTags {ids : List UuidText} (hbooks : Books s t owed) (hbody : t.body = lockTags ids next)
    (hnext : ∀ s' t', (∀ u ∈ ids, t'.HasTag s' u.id) → Arrives s t s' t' [] next owed → Safe s' t') : Safe s t := by
  have hall : ∀ (ks : List Id) {s : TagStore} {t : TagTask}, Books s t owed → t.body = ks.foldr .lockTag next →
      (∀ s' t', (∀ k ∈ ks, t'.HasTag s' k) → Arrives s t s' t' [] next owed → Safe s' t') → Safe s t := by
    intro ks
    induction ks with
    | nil =>
      intro s t hbooks hbody hnext
      exact hnext s t (fun _ hk => absurd hk List.not_mem_nil) (.here hbody hbooks)
    | cons k ks ih =>
      intro s t hbooks hbody hnext
      refine Safe.lockTag hbooks hbody fun s₁ t₁ hk h₁ => ?_
      refine ih h₁.books h₁.atBody fun s₂ t₂ hks h₂ => hnext s₂ t₂ (fun j hj => ?_) (h₂.after h₁.toPasses)
      rcases List.mem_cons.mp hj with rfl | hj
      · exact h₂.hasTag hk
      · exact hks j hj
  refine hall _ hbooks hbody fun s' t' hks h => hnext s' t' (fun u hu => hks u.id ?_) h
  rw [(List.perm_insertionSort _ _).mem_iff, List.mem_dedup]
  exact List.mem_map_of_mem hu

/-! ## The transactions of posts

A creation, an edit, a removal and a review, each safe from a store with exact counters on. -/

/-- Counters that are only raised, each from one below at least. -/
theorem Stays.of_increments {f : Id → Int} {us : List (Id × Int)} (h : ∀ u ∈ us, u.2 = 1 ∧ -1 ≤ f u.1) : Stays f us := by
  induction us generalizing f with
  | nil => trivial
  | cons u us ih =>
    obtain ⟨hone, hle⟩ := h u List.mem_cons_self
    refine ⟨by omega, ih fun v hv => ?_⟩
    obtain ⟨hv, hlev⟩ := h v (List.mem_cons_of_mem u hv)
    refine ⟨hv, ?_⟩
    show -1 ≤ f v.1 + if u.1 = v.1 then u.2 else 0
    split <;> omega

/-- The order of the updates does not change what they add up to. -/
theorem total_sortTexts (ids : List UuidText) (delta : Int) (k : Id) :
    total ((sortTexts ids).map fun u => (u.id, delta)) k = delta * ids.countP fun u => decide (u.id = k) := by
  have hperm : ((sortTexts ids).map fun u => (u.id, delta)).Perm (ids.map fun u => (u.id, delta)) :=
    (List.perm_insertionSort _ _).map _
  rw [total_perm hperm, total_map]

/-- A new post counts its tags. -/
theorem safe_create {tagIds : List UuidText} (hexact : s.tables.Exact) (hwrites : t.writes = [])
    (hbody : t.body = DiscussionsService.createStatements tagIds) : Safe s t := by
  refine Safe.tags (.start hexact hwrites) hbody fun s₁ t₁ found hfound hnodup h₁ => ?_
  refine Safe.insertPost h₁.books h₁.atBody fun s₂ t₂ d h₂ => ?_
  refine safe_insertLinks hnodup h₂.books h₂.atBody (fun _ _ => .inr (le_refl 0)) fun s₃ t₃ _ _ h₃ => ?_
  have hcount : ∀ k, (tagIds.eraseDups.countP fun u => decide (u.id = k)) = if k ∈ found.map (·.id) then 1 else 0 := by
    intro k
    rw [← hnodup.count, hfound.count_eq, List.count, List.countP_map]
    exact List.countP_congr fun a _ => by simp
  refine safe_counts (fun _ => 0) h₃.books (h₃.atBody.trans (tagCounts_eq_counts _ _ _))
    (fun _ _ _ _ _ _ => Nat.zero_le _) (.of_increments fun u hu => ?_) fun s₄ t₄ _ _ h₄ => ?_
  · obtain ⟨v, -, rfl⟩ := List.mem_map.mp hu
    refine ⟨rfl, ?_⟩
    dsimp only
    split <;> omega
  · refine Safe.commit h₄.atBody (h₄.books.same rfl rfl (fun _ hr => hr) fun k _ => ?_)
    rw [total_sortTexts, hcount]
    split <;> omega

/-- The counts of the old and the new tags of a discussion move as its links do, and then the links move. -/
theorem safe_recount {us : List (Id × Int)} (old : List Id) {new : List Id} (hbooks : Books s t fun _ => 0)
    (hbody : t.body = counts us (saveTags d new .commit)) (hnew : new.Nodup) (hpost : .post d ∈ t.watched)
    (hold : ∀ k, k ∈ old ↔ (t.view s).linked d k = true) (hset : ∀ k, k ∈ old ∨ k ∈ new → t.HasTag s k)
    (hstays : Stays (fun k => if k ∈ old then 1 else 0) us)
    (htotal : ∀ k, total us k + (if k ∈ old then 1 else 0) = if k ∈ new then 1 else 0) : Safe s t := by
  have hlinked : ∀ {s' t' ws}, Passes s t s' t' ws → (∀ w ∈ ws, w.Counts) → ∀ k,
      k ∈ old ↔ (t'.view s').linked d k = true := fun h hws k => by
    rw [h.linked d k (.inl hpost), TagTables.linked_counts hws, hold]
  refine safe_counts (fun k => if k ∈ old then 1 else 0) hbooks hbody (fun s' t' ws h hws k => ?_) ?_
    fun s' t' ws hws h => ?_
  · -- the discussion is linked to its old tags all along
    split
    · next hk => exact List.length_pos_of_mem (TagTables.mem_linkedTo.mpr ((hlinked h hws k).mp hk))
    · exact Nat.zero_le _
  · have hroom : (fun k => (((if k ∈ old then 1 else 0 : Nat) : Int) - 0)) = fun k => if k ∈ old then 1 else 0 :=
      funext fun k => by split <;> rfl
    exact hroom ▸ hstays
  · have howed : (fun k => 0 - total us k) = fun k => (if k ∈ old then 1 else 0) - if k ∈ new then 1 else 0 :=
      funext fun k => by
        have hk := htotal k
        omega
    refine safe_saveTags (howed ▸ h.books) h.atBody hnew (h.posts d hpost) (hlinked h.toPasses hws) ?_
    exact fun k hk => h.hasTag (hset k hk)

/-- An edit counts the tags in which the two lists differ. -/
theorem safe_update {id : UuidText} {tagIds : List UuidText} {waits : Bool} (hexact : s.tables.Exact)
    (hwrites : t.writes = []) (hwatched : t.watched = []) (hnames : t.names = tagIds.eraseDups)
    (hbody : t.body = DiscussionsService.updateStatements id tagIds waits) : Safe s t := by
  refine Safe.lockPost (.start hexact hwrites) hbody hwatched fun s₁ t₁ h₁ => ?_
  have hbody₁ := h₁.atBody
  split at hbody₁
  · -- the edit becomes a draft, and no tag changes
    exact Safe.checkTags h₁.books hbody₁ fun s₂ t₂ h₂ => .commit h₂.atBody h₂.books
  refine Safe.tags h₁.books hbody₁ fun s₂ t₂ found hfound hnodup h₂ => ?_
  refine Safe.tagsOf h₂.books h₂.atBody fun s₃ t₃ old hold hpost hlinks hspelled h₃ => ?_
  refine safe_lockTags h₃.books h₃.atBody fun s₄ t₄ hset h₄ => ?_
  have hbody₄ := h₄.atBody
  rw [tagCounts_eq_counts, tagCounts_eq_counts, ← counts_append] at hbody₄
  have hnames₂ : t₂.names = tagIds.eraseDups := by rw [h₂.names, h₁.names, hnames]
  -- the counters are changed by the difference between the old tags and the new ones
  refine safe_recount old h₄.books hbody₄ hnodup (h₄.posts _ hpost) (fun k => ?_) (fun k hk => ?_) ?_
    fun k => ?_
  · rw [hlinks, h₄.linked _ k (.inl hpost)]
    rfl
  · rcases hk with hk | hk
    · exact hset (Id.text k) (List.mem_append_left _ (List.mem_map_of_mem hk))
    · obtain ⟨u, hu, rfl⟩ := List.mem_map.mp (hfound.mem_iff.mp hk)
      exact hset u (List.mem_append_right _ hu)
  · refine .of_decrements (fun k => by split <;> decide) (fun u hu hneg => ?_) ?_
    · rcases List.mem_append.mp hu with hu | hu
      · obtain ⟨v, hv, rfl⟩ := List.mem_map.mp hu
        obtain ⟨k, hk, rfl⟩ := List.mem_map.mp (List.mem_filter.mp (mem_sortTexts.mp hv)).1
        exact ⟨rfl, (if_pos hk).ge⟩
      · obtain ⟨v, -, rfl⟩ := List.mem_map.mp hu
        exact absurd hneg (show ¬ (1 : Int) < 0 by decide)
    · -- only tags that the discussion has are counted down, each once
      have hdown : ((sortTexts ((old.map Id.text).filter fun t => decide (t ∉ tagIds.eraseDups))).map
          fun u => (u.id, (-1 : Int))).filter (fun u => decide (u.2 < 0))
            = (sortTexts ((old.map Id.text).filter fun t => decide (t ∉ tagIds.eraseDups))).map fun u => (u.id, -1) := by
        refine List.filter_eq_self.mpr fun u hu => ?_
        obtain ⟨v, -, rfl⟩ := List.mem_map.mp hu
        rfl
      have hup : ∀ ids : List UuidText, ((sortTexts ids).map fun u => (u.id, (1 : Int))).filter
          (fun u => decide (u.2 < 0)) = [] := by
        refine fun ids => List.filter_eq_nil_iff.mpr fun u hu => ?_
        obtain ⟨v, -, rfl⟩ := List.mem_map.mp hu
        exact of_decide_eq_false rfl
      have hids : (((old.map Id.text).filter fun t => decide (t ∉ tagIds.eraseDups)).map (·.id)).Sublist old := by
        conv_rhs => rw [← map_text_id old]
        exact List.filter_sublist.map _
      rw [List.filter_append, hdown, hup, List.append_nil, List.map_map]
      exact ((List.perm_insertionSort _ _).map _).nodup_iff.mpr (hids.nodup hold)
  · rw [total_append, total_sortTexts, total_sortTexts]
    refine countP_retag hold hnodup (fun _ => hfound.mem_iff) (fun j hj hid => ?_) k
    obtain ⟨u, hu, rfl⟩ := List.mem_map.mp hid
    exact hspelled u (hnames₂ ▸ hu) hj ▸ hu

/-- The updates of a review pass over the tags that it keeps. -/
theorem foldr_count_eq_counts (f : UuidText → Int) (us : List UuidText) (next : TagTx) :
    us.foldr (fun t next => if f t = 0 then next else .count (f t) t.id next) next
      = counts ((us.filter fun t => decide (f t ≠ 0)).map fun t => (t.id, f t)) next := by
  induction us with
  | nil => rfl
  | cons u us ih =>
    rw [List.foldr_cons, ih]
    by_cases hu : f u = 0
    · rw [if_pos hu, List.filter_cons_of_neg (by simpa using hu)]
    · rw [if_neg hu, List.filter_cons_of_pos (by simpa using hu)]
      rfl

/-- Updates by zero may be left out. -/
theorem total_filter_ne_zero (f : UuidText → Int) (us : List UuidText) (k : Id) :
    total ((us.filter fun t => decide (f t ≠ 0)).map fun t => (t.id, f t)) k = total (us.map fun t => (t.id, f t)) k := by
  induction us with
  | nil => rfl
  | cons u us ih =>
    rw [List.map_cons, total_cons, ← ih]
    by_cases hu : f u = 0
    · rw [List.filter_cons_of_neg (by simpa using hu), hu, ite_self, Int.zero_add]
    · rw [List.filter_cons_of_pos (by simpa using hu), List.map_cons, total_cons]

/-- A review counts the tags in which the post and the draft differ. -/
theorem safe_review {id : UuidText} {tagIds : List UuidText} (hexact : s.tables.Exact)
    (hwrites : t.writes = []) (hwatched : t.watched = [])
    (hbody : t.body = ModerationService.reviewStatements id tagIds) : Safe s t := by
  refine Safe.lockPost (.start hexact hwrites) hbody hwatched fun s₁ t₁ h₁ => ?_
  refine Safe.tags h₁.books h₁.atBody fun s₂ t₂ found hfound hnodup h₂ => ?_
  refine Safe.tagsOf h₂.books h₂.atBody fun s₃ t₃ old hold hpost hlinks _ h₃ => ?_
  refine safe_lockTags h₃.books h₃.atBody fun s₄ t₄ hset h₄ => ?_
  have haffected : (ModerationService.affectedTexts old tagIds).Nodup :=
    (List.perm_insertionSort _ _).nodup_iff.mpr (nodup_eraseDups _)
  have hmem : ∀ u, u ∈ ModerationService.affectedTexts old tagIds ↔ u ∈ old.map Id.text ∨ u ∈ tagIds := fun u => by
    rw [ModerationService.affectedTexts, mem_sortTexts, List.mem_eraseDups, List.mem_append]
  -- a count that goes down is that of a tag of the discussion, as the database spells it
  have hdown : ∀ u, ModerationService.deltaOf old tagIds u < 0 →
      u ∈ old.map Id.text ∧ ModerationService.deltaOf old tagIds u = -1 := by
    intro u hneg
    unfold ModerationService.deltaOf at hneg ⊢
    by_cases hnew : u ∈ tagIds <;> by_cases hu : u ∈ old.map Id.text <;> simp [hnew, hu] at hneg ⊢
  refine safe_recount old h₄.books (h₄.atBody.trans (foldr_count_eq_counts _ _ _)) hnodup (h₄.posts _ hpost)
    (fun k => ?_) (fun k hk => ?_) ?_ fun k => ?_
  · rw [hlinks, h₄.linked _ k (.inl hpost)]
    rfl
  · rcases hk with hk | hk
    · exact hset (Id.text k) ((hmem _).mpr (.inl (List.mem_map_of_mem hk)))
    · obtain ⟨u, hu, rfl⟩ := List.mem_map.mp (hfound.mem_iff.mp hk)
      exact hset u ((hmem u).mpr (.inr hu))
  · refine .of_decrements (fun k => by split <;> decide) (fun u hu hneg => ?_) ?_
    · obtain ⟨v, -, rfl⟩ := List.mem_map.mp hu
      obtain ⟨hv, hone⟩ := hdown v hneg
      obtain ⟨k, hk, rfl⟩ := List.mem_map.mp hv
      exact ⟨hone, (if_pos hk).ge⟩
    · rw [List.filter_map, List.map_map]
      refine List.Nodup.map_on (fun u hu u' hu' he => ?_) ((haffected.filter _).filter _)
      obtain ⟨k, -, rfl⟩ := List.mem_map.mp (hdown u (of_decide_eq_true (List.mem_filter.mp hu).2)).1
      obtain ⟨k', -, rfl⟩ := List.mem_map.mp (hdown u' (of_decide_eq_true (List.mem_filter.mp hu').2)).1
      exact congrArg Id.text he
  · have htotal := total_map_sub UuidText.id (fun u => decide (u ∈ tagIds)) (fun u => decide (u ∈ old.map Id.text))
      (ModerationService.affectedTexts old tagIds) k
    simp only [decide_eq_true_eq] at htotal
    rw [total_filter_ne_zero]
    unfold ModerationService.deltaOf
    rw [htotal]
    exact countP_draft hold hnodup hfound haffected hmem k

/-! ## The transactions of tags

A change of status and a merge, which locks both tags and recounts. -/

/-- A change of status counts nothing. -/
theorem safe_setStatus {id : UuidText} {active : Bool} (hexact : s.tables.Exact) (hwrites : t.writes = [])
    (hbody : t.body = TagsService.setStatusStatements id active) : Safe s t := by
  refine Safe.findTag (.start hexact hwrites) hbody fun s₁ t₁ tag hid hpin hcount h₁ => ?_
  have hbody₁ := h₁.atBody
  split at hbody₁
  · exact .rollback hbody₁ h₁.books
  · rw [← hid] at hpin hcount
    have hrow : (s₁.tables.usage tag.id).isSome := by
      rw [← h₁.books.isSome_view, hcount]
      rfl
    refine Safe.save h₁.books hbody₁ hrow hpin (fun _ _ => rfl) (fun s₂ t₂ h₂ hbooks₂ => ?_) fun s₂ t₂ _ h₂ =>
      .commit h₂.atBody h₂.books
    -- the count is the one that was read
    exact hbooks₂.owes tag.id tag.usageCount ((h₂.usage tag.id hpin).trans hcount)

/-- What the target of a merge owes. -/
def owing (k : Id) (m : Int) : Id → Int := fun j => if j = k then m else 0

/-- The links that a merge gives to its target. -/
theorem safe_addLinks {ds : List Id} {m : Int} (hm : 0 ≤ m) (hbooks : Books s t (owing k m))
    (hbody : t.body = ds.foldr (fun d next => .addLink d k next) next)
    (hnext : ∀ s' t' ws m', Arrives s t s' t' ws next (owing k m') → Safe s' t') : Safe s t := by
  induction ds generalizing s t m with
  | nil => exact hnext s t [] m (.here hbody hbooks)
  | cons d ds ih =>
    refine Safe.addLink (g := owing k (m + 1)) hbooks hbody ?_ ?_ ?_ ?_ ?_
    · simp [owing]
    · exact fun j hj => (if_neg hj).trans (if_neg hj).symm
    · refine .inr ?_
      rw [owing, if_pos rfl]
      omega
    · exact fun s₁ t₁ h₁ => ih hm h₁.books h₁.atBody fun s₂ t₂ ws m' h₂ => hnext s₂ t₂ _ m' (h₂.after h₁.toPasses)
    · exact fun s₁ t₁ h₁ => ih (by omega) h₁.books h₁.atBody fun s₂ t₂ ws m' h₂ =>
        hnext s₂ t₂ _ m' (h₂.after h₁.toPasses)

/-- The links that a merge takes from its source: in the end there are none. -/
theorem safe_unlink {ds : List Id} (hle : owed k ≤ 0) (hrow : (s.tables.usage k).isSome) (hpin : t.Pins k)
    (hbooks : Books s t owed) (hbody : t.body = ds.foldr (fun d next => .deleteLink d k next) next)
    (hall : ∀ d, (t.view s).linked d k = true → d ∈ ds)
    (hnext : ∀ s' t' ws owed', (∀ j, j ≠ k → owed' j = owed j) → (∀ d, (t'.view s').linked d k = false) →
      Arrives s t s' t' ws next owed' → Safe s' t') : Safe s t := by
  induction ds generalizing s t owed with
  | nil =>
    refine hnext s t [] owed (fun _ _ => rfl) (fun d => ?_) (.here hbody hbooks)
    exact Bool.eq_false_iff.mpr fun hd => List.not_mem_nil (hall d hd)
  -- a link that is gone in the meantime is skipped, and one that is there is owed for
  | cons d ds ih =>
    refine Safe.deleteLink (g := fun j => if j = k then owed k - 1 else owed j) hbooks hbody (if_pos rfl)
      (fun j hj => if_neg hj) (.inr ?_) (fun s₁ t₁ hgone h₁ => ?_) fun s₁ t₁ h₁ => ?_
    · rw [if_pos rfl]
      omega
    · refine ih hle (h₁.rows k ▸ hrow) (h₁.pins k hpin) h₁.books h₁.atBody (fun d' hd' => ?_)
        fun s₂ t₂ ws owed' hsame hnone h₂ => hnext s₂ t₂ _ owed' hsame hnone (h₂.after h₁.toPasses)
      have hold : (t.view s).linked d' k = true := (h₁.linked d' k (.inr ⟨hpin, hrow⟩)).symm.trans hd'
      refine (List.mem_cons.mp (hall d' hold)).resolve_left fun he => ?_
      rw [he, hgone] at hd'
      cases hd'
    · have hle₁ : (fun j => if j = k then owed k - 1 else owed j) k ≤ 0 := by
        show (if k = k then owed k - 1 else owed k) ≤ 0
        rw [if_pos rfl]
        omega
      refine ih hle₁ (h₁.rows k ▸ hrow) (h₁.pins k hpin) h₁.books
        h₁.atBody (fun d' hd' => ?_) fun s₂ t₂ ws owed' hsame hnone h₂ => ?_
      · rw [h₁.linked d' k (.inr ⟨hpin, hrow⟩)] at hd'
        obtain ⟨hold, hne⟩ := (TagTables.linked_write_unlink d k d' k).mp hd'
        exact (List.mem_cons.mp (hall d' hold)).resolve_left fun he => hne ⟨he.symm, rfl⟩
      · refine hnext s₂ t₂ _ owed' (fun j hj => ?_) hnone (h₂.after h₁.toPasses)
        rw [hsame j hj, if_neg hj]

/-- A tag without links. -/
theorem TagTables.uses_eq_zero {T : TagTables} (h : ∀ d, T.linked d k = false) : T.uses k = 0 := by
  refine List.length_eq_zero_iff.mpr (List.eq_nil_iff_forall_not_mem.mpr fun d hd => ?_)
  rw [TagTables.mem_linkedTo, h] at hd
  cases hd

/-- A merge recounts the tag that is left. -/
theorem safe_merge {sourceId targetId : UuidText} (hexact : s.tables.Exact) (hwrites : t.writes = [])
    (hbody : t.body = TagsService.mergeStatements sourceId targetId) : Safe s t := by
  refine Safe.mergeable (.start hexact hwrites) hbody fun s₁ t₁ source target hne hsource htarget h₁ => ?_
  refine Safe.selectLinks h₁.books h₁.atBody fun s₂ t₂ ds h₂ => ?_
  have hnone : (fun _ => 0) = owing target.id 0 := funext fun j => (ite_self 0).symm
  refine safe_addLinks (le_refl 0) (hnone ▸ h₂.books) h₂.atBody fun s₃ t₃ _ m h₃ => ?_
  refine Safe.deleteLinks h₃.books h₃.atBody fun s₄ t₄ ds₄ hpin hall h₄ => ?_
  have hrow₄ : ∀ k, (s₁.tables.usage k).isSome → (s₄.tables.usage k).isSome := fun k hk => by
    rwa [h₄.rows, h₃.rows, h₂.rows]
  refine safe_unlink (if_neg hne).le (hrow₄ _ hsource) hpin h₄.books h₄.atBody hall
    fun s₅ t₅ _ owed' hsame hunlinked h₅ => ?_
  have hrow₅ : ∀ k, (s₁.tables.usage k).isSome → (s₅.tables.usage k).isSome := fun k hk => by
    rw [h₅.rows]
    exact hrow₄ k hk
  -- the source has no links left, and its count is set to that
  refine Safe.save (g := owing target.id m) h₅.books h₅.atBody (hrow₅ _ hsource) (h₅.pins _ hpin) (fun j hj => ?_)
    (fun s₆ t₆ h₆ _ => ?_) fun s₆ t₆ _ h₆ => ?_
  · exact (hsame j hj).symm
  · have hzero : (t₆.view s₆).uses source.id = 0 := TagTables.uses_eq_zero fun d => by
      rw [h₆.linked d _ (.inr ⟨h₅.pins _ hpin, hrow₅ _ hsource⟩)]
      exact hunlinked d
    show (0 : Int) + owing target.id m source.id = _
    rw [hzero, owing, if_neg hne]
    rfl
  · -- and that of the target to the number of its links
    refine Safe.countLinks h₆.books h₆.atBody fun s₇ t₇ hpin₇ h₇ => ?_
    have hrow₇ : (s₇.tables.usage target.id).isSome := by
      rw [h₇.rows, h₆.rows]
      exact hrow₅ _ htarget
    refine Safe.save (g := fun _ => 0) h₇.books h₇.atBody hrow₇ hpin₇ (fun j hj => (if_neg hj).symm)
      (fun s₈ t₈ h₈ _ => ?_) fun s₈ t₈ _ h₈ => .commit h₈.atBody h₈.books
    have hsame : (t₈.view s₈).uses target.id = (t₇.view s₇).uses target.id :=
      TagTables.uses_congr fun d => h₈.linked d _ (.inr ⟨hpin₇, hrow₇⟩)
    rw [hsame]
    exact Int.add_zero _

/-! ## Every interleaving

The counters are exact whenever no transaction is in the middle of its updates. -/

/-- The requests that write links or counts, or save a tag for its status. -/
def TagRequest.Recounts : TagRequest → Prop
  | .create _ | .update _ _ _ | .review _ _ | .setStatus _ _ | .merge _ _ => True
  | .remove _ | .updateTag _ _ | .removeTag _ => False

instance : DecidablePred TagRequest.Recounts
  | .create _ | .update _ _ _ | .review _ _ | .setStatus _ _ | .merge _ _ => .isTrue trivial
  | .remove _ | .updateTag _ _ | .removeTag _ => .isFalse not_false

/-- Every transaction is safe when it begins. -/
theorem safe_enter {r : TagRequest} (hexact : s.tables.Exact) (hr : r.Recounts) : Safe s (tagTransactions.enter r) := by
  cases r with
  | create tagIds => exact safe_create hexact rfl rfl
  | update id tagIds waits => exact safe_update hexact rfl rfl rfl rfl
  | review id tagIds => exact safe_review hexact rfl rfl rfl
  | setStatus id active => exact safe_setStatus hexact rfl rfl
  | merge sourceId targetId => exact safe_merge hexact rfl rfl
  | remove | updateTag | removeTag => exact hr.elim

namespace TagTables

variable {T : TagTables} {ws : List TagWrite}

/-- Writes that do not touch a tag leave its counter. -/
theorem usage_writes_of_not (h : ∀ w ∈ ws, ¬ w.Touches (.tag k)) : (ws.foldl write T).usage k = T.usage k :=
  usage_writes_of_links fun w hw hk => absurd hk (h w hw)

/-- Writes that do not touch a link leave it. -/
theorem linked_writes_of_not (h : ∀ w ∈ ws, ¬ w.Touches (.link d k)) :
    (ws.foldl write T).linked d k = T.linked d k := by
  induction ws generalizing T with
  | nil => rfl
  | cons w ws ih =>
    exact (ih fun w' hw' => h w' (List.mem_cons_of_mem w hw')).trans (linked_write_of_not (h w List.mem_cons_self))

end TagTables

/-- A row that touches a link touches its discussion and its tag. -/
theorem TagWrite.Touches.parts {w : TagWrite} (h : w.Touches (.link d k)) :
    w.Touches (.post d) ∧ w.Touches (.tag k) := by
  cases w with
  | link | unlink =>
    rcases h with he | he | he
    · obtain ⟨rfl, rfl⟩ := RowLock.link.inj he
      exact ⟨.inr (.inl rfl), .inr (.inr rfl)⟩
    · cases he
    · cases he
  | count | delete | insert => cases h
  | save => cases h.1

/-- **The guarantee.** A statement leaves another transaction what that one relies on, when it overwrites nothing that
the other has read and not locked. -/
theorem relies_exec {fails : Bool} {o : TagTask} (hlocked : t.body = .commit → HasLocked s t)
    (hpair : t.locks.Disjoint o.locks) (hclash : ¬ Overwrites fails s t o) :
    o.Relies s (tagTransactions.exec fails s t).store := by
  cases fails with
  | true => exact .of_tables rfl
  | false =>
  rcases (tagStep_exec false s t).tables with hsame | ⟨hbody, hview⟩
  · exact .of_tables hsame
  · have hl := hlocked hbody
    -- a commit writes what it has locked, which the other has not, and nothing that the other has read
    have hwatched : ∀ r ∈ o.watched, ∀ w ∈ t.writes, ¬ w.Touches r :=
      fun r hr w hw hk => hclash ⟨rfl, hbody ▸ rfl, r, hr, w, hw, hk⟩
    have hrows : ∀ k, ((t.view s).usage k).isSome = (s.tables.usage k).isSome :=
      fun k => TagTables.isSome_usage_writes hl.keeps
    have hpin : ∀ k, o.Pins k → (s.tables.usage k).isSome → ∀ w ∈ t.writes, ¬ w.Touches (.tag k) := by
      rintro k (hlock | hwatch) hrow w hw hk
      · exact hpair (hl.tags w hw k hk hrow) hlock
      · exact hwatched _ hwatch w hw hk
    constructor
    · intro k hk
      rw [hview]
      cases hrow : s.tables.usage k with
      | none =>
        have hnone := hrows k
        rw [hrow] at hnone
        exact Option.isSome_eq_false_iff.mp hnone |> Option.isNone_iff_eq_none.mp
      | some n => exact (TagTables.usage_writes_of_not (hpin k hk (hrow ▸ rfl))).trans hrow
    · intro k hk hrow d
      rw [hview]
      exact TagTables.linked_writes_of_not fun w hw hd => hpin k hk hrow w hw hd.parts.2
    · intro d k hk
      rw [hview]
      refine TagTables.linked_writes_of_not fun w hw hd => ?_
      rcases hk with hlock | hwatch
      · exact hpair (hl.links w hw d k hd) hlock
      · exact hwatched _ hwatch w hw hd.parts.1
    · intro k
      rw [hview, hrows]

/-- A request of the ones above comes in, or a statement runs that overwrites nothing and reads no misspelled tag. -/
def CountsApart (p : Pool TagStore TagTask) (act : Act TagRequest Bool) : Prop :=
  (∀ r, act = .start r → r.Recounts) ∧ (∀ t ∈ p.running act, ¬ MisspellsTags p.store t) ∧ p.Apart Overwrites act

instance (p : Pool TagStore TagTask) : DecidablePred (CountsApart p)
  | .start r => decidable_of_iff r.Recounts
    ⟨fun h => ⟨fun _ he => Act.start.inj he ▸ h, fun _ ht => (nomatch ht), trivial⟩, fun h => h.1 r rfl⟩
  | .run i x => decidable_of_iff ((∀ t ∈ p.running (.run i x : Act TagRequest Bool), ¬ MisspellsTags p.store t)
      ∧ p.Apart Overwrites (.run i x : Act TagRequest Bool))
    ⟨fun h => ⟨fun _ he => (nomatch he), h⟩, fun h => h.2⟩

/-- The invariant of the pool: every transaction is safe, and no two hold one lock. -/
structure CountsKept (p : Pool TagStore TagTask) : Prop where
  secured : Pool.Secured tagTransactions usageContract p
  separate : p.Separate TagStore.locks TagTask.locks

/-- One statement of one transaction keeps the counters. -/
theorem CountsKept.step {p : Pool TagStore TagTask} {act : Act TagRequest Bool} (h : CountsKept p)
    (hact : CountsApart p act) : CountsKept (p.step tagTransactions act) := by
  obtain ⟨henters, hspelled, hapart⟩ := hact
  have hallowed : p.Allowed usageContract TagRequest.Recounts act := by
    cases act with
    | start r => exact henters r rfl
    | run i x =>
      intro n t hi
      refine hspelled t ?_
      rw [Option.mem_def, Pool.running, hi]
      rfl
  have hguarantee : ∀ x s t o, usageContract.inv s → usageContract.brings s t → t.locks.Disjoint o.locks →
      ¬ Overwrites x s t o → usageContract.rely o s (tagTransactions.exec x s t).store :=
    fun x s t o _ hlocked hpair hclash => relies_exec hlocked hpair hclash
  refine ⟨?_, separate_step h.separate act⟩
  exact .step (fun s r hexact hr => safe_enter hexact hr) hguarantee
    (fun i n t hi o ho => h.separate.others hi o ho) hallowed hapart h.secured

/-- **Usage counts under interleaving.** From exact counts, in every interleaving of transactions in which none commits
a change of what another one has read and not locked, and no edit misspells a tag that its discussion has, the counts
are exact in every state. -/
theorem usageCounts_exact (s : TagStore) (h : s.tables.Exact) (acts : List (Act TagRequest Bool))
    (hacts : Meets (Pool.step tagTransactions) CountsApart (.idle s) acts) :
    Always (Pool.step tagTransactions) (fun p => p.store.tables.Exact) (.idle s) acts := by
  have hidle : CountsKept (.idle s) := ⟨⟨h, fun _ ha => absurd ha List.not_mem_nil⟩, .idle s⟩
  exact (always_of_meets (fun _ _ _ hp hact => CountsKept.step hp hact) hidle hacts).imp fun _ hp => hp.secured.inv

/-! ## Samples

A run in which a tag is deactivated while a post with it is written. -/

namespace Sample

/-- A change of the status of the tag `3` reads it, a new post with that tag is committed, and the status is saved. -/
def statusAroundPost : List (Act TagRequest Bool) :=
  [.start (.setStatus (Id.text 3) false), .run 0 false, .start (.create [Id.text 3])]
    ++ List.replicate 5 (.run 1 false) ++ List.replicate 5 (.run 0 false)

/-- A change of the status of the tag `3` and a new post with the other tag, a statement of each in turn. -/
def statusBesidePost : List (Act TagRequest Bool) :=
  [.start (.setStatus (Id.text 3) false), .start (.create [Id.text 5])] ++ List.replicate 10 (.run 0 false)

end Sample

theorem usageCounts_exact_statusBesidePost :
    Always (Pool.step tagTransactions) (fun p => p.store.tables.Exact) (.idle Sample.twoTags) Sample.statusBesidePost :=
  usageCounts_exact Sample.twoTags (by decide) Sample.statusBesidePost (by decide)

/-- All transactions have ended, and a tag with two links has the usage count `1`. -/
theorem not_usageCounts_exact :
    Sample.twoTags.tables.Exact
      ∧ (run (Pool.step tagTransactions) (.idle Sample.twoTags) Sample.statusAroundPost).tasks.isEmpty
      ∧ ¬ (run (Pool.step tagTransactions) (.idle Sample.twoTags) Sample.statusAroundPost).store.tables.Exact := by
  decide

end AcaSocial
