import AcaSocial.Base.Newest
import AcaSocial.Base.Table
import AcaSocial.Base.Timestamps
import Mathlib.Data.Finset.Card

/-!
# The list of notifications

`merge` of `lib/notifications/context.tsx`, which puts what the API and the stream deliver into the list.

* **`merge`** — one batch of entries. The 30 newest items stay in the list.
* **`mergeAll`** — batch after batch, from the empty list.
* **`Shows`** — the list has the 30 newest of the entries that were delivered, each as read as one of its copies was.
* **`merge_order_irrelevant`** — only which entries were delivered matters.

An item that has left the list loses its flag. `shows_merge` says that it does not come back.
-/

namespace AcaSocial.Frontend

open Timestamps

/-! ## Entries and items

What the API sends and what the list shows. -/

/-- A value in the `data` of a notification. -/
inductive Unknown where
  | string (text : String)
  /-- Anything else. -/
  | other
deriving DecidableEq

/-- An entry of the REST API and of the stream. A `readAt` of `none` is `null`: the services always send the field, and the
list would show an entry without it as read. The other fields are `none` when they are missing or `null`. -/
structure ApiNotification where
  id : String
  type : Option String
  title : String
  body : String
  createdAt : String
  readAt : Option String
  data : Option (List (String × Unknown)) := none
deriving DecidableEq

structure AppNotification where
  id : String
  type : String
  title : String
  body : String
  createdAt : String
  read : Bool
  actorName : Option String
  href : Option String
deriving DecidableEq

/-- `typeof n.data?.[field] === 'string' ? n.data[field] : undefined` -/
def ApiNotification.text (n : ApiNotification) (field : String) : Option String :=
  match n.data.bind (·.lookup field) with
  | some (.string text) => some text
  | _ => none

/-- `encodeURIComponent`. -/
def encodeURIComponent (text : String) : String :=
  let hex (n : Nat) : Char := "0123456789ABCDEF".toList.getD n '0'
  String.ofList <| text.toList.flatMap fun c =>
    if c.isAlphanum || "-_.!~*'()".toList.contains c then [c]
    else (String.utf8EncodeChar c).flatMap fun byte => ['%', hex (byte.toNat / 16), hex (byte.toNat % 16)]

def mapApiNotification (n : ApiNotification) : AppNotification where
  id := n.id
  type := n.type.getD "system.security_warning"
  title := n.title
  body := n.body
  createdAt := n.createdAt
  read := n.readAt.isSome
  actorName := n.text "actorName"
  href := (n.text "discussionId").map fun id => "/posts/" ++ encodeURIComponent id

/-! ## Batches

A batch is the answer of the API or one frame of the stream. `merge` puts it into the list. -/

/-- A `Map` of items under their ids. -/
abbrev ById := Table String AppNotification (·.id)

/-- `byId.set(entry.id, …)` of the loop. -/
def setEntry (byId : ById) (entry : ApiNotification) : ById :=
  let mapped := mapApiNotification entry
  byId.upsert { mapped with read := mapped.read || ((byId.get? entry.id).map (·.read)).getD false }

variable (localeCompare : String → String → Int)

/-- `aborted` is `controller.signal.aborted`. -/
def merge (aborted : Bool) (entries : List ApiNotification) (current : List AppNotification) : List AppNotification :=
  if aborted then current
  else
    let byId := entries.foldl setEntry (current.foldl Table.upsert ∅)
    (byId.rows.mergeSort fun a b => decide (localeCompare b.createdAt a.createdAt ≤ 0)).take 30

/-- The list after these batches. -/
def mergeAll (batches : List (List ApiNotification)) : List AppNotification :=
  batches.foldl (fun current entries => merge localeCompare false entries current) []

/-! ## What was delivered

Copies of one entry differ in `readAt` only, and entries are ordered by their times. -/

/-- The characters that stand in ISO-8601 texts beside the digits of the time. An offset has digits too. -/
def isoLiterals : List Char := "-:.,TZ+W0123456789".toList

/-- Texts of one ISO-8601 format are compared as texts. A collation could do otherwise with other texts. -/
def ComparesIso : Prop :=
  ∀ format : Format, (∀ c, some c ∈ format → c ∈ isoLiterals) →
    ∀ a b : String, HasFormat format a.toList → HasFormat format b.toList →
      (localeCompare a b < 0 ↔ a < b) ∧ (0 < localeCompare a b ↔ b < a)

/-- When an entry was created. -/
def ApiNotification.time (format : Format) (e : ApiNotification) : Nat := stamp format e.createdAt.toList

def AppNotification.time (format : Format) (n : AppNotification) : Nat := stamp format n.createdAt.toList

/-- Copies of one entry differ in `readAt` only, and no two entries were created at one time. -/
structure Consistent (format : Format) (seen : List ApiNotification) : Prop where
  copies : ∀ e ∈ seen, ∀ e' ∈ seen, e.id = e'.id → { e with readAt := none } = { e' with readAt := none }
  distinct : ∀ e ∈ seen, ∀ e' ∈ seen, e.createdAt = e'.createdAt → e.id = e'.id
  literals : ∀ c, some c ∈ format → c ∈ isoLiterals
  hasFormat : ∀ e ∈ seen, HasFormat format e.createdAt.toList

/-- Some copy of the entry with this id was read. -/
def anyRead (seen : List ApiNotification) (id : String) : Bool :=
  seen.any fun e => decide (e.id = id) && e.readAt.isSome

/-- The item of an entry, as read as one of its copies was. -/
def itemOf (seen : List ApiNotification) (e : ApiNotification) : AppNotification :=
  { mapApiNotification e with read := anyRead seen e.id }

/-- The times of the entries. -/
def times (format : Format) (seen : List ApiNotification) : Finset Nat := (seen.map (·.time format)).toFinset

/-- The ids of the entries that were created after `e`. -/
def newerIds (format : Format) (seen : List ApiNotification) (e : ApiNotification) : Finset String :=
  ((seen.filter fun e' => decide (e.time format < e'.time format)).map (·.id)).toFinset

/-- The list has the 30 newest of the entries that were delivered, newest first. -/
structure Shows (format : Format) (seen : List ApiNotification) (shown : List AppNotification) : Prop where
  ordered : shown.Pairwise fun a b => b.time format < a.time format
  mem : ∀ n, n ∈ shown ↔ ∃ e ∈ seen, e.time format ∈ newest 30 (times format seen) ∧ n = itemOf seen e

/-! ## Facts about entries

What is said of delivered entries depends on which they are, not on their order. -/

section

variable {format : Format} {seen seen' : List ApiNotification}

/-- Fewer entries are consistent as well. -/
theorem Consistent.mono (h : Consistent format seen) (hsub : ∀ e ∈ seen', e ∈ seen) : Consistent format seen' where
  copies := fun e he e' he' => h.copies e (hsub e he) e' (hsub e' he')
  distinct := fun e he e' he' => h.distinct e (hsub e he) e' (hsub e' he')
  literals := h.literals
  hasFormat := fun e he => h.hasFormat e (hsub e he)

/-- Copies have one time. -/
theorem Consistent.time_eq (h : Consistent format seen) {e e' : ApiNotification} (he : e ∈ seen) (he' : e' ∈ seen)
    (hid : e.id = e'.id) : e.time format = e'.time format := by
  have hcreated := congrArg ApiNotification.createdAt (h.copies e he e' he' hid)
  show stamp format e.createdAt.toList = stamp format e'.createdAt.toList
  rw [hcreated]

/-- Entries with one time are copies. -/
theorem Consistent.id_eq (h : Consistent format seen) {e e' : ApiNotification} (he : e ∈ seen) (he' : e' ∈ seen)
    (htime : e.time format = e'.time format) : e.id = e'.id := by
  have htext := stamp_inj (h.hasFormat e he) (h.hasFormat e' he') htime
  exact h.distinct e he e' he' (String.toList_inj.mp htext)

/-- Copies have one item. -/
theorem Consistent.itemOf_eq (h : Consistent format seen) {e e' : ApiNotification} (he : e ∈ seen) (he' : e' ∈ seen)
    (hid : e.id = e'.id) (all : List ApiNotification) : itemOf all e = itemOf all e' := by
  have hcopy := h.copies e he e' he' hid
  show { mapApiNotification { e with readAt := none } with read := anyRead all e.id } = _
  rw [hcopy, hid]
  rfl

theorem anyRead_append (all more : List ApiNotification) (id : String) :
    anyRead (all ++ more) id = (anyRead all id || anyRead more id) := List.any_append

/-- An entry was read when a copy of it says so. -/
theorem anyRead_iff {id : String} : anyRead seen id = true ↔ ∃ e ∈ seen, e.id = id ∧ e.readAt ≠ none := by
  rw [anyRead, List.any_eq_true]
  simp only [Bool.and_eq_true, decide_eq_true_eq, Option.isSome_iff_ne_none]

/-- The times of the entries. -/
theorem mem_times {t : Nat} : t ∈ times format seen ↔ ∃ e ∈ seen, e.time format = t := by
  rw [times, List.mem_toFinset, List.mem_map]

/-- What an item is does not depend on the order of the entries. -/
theorem itemOf_congr (h : ∀ e, e ∈ seen ↔ e ∈ seen') (e : ApiNotification) : itemOf seen e = itemOf seen' e := by
  have hread : anyRead seen e.id = anyRead seen' e.id := by
    rw [Bool.eq_iff_iff, anyRead_iff, anyRead_iff]
    simp only [h]
  rw [itemOf, hread]
  rfl

/-- Neither does the list. -/
theorem Shows.unique {shown shown' : List AppNotification} (h : Shows format seen shown)
    (h' : Shows format seen' shown') (hsame : ∀ e, e ∈ seen ↔ e ∈ seen') : shown = shown' := by
  have htimes : times format seen = times format seen' := by
    ext t
    rw [mem_times, mem_times]
    simp only [hsame]
  refine eq_of_sorted h.ordered h'.ordered ?_
  intro n
  rw [h.mem, h'.mem, htimes]
  simp only [hsame, itemOf_congr hsame]

end

/-! ## One batch

The entries of a batch are put into a map by their ids, one after the other. -/

section

variable {format : Format} {seen : List ApiNotification}

/-- An entry replaces the one with its id. -/
theorem mem_upsert {byId : ById} {n m : AppNotification} :
    n ∈ byId.upsert m ↔ n = m ∨ n.id ≠ m.id ∧ n ∈ byId := by
  rw [Table.mem_iff_get?, Table.get?_upsert, Table.mem_iff_get?]
  by_cases hid : m.id = n.id
  · rw [if_pos hid, Option.some.injEq]
    exact ⟨fun h => .inl h.symm, fun h => h.elim Eq.symm fun h => absurd hid.symm h.1⟩
  · rw [if_neg hid]
    refine ⟨fun h => .inr ⟨Ne.symm hid, h⟩, fun h => h.elim ?_ And.right⟩
    rintro rfl
    exact absurd rfl hid

/-- The `Map` of the items of a list. -/
theorem mem_foldl_upsert {items : List AppNotification} {byId : ById} {n : AppNotification}
    (hnodup : (items.map (·.id)).Nodup) (hfresh : ∀ m ∈ byId, ∀ i ∈ items, m.id ≠ i.id) :
    n ∈ items.foldl Table.upsert byId ↔ n ∈ byId ∨ n ∈ items := by
  induction items generalizing byId with
  | nil => exact ⟨.inl, fun h => h.elim id fun h => absurd h List.not_mem_nil⟩
  | cons item items ih =>
    rw [List.map_cons, List.nodup_cons, List.mem_map] at hnodup
    have hrest : ∀ m ∈ byId.upsert item, ∀ i ∈ items, m.id ≠ i.id := by
      intro m hm i hi
      rcases mem_upsert.mp hm with rfl | ⟨_, hm⟩
      · exact fun heq => hnodup.1 ⟨i, hi, heq.symm⟩
      · exact hfresh m hm i (List.mem_cons_of_mem _ hi)
    have hstays : n ∈ byId → n.id ≠ item.id := fun hn => hfresh n hn item List.mem_cons_self
    rw [List.foldl_cons, ih hnodup.2 hrest, mem_upsert, List.mem_cons]
    constructor
    · rintro ((rfl | ⟨_, hn⟩) | hn)
      · exact .inr (.inl rfl)
      · exact .inl hn
      · exact .inr (.inr hn)
    · rintro (hn | rfl | hn)
      · exact .inl (.inr ⟨hstays hn, hn⟩)
      · exact .inl (.inl rfl)
      · exact .inr hn

/-- The `Map` in the middle of a batch, with the entries `done` of it. Each of its items stems from an entry, and it has
the item of each entry that is new or has not left the list. The item of another may have lost its flag. -/
structure Folded (format : Format) (seen done : List ApiNotification) (byId : ById) : Prop where
  stems : ∀ n ∈ byId, ∃ e ∈ seen ++ done, e.id = n.id ∧ e.createdAt = n.createdAt
  items : ∀ e ∈ seen ++ done,
    e.time format ∈ newest 30 (times format seen) ∨ (∀ e' ∈ seen, e'.id ≠ e.id) → itemOf (seen ++ done) e ∈ byId

/-- Every entry is shown once. -/
theorem Shows.nodup_ids {shown : List AppNotification} (hconsistent : Consistent format seen)
    (h : Shows format seen shown) : (shown.map (·.id)).Nodup := by
  refine List.Nodup.map_on ?_ (h.ordered.imp fun hlt heq => hlt.ne (congrArg _ heq.symm))
  intro n hn m hm hid
  obtain ⟨e, he, _, rfl⟩ := (h.mem n).mp hn
  obtain ⟨e', he', _, rfl⟩ := (h.mem m).mp hm
  exact hconsistent.itemOf_eq he he' hid seen

/-- Before a batch the map has what is shown. -/
theorem Folded.start {shown : List AppNotification} (hconsistent : Consistent format seen)
    (h : Shows format seen shown) : Folded format seen [] (shown.foldl Table.upsert ∅) := by
  have hnodup := h.nodup_ids hconsistent
  have hmem : ∀ n, n ∈ shown.foldl Table.upsert (∅ : ById) ↔ n ∈ shown := by
    intro n
    rw [mem_foldl_upsert hnodup fun m hm => absurd hm (Table.not_mem_empty m)]
    exact ⟨fun hn => hn.elim (fun hn => absurd hn (Table.not_mem_empty n)) id, .inr⟩
  constructor
  · intro n hn
    obtain ⟨e, he, _, rfl⟩ := (h.mem n).mp ((hmem n).mp hn)
    exact ⟨e, List.mem_append_left _ he, rfl, rfl⟩
  · intro e he hcase
    rw [List.append_nil] at he ⊢
    rcases hcase with hnew | hfresh
    · exact (hmem _).mpr ((h.mem _).mpr ⟨e, he, hnew, rfl⟩)
    · exact absurd rfl (hfresh e he)

/-- What the `Map` knows of the other copies of an entry that is new or has not left the list. -/
theorem Folded.flag {done : List ApiNotification} {byId : ById} {x : ApiNotification}
    (hconsistent : Consistent format (seen ++ done ++ [x])) (h : Folded format seen done byId)
    (hcase : x.time format ∈ newest 30 (times format seen) ∨ ∀ e' ∈ seen, e'.id ≠ x.id) :
    ((byId.get? x.id).map (·.read)).getD false = anyRead (seen ++ done) x.id := by
  have hx : x ∈ seen ++ done ++ [x] := List.mem_append_right _ List.mem_cons_self
  by_cases hcopy : ∃ e ∈ seen ++ done, e.id = x.id
  · obtain ⟨e, he, hid⟩ := hcopy
    have htime := hconsistent.time_eq (List.mem_append_left _ he) hx hid
    have hitem : itemOf (seen ++ done) e ∈ byId := by
      refine h.items e he ?_
      rw [htime, hid]
      exact hcase
    have hget : byId.get? e.id = some (itemOf (seen ++ done) e) := Table.get?_key hitem
    rw [← hid, hget]
    rfl
  · have hget : byId.get? x.id = none := by
      refine Table.get?_eq_none.mpr ?_
      intro n hn hkey
      obtain ⟨e, he, hid, _⟩ := h.stems n hn
      exact hcopy ⟨e, he, hid.trans hkey⟩
    have hnone : anyRead (seen ++ done) x.id = false := by
      rw [Bool.eq_false_iff, ne_eq, anyRead_iff]
      rintro ⟨e, he, hid, _⟩
      exact hcopy ⟨e, he, hid⟩
    rw [hget, hnone]
    rfl

/-- One entry of a batch. -/
theorem Folded.set {done : List ApiNotification} {byId : ById} {x : ApiNotification}
    (hconsistent : Consistent format (seen ++ done ++ [x])) (h : Folded format seen done byId) :
    Folded format seen (done ++ [x]) (setEntry byId x) := by
  have hx : x ∈ seen ++ done ++ [x] := List.mem_append_right _ List.mem_cons_self
  constructor
  · intro n hn
    rw [← List.append_assoc]
    rcases mem_upsert.mp hn with rfl | ⟨_, hn⟩
    · exact ⟨x, hx, rfl, rfl⟩
    · obtain ⟨e, he, hsame⟩ := h.stems n hn
      exact ⟨e, List.mem_append_left _ he, hsame⟩
  · intro e he hcase
    rw [← List.append_assoc] at he ⊢
    -- whether a copy of `e` was read, now that `x` is seen too
    have hread : anyRead (seen ++ done ++ [x]) e.id
        = (anyRead (seen ++ done) e.id || (decide (x.id = e.id) && x.readAt.isSome)) := by
      rw [anyRead_append]
      exact congrArg _ (Bool.or_false _)
    by_cases hid : e.id = x.id
    · -- the item that is set is the one of `e`
      have hflag := h.flag hconsistent (hconsistent.time_eq he hx hid ▸ hid ▸ hcase)
      refine mem_upsert.mpr (.inl ?_)
      rw [hflag, hconsistent.itemOf_eq he hx hid, itemOf, ← hid, hread, decide_eq_true hid.symm, Bool.true_and,
        Bool.or_comm]
      rfl
    -- another id: its item stays, and it cannot be `x`
    · have hold : e ∈ seen ++ done := by
        rcases List.mem_append.mp he with he | he
        · exact he
        · exact absurd (congrArg _ (List.mem_singleton.mp he)) hid
      have hitem : itemOf (seen ++ done ++ [x]) e = itemOf (seen ++ done) e := by
        rw [itemOf, hread, decide_eq_false (Ne.symm hid), Bool.false_and, Bool.or_false]
        rfl
      rw [hitem]
      exact mem_upsert.mpr (.inr ⟨hid, h.items e hold hcase⟩)

/-- A whole batch. -/
theorem Folded.foldl {done entries : List ApiNotification} {byId : ById}
    (hconsistent : Consistent format (seen ++ done ++ entries)) (h : Folded format seen done byId) :
    Folded format seen (done ++ entries) (entries.foldl setEntry byId) := by
  induction entries generalizing done byId with
  | nil =>
    rw [List.append_nil]
    exact h
  | cons x entries ih =>
    have hone : Consistent format (seen ++ done ++ [x]) := by
      refine hconsistent.mono ?_
      intro e he
      rcases List.mem_append.mp he with he | he
      · exact List.mem_append_left _ he
      · exact List.mem_append_right _ (List.mem_singleton.mp he ▸ List.mem_cons_self)
    have hrest : Consistent format (seen ++ (done ++ [x]) ++ entries) := by
      rw [← List.append_assoc, List.append_assoc _ [x]]
      exact hconsistent
    have hall := ih hrest (h.set hone)
    rw [List.append_assoc] at hall
    exact hall

/-! ## The list after a batch

The map is sorted and cut, and shows the newest entries again. -/

variable {localeCompare : String → String → Int}

/-- No two items have one time. -/
theorem Folded.eq_of_time {entries : List ApiNotification} {byId : ById}
    (hconsistent : Consistent format (seen ++ entries)) (h : Folded format seen entries byId) {n m : AppNotification}
    (hn : n ∈ byId) (hm : m ∈ byId) (htime : n.time format = m.time format) : n = m := by
  obtain ⟨e, he, hid, hcreated⟩ := h.stems n hn
  obtain ⟨e', he', hid', hcreated'⟩ := h.stems m hm
  have hsame : e.time format = e'.time format := by
    show stamp format e.createdAt.toList = stamp format e'.createdAt.toList
    rw [hcreated, hcreated']
    exact htime
  exact Table.eq_of_key_eq hn hm (hid.symm.trans ((hconsistent.id_eq he he' hsame).trans hid'))

/-- `sort` puts the newest item first. -/
theorem Folded.sorted {entries : List ApiNotification} {byId : ById} (hlocale : ComparesIso localeCompare)
    (hconsistent : Consistent format (seen ++ entries)) (h : Folded format seen entries byId) :
    (byId.rows.mergeSort fun a b => decide (localeCompare b.createdAt a.createdAt ≤ 0)).Pairwise
      fun a b => b.time format < a.time format := by
  have hfits : ∀ n ∈ byId.rows, HasFormat format n.createdAt.toList := by
    intro n hn
    obtain ⟨e, he, _, hcreated⟩ := h.stems n hn
    rw [← hcreated]
    exact hconsistent.hasFormat e he
  -- between items of one format, `sort` sees the times
  have hcompare : ∀ a ∈ byId.rows, ∀ b ∈ byId.rows, decide (localeCompare b.createdAt a.createdAt ≤ 0)
      = decide ((id b).time format ≤ (id a).time format) := by
    intro a ha b hb
    have hsign := (hlocale format hconsistent.literals b.createdAt a.createdAt (hfits b hb) (hfits a ha)).2
    have htext := lt_iff_stamp_lt (hfits a ha) (hfits b hb)
    rw [String.lt_iff_toList_lt, htext] at hsign
    rw [decide_eq_decide, ← not_lt, ← not_lt]
    exact not_congr hsign
  have hsort := @List.map_mergeSort _ _ (fun a b => decide (localeCompare b.createdAt a.createdAt ≤ 0))
    (fun a b : AppNotification => decide (b.time format ≤ a.time format)) id byId.rows hcompare
  rw [List.map_id, List.map_id] at hsort
  rw [hsort]
  have hle : (byId.rows.mergeSort fun a b => decide (b.time format ≤ a.time format)).Pairwise
      fun a b => decide (b.time format ≤ a.time format) = true := by
    apply List.pairwise_mergeSort
    · intro a b c hab hbc
      exact decide_eq_true (le_trans (of_decide_eq_true hbc) (of_decide_eq_true hab))
    · intro a b
      rw [Bool.or_eq_true, decide_eq_true_eq, decide_eq_true_eq]
      exact le_total _ _
  have hnodup : (byId.rows.mergeSort fun a b => decide (b.time format ≤ a.time format)).Nodup :=
    (List.mergeSort_perm _ _).nodup_iff.mpr (List.Nodup.of_map _ byId.nodup)
  refine (hle.and hnodup).imp_of_mem ?_
  intro a b ha hb hab
  have hne : b.time format ≠ a.time format := fun heq =>
    hab.2 (h.eq_of_time hconsistent (List.mem_mergeSort.mp ha) (List.mem_mergeSort.mp hb) heq.symm)
  exact lt_of_le_of_ne (of_decide_eq_true hab.1) hne

/-- What is among the newest now was so before, if it was there, and so its flag is right. -/
theorem Folded.item_mem {entries : List ApiNotification} {byId : ById}
    (hconsistent : Consistent format (seen ++ entries)) (h : Folded format seen entries byId) {e : ApiNotification}
    (he : e ∈ seen ++ entries) (hnew : e.time format ∈ newest 30 (times format (seen ++ entries))) :
    itemOf (seen ++ entries) e ∈ byId := by
  refine h.items e he ?_
  by_cases hold : ∃ e' ∈ seen, e'.id = e.id
  · obtain ⟨e', he', hid⟩ := hold
    have htime := hconsistent.time_eq (List.mem_append_left _ he') he hid
    have hsub : times format seen ⊆ times format (seen ++ entries) := by
      intro t ht
      obtain ⟨e₀, he₀, rfl⟩ := mem_times.mp ht
      exact mem_times.mpr ⟨e₀, List.mem_append_left _ he₀, rfl⟩
    exact .inl (mem_newest_of_subset hsub (mem_times.mpr ⟨e', he', htime⟩) hnew)
  · exact .inr fun e' he' hid => hold ⟨e', he', hid⟩

/-- An item has the time of the entry that it stems from. -/
theorem Folded.exists_time {entries : List ApiNotification} {byId : ById} (h : Folded format seen entries byId)
    {n : AppNotification} (hn : n ∈ byId) : ∃ e ∈ seen ++ entries, e.time format = n.time format := by
  obtain ⟨e, he, _, hcreated⟩ := h.stems n hn
  refine ⟨e, he, ?_⟩
  show stamp format e.createdAt.toList = stamp format n.createdAt.toList
  rw [hcreated]

/-- The newest items of a batch are the newest of all, though those that left the list are forgotten. -/
theorem Folded.newest_eq {entries : List ApiNotification} {byId : ById}
    (hconsistent : Consistent format (seen ++ entries)) (h : Folded format seen entries byId) :
    newest 30 (byId.rows.map (·.time format)).toFinset = newest 30 (times format (seen ++ entries)) := by
  apply newest_of_between
  · intro t ht
    obtain ⟨e, he, rfl⟩ := mem_times.mp (newest_subset ht)
    rw [List.mem_toFinset, List.mem_map]
    exact ⟨_, h.item_mem hconsistent he ht, rfl⟩
  · intro t ht
    rw [List.mem_toFinset, List.mem_map] at ht
    obtain ⟨n, hn, rfl⟩ := ht
    exact mem_times.mpr (h.exists_time hn)

/-- **One batch.** The list has the newest of what was delivered with the batch. -/
theorem shows_merge {entries : List ApiNotification} {current : List AppNotification}
    (hlocale : ComparesIso localeCompare) (hconsistent : Consistent format (seen ++ entries))
    (h : Shows format seen current) : Shows format (seen ++ entries) (merge localeCompare false entries current) := by
  have hseen : Consistent format seen := hconsistent.mono fun e he => List.mem_append_left _ he
  have hstart : Consistent format (seen ++ [] ++ entries) := by
    rw [List.append_nil]
    exact hconsistent
  have hfolded : Folded format seen entries (entries.foldl setEntry (current.foldl Table.upsert ∅)) :=
    (Folded.start hseen h).foldl hstart
  have hmerge : merge localeCompare false entries current
      = ((entries.foldl setEntry (current.foldl Table.upsert ∅)).rows.mergeSort
          fun a b => decide (localeCompare b.createdAt a.createdAt ≤ 0)).take 30 := rfl
  generalize entries.foldl setEntry (current.foldl Table.upsert ∅) = byId at hfolded hmerge
  have hsorted := hfolded.sorted hlocale hconsistent
  have hperm := List.mergeSort_perm byId.rows fun a b => decide (localeCompare b.createdAt a.createdAt ≤ 0)
  generalize byId.rows.mergeSort (fun a b => decide (localeCompare b.createdAt a.createdAt ≤ 0)) = rows
    at hmerge hsorted hperm
  rw [hmerge]
  -- the first 30 times are the newest
  have htimes : ∀ t, t ∈ (rows.take 30).map (·.time format) ↔ t ∈ newest 30 (times format (seen ++ entries)) := by
    intro t
    have hset : (rows.map (·.time format)).toFinset = (byId.rows.map (·.time format)).toFinset :=
      List.toFinset_eq_of_perm _ _ (hperm.map _)
    rw [List.map_take, mem_take_iff (List.pairwise_map.mpr hsorted), hset, hfolded.newest_eq hconsistent]
  have hmem : ∀ n ∈ rows.take 30, n ∈ byId := fun n hn => hperm.mem_iff.mp (List.mem_of_mem_take hn)
  constructor
  · exact hsorted.sublist (List.take_sublist 30 rows)
  · intro n
    constructor
    · intro hn
      obtain ⟨e, he, htime⟩ := hfolded.exists_time (hmem n hn)
      have hnew : e.time format ∈ newest 30 (times format (seen ++ entries)) :=
        htime ▸ (htimes _).mp (List.mem_map_of_mem hn)
      have hitem := hfolded.item_mem hconsistent he hnew
      exact ⟨e, he, hnew, hfolded.eq_of_time hconsistent (hmem n hn) hitem htime.symm⟩
    · rintro ⟨e, he, hnew, rfl⟩
      obtain ⟨m, hm, htime⟩ := List.mem_map.mp ((htimes _).mpr hnew)
      have hitem := hfolded.item_mem hconsistent he hnew
      rw [← hfolded.eq_of_time hconsistent (hmem m hm) hitem htime]
      exact hm

/-! ## All batches

The list shows what was delivered, in whatever order. -/

/-- After any batches the list has the newest of what was delivered. -/
theorem shows_mergeAll (hlocale : ComparesIso localeCompare) {batches : List (List ApiNotification)}
    (hconsistent : Consistent format batches.flatten) :
    Shows format batches.flatten (mergeAll localeCompare batches) := by
  have hrun : ∀ (batches : List (List ApiNotification)) seen current, Consistent format (seen ++ batches.flatten) →
      Shows format seen current → Shows format (seen ++ batches.flatten)
        (batches.foldl (fun current entries => merge localeCompare false entries current) current) := by
    intro batches
    induction batches with
    | nil =>
      intro seen current _ h
      rw [List.flatten_nil, List.append_nil]
      exact h
    | cons entries batches ih =>
      intro seen current hall h
      rw [List.flatten_cons, ← List.append_assoc] at hall ⊢
      exact ih _ _ hall (shows_merge hlocale (hall.mono fun e he => List.mem_append_left _ he) h)
  have hempty : Shows format [] [] := by
    constructor
    · exact List.Pairwise.nil
    · intro n
      exact iff_of_false List.not_mem_nil (by rintro ⟨_, he, -⟩; exact absurd he List.not_mem_nil)
  exact hrun batches [] [] hconsistent hempty

/-- An entry is as new among the ids as among the times. -/
theorem mem_newest_times (hconsistent : Consistent format seen) {e : ApiNotification} (he : e ∈ seen) :
    e.time format ∈ newest 30 (times format seen) ↔ (newerIds format seen e).card < 30 := by
  have hnewer : (times format seen).filter (e.time format < ·)
      = ((seen.filter fun e' => decide (e.time format < e'.time format)).map (·.time format)).toFinset := by
    ext t
    rw [Finset.mem_filter, mem_times, List.mem_toFinset, List.mem_map]
    constructor
    · rintro ⟨⟨e', he', rfl⟩, hlt⟩
      exact ⟨e', List.mem_filter.mpr ⟨he', decide_eq_true hlt⟩, rfl⟩
    · rintro ⟨e', he', rfl⟩
      exact ⟨⟨e', List.mem_of_mem_filter he', rfl⟩, of_decide_eq_true (List.mem_filter.mp he').2⟩
  have hcard : (newerIds format seen e).card = ((times format seen).filter (e.time format < ·)).card := by
    rw [hnewer]
    refine card_toFinset_map ?_
    intro a ha b hb
    have ha := List.mem_of_mem_filter ha
    have hb := List.mem_of_mem_filter hb
    exact ⟨hconsistent.time_eq ha hb, hconsistent.id_eq ha hb⟩
  rw [mem_newest, hcard]
  exact ⟨And.right, fun hlt => ⟨mem_times.mpr ⟨e, he, rfl⟩, hlt⟩⟩

/-- Thirty entries are shown at most. -/
theorem Shows.length_le {shown : List AppNotification} (h : Shows format seen shown) : shown.length ≤ 30 := by
  have hnodup : (shown.map (·.time format)).Nodup := by
    rw [List.nodup_iff_pairwise_ne, List.pairwise_map]
    exact h.ordered.imp fun hlt heq => hlt.ne heq.symm
  have hsub : (shown.map (·.time format)).toFinset ⊆ newest 30 (times format seen) := by
    intro t ht
    obtain ⟨n, hn, rfl⟩ := List.mem_map.mp (List.mem_toFinset.mp ht)
    obtain ⟨e, _, hnew, rfl⟩ := (h.mem n).mp hn
    exact hnew
  have hcard := (Finset.card_le_card hsub).trans card_newest
  rw [List.toFinset_card_of_nodup hnodup, List.length_map] at hcard
  exact hcard

/-- **Only which batches were merged matters, not in which order and how often.** The list has one item for each of the
30 newest ids, newest first, and an item is read exactly if some copy of its entry was. -/
theorem merge_order_irrelevant (hlocale : ComparesIso localeCompare) {batches batches' : List (List ApiNotification)}
    (hsame : ∀ entries, entries ∈ batches ↔ entries ∈ batches') (hconsistent : Consistent format batches.flatten) :
    mergeAll localeCompare batches' = mergeAll localeCompare batches
      ∧ ((mergeAll localeCompare batches).map (·.id)).Nodup
      ∧ (mergeAll localeCompare batches).length ≤ 30
      ∧ (mergeAll localeCompare batches).Pairwise (fun a b => b.time format < a.time format)
      ∧ (∀ id, id ∈ (mergeAll localeCompare batches).map (·.id)
          ↔ ∃ e ∈ batches.flatten, e.id = id ∧ (newerIds format batches.flatten e).card < 30)
      ∧ ∀ n ∈ mergeAll localeCompare batches,
          (n.read = true ↔ ∃ e ∈ batches.flatten, e.id = n.id ∧ e.readAt ≠ none)
            ∧ ∃ e ∈ batches.flatten, n = { mapApiNotification e with read := n.read } := by
  -- the merged list depends on the set of entries alone
  have hentries : ∀ e, e ∈ batches'.flatten ↔ e ∈ batches.flatten := by
    intro e
    rw [List.mem_flatten, List.mem_flatten]
    simp only [hsame]
  have hshows := shows_mergeAll hlocale hconsistent
  have hshows' := shows_mergeAll hlocale (hconsistent.mono fun e he => (hentries e).mp he)
  refine ⟨hshows'.unique hshows hentries, hshows.nodup_ids hconsistent, hshows.length_le, hshows.ordered, ?_, ?_⟩
  · intro id
    rw [List.mem_map]
    constructor
    · rintro ⟨n, hn, rfl⟩
      obtain ⟨e, he, hnew, rfl⟩ := (hshows.mem n).mp hn
      exact ⟨e, he, rfl, (mem_newest_times hconsistent he).mp hnew⟩
    · rintro ⟨e, he, rfl, hnew⟩
      exact ⟨_, (hshows.mem _).mpr ⟨e, he, (mem_newest_times hconsistent he).mpr hnew, rfl⟩, rfl⟩
  · intro n hn
    obtain ⟨e, he, _, rfl⟩ := (hshows.mem n).mp hn
    exact ⟨anyRead_iff, e, he, rfl⟩

end

/-- The collation by code units. -/
def byCodeUnits (a b : String) : Int := if a < b then -1 else if b < a then 1 else 0

/-- The comparison by code units compares such texts as `localeCompare` does. -/
theorem byCodeUnits_comparesIso : ComparesIso byCodeUnits := by
  intro _ _ a b _ _
  rw [byCodeUnits]
  rcases lt_trichotomy a b with hlt | rfl | hgt
  · rw [if_pos hlt]
    exact ⟨iff_of_true (by decide) hlt, iff_of_false (by decide) (lt_asymm hlt)⟩
  · rw [if_neg (lt_irrefl a), if_neg (lt_irrefl a)]
    exact ⟨iff_of_false (by decide) (lt_irrefl a), iff_of_false (by decide) (lt_irrefl a)⟩
  · rw [if_neg (lt_asymm hgt), if_pos hgt]
    exact ⟨iff_of_false (by decide) (lt_asymm hgt), iff_of_true (by decide) hgt⟩

/-- The texts of `toISOString`. -/
def isoString : Format :=
  "0000-00-00T00:00:00.000Z".toList.map fun c => if c = '0' then none else some c

/-- Two entries, of which the older one is delivered unread and read. -/
theorem merge_order_irrelevant_stale :
    let entry : String → Option String → ApiNotification := fun createdAt readAt =>
      { id := createdAt, type := some "answer.created", title := "", body := "", createdAt, readAt }
    let newer := entry "2026-07-21T08:15:00.000Z" none
    let older := entry "2026-07-20T08:15:00.000Z" none
    let read := entry "2026-07-20T08:15:00.000Z" (some "2026-07-22T08:15:00.000Z")
    Consistent isoString [[older], [newer], [read]].flatten
      ∧ mergeAll byCodeUnits [[read], [older], [newer], [older]] = mergeAll byCodeUnits [[older], [newer], [read]]
      ∧ ∃ n ∈ mergeAll byCodeUnits [[older], [newer], [read]], n.id = older.id ∧ n.read = true := by
  intro entry newer older read
  have hconsistent : Consistent isoString [[older], [newer], [read]].flatten := by
    have hliterals : ((isoString.filterMap id).all fun c => decide (c ∈ isoLiterals)) = true := by decide +kernel
    have hmem : ∀ c, some c ∈ isoString → c ∈ isoLiterals := fun c hc =>
      of_decide_eq_true (List.all_eq_true.mp hliterals c (List.mem_filterMap.mpr ⟨some c, hc, rfl⟩))
    exact ⟨by decide +kernel, by decide +kernel, hmem, by decide +kernel⟩
  have hsame : ∀ entries, entries ∈ [[older], [newer], [read]] ↔ entries ∈ [[read], [older], [newer], [older]] := by
    intro entries
    simp only [List.mem_cons, List.not_mem_nil, or_false]
    tauto
  obtain ⟨heq, _, _, _, hids, hreads⟩ := merge_order_irrelevant byCodeUnits_comparesIso hsame hconsistent
  refine ⟨hconsistent, heq, ?_⟩
  have hshown : older.id ∈ (mergeAll byCodeUnits [[older], [newer], [read]]).map (·.id) :=
    (hids older.id).mpr ⟨older, by decide +kernel, rfl, by decide +kernel⟩
  obtain ⟨n, hn, hid⟩ := List.mem_map.mp hshown
  exact ⟨n, hn, hid, (hreads n hn).1.mpr ⟨read, by decide +kernel, hid.symm, Option.some_ne_none _⟩⟩

end AcaSocial.Frontend
