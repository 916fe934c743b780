import Mathlib.Data.List.Nodup
import Mathlib.Data.List.Count
import Mathlib.Data.List.Forall2
import Mathlib.Data.List.Perm.Basic
import Mathlib.Data.List.Perm.Subperm
import Mathlib.Tactic.Common

/-!
# Keyed tables

A database table as a list of rows in insertion order in which no two rows share a key.
The uniqueness is a field of the type, so an operation that would break a primary key or a
unique constraint cannot be written, and the proofs above this module never re-establish it.

* **`Table`** — rows under a key: `get?`, `insert` (`ON CONFLICT DO NOTHING`), `save`
  (`UPDATE` of the row with the same key), `upsert`, `modify` (a bulk `UPDATE`), `erase`.
* **`Serial`** — a table whose keys the database generates. The counter never goes back, so
  the key of a deleted row is not handed out again.

The `get?_*` lemmas say what a read sees after a write, the `mem_*` lemmas which rows there
are, and the `filter_*`/`countP_*` lemmas which aggregates a write leaves alone.
-/

namespace AcaSocial

/-- Rows that are found by their key. No two rows share one. -/
structure Table (κ ρ : Type) (key : ρ → κ) where
  rows : List ρ
  nodup : (rows.map key).Nodup

namespace Table

variable {κ ρ : Type} {key : ρ → κ}

instance : Membership ρ (Table κ ρ key) := ⟨fun t r => r ∈ t.rows⟩

theorem mem_def {t : Table κ ρ key} {r : ρ} : r ∈ t ↔ r ∈ t.rows := Iff.rfl

instance [DecidableEq ρ] (t : Table κ ρ key) (r : ρ) : Decidable (r ∈ t) :=
  inferInstanceAs (Decidable (r ∈ t.rows))

/-- The table with no rows. -/
def empty : Table κ ρ key := ⟨[], List.nodup_nil⟩

instance : EmptyCollection (Table κ ρ key) := ⟨empty⟩

@[simp] theorem rows_empty : (∅ : Table κ ρ key).rows = [] := rfl

@[simp] theorem not_mem_empty (r : ρ) : r ∉ (∅ : Table κ ρ key) := List.not_mem_nil

@[ext] theorem ext {t u : Table κ ρ key} (h : t.rows = u.rows) : t = u := by
  cases t; cases u; cases h; rfl

/-- Two rows with one key are one row. -/
theorem eq_of_key_eq {t : Table κ ρ key} {r r' : ρ} (hr : r ∈ t) (hr' : r' ∈ t)
    (hk : key r = key r') : r = r' :=
  List.inj_on_of_nodup_map t.nodup hr hr' hk

/-- The rows that satisfy `p`. -/
def select (t : Table κ ρ key) (p : ρ → Bool) : List ρ := t.rows.filter p

theorem mem_select {t : Table κ ρ key} {p : ρ → Bool} {r : ρ} :
    r ∈ t.select p ↔ r ∈ t ∧ p r = true := List.mem_filter

/-- A bulk `UPDATE` that leaves the keys alone. -/
def modify (t : Table κ ρ key) (f : ρ → ρ) (hf : ∀ r, key (f r) = key r) : Table κ ρ key :=
  ⟨t.rows.map f, by
    have : (t.rows.map f).map key = t.rows.map key := by
      rw [List.map_map]; exact List.map_congr_left fun r _ => hf r
    rw [this]; exact t.nodup⟩

/-- `DELETE` of the rows that satisfy `p`. -/
def erase (t : Table κ ρ key) (p : ρ → Bool) : Table κ ρ key :=
  ⟨t.rows.filter fun r => !p r, (List.filter_sublist.map key).nodup t.nodup⟩

/-- The rows after a write to all of them. -/
theorem mem_modify {t : Table κ ρ key} {f : ρ → ρ} (hf : ∀ r, key (f r) = key r) {r : ρ} :
    r ∈ t.modify f hf ↔ ∃ r₀ ∈ t, f r₀ = r := List.mem_map

/-- The rows that an erasure leaves. -/
theorem mem_erase {t : Table κ ρ key} {p : ρ → Bool} {r : ρ} :
    r ∈ t.erase p ↔ r ∈ t ∧ p r = false := by
  simp [erase, mem_def]

/-- A selection is unchanged by a deletion of rows that are not part of it. -/
theorem select_erase {t : Table κ ρ key} {p q : ρ → Bool} (h : ∀ r ∈ t, p r = true → q r = false) :
    (t.erase q).select p = t.select p := by
  unfold erase select
  rw [List.filter_filter]
  refine List.filter_congr fun r hr => ?_
  cases hp : p r with
  | false => rfl
  | true => simp [h r hr hp]

/-- The part of a table with the rows that satisfy `p`. -/
def restrict (t : Table κ ρ key) (p : ρ → Bool) : Table κ ρ key :=
  ⟨t.rows.filter p, (List.filter_sublist.map key).nodup t.nodup⟩

theorem mem_restrict {t : Table κ ρ key} {p : ρ → Bool} {r : ρ} :
    r ∈ t.restrict p ↔ r ∈ t ∧ p r = true := List.mem_filter

/-- A bulk update that moves no row into or out of the part acts on the part. -/
theorem restrict_modify {t : Table κ ρ key} {f : ρ → ρ} (hf : ∀ r, key (f r) = key r)
    {p : ρ → Bool} (h : ∀ r, p (f r) = p r) :
    (t.modify f hf).restrict p = (t.restrict p).modify f hf := by
  ext1
  simp only [restrict, modify, List.filter_map]
  congr 2
  exact funext h

/-- Two bulk updates that agree on the rows of a table. -/
theorem modify_congr {t : Table κ ρ key} {f g : ρ → ρ} (hf : ∀ r, key (f r) = key r)
    (hg : ∀ r, key (g r) = key r) (h : ∀ r ∈ t, f r = g r) : t.modify f hf = t.modify g hg :=
  Table.ext (List.map_congr_left h)

theorem modify_id {t : Table κ ρ key} {f : ρ → ρ} (hf : ∀ r, key (f r) = key r)
    (h : ∀ r ∈ t, f r = r) : t.modify f hf = t :=
  Table.ext ((List.map_congr_left h).trans (List.map_id _))

variable [DecidableEq κ]

/-- The row with key `k`. -/
def get? (t : Table κ ρ key) (k : κ) : Option ρ := t.rows.find? fun r => decide (key r = k)

/-- What is found under a key is a row of the table with this key. -/
theorem get?_eq_some {t : Table κ ρ key} {k : κ} {r : ρ} :
    t.get? k = some r ↔ r ∈ t ∧ key r = k := by
  constructor
  · intro h
    have hk := List.find?_some h
    exact ⟨List.mem_of_find?_eq_some h, by simpa using hk⟩
  · rintro ⟨hr, rfl⟩
    cases h : t.get? (key r) with
    | none =>
      have := List.find?_eq_none.mp h r hr
      simp at this
    | some r' =>
      have hk := List.find?_some h
      exact congrArg some (eq_of_key_eq (List.mem_of_find?_eq_some h) hr (by simpa using hk))

/-- Nothing is found under a key that no row has. -/
theorem get?_eq_none {t : Table κ ρ key} {k : κ} :
    t.get? k = none ↔ ∀ r ∈ t, key r ≠ k := by
  simp [get?, List.find?_eq_none, mem_def]

/-- A row is found under its own key, as no other row has it. -/
theorem get?_key {t : Table κ ρ key} {r : ρ} (hr : r ∈ t) : t.get? (key r) = some r :=
  get?_eq_some.mpr ⟨hr, rfl⟩

@[simp] theorem get?_empty (k : κ) : (∅ : Table κ ρ key).get? k = none := rfl

/-- A row is in the table iff reading its key gives it. -/
theorem mem_iff_get? {t : Table κ ρ key} {r : ρ} : r ∈ t ↔ t.get? (key r) = some r := by
  simp [get?_eq_some]

/-- `UPDATE` of the row that has the key of `r`. -/
def save (t : Table κ ρ key) (r : ρ) : Table κ ρ key :=
  t.modify (fun r' => if key r' = key r then r else r') (by
    intro r'
    by_cases h : key r' = key r <;> simp [h])

/-- `INSERT … ON CONFLICT DO NOTHING`. -/
def insert (t : Table κ ρ key) (r : ρ) : Table κ ρ key :=
  if h : key r ∈ t.rows.map key then t
  else ⟨t.rows ++ [r], by
    rw [List.map_append, List.nodup_append]
    refine ⟨t.nodup, by simp, ?_⟩
    intro a ha b hb
    simp only [List.map_cons, List.map_nil, List.mem_singleton] at hb
    rintro rfl
    exact h (hb ▸ ha)⟩

/-- `INSERT … ON CONFLICT DO UPDATE`. -/
def upsert (t : Table κ ρ key) (r : ρ) : Table κ ρ key := (t.save r).insert r

/-- A row after a save is the saved one, whose key was there, or an old one under another key. -/
theorem mem_save {t : Table κ ρ key} {r r' : ρ} :
    r' ∈ t.save r ↔ (r' = r ∧ ∃ r₀ ∈ t, key r₀ = key r) ∨ (r' ∈ t ∧ key r' ≠ key r) := by
  rw [save, mem_modify]
  constructor
  · rintro ⟨r₀, hr₀, rfl⟩
    by_cases h : key r₀ = key r
    · exact Or.inl ⟨by simp [h], r₀, hr₀, h⟩
    · exact Or.inr (by simp [h, hr₀])
  · rintro (⟨rfl, r₀, hr₀, h⟩ | ⟨hr', h⟩)
    · exact ⟨r₀, hr₀, by simp [h]⟩
    · exact ⟨r', hr', by simp [h]⟩

/-- Every row after a `save` is the saved one or an old one. -/
theorem eq_or_mem_of_mem_save {t : Table κ ρ key} {r r' : ρ} (h : r' ∈ t.save r) :
    r' = r ∨ r' ∈ t :=
  (mem_save.mp h).imp And.left And.left

theorem mem_save_self {t : Table κ ρ key} {r r₀ : ρ} (h : r₀ ∈ t) (hk : key r₀ = key r) :
    r ∈ t.save r := mem_save.mpr (Or.inl ⟨rfl, r₀, h, hk⟩)

/-- A save writes over the row under its key, and adds none. -/
@[simp] theorem get?_save (t : Table κ ρ key) (r : ρ) (k : κ) :
    (t.save r).get? k = if key r = k then (t.get? k).map fun _ => r else t.get? k := by
  cases h : t.get? k with
  | none =>
    simp only [Option.map_none, ite_self]
    rw [get?_eq_none] at h ⊢
    intro r' hr'
    rcases mem_save.mp hr' with ⟨rfl, r₀, hr₀, hk⟩ | ⟨hr', -⟩
    · exact hk ▸ h r₀ hr₀
    · exact h r' hr'
  | some r₀ =>
    rw [get?_eq_some] at h
    split
    · next hk => exact get?_eq_some.mpr ⟨mem_save_self h.1 (h.2.trans hk.symm), hk⟩
    · next hk =>
      exact get?_eq_some.mpr ⟨mem_save.mpr (Or.inr ⟨h.1, fun e => hk (e ▸ h.2)⟩), h.2⟩

/-- Saving a row as it is does nothing. -/
theorem save_eq_self {t : Table κ ρ key} {r : ρ} (h : t.get? (key r) = some r) : t.save r = t := by
  refine modify_id _ fun r' hr' => ?_
  split
  · next hk => exact eq_of_key_eq (get?_eq_some.mp h).1 hr' hk.symm
  · rfl

/-- Saving a row leaves every other key as it was. -/
theorem get?_save_of_ne {t : Table κ ρ key} {r : ρ} {k : κ} (h : key r ≠ k) :
    (t.save r).get? k = t.get? k := by simp [h]

theorem get?_save_self {t : Table κ ρ key} {r r₀ : ρ} (h : t.get? (key r) = some r₀) :
    (t.save r).get? (key r) = some r := by simp [h]

/-- A save neither adds a key nor takes one away. -/
@[simp] theorem isSome_get?_save (t : Table κ ρ key) (r : ρ) (k : κ) :
    ((t.save r).get? k).isSome = (t.get? k).isSome := by
  rw [get?_save]
  split
  · rw [Option.isSome_map]
  · rfl

/-- What a saved row keeps of the old one is read as before. -/
theorem map_get?_save {α : Type} {t : Table κ ρ key} {r r₀ : ρ} {f : ρ → α}
    (hget : t.get? (key r) = some r₀) (hf : f r = f r₀) (k : κ) :
    ((t.save r).get? k).map f = (t.get? k).map f := by
  by_cases hk : key r = k
  · subst hk
    rw [get?_save_self hget, hget, Option.map_some, Option.map_some, hf]
  · rw [get?_save_of_ne hk]

/-- An insertion adds a row under a free key, and leaves a row that is there. -/
theorem get?_insert (t : Table κ ρ key) (r : ρ) (k : κ) :
    (t.insert r).get? k = if key r = k then some ((t.get? k).getD r) else t.get? k := by
  unfold insert
  by_cases h : key r ∈ t.rows.map key
  · obtain ⟨r₀, hr₀, hk⟩ := List.mem_map.mp h
    simp only [h, dif_pos]
    split
    · next hkk => rw [get?_eq_some.mpr ⟨hr₀, hk.trans hkk⟩]; rfl
    · rfl
  · simp only [h, dif_neg, not_false_eq_true, get?, List.find?_append, List.find?_cons,
      List.find?_nil]
    by_cases hk : key r = k
    · have hnone : t.rows.find? (fun r => decide (key r = k)) = none := by
        rw [List.find?_eq_none]
        intro r' hr' he
        exact h (List.mem_map.mpr ⟨r', hr', (by simpa using he : key r' = k).trans hk.symm⟩)
      simp [hk, hnone]
    · simp [hk]

/-- A row after an insertion is an old one, or the new one if its key was free. -/
theorem mem_insert {t : Table κ ρ key} {r r' : ρ} :
    r' ∈ t.insert r ↔ r' ∈ t ∨ (r' = r ∧ ∀ r₀ ∈ t, key r₀ ≠ key r) := by
  rw [mem_iff_get?, get?_insert, mem_iff_get?]
  by_cases hk : key r = key r'
  · rw [if_pos hk]
    cases h : t.get? (key r') with
    | none =>
      have hne := get?_eq_none.mp h
      simp only [Option.getD_none, Option.some.injEq, reduceCtorEq, false_or]
      exact ⟨fun e => ⟨e.symm, fun r₀ hr₀ => hk ▸ hne r₀ hr₀⟩, fun e => e.1.symm⟩
    | some r₀ =>
      simp only [Option.getD_some]
      refine ⟨Or.inl, ?_⟩
      rintro (h' | ⟨-, h'⟩)
      · exact h'
      · have := get?_eq_some.mp h
        exact absurd (this.2.trans hk.symm) (h' r₀ this.1)
  · rw [if_neg hk]
    exact ⟨Or.inl, fun h => h.elim id fun h => absurd (h.1 ▸ rfl) hk⟩

/-- A row with a new key goes to the end of the table. -/
theorem rows_insert {t : Table κ ρ key} {r : ρ} (h : t.get? (key r) = none) :
    (t.insert r).rows = t.rows ++ [r] := by
  have hnew : key r ∉ t.rows.map key := by
    intro hm
    obtain ⟨r₀, hr₀, hk⟩ := List.mem_map.mp hm
    exact get?_eq_none.mp h r₀ hr₀ hk
  simp [insert, hnew]

/-- After an upsert the row is there, whether its key was free or not. -/
theorem get?_upsert (t : Table κ ρ key) (r : ρ) (k : κ) :
    (t.upsert r).get? k = if key r = k then some r else t.get? k := by
  rw [upsert, get?_insert, get?_save]
  by_cases hk : key r = k
  · cases t.get? k <;> simp [hk]
  · simp [hk]

/-- To write a row that is there changes nothing. -/
theorem upsert_eq_self {t : Table κ ρ key} {r : ρ} (h : t.get? (key r) = some r) :
    t.upsert r = t := by
  have hmem : key r ∈ t.rows.map key := List.mem_map_of_mem (get?_eq_some.mp h).1
  rw [upsert, save_eq_self h, insert, dif_pos hmem]

/-- A write to all rows is seen under each key. -/
theorem get?_modify (t : Table κ ρ key) (f : ρ → ρ) (hf : ∀ r, key (f r) = key r) (k : κ) :
    (t.modify f hf).get? k = (t.get? k).map f := by
  have hkey : ((fun r => decide (key r = k)) ∘ f) = fun r => decide (key r = k) := by
    funext r
    show decide (key (f r) = k) = _
    rw [hf]
  show ((t.rows.map f).find? fun r => decide (key r = k)) = _
  rw [List.find?_map, hkey]
  rfl

/-- An erasure is seen under each key. -/
theorem get?_erase (t : Table κ ρ key) (p : ρ → Bool) (k : κ) :
    (t.erase p).get? k = (t.get? k).filter fun r => !p r := by
  cases h : t.get? k with
  | none =>
    rw [get?_eq_none] at h
    simp only [Option.filter_none, get?_eq_none]
    exact fun r hr => h r (mem_erase.mp hr).1
  | some r =>
    rw [get?_eq_some] at h
    cases hp : p r with
    | false =>
      have : (t.erase p).get? k = some r := get?_eq_some.mpr ⟨mem_erase.mpr ⟨h.1, hp⟩, h.2⟩
      simp [this, Option.filter, hp]
    | true =>
      simp only [Option.filter_some, hp, Bool.not_true, Bool.false_eq_true, if_false,
        get?_eq_none]
      intro r' hr' hk
      have hr' := mem_erase.mp hr'
      rw [eq_of_key_eq hr'.1 h.1 (hk.trans h.2.symm), hp] at hr'
      exact absurd hr'.2 (by simp)

/-! ## Parts of a table

A predicate on rows cuts a part out of a table. A write to a row outside the part leaves it alone, and a write inside
is the write to the part, so that a table that is written by several owners can be followed part by part. -/

/-- Saving a row that is not there does nothing. -/
theorem save_of_get?_eq_none {t : Table κ ρ key} {r : ρ} (h : t.get? (key r) = none) :
    t.save r = t := by
  rw [get?_eq_none] at h
  ext1
  show t.rows.map _ = t.rows
  conv => rhs; rw [← List.map_id t.rows]
  exact List.map_congr_left fun r' hr' => if_neg (h r' hr')

/-- A change that a bulk update undoes is not seen after it. -/
theorem modify_save {t : Table κ ρ key} {f : ρ → ρ} (hf : ∀ r, key (f r) = key r) {r r₀ : ρ}
    (h : t.get? (key r) = some r₀) (hr : f r = f r₀) :
    (t.save r).modify f hf = t.modify f hf := by
  ext1
  refine (List.map_map ..).trans (List.map_congr_left fun r' hr' => ?_)
  show f (if key r' = key r then r else r') = f r'
  split
  · next hk =>
    have hsame : r' = r₀ := eq_of_key_eq hr' (get?_eq_some.mp h).1 (hk.trans (get?_eq_some.mp h).2.symm)
    rw [hr, hsame]
  · rfl

/-- A save that moves no row into or out of the part acts on the part. -/
theorem restrict_save {t : Table κ ρ key} {r : ρ} {p : ρ → Bool}
    (h : ∀ r₀ ∈ t, key r₀ = key r → p r₀ = p r) :
    (t.save r).restrict p = (t.restrict p).save r := by
  have aux : ∀ l : List ρ, (∀ r₀ ∈ l, key r₀ = key r → p r₀ = p r) →
      (l.map fun r' => if key r' = key r then r else r').filter p
        = (l.filter p).map fun r' => if key r' = key r then r else r' := by
    intro l hl
    induction l with
    | nil => rfl
    | cons a l ih =>
      have ih := ih fun r₀ h => hl r₀ (List.mem_cons_of_mem a h)
      rw [List.map_cons, List.filter_cons, List.filter_cons, ih]
      by_cases hk : key a = key r
      · rw [if_pos hk, hl a (by simp) hk]
        cases hp : p r with
        | true => rw [if_pos rfl, if_pos rfl, List.map_cons, if_pos hk]
        | false => rfl
      · rw [if_neg hk]
        cases hp : p a with
        | true => rw [if_pos rfl, if_pos rfl, List.map_cons, if_neg hk]
        | false => rfl
  exact Table.ext (aux t.rows h)

/-- A save of a row outside the part leaves the part alone. -/
theorem restrict_save_of_not {t : Table κ ρ key} {r : ρ} {p : ρ → Bool} (hr : p r = false)
    (h : ∀ r₀ ∈ t, key r₀ = key r → p r₀ = p r) :
    (t.save r).restrict p = t.restrict p := by
  rw [restrict_save h, save_of_get?_eq_none]
  rw [get?_eq_none]
  intro r₀ hr₀ hk
  have hr₀ := mem_restrict.mp hr₀
  rw [h r₀ hr₀.1 hk, hr] at hr₀
  exact absurd hr₀.2 (by simp)

/-- A new row inside the part is a new row of the part. -/
theorem restrict_insert {t : Table κ ρ key} {r : ρ} {p : ρ → Bool}
    (h : t.get? (key r) = none) (hr : p r = true) :
    (t.insert r).restrict p = (t.restrict p).insert r := by
  rw [get?_eq_none] at h
  have hnot : key r ∉ t.rows.map key := by
    intro hm
    obtain ⟨r₀, hr₀, hk⟩ := List.mem_map.mp hm
    exact h r₀ hr₀ hk
  have hnot' : key r ∉ (t.restrict p).rows.map key := by
    intro hm
    obtain ⟨r₀, hr₀, hk⟩ := List.mem_map.mp hm
    exact h r₀ (mem_restrict.mp hr₀).1 hk
  ext1
  simp only [insert, hnot, hnot', dif_neg, not_false_eq_true]
  simp [restrict, hr]

/-- A new row outside the part leaves it alone. -/
theorem restrict_insert_of_not {t : Table κ ρ key} {r : ρ} {p : ρ → Bool} (hr : p r = false) :
    (t.insert r).restrict p = t.restrict p := by
  ext1
  unfold insert
  split
  · rfl
  · simp [restrict, hr]

/-- The part finds what the table finds, if it is inside. -/
theorem get?_restrict (t : Table κ ρ key) (p : ρ → Bool) (k : κ) :
    (t.restrict p).get? k = (t.get? k).filter p := by
  cases h : t.get? k with
  | none =>
    rw [get?_eq_none] at h
    simp only [Option.filter_none, get?_eq_none]
    exact fun r hr => h r (mem_restrict.mp hr).1
  | some r =>
    rw [get?_eq_some] at h
    cases hp : p r with
    | true =>
      rw [get?_eq_some.mpr ⟨mem_restrict.mpr ⟨h.1, hp⟩, h.2⟩]
      simp [Option.filter, hp]
    | false =>
      simp only [Option.filter_some, hp, Bool.false_eq_true, if_false, get?_eq_none]
      intro r' hr' hk
      have hr' := mem_restrict.mp hr'
      rw [eq_of_key_eq hr'.1 h.1 (hk.trans h.2.symm), hp] at hr'
      exact absurd hr'.2 (by simp)

/-- A relation between the rows found under `k` in two tables follows from the same relation
between the parts of the tables, if the row stays in its part. -/
theorem get?_of_parts {ι : Type} [DecidableEq ι] {t t' : Table κ ρ key} (part : ρ → ι) {k : κ}
    {R : Option ρ → Option ρ → Prop} (hnone : R none none) (hkept : ∀ r, ¬ R (some r) none)
    (h : ∀ i, R ((t.restrict fun r => decide (part r = i)).get? k)
      ((t'.restrict fun r => decide (part r = i)).get? k)) : R (t.get? k) (t'.get? k) := by
  have hpart : ∀ {t : Table κ ρ key} {r : ρ}, t.get? k = some r →
      (t.restrict fun r' => decide (part r' = part r)).get? k = some r := by
    intro t r hr
    rw [get?_restrict, hr]
    simp [Option.filter]
  cases hr : t.get? k with
  | some r =>
    -- the row is found in its own part, before and after
    have hrow := h (part r)
    rw [hpart hr] at hrow
    cases hr' : (t'.restrict fun r' => decide (part r' = part r)).get? k with
    | none => exact absurd (hr' ▸ hrow) (hkept r)
    | some r' =>
      rw [hr'] at hrow
      rw [get?_restrict, Option.filter_eq_some_iff] at hr'
      rw [hr'.1]
      exact hrow
  | none =>
    cases hr' : t'.get? k with
    | none => exact hnone
    | some r' =>
      have hnew := h (part r')
      rw [hpart hr', get?_restrict, hr] at hnew
      exact hnew

/-! ## Aggregates that a write leaves alone

Counts and selections of rows. An insertion moves a count by the new row, and a save moves it by the difference of the
two versions of its row. -/

/-- A selection that neither the old nor the new version of a saved row is part of does not
change. -/
theorem select_save {t : Table κ ρ key} {r : ρ} {p : ρ → Bool} (hr : p r = false)
    (hold : ∀ r₀ ∈ t, key r₀ = key r → p r₀ = false) :
    (t.save r).select p = t.select p := by
  have aux : ∀ l : List ρ, (∀ r₀ ∈ l, key r₀ = key r → p r₀ = false) →
      (l.map fun r' => if key r' = key r then r else r').filter p = l.filter p := by
    intro l hl
    induction l with
    | nil => rfl
    | cons a l ih =>
      have ih := ih fun r₀ h => hl r₀ (List.mem_cons_of_mem a h)
      rw [List.map_cons, List.filter_cons, List.filter_cons, ih]
      by_cases hk : key a = key r
      · simp [hk, hr, hl a (by simp) hk]
      · simp [hk]
  exact aux t.rows hold

/-- A new row that is not selected leaves a selection alone. -/
theorem select_insert {t : Table κ ρ key} {r : ρ} {p : ρ → Bool} (hr : p r = false) :
    (t.insert r).select p = t.select p := by
  unfold insert select
  split
  · rfl
  · simp [hr]

/-- A row that is selected neither before nor after leaves a selection alone. -/
theorem select_upsert {t : Table κ ρ key} {r : ρ} {p : ρ → Bool} (hr : p r = false)
    (hold : ∀ r₀ ∈ t, key r₀ = key r → p r₀ = false) :
    (t.upsert r).select p = t.select p := by
  rw [upsert, select_insert hr, select_save hr hold]

/-- Replacing one row moves a count by the difference of the two versions. -/
theorem countP_save {t : Table κ ρ key} {r r₀ : ρ} (h : r₀ ∈ t) (hk : key r₀ = key r)
    (p : ρ → Bool) :
    (t.save r).rows.countP p + (if p r₀ then 1 else 0)
      = t.rows.countP p + (if p r then 1 else 0) := by
  have aux : ∀ l : List ρ, (l.map key).Nodup → r₀ ∈ l →
      (l.map fun r' => if key r' = key r then r else r').countP p + (if p r₀ then 1 else 0)
        = l.countP p + (if p r then 1 else 0) := by
    intro l hl hmem
    induction l with
    | nil => exact absurd hmem List.not_mem_nil
    | cons a l ih =>
      rw [List.map_cons, List.nodup_cons] at hl
      rw [List.map_cons, List.countP_cons, List.countP_cons]
      rcases List.mem_cons.mp hmem with rfl | hmem
      · -- the head is the saved row, and no other row has its key
        have hrest : l.map (fun r' => if key r' = key r then r else r') = l := by
          rw [List.map_congr_left (g := id), List.map_id]
          intro r' hr'
          have : key r' ≠ key r := fun e =>
            hl.1 (List.mem_map.mpr ⟨r', hr', e.trans hk.symm⟩)
          simp [this]
        rw [hrest, if_pos hk]
        omega
      · have hne : key a ≠ key r := fun e =>
          hl.1 (List.mem_map.mpr ⟨r₀, hmem, hk.trans e.symm⟩)
        have := ih hl.2 hmem
        rw [if_neg hne]
        omega
  exact aux t.rows t.nodup h

/-- A new row moves a count by itself. -/
theorem countP_insert {t : Table κ ρ key} {r : ρ} (h : t.get? (key r) = none) (p : ρ → Bool) :
    (t.insert r).rows.countP p = t.rows.countP p + (if p r then 1 else 0) := by
  have hnot : key r ∉ t.rows.map key := by
    intro hm
    obtain ⟨r₀, hr₀, hk⟩ := List.mem_map.mp hm
    exact get?_eq_none.mp h r₀ hr₀ hk
  simp [insert, hnot, List.countP_append, List.countP_cons]

/-- An upsert moves a count by the difference of the new row and the old one, if there is one. -/
theorem countP_upsert (t : Table κ ρ key) (r : ρ) (p : ρ → Bool) :
    (t.upsert r).rows.countP p + (t.get? (key r)).elim 0 (fun r₀ => if p r₀ then 1 else 0)
      = t.rows.countP p + (if p r then 1 else 0) := by
  cases h : t.get? (key r) with
  | none =>
    rw [upsert, save_of_get?_eq_none h, countP_insert h]
    rfl
  | some r₀ =>
    obtain ⟨hmem, hk⟩ := get?_eq_some.mp h
    have hthere : key r ∈ (t.save r).rows.map key :=
      List.mem_map.mpr ⟨r, mem_save.mpr (.inl ⟨rfl, r₀, hmem, hk⟩), rfl⟩
    rw [upsert, insert, dif_pos hthere]
    exact countP_save hmem hk p

/-- The deletion of a key takes its row out of a count. -/
theorem countP_erase_key (t : Table κ ρ key) (k : κ) (p : ρ → Bool) :
    (t.erase fun r => decide (key r = k)).rows.countP p
      + (t.get? k).elim 0 (fun r₀ => if p r₀ then 1 else 0) = t.rows.countP p := by
  have aux : ∀ l : List ρ, (l.map key).Nodup →
      (l.filter fun r => !decide (key r = k)).countP p
        + (l.find? fun r => decide (key r = k)).elim 0 (fun r₀ => if p r₀ then 1 else 0) = l.countP p := by
    intro l hl
    induction l with
    | nil => rfl
    | cons a l ih =>
      rw [List.map_cons, List.nodup_cons] at hl
      by_cases hk : key a = k
      · -- no other row has the key
        have hrest : l.filter (fun r => !decide (key r = k)) = l := by
          refine List.filter_eq_self.mpr fun r hr => ?_
          have hne : key r ≠ k := fun e => hl.1 (List.mem_map.mpr ⟨r, hr, e.trans hk.symm⟩)
          rw [decide_eq_false hne, Bool.not_false]
        rw [List.filter_cons_of_neg (by simp [hk]), hrest, List.find?_cons_of_pos (by simp [hk]), List.countP_cons]
        rfl
      · rw [List.filter_cons_of_pos (by simp [hk]), List.find?_cons_of_neg (by simp [hk]), List.countP_cons,
          List.countP_cons, ← ih hl.2]
        omega
  exact aux t.rows t.nodup

end Table

/-! ## Generated keys

A table with a counter for its keys. It is a table with one more column of state, and each of its writes is the one of
the table. -/

/-- A table whose keys the database generates, each one once. -/
structure Serial (ρ : Type) (key : ρ → Nat) extends Table Nat ρ key where
  next : Nat
  fresh : ∀ r ∈ toTable, key r < next

namespace Serial

variable {ρ : Type} {key : ρ → Nat}

instance : Membership ρ (Serial ρ key) := ⟨fun t r => r ∈ t.toTable⟩

instance [DecidableEq ρ] (t : Serial ρ key) (r : ρ) : Decidable (r ∈ t) :=
  inferInstanceAs (Decidable (r ∈ t.toTable))

theorem mem_toTable {t : Serial ρ key} {r : ρ} : r ∈ t.toTable ↔ r ∈ t := Iff.rfl

/-- The table with no rows, before the first key. -/
def empty : Serial ρ key := ⟨∅, 0, fun _ h => absurd h List.not_mem_nil⟩

instance : EmptyCollection (Serial ρ key) := ⟨empty⟩

@[simp] theorem toTable_empty : (∅ : Serial ρ key).toTable = ∅ := rfl

/-- The next key is free. -/
theorem get?_next (t : Serial ρ key) : t.get? t.next = none :=
  Table.get?_eq_none.mpr fun r hr => Nat.ne_of_lt (t.fresh r hr)

/-- `UPDATE` of the row that has the key of `r`. -/
def save (t : Serial ρ key) (r : ρ) : Serial ρ key :=
  { t.toTable.save r with
    next := t.next
    fresh := by
      intro r' hr'
      rcases Table.mem_save.mp hr' with ⟨rfl, r₀, hr₀, hk⟩ | ⟨hr', -⟩
      · exact hk ▸ t.fresh r₀ hr₀
      · exact t.fresh r' hr' }

/-- A bulk `UPDATE` that leaves the keys alone. -/
def modify (t : Serial ρ key) (f : ρ → ρ) (hf : ∀ r, key (f r) = key r) : Serial ρ key :=
  { t.toTable.modify f hf with
    next := t.next
    fresh := by
      intro r hr
      obtain ⟨r₀, hr₀, rfl⟩ := (Table.mem_modify hf).mp hr
      exact (hf r₀).symm ▸ t.fresh r₀ hr₀ }

/-- `DELETE` of the rows that satisfy `p`. The counter does not go back. -/
def erase (t : Serial ρ key) (p : ρ → Bool) : Serial ρ key :=
  { t.toTable.erase p with
    next := t.next
    fresh := fun r hr => t.fresh r (Table.mem_erase.mp hr).1 }

/-- `INSERT` of the row `mk` makes of the generated key. -/
def insert (t : Serial ρ key) (mk : Nat → ρ) (hmk : ∀ i, key (mk i) = i) : Serial ρ key :=
  { t.toTable.insert (mk t.next) with
    next := t.next + 1
    fresh := by
      intro r hr
      rcases Table.mem_insert.mp hr with hr | ⟨rfl, -⟩
      · exact Nat.lt_succ_of_lt (t.fresh r hr)
      · rw [hmk]; exact Nat.lt_succ_self _ }

@[simp] theorem save_toTable (t : Serial ρ key) (r : ρ) :
    (t.save r).toTable = t.toTable.save r := rfl
@[simp] theorem modify_toTable (t : Serial ρ key) (f : ρ → ρ) (hf : ∀ r, key (f r) = key r) :
    (t.modify f hf).toTable = t.toTable.modify f hf := rfl
@[simp] theorem erase_toTable (t : Serial ρ key) (p : ρ → Bool) :
    (t.erase p).toTable = t.toTable.erase p := rfl
@[simp] theorem insert_toTable (t : Serial ρ key) (mk : Nat → ρ) (hmk : ∀ i, key (mk i) = i) :
    (t.insert mk hmk).toTable = t.toTable.insert (mk t.next) := rfl

theorem ext {t u : Serial ρ key} (h : t.toTable = u.toTable) (hnext : t.next = u.next) : t = u := by
  cases t; cases u; cases h; cases hnext; rfl

theorem save_eq_self {t : Serial ρ key} {r : ρ} (h : t.get? (key r) = some r) : t.save r = t :=
  ext (Table.save_eq_self h) rfl

theorem mem_save {t : Serial ρ key} {r r' : ρ} :
    r' ∈ t.save r ↔ (r' = r ∧ ∃ r₀ ∈ t, key r₀ = key r) ∨ (r' ∈ t ∧ key r' ≠ key r) :=
  Table.mem_save

theorem mem_modify {t : Serial ρ key} {f : ρ → ρ} (hf : ∀ r, key (f r) = key r) {r : ρ} :
    r ∈ t.modify f hf ↔ ∃ r₀ ∈ t, f r₀ = r := List.mem_map

theorem mem_erase {t : Serial ρ key} {p : ρ → Bool} {r : ρ} :
    r ∈ t.erase p ↔ r ∈ t ∧ p r = false := Table.mem_erase

/-- A generated key is new, so the inserted row is always added. -/
theorem mem_insert {t : Serial ρ key} {mk : Nat → ρ} {hmk : ∀ i, key (mk i) = i} {r : ρ} :
    r ∈ t.insert mk hmk ↔ r ∈ t ∨ r = mk t.next := by
  refine Table.mem_insert.trans (or_congr Iff.rfl ⟨And.left, fun h => ⟨h, ?_⟩⟩)
  intro r₀ hr₀
  rw [hmk]
  exact Nat.ne_of_lt (t.fresh r₀ hr₀)

/-- An insertion puts the new row under the next key. -/
theorem get?_insert (t : Serial ρ key) (mk : Nat → ρ) (hmk : ∀ i, key (mk i) = i) (k : Nat) :
    (t.insert mk hmk).get? k = if t.next = k then some (mk k) else t.get? k := by
  rw [insert_toTable, Table.get?_insert, hmk]
  by_cases hk : t.next = k
  · subst hk; simp [t.get?_next]
  · simp [hk]

/-- A row found in the table is still found after an insertion. -/
theorem get?_insert_of_some {t : Serial ρ key} {mk : Nat → ρ} {hmk : ∀ i, key (mk i) = i}
    {k : Nat} {r : ρ} (h : t.get? k = some r) : (t.insert mk hmk).get? k = some r := by
  rw [get?_insert, if_neg, h]
  rintro rfl
  rw [t.get?_next] at h
  exact absurd h (by simp)

end Serial

end AcaSocial
