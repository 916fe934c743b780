import Mathlib.Data.Set.Card
import Mathlib.Logic.Function.Basic
import AcaSocial.Base.Table

/-!
# Last-write-wins maps

A map that is written key by key; a write of `none` takes the key away, and the last write to a
key is the one that stays.

* **`lastWrite`** — the map that a list of writes leaves.
* **`lastWrite_filter`** — the value of a key depends on the writes to that key only, in their
  order, so writes to different keys may be exchanged.
* **`Table.Maps`** — a table with a value in each row is such a map. `upsert` and the deletion of a
  key are its writes, and a count of rows is the size of a part of the map.
-/

namespace AcaSocial

variable {κ ν : Type} [DecidableEq κ]

/-- The map that the writes leave, the first one first. -/
def lastWrite (ws : List (κ × Option ν)) : κ → Option ν :=
  ws.foldl (fun m w => Function.update m w.1 w.2) fun _ => none

/-- Nothing has been written. -/
@[simp] theorem lastWrite_nil (k : κ) : lastWrite ([] : List (κ × Option ν)) k = none := rfl

/-- A further write replaces what was written to its key. -/
theorem lastWrite_append_singleton (ws : List (κ × Option ν)) (w : κ × Option ν) (k : κ) :
    lastWrite (ws ++ [w]) k = if w.1 = k then w.2 else lastWrite ws k := by
  rw [lastWrite, List.foldl_append]
  by_cases hk : w.1 = k
  · rw [if_pos hk, ← hk]
    exact Function.update_self (β := fun _ => Option ν) w.1 w.2 _
  · rw [if_neg hk]
    exact Function.update_of_ne (β := fun _ => Option ν) (Ne.symm hk) w.2 _

/-- Writes to other keys may be left out. -/
theorem lastWrite_filter {ws : List (κ × Option ν)} {p : κ × Option ν → Bool} {k : κ}
    (h : ∀ w ∈ ws, w.1 = k → p w = true) : lastWrite (ws.filter p) k = lastWrite ws k := by
  induction ws using List.reverseRecOn with
  | nil => rfl
  | append_singleton ws w ih =>
    have ih := ih fun v hv => h v (List.mem_append_left [w] hv)
    rw [List.filter_append, lastWrite_append_singleton]
    cases hp : p w with
    | true =>
      rw [List.filter_cons_of_pos hp, List.filter_nil, lastWrite_append_singleton, ih]
    | false =>
      have hother : w.1 ≠ k := fun hk => by
        have htrue := h w (List.mem_append_right ws List.mem_cons_self) hk
        cases hp.symm.trans htrue
      rw [List.filter_cons_of_neg (by rw [hp]; exact Bool.false_ne_true), List.filter_nil,
        List.append_nil, ih, if_neg hother]

/-- Two lists of writes leave the same map if the writes to the keys of each group are the same,
in the same order. -/
theorem lastWrite_eq_of_groups {γ : Type} [DecidableEq γ] {ws ws' : List (κ × Option ν)} (g : κ → γ)
    (h : ∀ a, (ws'.filter fun w => decide (g w.1 = a)) = ws.filter fun w => decide (g w.1 = a)) :
    lastWrite ws' = lastWrite ws := by
  funext k
  have hgroup : ∀ ws : List (κ × Option ν),
      lastWrite (ws.filter fun w => decide (g w.1 = g k)) k = lastWrite ws k := by
    intro ws
    refine lastWrite_filter fun w _ hk => ?_
    rw [hk]
    exact decide_eq_true rfl
  rw [← hgroup ws', h, hgroup ws]

namespace Table

variable {ρ : Type} {key : ρ → κ} {t u : Table κ ρ key} {m : κ → Option ν}

/-- The rows of the table, by their keys, have the values of `m`. -/
def Maps (t : Table κ ρ key) (val : ρ → ν) (m : κ → Option ν) : Prop :=
  ∀ k, (t.get? k).map val = m k

namespace Maps

variable {val : ρ → ν} {ws : List (κ × Option ν)}

/-- The empty table holds what no write has left. -/
theorem empty : (∅ : Table κ ρ key).Maps val (lastWrite []) := fun _ => rfl

/-- `upsert` writes the value of its row. -/
theorem upsert (h : t.Maps val (lastWrite ws)) (r : ρ) :
    (t.upsert r).Maps val (lastWrite (ws ++ [(key r, some (val r))])) := by
  intro k
  rw [get?_upsert, lastWrite_append_singleton]
  split
  · rfl
  · exact h k

/-- The deletion of a key writes `none`. -/
theorem erase (h : t.Maps val (lastWrite ws)) (k₀ : κ) :
    (t.erase fun r => decide (key r = k₀)).Maps val (lastWrite (ws ++ [(k₀, none)])) := by
  intro k
  rw [get?_erase, lastWrite_append_singleton]
  cases hr : t.get? k with
  | none =>
    split
    · rfl
    · rw [← h k, hr]
      rfl
  | some r =>
    have hk := (get?_eq_some.mp hr).2
    by_cases hkey : k₀ = k
    · simp [Option.filter, hkey, hk]
    · have hne : key r ≠ k₀ := fun he => hkey (he.symm.trans hk)
      simp [Option.filter, hkey, hne, ← h k, hr]

/-- Tables of the same map have the same rows, if a row is its key and its value. -/
theorem get?_eq (hval : ∀ r r', key r = key r' → val r = val r' → r = r') (h : t.Maps val m)
    (h' : u.Maps val m) (k : κ) : u.get? k = t.get? k := by
  have hmap : (u.get? k).map val = (t.get? k).map val := (h' k).trans (h k).symm
  cases ht : t.get? k <;> cases hu : u.get? k <;> rw [ht, hu] at hmap
  case some.some r r' =>
    have hkey := (get?_eq_some.mp hu).2.trans (get?_eq_some.mp ht).2.symm
    rw [hval r' r hkey (Option.some.inj hmap)]
  all_goals cases hmap

/-- The rows of one kind are as many as the keys, among those that `f` runs through, that have a
value of that kind. -/
theorem length_select {ι : Type} (h : t.Maps val m) {p : ρ → Bool} (f : ι → κ)
    (hf : Function.Injective f) (q : ν → Prop)
    (hp : ∀ r ∈ t, p r = true ↔ (∃ i, f i = key r) ∧ q (val r)) :
    (t.select p).length = {i | ∃ v, m (f i) = some v ∧ q v}.ncard := by
  have hnodup : ((t.select p).map key).Nodup := (List.filter_sublist.map key).nodup t.nodup
  have hset : f '' {i | ∃ v, m (f i) = some v ∧ q v} = {k | k ∈ (t.select p).map key} := by
    ext k
    simp only [Set.mem_image, Set.mem_ofPred_eq, List.mem_map, mem_select]
    constructor
    · rintro ⟨i, ⟨v, hv, hq⟩, rfl⟩
      rw [← h] at hv
      obtain ⟨r, hr, rfl⟩ := Option.map_eq_some_iff.mp hv
      have hr := get?_eq_some.mp hr
      exact ⟨r, ⟨hr.1, (hp r hr.1).mpr ⟨⟨i, hr.2.symm⟩, hq⟩⟩, hr.2⟩
    · rintro ⟨r, ⟨hr, hpr⟩, rfl⟩
      obtain ⟨⟨i, hi⟩, hq⟩ := (hp r hr).mp hpr
      refine ⟨i, ⟨val r, ?_, hq⟩, hi⟩
      rw [hi, ← h, get?_key hr]
      rfl
  have hcard : {k | k ∈ (t.select p).map key}.ncard = (t.select p).length := by
    have hcoe : {k | k ∈ (t.select p).map key} = ↑((t.select p).map key).toFinset := by
      ext k
      simp
    rw [hcoe, Set.ncard_coe_finset, List.toFinset_card_of_nodup hnodup, List.length_map]
  rw [← hcard, ← hset, Set.ncard_image_of_injective _ hf]

end Maps

end Table

end AcaSocial
