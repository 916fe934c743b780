import Mathlib.Data.Finset.Max
import Mathlib.Data.List.Sort
import Mathlib.Tactic.Common

/-!
# The newest of a set

A set of times of which only the `k` newest are kept.

* **`newest k s`** — the members that fewer than `k` others are newer than.
* **`newest_of_between`** — what is left out once can be forgotten: between `newest k s` and `s` all sets have the same
  newest members.
* **`mem_take_iff`** — of a list that is sorted newest first, they are the first `k`.
-/

namespace AcaSocial

variable {τ : Type} [LinearOrder τ] {k : Nat} {s t : Finset τ} {x : τ}

/-- The `k` newest members. -/
def newest (k : Nat) (s : Finset τ) : Finset τ := s.filter fun x => (s.filter (x < ·)).card < k

/-- The newest are those with fewer than `k` above them. -/
theorem mem_newest : x ∈ newest k s ↔ x ∈ s ∧ (s.filter (x < ·)).card < k := Finset.mem_filter

/-- They are among the elements. -/
theorem newest_subset : newest k s ⊆ s := Finset.filter_subset _ _

/-- In a smaller set a member is among the newest all the more. -/
theorem mem_newest_of_subset (hst : s ⊆ t) (hx : x ∈ s) (h : x ∈ newest k t) : x ∈ newest k s := by
  have hle : (s.filter (x < ·)).card ≤ (t.filter (x < ·)).card := Finset.card_le_card (Finset.filter_subset_filter _ hst)
  have hlt := (mem_newest.mp h).2
  exact mem_newest.mpr ⟨hx, by omega⟩

/-- Of those that are left out there is a newest one, and `k` are newer than it. They are newer than all that are left
out, and none of them is left out. -/
theorem exists_newer_of_not_mem (hx : x ∈ s) (h : x ∉ newest k s) :
    ∃ m ∈ s, x ≤ m ∧ k ≤ (s.filter (m < ·)).card ∧ s.filter (m < ·) ⊆ newest k s := by
  have hleft : (s \ newest k s).Nonempty := ⟨x, Finset.mem_sdiff.mpr ⟨hx, h⟩⟩
  obtain ⟨hmem, hnot⟩ := Finset.mem_sdiff.mp (Finset.max'_mem _ hleft)
  refine ⟨(s \ newest k s).max' hleft, hmem, Finset.le_max' _ x (Finset.mem_sdiff.mpr ⟨hx, h⟩), ?_, ?_⟩
  · by_contra hlt
    exact hnot (mem_newest.mpr ⟨hmem, by omega⟩)
  · intro y hy
    obtain ⟨hys, hlt⟩ := Finset.mem_filter.mp hy
    by_contra hout
    exact absurd hlt (not_lt.mpr (Finset.le_max' _ y (Finset.mem_sdiff.mpr ⟨hys, hout⟩)))

/-- **What is left out can be forgotten.** -/
theorem newest_of_between (hts : newest k t ⊆ s) (hst : s ⊆ t) : newest k s = newest k t := by
  ext x
  constructor
  · intro h
    obtain ⟨hx, hlt⟩ := mem_newest.mp h
    by_contra hout
    obtain ⟨m, _, hle, hcard, hnewer⟩ := exists_newer_of_not_mem (hst hx) hout
    -- the `k` newer ones are in `s` too
    have hsub : t.filter (m < ·) ⊆ s.filter (x < ·) := by
      intro y hy
      have hmy := (Finset.mem_filter.mp hy).2
      exact Finset.mem_filter.mpr ⟨hts (hnewer hy), lt_of_le_of_lt hle hmy⟩
    have := Finset.card_le_card hsub
    omega
  · intro h
    exact mem_newest_of_subset hst (hts h) h

/-- There are at most `k`. -/
theorem card_newest : (newest k s).card ≤ k := by
  by_cases hne : (newest k s).Nonempty
  · -- all but the oldest are newer than it
    have hmin := Finset.min'_mem _ hne
    have hlt := (mem_newest.mp hmin).2
    have hsub : (newest k s).erase ((newest k s).min' hne) ⊆ s.filter ((newest k s).min' hne < ·) := by
      intro y hy
      obtain ⟨hy, hmem⟩ := Finset.mem_erase.mp hy
      exact Finset.mem_filter.mpr ⟨newest_subset hmem, lt_of_le_of_ne (Finset.min'_le _ y hmem) (Ne.symm hy)⟩
    have hcard := Finset.card_le_card hsub
    rw [Finset.card_erase_of_mem hmin] at hcard
    omega
  · rw [Finset.not_nonempty_iff_eq_empty.mp hne, Finset.card_empty]
    exact Nat.zero_le k

/-- Where two names stand for the same things, there are as many of one as of the other. -/
theorem card_toFinset_map {ι κ κ' : Type} [DecidableEq κ] [DecidableEq κ'] {name : ι → κ} {name' : ι → κ'}
    {l : List ι} (h : ∀ a ∈ l, ∀ b ∈ l, name a = name b ↔ name' a = name' b) :
    (l.map name).toFinset.card = (l.map name').toFinset.card := by
  have hfst : ((l.map fun a => (name a, name' a)).toFinset.image Prod.fst) = (l.map name).toFinset := by
    ext x
    simp
  have hsnd : ((l.map fun a => (name a, name' a)).toFinset.image Prod.snd) = (l.map name').toFinset := by
    ext x
    simp
  rw [← hfst, ← hsnd, Finset.card_image_of_injOn, Finset.card_image_of_injOn]
  · intro p hp q hq heq
    obtain ⟨a, ha, rfl⟩ := List.mem_map.mp (List.mem_toFinset.mp hp)
    obtain ⟨b, hb, rfl⟩ := List.mem_map.mp (List.mem_toFinset.mp hq)
    exact Prod.ext ((h a ha b hb).mpr heq) heq
  · intro p hp q hq heq
    obtain ⟨a, ha, rfl⟩ := List.mem_map.mp (List.mem_toFinset.mp hp)
    obtain ⟨b, hb, rfl⟩ := List.mem_map.mp (List.mem_toFinset.mp hq)
    exact Prod.ext heq ((h a ha b hb).mp heq)

/-! ## Sorted lists

In a list sorted downwards the newest are the first ones. -/

/-- Of a list that is sorted newest first, the newest are the first ones. -/
theorem mem_take_iff {l : List τ} (h : l.Pairwise (· > ·)) : x ∈ l.take k ↔ x ∈ newest k l.toFinset := by
  induction l generalizing k with
  | nil =>
    rw [List.take_nil, List.toFinset_nil]
    exact ⟨fun hx => absurd hx List.not_mem_nil, fun hx => absurd (newest_subset hx) (Finset.notMem_empty x)⟩
  | cons a l ih =>
    obtain ⟨ha, hl⟩ := List.pairwise_cons.mp h
    cases k with
    | zero =>
      rw [List.take_zero]
      exact ⟨fun hx => absurd hx List.not_mem_nil, fun hx => absurd (mem_newest.mp hx).2 (Nat.not_lt_zero _)⟩
    | succ k =>
      have hfirst : (a :: l).toFinset.filter (a < ·) = ∅ := by
        refine Finset.filter_eq_empty_iff.mpr ?_
        intro y hy
        rcases List.mem_cons.mp (List.mem_toFinset.mp hy) with rfl | hy
        · exact lt_irrefl _
        · exact not_lt.mpr (le_of_lt (ha y hy))
      -- `a` is newer than each of the others
      have hother : ∀ y ∈ l, ((a :: l).toFinset.filter (y < ·)).card = (l.toFinset.filter (y < ·)).card + 1 := by
        intro y hy
        have hnot : a ∉ l.toFinset.filter (y < ·) := fun hmem =>
          lt_irrefl a (ha a (List.mem_toFinset.mp (Finset.mem_filter.mp hmem).1))
        rw [List.toFinset_cons, Finset.filter_insert, if_pos (ha y hy), Finset.card_insert_of_notMem hnot]
      rw [List.take_succ_cons, List.mem_cons, ih hl, mem_newest, mem_newest, List.mem_toFinset, List.mem_toFinset,
        List.mem_cons]
      constructor
      · rintro (rfl | ⟨hx, hlt⟩)
        · rw [hfirst]
          exact ⟨.inl rfl, Nat.succ_pos k⟩
        · have hcard := hother x hx
          exact ⟨.inr hx, by omega⟩
      · rintro ⟨rfl | hx, hlt⟩
        · exact .inl rfl
        · have hcard := hother x hx
          exact .inr ⟨hx, by omega⟩

/-- Two lists with the same members that are sorted newest first are one list. -/
theorem eq_of_sorted {α : Type} {time : α → τ} {l l' : List α} (h : l.Pairwise fun a b => time b < time a)
    (h' : l'.Pairwise fun a b => time b < time a) (hmem : ∀ a, a ∈ l ↔ a ∈ l') : l = l' := by
  have hnodup : ∀ {l : List α}, (l.Pairwise fun a b => time b < time a) → l.Nodup := fun hl =>
    hl.imp fun hlt heq => hlt.ne (congrArg time heq.symm)
  have hperm : l.Perm l' := (List.perm_ext_iff_of_nodup (hnodup h) (hnodup h')).mpr hmem
  exact hperm.eq_of_pairwise (fun a b _ _ hab hba => absurd hab (lt_asymm hba)) h h'

end AcaSocial
