import Mathlib.Tactic.Common
import Mathlib.Algebra.BigOperators.Group.List.Basic
import Mathlib.Algebra.Order.Ring.Int
import Mathlib.Tactic.Ring
import Mathlib.Data.List.Nodup

/-!
# Families of counters

A family of integer counters `f : ι → ℤ` under a list of changes, each to one counter.

* **`total us k`** — what the changes add to the counter `k` in all.
* **`Stays f us`** — no change takes a counter below zero.
* **`clamped u ds`** — a counter whose changes are each clamped at zero.

`Stays.of_decrements` is the rule for counters that are only ever decremented by one, and at most
once each: then it is enough that the counters which are decremented are positive at the start.
`clamped_eq_max` is the rule for changes of which none goes up after one that went down: clamping
each of them is clamping their sum.
-/

namespace AcaSocial

variable {ι : Type} [DecidableEq ι]

/-- What the changes add to the counter `k`. -/
def total (us : List (ι × Int)) (k : ι) : Int :=
  ((us.filter fun u => decide (u.1 = k)).map (·.2)).sum

/-- The family after one change. -/
def changed (f : ι → Int) (u : ι × Int) (k : ι) : Int := f k + if u.1 = k then u.2 else 0

/-- No change takes a counter below zero. -/
def Stays (f : ι → Int) : List (ι × Int) → Prop
  | [] => True
  | u :: us => 0 ≤ f u.1 + u.2 ∧ Stays (changed f u) us

@[simp] theorem total_nil (k : ι) : total ([] : List (ι × Int)) k = 0 := rfl

theorem total_cons (u : ι × Int) (us : List (ι × Int)) (k : ι) :
    total (u :: us) k = (if u.1 = k then u.2 else 0) + total us k := by
  unfold total
  by_cases h : u.1 = k
  · rw [List.filter_cons_of_pos (by simpa using h), if_pos h, List.map_cons, List.sum_cons]
  · rw [List.filter_cons_of_neg (by simpa using h), if_neg h, zero_add]

/-- The changes of two lists add up. -/
theorem total_append (us vs : List (ι × Int)) (k : ι) :
    total (us ++ vs) k = total us k + total vs k := by
  simp [total, List.filter_append]

/-- The order of the changes does not matter for their sum. -/
theorem total_perm {us vs : List (ι × Int)} (h : us.Perm vs) (k : ι) : total us k = total vs k :=
  ((h.filter _).map _).sum_eq

/-- The same change for every element of a list. -/
theorem total_map {α : Type} (key : α → ι) (δ : Int) (l : List α) (k : ι) :
    total (l.map fun a => (key a, δ)) k = δ * l.countP fun a => decide (key a = k) := by
  induction l with
  | nil => simp
  | cons a l ih =>
    rw [List.map_cons, total_cons, ih, List.countP_cons]
    by_cases h : key a = k
    · simp only [h, if_true, decide_true, Nat.cast_add, Nat.cast_one]
      ring
    · simp [h]

/-- A change up where `p` holds and down where `q` does. -/
theorem total_map_sub {α : Type} (key : α → ι) (p q : α → Bool) (l : List α) (k : ι) :
    total (l.map fun a => (key a, (if p a then 1 else 0) - if q a then 1 else 0)) k
      = (l.countP fun a => p a && decide (key a = k))
        - (l.countP fun a => q a && decide (key a = k)) := by
  induction l with
  | nil => simp
  | cons a l ih =>
    rw [List.map_cons, total_cons, ih, List.countP_cons, List.countP_cons]
    by_cases h : key a = k
    · simp only [h, if_true, decide_true, Bool.and_true]
      push_cast
      ring
    · simp [h]

/-- One change and the rest of them. -/
theorem changed_total (f : ι → Int) (u : ι × Int) (us : List (ι × Int)) (k : ι) :
    changed f u k + total us k = f k + total (u :: us) k := by
  rw [total_cons, changed, add_assoc]

/-- Counters that are decremented by one, each at most once, and are positive before. -/
theorem Stays.of_decrements {f : ι → Int} {us : List (ι × Int)} (hf : ∀ k, 0 ≤ f k)
    (hneg : ∀ u ∈ us, u.2 < 0 → u.2 = -1 ∧ 1 ≤ f u.1)
    (honce : ((us.filter fun u => decide (u.2 < 0)).map (·.1)).Nodup) : Stays f us := by
  induction us generalizing f with
  | nil => trivial
  | cons u us ih =>
    have hu := hneg u List.mem_cons_self
    have hus : ∀ v ∈ us, v.2 < 0 → v.2 = -1 ∧ 1 ≤ f v.1 :=
      fun v hv => hneg v (List.mem_cons_of_mem u hv)
    -- the first change decrements, or it does not
    by_cases hlt : u.2 < 0
    · rw [List.filter_cons_of_pos (by simpa using hlt), List.map_cons, List.nodup_cons] at honce
      have hpos := hu hlt
      refine ⟨by omega, ih (fun k => ?_) (fun v hv hvlt => ?_) honce.2⟩
      · have hk := hf k
        unfold changed
        split
        · next hk' => subst hk'; omega
        · omega
      · -- the counter of `u` is not decremented again
        have hne : u.1 ≠ v.1 := by
          intro he
          refine honce.1 (List.mem_map.mpr ⟨v, List.mem_filter.mpr ⟨hv, ?_⟩, he.symm⟩)
          simpa using hvlt
        have hv := hus v hv hvlt
        simp only [changed, if_neg hne]
        omega
    · rw [List.filter_cons_of_neg (by simpa using hlt)] at honce
      -- no counter goes down, so what was positive stays so
      have hle : ∀ k, f k ≤ changed f u k := by
        intro k
        unfold changed
        split <;> omega
      refine ⟨by have := hf u.1; omega, ih (fun k => (hf k).trans (hle k)) (fun v hv hvlt => ?_)
        honce⟩
      have hv := hus v hv hvlt
      exact ⟨hv.1, hv.2.trans (hle v.1)⟩

/-! ## Clamped changes

A counter that stops at zero. Its value after some changes is the sum of them if none of them was clamped. -/

/-- The changes of the counter `k`, in their order. -/
def changesOf (us : List (ι × Int)) (k : ι) : List Int := (us.filter fun u => decide (u.1 = k)).map (·.2)

theorem sum_changesOf (us : List (ι × Int)) (k : ι) : (changesOf us k).sum = total us k := rfl

/-- The changes of one key, list by list. -/
theorem changesOf_append (us vs : List (ι × Int)) (k : ι) :
    changesOf (us ++ vs) k = changesOf us k ++ changesOf vs k := by
  simp [changesOf, List.filter_append]

theorem changesOf_cons (u : ι × Int) (us : List (ι × Int)) (k : ι) :
    changesOf (u :: us) k = if u.1 = k then u.2 :: changesOf us k else changesOf us k := by
  unfold changesOf
  by_cases h : u.1 = k
  · rw [List.filter_cons_of_pos (by simpa using h), if_pos h, List.map_cons]
  · rw [List.filter_cons_of_neg (by simpa using h), if_neg h]

/-- The counter `u` after some changes, each clamped at zero. -/
def clamped (u : Int) (ds : List Int) : Int := ds.foldl (fun u d => max (u + d) 0) u

/-- Changes are made one list after the other. -/
theorem clamped_append (u : Int) (ds es : List Int) : clamped u (ds ++ es) = clamped (clamped u ds) es :=
  List.foldl_append

theorem clamped_cons (u d : Int) (ds : List Int) : clamped u (d :: ds) = clamped (max (u + d) 0) ds := rfl

/-- A counter that only goes down stops at zero. -/
theorem clamped_down {u : Int} {ds : List Int} (hu : 0 ≤ u) (h : ∀ d ∈ ds, d ≤ 0) :
    clamped u ds = max (u + ds.sum) 0 ∧ ds.sum ≤ 0 := by
  induction ds generalizing u with
  | nil =>
    simp only [clamped, List.foldl_nil, List.sum_nil]
    omega
  | cons d ds ih =>
    have hd := h d List.mem_cons_self
    obtain ⟨hrest, hsum⟩ := ih (Int.le_max_right (u + d) 0) fun e he => h e (List.mem_cons_of_mem d he)
    rw [clamped_cons, hrest, List.sum_cons]
    omega

/-- **Changes of which none goes up after one that went down** are clamped once, at the end. -/
theorem clamped_eq_max {u : Int} {ds : List Int} (hu : 0 ≤ u) (h : ds.Pairwise fun d e => d < 0 → e ≤ 0) :
    clamped u ds = max (u + ds.sum) 0 := by
  induction ds generalizing u with
  | nil =>
    simp only [clamped, List.foldl_nil, List.sum_nil]
    omega
  | cons d ds ih =>
    rw [List.pairwise_cons] at h
    rw [clamped_cons, List.sum_cons]
    by_cases hd : d < 0
    · -- from here on the counter goes down only
      obtain ⟨hrest, hsum⟩ := clamped_down (Int.le_max_right (u + d) 0) fun e he => h.1 e he hd
      rw [hrest]
      omega
    · rw [ih (Int.le_max_right (u + d) 0) h.2]
      omega

end AcaSocial
