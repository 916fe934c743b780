import Mathlib.Data.List.Range
import Mathlib.Tactic.Common

/-!
# Successions

Rows with a version number of which only the newest is in force.

* **`Succession`** — the versions are `1, …, n`, in the order of the rows, and the row in force is that of version `n`.

`Succession.newest` finds the row in force, and `Succession.next` puts another in its place.
-/

namespace AcaSocial

variable {ρ : Type} {version : ρ → Nat} {active : ρ → Bool} {l : List ρ}

structure Succession (version : ρ → Nat) (active : ρ → Bool) (l : List ρ) : Prop where
  versions : l.map version = List.range' 1 l.length
  newest : ∀ r ∈ l, active r = true ↔ version r = l.length

namespace Succession

/-- No rows are a succession. -/
theorem nil (version : ρ → Nat) (active : ρ → Bool) : Succession version active [] :=
  ⟨rfl, fun _ h => absurd h List.not_mem_nil⟩

/-- The last row has the version that the number of rows says. -/
theorem version_last {r : ρ} (h : Succession version active (l ++ [r])) : version r = l.length + 1 := by
  have hversions := h.versions
  rw [List.map_append, List.length_append, List.length_singleton, List.range'_concat] at hversions
  have hlast := (List.append_inj' hversions rfl).2
  rw [List.map_singleton] at hlast
  have hversion := List.head_eq_of_cons_eq hlast
  omega

/-- No version is above the number of rows. -/
theorem version_le {r : ρ} (h : Succession version active l) (hr : r ∈ l) : version r ≤ l.length := by
  have hmem := List.mem_map_of_mem (f := version) hr
  rw [h.versions, List.mem_range'_1] at hmem
  omega

/-- Of the rows only the last is in force. -/
theorem filter_active {r : ρ} (h : Succession version active (l ++ [r])) : (l ++ [r]).filter active = [r] := by
  have hlast : active r = true := by
    rw [h.newest r (by simp), h.version_last, List.length_append, List.length_singleton]
  have hothers : l.filter active = [] := by
    rw [List.filter_eq_nil_iff]
    intro r' hr' hactive
    -- the versions before the last are smaller
    have hversion := (h.newest r' (List.mem_append_left _ hr')).mp hactive
    have hversions := h.versions
    rw [List.map_append, List.length_append, List.length_singleton, List.range'_concat] at hversions
    have hmem := List.mem_map_of_mem (f := version) hr'
    rw [(List.append_inj' hversions rfl).1, List.mem_range'_1] at hmem
    rw [List.length_append, List.length_singleton] at hversion
    omega
  rw [List.filter_append, hothers, List.filter_singleton, hlast]
  rfl

/-- The next row, when all the others are retired. -/
theorem next (h : Succession version active l) {f : ρ → ρ} (hversion : ∀ r ∈ l, version (f r) = version r)
    (hretired : ∀ r ∈ l, active (f r) = false) {r : ρ} (hr : version r = l.length + 1) (hactive : active r = true) :
    Succession version active (l.map f ++ [r]) := by
  have hmap : (l.map f).map version = l.map version := by
    rw [List.map_map]
    exact List.map_congr_left hversion
  constructor
  · rw [List.map_append, hmap, h.versions, List.length_append, List.length_map, List.length_singleton, List.map_singleton,
      hr, List.range'_concat]
    congr 2
    omega
  · intro r' hr'
    rw [List.length_append, List.length_map, List.length_singleton]
    rcases List.mem_append.mp hr' with hold | hnew
    · obtain ⟨r₀, hr₀, rfl⟩ := List.mem_map.mp hold
      rw [hretired r₀ hr₀, hversion r₀ hr₀]
      have hle := h.version_le hr₀
      exact iff_of_false Bool.false_ne_true (by omega)
    · rw [List.mem_singleton.mp hnew]
      exact iff_of_true hactive hr

end Succession

end AcaSocial
