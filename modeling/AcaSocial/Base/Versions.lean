import Mathlib.Data.List.Range
import Mathlib.Data.List.Nodup
import Mathlib.Tactic.Common

/-!
# Logs of versions

A row with a version number, and a log of what the row was at each of its versions.

* **`Logged log v t`** — the log has the versions `1, …, v`, each once, and `t` at `v`.
* **`LogOf log cur`** — the same of a row that may not be there yet.
* **`Advance`** — what a step may do: nothing, or the next version of row and log together.
-/

namespace AcaSocial

variable {τ : Type} {log log' : List (Nat × τ)} {v n : Nat} {t t' : τ}

/-- The versions of the log are `1, …, v`, in the order in which they were written, and `t` is what
it has at `v`. -/
structure Logged (log : List (Nat × τ)) (v : Nat) (t : τ) : Prop where
  versions : log.map Prod.fst = List.range' 1 v
  last : (v, t) ∈ log

namespace Logged

/-- The first entry is the first version. -/
theorem first (t : τ) : Logged [(1, t)] 1 t := ⟨rfl, List.mem_singleton_self _⟩

/-- The next entry is the next version. -/
theorem next (h : Logged log v t) (t' : τ) : Logged (log ++ [(v + 1, t')]) (v + 1) t' where
  versions := by
    rw [List.map_append, h.versions, List.range'_concat]
    simp [Nat.add_comm]
  last := List.mem_append_right _ (List.mem_singleton_self _)

/-- No version is there twice. -/
theorem nodup (h : Logged log v t) : (log.map Prod.fst).Nodup := by
  rw [h.versions]
  exact List.nodup_range'

/-- The log has exactly the versions from `1` to the last. -/
theorem mem_iff (h : Logged log v t) : (∃ t', (n, t') ∈ log) ↔ 1 ≤ n ∧ n ≤ v := by
  have hmem : n ∈ log.map Prod.fst ↔ ∃ t', (n, t') ∈ log := by simp
  rw [← hmem, h.versions, List.mem_range'_1]
  omega

end Logged

/-- The log of a row with its version and content, or of a row that is not there. -/
def LogOf (log : List (Nat × τ)) : Option (Nat × τ) → Prop
  | none => log = []
  | some (v, t) => Logged log v t

/-- The version that comes next. -/
def nextVersion (cur : Option (Nat × τ)) : Nat := (cur.map Prod.fst).getD 0 + 1

/-- A step leaves row and log alone, or adds the next version to both. -/
inductive Advance (log : List (Nat × τ)) (cur : Option (Nat × τ)) :
    List (Nat × τ) → Option (Nat × τ) → Prop where
  | same : Advance log cur log cur
  | next (t : τ) : Advance log cur (log ++ [(nextVersion cur, t)]) (some (nextVersion cur, t))

/-- What the log has, it keeps. -/
theorem Advance.mem {cur cur' : Option (Nat × τ)} (h : Advance log cur log' cur') (ht : (n, t) ∈ log) :
    (n, t) ∈ log' := by
  cases h with
  | same => exact ht
  | next t' => exact List.mem_append_left _ ht

/-- A step keeps the log complete. -/
theorem Advance.logOf {cur cur' : Option (Nat × τ)} (h : Advance log cur log' cur')
    (hlog : LogOf log cur) : LogOf log' cur' := by
  cases h with
  | same => exact hlog
  | next t =>
    rcases cur with - | ⟨v, t₀⟩
    · obtain rfl : log = [] := hlog
      exact .first t
    · exact Logged.next hlog t

end AcaSocial
