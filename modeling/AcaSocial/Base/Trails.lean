import Mathlib.Tactic.Common

/-!
# Trails of changes

A value that changes from time to time, and the list of its changes, each with the value before and after it.

* **`Trail a l b`** — the changes `l` lead from `a` to `b`. Each starts where the one before it has ended, and ends elsewhere.

`Trail.unique` says that the changes determine where they lead.
-/

namespace AcaSocial

variable {α : Type} {a b c : α} {l : List (α × α)}

inductive Trail (a : α) : List (α × α) → α → Prop where
  | nil : Trail a [] a
  | snoc {l : List (α × α)} {b c : α} (h : Trail a l b) (hne : b ≠ c) : Trail a (l ++ [(b, c)]) c

namespace Trail

/-- A trail ends where its last change does. -/
theorem last (h : Trail a l b) : b = (l.getLast?.map Prod.snd).getD a := by
  cases h with
  | nil => rfl
  | snoc h hne =>
    rw [List.getLast?_concat]
    rfl

/-- A trail ends in one place. -/
theorem unique (h : Trail a l b) (h' : Trail a l c) : b = c := h.last.trans h'.last.symm

end Trail

end AcaSocial
