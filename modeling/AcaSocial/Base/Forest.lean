import Mathlib.Logic.Function.Basic
import Mathlib.Logic.Relation

/-!
# Forests of links

Rows that may link to another row: `next a` is the row that `a` links to, if it links to any.

* **`Link`**, **`Reaches`** — one link, and any number of them.
* **`EndsAt`** — following the links from a row ends at a row that links to nothing.
* **`Forest`** — following the links from any row ends somewhere.

Links are written one at a time. `forest_update_iff` says exactly when a new link keeps a forest one.
-/

namespace AcaSocial

variable {α : Type} {next : α → Option α} {a b r r' x y : α}

/-- `a` links to `b`. -/
def Link (next : α → Option α) (a b : α) : Prop := next a = some b

/-- Following the links from `a` passes `b`, which may be `a` itself. -/
def Reaches (next : α → Option α) (a b : α) : Prop := Relation.ReflTransGen (Link next) a b

/-- Following the links from `a` ends at `r`. -/
inductive EndsAt (next : α → Option α) : α → α → Prop where
  | here {r : α} (h : next r = none) : EndsAt next r r
  | there {a b r : α} (h : next a = some b) (hb : EndsAt next b r) : EndsAt next a r

/-- Following the links from any row ends at a row that links to nothing. -/
def Forest (next : α → Option α) : Prop := ∀ a, ∃ r, EndsAt next a r

namespace EndsAt

/-- The end of a chain has no successor. -/
theorem root (h : EndsAt next a r) : next r = none := by
  induction h with
  | here h => exact h
  | there _ _ ih => exact ih

/-- A chain reaches its end. -/
theorem reaches (h : EndsAt next a r) : Reaches next a r := by
  induction h with
  | here _ => exact .refl
  | there h _ ih => exact .head h ih

/-- A row that links to nothing is where its own links end. -/
theorem of_root (h : EndsAt next a r) (hroot : next a = none) : r = a := by
  cases h with
  | here _ => rfl
  | there h _ => cases hroot.symm.trans h

/-- Where the links of a row end, the links of every row on the way end. -/
theorem of_reaches (h : EndsAt next a r) (hab : Reaches next a b) : EndsAt next b r := by
  induction hab with
  | refl => exact h
  | tail _ hlink ih =>
    cases ih with
    | here hroot => cases hroot.symm.trans hlink
    | there hlink' hb =>
      obtain rfl := Option.some.inj (Eq.symm (hlink : next _ = some _) |>.trans hlink')
      exact hb

/-- A row without a link that is reached is where the links end. -/
theorem of_root_reached (h : Reaches next a r) (hroot : next r = none) : EndsAt next a r := by
  induction h using Relation.ReflTransGen.head_induction_on with
  | refl => exact .here hroot
  | head hlink _ ih => exact .there hlink ih

/-- Links that end do not come back. The induction is on the way to the end. -/
theorem acyclic (h : EndsAt next a r) : ¬ Relation.TransGen (Link next) a a := by
  induction h with
  | here hroot =>
    intro hcycle
    obtain ⟨b, hlink, -⟩ := Relation.TransGen.head'_iff.mp hcycle
    cases hroot.symm.trans hlink
  | there hab _ ih =>
    intro hcycle
    -- the cycle through `a` is one through the next row
    obtain ⟨b, hlink, hback⟩ := Relation.TransGen.head'_iff.mp hcycle
    obtain rfl := Option.some.inj (hab.symm.trans hlink)
    exact ih (Relation.TransGen.tail' hback hab)

end EndsAt

/-! ## One link written -/

section Update

variable [DecidableEq α]

/-- Another link stays. -/
theorem update_of_ne (h : a ≠ x) (o : Option α) : Function.update next x o a = next a :=
  Function.update_of_ne h o next

/-- The link that is written. -/
theorem update_self (x : α) (o : Option α) : Function.update next x o x = o :=
  Function.update_self x o next

/-- A way that does not pass the written row stays. -/
theorem EndsAt.update (h : EndsAt next a r) {o : Option α} (hx : ¬ Reaches next a x) :
    EndsAt (Function.update next x o) a r := by
  induction h with
  | @here r hroot =>
    have hne : r ≠ x := fun he => hx (he ▸ .refl)
    apply EndsAt.here
    rw [update_of_ne hne, hroot]
  | @there a b r hab _ ih =>
    have hne : a ≠ x := fun he => hx (he ▸ .refl)
    refine EndsAt.there ?_ (ih fun hb => hx (.head hab hb))
    rw [update_of_ne hne, hab]

/-- Where the written row ends, the rows that pass it end, and the others end where they did. -/
theorem EndsAt.update_cases (h : EndsAt next a r) {o : Option α}
    (hx : EndsAt (Function.update next x o) x r') :
    EndsAt (Function.update next x o) a r' ∨ EndsAt (Function.update next x o) a r := by
  induction h with
  | @here r hroot =>
    by_cases he : r = x
    · exact .inl (he ▸ hx)
    · refine .inr (.here ?_)
      rw [update_of_ne he, hroot]
  | @there a b r hab _ ih =>
    by_cases he : a = x
    · exact .inl (he ▸ hx)
    · have hlink : Function.update next x o a = some b := by rw [update_of_ne he, hab]
      exact ih.imp (.there hlink) (.there hlink)

/-- To write a row it is enough that its own links end. -/
theorem Forest.update (h : Forest next) {o : Option α} (hx : EndsAt (Function.update next x o) x r') :
    Forest (Function.update next x o) := by
  intro a
  obtain ⟨r, hr⟩ := h a
  rcases hr.update_cases hx with ha | ha
  · exact ⟨r', ha⟩
  · exact ⟨r, ha⟩

/-- A row that is made a root keeps a forest one. -/
theorem Forest.update_none (h : Forest next) (x : α) : Forest (Function.update next x none) :=
  h.update (.here (update_self x none))

/-- The part of a way before it first passes the written row stays. -/
theorem Reaches.update (h : Reaches next y x) (o : Option α) : Reaches (Function.update next x o) y x := by
  induction h using Relation.ReflTransGen.head_induction_on with
  | refl => exact .refl
  | @head a b hab _ ih =>
    by_cases he : a = x
    · rw [he]
      exact .refl
    · refine .head ?_ ih
      show Function.update next x o a = some b
      rw [update_of_ne he]
      exact hab

/-- **A new link.** It keeps a forest one exactly when it does not link a row to one that reaches it. -/
theorem forest_update_iff (h : Forest next) :
    Forest (Function.update next x (some y)) ↔ ¬ Reaches next y x := by
  have hlink : Link (Function.update next x (some y)) x y := update_self x (some y)
  constructor
  · intro hforest hyx
    obtain ⟨r, hr⟩ := hforest x
    exact hr.acyclic (Relation.TransGen.head' hlink (hyx.update (some y)))
  · intro hyx
    obtain ⟨r, hr⟩ := h y
    exact h.update (.there hlink (hr.update hyx))

end Update

end AcaSocial
