import Mathlib.Data.List.Forall2
import AcaSocial.Base.Guard
import AcaSocial.Base.Table

/-!
# Two runs of one computation

What a reader cannot tell apart is stated by two runs from related states.

* **`Related R x y`** — two guarded computations fail with the same error or succeed with results
  that `R` relates. The rules follow the text of a computation: `bind`, `require_bind`, `ite`.
* **`Table.Alike R`** — two tables have rows under the same keys and in the same order, and `R`
  relates them. Reads and writes of alike tables are alike.
* **`Outcome.Alike R`** — two calls respond the same and leave states that `R` relates.
-/

namespace AcaSocial

variable {ε α β σ : Type}

/-! ## Computations

Two computations that may fail are related when both fail with the same error, or both succeed with related values.
Binds, guards and lookups keep the relation, so that a method is compared with itself one line at a time. -/

/-- The same error, or results that `R` relates. -/
inductive Related (R : α → α → Prop) : Except ε α → Except ε α → Prop where
  | ok {a b : α} (h : R a b) : Related R (.ok a) (.ok b)
  | error (e : ε) : Related R (.error e) (.error e)

namespace Related

variable {R : α → α → Prop} {Q : β → β → Prop} {x y : Except ε α} {f g : α → Except ε β}

/-- The same computation is related to itself. -/
theorem of_eq (hrefl : ∀ a, R a a) (h : x = y) : Related R x y := by
  subst h
  cases x with
  | error e => exact .error e
  | ok a => exact .ok (hrefl a)

/-- Computations that are related by equality are the same. -/
theorem eq (h : Related Eq x y) : x = y := by
  cases h with
  | ok h => rw [h]
  | error e => rfl

/-- Both fail alike, or both succeed. -/
theorem elim (hx : Related R x y) :
    (∃ e, x = .error e ∧ y = .error e) ∨ ∃ a b, x = .ok a ∧ y = .ok b ∧ R a b := by
  cases hx with
  | ok hab => exact .inr ⟨_, _, rfl, rfl, hab⟩
  | error e => exact .inl ⟨e, rfl, rfl⟩

/-- A relation may be weakened. -/
theorem imp {S : α → α → Prop} (h : ∀ a b, R a b → S a b) (hx : Related R x y) :
    Related S x y := by
  cases hx with
  | ok hab => exact .ok (h _ _ hab)
  | error e => exact .error e

/-- What follows from the success of both. -/
theorem imp_ok {S : α → α → Prop} (hx : Related R x y)
    (h : ∀ a b, x = .ok a → y = .ok b → R a b → S a b) : Related S x y := by
  cases hx with
  | ok hab => exact .ok (h _ _ rfl rfl hab)
  | error e => exact .error e

/-- Two computations that start alike and go on alike. -/
theorem bind (hx : Related R x y) (h : ∀ a b, R a b → Related Q (f a) (g b)) :
    Related Q (x >>= f) (y >>= g) := by
  cases hx with
  | ok hab => exact h _ _ hab
  | error e => exact .error e

/-- Two computations that start with the same part. -/
theorem bind_same (hxy : y = x) (h : ∀ a, x = .ok a → Related Q (f a) (g a)) :
    Related Q (x >>= f) (y >>= g) := by
  rw [hxy]
  cases x with
  | ok a => exact h a rfl
  | error e => exact .error e

/-- A guard that holds in both or in neither is passed by both or by neither. -/
theorem require_bind {c d : Prop} [Decidable c] [Decidable d] {e : ε} {k l : Unit → Except ε β}
    (hcd : d ↔ c) (h : c → Related Q (k ()) (l ())) :
    Related Q (require c e >>= k) (require d e >>= l) := by
  rw [AcaSocial.require_bind, AcaSocial.require_bind]
  by_cases hc : c
  · rw [if_pos hc, if_pos (hcd.mpr hc)]
    exact h hc
  · rw [if_neg hc, if_neg fun hd => hc (hcd.mp hd)]
    exact .error e

/-- A lookup that finds related rows. -/
theorem orThrow_bind {o p : Option α} {e : ε} (hop : Option.Rel R o p)
    (h : ∀ a b, o = some a → p = some b → R a b → Related Q (f a) (g b)) :
    Related Q (orThrow o e >>= f) (orThrow p e >>= g) := by
  cases hop with
  | none => exact .error e
  | some hab => exact h _ _ rfl rfl hab

/-- A branch is taken by both or by neither. -/
theorem ite {c d : Prop} [Decidable c] [Decidable d] {x' y' : Except ε α} (hcd : d ↔ c)
    (h : c → Related R x y) (h' : ¬ c → Related R x' y') :
    Related R (if c then x else x') (if d then y else y') := by
  by_cases hc : c
  · rw [if_pos hc, if_pos (hcd.mpr hc)]
    exact h hc
  · rw [if_neg hc, if_neg fun hd => hc (hcd.mp hd)]
    exact h' hc

end Related

/-! ## Calls

Two calls are alike when their answers are the same and the states that they leave are related. -/

/-- Two calls respond the same and leave states that `R` relates. -/
structure Outcome.Alike (R : σ → σ → Prop) (o o' : Outcome σ ε α) : Prop where
  state : R o.state o'.state
  result : o.result = o'.result

/-- What is computed from the same answer is the same. -/
theorem Outcome.Alike.map {R : σ → σ → Prop} {o o' : Outcome σ ε α} (h : o.Alike R o')
    (f : α → β) : (o.map f).Alike R (o'.map f) :=
  ⟨h.state, congrArg (Except.map f) h.result⟩

/-- Transactions whose bodies fail alike, or leave related states on which they respond the same. -/
theorem commit_alike {R : σ → σ → Prop} {s s' : σ} {body body' : Except ε (σ × α)}
    {respond respond' : σ → α → Except ε β} (hs : R s s')
    (hbody : Related (fun a b => R a.1 b.1 ∧ respond a.1 a.2 = respond' b.1 b.2) body body') :
    (commit s body respond).Alike R (commit s' body' respond') := by
  cases hbody with
  | ok h => exact ⟨h.1, h.2⟩
  | error e => exact ⟨hs, rfl⟩

/-- A check in front of two alike calls. -/
theorem attempt_alike {R : σ → σ → Prop} {A : α → α → Prop} {s s' : σ} {x x' : Except ε α}
    {k k' : α → Outcome σ ε β} (hs : R s s') (hx : Related A x x')
    (h : ∀ a a', A a a' → (k a).Alike R (k' a')) : (attempt s x k).Alike R (attempt s' x' k') := by
  cases hx with
  | ok ha => exact h _ _ ha
  | error e => exact ⟨hs, rfl⟩

/-! ## Lookups

A lookup finds related values in both states, or none in either. What is computed from the common part of them is the
same. -/

section Lookups

variable {R : α → α → Prop} {o o' : Option α}

/-- A test of the common part has the same answer. -/
theorem any_congr (h : Option.Rel R o o') {f g : α → Bool} (hfg : ∀ a a', R a a' → g a' = f a) :
    o'.any g = o.any f := by
  cases h with
  | none => rfl
  | some hr => exact hfg _ _ hr

/-- A projection to the common part has the same value. -/
theorem map_congr (h : Option.Rel R o o') {f g : α → β} (hfg : ∀ a a', R a a' → g a' = f a) :
    o'.map g = o.map f := by
  cases h with
  | none => rfl
  | some hr => exact congrArg some (hfg _ _ hr)

/-- A filter by the common part keeps both values or none. -/
theorem filter_congr (h : Option.Rel R o o') {p : α → Bool} (hp : ∀ a a', R a a' → p a' = p a) :
    Option.Rel R (o.filter p) (o'.filter p) := by
  cases h with
  | none => exact .none
  | some hr =>
    simp only [Option.filter, hp _ _ hr]
    split
    · exact .some hr
    · exact .none

theorem some_ite_congr {c d : Prop} [Decidable c] [Decidable d] {a b : α} (hcd : d ↔ c)
    (hr : R a b) : Option.Rel R (if c then some a else none) (if d then some b else none) := by
  by_cases hc : c
  · rw [if_pos hc, if_pos (hcd.mpr hc)]
    exact .some hr
  · rw [if_neg hc, if_neg fun hd => hc (hcd.mp hd)]
    exact .none

end Lookups

/-! ## Lists -/

open List

/-- Sorting by keys that related elements share keeps them side by side. -/
theorem forall₂_mergeSort {R : α → α → Prop} {l l' : List α} {le : α → α → Bool}
    (h : Forall₂ R l l') (hle : ∀ a a' b b', R a a' → R b b' → le a b = le a' b') :
    Forall₂ R (l.mergeSort le) (l'.mergeSort le) := by
  -- the pairs of related elements, sorted once
  let pairs := l.zip l'
  have hpairs : ∀ p ∈ pairs, R p.1 p.2 := fun p hp => (forall₂_iff_zip.mp h).2 hp
  have hlen : l.length = l'.length := h.length_eq
  have hleft : pairs.map Prod.fst = l := map_fst_zip (Nat.le_of_eq hlen)
  have hright : pairs.map Prod.snd = l' := map_snd_zip (Nat.le_of_eq hlen.symm)
  have hsorted : ∀ p ∈ pairs.mergeSort (fun p q => le p.1 q.1), R p.1 p.2 :=
    fun p hp => hpairs p (mem_mergeSort.mp hp)
  have hl : (pairs.mergeSort fun p q => le p.1 q.1).map Prod.fst = l.mergeSort le := by
    rw [map_mergeSort (s := le) fun _ _ _ _ => rfl, hleft]
  have hl' : (pairs.mergeSort fun p q => le p.1 q.1).map Prod.snd = l'.mergeSort le := by
    rw [map_mergeSort (s := le) fun p hp q hq => hle _ _ _ _ (hpairs p hp) (hpairs q hq), hright]
  rw [← hl, ← hl', forall₂_map_left_iff, forall₂_map_right_iff, forall₂_same]
  exact hsorted

/-- Lists that are related element by element have the same common parts. -/
theorem map_eq_map_of_forall₂ {R : α → α → Prop} {l l' : List α} {f g : α → β}
    (h : Forall₂ R l l') (hfg : ∀ a a', R a a' → f a = g a') : l.map f = l'.map g := by
  induction h with
  | nil => rfl
  | cons hr _ ih => rw [map_cons, map_cons, hfg _ _ hr, ih]

/-! ## Tables -/

/-- Rows under the same keys, in the same order, that `R` relates. -/
def Table.Alike {κ ρ : Type} {key : ρ → κ} (R : ρ → ρ → Prop) (t t' : Table κ ρ key) : Prop :=
  Forall₂ (fun r r' => key r = key r' ∧ R r r') t.rows t'.rows

namespace Table.Alike

variable {κ ρ : Type} {key : ρ → κ} {R : ρ → ρ → Prop} {t t' : Table κ ρ key}

theorem refl (hrefl : ∀ r, R r r) (t : Table κ ρ key) : t.Alike R t :=
  forall₂_same.mpr fun r _ => ⟨rfl, hrefl r⟩

theorem imp {S : ρ → ρ → Prop} (hRS : ∀ r r', R r r' → S r r') (h : t.Alike R t') : t.Alike S t' :=
  Forall₂.imp (fun r r' hr => ⟨hr.1, hRS r r' hr.2⟩) h

theorem keys (h : t.Alike R t') : t.rows.map key = t'.rows.map key :=
  map_eq_map_of_forall₂ h fun _ _ hr => hr.1

theorem select (h : t.Alike R t') {p q : ρ → Bool} (hpq : ∀ r r', R r r' → p r = q r') :
    Forall₂ R (t.select p) (t'.select q) := by
  have hfilter := rel_filter (p := p) (q := q) (R := fun r r' => key r = key r' ∧ R r r')
    (fun r r' hr => by
      show p r = true ↔ q r' = true
      rw [hpq r r' hr.2]) h
  exact hfilter.imp fun _ _ => And.right

variable [DecidableEq κ]

/-- Reading a key finds related rows. -/
theorem get? (h : t.Alike R t') (k : κ) : Option.Rel R (t.get? k) (t'.get? k) := by
  have hfind : ∀ {l l' : List ρ}, Forall₂ (fun r r' => key r = key r' ∧ R r r') l l' →
      Option.Rel R (l.find? fun r => decide (key r = k)) (l'.find? fun r => decide (key r = k)) := by
    intro l l' hl
    induction hl with
    | nil => exact .none
    | @cons r r' l l' hr _ ih =>
      rw [find?_cons, find?_cons, ← hr.1]
      by_cases hk : key r = k
      · rw [decide_eq_true hk]
        exact .some hr.2
      · rw [decide_eq_false hk]
        exact ih
  exact hfind h

theorem get?_eq_none_iff (h : t.Alike R t') (k : κ) : t'.get? k = none ↔ t.get? k = none := by
  have hget := h.get? k
  cases hr : t.get? k <;> cases hr' : t'.get? k <;> rw [hr, hr'] at hget <;> simp
  · cases hget
  · cases hget

theorem save (h : t.Alike R t') {r r' : ρ} (hk : key r = key r') (hr : R r r') :
    (t.save r).Alike R (t'.save r') := by
  refine rel_map (R := fun r r' => key r = key r' ∧ R r r') (fun a a' ha => ?_) h
  rw [← hk, ← ha.1]
  by_cases hkey : key a = key r
  · rw [if_pos hkey, if_pos hkey]
    exact ⟨hk, hr⟩
  · rw [if_neg hkey, if_neg hkey]
    exact ha

theorem insert (h : t.Alike R t') {r r' : ρ} (hk : key r = key r') (hr : R r r') :
    (t.insert r).Alike R (t'.insert r') := by
  have hkeys : key r' ∈ t'.rows.map key ↔ key r ∈ t.rows.map key := by rw [hk, h.keys]
  unfold Table.insert
  by_cases hold : key r ∈ t.rows.map key
  · rw [dif_pos hold, dif_pos (hkeys.mpr hold)]
    exact h
  · rw [dif_neg hold, dif_neg (mt hkeys.mp hold)]
    exact rel_append h (.cons ⟨hk, hr⟩ .nil)

end Table.Alike

/-- Alike tables that generate the same keys. -/
structure Serial.Alike {ρ : Type} {key : ρ → Nat} (R : ρ → ρ → Prop) (t t' : Serial ρ key) :
    Prop where
  rows : t.toTable.Alike R t'.toTable
  next : t.next = t'.next

namespace Serial.Alike

variable {ρ : Type} {key : ρ → Nat} {R : ρ → ρ → Prop} {t t' : Serial ρ key}

theorem refl (hrefl : ∀ r, R r r) (t : Serial ρ key) : t.Alike R t := ⟨.refl hrefl _, rfl⟩

theorem imp {S : ρ → ρ → Prop} (hRS : ∀ r r', R r r' → S r r') (h : t.Alike R t') : t.Alike S t' :=
  ⟨h.rows.imp hRS, h.next⟩

theorem save (h : t.Alike R t') {r r' : ρ} (hk : key r = key r') (hr : R r r') :
    (t.save r).Alike R (t'.save r') := ⟨h.rows.save hk hr, h.next⟩

/-- The same row is inserted under the same key. -/
theorem insert (h : t.Alike R t') (hrefl : ∀ r, R r r) (mk : Nat → ρ) (hmk : ∀ i, key (mk i) = i) :
    (t.insert mk hmk).Alike R (t'.insert mk hmk) := by
  refine ⟨?_, congrArg (· + 1) h.next⟩
  have hrows : (t.toTable.insert (mk t.next)).Alike R (t'.toTable.insert (mk t'.next)) := by
    rw [← h.next]
    exact h.rows.insert rfl (hrefl _)
  exact hrows

end Serial.Alike

end AcaSocial
