import Mathlib.Logic.Function.Basic
import Mathlib.Tactic.Common

/-!
# Keys with a time to live

A key-value store in which an entry may have a deadline. An entry is there until its deadline and
gone from it on; nothing has to remove it.

* **`Keyspace.get?`** — what a read at a time sees.
* **`setEx`**, **`del`**, **`incr`**, **`expire`** — the writes.

The `get?_*` lemmas say what a read sees after a write.
-/

namespace AcaSocial

/-- A value and the time from which it is gone, if there is one. -/
structure Entry (ν : Type) where
  value : ν
  deadline : Option Nat

/-- The entry is still there at `now`. -/
def Entry.Live {ν : Type} (e : Entry ν) (now : Nat) : Prop := ∀ d, e.deadline = some d → now < d

instance {ν : Type} (e : Entry ν) (now : Nat) : Decidable (e.Live now) :=
  match h : e.deadline with
  | none => .isTrue fun d hd => nomatch h.symm.trans hd
  | some d =>
    if hlt : now < d then .isTrue fun d' hd => by
      obtain rfl : d = d' := Option.some.inj (h.symm.trans hd)
      exact hlt
    else .isFalse fun hlive => hlt (hlive d h)

/-- The entries of the store, by their keys. -/
abbrev Keyspace (κ ν : Type) := κ → Option (Entry ν)

namespace Keyspace

variable {κ ν : Type} (m : Keyspace κ ν) (now : Nat) (k k' : κ)

/-- `GET`. -/
def get? : Option ν := ((m k).filter fun e => decide (e.Live now)).map Entry.value

/-- `TTL` in whole seconds, to the nearest one: `-2` without an entry, `-1` without a deadline. -/
def ttl : Int :=
  match (m k).filter fun e => decide (e.Live now) with
  | none => -2
  | some ⟨_, none⟩ => -1
  | some ⟨_, some d⟩ => ((d - now + 500) / 1000 : Nat)

variable [DecidableEq κ]

/-- `SET … EX`: the entry goes away at `deadline`. -/
def setEx (v : ν) (deadline : Nat) : Keyspace κ ν := Function.update m k (some ⟨v, some deadline⟩)

/-- `DEL`. -/
def del : Keyspace κ ν := Function.update m k none

/-- `EXPIRE`: an entry that is there gets a new deadline. -/
def expire (deadline : Nat) : Keyspace κ ν :=
  match m.get? now k with
  | none => m
  | some v => m.setEx k v deadline

/-- `INCR`: counts from zero, and leaves the deadline of an entry that is there. -/
def incr (m : Keyspace κ Nat) (now : Nat) (k : κ) : Keyspace κ Nat × Nat :=
  match (m k).filter fun e => decide (e.Live now) with
  | none => (Function.update m k (some ⟨1, none⟩), 1)
  | some e => (Function.update m k (some { e with value := e.value + 1 }), e.value + 1)

variable {m now k k'}

omit [DecidableEq κ] in
/-- A key is found while it lives. -/
theorem get?_eq_some {v : ν} : m.get? now k = some v ↔ ∃ e, m k = some e ∧ e.Live now ∧ e.value = v := by
  simp only [get?, Option.map_eq_some_iff, Option.filter_eq_some_iff, decide_eq_true_eq, and_assoc]

/-- To set a key leaves the others. -/
theorem get?_setEx_of_ne {v : ν} {deadline : Nat} (h : k' ≠ k) :
    (m.setEx k v deadline).get? now k' = m.get? now k' := by
  rw [get?, setEx, Function.update_of_ne h, ← get?]

/-- A key that is deleted is gone. -/
@[simp] theorem get?_del_self : (m.del k).get? now k = none := by
  rw [get?, del, Function.update_self]
  rfl

/-- To delete a key leaves the others. -/
theorem get?_del_of_ne (h : k' ≠ k) : (m.del k).get? now k' = m.get? now k' := by
  rw [get?, del, Function.update_of_ne h, ← get?]

/-- To count a key leaves the others. -/
theorem incr_of_ne {m : Keyspace κ Nat} (h : k' ≠ k) : (m.incr now k).1 k' = m k' := by
  unfold incr
  split
  · exact Function.update_of_ne h _ _
  · exact Function.update_of_ne h _ _

/-- To expire a key leaves the others. -/
theorem expire_of_ne {deadline : Nat} (h : k' ≠ k) : m.expire now k deadline k' = m k' := by
  unfold expire
  cases m.get? now k with
  | none => rfl
  | some v => exact Function.update_of_ne h _ _

/-- A counter has the deadline that it had, or none. -/
theorem deadline_incr {m : Keyspace κ Nat} {e' : Entry Nat} (he : (m.incr now k).1 k = some e') :
    e'.deadline = none ∨ ∃ e, m k = some e ∧ e'.deadline = e.deadline := by
  unfold incr at he
  cases hfilter : (m k).filter fun e => decide (e.Live now) with
  | none =>
    rw [hfilter] at he
    have he : Function.update m k (some ⟨1, none⟩) k = some e' := he
    rw [Function.update_self] at he
    obtain rfl := Option.some.inj he
    exact .inl rfl
  | some e =>
    rw [hfilter] at he
    have he : Function.update m k (some { e with value := e.value + 1 }) k = some e' := he
    rw [Function.update_self] at he
    obtain rfl := Option.some.inj he
    exact .inr ⟨e, (Option.filter_eq_some_iff.mp hfilter).1, rfl⟩

/-- An entry has the new deadline, or was not there any more. -/
theorem deadline_expire {deadline : Nat} {e' : Entry ν} (he : m.expire now k deadline k = some e') :
    e'.deadline = some deadline ∨ m k = some e' := by
  unfold expire at he
  cases hget : m.get? now k with
  | none =>
    rw [hget] at he
    exact .inr he
  | some v =>
    rw [hget] at he
    have he : m.setEx k v deadline k = some e' := he
    rw [setEx, Function.update_self] at he
    obtain rfl := Option.some.inj he
    exact .inl rfl

omit [DecidableEq κ] in
/-- Time takes entries away and brings none. -/
theorem get?_of_le {v : ν} {now' : Nat} (hle : now ≤ now') (h : m.get? now' k = some v) :
    m.get? now k = some v := by
  obtain ⟨e, he, hlive, hv⟩ := get?_eq_some.mp h
  exact get?_eq_some.mpr ⟨e, he, fun d hd => Nat.lt_of_le_of_lt hle (hlive d hd), hv⟩

end Keyspace

end AcaSocial
