import Mathlib.Data.String.Basic
import Mathlib.Tactic.Common

/-!
# Timestamps

Texts of one format, in which digits stand in the same places and the rest is the same, such as
`2026-07-20T08:15:00.000Z`.

* **`HasFormat`** — the texts of a format.
* **`stamp`** — the digits of such a text as one number.
* **`lt_iff_stamp_lt`** — texts of one format are ordered as their numbers are.
-/

namespace AcaSocial.Timestamps

/-- The characters of a text: `none` stands for a digit. -/
abbrev Format := List (Option Char)

def HasFormat : Format → List Char → Prop
  | [], [] => True
  | none :: format, c :: text => c.isDigit = true ∧ HasFormat format text
  | some literal :: format, c :: text => c = literal ∧ HasFormat format text
  | _, _ => False

instance : ∀ format text, Decidable (HasFormat format text)
  | [], [] => .isTrue trivial
  | none :: format, _ :: text =>
    have := instDecidableHasFormat format text
    inferInstanceAs (Decidable (_ ∧ _))
  | some _ :: format, _ :: text =>
    have := instDecidableHasFormat format text
    inferInstanceAs (Decidable (_ ∧ _))
  | [], _ :: _ => .isFalse id
  | none :: _, [] => .isFalse id
  | some _ :: _, [] => .isFalse id

/-- The digits of a text, the first of them with the greatest weight. -/
def stamp : Format → List Char → Nat
  | none :: format, c :: text => (c.toNat - '0'.toNat) * 10 ^ format.count none + stamp format text
  | some _ :: format, _ :: text => stamp format text
  | _, _ => 0

/-- A digit is less than ten. -/
theorem digit_lt {c : Char} (h : c.isDigit = true) : c.toNat - '0'.toNat < 10 := by
  have hle := (Char.isDigit_iff_toNat.mp h).2
  have hnine : '9'.toNat = 57 := rfl
  have hzero : '0'.toNat = 48 := rfl
  omega

/-- A stamp is less than ten to the number of its digits. -/
theorem stamp_lt {format : Format} {text : List Char} (h : HasFormat format text) :
    stamp format text < 10 ^ format.count none := by
  fun_induction HasFormat format text with
  | case1 => exact Nat.one_pos
  | case2 format c text ih =>
    have hdigit := digit_lt h.1
    have hrest := ih h.2
    have hle : (c.toNat - '0'.toNat + 1) * 10 ^ format.count none ≤ 10 * 10 ^ format.count none :=
      Nat.mul_le_mul_right _ (by omega)
    rw [Nat.add_mul, Nat.one_mul] at hle
    rw [List.count_cons_self, Nat.pow_succ, Nat.mul_comm _ 10]
    show (c.toNat - '0'.toNat) * 10 ^ format.count none + stamp format text < _
    omega
  | case3 literal format c text ih =>
    rw [List.count_cons_of_ne (Option.some_ne_none literal)]
    exact ih h.2
  | case4 => exact absurd h id

/-- Two numbers are compared by their first digits, and by the rest where these are the same. -/
theorem digits_lt_iff {x y v w p : Nat} (hv : v < p) (hw : w < p) :
    x * p + v < y * p + w ↔ x < y ∨ x = y ∧ v < w := by
  rcases Nat.lt_trichotomy x y with hlt | rfl | hgt
  · have hle : (x + 1) * p ≤ y * p := Nat.mul_le_mul_right p hlt
    rw [Nat.add_mul, Nat.one_mul] at hle
    exact ⟨fun _ => .inl hlt, fun _ => by omega⟩
  · constructor
    · intro h
      exact .inr ⟨rfl, by omega⟩
    · rintro (h | ⟨_, h⟩)
      · exact absurd h (Nat.lt_irrefl x)
      · omega
  · have hle : (y + 1) * p ≤ x * p := Nat.mul_le_mul_right p hgt
    rw [Nat.add_mul, Nat.one_mul] at hle
    constructor
    · intro h
      omega
    · rintro (h | ⟨h, _⟩)
      · omega
      · omega

/-- Digits compare as their values do. -/
theorem char_lt_iff {c d : Char} (hc : c.isDigit = true) (hd : d.isDigit = true) :
    c < d ↔ c.toNat - '0'.toNat < d.toNat - '0'.toNat := by
  have hc := (Char.isDigit_iff_toNat.mp hc).1
  have hd := (Char.isDigit_iff_toNat.mp hd).1
  have hlt : c < d ↔ c.toNat < d.toNat := Iff.rfl
  rw [hlt]
  omega

/-- Digits are equal when their values are. -/
theorem char_eq_iff {c d : Char} (hc : c.isDigit = true) (hd : d.isDigit = true) :
    c = d ↔ c.toNat - '0'.toNat = d.toNat - '0'.toNat := by
  have hc := (Char.isDigit_iff_toNat.mp hc).1
  have hd := (Char.isDigit_iff_toNat.mp hd).1
  constructor
  · rintro rfl
    rfl
  · intro h
    have hnat : c.toNat = d.toNat := by omega
    exact Char.toNat_inj.mp hnat

/-- **The order of the texts is the one of their numbers.** The induction is on the format, and a digit decides or the
rest does. -/
theorem lt_iff_stamp_lt {format : Format} {a b : List Char} (ha : HasFormat format a) (hb : HasFormat format b) :
    a < b ↔ stamp format a < stamp format b := by
  induction format generalizing a b with
  | nil =>
    cases a with
    | nil =>
      cases b with
      | nil => exact iff_of_false (lt_irrefl _) (Nat.lt_irrefl _)
      | cons d b => exact absurd hb id
    | cons c a => exact absurd ha id
  | cons place format ih =>
    cases a with
    | nil =>
      cases place with
      | none => exact absurd ha id
      | some literal => exact absurd ha id
    | cons c a =>
      cases b with
      | nil =>
        cases place with
        | none => exact absurd hb id
        | some literal => exact absurd hb id
      | cons d b =>
        -- both texts have a character at this place
        rw [List.cons_lt_cons_iff]
        cases place with
        | none =>
          show _ ↔ (c.toNat - '0'.toNat) * 10 ^ format.count none + stamp format a
            < (d.toNat - '0'.toNat) * 10 ^ format.count none + stamp format b
          rw [digits_lt_iff (stamp_lt ha.2) (stamp_lt hb.2), char_lt_iff ha.1 hb.1, char_eq_iff ha.1 hb.1,
            ih ha.2 hb.2]
        | some literal =>
          -- a literal is the same in both
          have hsame : c = d := ha.1.trans hb.1.symm
          rw [hsame, ih ha.2 hb.2]
          show _ ↔ stamp format a < stamp format b
          constructor
          · rintro (h | ⟨_, h⟩)
            · exact absurd h (lt_irrefl d)
            · exact h
          · exact fun h => .inr ⟨rfl, h⟩

/-- One number is of one text. -/
theorem stamp_inj {format : Format} {a b : List Char} (ha : HasFormat format a) (hb : HasFormat format b)
    (h : stamp format a = stamp format b) : a = b := by
  rcases lt_trichotomy a b with hlt | heq | hlt
  · exact absurd ((lt_iff_stamp_lt ha hb).mp hlt) (h ▸ Nat.lt_irrefl _)
  · exact heq
  · exact absurd ((lt_iff_stamp_lt hb ha).mp hlt) (h ▸ Nat.lt_irrefl _)

end AcaSocial.Timestamps
