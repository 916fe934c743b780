import Mathlib.Tactic.Common
import Mathlib.Data.List.TakeWhile

/-!
# Decoded texts

The first three replacements of `externalLinks` in `lib/link-safety.ts`: character references, and the escapes of
Markdown. A text is a list of UTF-16 units, since a reference can name half a surrogate pair.

* **`decodeAmp`**, **`decodeReferences`**, **`unescape`** — the three replacements, in this order.
* **`normalized`** — the text after them.
* **`encode`** — a spelling of a text with references only.
* **`normalized_encode`** — so every text is what some other one is decoded to.
-/

namespace AcaSocial.Frontend.Links

abbrev CodeUnit := UInt16

/-- The units of a text of ASCII characters. -/
def units (text : String) : List CodeUnit := text.toList.map fun c => UInt16.ofNat c.toNat

/-- What the flag `i` of an expression compares, as far as the expressions here have letters. -/
def lower (u : CodeUnit) : CodeUnit := if 65 ≤ u.toNat ∧ u.toNat ≤ 90 then u + 32 else u

/-! ## The replacements

The source decodes `&amp;` first, and then the numeric references. -/

/-- `.replace(/&amp;/gi, "&")` -/
def decodeAmp : List CodeUnit → List CodeUnit
  | a :: b :: c :: d :: e :: text =>
    if [a, b, c, d, e].map lower = units "&amp;" then 38 :: decodeAmp text else a :: decodeAmp (b :: c :: d :: e :: text)
  | text => text

/-- `String.fromCodePoint` -/
def fromCodePoint (n : Nat) : List CodeUnit :=
  if n < 0x10000 then [UInt16.ofNat n]
  else [UInt16.ofNat (0xd800 + (n - 0x10000) / 0x400), UInt16.ofNat (0xdc00 + (n - 0x10000) % 0x400)]

/-- The value of a digit. -/
def digitOf (u : CodeUnit) : Option Nat :=
  let n := (lower u).toNat
  if 48 ≤ n ∧ n ≤ 57 then some (n - 48) else if 97 ≤ n ∧ n ≤ 102 then some (n - 87) else none

def isDigit (base : Nat) (u : CodeUnit) : Bool := (digitOf u).any fun d => decide (d < base)

/-- `parseInt(digits, base)` -/
def parseInt (base : Nat) (digits : List CodeUnit) : Nat := digits.foldl (fun n u => base * n + (digitOf u).getD 0) 0

/-- Digits and a semicolon, and what is behind them. -/
def number (base : Nat) (text : List CodeUnit) : Option (Nat × List CodeUnit) :=
  let digits := text.takeWhile (isDigit base)
  match text.dropWhile (isDigit base) with
  | semicolon :: rest => if digits ≠ [] ∧ semicolon = 59 then some (parseInt base digits, rest) else none
  | [] => none

/-- `/&#(?:x([0-9a-f]+)|(\d+));/i` at the start of the text. -/
def reference : List CodeUnit → Option (Nat × List CodeUnit)
  | ampersand :: hash :: x :: text =>
    if ampersand = 38 ∧ hash = 35 then if lower x = 120 then number 16 text else number 10 (x :: text) else none
  | _ => none

/-- The replacement of all references. Each step takes a unit at least, so the length of the text is fuel enough. -/
def decodeReferences : Nat → List CodeUnit → List CodeUnit
  | 0, text => text
  | _ + 1, [] => []
  | fuel + 1, u :: text =>
    match reference (u :: text) with
    | some (n, rest) => fromCodePoint (min 0x10ffff n) ++ decodeReferences fuel rest
    | none => u :: decodeReferences fuel text

/-- `.replace(/\\([\\()])/g, "$1")` -/
def unescape : List CodeUnit → List CodeUnit
  | a :: b :: text =>
    if a = 92 ∧ (b = 92 ∨ b = 40 ∨ b = 41) then b :: unescape text else a :: unescape (b :: text)
  | text => text

def normalized (text : List CodeUnit) : List CodeUnit :=
  let text := decodeAmp text
  unescape (decodeReferences text.length text)

/-! ## Encoded texts

An encoder that writes references for some characters, whose output is decoded to the text. -/

/-- Five decimal digits, which are enough for a unit. -/
def decimal (n : Nat) : List Nat := [n / 10000, n / 1000 % 10, n / 100 % 10, n / 10 % 10, n % 10]

def digitUnit (d : Nat) : CodeUnit := UInt16.ofNat (48 + d)

/-- A reference to the unit. -/
def referenceTo (u : CodeUnit) : List CodeUnit := 38 :: 35 :: ((decimal u.toNat).map digitUnit ++ [59])

/-- Backslashes are escaped. -/
def escape (text : List CodeUnit) : List CodeUnit := text.flatMap fun u => if u = 92 then [u, u] else [u]

/-- A text that is decoded to the given one. -/
def encode (text : List CodeUnit) : List CodeUnit := (escape text).flatMap referenceTo

variable {text rest : List CodeUnit}

/-- **Decoding takes back what encoding has done.** -/
theorem unescape_escape (text : List CodeUnit) : unescape (escape text) = text := by
  induction text with
  | nil => rfl
  | cons u text ih =>
    by_cases hu : u = 92
    · rw [hu]
      show (92 : CodeUnit) :: unescape (escape text) = _
      rw [ih]
    · show unescape ((if u = 92 then [u, u] else [u]) ++ escape text) = _
      rw [if_neg hu]
      show unescape (u :: escape text) = _
      cases hescaped : escape text with
      | nil =>
        rw [hescaped] at ih
        rw [← ih]
        rfl
      | cons v rest =>
        rw [unescape, if_neg fun h => hu h.1, ← hescaped, ih]

/-- Nothing begins here that is replaced. -/
theorem decodeAmp_cons {u : CodeUnit} (hu : lower u ≠ 38) (text : List CodeUnit) :
    decodeAmp (u :: text) = u :: decodeAmp text := by
  match text with
  | [] | [_] | [_, _] | [_, _, _] => rfl
  | b :: c :: d :: e :: text =>
    rw [decodeAmp, if_neg]
    exact fun h => hu (List.cons.inj h).1

/-- A reference with a number is not the one that is replaced. -/
theorem decodeAmp_hash (text : List CodeUnit) : decodeAmp (38 :: 35 :: text) = 38 :: decodeAmp (35 :: text) := by
  match text with
  | [] | [_] | [_, _] => rfl
  | c :: d :: e :: text =>
    rw [decodeAmp, if_neg]
    intro h
    have hsecond : lower 35 = 97 := (List.cons.inj (List.cons.inj h).2).1
    exact absurd hsecond (by decide)

theorem toNat_digitUnit {d : Nat} (hd : d < 10) : (digitUnit d).toNat = 48 + d := by
  rw [digitUnit, UInt16.toNat_ofNat']
  omega

theorem lower_digitUnit {d : Nat} (hd : d < 10) : lower (digitUnit d) = digitUnit d := by
  rw [lower, if_neg]
  rw [toNat_digitUnit hd]
  omega

/-- A digit is read as what was written. -/
theorem digitOf_digitUnit {d : Nat} (hd : d < 10) : digitOf (digitUnit d) = some d := by
  rw [digitOf, lower_digitUnit hd, toNat_digitUnit hd]
  show (if 48 ≤ 48 + d ∧ 48 + d ≤ 57 then some (48 + d - 48) else _) = some d
  rw [if_pos (by omega), Nat.add_sub_cancel_left]

theorem mem_decimal {n d : Nat} (hn : n < 100000) (hd : d ∈ decimal n) : d < 10 := by
  simp only [decimal, List.mem_cons, List.not_mem_nil, or_false] at hd
  omega

/-- Digits are not the beginning of a reference. -/
theorem decodeAmp_digits {ds : List Nat} (hds : ∀ d ∈ ds, d < 10) (text : List CodeUnit) :
    decodeAmp (ds.map digitUnit ++ text) = ds.map digitUnit ++ decodeAmp text := by
  induction ds with
  | nil => rfl
  | cons d ds ih =>
    have hd := hds d List.mem_cons_self
    show decodeAmp (digitUnit d :: (ds.map digitUnit ++ text)) = _
    rw [decodeAmp_cons, ih fun d hd => hds d (List.mem_cons_of_mem _ hd)]
    · rfl
    · rw [lower_digitUnit hd]
      intro h
      have htoNat := toNat_digitUnit hd
      rw [h] at htoNat
      change 38 = 48 + d at htoNat
      omega

/-- References to units have no reference to an ampersand by name. -/
theorem decodeAmp_flatMap (text : List CodeUnit) : decodeAmp (text.flatMap referenceTo) = text.flatMap referenceTo := by
  induction text with
  | nil => rfl
  | cons u text ih =>
    have hdigits : ∀ d ∈ decimal u.toNat, d < 10 := fun d hd =>
      mem_decimal (Nat.lt_of_lt_of_le u.toNat_lt (by decide)) hd
    have hsplit : (u :: text).flatMap referenceTo
        = 38 :: 35 :: ((decimal u.toNat).map digitUnit ++ 59 :: text.flatMap referenceTo) := by
      rw [List.flatMap_cons, referenceTo, List.cons_append, List.cons_append, List.append_assoc]
      rfl
    rw [hsplit, decodeAmp_hash, decodeAmp_cons (by decide), decodeAmp_digits hdigits, decodeAmp_cons (by decide), ih]

/-- Digits are read as the number that they stand for. -/
theorem parseInt_digits (ds : List Nat) (hds : ∀ d ∈ ds, d < 10) (n : Nat) :
    (ds.map digitUnit).foldl (fun n u => 10 * n + (digitOf u).getD 0) n = ds.foldl (fun n d => 10 * n + d) n := by
  induction ds generalizing n with
  | nil => rfl
  | cons d ds ih =>
    rw [List.map_cons, List.foldl_cons, List.foldl_cons, digitOf_digitUnit (hds d List.mem_cons_self)]
    exact ih (fun d hd => hds d (List.mem_cons_of_mem _ hd)) _

/-- The digits of a number stand for it. -/
theorem decimal_value {n : Nat} (hn : n < 100000) : (decimal n).foldl (fun n d => 10 * n + d) 0 = n := by
  simp only [decimal, List.foldl_cons, List.foldl_nil]
  omega

/-- The digits of a reference are read to their end. -/
theorem number_digits {ds : List Nat} (hds : ∀ d ∈ ds, d < 10) (hne : ds ≠ []) (rest : List CodeUnit) :
    number 10 (ds.map digitUnit ++ 59 :: rest) = some (parseInt 10 (ds.map digitUnit), rest) := by
  have hisDigit : ∀ u ∈ ds.map digitUnit, isDigit 10 u = true := by
    intro u hu
    obtain ⟨d, hd, rfl⟩ := List.mem_map.mp hu
    rw [isDigit, digitOf_digitUnit (hds d hd)]
    exact decide_eq_true (hds d hd)
  have hstop : isDigit 10 59 = false := by decide
  have htake : (ds.map digitUnit ++ 59 :: rest).takeWhile (isDigit 10) = ds.map digitUnit := by
    rw [List.takeWhile_append_of_pos hisDigit, List.takeWhile_cons_of_neg (by rw [hstop]; exact Bool.false_ne_true),
      List.append_nil]
  have hdrop : (ds.map digitUnit ++ 59 :: rest).dropWhile (isDigit 10) = 59 :: rest := by
    rw [List.dropWhile_append_of_pos hisDigit, List.dropWhile_cons_of_neg (by rw [hstop]; exact Bool.false_ne_true)]
  rw [number, htake, hdrop]
  have hmap : ds.map digitUnit ≠ [] := fun h => hne (List.map_eq_nil_iff.mp h)
  exact if_pos ⟨hmap, rfl⟩

/-- A reference to a unit is read as this unit. -/
theorem reference_referenceTo (u : CodeUnit) (rest : List CodeUnit) :
    reference (referenceTo u ++ rest) = some (u.toNat, rest) := by
  have hbound : u.toNat < 100000 := Nat.lt_of_lt_of_le u.toNat_lt (by decide)
  have hdigits : ∀ d ∈ decimal u.toNat, d < 10 := fun d hd => mem_decimal hbound hd
  have hnumber := number_digits hdigits (List.cons_ne_nil _ _) rest
  have hvalue : parseInt 10 ((decimal u.toNat).map digitUnit) = u.toNat := by
    rw [parseInt, parseInt_digits _ hdigits, decimal_value hbound]
  have hfirst : lower (digitUnit (u.toNat / 10000)) ≠ 120 := by
    have hd : u.toNat / 10000 < 10 := hdigits _ List.mem_cons_self
    rw [lower_digitUnit hd]
    intro h
    have htoNat := toNat_digitUnit hd
    rw [h] at htoNat
    change 120 = 48 + u.toNat / 10000 at htoNat
    omega
  have hsplit : referenceTo u ++ rest = 38 :: 35 :: ((decimal u.toNat).map digitUnit ++ 59 :: rest) := by
    rw [referenceTo, List.cons_append, List.cons_append, List.append_assoc]
    rfl
  rw [hvalue] at hnumber
  rw [hsplit, ← hnumber]
  show (if (38 : CodeUnit) = 38 ∧ (35 : CodeUnit) = 35 then _ else none) = _
  rw [if_pos ⟨rfl, rfl⟩, if_neg hfirst]
  rfl

/-- A code unit is the code point with its number. -/
theorem fromCodePoint_toNat (u : CodeUnit) : fromCodePoint (min 0x10ffff u.toNat) = [u] := by
  have hlt : u.toNat < 65536 := u.toNat_lt
  rw [Nat.min_eq_right (by omega), fromCodePoint, if_pos hlt, UInt16.ofNat_toNat]

/-- References to all code units of a text are decoded to the text. -/
theorem decodeReferences_encoded {fuel : Nat} (hfuel : (text.flatMap referenceTo).length ≤ fuel) :
    decodeReferences fuel (text.flatMap referenceTo) = text := by
  induction text generalizing fuel with
  | nil => cases fuel <;> rfl
  | cons u text ih =>
    rw [List.flatMap_cons, List.length_append] at hfuel
    cases fuel with
    | zero => exact absurd hfuel (by rw [referenceTo, List.length_cons]; omega)
    | succ fuel =>
      have hreference := reference_referenceTo u (text.flatMap referenceTo)
      rw [List.flatMap_cons]
      rw [referenceTo, List.length_cons] at hfuel
      rw [referenceTo, List.cons_append] at hreference ⊢
      rw [decodeReferences, hreference]
      show fromCodePoint (min 0x10ffff u.toNat) ++ decodeReferences fuel (text.flatMap referenceTo) = _
      rw [fromCodePoint_toNat, ih (by omega)]
      rfl

/-- **Every text is what its encoding is decoded to.** -/
theorem normalized_encode (text : List CodeUnit) : normalized (encode text) = text := by
  show unescape (decodeReferences (decodeAmp (encode text)).length (decodeAmp (encode text))) = text
  rw [encode, decodeAmp_flatMap, decodeReferences_encoded (Nat.le_refl _), unescape_escape]

end AcaSocial.Frontend.Links
