import AcaSocial.Base.Text
import Mathlib.Logic.Function.Basic

/-!
# Header fields

The header of an HTTP message as a map from canonical field names to the values in order, the way
Go's `net/http` and `net/textproto` keep it.

* **`canonicalKey`** — the canonical spelling of a field name. It is a fixed point of itself
  (`canonicalKey_canonicalKey`), so that a **`HeaderKey`** can only be built canonical.
* **`Header`** — the map, with `get`, `set`, `add` and `del`.
* **`Header.tokens`** — the elements of a comma-separated field.

The `values_*` lemmas say what a field has after each write.
-/

namespace AcaSocial

/-! ## Canonical names

`textproto.CanonicalMIMEHeaderKey`: the first letter and each one behind a dash is upper case, the others are lower
case. A name with other characters is left as it is. -/

def upperChar (c : Char) : Char := if 'a' ≤ c ∧ c ≤ 'z' then Char.ofNat (c.toNat - 32) else c

def lowerChar (c : Char) : Char := if 'A' ≤ c ∧ c ≤ 'Z' then Char.ofNat (c.toNat + 32) else c

/-- The characters a field name may have. -/
def validHeaderFieldChar (c : Char) : Bool :=
  decide ('a' ≤ c ∧ c ≤ 'z') || decide ('A' ≤ c ∧ c ≤ 'Z') || decide ('0' ≤ c ∧ c ≤ '9')
    || "!#$%&'*+-.^_`|~".toList.contains c

/-- A capital letter at the start and after each `-`, small letters elsewhere. -/
def canonicalChars : Bool → List Char → List Char
  | _, [] => []
  | true, c :: cs => upperChar c :: canonicalChars (c == '-') cs
  | false, c :: cs => lowerChar c :: canonicalChars (c == '-') cs

/-- The canonical spelling of a field name. A text that is no field name is left as it is. -/
def canonicalKey (name : String) : String :=
  if name.toList.all validHeaderFieldChar then String.ofList (canonicalChars true name.toList)
  else name

/-- What holds of the ASCII characters and of those that have no case holds of all. -/
theorem char_cases {P : Char → Prop} (hascii : ∀ n < 128, P (Char.ofNat n))
    (hrest : ∀ c, upperChar c = c → lowerChar c = c → P c) (c : Char) : P c := by
  by_cases hc : c.toNat < 128
  · have h := hascii c.toNat hc
    rwa [Char.ofNat_toNat] at h
  · have hu : upperChar c = c := if_neg fun h => hc (Nat.lt_of_le_of_lt h.2 (by decide))
    have hl : lowerChar c = c := if_neg fun h => hc (Nat.lt_of_le_of_lt h.2 (by decide))
    exact hrest c hu hl

theorem upperChar_upperChar : ∀ c, upperChar (upperChar c) = upperChar c :=
  char_cases (by decide) fun c hu _ => by rw [hu, hu]

theorem lowerChar_lowerChar : ∀ c, lowerChar (lowerChar c) = lowerChar c :=
  char_cases (by decide) fun c _ hl => by rw [hl, hl]

theorem upperChar_dash : ∀ c, (upperChar c == '-') = (c == '-') :=
  char_cases (by decide) fun c hu _ => by rw [hu]

theorem lowerChar_dash : ∀ c, (lowerChar c == '-') = (c == '-') :=
  char_cases (by decide) fun c _ hl => by rw [hl]

theorem validHeaderFieldChar_upperChar :
    ∀ c, validHeaderFieldChar (upperChar c) = validHeaderFieldChar c :=
  char_cases (by decide) fun c hu _ => by rw [hu]

theorem validHeaderFieldChar_lowerChar :
    ∀ c, validHeaderFieldChar (lowerChar c) = validHeaderFieldChar c :=
  char_cases (by decide) fun c _ hl => by rw [hl]

/-- A canonical name is its own canonical name. -/
theorem canonicalChars_canonicalChars (upper : Bool) (cs : List Char) :
    canonicalChars upper (canonicalChars upper cs) = canonicalChars upper cs := by
  induction cs generalizing upper with
  | nil => cases upper <;> rfl
  | cons c cs ih =>
    -- the case of a letter does not tell where the next capital stands
    cases upper with
    | true => simp only [canonicalChars, upperChar_upperChar, upperChar_dash, ih]
    | false => simp only [canonicalChars, lowerChar_lowerChar, lowerChar_dash, ih]

/-- The case of letters decides nothing about which characters a name may have. -/
theorem all_canonicalChars (upper : Bool) (cs : List Char) :
    (canonicalChars upper cs).all validHeaderFieldChar = cs.all validHeaderFieldChar := by
  induction cs generalizing upper with
  | nil => cases upper <;> rfl
  | cons c cs ih =>
    cases upper with
    | true => simp only [canonicalChars, List.all_cons, validHeaderFieldChar_upperChar, ih]
    | false => simp only [canonicalChars, List.all_cons, validHeaderFieldChar_lowerChar, ih]

/-- The canonical spelling of a canonical name is the name. -/
theorem canonicalKey_canonicalKey (name : String) :
    canonicalKey (canonicalKey name) = canonicalKey name := by
  by_cases hname : name.toList.all validHeaderFieldChar = true
  · have hkey : canonicalKey name = String.ofList (canonicalChars true name.toList) := if_pos hname
    have hvalid : (canonicalKey name).toList.all validHeaderFieldChar = true := by
      rw [hkey, String.toList_ofList, all_canonicalChars]
      exact hname
    rw [canonicalKey, if_pos hvalid, hkey, String.toList_ofList, canonicalChars_canonicalChars]
  · have hkey : canonicalKey name = name := if_neg hname
    rw [hkey, hkey]

/-! ## Headers

A header is a map from canonical names to lists of values. -/

/-- A canonical field name. -/
def HeaderKey := { name : String // canonicalKey name = name }
deriving DecidableEq

def headerKey (name : String) : HeaderKey := ⟨canonicalKey name, canonicalKey_canonicalKey name⟩

/-- The values of each field, in the order they came. A field that is not there has none. -/
abbrev Header := HeaderKey → List String

namespace Header

def empty : Header := fun _ => []

/-- All values of a field. -/
def values (h : Header) (name : String) : List String := h (headerKey name)

/-- `Header.Get`: the first value, or the empty text. -/
def get (h : Header) (name : String) : String := (h.values name).headD ""

/-- `Header.Set`. -/
def set (h : Header) (name value : String) : Header := Function.update h (headerKey name) [value]

/-- `Header.Add`. -/
def add (h : Header) (name value : String) : Header :=
  Function.update h (headerKey name) (h.values name ++ [value])

/-- `Header.Del`. -/
def del (h : Header) (name : String) : Header := Function.update h (headerKey name) []

/-- The values of `h` after those of `base`, field by field. -/
def append (base h : Header) : Header := fun key => base key ++ h key

/-- What is set replaces the values under the same canonical name. -/
theorem values_set (h : Header) (name value other : String) :
    (h.set name value).values other =
      if headerKey other = headerKey name then [value] else h.values other := by
  exact Function.update_apply h (headerKey name) [value] (headerKey other)

/-- What is added comes behind the values under the same canonical name. -/
theorem values_add (h : Header) (name value other : String) :
    (h.add name value).values other =
      if headerKey other = headerKey name then h.values name ++ [value] else h.values other := by
  exact Function.update_apply h (headerKey name) (h.values name ++ [value]) (headerKey other)

/-- What is deleted is gone under every spelling. -/
theorem values_del (h : Header) (name other : String) :
    (h.del name).values other =
      if headerKey other = headerKey name then [] else h.values other := by
  exact Function.update_apply h (headerKey name) [] (headerKey other)

@[simp] theorem values_set_self (h : Header) (name value : String) :
    (h.set name value).values name = [value] := by
  rw [values_set, if_pos rfl]

theorem values_set_of_ne (h : Header) {name other : String} (value : String)
    (hne : headerKey other ≠ headerKey name) : (h.set name value).values other = h.values other := by
  rw [values_set, if_neg hne]

/-! ### Comma-separated fields

The `Connection` header lists names of other headers, which a proxy deletes. -/

/-- `textproto.TrimString`: without the blanks of ASCII at both ends. -/
def trimString (text : List Char) : List Char :=
  let blank := fun c => c == ' ' || c == '\t' || c == '\n' || c == '\r'
  ((text.dropWhile blank).reverse.dropWhile blank).reverse

/-- The elements of all values of a field, trimmed. -/
def tokens (h : Header) (name : String) : List String :=
  ((h.values name).flatMap fun value =>
    (Text.splitOn ',' [] value.toList).map trimString).filterMap fun token =>
      if token.isEmpty then none else some (String.ofList token)

/-- All fields in `names` removed, one after the other. -/
def delAll (h : Header) (names : List String) : Header := names.foldl del h

theorem delAll_cons (h : Header) (name : String) (names : List String) :
    h.delAll (name :: names) = (h.del name).delAll names := rfl

/-- What is deleted is gone under every spelling, and the rest stays. -/
theorem values_delAll (h : Header) (names : List String) (other : String) :
    (h.delAll names).values other =
      if ∃ name ∈ names, headerKey other = headerKey name then [] else h.values other := by
  induction names generalizing h with
  | nil => simp [delAll]
  | cons name names ih =>
    rw [delAll_cons, ih, values_del]
    by_cases hname : headerKey other = headerKey name
    · simp [hname]
    · simp [hname]

end Header

example : canonicalKey "x-uSer-ID" = "X-User-Id" := by decide

end AcaSocial
