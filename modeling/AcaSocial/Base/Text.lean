import Mathlib.Tactic.Common

/-!
# Text

The operations on text that the services take from JavaScript and from PostgreSQL, on lists of
code points. All of them are structural, so they evaluate in the kernel.

* **JavaScript** — `isSpace` (the class `\s`, which is also what `trim` strips), `trim`,
  `collapse` (`replace(/\s+/g, ' ')`), `splitOn`, `sliceUtf16` (`slice` counts UTF-16 units).
* **SQL** — `like`, the matching of a `LIKE` pattern with `%`, `_` and the escape `\`.
-/

namespace AcaSocial.Text

/-- White space and line terminators of ECMAScript. -/
def isSpace (c : Char) : Bool :=
  let n := c.toNat
  decide ((9 ≤ n ∧ n ≤ 13) ∨ n = 0x20 ∨ n = 0xa0 ∨ n = 0x1680 ∨ (0x2000 ≤ n ∧ n ≤ 0x200a)
    ∨ n = 0x2028 ∨ n = 0x2029 ∨ n = 0x202f ∨ n = 0x205f ∨ n = 0x3000 ∨ n = 0xfeff)

/-- `text.trim()`. -/
def trim (text : List Char) : List Char :=
  ((text.dropWhile isSpace).reverse.dropWhile isSpace).reverse

/-- `text.replace(/\s+/g, ' ')`: `spaced` says that the run of spaces at hand is written. -/
def collapse (spaced : Bool) : List Char → List Char
  | [] => []
  | c :: text =>
    if isSpace c then if spaced then collapse true text else ' ' :: collapse true text
    else c :: collapse false text

/-- `text.split(sep)`, with `field` the reversed part of the field at hand. -/
def splitOn (sep : Char) (field : List Char) : List Char → List (List Char)
  | [] => [field.reverse]
  | c :: text =>
    if c = sep then field.reverse :: splitOn sep [] text else splitOn sep (c :: field) text

/-- The number of UTF-16 units of a code point. -/
def utf16Size (c : Char) : Nat := if c.toNat < 0x10000 then 1 else 2

/-- `text.slice(0, n)`. There is none when the cut falls inside a surrogate pair: half a pair is
not a code point. -/
def sliceUtf16 : Nat → List Char → Option (List Char)
  | _, [] => some []
  | n, c :: text =>
    if n = 0 then some []
    else if n < utf16Size c then none
    else (sliceUtf16 (n - utf16Size c) text).map (c :: ·)

/-! ## SQL patterns

`ILIKE`: `%` stands for any text and `_` for any character, and characters are compared after folding. -/

/-- A pattern of `LIKE`, read. -/
inductive Glob where
  | many
  | one
  | char (c : Char)
  deriving DecidableEq

/-- Reading of a pattern. A trailing `\` escapes nothing and is dropped. -/
def globs : List Char → List Glob
  | [] => []
  | '\\' :: c :: pattern => .char c :: globs pattern
  | '\\' :: [] => []
  | '%' :: pattern => .many :: globs pattern
  | '_' :: pattern => .one :: globs pattern
  | c :: pattern => .char c :: globs pattern

/-- Some suffix of the text satisfies `p`. -/
def anySuffix (p : List Char → Bool) : List Char → Bool
  | [] => p []
  | c :: text => p (c :: text) || anySuffix p text

/-- The text matches the pattern, characters compared after `fold`. -/
def globMatch (fold : Char → Char) : List Glob → List Char → Bool
  | [], text => text.isEmpty
  | .many :: pattern, text => anySuffix (globMatch fold pattern) text
  | .one :: pattern, text => match text with
    | [] => false
    | _ :: text => globMatch fold pattern text
  | .char c :: pattern, text => match text with
    | [] => false
    | d :: text => decide (fold c = fold d) && globMatch fold pattern text

/-- `text ILIKE pattern`. -/
def ilike (fold : Char → Char) (text pattern : String) : Bool :=
  globMatch fold (globs pattern.toList) text.toList

example : ilike id "graph search" "%_h s%" = true := by decide

end AcaSocial.Text
