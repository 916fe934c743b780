import AcaSocial.Base.Text

/-!
# Strings of Go

The functions of the package `strings` that the gateway uses.
-/

namespace AcaSocial.Gateway

/-- White space of Unicode, which is what `TrimSpace` strips. -/
def isSpace (c : Char) : Bool :=
  let n := c.toNat
  decide ((9 ≤ n ∧ n ≤ 13) ∨ n = 0x20 ∨ n = 0x85 ∨ n = 0xa0 ∨ n = 0x1680 ∨ (0x2000 ≤ n ∧ n ≤ 0x200a)
    ∨ n = 0x2028 ∨ n = 0x2029 ∨ n = 0x202f ∨ n = 0x205f ∨ n = 0x3000)

/-- The text without the characters of a kind at both ends. -/
def trimBoth (p : Char → Bool) (text : List Char) : List Char :=
  ((text.dropWhile p).reverse.dropWhile p).reverse

def trimSpace (s : String) : String := String.ofList (trimBoth isSpace s.toList)

/-- `strings.Split` with a separator of one character. -/
def split (s : String) (sep : Char) : List String :=
  (Text.splitOn sep [] s.toList).map String.ofList

def hasPrefix (s start : String) : Bool := start.toList.isPrefixOf s.toList

def hasSuffix (s ending : String) : Bool := ending.toList.isSuffixOf s.toList

def trimPrefix (s start : String) : String :=
  if hasPrefix s start then String.ofList (s.toList.drop start.toList.length) else s

def trimSuffix (s ending : String) : String :=
  if hasSuffix s ending then String.ofList (s.toList.take (s.toList.length - ending.toList.length))
  else s

def join (parts : List String) (sep : String) : String := sep.intercalate parts

example : split "a,b,,c" ',' = ["a", "b", "", "c"] := by decide

end AcaSocial.Gateway
