/-!
# Whole numbers in texts

Reading a whole number from a text that holds nothing else, within the bounds of a fixed width.
-/

namespace Stencil.Text

/-- The value of a non-empty text of ASCII digits. -/
def natOfDigits? (cs : List Char) : Option Nat :=
  if !cs.isEmpty && cs.all Char.isDigit then
    some (cs.foldl (fun n c => n * 10 + (c.toNat - 48)) 0)
  else none

/-- The least number of 64 bits with a sign. -/
def minInt64 : Int := -Int.pow 2 63

/-- The greatest number of 64 bits with a sign. -/
def maxInt64 : Int := Int.pow 2 63 - 1

/-- The greatest number of 64 bits without a sign. -/
def maxNat64 : Nat := Nat.pow 2 64 - 1

/-- A number brought into the range of 64 bits with a sign. -/
def clampInt64 (n : Int) : Int := max minInt64 (min maxInt64 n)

/-- The number of 64 bits with a sign that a text stands for: digits after an optional sign. -/
def int64? (cs : List Char) : Option Int :=
  let n? : Option Int := match cs with
    | '-' :: ds => (natOfDigits? ds).map fun n => -(n : Int)
    | '+' :: ds => (natOfDigits? ds).map Int.ofNat
    | ds => (natOfDigits? ds).map Int.ofNat
  n?.filter fun n => minInt64 ≤ n && n ≤ maxInt64

/-- The number of 64 bits without a sign that a text stands for: digits after an optional plus. -/
def nat64? (cs : List Char) : Option Nat :=
  let n? := match cs with
    | '+' :: ds => natOfDigits? ds
    | ds => natOfDigits? ds
  n?.filter (· ≤ maxNat64)

end Stencil.Text
