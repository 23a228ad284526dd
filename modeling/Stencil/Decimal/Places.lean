import Stencil.Decimal.Shortest

/-!
# Decimals with a number of places

A number that is not negative, given as a quotient of whole numbers, is rounded to a decimal place;
a half goes to the even neighbour.  The texts have a given number of places after the point, in
positional notation or with an exponent.
-/

namespace Stencil.Decimal

/-- A quotient rounded to a whole number; a half goes to the even neighbour. -/
def roundQuotient (num den : Nat) : Nat :=
  let whole := num / den
  let rest := num % den
  if den < 2 * rest || (den == 2 * rest && whole % 2 == 1) then whole + 1 else whole

/-- Rounding is never off by more than half a unit, on either side. -/
theorem roundQuotient_within_half (num : Nat) {den : Nat} (hden : 0 < den) :
    2 * num ≤ 2 * (roundQuotient num den * den) + den ∧
      2 * (roundQuotient num den * den) ≤ 2 * num + den := by
  have h := Nat.div_add_mod num den
  have hrest := Nat.mod_lt num hden
  rw [Nat.mul_comm] at h
  simp only [roundQuotient]
  split
  · rename_i hup
    simp only [Bool.or_eq_true, decide_eq_true_eq, Bool.and_eq_true, beq_iff_eq] at hup
    rw [Nat.add_mul, Nat.one_mul]
    omega
  · rename_i hdown
    simp only [Bool.or_eq_true, decide_eq_true_eq, not_or] at hdown
    omega

/-- How many units of a decimal place a quotient is, rounded. -/
def units (num den : Nat) (place : Int) : Nat :=
  if 0 ≤ place then roundQuotient num (den * Nat.pow 10 place.toNat)
  else roundQuotient (num * Nat.pow 10 (-place).toNat) den

/-- Digits with a point before the last few; there is at least one digit before the point. -/
def pointed (places : Nat) (digits : Nat) : List Char :=
  let ds := (toString digits).toList
  let ds := List.replicate (places + 1 - ds.length) '0' ++ ds
  if places = 0 then ds
  else ds.take (ds.length - places) ++ '.' :: ds.drop (ds.length - places)

/-- A quotient in positional notation. -/
def positional (num den places : Nat) : List Char :=
  pointed places (units num den (-(places : Int)))

/-- The digits of a quotient with one digit before the point, and the power of ten. -/
def scaled (num den places : Nat) : Nat × Int :=
  if num = 0 then (0, 0)
  else
    let power := magnitude num den - 1
    let n := units num den (power - places)
    if Nat.pow 10 (places + 1) ≤ n then (n / 10, power + 1) else (n, power)

/-- A power of ten after its letter, with a sign and at least two digits. -/
def powerText (letter : Char) (power : Int) : List Char :=
  let ds := (toString power.natAbs).toList
  letter :: (if power < 0 then '-' else '+') :: (List.replicate (2 - ds.length) '0' ++ ds)

/-- A quotient with an exponent. -/
def exponential (letter : Char) (num den places : Nat) : List Char :=
  let (n, power) := scaled num den places
  pointed places n ++ powerText letter power

/-- Drops zeros at the end of the places, and a point with nothing after it. -/
def dropZeros (cs : List Char) : List Char :=
  if cs.contains '.' then
    let kept := cs.reverse.dropWhile (· = '0')
    (if kept.head? = some '.' then kept.drop 1 else kept).reverse
  else cs

/-- A quotient with some digits: positional unless the power of ten is small or as large as their
number. -/
def general (letter : Char) (num den digits : Nat) (keepsZeros : Bool) : List Char :=
  let places := digits - 1
  let (n, power) := scaled num den places
  let trim (cs : List Char) : List Char := if keepsZeros then cs else dropZeros cs
  if -4 ≤ power && power < digits then
    trim (positional num den (((places : Int) - power).toNat))
  else trim (pointed places n) ++ powerText letter power

/-- A number of full precision as a quotient. -/
def Binary.quotient (b : Binary) : Nat × Nat :=
  if 0 ≤ b.exponent then (b.mantissa * Nat.pow 2 b.exponent.toNat, 1)
  else (b.mantissa, Nat.pow 2 (-b.exponent).toNat)

end Stencil.Decimal
