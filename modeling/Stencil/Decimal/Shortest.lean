/-!
# Shortest decimals

A binary floating-point number stands for an interval: the reals that round to it.  Its shortest
decimal is the one with the fewest digits in that interval, and of those the nearest to the number.

The number is taken as `m * 2^q`; all arithmetic is exact.  A grid of `n` digits has two points
beside the number, and if any point of the grid lies in the interval, one of those two does, so
only they are tried.
-/

namespace Stencil.Decimal

/-- A decimal: `digits * 10^exponent`. -/
structure Digits where
  /-- The digits as a number. -/
  digits : Nat
  /-- The power of ten of the last digit. -/
  exponent : Int
  deriving DecidableEq, Repr, Inhabited

/-- A positive binary floating-point number: `mantissa * 2^exponent`. -/
structure Binary where
  /-- The integer part of the representation. -/
  mantissa : Nat
  /-- The power of two. -/
  exponent : Int
  /-- Whether the gap to the next smaller number is half the gap to the next larger one. -/
  narrowBelow : Bool
  deriving DecidableEq, Repr

/-- The number and the ends of its interval, over one denominator. -/
structure Interval where
  /-- The lower end. -/
  low : Nat
  /-- The number. -/
  mid : Nat
  /-- The upper end. -/
  high : Nat
  /-- The denominator. -/
  den : Nat
  /-- Whether the ends belong to the interval. -/
  closed : Bool

/-- The interval of the reals that round to a number.  Its ends belong to it when the mantissa is
even. -/
def Binary.interval (b : Binary) : Interval :=
  let scale := if 0 ≤ b.exponent then Nat.pow 2 b.exponent.toNat else 1
  let den := if 0 ≤ b.exponent then 4 else 4 * Nat.pow 2 (-b.exponent).toNat
  { low := (4 * b.mantissa - if b.narrowBelow then 1 else 2) * scale
    mid := 4 * b.mantissa * scale
    high := (4 * b.mantissa + 2) * scale
    den := den
    closed := b.mantissa % 2 == 0 }

/-- Whether `num / den` lies in an interval. -/
def Interval.contains (i : Interval) (num den : Nat) : Bool :=
  let x := num * i.den
  if i.closed then i.low * den ≤ x && x ≤ i.high * den
  else i.low * den < x && x < i.high * den

/-- The least power of ten above a number `num / den`, found by going up or down from one. -/
def magnitude (num den : Nat) : Int :=
  if den ≤ num then up 400 1 0 else down 400 1 0
where
  up : Nat → Nat → Int → Int
    | 0, _, e => e
    | fuel + 1, p, e => if p * den ≤ num then up fuel (p * 10) (e + 1) else e
  down : Nat → Nat → Int → Int
    | 0, _, e => e
    | fuel + 1, p, e => if num * p * 10 < den then down fuel (p * 10) (e - 1) else e

/-- The point of a grid with the given last place that represents the number, if there is one: of
the two points beside the number the nearer one in the interval, the even one when both are equally
near. -/
def Interval.onGrid (i : Interval) (place : Int) : Option Digits :=
  let unitNum := if 0 ≤ place then Nat.pow 10 place.toNat else 1
  let unitDen := if 0 ≤ place then 1 else Nat.pow 10 (-place).toNat
  let scaled := i.mid * unitDen
  let unit := i.den * unitNum
  let below := scaled / unit
  let above := below + 1
  let hasBelow := 0 < below && i.contains (below * unitNum) unitDen
  let hasAbove := i.contains (above * unitNum) unitDen
  let down := scaled - below * unit
  let up := above * unit - scaled
  if hasBelow && hasAbove then
    if down < up || (down == up && below % 2 == 0) then some ⟨below, place⟩ else some ⟨above, place⟩
  else if hasBelow then some ⟨below, place⟩
  else if hasAbove then some ⟨above, place⟩
  else none

/-- Drops zeros at the end of the digits. -/
def Digits.normalize (d : Digits) : Digits := go 400 d
where
  go : Nat → Digits → Digits
    | 0, d => d
    | fuel + 1, d =>
      if d.digits ≠ 0 && d.digits % 10 == 0 then go fuel ⟨d.digits / 10, d.exponent + 1⟩ else d

/-- The shortest decimal of a positive number; seventeen digits are always enough. -/
def Binary.shortest (b : Binary) : Digits :=
  let i := b.interval
  let top := magnitude i.mid i.den
  let found := (List.range 17).findSome? fun (n : Nat) => i.onGrid (top - 1 - (n : Int))
  (found.getD ⟨0, 0⟩).normalize

/-! ## Floating-point numbers -/

/-- What a floating-point number is. -/
inductive Class where
  /-- Not a number. -/
  | nan
  /-- Infinite. -/
  | infinite (negative : Bool)
  /-- Zero. -/
  | zero (negative : Bool)
  /-- Any other number, as sign and size. -/
  | finite (negative : Bool) (size : Binary)

/-- Reads a number off its 64 bits. -/
def classify (x : Float) : Class :=
  let bits := x.toBits.toNat
  let negative := bits / Nat.pow 2 63 == 1
  let exponent : Nat := bits / Nat.pow 2 52 % Nat.pow 2 11
  let fraction := bits % Nat.pow 2 52
  if exponent == 2047 then (if fraction == 0 then .infinite negative else .nan)
  else if exponent == 0 then
    if fraction == 0 then .zero negative else .finite negative ⟨fraction, -1074, false⟩
  else
    .finite negative
      ⟨Nat.pow 2 52 + fraction, (exponent : Int) - 1075, fraction == 0 && 1 < exponent⟩

/-! ## Layout -/

/-- How a decimal is laid out. -/
structure Layout where
  /-- The least power of ten of the first digit that is written in positional notation. -/
  leastPositional : Int
  /-- The greatest such power. -/
  greatestPositional : Int
  /-- Whether a whole number in positional notation gets `.0`. -/
  wholeSuffix : Bool
  /-- The texts for numbers that are not finite: not a number, infinity. -/
  nan : String
  /-- The text for infinity. -/
  infinity : String
  /-- Whether zero shows its sign. -/
  signedZero : Bool

/-- The digits of a decimal with a point or an exponent. -/
def Layout.write (l : Layout) (d : Digits) : String :=
  let text := (toString d.digits).toList
  let count := text.length
  let first : Int := d.exponent + count - 1
  if l.leastPositional ≤ first && first ≤ l.greatestPositional then
    if 0 ≤ d.exponent then
      .ofList (text ++ List.replicate d.exponent.toNat '0') ++ (if l.wholeSuffix then ".0" else "")
    else if 0 ≤ first then
      let whole := (first + 1).toNat
      .ofList (text.take whole ++ '.' :: text.drop whole)
    else
      .ofList ('0' :: '.' :: List.replicate (-first - 1).toNat '0' ++ text)
  else
    let fraction := if count == 1 then [] else '.' :: text.drop 1
    .ofList (text.take 1 ++ fraction ++ 'e' :: (toString first).toList)

/-- The text of a floating-point number in a layout. -/
def Layout.float (l : Layout) (x : Float) : String :=
  let sign (negative : Bool) := if negative then "-" else ""
  match classify x with
  | .nan => l.nan
  | .infinite negative => sign negative ++ l.infinity
  | .zero negative => sign (negative && l.signedZero) ++ (if l.wholeSuffix then "0.0" else "0")
  | .finite negative size => sign negative ++ l.write size.shortest

end Stencil.Decimal
