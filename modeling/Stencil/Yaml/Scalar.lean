import Stencil.Yaml.Node
import Stencil.Text.Integer
import Stencil.Text.Case

/-!
# What plain scalars stand for

A scalar without quotes can be nothing, a truth value or a number.  Digits after a leading zero are
a text.
-/

namespace Stencil.Yaml

/-- Whether a text stands for nothing. -/
def isNull (s : String) : Bool := ["null", "Null", "NULL", "~"].contains s

/-- The truth value that a text stands for. -/
def bool? (s : String) : Option Bool :=
  if ["true", "True", "TRUE"].contains s then some true
  else if ["false", "False", "FALSE"].contains s then some false
  else none

/-- A text without a sign at its start. -/
def unsigned : List Char → List Char
  | '+' :: rest | '-' :: rest => rest
  | cs => cs

/-- Whether a text has several digits, the first of them a zero. -/
def isPadded (cs : List Char) : Bool :=
  match unsigned cs with
  | '0' :: d :: rest => (d :: rest).all Char.isDigit
  | _ => false

/-- The value of a digit in bases up to sixteen. -/
def digitValue? (c : Char) : Option Nat :=
  if c.isDigit then some (c.toNat - 48)
  else if 'a' ≤ c && c ≤ 'f' then some (c.toNat - 87)
  else if 'A' ≤ c && c ≤ 'F' then some (c.toNat - 55)
  else none

/-- The number that digits of a base stand for. -/
def inBase? (base : Nat) (cs : List Char) : Option Nat :=
  if cs.isEmpty then none
  else cs.foldl (fun n? c => do
    let n ← n?
    let d ← digitValue? c
    if d < base then some (n * base + d) else none) (some 0)

/-- The number without a sign that a text stands for; a plus may stand before it. -/
def natural? (s : String) : Option Nat :=
  let cs := s.toList
  let rest := match cs with
    | '+' :: rest => rest
    | cs => cs
  match rest with
  | '0' :: 'x' :: ds => inBase? 16 ds
  | '0' :: 'o' :: ds => inBase? 8 ds
  | '0' :: 'b' :: ds => inBase? 2 ds
  | ds => if isPadded cs then none else inBase? 10 ds

/-- The number of 64 bits without a sign that a text stands for. -/
def nat64? (s : String) : Option Nat := (natural? s).filter (· ≤ Text.maxNat64)

/-- Whether a text stands for a whole number of up to 128 bits. -/
def isWhole (s : String) : Bool :=
  (natural? s).any (· < Nat.pow 2 128) ||
    match s.toList with
    | '-' :: rest =>
      rest.head? != some '+' && (natural? (.ofList rest)).any (· ≤ Nat.pow 2 127)
    | _ => false

/-- Whether a text is a decimal fraction, with or without an exponent. -/
def isDecimal (cs : List Char) : Bool :=
  let whole := cs.takeWhile Char.isDigit
  let rest := cs.drop whole.length
  let (fraction, rest) := match rest with
    | '.' :: rest =>
      let ds := rest.takeWhile Char.isDigit
      (ds, rest.drop ds.length)
    | rest => ([], rest)
  !(whole.isEmpty && fraction.isEmpty) &&
    match rest with
    | [] => true
    | e :: rest =>
      (e = 'e' || e = 'E') && !(unsigned rest).isEmpty && (unsigned rest).all Char.isDigit

/-- The spellings of numbers that are not finite. -/
def endless : List String :=
  [".inf", ".Inf", ".INF", "+.inf", "+.Inf", "+.INF", "-.inf", "-.Inf", "-.INF", ".nan", ".NaN", ".NAN"]

/-- Whether a text stands for a floating-point number. -/
def isFraction (s : String) : Bool :=
  endless.contains s || (!isPadded s.toList && isDecimal (unsigned s.toList))

/-- Whether a text without quotes would stand for something else than itself. -/
def isAmbiguous (s : String) : Bool :=
  s.isEmpty || isNull s || (bool? s).isSome || isPadded s.toList || isWhole s || isFraction s ||
    ["y", "Y", "yes", "Yes", "YES", "n", "N", "no", "No", "NO", "on", "On", "ON", "off", "Off",
      "OFF"].contains s

end Stencil.Yaml
