import Stencil.Calendar.Date

/-!
# Formats for dates and times

A format is text with fields, each a percent sign and a letter.  Between the two a field that is one
number can have a sign that says how it is padded.  A format with anything else after a percent sign
is none.  Times are in UTC.
-/

namespace Stencil.Calendar

/-- What stands in the place of missing digits. -/
inductive Pad where
  /-- Nothing. -/
  | none
  /-- Zeros. -/
  | zeros
  /-- Blanks. -/
  | blanks
  deriving DecidableEq, Repr

/-- A number in a time. -/
inductive Field where
  | year | century | yearOfCentury | isoYear | isoYearOfCentury | quarter | month | day
  | weekFromSunday | weekFromMonday | isoWeek | weekdayFromSunday | weekdayFromMonday | dayOfYear
  | hour | hour12 | minute | second | nanosecond | timestamp
  deriving DecidableEq, Repr

/-- A part of a format. -/
inductive Item where
  /-- Text. -/
  | text (cs : List Char)
  /-- A number. -/
  | number (field : Field) (pad : Pad)
  /-- The name of the month, in full or its first three letters. -/
  | monthName (full : Bool)
  /-- The name of the weekday, in full or its first three letters. -/
  | weekdayName (full : Bool)
  /-- The half of the day. -/
  | halfDay (upper : Bool)
  /-- The part of the second with so many digits, after a point or not. -/
  | fraction (point : Bool) (digits : Nat)
  /-- The part of the second with as many digits as it needs in groups of three, after a point. -/
  | shortFraction
  /-- Date and time with the zone, in the form of internet protocols. -/
  | stamp
  deriving DecidableEq, Repr

/-! ## Reading formats -/

/-- The number of a letter, and how it is padded if nothing is said. -/
def numberItem? : Char → Option (Field × Pad)
  | 'C' => some (.century, .zeros)
  | 'G' => some (.isoYear, .zeros)
  | 'H' => some (.hour, .zeros)
  | 'I' => some (.hour12, .zeros)
  | 'M' => some (.minute, .zeros)
  | 'S' => some (.second, .zeros)
  | 'U' => some (.weekFromSunday, .zeros)
  | 'V' => some (.isoWeek, .zeros)
  | 'W' => some (.weekFromMonday, .zeros)
  | 'Y' => some (.year, .zeros)
  | 'd' => some (.day, .zeros)
  | 'e' => some (.day, .blanks)
  | 'f' => some (.nanosecond, .zeros)
  | 'g' => some (.isoYearOfCentury, .zeros)
  | 'j' => some (.dayOfYear, .zeros)
  | 'k' => some (.hour, .blanks)
  | 'l' => some (.hour12, .blanks)
  | 'm' => some (.month, .zeros)
  | 'q' => some (.quarter, .none)
  | 's' => some (.timestamp, .none)
  | 'u' => some (.weekdayFromMonday, .none)
  | 'w' => some (.weekdayFromSunday, .none)
  | 'y' => some (.yearOfCentury, .zeros)
  | _ => none

/-- A number padded with zeros. -/
def zeros (field : Field) : Item := .number field .zeros

/-- Items with a character between them. -/
def separated (c : Char) (fields : List Field) : List Item :=
  (fields.map zeros).intersperse (.text [c])

/-- Hours, minutes and seconds. -/
def clockItems : List Item := separated ':' [.hour, .minute, .second]

/-- What a letter stands for. -/
def letterItems? (c : Char) : Option (List Item) :=
  match numberItem? c with
  | some (field, pad) => some [.number field pad]
  | none =>
    match c with
    | 'A' => some [.weekdayName true]
    | 'a' => some [.weekdayName false]
    | 'B' => some [.monthName true]
    | 'b' | 'h' => some [.monthName false]
    | 'D' | 'x' => some (separated '/' [.month, .day, .yearOfCentury])
    | 'F' => some (separated '-' [.year, .month, .day])
    | 'P' => some [.halfDay false]
    | 'p' => some [.halfDay true]
    | 'R' => some (separated ':' [.hour, .minute])
    | 'T' | 'X' => some clockItems
    | 'r' => some (separated ':' [.hour12, .minute, .second] ++ [.text [' '], .halfDay true])
    | 'v' => some [.number .day .blanks, .text ['-'], .monthName false, .text ['-'], zeros .year]
    | 'c' =>
      some ([.weekdayName false, .text [' '], .monthName false, .text [' '], .number .day .blanks,
        .text [' ']] ++ clockItems ++ [.text [' '], zeros .year])
    | 'Z' => some [.text "+00:00".toList]
    | 'z' => some [.text "+0000".toList]
    | '+' => some [.stamp]
    | 'n' => some [.text ['\n']]
    | 't' => some [.text ['\t']]
    | '%' => some [.text ['%']]
    | _ => none

/-- A number with a padding. -/
def paddedItem? (pad : Pad) (c : Char) : Option (List Item) :=
  (numberItem? c).map fun (field, _) => [.number field pad]

/-- The items of a format. -/
def items? : List Char → Option (List Item)
  | [] => some []
  | '%' :: '-' :: c :: rest => do some ((← paddedItem? .none c) ++ (← items? rest))
  | '%' :: '0' :: c :: rest => do some ((← paddedItem? .zeros c) ++ (← items? rest))
  | '%' :: '_' :: c :: rest => do some ((← paddedItem? .blanks c) ++ (← items? rest))
  | '%' :: ':' :: 'z' :: rest => do some (.text "+00:00".toList :: (← items? rest))
  | '%' :: ':' :: ':' :: 'z' :: rest => do some (.text "+00:00:00".toList :: (← items? rest))
  | '%' :: ':' :: ':' :: ':' :: 'z' :: rest => do some (.text "+00".toList :: (← items? rest))
  | '%' :: '.' :: 'f' :: rest => do some (.shortFraction :: (← items? rest))
  | '%' :: '.' :: d :: 'f' :: rest => do
    if d = '3' || d = '6' || d = '9' then
      some (.fraction true (d.toNat - 48) :: (← items? rest))
    else none
  | '%' :: c :: rest =>
    -- Without the point only these digits can stand before the letter for the part of a second.
    if c = '3' || c = '6' || c = '9' then
      match rest with
      | 'f' :: rest => do some (.fraction false (c.toNat - 48) :: (← items? rest))
      | _ => none
    else do some ((← letterItems? c) ++ (← items? rest))
  | ['%'] => none
  | c :: rest => do some (.text [c] :: (← items? rest))

/-! ## Writing times -/

/-- A text of digits brought to a width. -/
def padTo (pad : Pad) (width : Nat) (cs : List Char) : List Char :=
  match pad with
  | .none => cs
  | .zeros => List.replicate (width - cs.length) '0' ++ cs
  | .blanks => List.replicate (width - cs.length) ' ' ++ cs

/-- The digits of a number. -/
def digits (n : Nat) : List Char := (toString n).toList

/-- A number with so many digits, padded with zeros. -/
def fixedDigits (width n : Nat) : List Char := padTo .zeros width (digits n)

/-- A number of one octet in two characters.  Tens above nine go on in the order of characters. -/
def twoDigits (pad : Pad) (n : Nat) : List Char :=
  let n := n % 256
  let ones := Char.ofNat (48 + n % 10)
  if n < 10 then padTo pad 2 [ones] else [Char.ofNat (48 + n / 10), ones]

/-- A whole number with its sign in front of the padding zeros, which is written out when asked for;
the width counts the sign. -/
def signedNumber (pad : Pad) (width : Nat) (plus : Bool) (n : Int) : List Char :=
  let sign := if n < 0 then ['-'] else if plus then ['+'] else []
  match pad with
  | .zeros => sign ++ padTo .zeros (width - sign.length) (digits n.natAbs)
  | _ => padTo pad width (sign ++ digits n.natAbs)

/-- A year has four digits; one that needs more, or is before year zero, has a sign. -/
def yearText (pad : Pad) (year : Int) : List Char :=
  if 0 ≤ year && year < 10000 then signedNumber pad 4 false year else signedNumber pad 5 true year

/-- The text of a number. -/
def Field.write (t : Time) (pad : Pad) : Field → List Char
  | year => yearText pad t.date.year
  | century => twoDigits pad (t.date.year / 100 % 256).toNat
  | yearOfCentury => twoDigits pad (t.date.year % 100).toNat
  | isoYear => yearText pad t.isoWeek.1
  | isoYearOfCentury => twoDigits pad (t.isoWeek.1 % 100).toNat
  | quarter => digits t.date.quarter
  | month => twoDigits pad t.date.month
  | day => twoDigits pad t.date.day
  | weekFromSunday => twoDigits pad t.weekFromSunday
  | weekFromMonday => twoDigits pad t.weekFromMonday
  | isoWeek => twoDigits pad t.isoWeek.2
  | weekdayFromSunday => digits t.weekday
  | weekdayFromMonday => digits t.weekdayFromMonday
  | dayOfYear => padTo pad 3 (digits t.date.dayOfYear)
  | hour => twoDigits pad t.hour
  | hour12 => twoDigits pad t.hour12
  | minute => twoDigits pad t.minute
  | second => twoDigits pad t.second
  | nanosecond => padTo pad 9 (digits t.nanosecond)
  | timestamp => signedNumber pad 9 false t.timestamp

/-- The names of the months. -/
def monthNames : List String :=
  ["January", "February", "March", "April", "May", "June", "July", "August", "September", "October",
    "November", "December"]

/-- The names of the weekdays, from Sunday. -/
def weekdayNames : List String :=
  ["Sunday", "Monday", "Tuesday", "Wednesday", "Thursday", "Friday", "Saturday"]

/-- The name of a month. -/
def monthName (month : Nat) : List Char := (monthNames.getD (month - 1) "").toList

/-- The name of a weekday. -/
def weekdayName (weekday : Nat) : List Char := (weekdayNames.getD weekday "").toList

/-- The part of the second with as many digits as it needs in groups of three. -/
def shortFraction (nanosecond : Nat) : List Char :=
  if nanosecond = 0 then []
  else if nanosecond % 1000000 = 0 then '.' :: fixedDigits 3 (nanosecond / 1000000)
  else if nanosecond % 1000 = 0 then '.' :: fixedDigits 6 (nanosecond / 1000)
  else '.' :: fixedDigits 9 nanosecond

/-- Date and time with the zone. -/
def stampText (t : Time) : List Char :=
  let two (n : Nat) : List Char := twoDigits .zeros n
  yearText .zeros t.date.year ++ '-' :: two t.date.month ++ '-' :: two t.date.day ++
    'T' :: two t.hour ++ ':' :: two t.minute ++ ':' :: two t.second ++ shortFraction t.nanosecond ++
    "+00:00".toList

/-- The text of an item. -/
def Item.write (t : Time) : Item → List Char
  | text cs => cs
  | number field pad => field.write t pad
  | monthName full =>
    let name := Calendar.monthName t.date.month
    if full then name else name.take 3
  | weekdayName full =>
    let name := Calendar.weekdayName t.weekday
    if full then name else name.take 3
  | halfDay upper =>
    match upper with
    | true => if t.hour < 12 then ['A', 'M'] else ['P', 'M']
    | false => if t.hour < 12 then ['a', 'm'] else ['p', 'm']
  | fraction point digits =>
    (if point then ['.'] else []) ++ fixedDigits digits (t.nanosecond / Nat.pow 10 (9 - digits))
  | shortFraction => Calendar.shortFraction t.nanosecond
  | stamp => stampText t

/-- A time in a format, if that is one. -/
def format? (format : String) (t : Time) : Option String :=
  (items? format.toList).map fun items => .ofList (items.flatMap (Item.write t))

end Stencil.Calendar
