import Stencil.Json.Value
import Stencil.Decimal.Shortest

/-!
# Printing JSON

Compact text has no blanks; indented text puts each entry on a line of its own, two blanks deeper
than its parent, and leaves empty arrays and objects closed.  In strings the quote, the backslash
and the control characters below U+0020 are escaped, and nothing else.
-/

namespace Stencil.Json

/-- A hexadecimal digit in lower case. -/
def hexDigit (n : Nat) : Char := if n < 10 then Char.ofNat (48 + n) else Char.ofNat (87 + n)

/-- The written form of one character of a string. -/
def escapeChar (c : Char) : List Char :=
  if c = '"' then ['\\', '"']
  else if c = '\\' then ['\\', '\\']
  else if c = '\n' then ['\\', 'n']
  else if c = '\r' then ['\\', 'r']
  else if c = '\t' then ['\\', 't']
  else if c = '\x08' then ['\\', 'b']
  else if c = '\x0c' then ['\\', 'f']
  else if c.toNat < 0x20 then
    ['\\', 'u', '0', '0', hexDigit (c.toNat / 16), hexDigit (c.toNat % 16)]
  else [c]

/-- A string in quotes. -/
def quote (s : String) : List Char := '"' :: s.toList.flatMap escapeChar ++ ['"']

/-- Floating-point numbers keep a point or an exponent, and are written positionally from 1e-5 up
to below 1e16. -/
def floatLayout : Decimal.Layout :=
  { leastPositional := -5, greatestPositional := 15, wholeSuffix := true, nan := "null",
    infinity := "null", signedZero := true }

/-- The text of a number. -/
def numberText : Number → String
  | .int n => toString n
  | .float x => floatLayout.float x

/-- Texts with commas between them. -/
def commaSeparated : List (List Char) → List Char
  | [] => []
  | [t] => t
  | t :: ts => t ++ ',' :: commaSeparated ts

mutual
/-- The compact text of a value. -/
def write : Json → List Char
  | .null => "null".toList
  | .bool b => (toString b).toList
  | .number n => (numberText n).toList
  | .text s => quote s
  | .list items => '[' :: commaSeparated (writeItems items) ++ [']']
  | .record fields => '{' :: commaSeparated (writeFields fields) ++ ['}']
/-- The compact texts of the items of an array. -/
def writeItems : List Json → List (List Char)
  | [] => []
  | item :: items => write item :: writeItems items
/-- The compact texts of the fields of an object. -/
def writeFields : List (String × Json) → List (List Char)
  | [] => []
  | (key, value) :: fields => (quote key ++ ':' :: write value) :: writeFields fields
end

/-- The compact text of a value. -/
def compact (v : Json) : String := .ofList (write v)

/-- A line break and the blanks of a level. -/
def newline (level : Nat) : List Char := '\n' :: List.replicate (2 * level) ' '

/-- Entries on lines of their own between two brackets. -/
def block (opening closing : Char) (level : Nat) (entries : List (List Char)) : List Char :=
  match entries with
  | [] => [opening, closing]
  | _ =>
    opening :: commaSeparated (entries.map (newline (level + 1) ++ ·)) ++ newline level ++ [closing]

mutual
/-- The indented text of a value at a level. -/
def writeIndented (level : Nat) : Json → List Char
  | .list items => block '[' ']' level (indentedItems (level + 1) items)
  | .record fields => block '{' '}' level (indentedFields (level + 1) fields)
  | .null => "null".toList
  | .bool b => (toString b).toList
  | .number n => (numberText n).toList
  | .text s => quote s
/-- The indented texts of the items of an array. -/
def indentedItems (level : Nat) : List Json → List (List Char)
  | [] => []
  | item :: items => writeIndented level item :: indentedItems level items
/-- The indented texts of the fields of an object. -/
def indentedFields (level : Nat) : List (String × Json) → List (List Char)
  | [] => []
  | (key, value) :: fields =>
    (quote key ++ ':' :: ' ' :: writeIndented level value) :: indentedFields level fields
end

/-- The indented text of a value. -/
def indented (v : Json) : String := .ofList (writeIndented 0 v)

/-- The indented text of an object of strings. -/
def indentedStrings (d : Dict String) : String := indented (ofDict (d.map .text))

end Stencil.Json
