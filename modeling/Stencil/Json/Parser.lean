import Stencil.Json.Value

/-!
# Reading JSON

The grammar of RFC 8259, with the limits that matter here: arrays and objects may be nested 127
deep, and a number that is no whole number of 64 bits is read as a floating-point number from the
digits that fit into 64 bits and a power of ten.  A reader keeps the fields of an object as they are
written; `parse?` then sorts them, and of several with one key the last counts.  Fields nobody asks
for can be passed over: their values are then looked at for their form alone.

Each reader takes the text still to be read and gives back what follows.
-/

namespace Stencil.Json

/-- The blank characters between the parts of a value. -/
def isSpace (c : Char) : Bool := c == ' ' || c == '\n' || c == '\t' || c == '\r'

/-- The value of a hexadecimal digit. -/
def hexValue? (c : Char) : Option Nat :=
  if '0' ≤ c && c ≤ '9' then some (c.toNat - 48)
  else if 'a' ≤ c && c ≤ 'f' then some (c.toNat - 87)
  else if 'A' ≤ c && c ≤ 'F' then some (c.toNat - 55)
  else none

/-- Reads four hexadecimal digits. -/
def readHex4 : List Char → Option (Nat × List Char)
  | a :: b :: c :: d :: rest => do
    let n := (((← hexValue? a) * 16 + (← hexValue? b)) * 16 + (← hexValue? c)) * 16 + (← hexValue? d)
    some (n, rest)
  | _ => none

/-- Reads what follows a backslash in a string.  A character outside the basic plane is written as
two escapes. -/
def readEscape : List Char → Option (Char × List Char)
  | '"' :: rest => some ('"', rest)
  | '\\' :: rest => some ('\\', rest)
  | '/' :: rest => some ('/', rest)
  | 'b' :: rest => some ('\x08', rest)
  | 'f' :: rest => some ('\x0c', rest)
  | 'n' :: rest => some ('\n', rest)
  | 'r' :: rest => some ('\r', rest)
  | 't' :: rest => some ('\t', rest)
  | 'u' :: rest => do
    let (n, rest) ← readHex4 rest
    if 0xD800 ≤ n && n < 0xDC00 then
      match rest with
      | '\\' :: 'u' :: rest => do
        let (m, rest) ← readHex4 rest
        if 0xDC00 ≤ m && m < 0xE000 then
          some (Char.ofNat (0x10000 + (n - 0xD800) * 0x400 + (m - 0xDC00)), rest)
        else none
      | _ => none
    else if 0xDC00 ≤ n && n < 0xE000 then none
    else some (Char.ofNat n, rest)
  | _ => none

/-- Reads the characters of a string up to the closing quote.  The count bounds the number of
characters. -/
def readString (fuel : Nat) (acc : List Char) (cs : List Char) : Option (String × List Char) :=
  match fuel, cs with
  | _, '"' :: rest => some (.ofList acc.reverse, rest)
  | fuel + 1, '\\' :: rest =>
    match readEscape rest with
    | some (c, rest) => readString fuel (c :: acc) rest
    | none => none
  | fuel + 1, c :: rest => if c.toNat < 0x20 then none else readString fuel (c :: acc) rest
  | _, _ => none

/-! ## Numbers -/

/-- The greatest significand that is kept. -/
def maxSignificand : Nat := Nat.pow 2 64 - 1

/-- The number `significand * 10^exponent`, rounded once for the significand and once for the
scaling; `none` when it is too large. -/
def scale (significand : Nat) (exponent : Int) : Option Float :=
  let x := significand.toUInt64.toFloat
  if 0 ≤ exponent then
    if x == 0 then some x
    else if exponent ≤ 308 then
      let y := x * Float.ofScientific 1 false exponent.toNat
      if y.isInf then none else some y
    else none
  else if -308 ≤ exponent then some (x / Float.ofScientific 1 false (-exponent).toNat)
  else
    let y := x / Float.ofScientific 1 false 308
    if -616 ≤ exponent then some (y / Float.ofScientific 1 false (-exponent - 308).toNat)
    else some (y / Float.ofScientific 1 false 308 * 0)

/-- A floating-point number with a sign. -/
def signed (negative : Bool) (x : Float) : Number := .float (if negative then -x else x)

/-- The digits at the start of a text. -/
def digits (cs : List Char) : List Char := cs.takeWhile Char.isDigit

/-- Adds digits to a significand as long as it fits: the significand and the number of digits that
were added. -/
def addDigits (significand : Nat) (ds : List Char) : Nat × Nat :=
  go significand 0 ds
where
  go (significand used : Nat) : List Char → Nat × Nat
    | [] => (significand, used)
    | d :: ds =>
      let next := significand * 10 + (d.toNat - 48)
      if maxSignificand < next then (significand, used) else go next (used + 1) ds

/-- The value of a run of digits. -/
def natValue (ds : List Char) : Nat := ds.foldl (fun n d => n * 10 + (d.toNat - 48)) 0

/-- Reads an exponent after its `e` and gives the number. -/
def readExponent (negative : Bool) (significand : Nat) (base : Int) (cs : List Char) :
    Option (Number × List Char) :=
  let (down, cs) := match cs with
    | '+' :: rest => (false, rest)
    | '-' :: rest => (true, rest)
    | _ => (false, cs)
  match digits cs with
  | [] => none
  | ds =>
    let rest := cs.dropWhile Char.isDigit
    let size : Int := natValue ds
    -- An exponent that does not fit makes the number too large, or zero.
    if size < Nat.pow 2 31 then
      (scale significand (base + if down then -size else size)).map fun x => (signed negative x, rest)
    else if significand ≠ 0 && !down then none
    else some (signed negative 0.0, rest)

/-- Reads what may follow the whole part of a number; `lost` counts its digits that did not fit. -/
def readFraction (negative : Bool) (significand lost : Nat) (cs : List Char) :
    Option (Number × List Char) :=
  match cs with
  | '.' :: rest =>
    match digits rest with
    | [] => none
    | ds =>
      let (significand, used) := addDigits significand ds
      let base : Int := (lost : Int) - used
      match rest.dropWhile Char.isDigit with
      | 'e' :: after | 'E' :: after => readExponent negative significand base after
      | after => (scale significand base).map fun x => (signed negative x, after)
  | 'e' :: rest | 'E' :: rest => readExponent negative significand lost rest
  | _ =>
    -- Minus zero and what lies below the least whole number are floating-point numbers.
    if lost = 0 && !(negative && (significand = 0 || Nat.pow 2 63 < significand)) then
      some (.int (if negative then -(significand : Int) else significand), cs)
    else (scale significand lost).map fun x => (signed negative x, cs)

/-- Reads a number. -/
def readNumber (cs : List Char) : Option (Number × List Char) :=
  let (negative, cs) := match cs with
    | '-' :: rest => (true, rest)
    | _ => (false, cs)
  match digits cs with
  | [] => none
  -- No digit stands behind a leading zero.
  | '0' :: _ :: _ => none
  | ds =>
    let (significand, used) := addDigits 0 ds
    readFraction negative significand (ds.length - used) (cs.dropWhile Char.isDigit)

/-! ## Passing over a value

Only the form of the value counts: a number has any size, an escape by number needs four digits and
may stand for half a character, and arrays and objects are nested as deep as they like. -/

/-- Passes over what follows a backslash in a string. -/
def skipEscape : List Char → Option (List Char)
  | 'u' :: rest => (readHex4 rest).map (·.2)
  | c :: rest => if ['"', '\\', '/', 'b', 'f', 'n', 'r', 't'].contains c then some rest else none
  | [] => none

/-- Passes over the characters of a string up to the closing quote.  The count bounds the number of
characters. -/
def skipString (fuel : Nat) (cs : List Char) : Option (List Char) :=
  match fuel, cs with
  | _, '"' :: rest => some rest
  | fuel + 1, '\\' :: rest =>
    match skipEscape rest with
    | some rest => skipString fuel rest
    | none => none
  | fuel + 1, c :: rest => if c.toNat < 0x20 then none else skipString fuel rest
  | _, _ => none

/-- Passes over at least one digit. -/
def skipDigits (cs : List Char) : Option (List Char) :=
  match digits cs with
  | [] => none
  | _ => some (cs.dropWhile Char.isDigit)

/-- Passes over an exponent after its `e`. -/
def skipExponent (cs : List Char) : Option (List Char) :=
  match cs with
  | '+' :: rest | '-' :: rest => skipDigits rest
  | _ => skipDigits cs

/-- Passes over what may follow the whole part of a number. -/
def skipFraction (cs : List Char) : Option (List Char) :=
  match cs with
  | '.' :: rest =>
    match skipDigits rest with
    | some ('e' :: after) | some ('E' :: after) => skipExponent after
    | after => after
  | 'e' :: rest | 'E' :: rest => skipExponent rest
  | _ => some cs

/-- Passes over a number. -/
def skipNumber (cs : List Char) : Option (List Char) :=
  let cs := match cs with
    | '-' :: rest => rest
    | _ => cs
  match digits cs with
  | [] => none
  -- No digit stands behind a leading zero.
  | '0' :: _ :: _ => none
  | _ => skipFraction (cs.dropWhile Char.isDigit)

/-- Passes over a fixed word. -/
def skipWord (word : String) (cs : List Char) : Option (List Char) :=
  let w := word.toList
  if w.isPrefixOf cs then some (cs.drop w.length) else none

mutual
/-- Passes over a value.  The number bounds the steps. -/
def skipValue (fuel : Nat) (cs : List Char) : Option (List Char) :=
  match fuel with
  | 0 => none
  | fuel + 1 =>
    match cs.dropWhile isSpace with
    | '"' :: rest => skipString rest.length rest
    | '[' :: rest =>
      match rest.dropWhile isSpace with
      | ']' :: after => some after
      | start => skipItems fuel start
    | '{' :: rest =>
      match rest.dropWhile isSpace with
      | '}' :: after => some after
      | start => skipFields fuel start
    | 'n' :: rest => skipWord "null" ('n' :: rest)
    | 't' :: rest => skipWord "true" ('t' :: rest)
    | 'f' :: rest => skipWord "false" ('f' :: rest)
    | start => skipNumber start
/-- Passes over the items of an array that is not empty and its closing bracket. -/
def skipItems (fuel : Nat) (cs : List Char) : Option (List Char) :=
  match fuel with
  | 0 => none
  | fuel + 1 =>
    match skipValue fuel cs with
    | none => none
    | some rest =>
      match rest.dropWhile isSpace with
      | ',' :: rest => skipItems fuel rest
      | ']' :: after => some after
      | _ => none
/-- Passes over the fields of an object that is not empty and its closing brace. -/
def skipFields (fuel : Nat) (cs : List Char) : Option (List Char) :=
  match fuel with
  | 0 => none
  | fuel + 1 =>
    match cs.dropWhile isSpace with
    | '"' :: rest =>
      match skipString rest.length rest with
      | none => none
      | some rest =>
        match rest.dropWhile isSpace with
        | ':' :: rest =>
          match skipValue fuel rest with
          | none => none
          | some rest =>
            match rest.dropWhile isSpace with
            | ',' :: rest => skipFields fuel rest
            | '}' :: after => some after
            | _ => none
        | _ => none
    | _ => none
end

/-- The steps that passing over a value, or reading one, takes at most: each reads a character or opens
a level. -/
def stepBound (cs : List Char) : Nat := 2 * cs.length + 2

/-! ## Values -/

section Values

-- The keys of the fields whose values are read.
variable (reads : String → Bool)

/-- Reads a fixed word. -/
def readWord (word : String) (v : Json) (cs : List Char) : Option (Json × List Char) :=
  (skipWord word cs).map fun after => (v, after)

mutual
/-- Reads a value.  The first number bounds the steps, the second the nesting. -/
def readValue (fuel depth : Nat) (cs : List Char) : Option (Json × List Char) :=
  match fuel with
  | 0 => none
  | fuel + 1 =>
    match cs.dropWhile isSpace with
    | '"' :: rest => (readString rest.length [] rest).map fun (s, after) => (.text s, after)
    | '[' :: rest =>
      match depth with
      | 0 => none
      | depth + 1 =>
        match rest.dropWhile isSpace with
        | ']' :: after => some (.list [], after)
        | start =>
          (readItems fuel depth start).map fun (items, after) => (.list items, after)
    | '{' :: rest =>
      match depth with
      | 0 => none
      | depth + 1 =>
        match rest.dropWhile isSpace with
        | '}' :: after => some (.record [], after)
        | start =>
          (readFields fuel depth start).map fun (fields, after) => (.record fields, after)
    | 'n' :: rest => readWord "null" .null ('n' :: rest)
    | 't' :: rest => readWord "true" (.bool true) ('t' :: rest)
    | 'f' :: rest => readWord "false" (.bool false) ('f' :: rest)
    | start => (readNumber start).map fun (n, after) => (.number n, after)
/-- Reads the items of an array that is not empty, with the closing bracket. -/
def readItems (fuel depth : Nat) (cs : List Char) : Option (List Json × List Char) :=
  match fuel with
  | 0 => none
  | fuel + 1 =>
    match readValue fuel depth cs with
    | none => none
    | some (item, rest) =>
      match rest.dropWhile isSpace with
      | ',' :: rest => (readItems fuel depth rest).map fun (items, after) => (item :: items, after)
      | ']' :: after => some ([item], after)
      | _ => none
/-- Reads the fields of an object that is not empty, with the closing brace.  A value that is passed
over stands as null. -/
def readFields (fuel depth : Nat) (cs : List Char) : Option (List (String × Json) × List Char) :=
  match fuel with
  | 0 => none
  | fuel + 1 =>
    match cs.dropWhile isSpace with
    | '"' :: rest =>
      match readString rest.length [] rest with
      | none => none
      | some (key, rest) =>
        match rest.dropWhile isSpace with
        | ':' :: rest =>
          match if reads key then readValue fuel depth rest
              else (skipValue (stepBound rest) rest).map fun after => (.null, after) with
          | none => none
          | some (value, rest) =>
            match rest.dropWhile isSpace with
            | ',' :: rest =>
              (readFields fuel depth rest).map fun (fields, after) => ((key, value) :: fields, after)
            | '}' :: after => some ([(key, value)], after)
            | _ => none
        | _ => none
    | _ => none
end

/-- How deep arrays and objects may be nested. -/
def maxDepth : Nat := 127

/-- The value a text stands for, its fields as they are written and those that are not asked for passed
over. -/
def parseFields? (source : String) : Option Json :=
  let cs := source.toList
  match readValue reads (stepBound cs) maxDepth cs with
  | some (v, rest) => if rest.all isSpace then some v else none
  | none => none

end Values

/-- The value a text stands for, its fields as they are written. -/
def parseAsWritten? (source : String) : Option Json := parseFields? (fun _ => true) source

mutual
/-- A value with the fields of all its objects in key order, each key once. -/
def sortFields : Json → Json
  | .list items => .list (sortItems items)
  | .record fields => object (sortEntries fields)
  | .null => .null
  | .bool b => .bool b
  | .number n => .number n
  | .text s => .text s
/-- Sorts the fields in the items of an array. -/
def sortItems : List Json → List Json
  | [] => []
  | item :: items => sortFields item :: sortItems items
/-- Sorts the fields in the values of an object. -/
def sortEntries : List (String × Json) → List (String × Json)
  | [] => []
  | (key, value) :: fields => (key, sortFields value) :: sortEntries fields
end

/-- The value a text stands for. -/
def parse? (source : String) : Option Json := (parseAsWritten? source).map sortFields

end Stencil.Json
