import Stencil.Decimal.Shortest

/-!
# Values of sandboxed scripts

Scripts compute with whole numbers of 64 bits, floating-point numbers, characters, texts, arrays and
maps.  A value is shown as text in one way, and inside an array or map in another, where texts keep
their quotes.
-/

namespace Stencil.Sandbox

/-- A value. -/
inductive Value where
  /-- No value. -/
  | unit
  /-- True or false. -/
  | bool (b : Bool)
  /-- A whole number. -/
  | int (n : Int)
  /-- A floating-point number. -/
  | float (x : Float)
  /-- A character. -/
  | char (c : Char)
  /-- A text. -/
  | text (s : String)
  /-- An array. -/
  | array (items : List Value)
  /-- A map, its entries in key order. -/
  | map (entries : List (String × Value))
  /-- The numbers from one up to another, which is included or not. -/
  | range (first last : Int) (inclusive : Bool)
  /-- Every so many numbers from one up to another, which is not included. -/
  | steps (first last step : Int)
  /-- A function by its name, with the variables it shares with the scope it was made in, each in
  a cell, and its first arguments. -/
  | closure (name : String) (captured : List (String × Nat)) (bound : List Value)
  deriving Inhabited

namespace Value

/-- Floating-point numbers up to 1e13 in size are written in full. -/
def positional : Decimal.Layout :=
  { leastPositional := -400, greatestPositional := 400, wholeSuffix := true, nan := "NaN"
    infinity := "inf", signedZero := false }

/-- Larger and smaller ones are written with an exponent. -/
def exponential : Decimal.Layout :=
  { leastPositional := 1, greatestPositional := 0, wholeSuffix := false, nan := "NaN"
    infinity := "inf", signedZero := false }

/-- The text of a floating-point number. -/
def floatText (x : Float) : String :=
  let size := x.abs
  if size == 0.0 then "0.0"
  else if size > 1e13 || size < 1e-13 then exponential.float x
  else positional.float x

/-- A character between quotes. -/
def quotedChar (quote : Char) (c : Char) : List Char :=
  if c = quote || c = '\\' then ['\\', c]
  else if c = '\n' then ['\\', 'n']
  else if c = '\r' then ['\\', 'r']
  else if c = '\t' then ['\\', 't']
  else if c = '\x00' then ['\\', '0']
  else if c.toNat < 32 || c.toNat = 127 then
    "\\u\x7b".toList ++ Nat.toDigits 16 c.toNat ++ ['\x7d']
  else [c]

/-- A text between quotes. -/
def quoted (s : String) : String :=
  .ofList ('"' :: s.toList.flatMap (quotedChar '"') ++ ['"'])

/-- A range as it is written. -/
def rangeText (first last : Int) (inclusive : Bool) : String :=
  toString first ++ (if inclusive then "..=" else "..") ++ toString last

mutual
/-- The text of a value inside another. -/
def debug : Value → String
  | unit => "()"
  | bool b => toString b
  | int n => toString n
  | float x => floatText x
  | char c => .ofList ('\'' :: quotedChar '\'' c ++ ['\''])
  | text s => quoted s
  | array items => "[" ++ ", ".intercalate (debugItems items) ++ "]"
  | map entries => "#\x7b" ++ ", ".intercalate (debugEntries entries) ++ "\x7d"
  | range first last inclusive => rangeText first last inclusive
  | steps _ _ _ => "StepRange<i64>"
  | closure name _ _ => "Fn(" ++ quoted name ++ ")"
/-- The texts of the items of an array. -/
def debugItems : List Value → List String
  | [] => []
  | v :: vs => debug v :: debugItems vs
/-- The texts of the entries of a map. -/
def debugEntries : List (String × Value) → List String
  | [] => []
  | (k, v) :: es => (quoted k ++ ": " ++ debug v) :: debugEntries es
end

/-- The text of a value. -/
def display : Value → String
  | unit => ""
  | text s => s
  | char c => .ofList [c]
  | closure name _ _ => "Fn(" ++ name ++ ")"
  | v => v.debug

/-- The name of the type of a value. -/
def typeName : Value → String
  | unit => "()"
  | bool _ => "bool"
  | int _ => "i64"
  | float _ => "f64"
  | char _ => "char"
  | text _ => "string"
  | array _ => "array"
  | map _ => "map"
  | range _ _ true => "RangeInclusive<i64>"
  | range _ _ false => "Range<i64>"
  | steps _ _ _ => "StepRange<i64>"
  | closure _ _ _ => "Fn"

mutual
/-- Whether two values are equal; values of different types are not, but for numbers. -/
def same : Value → Value → Bool
  | unit, unit => true
  | bool a, bool b => a == b
  | int a, int b => a == b
  | float a, float b => a == b
  | int a, float b => Float.ofInt a == b
  | float a, int b => a == Float.ofInt b
  | char a, char b => a == b
  | text a, text b => a == b
  | char a, text b => String.ofList [a] == b
  | text a, char b => a == String.ofList [b]
  | array a, array b => sameItems a b
  | map a, map b => sameEntries a b
  | range a b i, range c d j => a == c && b == d && i == j
  | _, _ => false
/-- Whether the items of two arrays are equal. -/
def sameItems : List Value → List Value → Bool
  | [], [] => true
  | a :: as, b :: bs => same a b && sameItems as bs
  | _, _ => false
/-- Whether the entries of two maps are equal. -/
def sameEntries : List (String × Value) → List (String × Value) → Bool
  | [], [] => true
  | (k, a) :: as, (l, b) :: bs => k == l && same a b && sameEntries as bs
  | _, _ => false
end

/-- The number of values of a range. -/
def rangeLength (first last : Int) (inclusive : Bool) : Nat :=
  (last - first + (if inclusive then 1 else 0)).toNat

/-- The number of values of a range with steps. -/
def stepCount (first last step : Int) : Nat :=
  if step = 0 then 0
  else ((if 0 < step then last - first else first - last) + step.natAbs - 1).toNat / step.natAbs

end Value

/-- Puts an entry at its place in key order. -/
def putEntry (key : String) (value : Value) : List (String × Value) → List (String × Value)
  | [] => [(key, value)]
  | (k, v) :: rest =>
    if key < k then (key, value) :: (k, v) :: rest
    else if key = k then (key, value) :: rest
    else (k, v) :: putEntry key value rest

end Stencil.Sandbox
