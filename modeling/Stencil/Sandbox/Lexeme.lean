import Stencil.Sandbox.Value
import Stencil.Text.Integer
import Stencil.Json.Parser

/-!
# Lexemes of sandboxed scripts

Numbers, characters, texts, words and symbols.  A template text holds the lexemes of the expressions
in it.
-/

namespace Stencil.Sandbox

/-- A lexeme. -/
inductive Lexeme where
  /-- A whole number. -/
  | int (n : Int)
  /-- A floating-point number. -/
  | float (x : Float)
  /-- A character. -/
  | char (c : Char)
  /-- A text. -/
  | text (s : String)
  /-- A text with expressions in it: texts and nested lexemes. -/
  | template (parts : List Lexeme)
  /-- The lexemes of an expression in a text. -/
  | nested (lexemes : List Lexeme)
  /-- A name or a reserved word. -/
  | word (s : String)
  /-- A symbol. -/
  | symbol (s : String)
  deriving Inhabited

namespace Lexeme

/-- The symbols, longer ones first. -/
def symbols : List String :=
  ["**=", "<<=", ">>=", "..=", "**", "<<", ">>", "..", "#\x7b", "=>", "==", "!=", "<=", ">=", "&&",
    "||", "??", "+=", "-=", "*=", "/=", "%=", "&=", "|=", "^=", "::", "+", "-", "*", "/", "%", "=",
    "<", ">", "!", "&", "|", "^", "(", ")", "[", "]", "\x7b", "\x7d", ",", ";", ":", ".", "?"]

/-- The symbol that comes next. -/
def symbol? (cs : List Char) : Option String := symbols.find? fun s => s.toList.isPrefixOf cs

/-- Whether a character can start a name. -/
def isWordStart (c : Char) : Bool := c.isAlpha || c == '_'

/-- Whether a character can stand in a name. -/
def isWordPart (c : Char) : Bool := c.isAlphanum || c == '_'

/-- What follows the comment that is open so many times. -/
def afterComment (depth : Nat) : List Char → List Char
  | [] => []
  | '*' :: '/' :: rest => if depth ≤ 1 then rest else afterComment (depth - 1) rest
  | '/' :: '*' :: rest => afterComment (depth + 1) rest
  | _ :: rest => afterComment depth rest

/-- The value of a hexadecimal digit. -/
def hexValue? (c : Char) : Option Nat :=
  if c.isDigit then some (c.toNat - 48)
  else if 'a' ≤ c && c ≤ 'f' then some (c.toNat - 87)
  else if 'A' ≤ c && c ≤ 'F' then some (c.toNat - 55)
  else none

/-- The number of digits in a base. -/
def ofDigits (base : Nat) (cs : List Char) : Nat :=
  cs.foldl (fun n c => n * base + (hexValue? c).getD 0) 0

/-- The character with a code of so many hexadecimal digits, and what follows it. -/
def codePoint? (width : Nat) (cs : List Char) : Option (Char × List Char) :=
  let ds := cs.take width
  let n := ofDigits 16 ds
  if ds.length = width && ds.all (fun c => (hexValue? c).isSome) && n.isValidChar then
    some (Char.ofNat n, cs.drop width)
  else none

/-- The character of an escape, after its backslash, and what follows it. -/
def escape? (cs : List Char) : Option (Char × List Char) :=
  match cs with
  | 'n' :: rest => some ('\n', rest)
  | 't' :: rest => some ('\t', rest)
  | 'r' :: rest => some ('\r', rest)
  | '\\' :: rest => some ('\\', rest)
  | '"' :: rest => some ('"', rest)
  | '\'' :: rest => some ('\'', rest)
  | '\x60' :: rest => some ('\x60', rest)
  | 'x' :: rest => codePoint? 2 rest
  | 'u' :: rest => codePoint? 4 rest
  | 'U' :: rest => codePoint? 8 rest
  | _ => none

/-- A text up to its closing quote, and what follows; the fuel bounds its length. -/
def quotedText? (fuel : Nat) (acc : List Char) (cs : List Char) : Option (List Char × List Char) :=
  match fuel, cs with
  | 0, _ | _, [] | _, '\n' :: _ => none
  | _ + 1, '"' :: rest => some (acc.reverse, rest)
  | fuel + 1, '\\' :: '\n' :: rest =>
    quotedText? fuel acc (rest.dropWhile fun c => c == ' ' || c == '\t')
  | fuel + 1, '\\' :: rest => do
    let (c, rest) ← escape? rest
    quotedText? fuel (c :: acc) rest
  | fuel + 1, c :: rest => quotedText? fuel (c :: acc) rest

/-- A number at the start, after its sign, and what follows. -/
def number? (negative : Bool) (cs : List Char) : Option (Lexeme × List Char) :=
  let ofNat (n : Nat) : Int := if negative then -n else n
  let isDigitOf (base : Nat) (c : Char) : Bool := c == '_' || (hexValue? c).any (· < base)
  let based (base : Nat) (rest : List Char) : Option (Lexeme × List Char) :=
    -- Digits of another base are the bits of a number, so the highest of 64 makes it negative.
    let ds := rest.takeWhile (isDigitOf base)
    let n := ofDigits base (ds.filter (· ≠ '_'))
    if ds.all (· == '_') || Nat.pow 2 64 ≤ n then none
    else some (.int (Int.bmod (ofNat n) (Nat.pow 2 64)), rest.drop ds.length)
  match cs with
  | '0' :: 'x' :: rest | '0' :: 'X' :: rest => based 16 rest
  | '0' :: 'o' :: rest | '0' :: 'O' :: rest => based 8 rest
  | '0' :: 'b' :: rest | '0' :: 'B' :: rest => based 2 rest
  | _ =>
    let whole := cs.takeWhile (isDigitOf 10)
    let rest := cs.drop whole.length
    -- A dot in front of a name is a property, and two of them are a range.
    let (fraction, isFloat, rest) := match rest with
      | '.' :: c :: more =>
        if c.isDigit then
          let ds := (c :: more).takeWhile (isDigitOf 10)
          (ds, true, (c :: more).drop ds.length)
        else if c == '.' || isWordStart c then ([], false, rest)
        else ([], true, c :: more)
      | _ => ([], false, rest)
    let exponent : Option (Int × List Char) := match rest with
      | e :: more =>
        if e == 'e' then
          let (below, ds) := match more with
            | '-' :: ds => (true, ds)
            | '+' :: ds => (false, ds)
            | ds => (false, ds)
          let digits := ds.takeWhile Char.isDigit
          if digits.isEmpty then none
          else
            let n : Int := ofDigits 10 digits
            some (if below then -n else n, ds.drop digits.length)
        else none
      | [] => none
    let fraction := fraction.filter (· ≠ '_')
    let n := ofDigits 10 (whole.filter (· ≠ '_'))
    let float (exponent : Int) : Float :=
      let power := exponent - Int.ofNat fraction.length
      let m := n * Nat.pow 10 fraction.length + ofDigits 10 fraction
      let size := if power < 0 then Float.ofScientific m true power.natAbs
        else Float.ofScientific m false (min power.natAbs 400)
      if negative then -size else size
    match exponent with
    | some (e, rest) => some (.float (float e), rest)
    -- A whole number that does not fit is a floating-point number.
    | none =>
      if isFloat || ofNat n < Text.minInt64 || Text.maxInt64 < ofNat n then some (.float (float 0), rest)
      else some (.int (ofNat n), rest)

/-- The words after which a value comes. -/
def openers : List String := ["if", "while", "until", "in", "return", "throw", "switch", "break"]

/-- Whether a minus after a lexeme is a sign. -/
def isBeforeSign : Option Lexeme → Bool
  | none => true
  | some (symbol s) => !([")", "]", "\x7d"].contains s)
  | some (word w) => openers.contains w
  | _ => false

mutual
/-- The parts of a template text up to its closing quote, and what follows. -/
def templateParts (fuel : Nat) (acc : List Lexeme) (current : List Char) (cs : List Char) :
    Option (List Lexeme × List Char) :=
  match fuel with
  | 0 => none
  | fuel + 1 =>
    let flushed := if current.isEmpty then acc else .text (.ofList current.reverse) :: acc
    match cs with
    | [] => none
    | '\x60' :: rest => some (flushed.reverse, rest)
    | '$' :: '\x7b' :: rest => do
      let (inside, rest) ← lexemes fuel (some 0) [] rest
      templateParts fuel (.nested inside :: flushed) [] rest
    | '\\' :: rest =>
      match escape? rest with
      | some (c, rest) => templateParts fuel acc (c :: current) rest
      | none => templateParts fuel acc ('\\' :: current) rest
    | c :: rest => templateParts fuel acc (c :: current) rest

/-- The lexemes of a script, or of an expression in a text up to its closing brace, when the number
of braces that are open is given; and what follows. -/
def lexemes (fuel : Nat) (depth : Option Nat) (acc : List Lexeme) (cs : List Char) :
    Option (List Lexeme × List Char) :=
  match fuel with
  | 0 => none
  | fuel + 1 =>
    match cs with
    | [] => if depth.isSome then none else some (acc.reverse, [])
    | '/' :: '/' :: rest => lexemes fuel depth acc (rest.dropWhile (· ≠ '\n'))
    | '/' :: '*' :: rest => lexemes fuel depth acc (afterComment 1 rest)
    | '"' :: rest => do
      let (s, rest) ← quotedText? (rest.length + 1) [] rest
      lexemes fuel depth (.text (.ofList s) :: acc) rest
    | '\'' :: '\\' :: rest => do
      let (c, rest) ← escape? rest
      match rest with
      | '\'' :: rest => lexemes fuel depth (.char c :: acc) rest
      | _ => none
    | '\'' :: c :: '\'' :: rest => lexemes fuel depth (.char c :: acc) rest
    | '\x60' :: rest => do
      let (parts, rest) ← templateParts fuel [] [] rest
      lexemes fuel depth (.template parts :: acc) rest
    | c :: rest =>
      if c == ' ' || c == '\t' || c == '\n' || c == '\r' then lexemes fuel depth acc rest
      else if c.isDigit then do
        let (n, rest) ← number? false cs
        lexemes fuel depth (n :: acc) rest
      else if c == '-' && rest.head?.any Char.isDigit && isBeforeSign acc.head? then do
        let (n, rest) ← number? true rest
        lexemes fuel depth (n :: acc) rest
      else if isWordStart c then
        let w := cs.takeWhile isWordPart
        lexemes fuel depth (.word (.ofList w) :: acc) (cs.drop w.length)
      else match symbol? cs with
        | none => none
        | some s =>
          let rest := cs.drop s.length
          let opens := s == "\x7b" || s == "#\x7b"
          -- Of the closing braces of an expression in a text, the last one is not part of it.
          match depth, s == "\x7d" with
          | some 0, true => some (acc.reverse, rest)
          | some n, true => lexemes fuel (some (n - 1)) (.symbol s :: acc) rest
          | some n, false =>
            lexemes fuel (some (if opens then n + 1 else n)) (.symbol s :: acc) rest
          | none, _ => lexemes fuel none (.symbol s :: acc) rest
end

/-- The lexemes of a script, if it has only such. -/
def read? (s : String) : Option (List Lexeme) :=
  (lexemes (2 * s.length + 2) none [] s.toList).map (·.1)

end Lexeme

end Stencil.Sandbox
