import Stencil.Yaml.Scalar
import Stencil.Text.Search

/-!
# Writing scalars

A text is written without quotes if that reads back as the same text, else between single quotes,
and between double quotes when it has characters that only those can hold.  A text of several lines
is written as a block.
-/

namespace Stencil.Yaml

/-- Whether a character can be written as it is. -/
def isPrintable (c : Char) : Bool :=
  let n := c.toNat
  n = 0x0A || (0x20 ≤ n && n ≤ 0x7E) || (0xA0 ≤ n && n ≤ 0xD7FF) ||
    (0xE000 ≤ n && n ≤ 0xFFFD && n ≠ 0xFEFF) || 0x10000 ≤ n

/-- Whether a character ends a line. -/
def isBreak (c : Char) : Bool := ['\n', '\r', '\x85', '\u2028', '\u2029'].contains c

/-- Whether a character is a blank, a line end, or the end of the text. -/
def endsWord : Option Char → Bool
  | none => true
  | some c => c = ' ' || c = '\t' || isBreak c

/-- Whether a character cannot start a plain scalar before another one. -/
def cannotStart (c : Char) (next : Option Char) : Bool :=
  "#,[]{}&*!|>'\"%@\x60".toList.contains c || ((c = '?' || c = ':' || c = '-') && endsWord next)

/-- Whether some character in a text would end a plain scalar: a colon before a blank, or a number
sign after one. -/
def hasIndicator (previous : Option Char) : List Char → Bool
  | [] => false
  | c :: rest =>
    (c = ':' && endsWord rest.head?) || (c = '#' && endsWord previous) || hasIndicator (some c) rest

/-- Whether a blank stands before a line end. -/
def hasBlankBeforeBreak : List Char → Bool
  | ' ' :: c :: rest => isBreak c || hasBlankBeforeBreak (c :: rest)
  | _ :: rest => hasBlankBeforeBreak rest
  | [] => false

/-- Whether a blank stands after a line end. -/
def hasBlankAfterBreak : List Char → Bool
  | c :: ' ' :: rest => isBreak c || hasBlankAfterBreak (' ' :: rest)
  | _ :: rest => hasBlankAfterBreak rest
  | [] => false

/-- Whether a text needs double quotes whatever else holds. -/
def needsEscapes (cs : List Char) : Bool := !cs.all isPrintable || hasBlankBeforeBreak cs

/-- Whether a text of one line can stand without quotes. -/
def canBePlain (cs : List Char) : Bool :=
  match cs with
  | [] => false
  | c :: rest =>
    !(cannotStart c rest.head? || hasIndicator (some c) rest || "---".toList.isPrefixOf cs ||
      "...".toList.isPrefixOf cs || c = ' ' || cs.getLast? = some ' ' || cs.any isBreak)

/-- The digits of a character's code, at least so many. -/
def codeDigits (width : Nat) (c : Char) : List Char :=
  let ds := (Nat.toDigits 16 c.toNat).map Char.toUpper
  List.replicate (width - ds.length) '0' ++ ds

/-- A character between double quotes. -/
def escapeChar (c : Char) : List Char :=
  match c with
  | '\x00' => ['\\', '0']
  | '\x07' => ['\\', 'a']
  | '\x08' => ['\\', 'b']
  | '\t' => ['\\', 't']
  | '\n' => ['\\', 'n']
  | '\x0b' => ['\\', 'v']
  | '\x0c' => ['\\', 'f']
  | '\r' => ['\\', 'r']
  | '\x1b' => ['\\', 'e']
  | '"' => ['\\', '"']
  | '\\' => ['\\', '\\']
  | '\x85' => ['\\', 'N']
  | '\u2028' => ['\\', 'L']
  | '\u2029' => ['\\', 'P']
  | c =>
    if isPrintable c then [c]
    else if c.toNat ≤ 0xFF then '\\' :: 'x' :: codeDigits 2 c
    else if c.toNat ≤ 0xFFFF then '\\' :: 'u' :: codeDigits 4 c
    else '\\' :: 'U' :: codeDigits 8 c

/-- A text between double quotes. -/
def doubleQuoted (cs : List Char) : List Char := '"' :: cs.flatMap escapeChar ++ ['"']

/-- A text between single quotes. -/
def singleQuoted (cs : List Char) : List Char :=
  '\'' :: cs.flatMap (fun c => if c = '\'' then ['\'', '\''] else [c]) ++ ['\'']

/-- A text as a block of lines, indented by two columns. -/
def block (cs : List Char) : List Char :=
  let lines := Text.splitWhere (· == '\n') cs
  let endsOpen := cs.getLast? ≠ some '\n'
  let lines := if endsOpen then lines else lines.dropLast
  let mark := match cs with
    | ' ' :: _ | '\n' :: _ => ['2']
    | _ => []
  let chomp :=
    if endsOpen then ['-'] else if cs = ['\n'] || "\n\n".toList.isSuffixOf cs then ['+'] else []
  '|' :: mark ++ chomp ++
    lines.flatMap fun line => if line.isEmpty then ['\n'] else '\n' :: ' ' :: ' ' :: line

/-- A text as a value in a mapping. -/
def scalarText (s : String) : String :=
  let cs := s.toList
  .ofList <|
    if needsEscapes cs then doubleQuoted cs
    else if cs.contains '\n' then
      if cs.getLast? = some ' ' then doubleQuoted cs else block cs
    else if isAmbiguous s || !canBePlain cs then singleQuoted cs
    else cs

/-- A mapping with one entry, as a document. -/
def entryText (key value : String) : String := key ++ ": " ++ scalarText value ++ "\n"

end Stencil.Yaml
