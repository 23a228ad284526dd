import Stencil.Shell.Command
import Stencil.Shell.Regex
import Stencil.Decimal.Places

/-!
# Printed arguments

The utilities that print their arguments, and the escapes in what they print.
-/

namespace Stencil.Shell

/-- The character that a letter after a backslash stands for. -/
def escapeLetter? : Char → Option Char
  | 'a' => some '\x07'
  | 'b' => some '\x08'
  | 'f' => some '\x0c'
  | 'n' => some '\n'
  | 'r' => some '\r'
  | 't' => some '\t'
  | 'v' => some '\x0b'
  | '\\' => some '\\'
  | _ => none

/-- Whether a character is an octal digit. -/
def isOctal (c : Char) : Bool := '0' ≤ c && c ≤ '7'

/-- The octet of octal digits. -/
def ofOctal (ds : List Char) : Char :=
  Char.ofNat (ds.foldl (fun n c => n * 8 + (c.toNat - 48)) 0 % 256)

/-- Which escapes count. -/
structure Escapes where
  /-- Octal digits need a leading zero, and may be three after it. -/
  zeroFirst : Bool
  /-- Hexadecimal digits after an `x`. -/
  hexadecimal : Bool

/-- A text with its escapes resolved, and whether it goes on: `\c` ends all output.  The fuel bounds
the length. -/
def resolveEscapes (e : Escapes) (fuel : Nat) (cs : List Char) : List Char × Bool :=
  match fuel with
  | 0 => (cs, true)
  | fuel + 1 =>
    let put (c : Char) (rest : List Char) : List Char × Bool :=
      let (cs, more) := resolveEscapes e fuel rest
      (c :: cs, more)
    match cs with
    | [] => ([], true)
    | '\\' :: c :: rest =>
      match escapeLetter? c with
      | some d => put d rest
      | none =>
        if c = 'c' then ([], false)
        else if isOctal c && (!e.zeroFirst || c = '0') then
          -- Where a zero must come first, it is not one of the three digits.
          let ds := if e.zeroFirst then (rest.takeWhile isOctal).take 3
            else ((c :: rest).takeWhile isOctal).take 3
          put (ofOctal ds) ((if e.zeroFirst then rest else c :: rest).drop ds.length)
        else match (if e.hexadecimal then Regex.hexEscape? (c :: rest) else none) with
          | some (d, n) => put d ((c :: rest).drop n)
          | none => put '\\' (c :: rest)
    | c :: rest => put c rest

/-- A text with its escapes resolved, and whether output goes on. -/
def unescaped (e : Escapes) (cs : List Char) : List Char × Bool :=
  resolveEscapes e (cs.length + 1) cs

/-- Words with blanks between them. -/
def spaced (words : List (List Char)) : List Char := (words.intersperse [' ']).flatten

/-- What echo prints.  With escapes they are always resolved; without, only after an option. -/
def echoText (withEscapes : Bool) (arguments : List (List Char)) : List Char :=
  let isOption (a : List Char) : Bool :=
    match a with
    | '-' :: rest =>
      if withEscapes then rest == ['n']
      else !rest.isEmpty && rest.all fun c => c == 'n' || c == 'e' || c == 'E'
    | _ => false
  let options := arguments.takeWhile isOption
  let options := if withEscapes then options.take 1 else options
  let words := spaced (arguments.drop options.length)
  let has (c : Char) : Bool := options.any (·.contains c)
  let (cs, more) := if withEscapes || has 'e' then unescaped ⟨true, !withEscapes⟩ words
    else (words, true)
  if !more || has 'n' then cs else cs ++ ['\n']

/-! ## Formats -/

/-- A field of a format. -/
structure FormatField where
  /-- The characters of `-0+# `. -/
  flags : List Char
  /-- The least width. -/
  width : Nat
  /-- The precision. -/
  precision : Option Nat
  /-- The letter. -/
  letter : Char

/-- A number of a field, which may be taken from an argument, and what follows. -/
def fieldNumber (cs : List Char) (arguments : List (List Char)) :
    Option Nat × List Char × List (List Char) :=
  let value (ds : List Char) : Nat := ds.foldl (fun n c => n * 10 + (c.toNat - 48)) 0
  match cs with
  | '*' :: rest => (some (value ((arguments.headD []).filter Char.isDigit)), rest, arguments.drop 1)
  | _ =>
    let ds := cs.takeWhile Char.isDigit
    (if ds.isEmpty then none else some (value ds), cs.drop ds.length, arguments)

/-- A text brought to a width. -/
def justify (f : FormatField) (cs : List Char) : List Char :=
  let gap := List.replicate (f.width - cs.length) ' '
  if f.flags.contains '-' then cs ++ gap else gap ++ cs

/-- Digits with a sign brought to a precision and a width. -/
def justifyNumber (f : FormatField) (sign ds : List Char) : List Char :=
  let ds := List.replicate (f.precision.getD 1 - ds.length) '0' ++ ds
  -- A precision has said how many zeros there are, so the flag for zeros counts for nothing then.
  if f.flags.contains '0' && !f.flags.contains '-' && f.precision.isNone then
    sign ++ List.replicate (f.width - ds.length - sign.length) '0' ++ ds
  else justify f (sign ++ ds)

/-- An argument that should be a number. -/
structure BadNumber where
  /-- The argument. -/
  text : List Char
  /-- Whether it starts with a number. -/
  started : Bool

/-- What is said about an argument that should be a number. -/
def BadNumber.message (b : BadNumber) : List Char :=
  b.text ++ (if b.started then ": not completely converted" else ": expected numeric value").toList

/-- The number at the start of an argument, and what is wrong with the argument. -/
def argumentNumber (cs : List Char) : Int × Option BadNumber :=
  match cs with
  -- A quote in front asks for the code of the character behind it.
  | '\'' :: c :: _ | '"' :: c :: _ => (c.toNat, none)
  | _ =>
    let cs' := cs.dropWhile (· = ' ')
    let (negative, ds) := match cs' with
      | '-' :: ds => (true, ds)
      | '+' :: ds => (false, ds)
      | ds => (false, ds)
    let (base, ds) := match ds with
      | '0' :: 'x' :: ds | '0' :: 'X' :: ds => (16, ds)
      | '0' :: _ => (8, ds)
      | ds => (10, ds)
    let isDigit (c : Char) : Bool := (Regex.hexValue? c).any (· < base)
    let good := ds.takeWhile isDigit
    let n : Int := good.foldl (fun n c => n * base + (Regex.hexValue? c).getD 0) 0
    let fits := (cs'.isEmpty || !good.isEmpty) && good.length = ds.length
    (if negative then -n else n, if fits then none else some ⟨cs, !good.isEmpty⟩)

/-- The number with a point at the start of an argument, and what is wrong with the argument. -/
def argumentFloat (cs : List Char) : Float × Option BadNumber :=
  let (negative, ds) := match cs with
    | '-' :: ds => (true, ds)
    | '+' :: ds => (false, ds)
    | ds => (false, ds)
  let whole := ds.takeWhile Char.isDigit
  let (places, rest) := match ds.drop whole.length with
    | '.' :: ds => (ds.takeWhile Char.isDigit, ds.dropWhile Char.isDigit)
    | rest => ([], rest)
  let digits := whole ++ places
  let value (ds : List Char) : Nat := ds.foldl (fun n c => n * 10 + (c.toNat - 48)) 0
  let (power, rest) : Int × List Char := match rest with
    | e :: '-' :: d :: more =>
      if (e = 'e' || e = 'E') && d.isDigit then
        (-(value ((d :: more).takeWhile Char.isDigit) : Int), more.dropWhile Char.isDigit)
      else (0, rest)
    | e :: '+' :: d :: more | e :: d :: more =>
      if (e = 'e' || e = 'E') && d.isDigit then
        (value ((d :: more).takeWhile Char.isDigit), more.dropWhile Char.isDigit)
      else (0, rest)
    | rest => (0, rest)
  -- The power is cut where the number is zero or infinite whatever its digits are.
  let power := max (-400 - (digits.length : Int)) (min 400 (power - (places.length : Int)))
  let x := Float.ofScientific (value digits) (power < 0) power.natAbs
  let fits := cs.isEmpty || (!digits.isEmpty && rest.isEmpty)
  (if negative then -x else x, if fits then none else some ⟨cs, !digits.isEmpty⟩)

/-- The digits of a number in a base. -/
def baseDigits (base : Nat) (upper : Bool) (n : Nat) : List Char :=
  (Nat.toDigits base n).map fun c => if upper then c.toUpper else c

/-- The sign of a number in a field. -/
def signText (f : FormatField) (negative : Bool) : List Char :=
  if negative then ['-'] else if f.flags.contains '+' then ['+']
  else if f.flags.contains ' ' then [' '] else []

/-- The text of a number with a point in a field. -/
def floatText (f : FormatField) (x : Float) : List Char :=
  let isUpper := f.letter.isUpper
  let letter := if isUpper then 'E' else 'e'
  let places := f.precision.getD 6
  let size (num den : Nat) : List Char :=
    match f.letter.toLower with
    | 'f' => Decimal.positional num den places
    | 'e' => Decimal.exponential letter num den places
    | _ => Decimal.general letter num den (max 1 places) (f.flags.contains '#')
  let put (negative : Bool) (ds : List Char) : List Char :=
    -- The precision has gone into the digits; it is not a least number of digits here.
    justifyNumber { f with precision := none } (signText f negative) ds
  let word (negative : Bool) (text : String) : List Char :=
    justify f (signText f negative ++ (if isUpper then text.toUpper else text).toList)
  match Decimal.classify x with
  | .nan => word false "nan"
  | .infinite negative => word negative "inf"
  | .zero negative => put negative (size 0 1)
  | .finite negative b => put negative (size b.quotient.1 b.quotient.2)

/-- The text of a field for an argument, whether output goes on, and what is wrong with the
argument. -/
def fieldText (f : FormatField) (argument : List Char) : List Char × Bool × Option BadNumber :=
  let cut (cs : List Char) : List Char :=
    match f.precision with
    | some n => cs.take n
    | none => cs
  let (n, bad) := argumentNumber argument
  let natural := (n % Int.pow 2 64).toNat
  match f.letter with
  | 's' => (justify f (cut argument), true, none)
  | 'b' =>
    let (cs, more) := unescaped ⟨false, false⟩ argument
    (justify f (cut cs), more, none)
  | 'c' => (justify f (argument.take 1), true, none)
  | 'd' | 'i' =>
    (justifyNumber f (signText f (n < 0)) (toString n.natAbs).toList, true, bad)
  | 'u' => (justifyNumber f [] (toString natural).toList, true, bad)
  | 'o' =>
    let lead := if f.flags.contains '#' && natural ≠ 0 then ['0'] else []
    (justifyNumber f [] (lead ++ baseDigits 8 false natural), true, bad)
  | 'x' | 'X' =>
    let lead := if f.flags.contains '#' && natural ≠ 0 then ['0', f.letter] else []
    (justifyNumber f lead (baseDigits 16 (f.letter = 'X') natural), true, bad)
  | 'f' | 'F' | 'e' | 'E' | 'g' | 'G' =>
    let (x, bad) := argumentFloat argument
    (floatText f x, true, bad)
  | _ => ([], true, none)

/-- What printing has come to. -/
structure Printed where
  /-- The output. -/
  text : List Char
  /-- Whether it goes on. -/
  more : Bool
  /-- The arguments that are left. -/
  arguments : List (List Char)
  /-- The arguments that should be numbers and are none. -/
  bad : List BadNumber

/-- Prints a format once; the fuel bounds its length. -/
def printOnce (hexadecimal : Bool) (fuel : Nat) (format : List Char) (arguments : List (List Char)) :
    Printed :=
  match fuel with
  | 0 => ⟨[], true, arguments, []⟩
  | fuel + 1 =>
    let put (cs rest : List Char) (arguments : List (List Char)) : Printed :=
      let p := printOnce hexadecimal fuel rest arguments
      { p with text := cs ++ p.text }
    match format with
    | [] => ⟨[], true, arguments, []⟩
    | '%' :: '%' :: rest => put ['%'] rest arguments
    | '%' :: rest =>
      let flags := rest.takeWhile ("-+0# ".toList.contains ·)
      let (width, rest, arguments) := fieldNumber (rest.drop flags.length) arguments
      let (precision, rest, arguments) := match rest with
        | '.' :: rest =>
          let (n, rest, arguments) := fieldNumber rest arguments
          (some (n.getD 0), rest, arguments)
        | rest => (none, rest, arguments)
      match rest with
      | [] => ⟨['%'], true, arguments, []⟩
      | letter :: rest =>
        let (cs, more, bad) := fieldText ⟨flags, width.getD 0, precision, letter⟩ (arguments.headD [])
        if more then
          let p := put cs rest (arguments.drop 1)
          { p with bad := bad.toList ++ p.bad }
        else ⟨cs, false, [], []⟩
    | '\\' :: c :: rest =>
      match escapeLetter? c with
      | some d => put [d] rest arguments
      | none =>
        if c = 'c' then ⟨[], false, [], []⟩
        else if isOctal c then
          let ds := ((c :: rest).takeWhile isOctal).take 3
          put [ofOctal ds] ((c :: rest).drop ds.length) arguments
        else match (if hexadecimal then Regex.hexEscape? (c :: rest) else none) with
          | some (d, n) => put [d] ((c :: rest).drop n) arguments
          | none => put ['\\', c] rest arguments
    | c :: rest => put [c] rest arguments

/-- Prints a format until the arguments are used up; the fuel bounds the number of rounds. -/
def printRounds (hexadecimal : Bool) (fuel : Nat) (format : List Char) (arguments : List (List Char)) :
    List Char × List BadNumber :=
  match fuel with
  | 0 => ([], [])
  | fuel + 1 =>
    let p := printOnce hexadecimal (format.length + 1) format arguments
    -- A format that takes no argument is not repeated: it would be for ever.
    if p.more && !p.arguments.isEmpty && p.arguments.length < arguments.length then
      let (cs, bad) := printRounds hexadecimal fuel format p.arguments
      (p.text ++ cs, p.bad ++ bad)
    else (p.text, p.bad)

/-- What printf prints, and the arguments that should be numbers and are none. -/
def printfText (hexadecimal : Bool) (format : List Char) (arguments : List (List Char)) :
    List Char × List BadNumber :=
  printRounds hexadecimal (arguments.length + 1) format arguments

/-! ## Tests -/

/-- What a test looks at besides its words. -/
structure TestView where
  /-- Whether there is something at a path. -/
  present : List Char → Bool
  /-- Whether a path leads to a file. -/
  isFile : List Char → Bool
  /-- Whether a path leads to a directory. -/
  isDirectory : List Char → Bool
  /-- Whether a path leads to something that can be run. -/
  isExecutable : List Char → Bool
  /-- Whether a path leads to a file with content. -/
  hasContent : List Char → Bool

/-- What a test comes to: true or false, or a word that should be a number. -/
abbrev Verdict := Except (List Char) Bool

/-- A test with one operator before its word. -/
def unaryTest? (view : TestView) (op : List Char) : Option (List Char → Bool) :=
  match op with
  | ['-', 'n'] => some (!·.isEmpty)
  | ['-', 'z'] => some (·.isEmpty)
  | ['-', 'e'] | ['-', 'r'] | ['-', 'w'] => some view.present
  | ['-', 'f'] => some view.isFile
  | ['-', 'd'] => some view.isDirectory
  | ['-', 'x'] => some view.isExecutable
  | ['-', 's'] => some view.hasContent
  | ['-', 'h'] | ['-', 'L'] | ['-', 'p'] | ['-', 'S'] | ['-', 'b'] | ['-', 'c'] | ['-', 't'] =>
    some fun _ => false
  | _ => none

/-- A test of two words. -/
def binaryTest? (a op b : List Char) : Option Verdict :=
  let numbers (f : Int → Int → Bool) : Option Verdict :=
    let (x, xBad) := argumentNumber a
    let (y, yBad) := argumentNumber b
    some (if xBad.isSome || a.isEmpty then .error a
      else if yBad.isSome || b.isEmpty then .error b else .ok (f x y))
  match op with
  | ['='] | ['=', '='] => some (.ok (a == b))
  | ['!', '='] => some (.ok (a != b))
  | ['<'] => some (.ok (decide (a < b)))
  | ['>'] => some (.ok (decide (b < a)))
  | ['-', 'e', 'q'] => numbers (· == ·)
  | ['-', 'n', 'e'] => numbers (· != ·)
  | ['-', 'l', 't'] => numbers (· < ·)
  | ['-', 'l', 'e'] => numbers (· ≤ ·)
  | ['-', 'g', 't'] => numbers (· > ·)
  | ['-', 'g', 'e'] => numbers (· ≥ ·)
  | _ => none

mutual
/-- Tests joined by `-o`, and the words after them. -/
def testOr (view : TestView) (fuel : Nat) (ws : List (List Char)) :
    Except (List Char) (Bool × List (List Char)) :=
  match fuel with
  | 0 => .ok (false, [])
  | fuel + 1 => do
    let (a, rest) ← testAnd view fuel ws
    match rest with
    | ['-', 'o'] :: rest => do
      let (b, rest) ← testOr view fuel rest
      .ok (a || b, rest)
    | _ => .ok (a, rest)

/-- Tests joined by `-a`, and the words after them. -/
def testAnd (view : TestView) (fuel : Nat) (ws : List (List Char)) :
    Except (List Char) (Bool × List (List Char)) :=
  match fuel with
  | 0 => .ok (false, [])
  | fuel + 1 => do
    let (a, rest) ← testOne view fuel ws
    match rest with
    | ['-', 'a'] :: rest => do
      let (b, rest) ← testAnd view fuel rest
      .ok (a && b, rest)
    | _ => .ok (a, rest)

/-- One test, and the words after it. -/
def testOne (view : TestView) (fuel : Nat) (ws : List (List Char)) :
    Except (List Char) (Bool × List (List Char)) :=
  match fuel with
  | 0 => .ok (false, [])
  | fuel + 1 =>
    let wordAlone (w : List Char) (rest : List (List Char)) :
        Except (List Char) (Bool × List (List Char)) := .ok (!w.isEmpty, rest)
    match ws with
    | [] => .ok (false, [])
    | [w] => wordAlone w []
    | a :: op :: rest =>
      -- An operator between two words comes before one in front: `! = !` compares.
      match rest, binaryTest? a op (rest.headD []) with
      | _ :: after, some verdict => do .ok (← verdict, after)
      | _, _ =>
        if a = ['!'] then do
          let (b, rest) ← testOne view fuel (op :: rest)
          .ok (!b, rest)
        else if a = ['('] then do
          let (b, rest) ← testOr view fuel (op :: rest)
          .ok (b, rest.drop 1)
        else match unaryTest? view a with
          | some f => .ok (f op, rest)
          | none => wordAlone a (op :: rest)
end

/-- What words are tested to. -/
def testWords (view : TestView) (ws : List (List Char)) : Verdict :=
  (testOr view (3 * ws.length + 3) ws).map (·.1)

end Stencil.Shell
