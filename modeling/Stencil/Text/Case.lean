/-!
# Letter case

The case mappings of Unicode for the scripts in common use: Latin, Greek, Cyrillic, Armenian, and
the letter-like and full-width forms.  A letter may have a case form of several letters, so a
mapping gives a list.
-/

namespace Stencil.Text

/-- Whether a number lies between two others. -/
def between (low high n : Nat) : Bool := low ≤ n && n ≤ high

/-- A character moved up by an offset. -/
def shiftUp (offset n : Nat) : List Char := [Char.ofNat (n + offset)]

/-- A character moved down by an offset. -/
def shiftDown (offset n : Nat) : List Char := [Char.ofNat (n - offset)]

/-- The stretches in which an upper-case letter at an even place comes right before its lower-case
form. -/
def evenPairs : List (Nat × Nat) :=
  [(0x100, 0x12F), (0x132, 0x137), (0x14A, 0x177), (0x1DE, 0x1EF), (0x1F8, 0x21F), (0x222, 0x233),
    (0x246, 0x24F), (0x370, 0x373), (0x3D8, 0x3EF), (0x460, 0x481), (0x48A, 0x4BF),
    (0x4D0, 0x52F), (0x1E00, 0x1E95), (0x1EA0, 0x1EFF), (0x2C80, 0x2CE3), (0xA640, 0xA66D)]

/-- The stretches in which an upper-case letter at an odd place comes right before its lower-case
form. -/
def oddPairs : List (Nat × Nat) := [(0x139, 0x148), (0x179, 0x17E), (0x1CD, 0x1DC), (0x4C1, 0x4CE)]

/-- Stretches of upper-case letters, with the offset to their lower-case forms. -/
def offsets : List (Nat × Nat × Nat) :=
  [(0x41, 0x5A, 32), (0xC0, 0xD6, 32), (0xD8, 0xDE, 32), (0x388, 0x38A, 37), (0x38E, 0x38F, 63),
    (0x391, 0x3A1, 32), (0x3A3, 0x3AB, 32), (0x400, 0x40F, 80), (0x410, 0x42F, 32),
    (0x531, 0x556, 48), (0x2160, 0x216F, 16), (0x24B6, 0x24CF, 26), (0xFF21, 0xFF3A, 32),
    (0x10400, 0x10427, 40)]

/-- Upper-case letters whose lower-case form is one letter elsewhere. -/
def singles : List (Nat × Nat) :=
  [(0x178, 0xFF), (0x386, 0x3AC), (0x38C, 0x3CC), (0x4C0, 0x4CF)]

/-- The lower-case form of a letter; any other character stands for itself. -/
def lowerChar (c : Char) : List Char :=
  let n := c.toNat
  if n < 128 then [c.toLower]
  else if n == 0x130 then ['i', Char.ofNat 0x307]
  else if n == 0x1E9E then [Char.ofNat 0xDF]
  else if n == 0x2126 then [Char.ofNat 0x3C9]
  else if n == 0x212A then ['k']
  else if n == 0x212B then [Char.ofNat 0xE5]
  else if evenPairs.any (fun (a, b) => between a b n) then
    if n % 2 == 0 then shiftUp 1 n else [c]
  else if oddPairs.any (fun (a, b) => between a b n) then
    if n % 2 == 1 then shiftUp 1 n else [c]
  else match offsets.find? (fun (a, b, _) => between a b n) with
    | some (_, _, d) => shiftUp d n
    | none => match singles.lookup n with
      | some m => [Char.ofNat m]
      | none => [c]

/-- The upper-case form of a letter; any other character stands for itself. -/
def upperChar (c : Char) : List Char :=
  let n := c.toNat
  if n < 128 then [c.toUpper]
  else if n == 0xDF then ['S', 'S']
  else if n == 0xB5 then [Char.ofNat 0x39C]
  else if n == 0x131 then ['I']
  else if n == 0x149 then [Char.ofNat 0x2BC, 'N']
  else if n == 0x17F then ['S']
  else if n == 0x1F0 then ['J', Char.ofNat 0x30C]
  else if n == 0x3C2 then [Char.ofNat 0x3A3]
  else if n == 0xFB00 then ['F', 'F']
  else if n == 0xFB01 then ['F', 'I']
  else if n == 0xFB02 then ['F', 'L']
  else if n == 0xFB03 then ['F', 'F', 'I']
  else if n == 0xFB04 then ['F', 'F', 'L']
  else if n == 0xFB05 || n == 0xFB06 then ['S', 'T']
  else if evenPairs.any (fun (a, b) => between a b n) then
    if n % 2 == 1 then shiftDown 1 n else [c]
  else if oddPairs.any (fun (a, b) => between a b n) then
    if n % 2 == 0 then shiftDown 1 n else [c]
  else match offsets.find? (fun (a, b, d) => between (a + d) (b + d) n) with
    | some (_, _, d) => shiftDown d n
    | none => match singles.find? (fun (_, m) => m == n) with
      | some (m, _) => [Char.ofNat m]
      | none => [c]

/-- Whether a character is a letter with case. -/
def isCased (c : Char) : Bool := lowerChar c != [c] || upperChar c != [c]

/-- The lower-case form of a text.  A capital sigma at the end of a word becomes a final one. -/
def lowerChars (cs : List Char) : List Char := go false cs
where
  go (afterLetter : Bool) : List Char → List Char
    | [] => []
    | c :: rest =>
      let followed := rest.head?.any isCased
      (if c.toNat == 0x3A3 && afterLetter && !followed then [Char.ofNat 0x3C2] else lowerChar c)
        ++ go (isCased c) rest

/-- The upper-case form of a text. -/
def upperChars (cs : List Char) : List Char := cs.flatMap upperChar

/-- The lower-case form of a text. -/
def lower (s : String) : String := .ofList (lowerChars s.toList)

/-- The upper-case form of a text. -/
def upper (s : String) : String := .ofList (upperChars s.toList)

end Stencil.Text
