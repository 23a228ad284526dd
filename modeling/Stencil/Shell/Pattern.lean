/-!
# Patterns

Patterns for names of files and for cases: a star stands for any text, a question mark for any
character, and brackets for a character of a set.  A quoted character stands for itself.
-/

namespace Stencil.Shell

/-- A character that is quoted or not. -/
abbrev Marked := Char × Bool

/-- A piece of a pattern. -/
inductive Piece where
  /-- One character. -/
  | one (c : Char)
  /-- Any character. -/
  | any
  /-- Any text. -/
  | star
  /-- A character in one of several ranges, or in none of them. -/
  | set (negated : Bool) (ranges : List (Char × Char))
  deriving DecidableEq, Repr

/-- The ranges of a set up to its closing bracket, and what follows it. -/
def setRanges (start : Bool) : List Marked → Option (List (Char × Char) × List Marked)
  | [] => none
  | (']', false) :: rest =>
    if start then (setRanges false rest).map fun (rs, after) => ((']', ']') :: rs, after)
    else some ([], rest)
  | (a, _) :: ('-', false) :: (']', false) :: rest => some ([(a, a), ('-', '-')], rest)
  | (a, _) :: ('-', false) :: (b, _) :: rest =>
    (setRanges false rest).map fun (rs, after) => ((a, b) :: rs, after)
  | (a, _) :: rest => (setRanges false rest).map fun (rs, after) => ((a, a) :: rs, after)

/-- The named classes of characters as ranges. -/
def classRanges : List (List Char × List (Char × Char)) :=
  [("digit".toList, [('0', '9')]), ("alpha".toList, [('a', 'z'), ('A', 'Z')]),
    ("alnum".toList, [('0', '9'), ('a', 'z'), ('A', 'Z')]), ("upper".toList, [('A', 'Z')]),
    ("lower".toList, [('a', 'z')]), ("space".toList, [('\t', '\x0d'), (' ', ' ')]),
    ("blank".toList, [('\t', '\t'), (' ', ' ')]), ("punct".toList, [('!', '/'), (':', '@'), ('[', '\x60'),
      ('\x7b', '~')]), ("xdigit".toList, [('0', '9'), ('a', 'f'), ('A', 'F')])]

/-- The ranges of a class that is written `[:name:]`, and how long it is written. -/
def namedClass? (cs : List Char) : Option (List (Char × Char) × Nat) :=
  match cs with
  | '[' :: ':' :: rest =>
    let name := rest.takeWhile (· ≠ ':')
    if [':', ']'].isPrefixOf (rest.drop name.length) then
      (classRanges.lookup name).map fun rs => (rs, name.length + 4)
    else none
  | _ => none

/-- The pieces of a pattern; the fuel bounds their number. -/
def pieces (fuel : Nat) (cs : List Marked) : List Piece :=
  match fuel, cs with
  | 0, _ | _, [] => []
  | fuel + 1, ('*', false) :: rest => .star :: pieces fuel rest
  | fuel + 1, ('?', false) :: rest => .any :: pieces fuel rest
  | fuel + 1, ('[', false) :: rest =>
    let (negated, inside) := match rest with
      | ('!', false) :: inside | ('^', false) :: inside => (true, inside)
      | inside => (false, inside)
    match namedClass? (inside.map (·.1)) with
    | some (rs, n) =>
      match (inside.drop n).head? with
      | some (']', false) => .set negated rs :: pieces fuel (inside.drop (n + 1))
      | _ => .one '[' :: pieces fuel rest
    | none =>
      match setRanges true inside with
      | some (rs, after) => .set negated rs :: pieces fuel after
      | none => .one '[' :: pieces fuel rest
  | fuel + 1, (c, _) :: rest => .one c :: pieces fuel rest

/-- The pieces of a pattern. -/
def pattern (cs : List Marked) : List Piece := pieces (cs.length + 1) cs

/-- Whether a piece that stands for one character stands for this one. -/
def Piece.accepts (c : Char) : Piece → Bool
  | one d => c == d
  | any => true
  | star => false
  | set negated ranges => negated != ranges.any fun (a, b) => a ≤ c && c ≤ b

/-- Whether a text fits a pattern. -/
def fits : List Piece → List Char → Bool
  | [], cs => cs.isEmpty
  | .star :: ps, [] => fits ps []
  | .star :: ps, c :: cs => fits ps (c :: cs) || fits (.star :: ps) cs
  | p :: ps, c :: cs => p.accepts c && fits ps cs
  | _ :: _, [] => false
  termination_by ps cs => (ps.length, cs.length)

/-- Whether a pattern has anything that is not a plain character. -/
def isPattern (cs : List Marked) : Bool :=
  (pattern cs).any fun
    | .one _ => false
    | _ => true

/-- Lengths from zero or down to zero, as a cut is tried. -/
def cutLengths (longest : Bool) (n : Nat) : List Nat :=
  if longest then (List.range (n + 1)).reverse else List.range (n + 1)

/-- A text without a start that fits. -/
def dropStart (longest : Bool) (ps : List Piece) (cs : List Char) : List Char :=
  match (cutLengths longest cs.length).find? fun n => fits ps (cs.take n) with
  | some n => cs.drop n
  | none => cs

/-- A text without an end that fits. -/
def dropEnd (longest : Bool) (ps : List Piece) (cs : List Char) : List Char :=
  match (cutLengths longest cs.length).find? fun n => fits ps (cs.drop (cs.length - n)) with
  | some n => cs.take (cs.length - n)
  | none => cs

end Stencil.Shell
