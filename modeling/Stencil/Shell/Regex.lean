import Stencil.Shell.Pattern

/-!
# Regular expressions of line editors

Characters, sets, repetitions of single characters, anchors and groups.  The longest repetition is
tried first.
-/

namespace Stencil.Shell.Regex

/-- How often a character is there. -/
inductive Repeat where
  /-- Once. -/
  | once
  /-- Any number of times. -/
  | many
  /-- At least once. -/
  | some_
  /-- At most once. -/
  | optional
  deriving DecidableEq, Repr

/-- A node of an expression. -/
inductive Node where
  /-- A character, so often. -/
  | item (piece : Piece) (times : Repeat)
  /-- The start of a group. -/
  | opening (group : Nat)
  /-- The end of a group. -/
  | closing (group : Nat)
  /-- The start of the line. -/
  | lineStart
  /-- The end of the line. -/
  | lineEnd
  deriving DecidableEq, Repr

/-- Expressions in which plus, question mark and parentheses are special without a backslash. -/
abbrev Extended := Bool

/-- The value of a hexadecimal digit. -/
def hexValue? (c : Char) : Option Nat :=
  if c.isDigit then some (c.toNat - 48)
  else if 'a' ≤ c && c ≤ 'f' then some (c.toNat - 87)
  else if 'A' ≤ c && c ≤ 'F' then some (c.toNat - 55)
  else none

/-- The character that `x` and hexadecimal digits stand for, and how many characters they are. -/
def hexEscape? (cs : List Char) : Option (Char × Nat) :=
  match cs with
  | 'x' :: a :: b :: _ =>
    match hexValue? a, hexValue? b with
    | some x, some y => some (Char.ofNat (x * 16 + y), 3)
    | some x, none => some (Char.ofNat x, 2)
    | none, _ => none
  | ['x', a] => (hexValue? a).map fun x => (Char.ofNat x, 2)
  | _ => none

/-- The repetition that comes next, and what follows it. -/
def repetition (extended : Extended) (cs : List Char) : Repeat × List Char :=
  match extended, cs with
  | _, '*' :: rest => (.many, rest)
  | true, '+' :: rest | false, '\\' :: '+' :: rest => (.some_, rest)
  | true, '?' :: rest | false, '\\' :: '?' :: rest => (.optional, rest)
  | _, rest => (.once, rest)

/-- The nodes of an expression; the fuel bounds their number.  Groups are counted from one, and the
list holds those that are open. -/
def nodes (extended : Extended) (fuel : Nat) (count : Nat) (opened : List Nat) (cs : List Char) :
    List Node :=
  match fuel with
  | 0 => []
  | fuel + 1 =>
    let group (rest : List Char) : List Node :=
      .opening (count + 1) :: nodes extended fuel (count + 1) ((count + 1) :: opened) rest
    let close (rest : List Char) : List Node :=
      match opened with
      -- Where no group is open, the parenthesis stands for itself.
      | [] => .item (.one ')') .once :: nodes extended fuel count opened rest
      | g :: opened => .closing g :: nodes extended fuel count opened rest
    let item (p : Piece) (rest : List Char) : List Node :=
      let (times, rest) := repetition extended rest
      .item p times :: nodes extended fuel count opened rest
    match cs with
    | [] => []
    | '^' :: rest => .lineStart :: nodes extended fuel count opened rest
    | ['$'] => [.lineEnd]
    | '.' :: rest => item .any rest
    | '[' :: rest =>
      let (negated, inside) := match rest with
        | '^' :: inside => (true, inside)
        | inside => (false, inside)
      match namedClass? inside with
      | some (rs, n) => item (.set negated rs) (inside.drop (n + 1))
      | none =>
        match setRanges true (inside.map fun c => (c, false)) with
        | some (rs, after) => item (.set negated rs) (after.map (·.1))
        | none => item (.one '[') rest
    | '\\' :: c :: rest =>
      if !extended && c = '(' then group rest
      else if !extended && c = ')' then close rest
      else if c = 'n' then item (.one '\n') rest
      else if c = 't' then item (.one '\t') rest
      else match hexEscape? (c :: rest) with
        | some (d, n) => item (.one d) ((c :: rest).drop n)
        | none => item (.one c) rest
    | c :: rest =>
      if extended && c = '(' then group rest
      else if extended && c = ')' then close rest
      else item (.one c) rest

/-- The nodes of an expression. -/
def read (extended : Extended) (cs : List Char) : List Node :=
  nodes extended (cs.length + 1) 0 [] cs

/-- A match under way: the position, what follows it, where the open groups started, and the texts
of the closed ones. -/
structure State where
  /-- How many characters of the line come before. -/
  position : Nat
  /-- The characters that follow. -/
  rest : List Char
  /-- Where the groups that are open have started. -/
  started : List (Nat × State)
  /-- The texts of the groups that are closed. -/
  groups : List (Nat × List Char)

/-- How many characters in a row a piece stands for, up to a bound. -/
def runLength (p : Piece) (bound : Nat) (cs : List Char) : Nat :=
  match bound, cs with
  | 0, _ | _, [] => 0
  | bound + 1, c :: cs => if p.accepts c then runLength p bound cs + 1 else 0

/-- A state after so many characters. -/
def State.advance (s : State) (n : Nat) : State :=
  { s with position := s.position + n, rest := s.rest.drop n }

/-- Where a match of nodes at a state ends. -/
def matchNodes : List Node → State → Option State
  | [], s => some s
  | .lineStart :: ns, s => if s.position = 0 then matchNodes ns s else none
  | .lineEnd :: ns, s => if s.rest.isEmpty then matchNodes ns s else none
  | .opening g :: ns, s => matchNodes ns { s with started := (g, s) :: s.started }
  | .closing g :: ns, s =>
    match s.started.lookup g with
    | some start =>
      matchNodes ns
        { s with groups := (g, start.rest.take (s.position - start.position)) :: s.groups }
    | none => matchNodes ns s
  | .item p times :: ns, s =>
    match times with
    | .once =>
      match s.rest with
      | c :: _ => if p.accepts c then matchNodes ns (s.advance 1) else none
      | [] => none
    | _ =>
      let least := if times = .some_ then 1 else 0
      let run := runLength p (if times = .optional then 1 else s.rest.length) s.rest
      ((List.range (run + 1)).reverse.filter (least ≤ ·)).findSome? fun n =>
        matchNodes ns (s.advance n)

/-- A match in a line. -/
structure Match where
  /-- The characters before it, last first. -/
  before : List Char
  /-- Where it starts. -/
  start : Nat
  /-- Where it ends. -/
  stop : State

/-- The first match at or after a position. -/
def search (ns : List Node) (before : List Char) (position : Nat) (cs : List Char) : Option Match :=
  match matchNodes ns ⟨position, cs, [], []⟩ with
  | some s => some ⟨before, position, s⟩
  | none =>
    match cs with
    | [] => none
    | c :: rest => search ns (c :: before) (position + 1) rest

/-- Whether a line has a match. -/
def occurs (ns : List Node) (cs : List Char) : Bool := (search ns [] 0 cs).isSome

/-- What a replacement stands for, given the whole match and its groups. -/
def replacementText (whole : List Char) (groups : List (Nat × List Char)) : List Char → List Char
  | [] => []
  | '&' :: rest => whole ++ replacementText whole groups rest
  | '\\' :: 'x' :: a :: b :: rest =>
    match hexEscape? ['x', a, b] with
    | some (d, 3) => d :: replacementText whole groups rest
    | some (d, _) => d :: replacementText whole groups (b :: rest)
    | none => 'x' :: replacementText whole groups (a :: b :: rest)
  | '\\' :: c :: rest =>
    (if c.isDigit then
        if c = '0' then whole else (groups.lookup (c.toNat - 48)).getD []
      else if c = 'n' then ['\n'] else if c = 't' then ['\t'] else [c])
      ++ replacementText whole groups rest
  | c :: rest => c :: replacementText whole groups rest

/-- A line with its matches replaced, all of them or the first; the characters done come last first,
and the fuel bounds the number of matches. -/
def substitute (ns : List Node) (replacement : List Char) (all : Bool) (fuel : Nat)
    (done : List Char) (position : Nat) (cs : List Char) : List Char :=
  match fuel with
  | 0 => done.reverse ++ cs
  | fuel + 1 =>
    match search ns done position cs with
    | none => done.reverse ++ cs
    | some m =>
      let whole := (cs.drop (m.start - position)).take (m.stop.position - m.start)
      let done := (replacementText whole m.stop.groups replacement).reverse ++ m.before
      if !all then done.reverse ++ m.stop.rest
      else if whole.isEmpty then
        -- Past an empty match one character is copied, or the same match would be found again.
        match m.stop.rest with
        | [] => done.reverse
        | c :: rest => substitute ns replacement all fuel (c :: done) (m.stop.position + 1) rest
      else substitute ns replacement all fuel done m.stop.position m.stop.rest

end Stencil.Shell.Regex
