import Stencil.Shell.Utility

/-!
# Utilities on texts
-/

namespace Stencil.Shell.Utility

/-- Copies its inputs. -/
def cat : Utility := fun r => r.onContents (r.options "").2 joined

/-- The lines or octets at the start. -/
def head : Utility := fun r =>
  -- a number alone is a count of lines
  let arguments := r.arguments.map fun a =>
    match a with
    | '-' :: c :: _ => if c.isDigit then '-' :: 'n' :: a.drop 1 else a
    | _ => a
  let r := { r with arguments := arguments }
  let (os, operands) := r.options "nc"
  r.onContents operands fun contents =>
    match os.lookup 'c' with
    | some n =>
      let n := leadingNumber n
      contents.foldl (fun b c =>
        match c.2 with
        | .zeros => b ++ ByteArray.mk (Array.replicate n 0)
        | .content octets => b ++ octets.extract 0 n) .empty
    | none =>
      let n := ((os.lookup 'n').map leadingNumber).getD 10
      let (lines, ended) := linesOf (joined contents)
      ofLinesEnded (lines.take n) (ended || n < lines.length)

/-- The lines or octets at the end. -/
def tail : Utility := fun r =>
  let (os, operands) := r.options "nc"
  r.onContents operands fun contents =>
    let all := joined contents
    match os.lookup 'c' with
    | some n => all.extract (all.size - leadingNumber n) all.size
    | none =>
      let (lines, ended) := linesOf all
      match os.lookup 'n' with
      -- With a plus the number is that of the first line, not a count.
      | some ('+' :: n) => ofLinesEnded (lines.drop (leadingNumber n - 1)) ended
      | n => ofLinesEnded (lines.drop (lines.length - (n.map leadingNumber).getD 10)) ended

/-- The characters of a set as it is written for translations; the fuel bounds its length. -/
def characters (fuel : Nat) (cs : List Char) : List Char :=
  match fuel with
  | 0 => []
  | fuel + 1 =>
    -- one character, and what follows it
    let one : Option (Char × List Char) := match cs with
      | [] => none
      | '\\' :: c :: rest =>
        match escapeLetter? c with
        | some d => some (d, rest)
        | none =>
          if isOctal c then
            let ds := ((c :: rest).takeWhile isOctal).take 3
            some (ofOctal ds, (c :: rest).drop ds.length)
          else some (c, rest)
      | c :: rest => some (c, rest)
    match namedClass? cs with
    | some (ranges, n) =>
      (ranges.flatMap fun (a, b) => (List.range (b.toNat + 1 - a.toNat)).map fun i =>
        Char.ofNat (a.toNat + i)) ++ characters fuel (cs.drop (n + 1))
    | none =>
      match one with
      | none => []
      | some (a, '-' :: b :: rest) =>
        (List.range (b.toNat + 1 - a.toNat)).map (fun i => Char.ofNat (a.toNat + i)) ++
          characters fuel rest
      | some (c, rest) => c :: characters fuel rest

/-- Translates, deletes or squeezes characters. -/
def tr : Utility := fun r =>
  let (os, operands) := r.options ""
  let sets := operands.map fun cs => characters (cs.length + 1) cs
  let first := sets.headD []
  let second := (sets.drop 1).headD []
  let complement := given os 'c' || given os 'C'
  let inFirst (c : Char) : Bool := first.contains c != complement
  let lastOfSecond := second.getLast?
  -- for each octet what it becomes, or nothing
  let table : Array (Option Char) := (Array.range 256).map fun n =>
    let c := Char.ofNat n
    if !inFirst c then some c
    else if given os 'd' then none
    else if second.isEmpty then some c
    else if complement then lastOfSecond
    else (second[first.idxOf c]?).or lastOfSecond
  let squeezed : List Char := if !given os 's' then []
    else if second.isEmpty then (if complement then [] else first) else second
  let (out, _) := r.input.all.foldl (fun (acc : ByteArray × Option Char) b =>
    match table[b.toNat]? with
    | some (some c) =>
      if acc.2 == some c && squeezed.contains c then acc
      else (acc.1.push c.toNat.toUInt8, some c)
    | _ => acc) (.empty, none)
  r.print out

/-- What a line editor does with a line. -/
inductive Edit where
  /-- Replaces matches. -/
  | substitute (ns : List Regex.Node) (replacement : List Char) (all print : Bool)
  /-- Drops the line. -/
  | delete
  /-- Prints the line. -/
  | print
  /-- Ends after the line. -/
  | quit

/-- Which lines an edit is for. -/
inductive Address where
  /-- All. -/
  | all
  /-- The one with a number. -/
  | number (n : Nat)
  /-- The last one. -/
  | last
  /-- Those with a match. -/
  | matching (ns : List Regex.Node)
  /-- Those from a number to another. -/
  | between (a b : Nat)

/-- The text up to a separator that has no backslash before it, and what follows. -/
def upTo (separator : Char) : List Char → List Char × List Char
  | [] => ([], [])
  | '\\' :: c :: rest =>
    let (cs, after) := upTo separator rest
    -- An escaped separator loses its backslash; other escapes are left to who reads the text.
    if c = separator then (c :: cs, after) else ('\\' :: c :: cs, after)
  | c :: rest =>
    if c = separator then ([], rest)
    else
      let (cs, after) := upTo separator rest
      (c :: cs, after)

/-- The edits of a script; the fuel bounds their number. -/
def edits (extended : Bool) (fuel : Nat) (cs : List Char) : List (Address × Edit) :=
  match fuel with
  | 0 => []
  | fuel + 1 =>
    match cs.dropWhile fun c => c == ' ' || c == ';' || c == '\n' with
    | [] => []
    | cs =>
      let (address, cs) : Address × List Char := match cs with
        | '$' :: rest => (.last, rest)
        | '/' :: rest =>
          let (re, after) := upTo '/' rest
          (.matching (Regex.read extended re), after)
        | _ =>
          let ds := cs.takeWhile Char.isDigit
          if ds.isEmpty then (.all, cs)
          else match cs.drop ds.length with
            | ',' :: rest =>
              -- No digits means `$`, the last line.
              let es := rest.takeWhile Char.isDigit
              (.between (leadingNumber ds) (if es.isEmpty then Nat.pow 10 9 else leadingNumber es),
                (rest.drop es.length).dropWhile (· == '$'))
            | rest => (.number (leadingNumber ds), rest)
      match cs.dropWhile (· == ' ') with
      | 's' :: separator :: rest =>
        let (re, rest) := upTo separator rest
        let (replacement, rest) := upTo separator rest
        let flags := rest.takeWhile Char.isAlphanum
        (address, .substitute (Regex.read extended re) replacement (flags.contains 'g')
          (flags.contains 'p')) :: edits extended fuel (rest.drop flags.length)
      | 'd' :: rest => (address, .delete) :: edits extended fuel rest
      | 'p' :: rest => (address, .print) :: edits extended fuel rest
      | 'q' :: rest => (address, .quit) :: edits extended fuel rest
      | _ => []

/-- Whether an address is that of a line. -/
def Address.covers (number : Nat) (isLast : Bool) (line : List Char) : Address → Bool
  | all => true
  | .number n => n = number
  | last => isLast
  | matching ns => Regex.occurs ns line
  | between a b => a ≤ number && number ≤ b

/-- A line after edits: what is printed before it, the line if it is still there, and whether it is
the last one. -/
def editLine (number : Nat) (isLast : Bool) :
    List (Address × Edit) → List Char → List (List Char) × Option (List Char) × Bool
  | [], line => ([], some line, false)
  | (address, edit) :: rest, line =>
    if !address.covers number isLast line then editLine number isLast rest line
    else match edit with
      | .substitute ns replacement all print =>
        if Regex.occurs ns line then
          let line := Regex.substitute ns replacement all (line.length + 2) [] 0 line
          let (before, result) := editLine number isLast rest line
          (if print then line :: before else before, result)
        else editLine number isLast rest line
      | .delete => ([], none, false)
      | .print =>
        let (before, result) := editLine number isLast rest line
        (line :: before, result)
      | .quit => ([], some line, true)

/-- The lines after edits, last first. -/
def editLines (es : List (Address × Edit)) (quiet : Bool) (number : Nat) (done : List (List Char)) :
    List (List Char) → List (List Char)
  | [] => done
  | line :: rest =>
    let (before, result, ends) := editLine number rest.isEmpty es line
    let printed := before ++ (if quiet then [] else result.toList)
    let done := printed.reverse ++ done
    if ends then done else editLines es quiet (number + 1) done rest

/-- Edits lines. -/
def sed : Utility := fun r =>
  let (os, operands) := r.options "e"
  let extended := given os 'E' || given os 'r'
  let scripts := os.filterMap fun (c, value) => if c = 'e' then some value else none
  let (scripts, operands) := if scripts.isEmpty then (operands.take 1, operands.drop 1)
    else (scripts, operands)
  let es := scripts.flatMap fun s => edits extended (s.length + 1) s
  r.onContents operands fun contents =>
    let (lines, ended) := linesOf (joined contents)
    ofLinesEnded (editLines es (given os 'n') 1 [] lines).reverse ended

/-- Lines with a match. -/
def grep : Utility := fun r =>
  let (os, operands) := r.options "em"
  let (pattern, operands) := match os.lookup 'e' with
    | some p => (p, operands)
    | none => (operands.headD [], operands.drop 1)
  let lowered (cs : List Char) : List Char := if given os 'i' then cs.map Char.toLower else cs
  let found (line : List Char) : Bool :=
    if given os 'F' then Text.isInfix (lowered pattern) (lowered line)
    else Regex.occurs (Regex.read (given os 'E') (lowered pattern)) (lowered line)
  let (contents, messages) := r.contents operands
  let hits := (linesOf (joined contents)).1.filter fun line => found line != given os 'v'
  let output := if given os 'q' then []
    else if given os 'c' then [(toString hits.length).toList] else hits
  ⟨if !messages.isEmpty then 2 else if hits.isEmpty then 1 else 0, ofLines output, messages, r.files,
    0⟩

/-- Counts lines, words and octets. -/
def wc : Utility := fun r =>
  let (os, operands) := r.options ""
  let counts (content : ByteArray) : List Nat :=
    let lines := content.foldl (fun n b => if b = 10 then n + 1 else n) 0
    let (words, _) := content.foldl (fun (acc : Nat × Bool) b =>
      let blank := b = 32 || (9 ≤ b && b ≤ 13)
      (if !blank && !acc.2 then acc.1 + 1 else acc.1, !blank)) (0, false)
    let characters := content.foldl (fun n b => if 0x80 ≤ b && b < 0xC0 then n else n + 1) 0
    let all := os.isEmpty
    (if all || given os 'l' then [lines] else []) ++ (if all || given os 'w' then [words] else []) ++
      (if given os 'm' then [characters] else []) ++
      (if all || given os 'c' then [content.size] else [])
  let row (name : List Char) (ns : List Nat) : List Char :=
    -- A single count is not aligned; for several, nothing is known of the size of an input without
    -- a file.
    let width := if ns.length = 1 && operands.length ≤ 1 then 0 else if operands.isEmpty then 7 else
      (toString ((ns.foldl max 0))).length
    spaced ((ns.map fun n =>
      let ds := (toString n).toList
      List.replicate (width - ds.length) ' ' ++ ds) ++ (if name = ['-'] then [] else [name]))
  r.onContents operands fun contents =>
    ofLines (contents.map fun (name, source) => row name (counts source.all))

/-- Sorts lines. -/
def sort : Utility := fun r =>
  let (os, operands) := r.options "kt"
  r.onContents operands fun contents =>
    let lines := (linesOf (joined contents)).1
    let number (cs : List Char) : Int := (argumentNumber (cs.dropWhile (· = ' ') |>.takeWhile fun c =>
      c.isDigit || c == '-')).1
    let le (a b : List Char) : Bool :=
      if given os 'n' then
        if number a = number b then !b.lex a (· < ·) else decide (number a < number b)
      else !b.lex a (· < ·)
    let sorted := lines.mergeSort fun a b => if given os 'r' then le b a else le a b
    let unique := if given os 'u' then sorted.eraseReps else sorted
    ofLines unique

/-- Drops repeated lines. -/
def uniq : Utility := fun r =>
  let (os, operands) := r.options ""
  r.onContents operands fun contents =>
    let groups := (linesOf (joined contents)).1.splitBy (· == ·)
    ofLines <| groups.filterMap fun group =>
      let line := group.headD []
      let n := (toString group.length).toList
      if given os 'd' && group.length < 2 then none
      else if given os 'u' && 1 < group.length then none
      else if given os 'c' then
        some (List.replicate (7 - n.length) ' ' ++ n ++ ' ' :: line)
      else some line

/-- Turns lines around. -/
def rev : Utility := fun r =>
  r.onContents (r.options "").2 fun contents =>
    let (lines, ended) := linesOf (joined contents)
    ofLinesEnded (lines.map List.reverse) ended

/-- Turns the order of lines around. -/
def tac : Utility := fun r =>
  r.onContents (r.options "").2 fun contents => ofLines (linesOf (joined contents)).1.reverse

/-- The positions of a list such as `1,3-5`. -/
def positions (cs : List Char) : List (Nat × Nat) :=
  (Text.splitWhere (· == ',') cs).map fun part =>
    match Text.splitOnce '-' part with
    | some (a, b) => (max 1 (leadingNumber a), if b.isEmpty then Nat.pow 10 9 else leadingNumber b)
    | none => (leadingNumber part, leadingNumber part)

/-- Fields or characters of lines. -/
def cut : Utility := fun r =>
  let (os, operands) := r.options "dfcb"
  let delimiter := ((os.lookup 'd').bind List.head?).getD '\t'
  let chosen (ranges : List (Nat × Nat)) (parts : List (List Char)) : List (List Char) :=
    (parts.zipIdx 1).filterMap fun (part, i) =>
      if ranges.any fun (a, b) => a ≤ i && i ≤ b then some part else none
  r.onContents operands fun contents =>
    ofLines <| (linesOf (joined contents)).1.map fun line =>
      match os.lookup 'f', (os.lookup 'c').or (os.lookup 'b') with
      | some list, _ =>
        if line.contains delimiter then
          Text.joinWith [delimiter] (chosen (positions list) (Text.splitWhere (· == delimiter) line))
        else line
      | none, some list => (chosen (positions list) (line.map fun c => [c])).flatten
      | none, none => line

/-- Numbers in order. -/
def seq : Utility := fun r =>
  let numbers := r.arguments.map fun a => (argumentNumber a).1
  let (first, step, last) := match numbers with
    | [last] => (1, 1, last)
    | [first, last] => (first, 1, last)
    | first :: step :: last :: _ => (first, step, last)
    | [] => (1, 1, 0)
  let count := if step = 0 then 0 else (((last - first).fdiv step) + 1).toNat
  r.print (ofLines ((List.range (min count 1000000)).map fun (i : Nat) =>
    (toString (first + step * Int.ofNat i)).toList))

/-- Writes what it reads to files too. -/
def tee : Utility := fun r =>
  let (os, operands) := r.options ""
  let content := r.input.all
  let files := operands.foldl (fun (files : Files.Tree) operand =>
    let path := r.path operand
    let before := if given os 'a' then (match files.read path with
      | .ok old => old
      | .error _ => .empty) else .empty
    match files.write path (before ++ content) with
    | .ok files => files
    | .error _ => files) r.files
  { r.print content with files := files }

end Stencil.Shell.Utility
