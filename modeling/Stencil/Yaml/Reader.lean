import Stencil.Yaml.Node
import Stencil.Text.Search

/-!
# Reading YAML

A document is read from left to right, with the column as part of the state.  In block style the
column of a collection's first entry holds its further entries together, and whatever belongs to an
entry stands further right; in flow style brackets and commas do that, and columns do not count.

The fuel bounds the number of steps, of which a document needs no more than a few for each
character.
-/

namespace Stencil.Yaml

/-- What is left to read. -/
structure Cursor where
  /-- The characters that are left. -/
  rest : List Char
  /-- The column of the first of them. -/
  column : Nat
  /-- The nodes that have been given names. -/
  anchors : List (String × Node)

/-- A reader that may fail. -/
abbrev Reading := StateT Cursor Option

namespace Cursor

/-- The cursor after so many characters of one line. -/
def advance (n : Nat) (c : Cursor) : Cursor := { c with rest := c.rest.drop n, column := c.column + n }

/-- The cursor after a line end. -/
def nextLine (c : Cursor) : Cursor := { c with rest := c.rest.drop 1, column := 0 }

end Cursor

/-- Whether a character is a space or a tab. -/
def isSpace (c : Char) : Bool := c = ' ' || c = '\t'

/-- Whether a text starts with a blank, a line end, or not at all. -/
def startsBlank : List Char → Bool
  | [] => true
  | c :: _ => isSpace c || c = '\n'

/-- Whether a character ends a plain scalar in flow style. -/
def isFlowMark (c : Char) : Bool := [',', '[', ']', '{', '}'].contains c

/-- Whether a line is a mark between documents. -/
def isDocumentMark (cs : List Char) : Bool :=
  ("---".toList.isPrefixOf cs || "...".toList.isPrefixOf cs) && startsBlank (cs.drop 3)

namespace Reading

/-- The characters that are left. -/
def rest : Reading (List Char) := do return (← get).rest

/-- Drops so many characters of a line. -/
def skip (n : Nat) : Reading Unit := modify (Cursor.advance n)

/-- Drops the spaces and tabs that come next. -/
def skipSpaces : Reading Unit := do
  let spaces := (← rest).takeWhile isSpace
  skip spaces.length

/-- Whether a colon comes next that a value follows; in flow style it may also stand before a mark.
-/
def atColon (flow : Bool) : Reading Bool := do
  match ← rest with
  | ':' :: more =>
    return startsBlank more || (flow && more.head?.any isFlowMark)
  | _ => return false

/-- Whether the text or the document ends here. -/
def atEnd : Reading Bool := do
  let c ← get
  return c.rest.isEmpty || (c.column = 0 && isDocumentMark c.rest)

/-- Goes to the next character that is neither blank nor in a comment, and says whether that is on
another line.  Tabs can only stand where no entry could start. -/
def toContent (fuel : Nat) (tabs : Bool) (crossed : Bool) : Reading Bool :=
  match fuel with
  | 0 => failure
  | fuel + 1 => do
    match ← rest with
    | ' ' :: _ => do
      skip 1
      toContent fuel tabs crossed
    | '\t' :: _ =>
      if tabs then do
        skip 1
        toContent fuel tabs crossed
      else failure
    | '#' :: more => do
      skip (1 + (more.takeWhile (· ≠ '\n')).length)
      toContent fuel tabs crossed
    | '\n' :: _ => do
      modify Cursor.nextLine
      toContent fuel false true
    | _ => return crossed

/-- Goes to the next character that is neither blank nor in a comment, where columns do not count.
-/
def toFlowContent (fuel : Nat) : Reading Unit :=
  match fuel with
  | 0 => failure
  | fuel + 1 => do
    match ← rest with
    | ' ' :: _ | '\t' :: _ => do
      skip 1
      toFlowContent fuel
    | '#' :: more => do
      skip (1 + (more.takeWhile (· ≠ '\n')).length)
      toFlowContent fuel
    | '\n' :: _ => do
      modify Cursor.nextLine
      toFlowContent fuel
    | _ => if ← atEnd then failure else return

/-! ## Scalars -/

/-- What stands for so many line ends between two parts of a scalar: a space for one, and for more
all but one of them. -/
def fold (breaks : Nat) : List Char :=
  if breaks ≤ 1 then [' '] else List.replicate (breaks - 1) '\n'

/-- Drops line ends and the blanks around them; gives the number of line ends. -/
def skipBreaks (fuel : Nat) (count : Nat) : Reading Nat :=
  match fuel with
  | 0 => failure
  | fuel + 1 => do
    skipSpaces
    match ← rest with
    | '\n' :: _ => do
      modify Cursor.nextLine
      skipBreaks fuel (count + 1)
    | _ => return count

/-- A text between single quotes, after the first of them. -/
def singleQuoted (fuel : Nat) (acc : List Char) : Reading String :=
  match fuel with
  | 0 => failure
  | fuel + 1 => do
    match ← rest with
    | [] => failure
    | '\'' :: '\'' :: _ => do
      skip 2
      singleQuoted fuel ('\'' :: acc)
    | '\'' :: _ => do
      skip 1
      return .ofList acc.reverse
    | '\n' :: _ => do
      let breaks ← skipBreaks fuel 0
      if ← atEnd then failure
      singleQuoted fuel ((fold breaks).reverse ++ acc.dropWhile isSpace)
    | c :: _ => do
      skip 1
      singleQuoted fuel (c :: acc)

/-- The value of a hexadecimal digit. -/
def hexValue? (c : Char) : Option Nat :=
  if c.isDigit then some (c.toNat - 48)
  else if 'a' ≤ c && c ≤ 'f' then some (c.toNat - 87)
  else if 'A' ≤ c && c ≤ 'F' then some (c.toNat - 55)
  else none

/-- The character with a code of so many hexadecimal digits. -/
def codePoint (width : Nat) : Reading Char := do
  let ds := (← rest).take width
  match ds.mapM hexValue? with
  | some values =>
    let n := values.foldl (fun n d => n * 16 + d) 0
    if ds.length = width && n.isValidChar then do
      skip width
      return Char.ofNat n
    else failure
  | none => failure

/-- The character of an escape, after its backslash. -/
def escape : Reading Char := do
  match ← rest with
  | [] => failure
  | c :: _ => do
    skip 1
    match c with
    | '0' => return '\x00'
    | 'a' => return '\x07'
    | 'b' => return '\x08'
    | 't' | '\t' => return '\t'
    | 'n' => return '\n'
    | 'v' => return '\x0b'
    | 'f' => return '\x0c'
    | 'r' => return '\r'
    | 'e' => return '\x1b'
    | ' ' => return ' '
    | '"' => return '"'
    | '/' => return '/'
    | '\\' => return '\\'
    | 'N' => return '\x85'
    | '_' => return '\xa0'
    | 'L' => return '\u2028'
    | 'P' => return '\u2029'
    | 'x' => codePoint 2
    | 'u' => codePoint 4
    | 'U' => codePoint 8
    | _ => failure

/-- A text between double quotes, after the first of them; blanks that are not escaped and stand
before a line end are counted, so that they can be dropped. -/
def doubleQuoted (fuel : Nat) (acc : List Char) (blanks : Nat) : Reading String :=
  match fuel with
  | 0 => failure
  | fuel + 1 => do
    match ← rest with
    | [] => failure
    | '"' :: _ => do
      skip 1
      return .ofList acc.reverse
    | '\\' :: '\n' :: _ => do
      skip 1
      modify Cursor.nextLine
      let breaks ← skipBreaks fuel 0
      doubleQuoted fuel (List.replicate breaks '\n' ++ acc) 0
    | '\\' :: _ => do
      skip 1
      doubleQuoted fuel ((← escape) :: acc) 0
    | '\n' :: _ => do
      let breaks ← skipBreaks fuel 0
      if ← atEnd then failure
      doubleQuoted fuel ((fold breaks).reverse ++ acc.drop blanks) 0
    | c :: _ => do
      skip 1
      doubleQuoted fuel (c :: acc) (if isSpace c then blanks + 1 else 0)

/-- Whether a character can start a plain scalar before what follows it. -/
def startsPlain (flow : Bool) (c : Char) (more : List Char) : Bool :=
  if c = '-' then !startsBlank more
  else if c = '?' || c = ':' then !startsBlank more && !(flow && more.head?.any isFlowMark)
  else !(isSpace c || c = '\n' || ",[]{}#&*!|>'\"%@\x60".toList.contains c)

/-- The part of a plain scalar on one line. -/
def plainLine (flow : Bool) (afterBlank : Bool) : List Char → List Char
  | [] => []
  | c :: more =>
    if c = '\n' || (c = '#' && afterBlank) || (flow && isFlowMark c) ||
        (c = ':' && (startsBlank more || (flow && more.head?.any isFlowMark))) then []
    else c :: plainLine flow (isSpace c) more

/-- The part of a plain scalar on one line, without the blanks after it. -/
def takePlainLine (flow : Bool) : Reading (List Char) := do
  let line := plainLine flow false (← rest)
  skip line.length
  return (line.reverse.dropWhile isSpace).reverse

/-- The further lines of a plain scalar, which stand further right than some column. -/
def plainRest (fuel : Nat) (flow : Bool) (above : Int) (acc : List Char) : Reading (List Char) :=
  match fuel with
  | 0 => failure
  | fuel + 1 => do
    let before ← get
    let breaks ← skipBreaks fuel 0
    let c ← get
    -- A line goes on with the scalar if it is neither a comment nor the end, and stands further right.
    let goesOn := breaks ≠ 0 && c.rest.head? ≠ some '#' && !(← atEnd) &&
      (flow || above < c.column)
    let line := if goesOn then plainLine flow false c.rest else []
    if line.isEmpty then do
      set before
      return acc
    else do
      let line ← takePlainLine flow
      plainRest fuel flow above (acc ++ fold breaks ++ line)

/-! ## Blocks of lines -/

/-- How a block of lines is read. -/
structure BlockStyle where
  /-- Whether lines are joined. -/
  folded : Bool
  /-- Whether the line ends after the last line are kept, dropped, or made one. -/
  keeps : Option Bool
  /-- How far lines are indented, if that is said. -/
  indent : Option Nat

/-- The marks after the sign of a block. -/
def blockMarks (style : BlockStyle) : List Char → Option (BlockStyle × List Char)
  | '+' :: rest => if style.keeps.isSome then none else blockMarks { style with keeps := some true } rest
  | '-' :: rest => if style.keeps.isSome then none else blockMarks { style with keeps := some false } rest
  | c :: rest =>
    if c.isDigit then
      if c = '0' || style.indent.isSome then none
      else blockMarks { style with indent := some (c.toNat - 48) } rest
    else some (style, c :: rest)
  | [] => some (style, [])

/-- The lines of a block of some indentation: each without it, blank lines as empty ones; and what
follows. -/
def blockLines (fuel : Nat) (indent : Nat) (acc : List (List Char)) (cs : List Char) :
    List (List Char) × List Char :=
  match fuel, cs with
  | 0, cs => (acc.reverse, cs)
  | _, [] => (acc.reverse, [])
  | fuel + 1, cs =>
    let line := cs.takeWhile (· ≠ '\n')
    let after := (cs.drop line.length).drop 1
    let spaces := (line.takeWhile (· = ' ')).length
    -- Blanks beyond the indentation are part of the text, also on a line of blanks.
    if indent ≤ spaces && (spaces ≠ line.length || indent < spaces) then
      blockLines fuel indent (line.drop indent :: acc) after
    else if spaces = line.length then blockLines fuel indent ([] :: acc) after
    else (acc.reverse, cs)

/-- The indentation of the first line that is not blank, or the longest of the blank ones before the
end. -/
def detectIndent (fuel : Nat) (longest : Nat) (cs : List Char) : Nat :=
  match fuel, cs with
  | 0, _ | _, [] => longest
  | fuel + 1, cs =>
    let line := cs.takeWhile (· ≠ '\n')
    let spaces := (line.takeWhile (· = ' ')).length
    if spaces = line.length then
      detectIndent fuel (max longest spaces) ((cs.drop line.length).drop 1)
    else max longest spaces

/-- Whether a line of a block starts with a blank, which keeps it from being joined to others. -/
def isMore (line : List Char) : Bool := line.head?.any isSpace

/-- The text of joined lines. -/
def joinLines : List (List Char) → List Char
  | [] => []
  | [line] => line
  | line :: rest =>
    let empty := (rest.takeWhile (·.isEmpty)).length
    match rest.drop empty with
    | [] => line ++ List.replicate empty '\n' ++ joinLines []
    | next :: _ =>
      -- Line ends around a line that starts with a blank are kept; of others one is dropped.
      let gap :=
        if isMore line || isMore next || line.isEmpty then List.replicate (empty + 1) '\n'
        else if empty = 0 then [' '] else List.replicate empty '\n'
      line ++ gap ++ joinLines (rest.drop empty)
  termination_by lines => lines.length
  decreasing_by
    · simp
    · simp only [List.length_drop, List.length_cons]; omega

/-- The text of a block: its lines, and the line ends after the last of them. -/
def blockText (style : BlockStyle) (lines : List (List Char)) : String :=
  let ends := (lines.reverse.takeWhile (·.isEmpty)).length
  let body := lines.take (lines.length - ends)
  let leading := (body.takeWhile (·.isEmpty)).length
  let text :=
    if style.folded then List.replicate leading '\n' ++ joinLines (body.drop leading)
    else Text.joinWith ['\n'] body
  let close := match style.keeps with
    | some true => List.replicate (if body.isEmpty then ends else ends + 1) '\n'
    | some false => []
    | none => if body.isEmpty then [] else ['\n']
  .ofList (text ++ close)

/-- A block of lines, after its sign. -/
def blockScalar (fuel : Nat) (folded : Bool) (above : Int) : Reading Node := do
  match blockMarks ⟨folded, none, none⟩ (← rest) with
  | none => failure
  | some (style, more) => do
    -- Behind the marks there is nothing but a comment, with a blank before it.
    let header := more.takeWhile (· ≠ '\n')
    let after := header.dropWhile isSpace
    if !(after.isEmpty || (after.head? = some '#' && after.length < header.length)) then failure
    let content := (more.drop header.length).drop 1
    let base := above.toNat
    let indent := match style.indent with
      | some n => base + n
      | none => max (detectIndent fuel 0 content) (max 1 (above + 1).toNat)
    let (lines, left) := blockLines fuel indent [] content
    modify fun c => { c with rest := left, column := 0 }
    return .scalar (blockText style lines) false

/-! ## Nodes -/

/-- A name after the sign of an anchor or alias. -/
def takeAnchorName : Reading String := do
  let name := (← rest).takeWhile fun c => c.isAlphanum || c = '-' || c = '_'
  if name.isEmpty then failure
  skip name.length
  return .ofList name

/-- The node that an alias stands for. -/
def takeAlias : Reading Node := do
  let name ← takeAnchorName
  match (← get).anchors.lookup name with
  | some node => return node
  | none => failure

/-- What is said about a node before it. -/
structure Properties where
  /-- Its name. -/
  anchor : Option String
  /-- Its tag. -/
  tag : Option String

/-- The properties before a node on the same line. -/
def takeProperties (fuel : Nat) (p : Properties) : Reading Properties :=
  match fuel with
  | 0 => failure
  | fuel + 1 => do
    match ← rest with
    | '&' :: _ =>
      if p.anchor.isSome then failure
      else do
        skip 1
        let name ← takeAnchorName
        skipSpaces
        takeProperties fuel { p with anchor := some name }
    | '!' :: _ =>
      if p.tag.isSome then failure
      else do
        let tag := (← rest).takeWhile fun c => !(isSpace c || c = '\n' || isFlowMark c)
        skip tag.length
        skipSpaces
        takeProperties fuel { p with tag := some (.ofList tag) }
    | _ => return p

/-- A node with its properties. -/
def withProperties (p : Properties) (node : Node) : Reading Node := do
  -- The tag of a string makes one of a plain scalar; other tags are not looked at.
  let node := match p.tag, node with
    | some "!", .scalar s _ | some "!!str", .scalar s _ | some "!<tag:yaml.org,2002:str>", .scalar s _ =>
      .scalar s false
    | _, node => node
  match p.anchor with
  | some name => modify fun c => { c with anchors := (name, node) :: c.anchors }
  | none => pure ()
  return node

mutual

/-- A node in flow style; nothing stands for an absent one. -/
def flowNode (fuel : Nat) : Reading Node :=
  match fuel with
  | 0 => failure
  | fuel + 1 => do
    toFlowContent fuel
    let p ← takeProperties fuel ⟨none, none⟩
    toFlowContent fuel
    let node ← match ← rest with
      | '[' :: _ => do
        skip 1
        pure (.sequence (← flowItems fuel []))
      | '{' :: _ => do
        skip 1
        pure (.mapping (← flowEntries fuel []))
      | '"' :: _ => do
        skip 1
        pure (.scalar (← doubleQuoted fuel [] 0) false)
      | '\'' :: _ => do
        skip 1
        pure (.scalar (← singleQuoted fuel []) false)
      | '*' :: _ => do
        skip 1
        takeAlias
      | c :: more =>
        if startsPlain true c more then do
          let first ← takePlainLine true
          pure (.scalar (.ofList (← plainRest fuel true 0 first)) true)
        else if c = ',' || c = ']' || c = '}' || c = ':' then pure Node.absent
        else failure
      | [] => failure
    withProperties p node

/-- Whether a value follows a key in flow style; after quotes and brackets the colon need not be
followed by a blank. -/
def flowColon (fuel : Nat) (key : Node) : Reading Bool :=
  match fuel with
  | 0 => failure
  | fuel + 1 => do
    toFlowContent fuel
    let adjacent := match key with
      | .scalar _ true => false
      | _ => true
    match ← rest with
    | ':' :: _ =>
      if adjacent || (← atColon true) then do
        skip 1
        return true
      else return false
    | _ => return false

/-- The items of a sequence in flow style, up to its bracket, which is taken. -/
def flowItems (fuel : Nat) (acc : List Node) : Reading (List Node) :=
  match fuel with
  | 0 => failure
  | fuel + 1 => do
    toFlowContent fuel
    match ← rest with
    | ']' :: _ => do
      skip 1
      return acc.reverse
    | ',' :: _ | '}' :: _ => failure
    | _ => do
      let node ← flowNode fuel
      -- An item with a colon is a mapping of one entry.
      let node ← if ← flowColon fuel node then do
          pure (.mapping [(node, ← flowNode fuel)])
        else pure node
      toFlowContent fuel
      match ← rest with
      | ',' :: _ => do
        skip 1
        flowItems fuel (node :: acc)
      | ']' :: _ => flowItems fuel (node :: acc)
      | _ => failure

/-- The entries of a mapping in flow style, up to its brace, which is taken. -/
def flowEntries (fuel : Nat) (acc : List (Node × Node)) : Reading (List (Node × Node)) :=
  match fuel with
  | 0 => failure
  | fuel + 1 => do
    toFlowContent fuel
    match ← rest with
    | '}' :: _ => do
      skip 1
      return acc.reverse
    | ',' :: _ | ']' :: _ => failure
    | _ => do
      match ← rest with
      | '?' :: more => if startsBlank more then skip 1
      | _ => pure ()
      let key ← flowNode fuel
      let value ← if ← flowColon fuel key then flowNode fuel else pure Node.absent
      toFlowContent fuel
      match ← rest with
      | ',' :: _ => do
        skip 1
        flowEntries fuel ((key, value) :: acc)
      | '}' :: _ => flowEntries fuel ((key, value) :: acc)
      | _ => failure

end

/-- A node of one line: brackets, quotes, an alias, or the first line of a plain scalar. -/
def inlineNode (fuel : Nat) : Reading Node := do
  match ← rest with
  | '[' :: _ | '{' :: _ | '"' :: _ | '\'' :: _ => flowNode fuel
  | '*' :: _ => do
    skip 1
    takeAlias
  | c :: more =>
    if startsPlain false c more then do return .scalar (.ofList (← takePlainLine false)) true
    else failure
  | [] => failure

/-- Whether a dash comes next that an item follows. -/
def atDash : Reading Bool := do
  match ← rest with
  | '-' :: more => return startsBlank more
  | _ => return false

/-- Whether a question mark comes next that a key follows. -/
def atQuestion : Reading Bool := do
  match ← rest with
  | '?' :: more => return startsBlank more
  | _ => return false

mutual

/-- A node in block style further right than some column: whether a collection may start on this
line, and whether a sequence may stand at the column itself. -/
def blockNode (fuel : Nat) (above : Int) (fresh : Bool) (level : Bool) : Reading Node :=
  match fuel with
  | 0 => failure
  | fuel + 1 => do
    let crossed ← toContent fuel (!fresh) false
    let fresh := fresh || crossed
    let column := (← get).column
    if ← atEnd then return .absent
    -- What stands no further right belongs to something else, but for a sequence under its key.
    else if column ≤ above then
      if level && column = above && (← atDash) then return .sequence (← blockItems fuel column level [])
      else return .absent
    else if ← atDash then
      if fresh then return .sequence (← blockItems fuel column false []) else failure
    else if ← atQuestion then
      if fresh then return .mapping (← blockEntries fuel column []) else failure
    else do
      let p ← takeProperties fuel ⟨none, none⟩
      match p.anchor.or p.tag with
      | some _ => do
        -- A collection may start on a line behind its properties, but not on their own.
        let node ← match ← rest with
          | [] | '\n' :: _ | '#' :: _ => blockNode fuel above true level
          | _ => blockNode fuel above false false
        withProperties p node
      | none =>
        match ← rest with
        | '|' :: _ => do
          skip 1
          blockScalar fuel false above
        | '>' :: _ => do
          skip 1
          blockScalar fuel true above
        | _ => do
          let start ← get
          let node ← inlineNode fuel
          -- It is a key if it ends on its line and a colon follows there.
          let oneLine := !((start.rest.take (start.rest.length - (← rest).length)).contains '\n')
          skipSpaces
          if oneLine && (← atColon false) then
            if fresh then do
              skip 1
              let value ← blockNode fuel column false true
              return .mapping ((node, value) :: (← blockEntries fuel column []))
            else failure
          else match node with
            | .scalar s true => do
              return .scalar (.ofList (← plainRest fuel false above s.toList)) true
            | node => return node

/-- The items of a sequence at a column; a sequence on the level of its mapping ends where another
key comes. -/
def blockItems (fuel : Nat) (column : Nat) (level : Bool) (acc : List Node) : Reading (List Node) :=
  match fuel with
  | 0 => failure
  | fuel + 1 => do
    let _ ← toContent fuel true false
    let here := (← get).column
    if (← atEnd) || here < column then return acc.reverse
    else if here = column && (← atDash) then do
      skip 1
      let item ← blockNode fuel column true false
      blockItems fuel column level (item :: acc)
    else if here = column && level then return acc.reverse
    else failure

/-- The entries of a mapping at a column. -/
def blockEntries (fuel : Nat) (column : Nat) (acc : List (Node × Node)) :
    Reading (List (Node × Node)) :=
  match fuel with
  | 0 => failure
  | fuel + 1 => do
    let _ ← toContent fuel true false
    let here := (← get).column
    if (← atEnd) || here < column then return acc.reverse
    else if here ≠ column then failure
    else if ← atQuestion then do
      skip 1
      let key ← blockNode fuel column true false
      let _ ← toContent fuel true false
      let value ← if (← get).column = column && (← atColon false) then do
          skip 1
          blockNode fuel column true false
        else pure Node.absent
      blockEntries fuel column ((key, value) :: acc)
    else if ← atDash then failure
    else do
      let p ← takeProperties fuel ⟨none, none⟩
      let start ← get
      let key ← withProperties p (← inlineNode fuel)
      let oneLine := !((start.rest.take (start.rest.length - (← rest).length)).contains '\n')
      skipSpaces
      if oneLine && (← atColon false) then do
        skip 1
        let value ← blockNode fuel column false true
        blockEntries fuel column ((key, value) :: acc)
      else failure

end

/-- Drops the directives before a document. -/
def skipDirectives (fuel : Nat) : Reading Unit :=
  match fuel with
  | 0 => failure
  | fuel + 1 => do
    let _ ← toContent fuel false false
    let c ← get
    if c.column = 0 && c.rest.head? = some '%' then do
      skip (c.rest.takeWhile (· ≠ '\n')).length
      skipDirectives fuel

/-- A document that nothing follows. -/
def document (fuel : Nat) : Reading Node := do
  skipDirectives fuel
  let c ← get
  let marked := c.column = 0 && "---".toList.isPrefixOf c.rest && startsBlank (c.rest.drop 3)
  if marked then skip 3
  -- nothing that holds entries can start on the line of the mark
  let node ← blockNode fuel (-1) (!marked) false
  let _ ← toContent fuel true false
  let c ← get
  -- A mark may end the document, but no other document may follow.
  if c.column = 0 && "...".toList.isPrefixOf c.rest && startsBlank (c.rest.drop 3) then do
    skip 3
    let _ ← toContent fuel true false
  if (← rest).isEmpty then return node else failure

end Reading

/-- A text with line feeds for all line ends, and without a mark of its byte order. -/
def normalize : List Char → List Char
  | '\uFEFF' :: rest => unifyBreaks rest
  | cs => unifyBreaks cs
where
  unifyBreaks : List Char → List Char
    | '\r' :: '\n' :: rest => '\n' :: unifyBreaks rest
    | '\r' :: rest => '\n' :: unifyBreaks rest
    | c :: rest => c :: unifyBreaks rest
    | [] => []

/-- Whether a character may stand in a document. -/
def isAllowed (c : Char) : Bool :=
  let n := c.toNat
  n = 9 || n = 10 || n = 13 || (0x20 ≤ n && n ≠ 0x7F && !(0x80 ≤ n && n ≤ 0x9F && n ≠ 0x85) &&
    n ≠ 0xFFFE && n ≠ 0xFFFF)

/-- Reads a document. -/
def read? (s : String) : Option Node :=
  if s.toList.all isAllowed then
    let cs := normalize s.toList
    ((Reading.document (8 * cs.length + 64)).run ⟨cs, 0, []⟩).map (·.1)
  else none

end Stencil.Yaml
