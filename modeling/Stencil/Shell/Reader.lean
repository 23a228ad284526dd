import Stencil.Shell.Command
import Stencil.Text.Search

/-!
# Reading shell scripts

A script is read one line of commands at a time.  Reserved words count only where a command can
start.  The fuel of the readers bounds the depth to which commands and words are nested.
-/

namespace Stencil.Shell

/-- A reader works on what is left of a script, or fails with a reason. -/
abbrev Reading := EStateM String (List Char)

namespace Reading

/-- What is left to read. -/
def rest : Reading (List Char) := get

/-- Drops so many characters. -/
def skip (n : Nat) : Reading Unit := modify (·.drop n)

/-- The characters of a class at the start, which are taken. -/
def takeWhile (p : Char → Bool) : Reading (List Char) := do
  let cs ← rest
  set (cs.dropWhile p)
  return cs.takeWhile p

/-- Whether a text comes next; if so, it is taken. -/
def accept (text : List Char) : Reading Bool := do
  if text.isPrefixOf (← rest) then
    skip text.length
    return true
  else return false

end Reading

open Reading

/-- Whether a character can start a name. -/
def isNameStart (c : Char) : Bool := c.isAlpha || c == '_'

/-- Whether a character can stand in a name. -/
def isNamePart (c : Char) : Bool := c.isAlphanum || c == '_'

/-- Whether a text is a name. -/
def isName : List Char → Bool
  | [] => false
  | c :: rest => isNameStart c && rest.all isNamePart

/-- Whether a character ends a word. -/
def endsWord (c : Char) : Bool :=
  c == ' ' || c == '\t' || c == '\n' || c == ';' || c == '&' || c == '|' || c == '<' || c == '>' ||
    c == '(' || c == ')'

/-- Whether a character is a special parameter. -/
def isSpecialParameter (c : Char) : Bool :=
  c == '@' || c == '*' || c == '#' || c == '?' || c == '$' || c == '!' || c == '-' || c.isDigit

/-- Drops blanks, continued line ends, and a comment. -/
def dropBlanks (cs : List Char) : List Char :=
  match cs with
  | ' ' :: rest | '\t' :: rest => dropBlanks rest
  | '\\' :: '\n' :: rest => dropBlanks rest
  | '#' :: rest => rest.dropWhile (· ≠ '\n')
  | _ => cs

/-- Drops blanks. -/
def blanks : Reading Unit := modify dropBlanks

/-- Drops blanks and line ends; the fuel bounds the number of lines. -/
def blankLines : Nat → Reading Unit
  | 0 => blanks
  | fuel + 1 => do
    blanks
    if ← accept ['\n'] then blankLines fuel

/-- What stands before the first end of a backquoted script, with its escapes resolved, and what
follows. -/
def backquoted : List Char → Option (List Char × List Char)
  | [] => none
  | '\x60' :: rest => some ([], rest)
  | '\\' :: c :: rest =>
    (backquoted rest).map fun (cs, after) =>
      (if c = '\x60' || c = '\\' || c = '$' then (c :: cs, after) else ('\\' :: c :: cs, after))
  | c :: rest => (backquoted rest).map fun (cs, after) => (c :: cs, after)

/-- The modifier of a parameter in braces. -/
def modifier : Reading Modifier := do
  let cs ← rest
  let found (n : Nat) (m : Modifier) : Reading Modifier := do
    skip n
    return m
  match cs with
  | ':' :: '-' :: _ => found 2 (.orElse true)
  | ':' :: '=' :: _ => found 2 (.orAssign true)
  | ':' :: '?' :: _ => found 2 (.orFail true)
  | ':' :: '+' :: _ => found 2 (.replacing true)
  | '-' :: _ => found 1 (.orElse false)
  | '=' :: _ => found 1 (.orAssign false)
  | '?' :: _ => found 1 (.orFail false)
  | '+' :: _ => found 1 (.replacing false)
  | '#' :: '#' :: _ => found 2 (.dropStart true)
  | '#' :: _ => found 1 (.dropStart false)
  | '%' :: '%' :: _ => found 2 (.dropEnd true)
  | '%' :: _ => found 1 (.dropEnd false)
  | '\x7d' :: _ => return .plain
  | _ => throw "Bad substitution"

/-- The name of a parameter. -/
def parameterName : Reading (List Char) := do
  match ← rest with
  | c :: _ =>
    if isNameStart c then takeWhile isNamePart
    else if c.isDigit then takeWhile Char.isDigit
    else if isSpecialParameter c then do
      skip 1
      return [c]
    else return []
  | [] => return []

/-- The words that end a list of commands in some construct. -/
def closers : List String := ["then", "else", "elif", "fi", "do", "done", "esac", "\x7d"]

/-- The reserved word that comes next, if one does; it is not taken. -/
def reservedNext : Reading (Option String) := do
  let cs ← rest
  let word := String.ofList (cs.takeWhile fun c => !endsWord c)
  return if (closers ++ ["if", "while", "until", "for", "case", "in", "\x7b", "!"]).contains word then
    some word else none

/-- How a token is named in a message about it. -/
def tokenName : List Char → String
  | [] => "end of file"
  | '\n' :: _ => "newline"
  | '&' :: '&' :: _ => "\"&&\""
  | '|' :: '|' :: _ => "\"||\""
  | ';' :: ';' :: _ => "\";;\""
  | c :: cs =>
    if endsWord c then "\"" ++ String.ofList [c] ++ "\""
    else
      let word := String.ofList ((c :: cs).takeWhile fun c => !endsWord c)
      if closers.contains word then "\"" ++ word ++ "\"" else "word"

/-- Fails at a token that cannot stand here. -/
def unexpected {α : Type} (expecting : Option String) : Reading α := do
  let cs ← rest
  match expecting with
  | some word => throw s!"Syntax error: {tokenName cs} unexpected (expecting \"{word}\")"
  | none => throw s!"Syntax error: {tokenName cs} unexpected"

/-- Takes a reserved word. -/
def expectWord (word : String) : Reading Unit := do
  if (← reservedNext) == some word then skip word.length
  else unexpected (some word)

/-- The body of a text that stands in the script up to a line with a delimiter, the body's leading
tabs dropped if asked for, and what follows it. -/
def hereText (dropTabs : Bool) (delimiter : List Char) : List (List Char) → List Char × List (List Char)
  | [] => ([], [])
  | line :: lines =>
    let line := if dropTabs then line.dropWhile (· = '\t') else line
    if line = delimiter then ([], lines)
    else
      let (body, after) := hereText dropTabs delimiter lines
      (line ++ '\n' :: body, after)

/-- Takes the body of such a text from after the current line. -/
def takeHereText (dropTabs : Bool) (delimiter : List Char) : Reading (List Char) := do
  let cs ← rest
  let line := cs.takeWhile (· ≠ '\n')
  let (body, after) :=
    hereText dropTabs delimiter (Text.splitWhere (· = '\n') (cs.drop (line.length + 1)))
  set (line ++ '\n' :: Text.joinWith ['\n'] after)
  return body

mutual

/-- The parts up to the closing double quote, which is taken. -/
def quotedParts (fuel : Nat) (lines : Nat) (acc : List Part) : Reading (List Part) :=
  match fuel with
  | 0 => throw "Syntax error: too deeply nested"
  | fuel + 1 => do
    match ← rest with
    | [] => throw "Syntax error: Unterminated quoted string"
    | '"' :: _ => do
      skip 1
      return acc.reverse
    -- Between double quotes a backslash escapes four characters only, and joins lines.
    | '\\' :: c :: _ => do
      skip 2
      let cs := if c = '\n' then []
        else if c = '$' || c = '\x60' || c = '"' || c = '\\' then [c] else ['\\', c]
      quotedParts fuel lines (.text cs true :: acc)
    | '$' :: _ => do
      let part ← dollar fuel lines true
      quotedParts fuel lines (part :: acc)
    | '\x60' :: _ => do
      let part ← backquote fuel lines true
      quotedParts fuel lines (part :: acc)
    | _ => do
      let cs ← takeWhile fun c => c != '"' && c != '\\' && c != '$' && c != '\x60'
      quotedParts fuel lines (.text cs true :: acc)

/-- A script between backquotes. -/
def backquote (fuel : Nat) (lines : Nat) (quoted : Bool) : Reading Part :=
  match fuel with
  | 0 => throw "Syntax error: too deeply nested"
  | fuel + 1 => do
    match backquoted ((← rest).drop 1) with
    | none => throw "Syntax error: EOF in backquote substitution"
    | some (script, after) => do
      set script
      let body ← listOf fuel lines []
      if !(← rest).isEmpty then unexpected none
      set after
      return .output body quoted

/-- What a dollar sign stands for, which comes next. -/
def dollar (fuel : Nat) (lines : Nat) (quoted : Bool) : Reading Part :=
  match fuel with
  | 0 => throw "Syntax error: too deeply nested"
  | fuel + 1 => do
    match ← rest with
    | '$' :: '(' :: '(' :: _ => do
      let start ← rest
      skip 3
      let expression ← expressionParts fuel lines 0 []
      -- It is an expression only if two parentheses close it that stand together, and else a script.
      match expression with
      | some parts => return .arithmetic parts quoted
      | none => do
        set start
        skip 2
        let body ← listOf fuel lines []
        if !(← accept [')']) then unexpected (some ")")
        return .output body quoted
    | '$' :: '(' :: _ => do
      skip 2
      let body ← listOf fuel lines []
      if !(← accept [')']) then unexpected (some ")")
      return .output body quoted
    -- Without a name the sign is the parameter itself: how many arguments there are.
    | '$' :: '\x7b' :: '#' :: c :: _ => do
      if c = '\x7d' then
        skip 4
        return .parameter ['#'] .plain [] quoted
      else do
        skip 3
        let name ← parameterName
        if !(← accept ['\x7d']) then throw "Bad substitution"
        return .parameter name .length [] quoted
    | '$' :: '\x7b' :: _ => do
      skip 2
      let name ← parameterName
      if name.isEmpty then throw "Bad substitution"
      let m ← modifier
      let word ← bracedParts fuel lines quoted []
      return .parameter name m word quoted
    | _ => do
      skip 1
      match ← rest with
      | c :: _ =>
        if isNameStart c then return .parameter (← takeWhile isNamePart) .plain [] quoted
        else if isSpecialParameter c then do
          skip 1
          return .parameter [c] .plain [] quoted
        else return .text ['$'] quoted
      | [] => return .text ['$'] quoted

/-- The parts up to the brace that closes a parameter, which is taken. -/
def bracedParts (fuel : Nat) (lines : Nat) (quoted : Bool) (acc : List Part) :
    Reading (List Part) :=
  match fuel with
  | 0 => throw "Syntax error: too deeply nested"
  | fuel + 1 => do
    match ← rest with
    | [] => throw "Syntax error: Missing '\x7d'"
    | '\x7d' :: _ => do
      skip 1
      return acc.reverse
    | c :: _ =>
      -- Between double quotes an apostrophe quotes nothing.
      if quoted && c = '\'' then do
        skip 1
        bracedParts fuel lines quoted (.text [c] true :: acc)
      else do
        let parts ← wordParts fuel lines (fun c => c == '\x7d') []
        match parts with
        | [] => do
          skip 1
          bracedParts fuel lines quoted (.text [c] quoted :: acc)
        | _ => bracedParts fuel lines quoted (parts.reverse ++ acc)

/-- The parts of an expression up to its two closing parentheses, which are taken; nothing when they
do not stand together. -/
def expressionParts (fuel : Nat) (lines : Nat) (depth : Nat) (acc : List Part) :
    Reading (Option (List Part)) :=
  match fuel with
  | 0 => throw "Syntax error: too deeply nested"
  | fuel + 1 => do
    match ← rest with
    | [] => throw "Syntax error: Missing '))'"
    | ')' :: more =>
      if depth = 0 then
        match more with
        | ')' :: _ => do
          skip 2
          return some acc.reverse
        | _ => return none
      else do
        skip 1
        expressionParts fuel lines (depth - 1) (.text [')'] true :: acc)
    | '(' :: _ => do
      skip 1
      expressionParts fuel lines (depth + 1) (.text ['('] true :: acc)
    | '$' :: _ => do
      let part ← dollar fuel lines true
      expressionParts fuel lines depth (part :: acc)
    | '\x60' :: _ => do
      let part ← backquote fuel lines true
      expressionParts fuel lines depth (part :: acc)
    | c :: _ => do
      skip 1
      expressionParts fuel lines depth (.text [c] true :: acc)

/-- The parts of a word, up to a character that ends it. -/
def wordParts (fuel : Nat) (lines : Nat) (ends : Char → Bool) (acc : List Part) :
    Reading (List Part) :=
  match fuel with
  | 0 => throw "Syntax error: too deeply nested"
  | fuel + 1 => do
    match ← rest with
    | [] => return acc.reverse
    | '\'' :: more =>
      match Text.splitOnce '\'' more with
      | none => throw "Syntax error: Unterminated quoted string"
      | some (cs, after) => do
        set after
        wordParts fuel lines ends (.quotes [.text cs true] :: acc)
    | '"' :: _ => do
      skip 1
      let parts ← quotedParts fuel lines []
      wordParts fuel lines ends (.quotes parts :: acc)
    | '\\' :: '\n' :: _ => do
      skip 2
      wordParts fuel lines ends acc
    | '\\' :: c :: _ => do
      skip 2
      wordParts fuel lines ends (.text [c] true :: acc)
    | '$' :: _ => do
      let part ← dollar fuel lines false
      wordParts fuel lines ends (part :: acc)
    | '\x60' :: _ => do
      let part ← backquote fuel lines false
      wordParts fuel lines ends (part :: acc)
    | c :: _ =>
      if ends c then return acc.reverse
      -- A backslash that comes here is the last character of the script.
      else if c = '\\' then do
        skip 1
        wordParts fuel lines ends (.text ['\\'] true :: acc)
      else do
        let cs ← takeWhile fun c =>
          !ends c && c != '\'' && c != '"' && c != '\\' && c != '$' && c != '\x60'
        wordParts fuel lines ends (.text cs false :: acc)

/-- A redirection, if one comes next. -/
def redirect (fuel : Nat) (lines : Nat) : Reading (Option Redirect) :=
  match fuel with
  | 0 => throw "Syntax error: too deeply nested"
  | fuel + 1 => do
    let start ← rest
    let ds := start.takeWhile Char.isDigit
    let number (standard : Nat) : Nat :=
      if ds.isEmpty then standard else ds.foldl (fun n c => n * 10 + (c.toNat - 48)) 0
    let target (descriptor : Nat) (kind : Redirection) (length : Nat) : Reading (Option Redirect) := do
      skip (ds.length + length)
      blanks
      let word ← wordParts fuel lines endsWord []
      if word.isEmpty then unexpected none
      return some (.mk descriptor kind word)
    match start.drop ds.length with
    | '>' :: '>' :: _ => target (number 1) .append 2
    | '>' :: '&' :: _ => target (number 1) .duplicate 2
    | '>' :: '|' :: _ => target (number 1) .write 2
    | '>' :: _ => target (number 1) .write 1
    | '<' :: '<' :: more => do
      let dropTabs := more.head? == some '-'
      skip (ds.length + (if dropTabs then 3 else 2))
      blanks
      let delimiter ← takeWhile fun c => !endsWord c
      let isQuoted := delimiter.any fun c => c == '\'' || c == '"' || c == '\\'
      let delimiter := delimiter.filter fun c => c != '\'' && c != '"' && c != '\\'
      let body ← takeHereText dropTabs delimiter
      -- The text is taken as it is if its delimiter is quoted, and else as between double quotes.
      if isQuoted then return some (.mk (number 0) .text [.text body true])
      else do
        let after ← rest
        set (body ++ ['"'])
        let parts ← quotedParts fuel lines []
        set after
        return some (.mk (number 0) .text parts)
    | '<' :: '&' :: _ => target (number 0) .duplicate 2
    | '<' :: _ => target (number 0) .read 1
    | _ => return none

/-- The redirections that come next. -/
def redirects (fuel : Nat) (lines : Nat) (acc : List Redirect) : Reading (List Redirect) :=
  match fuel with
  | 0 => throw "Syntax error: too deeply nested"
  | fuel + 1 => do
    blanks
    match ← redirect fuel lines with
    | some r => redirects fuel lines (r :: acc)
    | none => return acc.reverse

/-- The rest of a simple command. -/
def simple (fuel : Nat) (lines : Nat) (line : Nat) (assignments : List (List Char × Word))
    (words : List Word) (rs : List Redirect) : Reading Command :=
  match fuel with
  | 0 => throw "Syntax error: too deeply nested"
  | fuel + 1 => do
    blanks
    match ← redirect fuel lines with
    | some r => simple fuel lines line assignments words (r :: rs)
    | none => do
      let cs ← rest
      let name := cs.takeWhile isNamePart
      -- Behind the first word of a command there are no assignments any more.
      if words.isEmpty && isName name && (cs.drop name.length).head? == some '=' then do
        skip (name.length + 1)
        let word ← wordParts fuel lines endsWord []
        simple fuel lines line ((name, word) :: assignments) words rs
      else do
        let word ← wordParts fuel lines endsWord []
        if word.isEmpty then
          return .simple line assignments.reverse words.reverse rs.reverse
        else simple fuel lines line assignments (word :: words) rs

/-- The words of a for loop, up to the end of its line. -/
def eachWords (fuel : Nat) (lines : Nat) (acc : List Word) : Reading (List Word) :=
  match fuel with
  | 0 => throw "Syntax error: too deeply nested"
  | fuel + 1 => do
    blanks
    let word ← wordParts fuel lines endsWord []
    if word.isEmpty then return acc.reverse else eachWords fuel lines (word :: acc)

/-- The patterns of a branch, up to the closing parenthesis, which is taken. -/
def patterns (fuel : Nat) (lines : Nat) (acc : List Word) : Reading (List Word) :=
  match fuel with
  | 0 => throw "Syntax error: too deeply nested"
  | fuel + 1 => do
    blanks
    let word ← wordParts fuel lines endsWord []
    blanks
    if ← accept ['|'] then patterns fuel lines (word :: acc)
    else if ← accept [')'] then return (word :: acc).reverse
    else unexpected (some ")")

/-- The branches of a case, up to its end, which is taken. -/
def branchesOf (fuel : Nat) (lines : Nat) (acc : List (List Word × Command)) :
    Reading (List (List Word × Command)) :=
  match fuel with
  | 0 => throw "Syntax error: too deeply nested"
  | fuel + 1 => do
    blankLines fuel
    if (← reservedNext) == some "esac" then do
      skip 4
      return acc.reverse
    else do
      let _ ← accept ['(']
      let ps ← patterns fuel lines []
      let body ← listOf fuel lines []
      blankLines fuel
      if ← accept [';', ';'] then branchesOf fuel lines ((ps, body) :: acc)
      else do
        expectWord "esac"
        return ((ps, body) :: acc).reverse

/-- What follows a condition: the body, and the commands for when it fails. -/
def afterIf (fuel : Nat) (lines : Nat) : Reading Command :=
  match fuel with
  | 0 => throw "Syntax error: too deeply nested"
  | fuel + 1 => do
    let condition ← listOf fuel lines []
    expectWord "then"
    let body ← listOf fuel lines []
    match ← reservedNext with
    | some "elif" => do
      skip 4
      return .choice condition body (← afterIf fuel lines)
    | some "else" => do
      skip 4
      let otherwise ← listOf fuel lines []
      expectWord "fi"
      return .choice condition body otherwise
    | _ => do
      expectWord "fi"
      return .choice condition body .nothing

/-- The body of a loop. -/
def loopBody (fuel : Nat) (lines : Nat) : Reading Command :=
  match fuel with
  | 0 => throw "Syntax error: too deeply nested"
  | fuel + 1 => do
    expectWord "do"
    let body ← listOf fuel lines []
    expectWord "done"
    return body

/-- A command without redirections after it. -/
def bareCommand (fuel : Nat) (lines : Nat) : Reading Command :=
  match fuel with
  | 0 => throw "Syntax error: too deeply nested"
  | fuel + 1 => do
    blanks
    let line := 1 + (lines - (← rest).count '\n')
    match ← reservedNext with
    | some "if" => do
      skip 2
      afterIf fuel lines
    | some "while" => do
      skip 5
      let condition ← listOf fuel lines []
      return .loop false condition (← loopBody fuel lines)
    | some "until" => do
      skip 5
      let condition ← listOf fuel lines []
      return .loop true condition (← loopBody fuel lines)
    | some "for" => do
      skip 3
      blanks
      let name ← takeWhile isNamePart
      if !isName name then throw "Syntax error: Bad for loop variable"
      blankLines fuel
      -- Without words the loop runs over the arguments.
      let words ← if (← reservedNext) == some "in" then do
          skip 2
          pure (some (← eachWords fuel lines []))
        else pure none
      blanks
      let _ ← accept [';']
      blankLines fuel
      return .each name words (← loopBody fuel lines)
    | some "case" => do
      skip 4
      blanks
      let word ← wordParts fuel lines endsWord []
      blankLines fuel
      expectWord "in"
      return .cases word (← branchesOf fuel lines [])
    | some "\x7b" => do
      skip 1
      let body ← listOf fuel lines []
      expectWord "\x7d"
      return body
    | some "!" => do
      skip 1
      return .negated (← bareCommand fuel lines)
    | some _ => unexpected none
    | none => do
      if ← accept ['('] then do
        let body ← listOf fuel lines []
        if !(← accept [')']) then unexpected (some ")")
        return .subshell body
      else do
        let cs ← rest
        let name := cs.takeWhile isNamePart
        let afterName := dropBlanks (cs.drop name.length)
        -- A name in front of an empty pair of parentheses starts a function.
        if isName name && afterName.head? == some '(' &&
            (dropBlanks (afterName.drop 1)).head? == some ')' then do
          set ((dropBlanks (afterName.drop 1)).drop 1)
          blankLines fuel
          return .function name (← command fuel lines)
        else
          match cs with
          | [] => unexpected none
          | c :: _ =>
            if endsWord c && c != '<' && c != '>' then unexpected none
            else simple fuel lines line [] [] []

/-- A command with the redirections after it. -/
def command (fuel : Nat) (lines : Nat) : Reading Command :=
  match fuel with
  | 0 => throw "Syntax error: too deeply nested"
  | fuel + 1 => do
    let line := 1 + (lines - (← rest).count '\n')
    let c ← bareCommand fuel lines
    match ← redirects fuel lines [] with
    | [] => return c
    | rs => return .redirected line c rs

/-- The further stages of a pipeline. -/
def stages (fuel : Nat) (lines : Nat) (acc : List Command) : Reading Command :=
  match fuel with
  | 0 => throw "Syntax error: too deeply nested"
  | fuel + 1 => do
    blanks
    match ← rest with
    | '|' :: '|' :: _ | [] => finish acc
    | '|' :: _ => do
      skip 1
      blankLines fuel
      stages fuel lines ((← command fuel lines) :: acc)
    | _ => finish acc
where
  /-- A pipeline of one stage is that stage. -/
  finish : List Command → Reading Command
    | [c] => return c
    | acc => return .pipeline acc.reverse

/-- A pipeline. -/
def pipeline (fuel : Nat) (lines : Nat) : Reading Command :=
  match fuel with
  | 0 => throw "Syntax error: too deeply nested"
  | fuel + 1 => do
    blanks
    if (← reservedNext) == some "!" then do
      skip 1
      return .negated (← pipeline fuel lines)
    else do stages fuel lines [← command fuel lines]

/-- The further pipelines of a chain. -/
def chain (fuel : Nat) (lines : Nat) (c : Command) : Reading Command :=
  match fuel with
  | 0 => throw "Syntax error: too deeply nested"
  | fuel + 1 => do
    blanks
    if ← accept ['&', '&'] then do
      blankLines fuel
      chain fuel lines (.andThen c (← pipeline fuel lines))
    else if ← accept ['|', '|'] then do
      blankLines fuel
      chain fuel lines (.orElse c (← pipeline fuel lines))
    else return c

/-- The commands up to the end of a construct. -/
def listOf (fuel : Nat) (lines : Nat) (acc : List Command) : Reading Command :=
  match fuel with
  | 0 => throw "Syntax error: too deeply nested"
  | fuel + 1 => do
    blankLines fuel
    let cs ← rest
    let isClosed := match cs with
      | [] | ')' :: _ | ';' :: ';' :: _ => true
      | _ => false
    if isClosed || (← reservedNext).any closers.contains then return .sequence acc.reverse
    else do
      let c ← chain fuel lines (← pipeline fuel lines)
      blanks
      match ← rest with
      | ';' :: ';' :: _ => return .sequence (c :: acc).reverse
      | ';' :: _ => do
        skip 1
        listOf fuel lines (c :: acc)
      | '&' :: _ => do
        skip 1
        listOf fuel lines (.background c :: acc)
      | '\n' :: _ => listOf fuel lines (c :: acc)
      | _ => return .sequence (c :: acc).reverse

end

/-- The commands of the next line, up to its end, which is taken. -/
def line (fuel : Nat) (lines : Nat) (acc : List Command) : Reading Command :=
  match fuel with
  | 0 => throw "Syntax error: too deeply nested"
  | fuel + 1 => do
    blanks
    match ← rest with
    | [] => return .sequence acc.reverse
    | '\n' :: _ => do
      skip 1
      return .sequence acc.reverse
    | _ => do
      let c ← chain fuel lines (← pipeline fuel lines)
      blanks
      match ← rest with
      | [] => return .sequence (c :: acc).reverse
      | '\n' :: _ => do
        skip 1
        return .sequence (c :: acc).reverse
      | ';' :: ';' :: _ => unexpected none
      | ';' :: _ => do
        skip 1
        line fuel lines (c :: acc)
      | '&' :: _ => do
        skip 1
        line fuel lines (.background c :: acc)
      | _ => unexpected none

end Stencil.Shell
