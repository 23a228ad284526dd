import Stencil.Shell.Expansion

/-!
# Running shell scripts

Commands are worked off with their expansions and redirections.  The fuel bounds the depth to which
commands and programs are nested; a loop that is repeated too often, or a script nested too deeply,
counts as running for ever.

A program is a utility, a shell, or a file whose first line names the program that runs it.
-/

namespace Stencil.Shell

open Doing

/-- How often a loop is repeated before it counts as running for ever. -/
def roundLimit : Nat := 200000

/-- How deeply commands and programs can be nested. -/
def depthLimit : Nat := 2000

/-- The characters at which expansions are split. -/
def separators (s : Session) : List Char := (valueOf? s "IFS".toList).getD [' ', '\t', '\n']

/-- Sets the status. -/
def setStatus (status : Nat) : Doing Unit := modify fun s => { s with status := status }

/-- Does something with variables for programs set, which are as before afterwards. -/
def withAssignments (assignments : List (List Char × List Char)) (act : Doing Unit) : Doing Unit := do
  if assignments.isEmpty then act
  else do
    let before := (← get).settings
    modify fun s => assignments.foldl (fun s (name, value) => assign s name value true) s
    act
    modify fun s => { s with settings := before }

/-- Whether a redirection gives something else to read. -/
def givesInput : Redirect → Bool
  | .mk _ .read _ | .mk _ .text _ => true
  | _ => false

/-- Does something with redirections, which are as before afterwards.  What has been read stays
read, unless it was something else that was given to read. -/
def restoring (redirects : List Redirect) (act : Doing Unit) : Doing Unit := fun s =>
  let restore (inner : Session) : Session := { inner with
    descriptors := s.descriptors
    input := if redirects.any givesInput then s.input else inner.input }
  match act s with
  | .ok a inner => .ok a (restore inner)
  | .error e inner => .error e (restore inner)

/-- Does something whose failure is looked at. -/
def asCondition (act : Doing Unit) : Doing Unit := do
  let before := (← get).inCondition
  modify fun s => { s with inCondition := true }
  act
  modify fun s => { s with inCondition := before }

/-- Ends the shell if a failing command does so. -/
def checkFailure : Doing Unit := do
  let s ← get
  if s.stopsOnFailure && !s.inCondition && s.status ≠ 0 then throw (.exit s.status)

/-- Opens a file for a redirection, and points a descriptor to it; a failure gives the message. -/
def openFile (descriptor : Nat) (kind : Redirection) (target : List Char) :
    Doing (Option (List Char)) := do
  let s ← get
  let filePath := path s target
  match kind with
  | .read =>
    match s.files.find filePath with
    | .ok .zeros => do
      modify fun s => { s with input := .zeros }
      return none
    | .ok _ =>
      match s.files.read filePath with
      | .ok content => do
        modify fun s => { s with input := .content content }
        return none
      | .error _ => return none
    | .error _ => return some ("cannot open ".toList ++ target ++ ": No such file".toList)
  | _ =>
    -- The file is made, or emptied unless it is appended to, before anything is written.
    let old := match s.files.read filePath with
      | .ok content => content
      | .error _ => .empty
    match s.files.write filePath (if kind = .append then old else .empty) with
    | .error .isDirectory => return some ("cannot create ".toList ++ target ++ ": Is a directory".toList)
    | .error .denied => return some ("cannot create ".toList ++ target ++ ": Permission denied".toList)
    | .error _ => return some ("cannot create ".toList ++ target ++ ": Directory nonexistent".toList)
    | .ok files => do
      let channel := match files.locate filePath with
        | .ok key => match files.get? key with
          | some (.file _ _) => Channel.file key
          | _ => .nowhere
        | .error _ => .nowhere
      modify fun s => { s with
        files := files
        descriptors := (descriptor, channel) :: s.descriptors.filter (·.1 != descriptor) }
      return none

/-- Makes a descriptor the same as another; a failure gives the message. -/
def duplicate (descriptor : Nat) (target : List Char) : Doing (Option (List Char)) := do
  let others := (← get).descriptors.filter (·.1 != descriptor)
  if target = ['-'] then do
    modify fun s => { s with descriptors := others }
    return none
  else match (← get).descriptors.lookup (leadingNumber target) with
    | some channel => do
      modify fun s => { s with descriptors := (descriptor, channel) :: others }
      return none
    | none =>
      if leadingNumber target = 0 then return none
      else return some (target ++ ": Bad file descriptor".toList)

/-- Redirects a descriptor; a failure gives the message. -/
def redirectTo (descriptor : Nat) (kind : Redirection) (target : List Char) :
    Doing (Option (List Char)) :=
  match kind with
  | .text => do
    modify fun s => { s with input := .content (bytes target) }
    return none
  | .duplicate => duplicate descriptor target
  | _ =>
    if target = "/dev/stderr".toList then duplicate descriptor ['2']
    else if target = "/dev/stdout".toList then duplicate descriptor ['1']
    else openFile descriptor kind target

/-- The next line of what there is to read, and what follows it. -/
def nextLine (content : ByteArray) : Option (List Char) × ByteArray :=
  if content.isEmpty then (none, content)
  else
    let line := ofBytes content |>.takeWhile (· ≠ '\n')
    (some line, content.extract (line.length + 1) content.size)

/-- The values of variables that are read from a line. -/
def splitLine (seps : List Char) : List (List Char) → List Char → List (List Char × List Char)
  | [], _ => []
  -- The last name takes the rest of the line.
  | [name], line =>
    [(name, ((line.dropWhile seps.contains).reverse.dropWhile seps.contains).reverse)]
  | name :: names, line =>
    let line := line.dropWhile seps.contains
    (name, line.takeWhile (!seps.contains ·)) ::
      splitLine seps names ((line.dropWhile (!seps.contains ·)).drop 1)

/-- The number of a signal. -/
def signalNumber (cs : List Char) : Nat :=
  if cs.all Char.isDigit then leadingNumber cs
  else
    let name := if "SIG".toList.isPrefixOf cs then cs.drop 3 else cs
    (([("HUP", 1), ("INT", 2), ("QUIT", 3), ("ABRT", 6), ("KILL", 9), ("USR1", 10), ("SEGV", 11),
      ("USR2", 12), ("PIPE", 13), ("ALRM", 14), ("TERM", 15)] : List (String × Nat)).lookup
        (.ofList name)).getD 15

/-- Changes the settings of the shell as `set` does. -/
def applySettings (s : Session) : List (List Char) → Session
  | [] => s
  | ['-', '-'] :: rest => { s with arguments := rest }
  | ['-', 'o'] :: _ :: rest | ['+', 'o'] :: _ :: rest => applySettings s rest
  | ('-' :: flags) :: rest =>
    applySettings { s with
      stopsOnFailure := s.stopsOnFailure || flags.contains 'e'
      needsVariables := s.needsVariables || flags.contains 'u' } rest
  | ('+' :: flags) :: rest =>
    applySettings { s with
      stopsOnFailure := s.stopsOnFailure && !flags.contains 'e'
      needsVariables := s.needsVariables && !flags.contains 'u' } rest
  | arguments => { s with arguments := arguments }

/-- A name with its value, if there is one. -/
def splitAssignment (cs : List Char) : List Char × Option (List Char) :=
  match Text.splitOnce '=' cs with
  | some (name, value) => (name, some value)
  | none => (cs, none)

/-- The commands of the shell that need nothing but what it keeps. -/
def simpleBuiltin? (name : List Char) (arguments : List (List Char)) : Option (Doing Unit) :=
  let number (standard : Nat) : Nat := (arguments.head?.map leadingNumber).getD standard
  match String.ofList name with
  | ":" | "true" => some (setStatus 0)
  | "false" => some (setStatus 1)
  | "echo" => some do
    write 1 (bytes (echoText (← get).echoEscapes arguments))
    setStatus 0
  | "printf" => some do
    match arguments with
    | [] => fatal "printf: usage: printf format [arg ...]".toList
    | format :: arguments =>
      let (cs, bad) := printfText (!(← get).echoEscapes) format arguments
      write 1 (bytes cs)
      for b in bad do complain (("printf: " : String).toList ++ b.message)
      setStatus (if bad.isEmpty then 0 else 1)
  | "test" | "[" => some do
    let words := if name = ['['] then arguments.dropLast else arguments
    let s ← get
    if name = ['['] && arguments.getLast? ≠ some [']'] then do
      complain "[: missing ]".toList
      setStatus 2
    else match testWords (Utility.testView s.files s.directory) words with
    | .ok b => setStatus (if b then 0 else 1)
    | .error w => do
      complain (name ++ ": Illegal number: ".toList ++ w)
      setStatus 2
  | "exit" => some do
    match arguments with
    | a :: _ =>
      if a.all Char.isDigit then throw (.exit (number 0 % 256))
      else fatal ("exit: Illegal number: ".toList ++ a)
    | [] => throw (.exit (← get).status)
  | "return" => some do throw (.back (number (← get).status % 256))
  | "break" => some (throw (.leave (number 1)))
  | "continue" => some (throw (.again (number 1)))
  | "cd" => some do
    let s ← get
    let target := (arguments.head?).getD ((valueOf? s "HOME".toList).getD [])
    match s.files.locate (path s target) with
    | .ok key =>
      if s.files.isDirectoryKey key then do
        modify fun s => { s with directory := key }
        setStatus 0
      else do
        complain ("cd: can't cd to ".toList ++ target)
        setStatus 2
    | .error _ => do
      complain ("cd: can't cd to ".toList ++ target)
      setStatus 2
  | "pwd" => some do
    write 1 (bytes (octets (← get).directory ++ ['\n']))
    setStatus 0
  | "shift" => some do
    if (← get).arguments.length < number 1 then fatal "shift: can't shift that many".toList
    else do
      modify fun s => { s with arguments := s.arguments.drop (number 1) }
      setStatus 0
  | "set" => some do
    modify fun s => applySettings s arguments
    setStatus 0
  | "export" | "readonly" => some do
    for a in arguments do
      let (variableName, value) := splitAssignment a
      let before := valueOf? (← get) variableName
      match value <|> before with
      | some value =>
        if name = "export".toList then assignAll [(variableName, value)] true
        else do
          assignAll [(variableName, value)] false
          modify fun s => { s with settings := s.settings.map fun (n, v) =>
            (n, if n = variableName then { v with fixed := true } else v) }
      | none => pure ()
    setStatus 0
  | "local" => some do
    if (← get).outer.isNone then fatal "local: not in a function".toList
    else do
      for a in arguments do
        let (variableName, value) := splitAssignment a
        modify fun s => keepOuter s variableName
        if let some value := value then assignAll [(variableName, value)] false
      setStatus 0
  | "unset" => some do
    modify fun s => { s with
      settings := s.settings.filter fun (n, _) => !arguments.contains n
      functions := s.functions.filter fun (n, _) =>
        !(arguments.contains n && arguments.contains "-f".toList) }
    setStatus 0
  | "read" => some do
    let names := arguments.filter fun a => a.head? != some '-'
    let s ← get
    match nextLine s.input.all with
    | (none, _) => do
      modify fun s => names.foldl (fun s n => assign s n [] false) s
      setStatus 1
    | (some line, rest) => do
      modify fun s => { s with input := .content rest }
      assignAll (splitLine (separators s) names line) false
      setStatus 0
  | "kill" => some do
    let (signal, targets) := match arguments with
      | ['-', 's'] :: n :: rest => (signalNumber n, rest)
      | ('-' :: n) :: rest => (signalNumber n, rest)
      | rest => (15, rest)
    -- The only process there is is the shell's own, whose number is that of `$$`.
    if targets.contains "4242".toList then
      if signal = 0 then setStatus 0 else throw (.killed signal)
    else do
      complain "kill: No such process".toList
      setStatus 1
  -- What was put in the background has run; only its time is still to pass.
  | "wait" => some do
    modify fun s => { s with elapsed := max s.elapsed s.pending }
    setStatus 0
  | "trap" => some do
    match arguments with
    | action :: conditions =>
      -- Nothing but the end of the shell is ever trapped.
      if conditions.any fun c => c = ['0'] || c = "EXIT".toList then
        modify fun s => { s with atExit := some action }
    | [] => pure ()
    setStatus 0
  | "umask" => some do
    if arguments.isEmpty then write 1 (bytes "0022\n".toList)
    setStatus 0
  | "times" | "hash" | "alias" | "unalias" => some (setStatus 0)
  | _ => none

/-- The names of the commands that the shell works off with others. -/
def otherBuiltins : List String := ["eval", "exec", "command", "type", "."]

/-- Whether a name is that of a command of the shell. -/
def isBuiltin (name : List Char) : Bool :=
  (simpleBuiltin? name []).isSome || otherBuiltins.contains (.ofList name)

/-- Whether a utility reads the standard input. -/
def readsInput (name : String) (arguments : List (List Char)) : Bool :=
  let operands := arguments.filter fun a => a.head? != some '-' || a = ['-']
  if ["tr", "tee"].contains name then true
  else if ["sed", "grep"].contains name then operands.length ≤ 1
  else ["cat", "head", "tail", "wc", "sort", "uniq", "rev", "tac", "cut"].contains name &&
    (operands.isEmpty || operands.contains ['-'])

/-- Runs a utility. -/
def runUtility (utility : Utility) (programName : String) (name : List Char)
    (arguments : List (List Char)) : Doing Unit := do
  let s ← get
  let reply := utility
    { name := name, arguments := arguments, input := s.input, files := s.files
      directory := s.directory, environment := environment s, now := s.now }
  modify fun s => { s with
    files := reply.files
    elapsed := s.elapsed + reply.elapsed
    input := if readsInput programName arguments then .nothing else s.input }
  write 1 reply.output
  write 2 (bytes reply.errors)
  setStatus reply.status

/-- What the first line of a file names as the program that runs it, with an argument. -/
def interpreterOf? (content : ByteArray) : Option (List Char × List (List Char)) :=
  let line := ofBytes (content.extract 0 256) |>.takeWhile (· ≠ '\n')
  match line with
  | '#' :: '!' :: rest =>
    let rest := rest.dropWhile fun c => c == ' ' || c == '\t'
    let program := rest.takeWhile fun c => c != ' ' && c != '\t'
    let argument := (rest.drop program.length).dropWhile fun c => c == ' ' || c == '\t'
    let argument := (argument.reverse.dropWhile fun c => c == ' ' || c == '\t').reverse
    some (program, if argument.isEmpty then [] else [argument])
  | _ => none

/-- How a shell is called. -/
structure Call where
  /-- The script, if it is given. -/
  script : Option (List Char)
  /-- The path of the script, if that is given. -/
  file : Option (List Char)
  /-- The flags. -/
  flags : List Char
  /-- The name it goes by, if that is given. -/
  name : Option (List Char)
  /-- The arguments. -/
  arguments : List (List Char)

/-- How a shell is called with arguments. -/
def callOf (flags : List Char) : List (List Char) → Call
  | [] => ⟨none, none, flags, none, []⟩
  | ('-' :: c :: more) :: rest => callOf (flags ++ c :: more) rest
  | operand :: rest =>
    if flags.contains 'c' then ⟨some operand, none, flags, rest.head?, rest.drop 1⟩
    else ⟨none, some operand, flags, some operand, rest⟩

/-- Runs a program as a process of its own, whose status tells which signal has ended it.  The
process that everything else runs in is ended itself. -/
def asProcess (act : Doing Nat) : Doing Nat := fun s =>
  match act { s with depth := s.depth + 1 } with
  | .ok status inner => .ok status { inner with depth := s.depth }
  | .error (.killed signal) inner =>
    if s.depth = 0 then .error (.killed signal) inner
    else .ok (128 + signal) { s with
      files := inner.files, elapsed := inner.elapsed, pending := inner.pending }
  | .error e inner => .error e inner

/-- Drops line ends at the end. -/
def dropLineEnds (cs : List Char) : List Char := (cs.reverse.dropWhile (· = '\n')).reverse

/-- Variables as arithmetic sees them. -/
def arithmeticVariables : Arithmetic.Variables Session where
  look s name := (parameter? s name).getD []
  put s name value := assign s name value false

mutual

/-- The value of a part of a word. -/
def expandPart (fuel : Nat) (part : Part) : Doing (List Expanded) :=
  match fuel with
  | 0 => throw .endless
  | fuel + 1 => do
    match part with
    | .text cs isQuoted => return cs.map (.character · isQuoted)
    | .quotes parts => do
      let es ← expandParts fuel parts
      -- only the arguments, when there are none, leave nothing at all
      let isArguments := parts.any fun
        | .parameter ['@'] _ _ _ => true
        | _ => false
      return if es.isEmpty && isArguments then [] else .mark :: es
    | .output body isQuoted => do
      let (status, out) ← captured (apart (run fuel body))
      setStatus status
      return Expanded.value isQuoted (separators (← get)) (dropLineEnds (ofBytes out))
    | .arithmetic expression isQuoted => do
      let text := unmarked (Expanded.whole (← expandParts fuel expression))
      match Arithmetic.read text >>= Arithmetic.eval arithmeticVariables (← get) with
      | .ok (n, s) => do
        set s
        return Expanded.value isQuoted (separators s) (toString n).toList
      | .error fault => fatal (octets (fault.message text))
    | .parameter name modifier word isQuoted => expandParameter fuel name modifier word isQuoted

/-- The value of a parameter. -/
def expandParameter (fuel : Nat) (name : List Char) (modifier : Modifier) (word : Word)
    (isQuoted : Bool) : Doing (List Expanded) :=
  match fuel with
  | 0 => throw .endless
  | fuel + 1 => do
    let s ← get
    let seps := separators s
    let found := parameter? s name
    let isThere (orEmpty : Bool) : Bool := found.any fun v => !orEmpty || !v.isEmpty
    let itself : List Expanded :=
      if name = ['@'] || (name = ['*'] && !isQuoted) then Expanded.values isQuoted seps s.arguments
      else if name = ['*'] then
        Expanded.quoted ((s.arguments.intersperse (seps.take 1)).flatten)
      else Expanded.value isQuoted seps (found.getD [])
    let other : Doing (List Expanded) := do
      let es ← expandParts fuel word
      return if isQuoted then Expanded.quoted (unmarked (Expanded.whole es)) else es
    match modifier with
    | .plain =>
      if found.isNone && s.needsVariables && name ≠ ['@'] && name ≠ ['*'] then
        fatal (name ++ ": parameter not set".toList)
      else return itself
    | .length =>
      let n := if name = ['@'] || name = ['*'] then s.arguments.length else (found.getD []).length
      return Expanded.value isQuoted seps (toString n).toList
    | .orElse orEmpty => if isThere orEmpty then return itself else other
    | .replacing orEmpty => if isThere orEmpty then other else return []
    | .orAssign orEmpty =>
      if isThere orEmpty then return itself
      else do
        let value := unmarked (Expanded.whole (← expandParts fuel word))
        modify fun s => assign s name value false
        return Expanded.value isQuoted seps value
    | .orFail orEmpty =>
      if isThere orEmpty then return itself
      else do
        let message := unmarked (Expanded.whole (← expandParts fuel word))
        let standard := if orEmpty then "parameter not set or null" else "parameter not set"
        fatal (name ++ ": ".toList ++ (if message.isEmpty then standard.toList else message))
    | .dropStart longest => do
      -- What is quoted in the pattern stands for itself.
      let p := pattern (Expanded.whole (← expandParts fuel word))
      return Expanded.value isQuoted seps (dropStart longest p (found.getD []))
    | .dropEnd longest => do
      let p := pattern (Expanded.whole (← expandParts fuel word))
      return Expanded.value isQuoted seps (dropEnd longest p (found.getD []))

/-- The value of the parts of a word. -/
def expandParts (fuel : Nat) (parts : List Part) : Doing (List Expanded) :=
  match fuel with
  | 0 => throw .endless
  | fuel + 1 => do
    match parts with
    | [] => return []
    | part :: rest => do
      let first ← expandPart fuel part
      return first ++ (← expandParts fuel rest)

/-- The value of a word that is not split. -/
def expandText (fuel : Nat) (word : Word) : Doing (List Marked) :=
  match fuel with
  | 0 => throw .endless
  | fuel + 1 => do
    -- a tilde at the start stands for the home directory
    match word with
    | .text ('~' :: cs) false :: rest =>
      if cs.isEmpty || cs.head? == some '/' then do
        let home := (valueOf? (← get) "HOME".toList).getD ['~']
        return Expanded.whole (Expanded.quoted home ++ (← expandParts fuel (.text cs false :: rest)))
      else return Expanded.whole (← expandParts fuel word)
    | _ => return Expanded.whole (← expandParts fuel word)

/-- The fields of words. -/
def expandFields (fuel : Nat) (words : List Word) : Doing (List (List Char)) :=
  match fuel with
  | 0 => throw .endless
  | fuel + 1 => do
    match words with
    | [] => return []
    | word :: rest => do
      let es ← match word with
        -- The home directory that a tilde stands for is not split.
        | .text ('~' :: _) false :: _ => do
          pure ((← expandText fuel word).map fun (c, isQuoted) => Expanded.character c isQuoted)
        | _ => expandParts fuel word
      let s ← get
      let first := (Expanded.fields none es).flatMap (fieldNames s)
      return first ++ (← expandFields fuel rest)

/-- Applies redirections; whether all could be. -/
def applyRedirects (fuel : Nat) (rs : List Redirect) : Doing Bool :=
  match fuel with
  | 0 => throw .endless
  | fuel + 1 => do
    match rs with
    | [] => return true
    | .mk descriptor kind word :: rest => do
      let target := unmarked (← expandText fuel word)
      match ← redirectTo descriptor kind target with
      | none => applyRedirects fuel rest
      | some message => do
        complain message
        setStatus 2
        return false

/-- Runs a command. -/
def run (fuel : Nat) (c : Command) : Doing Unit :=
  match fuel with
  | 0 => throw .endless
  | fuel + 1 =>
    match c with
    | .simple line assignments words redirects => do
      modify fun s => { s with line := line }
      runSimple fuel assignments words redirects
      checkFailure
    | .negated c => do
      asCondition (run fuel c)
      setStatus (if (← get).status = 0 then 1 else 0)
    | .pipeline stages => do
      runStages fuel stages (← get).elapsed
      checkFailure
    | .andThen a b => do
      asCondition (run fuel a)
      if (← get).status = 0 then run fuel b
    | .orElse a b => do
      asCondition (run fuel a)
      if (← get).status ≠ 0 then run fuel b
    | .sequence commands => runAll fuel commands
    | .background c => do
      let before := (← get).elapsed
      let input := (← get).input
      -- It runs at once, but its time is kept apart and waited for at the end.
      modify fun s => { s with input := .nothing }
      let _ ← apart (run fuel c)
      modify fun s => { s with
        pending := max s.pending s.elapsed, elapsed := before, input := input, status := 0 }
    | .choice condition body otherwise => do
      asCondition (run fuel condition)
      if (← get).status = 0 then run fuel body
      else do
        setStatus 0
        run fuel otherwise
    | .loop untilDone condition body => do
      setStatus 0
      repeatWhile (do
        let before := (← get).status
        asCondition (run fuel condition)
        if ((← get).status = 0) != untilDone then runBody fuel body
        else do
          -- The status of a loop is that of its body, not that of the condition that ends it.
          setStatus before
          return false) roundLimit
    | .each name words body => do
      let values ← match words with
        | some words => expandFields fuel words
        | none => pure (← get).arguments
      setStatus 0
      eachValue fuel name body values
    | .cases word branches => do
      let text := unmarked (← expandText fuel word)
      setStatus 0
      runBranch fuel text branches
    | .function name body => do
      modify fun s => { s with functions := (name, body) :: s.functions.filter (·.1 != name) }
      setStatus 0
    | .subshell body => do
      setStatus (← apart (run fuel body))
      checkFailure
    | .redirected line body redirects => restoring redirects do
      modify fun s => { s with line := line }
      if ← applyRedirects fuel redirects then run fuel body

/-- Runs commands one after the other. -/
def runAll (fuel : Nat) (commands : List Command) : Doing Unit :=
  match fuel with
  | 0 => throw .endless
  | fuel + 1 =>
    match commands with
    | [] => return ()
    | c :: rest => do
      run fuel c
      runAll fuel rest

/-- Runs the body of a loop; whether the loop goes on. -/
def runBody (fuel : Nat) (body : Command) : Doing Bool :=
  match fuel with
  | 0 => throw .endless
  | fuel + 1 => fun s =>
    match run fuel body s with
    | .ok _ s => .ok true s
    | .error (.leave n) s => if n ≤ 1 then .ok false s else .error (.leave (n - 1)) s
    | .error (.again n) s => if n ≤ 1 then .ok true s else .error (.again (n - 1)) s
    | .error e s => .error e s

/-- Runs the body of a loop for each value. -/
def eachValue (fuel : Nat) (name : List Char) (body : Command) (values : List (List Char)) :
    Doing Unit :=
  match fuel with
  | 0 => throw .endless
  | fuel + 1 =>
    match values with
    | [] => return ()
    | value :: rest => do
      modify fun s => assign s name value false
      if ← runBody fuel body then eachValue fuel name body rest

/-- Runs the first branch with a pattern that fits. -/
def runBranch (fuel : Nat) (text : List Char) (branches : List (List Word × Command)) : Doing Unit :=
  match fuel with
  | 0 => throw .endless
  | fuel + 1 =>
    match branches with
    | [] => return ()
    | (patterns, body) :: rest => do
      if ← fitsAny fuel text patterns then run fuel body
      else runBranch fuel text rest

/-- Whether a text fits one of several patterns. -/
def fitsAny (fuel : Nat) (text : List Char) (patterns : List Word) : Doing Bool :=
  match fuel with
  | 0 => throw .endless
  | fuel + 1 =>
    match patterns with
    | [] => return false
    | word :: rest => do
      if fits (pattern (← expandText fuel word)) text then return true
      else fitsAny fuel text rest

/-- Runs the stages of a pipeline, which all start at one time. -/
def runStages (fuel : Nat) (stages : List Command) (start : Nat) : Doing Unit :=
  match fuel with
  | 0 => throw .endless
  | fuel + 1 =>
    match stages with
    | [] => return ()
    | [last] => do
      let before := (← get).elapsed
      let input := (← get).input
      -- The stages run at one time, so the longest of them counts.
      modify fun s => { s with elapsed := start }
      let status ← apart (run fuel last)
      modify fun s => { s with elapsed := max before s.elapsed, input := input, status := status }
    | stage :: rest => do
      let before := (← get).elapsed
      modify fun s => { s with elapsed := start }
      let (_, out) ← captured (apart (run fuel stage))
      let input := (← get).input
      modify fun s => { s with elapsed := max before s.elapsed, input := .content out }
      runStages fuel rest start
      modify fun s => { s with input := input }

/-- Runs a simple command. -/
def runSimple (fuel : Nat) (assignments : List (List Char × Word)) (words : List Word)
    (redirects : List Redirect) : Doing Unit :=
  match fuel with
  | 0 => throw .endless
  | fuel + 1 => do
    let fields ← expandFields fuel words
    match fields with
    | [] => do
      -- assignments alone change the shell; their status is that of the last output taken
      setStatus 0
      let values ← expandAssignments fuel assignments
      assignAll values false
      restoring redirects do
        let _ ← applyRedirects fuel redirects
    | name :: arguments =>
      -- Redirections of `exec` alone stay.
      if name = "exec".toList && arguments.isEmpty then do
        if ← applyRedirects fuel redirects then setStatus 0
      else restoring redirects do
        if ← applyRedirects fuel redirects then do
          let values ← expandAssignments fuel assignments
          runNamed fuel values name arguments

/-- The values of assignments. -/
def expandAssignments (fuel : Nat) (assignments : List (List Char × Word)) :
    Doing (List (List Char × List Char)) :=
  match fuel with
  | 0 => throw .endless
  | fuel + 1 => do
    match assignments with
    | [] => return []
    | (name, word) :: rest => do
      let value := unmarked (← expandText fuel word)
      -- The assignments behind one see its value.
      modify fun s => if rest.isEmpty then s else assign s name value false
      return (name, value) :: (← expandAssignments fuel rest)

/-- Runs what a name stands for: a function, a command of the shell, or a program. -/
def runNamed (fuel : Nat) (assignments : List (List Char × List Char)) (name : List Char)
    (arguments : List (List Char)) : Doing Unit :=
  match fuel with
  | 0 => throw .endless
  | fuel + 1 => do
    match (← get).functions.lookup name with
    | some body => do
      let before := (← get).arguments
      modify fun s => { s with arguments := arguments }
      callFunction fuel body
      modify fun s => { s with arguments := before }
    | none => runBuiltinOrProgram fuel assignments name arguments

/-- Runs the body of a function, whose own variables are then what they were before. -/
def callFunction (fuel : Nat) (body : Command) : Doing Unit :=
  match fuel with
  | 0 => throw .endless
  | fuel + 1 => fun s =>
    let leave (inner : Session) : Session := { inner with
      settings := giveBack inner.settings (inner.outer.getD []), outer := s.outer }
    match run fuel body { s with outer := some [] } with
    | .ok _ inner => .ok () (leave inner)
    | .error (.back status) inner => .ok () { leave inner with status := status }
    | .error e inner => .error e (leave inner)

/-- Runs a command of the shell, or a program. -/
def runBuiltinOrProgram (fuel : Nat) (assignments : List (List Char × List Char)) (name : List Char)
    (arguments : List (List Char)) : Doing Unit :=
  match fuel with
  | 0 => throw .endless
  | fuel + 1 => do
    match simpleBuiltin? name arguments with
    | some act => withAssignments assignments act
    | none =>
      match String.ofList name, arguments with
      | "eval", _ => runScript fuel (spaced arguments)
      -- The program takes the place of the shell, which ends with it.
      | "exec", program :: arguments => do
        modify fun s => { s with depth := s.depth - 1 }
        withAssignments assignments (runProgram fuel program arguments)
        throw (.exit (← get).status)
      | "command", ['-', 'v'] :: names => do
        setStatus 0
        for n in names do
          if isBuiltin n || (← get).functions.any (·.1 == n) then write 1 (bytes (n ++ ['\n']))
          else match findProgram (← get) n with
            | .at p _ => write 1 (bytes (p ++ ['\n']))
            | _ => setStatus notFoundStatus
      | "command", ['-', 'p'] :: program :: arguments | "command", program :: arguments =>
        runBuiltinOrProgram fuel assignments program arguments
      | "type", names => do
        setStatus 0
        for n in names do
          if isBuiltin n then write 1 (bytes (n ++ " is a shell builtin\n".toList))
          else match findProgram (← get) n with
            | .at p _ => write 1 (bytes (n ++ " is ".toList ++ p ++ ['\n']))
            | _ => do
              write 2 (bytes (n ++ ": not found\n".toList))
              setStatus notFoundStatus
      | ".", file :: _ => do
        let s ← get
        match s.files.read (path s file) with
        | .ok content => runScript fuel (ofBytes content)
        | .error _ => fatal (".: cannot open ".toList ++ file ++ ": No such file".toList)
      | "exec", [] | "command", [] | ".", [] => setStatus 0
      | _, _ => withAssignments assignments (runProgram fuel name arguments)

/-- Runs a program by its name. -/
def runProgram (fuel : Nat) (name : List Char) (arguments : List (List Char)) : Doing Unit :=
  match fuel with
  | 0 => throw .endless
  | fuel + 1 => do
    match findProgram (← get) name with
    | .at path entry => execute fuel name path entry arguments
    | .denied => do
      complain (name ++ ": Permission denied".toList)
      setStatus 126
    | .nowhere => do
      complain (name ++ ": not found".toList)
      setStatus notFoundStatus

/-- Runs a program that has been found. -/
def execute (fuel : Nat) (name path : List Char) (entry : Files.Entry)
    (arguments : List (List Char)) : Doing Unit :=
  match fuel with
  | 0 => throw .endless
  | fuel + 1 => do
    match entry with
    | .program program =>
      match shells.lookup program, utilities.lookup program with
      | some escapes, _ => runShell fuel escapes name arguments
      | none, some utility => runUtility utility program name arguments
      | none, none => runEnv fuel [] arguments
    | .file content _ =>
      match interpreterOf? content with
      | some (interpreter, given) => do
        match foundAt (← get) interpreter with
        | .at p e => execute fuel interpreter p e (given ++ path :: arguments)
        | _ => do
          complain (name ++ ": not found".toList)
          setStatus notFoundStatus
      -- A file that names no program is a script of the shell.
      | none => runShell fuel true path (path :: arguments)
    | _ => setStatus 126

/-- Runs a program with variables set. -/
def runEnv (fuel : Nat) (assignments : List (List Char × List Char)) (arguments : List (List Char)) :
    Doing Unit :=
  match fuel with
  | 0 => throw .endless
  | fuel + 1 => do
    match arguments with
    | [] => withAssignments assignments (runUtility Utility.printenv "env" "env".toList [])
    | ['-', 'i'] :: rest => do
      let before := (← get).settings
      modify fun s => { s with settings := [] }
      runEnv fuel assignments rest
      modify fun s => { s with settings := before }
    | a :: rest =>
      match splitAssignment a with
      | (name, some value) => runEnv fuel (assignments ++ [(name, value)]) rest
      | (program, none) => withAssignments assignments do
        match findProgram (← get) program with
        | .at path entry => execute fuel program path entry rest
        | .denied => do
          write 2 (bytes ("env: '".toList ++ program ++ "': Permission denied\n".toList))
          setStatus 126
        | .nowhere => do
          write 2 (bytes ("env: '".toList ++ program ++ "': No such file or directory\n".toList))
          setStatus notFoundStatus

/-- Runs a shell as a program of its own. -/
def runShell (fuel : Nat) (escapes : Bool) (name : List Char) (arguments : List (List Char)) :
    Doing Unit :=
  match fuel with
  | 0 => throw .endless
  | fuel + 1 => do
    let call := callOf [] arguments
    let s ← get
    let script : Except (List Char) (List Char) := match call.script, call.file with
      | some script, _ => .ok script
      | none, some file =>
        match s.files.read (path s file) with
        | .ok content => .ok (ofBytes content)
        | .error _ => .error file
      | none, none => .ok (ofBytes s.input.all)
    match script with
    | .error file => do
      write 2 (bytes (name ++ ": 0: cannot open ".toList ++ file ++ ": No such file\n".toList))
      setStatus 2
    | .ok script => do
      let status ← asProcess (apart do
        modify fun s => { s with
          name := call.name.getD name, arguments := call.arguments
          functions := [], outer := none, status := 0
          settings := s.settings.filter fun (_, v) => v.exported
          stopsOnFailure := call.flags.contains 'e', needsVariables := call.flags.contains 'u'
          inCondition := false, echoEscapes := escapes, line := 1
          input := if call.script.isSome || call.file.isSome then s.input else .nothing }
        runToEnd fuel script)
      setStatus status

/-- Runs a script, and then what is to be run at the end. -/
def runToEnd (fuel : Nat) (script : List Char) : Doing Unit :=
  match fuel with
  | 0 => throw .endless
  | fuel + 1 => fun s =>
    let finish (inner : Session) (status : Nat) : EStateM.Result Stop Session Unit :=
      match inner.atExit with
      | none => .ok () { inner with status := status }
      -- What is run at the end does not change the status, unless it ends the shell itself.
      | some action =>
        match runScript fuel action { inner with atExit := none, status := status } with
        | .ok _ inner => .ok () { inner with status := status }
        | other => other
    match runScript fuel script s with
    | .ok _ inner => finish inner inner.status
    | .error (.exit status) inner | .error (.back status) inner => finish inner status
    | .error e inner => .error e inner

/-- Runs the lines of a script. -/
def runScript (fuel : Nat) (script : List Char) : Doing Unit :=
  match fuel with
  | 0 => throw .endless
  | fuel + 1 => do
    let lines := script.count '\n'
    runLines fuel fuel lines script

/-- Runs the lines of a script one at a time; the count bounds their number. -/
def runLines (fuel : Nat) (count : Nat) (lines : Nat) (script : List Char) : Doing Unit :=
  match fuel with
  | 0 => throw .endless
  | fuel + 1 =>
    if script.isEmpty then return ()
    else do
      -- What stands before a line that cannot be read has been run by then.
      match line fuel lines [] script with
      | .ok c rest => do
        run fuel c
        runLines fuel count lines rest
      | .error reason rest => do
        modify fun s => { s with line := 1 + (lines - rest.count '\n') }
        fatal (octets reason)

end

/-! ## Programs of a machine -/

/-- The longest argument of a program, in bytes. -/
def argumentLimit : Nat := 131071

/-- The time of a program that runs for ever. -/
def forever : Nat := Nat.pow 10 15

/-- The shell in which a program is started. -/
def Session.start (env : Environment) (now : Moment) (files : Files.Tree) : Session where
  files := files
  directory := Files.here
  settings := env.entries.map fun (name, value) => (octets name, ⟨octets value, true, false⟩)
  functions := []
  outer := none
  name := []
  arguments := []
  status := 0
  buffers := #[.empty, .empty]
  descriptors := [(1, .buffer 0), (2, .buffer 1)]
  input := .nothing
  elapsed := 0
  pending := 0
  line := 1
  atExit := none
  stopsOnFailure := false
  inCondition := false
  needsVariables := false
  echoEscapes := true
  now := now
  depth := 0

/-- What a shell comes to when it has ended. -/
def Session.completed (s : Session) (code : Int) : Process.Completed where
  code := code
  output := s.buffers.getD 0 .empty
  errors := s.buffers.getD 1 .empty
  elapsed := max s.elapsed s.pending

/-- Why a program that has been found cannot be started, if it cannot. -/
def startFailure? (s : Session) : Files.Entry → Option Files.Failure
  | .program _ => none
  | .file content _ =>
    match interpreterOf? content with
    | some (interpreter, _) =>
      match foundAt s interpreter with
      | .at _ _ => none
      | .denied => some .denied
      | .nowhere => some .notFound
    | none => some .badFormat
  | _ => some .denied

/-- Runs programs: the utilities and shells of a machine, and files that name one of them. -/
def runner : Process.Runner := fun command env now files =>
  let texts := command.program :: command.arguments
  if texts.any fun t => t.toList.contains '\x00' then .error .nullInArgument
  else
    let s := Session.start env now files
    let name := octets command.program
    match findProgram s name with
    | .nowhere => .error .notFound
    | .denied => .error .denied
    | .at path entry =>
      match startFailure? s entry with
      | some e => .error e
      | none =>
        if command.arguments.any fun t => argumentLimit < t.utf8ByteSize then .error .argumentTooLong
        else match execute depthLimit name path entry (command.arguments.map octets) s with
          | .ok _ s => .ok (s.completed s.status, s.files)
          | .error (.killed _) s => .ok (s.completed (-1), s.files)
          | .error .endless s => .ok ({ s.completed (-1) with elapsed := forever }, s.files)
          | .error _ s => .ok (s.completed s.status, s.files)

end Stencil.Shell
