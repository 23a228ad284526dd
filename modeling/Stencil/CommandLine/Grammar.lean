/-!
# Command lines

A program takes options and then the name of a command, which takes options and words of its own.
An option is written after two dashes, or as a letter after one; letters that take no value can be
written together, and a value can be attached to its option.  After a lone pair of dashes all is
words.

A command line is read from left to right.  The value of an option is checked when the next option
or word comes, or at the end; so of two faults the first does not always win.
-/

namespace Stencil.CommandLine

/-- Why a command line is not carried out. -/
inductive Problem where
  /-- There is no such option, or no place for a word. -/
  | unknownArgument
  /-- There is no such command. -/
  | unknownCommand
  /-- An option is given twice, or together with something that excludes it. -/
  | conflict
  /-- A value is of the wrong form. -/
  | badValue
  /-- An option that takes a value has none. -/
  | missingValue
  /-- An option that takes no value has one. -/
  | unwantedValue
  /-- Something that is needed is not given. -/
  | missingArgument
  /-- No command is given. -/
  | missingCommand
  /-- Nothing is given. -/
  | nothingGiven
  /-- Help is asked for. -/
  | help
  /-- The version is asked for. -/
  | version
  deriving DecidableEq, Repr

/-! ## What can be given -/

/-- An option. -/
structure Flag where
  /-- Its name after two dashes. -/
  long : String
  /-- Its letter after one. -/
  short : Option Char
  /-- What is wrong with a value, if it takes one. -/
  check : Option (String → Option Problem)
  /-- Whether it can be given more than once. -/
  repeats : Bool

/-- What is read on one level. -/
structure Level where
  /-- The options. -/
  flags : List Flag
  /-- The names of the words, in order, and whether each is needed. -/
  words : List (String × Bool)
  /-- The options that are needed. -/
  needed : List String
  /-- What excludes each other. -/
  exclusive : List (String × String)
  /-- Whether the version can be asked for. -/
  versioned : Bool

/-- A value that can be anything. -/
def anyText : Option (String → Option Problem) := some fun _ => none

/-- A value that cannot be empty. -/
def path : Option (String → Option Problem) :=
  some fun s => if s.isEmpty then some .missingValue else none

/-- A value that a reader accepts. -/
def readBy {α : Type} (read? : String → Option α) : Option (String → Option Problem) :=
  some fun s => if (read? s).isSome then none else some .badValue

/-- The options of every level that ask for help. -/
def helpFlag : Flag := ⟨"help", some 'h', none, true⟩

/-- The options that ask for the version. -/
def versionFlag : Flag := ⟨"version", some 'V', none, true⟩

/-- The options of a level, those that ask for something included. -/
def Level.allFlags (l : Level) : List Flag :=
  l.flags ++ helpFlag :: (if l.versioned then [versionFlag] else [])

/-! ## Reading a level -/

/-- What has been given, under the name of its option or word, in order. -/
abbrev Given := List (String × String)

namespace Given

/-- The value of an option or word. -/
def value? (g : Given) (name : String) : Option String := g.lookup name

/-- The values of an option that can be given more than once. -/
def values (g : Given) (name : String) : List String :=
  (g.filter (·.1 == name)).map (·.2)

/-- Whether an option or word is given. -/
def has (g : Given) (name : String) : Bool := (g.lookup name).isSome

end Given

/-- A level that is being read. -/
structure Progress where
  /-- What has been given. -/
  given : Given
  /-- An option whose value has yet to come, or to be checked. -/
  pending : Option (Flag × Option String)
  /-- The number of words so far. -/
  words : Nat

namespace Progress

/-- Nothing has been given. -/
def start : Progress := ⟨[], none, 0⟩

/-- Adds an option. -/
def add (p : Progress) (f : Flag) (value : String) : Except Problem Progress :=
  if !f.repeats && p.given.has f.long then .error .conflict
  else match f.check.bind (· value) with
    | some problem => .error problem
    | none => .ok { p with given := p.given ++ [(f.long, value)], pending := none }

/-- Settles the option that is pending. -/
def settle (p : Progress) : Except Problem Progress :=
  match p.pending with
  | none => .ok p
  | some (_, none) => .error .missingValue
  | some (f, some value) => { p with pending := none }.add f value

/-- Takes an option without a value. -/
def takePlain (p : Progress) (f : Flag) : Except Problem Progress := do
  let p ← p.settle
  if f.long == helpFlag.long then .error .help
  else if f.long == versionFlag.long then .error .version
  else p.add f ""

/-- Takes an option that has a value, attached or yet to come. -/
def takeValued (p : Progress) (f : Flag) (value? : Option String) : Except Problem Progress := do
  let p ← p.settle
  match value? with
  | some value => p.add f value
  | none => .ok { p with pending := some (f, none) }

/-- Takes a word. -/
def takeWord (p : Progress) (l : Level) (word : String) : Except Problem Progress :=
  match l.words[p.words]? with
  | none => .error .unknownArgument
  | some (name, _) => do
    let p ← p.settle
    .ok { p with given := p.given ++ [(name, word)], words := p.words + 1 }

/-- Takes an option written after two dashes. -/
def takeLong (p : Progress) (l : Level) (text : List Char) : Except Problem Progress :=
  let name := text.takeWhile (· ≠ '=')
  let attached := (text.drop name.length).drop 1
  let isAttached := name.length < text.length
  match l.allFlags.find? (·.long == .ofList name) with
  | none => .error .unknownArgument
  | some f =>
    if f.check.isSome then p.takeValued f (if isAttached then some (.ofList attached) else none)
    else if isAttached then .error .unwantedValue
    else p.takePlain f

/-- Takes options written as letters after a dash. -/
def takeShort (l : Level) (p : Progress) : List Char → Except Problem Progress
  | [] => .ok p
  | c :: rest =>
    match l.allFlags.find? (·.short == some c) with
    | none => .error .unknownArgument
    | some f =>
      if f.check.isSome then
        -- What follows the letter is its value, not more letters.
        p.takeValued f (match rest with
          | [] => none
          | '=' :: value => some (.ofList value)
          | value => some (.ofList value))
      else do takeShort l (← p.takePlain f) rest

/-- Whether the value of an option has yet to come. -/
def awaits (p : Progress) : Bool :=
  match p.pending with
  | some (_, none) => true
  | _ => false

/-- Takes what may be a value that has yet to come, and else a word. -/
def takeValueOrWord (p : Progress) (l : Level) (text : String) : Except Problem Progress :=
  match p.pending with
  | some (f, none) => .ok { p with pending := some (f, some text) }
  | _ => p.takeWord l text

end Progress

/-- Reads the rest of a level after a lone pair of dashes, where a command can no longer be named.
-/
def readWords (l : Level) (commands : List String) (p : Progress) (arguments : List String) :
    Except Problem Progress :=
  if !commands.isEmpty && arguments.head?.any (!commands.contains ·) then .error .unknownCommand
  else arguments.foldlM (fun p word => p.takeWord l word) p

/-- Reads a level, up to the name of a command if commands are given. -/
def readLevel (l : Level) (commands : List String) (p : Progress) :
    List String → Except Problem (Progress × Option (String × List String))
  | [] => .ok (p, none)
  | argument :: rest =>
    -- An option that waits for its value takes even the name of a command.
    if !p.awaits && commands.contains argument then .ok (p, some (argument, rest))
    else match argument.toList with
      | ['-', '-'] => do .ok (← readWords l commands p rest, none)
      | '-' :: '-' :: text => do readLevel l commands (← p.takeLong l text) rest
      | '-' :: c :: text => do readLevel l commands (← p.takeShort l (c :: text)) rest
      | _ =>
        if !p.awaits && l.words.isEmpty && !commands.isEmpty then .error .unknownCommand
        else do readLevel l commands (← p.takeValueOrWord l argument) rest

/-- Checks what has been given on a level as a whole. -/
def Level.complete (l : Level) (p : Progress) : Except Problem Given := do
  let g := (← p.settle).given
  if l.exclusive.any fun (a, b) => g.has a && g.has b then .error .conflict
  else if l.needed.any (fun name => !g.has name) ||
      l.words.any (fun (name, needed) => needed && !g.has name) then .error .missingArgument
  else .ok g

/-! ## Reading a command line -/

/-- A program's options and commands. -/
structure Grammar where
  /-- The options before the command. -/
  top : Level
  /-- The commands. -/
  commands : List (String × Level)

/-- Reads the words after the command that asks for help. -/
def readHelp (g : Grammar) (arguments : List String) : Problem :=
  match arguments with
  | [] => .help
  | [name] => if name == "help" || (g.commands.lookup name).isSome then .help else .unknownCommand
  | _ => .unknownCommand

/-- Reads a command line: what is given before the command, the command, and what is given after. -/
def Grammar.read (g : Grammar) (arguments : List String) :
    Except Problem (Given × String × Given) := do
  let names := g.commands.map (·.1)
  let (p, command) ← readLevel g.top (names ++ ["help"]) .start arguments
  match command with
  | none => do
    let p ← p.settle
    if p.given.isEmpty then .error .nothingGiven else .error .missingCommand
  | some (name, rest) =>
    match g.commands.lookup name with
    | none => .error (readHelp g rest)
    | some level => do
      let (q, _) ← readLevel level [] .start rest
      -- What is missing behind the command is said before what is missing in front of it.
      let after ← level.complete q
      let before ← g.top.complete p
      .ok (before, name, after)

end Stencil.CommandLine
