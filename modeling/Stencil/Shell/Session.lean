import Stencil.Shell.TextTools
import Stencil.Shell.FileTools
import Stencil.Shell.Arithmetic

/-!
# Shells at work

What a shell keeps while it works off a script.  Everything a script writes goes to numbered buffers
or to files; descriptors say which.
-/

namespace Stencil.Shell

/-- A variable. -/
structure Variable where
  /-- Its value. -/
  value : List Char
  /-- Whether programs see it. -/
  exported : Bool
  /-- Whether it keeps its value. -/
  fixed : Bool

/-- Where a descriptor writes. -/
inductive Channel where
  /-- To a buffer. -/
  | buffer (index : Nat)
  /-- To the end of a file. -/
  | file (key : String)
  /-- To nowhere. -/
  | nowhere
  deriving DecidableEq, Repr

/-- What a shell keeps. -/
structure Session where
  /-- The files. -/
  files : Files.Tree
  /-- The working directory. -/
  directory : String
  /-- The variables. -/
  settings : List (List Char × Variable)
  /-- The functions. -/
  functions : List (List Char × Command)
  /-- What the variables of the running function were before, if a function is running. -/
  outer : Option (List (List Char × Option Variable))
  /-- The name the shell goes by. -/
  name : List Char
  /-- The arguments. -/
  arguments : List (List Char)
  /-- The status of the last command. -/
  status : Nat
  /-- What has been written: to the standard output, to the standard error, and to outputs that are
  being taken. -/
  buffers : Array ByteArray
  /-- Where the descriptors write. -/
  descriptors : List (Nat × Channel)
  /-- What is left to read. -/
  input : Source
  /-- The time since the start, in milliseconds. -/
  elapsed : Nat
  /-- When the last command ends that is not waited for. -/
  pending : Nat
  /-- The line of the command. -/
  line : Nat
  /-- What is run at the end. -/
  atExit : Option (List Char)
  /-- Whether a failing command ends the script. -/
  stopsOnFailure : Bool
  /-- Whether commands whose failure is looked at are being run. -/
  inCondition : Bool
  /-- Whether a variable must be set. -/
  needsVariables : Bool
  /-- Whether echo resolves escapes. -/
  echoEscapes : Bool
  /-- The time. -/
  now : Moment
  /-- How many processes this one is in. -/
  depth : Nat

/-- Why a command does not go on. -/
inductive Stop where
  /-- The shell ends. -/
  | exit (status : Nat)
  /-- A signal ends the shell. -/
  | killed (signal : Nat)
  /-- So many loops are left. -/
  | leave (loops : Nat)
  /-- So many loops less one are left, and the last goes on. -/
  | again (loops : Nat)
  /-- A function ends. -/
  | back (status : Nat)
  /-- The script runs for ever. -/
  | endless

/-- What a shell does. -/
abbrev Doing := EStateM Stop Session

/-- The status of a command whose program is not found. -/
def notFoundStatus : Nat := 127

namespace Doing

/-- Writes to a descriptor. -/
def write (descriptor : Nat) (octets : ByteArray) : Doing Unit := do
  match (← get).descriptors.lookup descriptor with
  | some (.buffer i) => modify fun s => { s with buffers := s.buffers.modify i (· ++ octets) }
  | some (.file key) => modify fun s =>
      match s.files.get? key with
      | some (.file content executable) =>
        { s with files := s.files.insert key (.file (content ++ octets) executable) }
      | _ => s
  | some .nowhere | none => return ()

/-- Writes a message with the name of the shell and the line. -/
def complain (message : List Char) : Doing Unit := do
  let s ← get
  write 2 (bytes (s.name ++ ": ".toList ++ (toString s.line).toList ++ ": ".toList ++ message ++ ['\n']))

/-- Ends the shell with a message. -/
def fatal {α : Type} (message : List Char) : Doing α := do
  complain message
  throw (.exit 2)

/-- The value of a variable. -/
def valueOf? (s : Session) (name : List Char) : Option (List Char) :=
  (s.settings.lookup name).map (·.value)

/-- Sets a variable, and lets programs see it if asked for. -/
def assign (s : Session) (name value : List Char) (exports : Bool) : Session :=
  let exported := exports || (s.settings.lookup name).any (·.exported)
  { s with settings := (name, ⟨value, exported, false⟩) :: s.settings.filter (·.1 != name) }

/-- Whether a variable keeps its value. -/
def isFixed (s : Session) (name : List Char) : Bool := (s.settings.lookup name).any (·.fixed)

/-- Sets variables; one that keeps its value ends the shell. -/
def assignAll (values : List (List Char × List Char)) (exports : Bool) : Doing Unit :=
  values.forM fun (name, value) => do
    if isFixed (← get) name then fatal (name ++ ": is read only".toList)
    else modify fun s => assign s name value exports

/-- Remembers what a variable of the running function was before. -/
def keepOuter (s : Session) (name : List Char) : Session :=
  match s.outer with
  | some kept =>
    if kept.any (·.1 == name) then s
    else { s with outer := some ((name, s.settings.lookup name) :: kept) }
  | none => s

/-- Gives the variables of a function back what they were before. -/
def giveBack (settings : List (List Char × Variable)) (kept : List (List Char × Option Variable)) :
    List (List Char × Variable) :=
  kept.foldl (fun settings (name, before) =>
    before.toList.map (name, ·) ++ settings.filter (·.1 != name)) settings

/-- The value of a parameter, if it is set. -/
def parameter? (s : Session) (name : List Char) : Option (List Char) :=
  match name with
  | ['?'] => some (toString s.status).toList
  | ['#'] => some (toString s.arguments.length).toList
  | ['$'] => some "4242".toList
  | ['!'] => some "4243".toList
  | ['-'] => some (if s.stopsOnFailure then ['e'] else [])
  | ['@'] | ['*'] => if s.arguments.isEmpty then none else some (spaced s.arguments)
  | ['0'] => some s.name
  | c :: _ =>
    if c.isDigit then s.arguments[leadingNumber name - 1]?
    else if name = "LINENO".toList then some (toString s.line).toList
    else valueOf? s name
  | [] => none

/-- A path as the shell sees it. -/
def path (s : Session) (cs : List Char) : String := pathFrom s.directory cs

/-- The environment that programs see. -/
def environment (s : Session) : List (List Char × List Char) :=
  s.settings.filterMap fun (name, v) => if v.exported then some (name, v.value) else none

/-- The directories in which programs are looked for. -/
def searchPath (s : Session) : List (List Char) :=
  Text.splitWhere (· == ':') ((valueOf? s "PATH".toList).getD "/usr/bin:/bin".toList)

/-- The path of a program in a directory. -/
def within (directory name : List Char) : List Char :=
  if directory.isEmpty then name
  else if directory.getLast? == some '/' then directory ++ name
  else directory ++ '/' :: name

/-- Where a program is found. -/
inductive Found where
  /-- At a path. -/
  | at (path : List Char) (entry : Files.Entry)
  /-- There is one, but it cannot be run. -/
  | denied
  /-- Nowhere. -/
  | nowhere

/-- What is at a path when it is to be run. -/
def foundAt (s : Session) (cs : List Char) : Found :=
  match s.files.find (path s cs) with
  | .ok (.file content true) => .at cs (.file content true)
  | .ok (.program name) => .at cs (.program name)
  | .ok _ => .denied
  | .error .denied => .denied
  | .error _ => .nowhere

/-- Looks for a program: at its path, or under its name in the search path. -/
def findProgram (s : Session) (name : List Char) : Found :=
  if name.contains '/' then foundAt s name
  else
    (searchPath s).foldl (fun found directory =>
      match found with
      | .at p e => .at p e
      | before =>
        match foundAt s (within directory name) with
        | .nowhere => before
        | found => found) .nowhere

/-- Repeats a step while it says so; the fuel bounds the number of rounds. -/
def repeatWhile (step : Doing Bool) : Nat → Doing Unit
  | 0 => throw .endless
  | fuel + 1 => do if ← step then repeatWhile step fuel

/-- Runs something in a shell of its own: only the files, what is written and read, and the time
stay. Its output is the status. -/
def apart (act : Doing Unit) : Doing Nat := fun s =>
  let keep (inner : Session) (status : Nat) : EStateM.Result Stop Session Nat :=
    .ok status { s with
      files := inner.files, buffers := inner.buffers, input := inner.input,
      elapsed := inner.elapsed, pending := inner.pending }
  match act { s with atExit := none } with
  | .ok _ inner => keep inner inner.status
  | .error (.exit status) inner | .error (.back status) inner => keep inner status
  -- A loop around a shell is not left from inside it.
  | .error (.leave _) inner | .error (.again _) inner => keep inner inner.status
  | .error (.killed signal) inner => .error (.killed signal) inner
  | .error .endless inner => .error .endless inner

/-- What is written to the standard output while something is done. -/
def captured {α : Type} (act : Doing α) : Doing (α × ByteArray) := fun s =>
  let index := s.buffers.size
  let inside := { s with
    buffers := s.buffers.push .empty
    descriptors := (1, .buffer index) :: s.descriptors.filter (·.1 != 1) }
  let restore (inner : Session) : Session :=
    { inner with buffers := inner.buffers.pop, descriptors := s.descriptors }
  match act inside with
  | .ok a inner => .ok (a, inner.buffers.getD index .empty) (restore inner)
  | .error e inner => .error e (restore inner)

end Doing

/-- The utilities under their names. -/
def utilities : List (String × Utility) :=
  [("cat", Utility.cat), ("head", Utility.head), ("tail", Utility.tail), ("tr", Utility.tr),
    ("sed", Utility.sed), ("grep", Utility.grep), ("wc", Utility.wc), ("sort", Utility.sort),
    ("uniq", Utility.uniq), ("rev", Utility.rev), ("tac", Utility.tac), ("cut", Utility.cut),
    ("seq", Utility.seq), ("tee", Utility.tee), ("true", Utility.succeed), ("false", Utility.refuse),
    ("echo", Utility.echo), ("printf", Utility.printf), ("test", Utility.test), ("[", Utility.test),
    ("sleep", Utility.sleep), ("basename", Utility.basename), ("dirname", Utility.dirname),
    ("ls", Utility.ls), ("rm", Utility.rm), ("mkdir", Utility.mkdir), ("rmdir", Utility.rmdir),
    ("touch", Utility.touch), ("cp", Utility.transfer true), ("mv", Utility.transfer false),
    ("chmod", Utility.chmod), ("printenv", Utility.printenv), ("pwd", Utility.pwd),
    ("date", Utility.date), ("expr", Utility.expr), ("uname", Utility.uname)]

/-- The programs that are shells, and whether their echo resolves escapes. -/
def shells : List (String × Bool) := [("sh", true), ("dash", true), ("bash", false)]

/-- The files of a machine with these programs, in the two directories where they are looked for. -/
def systemFiles : List (String × Files.Entry) :=
  let programs := shells.map (·.1) ++ utilities.map (·.1) ++ ["env"]
  ["/bin", "/usr", "/usr/bin", "/dev", "/tmp"].map (·, Files.Entry.directory) ++
    programs.flatMap (fun name =>
      [("/bin/" ++ name, .program name), ("/usr/bin/" ++ name, .program name)]) ++
    [("/dev/null", .sink), ("/dev/zero", .zeros)]

end Stencil.Shell
