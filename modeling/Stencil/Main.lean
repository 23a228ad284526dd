import Stencil.Program.Templates
import Stencil.Program.Variables
import Stencil.Shell.Run
import Std.Time.DateTime.Timestamp

/-!
# The executable

The first argument names the program, `ph` for templates and `vs` for the store; without one it is
the first.  The files that a command line can refer to are read before the program runs, and those
that it has changed are written after it.
-/

namespace Stencil.Executable

/-- The environment variables that the programs look at. -/
def variableNames : List String :=
  ["HOME", "SHELL", "PATH", "LC_ALL", "LC_MESSAGES", "LANG", "XDG_CONFIG_HOME", "XDG_DATA_HOME",
    "USER", "LOGNAME", "HOSTNAME"]

/-- The environment. -/
def readEnvironment : IO Environment := do
  let mut env : Environment := Dict.empty
  for name in variableNames do
    if let some value ← IO.getEnv name then env := env.insert name value
  return env

/-- The time. -/
def readClock : IO Moment := do
  let nanoseconds := (← Std.Time.Timestamp.now).toNanosecondsSinceUnixEpoch.toInt
  return ⟨nanoseconds / 1000000000, (nanoseconds % 1000000000).toNat⟩

/-- The files together with the one at a path, if it can be read. -/
def addFile (files : Files.Tree) (path : String) : IO Files.Tree := do
  try
    let content ← IO.FS.readBinFile path
    let files := match Files.parentPath? path with
      | some above => (files.makeDirectories above).toOption.getD files
      | none => files
    return (files.write path content).toOption.getD files
  catch _ => return files

/-- The paths that a template refers to. -/
def pathsIn (env : Environment) (template : String) : List String :=
  (Template.tokensNamed template "file").filterMap fun token =>
    (Directives.operand? token).map env.expandHome

/-- The files that a command line can refer to. -/
def gatherFiles (env : Environment) (arguments : List String) (input : String) : IO Files.Tree := do
  let mut files : Files.Tree := Dict.ofList Shell.systemFiles
  let named := Settings.projectPath :: (Settings.userPath? env).toList ++
    Settings.StorePath.standardPaths env ++ arguments
  for path in named do
    files ← addFile files path
  let templates := input :: arguments ++ arguments.filterMap fun path =>
    (files.readText path).toOption
  let stores := named.filterMap fun path => do
    let settings ← (Settings.readFile (Settings.read? (.defaults env)) files path).toOption
    some settings.storePath
  let storePaths := named.filterMap fun path => do
    (Settings.readFile (Settings.StorePath.read? (Settings.defaultStorePath env)) files path).toOption
  for path in Settings.defaultStorePath env :: stores ++ storePaths ++ templates.flatMap (pathsIn env) do
    files ← addFile files path
  return files

/-- Writes the files that differ from those before. -/
def writeChanges (before after : Files.Tree) : IO Unit := do
  for (path, entry) in after.entries do
    if let .file content _ := entry then
      let changed := match before.get? path with
        | some (.file old _) => old.data != content.data
        | _ => true
      if changed then do
        IO.FS.createDirAll (Files.parent path)
        IO.FS.writeBinFile path content

/-- Who uses the machine. -/
def identityOf (env : Environment) : Identity :=
  let user := ((env.filled? "USER").or (env.filled? "LOGNAME")).getD "unknown"
  let host := (env.filled? "HOSTNAME").getD "localhost"
  ⟨user, host, host⟩

/-- Runs the program that the arguments name. -/
def run (arguments : List String) : IO UInt32 := do
  let (isStore, arguments) := match arguments with
    | "vs" :: rest => (true, rest)
    | "ph" :: rest => (false, rest)
    | rest => (false, rest)
  let needsInput := match CommandLine.Templates.read arguments with
    | .ok ⟨_, _, .render none none _ _ _⟩ => !isStore
    | _ => false
  let input ← if needsInput then (← IO.getStdin).readToEnd else pure ""
  let env ← readEnvironment
  let files ← gatherFiles env arguments input
  let now ← readClock
  let machine := Machine.start files env now Dict.empty none (← IO.rand 0 (Nat.pow 2 62))
  let surroundings : Program.Surroundings :=
    ⟨fun _ => .unreachable "there is no network", Shell.runner, identityOf env⟩
  let (report, machine) :=
    if isStore then Program.Variables.run arguments machine
    else Program.Templates.run surroundings arguments input machine
  writeChanges files machine.files
  IO.print report.output
  IO.eprint report.errors
  return report.code.toUInt32

end Stencil.Executable

/-- The executable. -/
def main (arguments : List String) : IO UInt32 := Stencil.Executable.run arguments
