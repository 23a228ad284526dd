import Stencil.Settings.Document
import Stencil.Files.Tree

/-!
# Where settings are found

Settings are read from the file that is named; or else from the first of two standard files that can
be read, the one of the project before the one of the user.  A standard file that cannot be read is
passed over.

The log level is wanted before there is a log, and read on its own: from the file that is named, or
else from the first standard file there is, and nothing that goes wrong is reported.
-/

namespace Stencil.Settings

/-- Why settings cannot be read from a file. -/
inductive LoadFailure where
  /-- The file cannot be read. -/
  | unreadable (cause : Files.Failure)
  /-- Its content gives no settings. -/
  | malformed
  deriving DecidableEq, Repr

/-- The texts of a failure, the outermost first, for a file that was named. -/
def LoadFailure.messages (path : String) (e : LoadFailure) : List String :=
  ("Failed to load config from " ++ path) ::
    match e with
    | unreadable cause => ["Failed to read config file", cause.message]
    | malformed => ["Failed to parse config file"]

/-- The path of a project's settings. -/
def projectPath : String := ".placeholders.yml"

/-- The path of a user's settings. -/
def userPath? (env : Environment) : Option String :=
  env.configFolder?.map fun folder =>
    Files.joinPath folder (Files.joinPath "placeholders" "placeholders.yml")

/-- Reads settings from a file with a decoder. -/
def readFile {α : Type} (decode : String → Option α) (files : Files.Tree) (path : String) :
    Except LoadFailure α :=
  match files.readText path with
  | .error e => .error (.unreadable e)
  | .ok text =>
    match decode text with
    | some settings => .ok settings
    | none => .error .malformed

/-- The standard files there are, in the order in which they are tried. -/
def standardFiles (files : Files.Tree) (user? : Option String) : List String :=
  (projectPath :: user?.toList).filter files.exists?

/-- Reads settings with a decoder: from a named file, or from the standard ones. -/
def loadWith (decode : String → Option Settings) (defaults : Settings) (files : Files.Tree)
    (user? named : Option String) : Except LoadFailure Settings :=
  match named with
  | some path => readFile decode files path
  | none =>
    .ok (((standardFiles files user?).findSome? fun path =>
      (readFile decode files path).toOption).getD defaults)

/-- Reads the log level with a decoder. -/
def logLevelWith (decode : String → Option Settings) (files : Files.Tree)
    (user? named : Option String) : Option String := do
  let path ← match named with
    | some path => some path
    | none => if files.exists? projectPath then some projectPath else user?
  let settings ← (readFile decode files path).toOption
  settings.logLevel

/-- Reads settings. -/
def load (env : Environment) (files : Files.Tree) (named : Option String) :
    Except LoadFailure Settings :=
  loadWith (read? (defaults env)) (defaults env) files (userPath? env) named

/-- Reads the log level. -/
def loadLogLevel (env : Environment) (files : Files.Tree) (named : Option String) : Option String :=
  logLevelWith (read? (defaults env)) files (userPath? env) named

end Stencil.Settings
