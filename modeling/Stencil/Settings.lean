import Stencil.Environment
import Stencil.Custom

/-!
# Settings

What can be configured.  Every setting has a default, some of which depend on the environment.
-/

namespace Stencil

namespace Settings

/-- How scripts are run. -/
structure Scripts where
  /-- The shell of scripts that name none. -/
  defaultShell : String := "/bin/sh"
  /-- Whether shell scripts get the search path of a login shell. -/
  exportLoginPath : Bool := false
  /-- The shell that is asked for its search path. -/
  loginShell : String := "/bin/sh"
  /-- How long a sandboxed script may run. -/
  sandboxTimeout : Nat := 1000
  /-- How many operations a sandboxed script may make; zero is no limit. -/
  sandboxOperations : Nat := 0
  /-- How long a dialog waits, in seconds. -/
  dialogTimeout : Nat := 30
  /-- How long a program may run, in milliseconds, if there is a limit. -/
  processTimeout : Option Nat := none
  deriving DecidableEq, Repr, Inhabited

/-- How the network is used. -/
structure Network where
  /-- Whether it is used at all. -/
  enabled : Bool := true
  /-- How long a request may take, in milliseconds. -/
  timeout : Nat := 30000
  /-- What requests name as the program that makes them. -/
  userAgent : String := "placeholders/0.1.0"
  /-- The greatest length of a page or file, in bytes. -/
  maxBytes : Nat := 1000000
  deriving DecidableEq, Repr, Inhabited

end Settings

/-- All settings. -/
structure Settings where
  /-- How much is logged. -/
  logLevel : Option String := none
  /-- How scripts are run. -/
  scripts : Settings.Scripts := {}
  /-- The path of the store file. -/
  storePath : String
  /-- How the network is used. -/
  network : Settings.Network := {}
  /-- How often a directive is evaluated in a row. -/
  evaluationLimit : Nat := 1000
  /-- The configured placeholders. -/
  custom : List Custom.Placeholder := []
  deriving DecidableEq, Repr, Inhabited

namespace Settings

/-- Where the store file is when nothing else is said. -/
def defaultStorePath (env : Environment) : String := env.dataFile "variables.json"

/-- Where the log is written. -/
def logPath (env : Environment) : String := env.dataFile "logs/placeholders.log"

/-- The settings without any configuration. -/
def defaults (env : Environment) : Settings where
  scripts := { loginShell := (env.get? "SHELL").getD "/bin/sh" }
  storePath := defaultStorePath env

end Settings

end Stencil
