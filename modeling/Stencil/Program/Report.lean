import Stencil.Machine

/-!
# What programs leave behind

A program writes to its output and to its error output, and ends with a code.
-/

namespace Stencil.Program

/-- What a program leaves behind. -/
structure Report where
  /-- The exit code. -/
  code : Nat
  /-- What it wrote to its output. -/
  output : String
  /-- What it wrote to its error output. -/
  errors : String
  deriving DecidableEq, Repr

namespace Report

/-- The end of a program that has done its work. -/
def done (output : String) : Report := ⟨0, output, ""⟩

/-- The texts of a failure, the outermost first, as they are reported. -/
def describe : List String → String
  | [] => "Error\n"
  | [text] => "Error: " ++ text ++ "\n"
  | [text, cause] => "Error: " ++ text ++ "\n\nCaused by:\n    " ++ cause ++ "\n"
  | text :: causes =>
    "Error: " ++ text ++ "\n\nCaused by:\n" ++
      String.join (causes.zipIdx.map fun (cause, i) => s!"    {i}: {cause}\n")

/-- The end of a program that fails. -/
def failed (texts : List String) : Report := ⟨1, "", describe texts⟩

/-- A report with something written to the error output before. -/
def after (errors : String) (r : Report) : Report := { r with errors := errors ++ r.errors }

end Report

/-- What does not depend on the command line: the network, what runs programs, and who uses the
machine. -/
structure Surroundings where
  /-- What the network answers to a request for a URL. -/
  web : String → WebAnswer
  /-- What runs programs. -/
  runner : Process.Runner
  /-- Who uses the machine. -/
  identity : Identity

/-- The host of a program with settings. -/
def Surroundings.host (s : Surroundings) (settings : Settings) : Host where
  scripts := settings.scripts
  network := settings.network
  desktop := .system
  place := .file settings.storePath
  web := s.web
  runner := s.runner
  identity := s.identity

/-- A machine as a program finds it when it starts. -/
def startOn (m : Machine) : Machine :=
  { m with loginPath := none, clipboardReads := 0, exchanges := [], elapsed := 0 }

/-- The version of the programs. -/
def version : String := "0.1.0"

end Stencil.Program
