import Stencil.Scripts

/-!
# The interpreters of scripts

The help of the template program tells which interpreters there are, and where the log is.
-/

namespace Stencil.Program.Tools

/-- The interpreters that are looked for. -/
def names : List String := ["osascript", "sh", "say"]

/-- The path of a program that the shell finds, if it finds any. -/
def locate (runner : Process.Runner) (m : Machine) (name : String) : Option String :=
  match runner ⟨"sh", ["-c", "command -v " ++ name]⟩ m.environment m.now m.files with
  | .error _ => none
  | .ok (completed, _) =>
    if completed.code = 0 then
      some (Text.trim (Text.Utf8.decodeLossy completed.output)) |>.filter (!·.isEmpty)
    else none

/-- A text with blanks after it, up to a width. -/
def padded (width : Nat) (s : String) : String :=
  s ++ .ofList (List.replicate (width - s.length) ' ')

/-- The line for an interpreter. -/
def line (name : String) (path? : Option String) : String :=
  let sign := if path?.isSome then "✅" else "❌"
  "  " ++ sign ++ " " ++ padded 10 name ++ " " ++ path?.getD "not found" ++ "\n"

/-- What follows the help. -/
def afterHelp (runner : Process.Runner) (m : Machine) : String :=
  "Script Interpreters:\n" ++ String.join (names.map fun name => line name (locate runner m name)) ++
    "\nLogs are written to: " ++ Settings.logPath m.environment ++ "\n"

end Stencil.Program.Tools
