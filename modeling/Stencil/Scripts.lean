import Stencil.Machine

/-!
# Running scripts

A script goes to its interpreter as one argument, so nothing in it is ever quoted or escaped.
-/

namespace Stencil.Scripts

/-- What runs a script. -/
inductive Target where
  /-- The automation host. -/
  | automation
  /-- The automation host in its JavaScript mode. -/
  | automationJavaScript
  /-- A shell. -/
  | shell
  /-- The sandbox of this program. -/
  | sandbox
  deriving DecidableEq, Repr

/-- The target of a script directive. -/
def Target.ofDirective? (name : String) : Option Target :=
  match name with
  | "as" | "applescript" => some .automation
  | "jxa" => some .automationJavaScript
  | "shell" => some .shell
  | "js" => some .sandbox
  | _ => none

/-- Runs a program in an environment. -/
def runIn (host : Host) (env : Environment) (command : Process.Command) (limit : Option Nat) :
    Action ScriptFailure Machine String := fun m =>
  let c := Process.capture host.runner command env m.now limit m.files
  let m := { m with files := c.files, elapsed := m.elapsed + c.elapsed }
  match c.result with
  | .ok text => .ok text m
  | .error e => .error e m

/-- Runs a program. -/
def run (host : Host) (program : String) (arguments : List String) :
    Action ScriptFailure Machine String := do
  runIn host (← get).environment ⟨program, arguments⟩ host.scripts.processTimeout

/-- The program that runs automation scripts. -/
def automationProgram : String := "osascript"

/-- Runs an automation script. -/
def automation (host : Host) (script : String) : Action ScriptFailure Machine String :=
  run host automationProgram ["-e", script]

/-- Runs an automation script in JavaScript. -/
def automationJavaScript (host : Host) (script : String) : Action ScriptFailure Machine String :=
  run host automationProgram ["-l", "JavaScript", "-e", script]

/-- How long the login shell may take to tell its search path, in milliseconds. -/
def loginLimit : Nat := 5000

/-- Asks the login shell for its search path; a failure or an empty answer is none. -/
def askLoginPath (host : Host) : Action ScriptFailure Machine (Option String) := fun m =>
  match runIn host m.environment ⟨host.scripts.loginShell, ["-l", "-c", "printf %s \"$PATH\""]⟩
      (some loginLimit) m with
  | .ok path m => .ok (if path.isEmpty then none else some path) m
  | .error _ m => .ok none m

/-- The search path of the login shell, which is asked for once. -/
def loginPath (host : Host) : Action ScriptFailure Machine (Option String) := do
  match (← get).loginPath with
  | some known => return known
  | none => do
    let path ← askLoginPath host
    modify fun m => { m with loginPath := some path }
    return path

/-- Runs a shell script, in the default shell if none is named. -/
def shell (host : Host) (script : String) (shell? : Option String) :
    Action ScriptFailure Machine String := do
  let program := (shell?.filter (!·.isEmpty)).getD host.scripts.defaultShell
  let path ← if host.scripts.exportLoginPath then loginPath host else pure none
  let env := (← get).environment
  let env := match path with
    | some path => env.insert "PATH" path
    | none => env
  runIn host env ⟨program, ["-c", script]⟩ host.scripts.processTimeout

end Stencil.Scripts
