import Stencil.Directives.HostCall
import Stencil.Sandbox.Eval
import Stencil.Scripts
import Stencil.Text.Blank

/-!
# Script directives

The output of the script in the body.  Which program runs the script depends on the directive; a
sandboxed script runs in this program, and can be sent to a browser instead.
-/

namespace Stencil.Directives

open Template

/-- The limits of sandboxed scripts. -/
def sandboxLimits (s : Settings.Scripts) : Sandbox.Limits where
  operations := if s.sandboxOperations = 0 then none else some s.sandboxOperations
  work := s.sandboxTimeout * Sandbox.workPerMillisecond
  depth := 32
  textLength := 1000000

/-- Runs a sandboxed script in a context. -/
def runSandboxed (host : Host) (directives : List Builtin) (ctx : Context) (script : String) :
    Action ScriptFailure Machine String := fun m =>
  match Sandbox.evaluate (sandboxLimits host.scripts) (HostCall.offer directives ctx) script m with
  | (.text s, m) => .ok s m
  | (.failed, m) => .error (.sandbox "") m
  | (.timeout, m) => .error (.timeout host.scripts.sandboxTimeout) m

/-- Runs a script on a target. -/
def runScript (host : Host) (directives : List Builtin) (ctx : Context) (target : Scripts.Target)
    (script : String) (program : Option String) : Action ScriptFailure Machine String :=
  match target with
  | .automation => Scripts.automation host script
  | .automationJavaScript => Scripts.automationJavaScript host script
  | .shell => Scripts.shell host script program
  | .sandbox => runSandboxed host directives ctx script

/-- The names, targets and descriptions of script directives, in the order of evaluation. -/
def scriptTargets : List (String × Scripts.Target × String) :=
  [("as", .automation, "Output of an automation script"),
    ("applescript", .automation, "Output of an automation script"),
    ("jxa", .automationJavaScript, "Output of an automation script in JavaScript"),
    ("shell", .shell, "Stdout of a shell script; the first argument picks the shell"),
    ("js", .sandbox, "Result of a sandboxed script, or of page JavaScript with target=\"browser\"")]

/-- The text that a script directive gives for a token. -/
def scriptText (host : Host) (directives : List Builtin) (name : String) (target : Scripts.Target)
    (token : Token) (ctx : Context) : Action Failure Machine String :=
  let script := token.bodyText
  let run := (runScript host directives ctx target script (token.args.word? 0)).mapError .script
  if Text.isBlankText script then throw (.malformed name "empty script")
  else match target with
    | .automation | .automationJavaScript => needsMac name
    | .shell => run
    | .sandbox =>
      if (token.args.get? "target").isSome then needsMac "browser JavaScript" else run

/-- The script directives; sandboxed scripts can call some others. -/
def scripts (host : Host) (directives : List Builtin) : List Builtin :=
  scriptTargets.map fun (name, target, description) =>
    plain name description fun token ctx => do
      return .ofText (← scriptText host directives name target token ctx)

end Stencil.Directives
