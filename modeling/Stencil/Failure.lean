import Stencil.Store.Backend

/-!
# Failures of directives

What can go wrong while a directive is evaluated.  No failure ends a rendering: the token becomes
empty text.  A silent failure is an expected miss, such as an empty clipboard.
-/

namespace Stencil

/-- Why a script fails. -/
inductive ScriptFailure where
  /-- The program cannot be started. -/
  | spawn (program reason : String)
  /-- The program ends with a code other than zero, minus one when a signal ended it. -/
  | exit (program : String) (code : Int) (stderr : String)
  /-- The script takes too long. -/
  | timeout (milliseconds : Nat)
  /-- A sandboxed script goes wrong. -/
  | sandbox (reason : String)
  /-- The task that runs the script goes wrong. -/
  | task (reason : String)
  deriving DecidableEq, Repr

/-- The text of a failure. -/
def ScriptFailure.message : ScriptFailure → String
  | spawn program reason => s!"Failed to spawn {program}: {reason}"
  | exit program code stderr => s!"{program} exited with code {code}: {stderr}"
  | timeout milliseconds => s!"Script timed out after {milliseconds}ms"
  | sandbox reason => s!"Sandboxed script failed: {reason}"
  | task reason => s!"Script task failed: {reason}"

/-- Why the desktop cannot answer. -/
inductive DesktopFailure where
  /-- There is no such feature here. -/
  | unsupported (feature : String)
  /-- The script that asks fails. -/
  | script (cause : ScriptFailure)
  deriving DecidableEq, Repr

/-- The text of a failure. -/
def DesktopFailure.message : DesktopFailure → String
  | unsupported feature => feature ++ " is not supported on this platform"
  | script cause => cause.message

/-- Why a directive fails. -/
inductive Failure where
  /-- The value it reads is not there. -/
  | unavailable (what : String)
  /-- The token lacks a part that is needed, or has one that cannot be used. -/
  | malformed (directive reason : String)
  /-- Its script fails. -/
  | script (cause : ScriptFailure)
  /-- The desktop cannot answer. -/
  | desktop (cause : DesktopFailure)
  /-- The store fails. -/
  | store (cause : Store.Failure)
  /-- A page cannot be fetched; the status is known if there was an answer. -/
  | http (status : Option Nat) (reason : String)
  /-- A file cannot be used. -/
  | io (reason : String)
  deriving DecidableEq, Repr

namespace Failure

/-- The text of a failure. -/
def message : Failure → String
  | unavailable what => "Lookup unavailable: " ++ what
  | malformed directive reason => s!"Malformed directive {directive}: {reason}"
  | script cause => cause.message
  | desktop cause => cause.message
  | store cause => cause.message
  | http _ reason => "HTTP error: " ++ reason
  | io reason => "IO error: " ++ reason

/-- Whether a failure is an expected miss. -/
def isSilent : Failure → Bool
  | unavailable _ => true
  | malformed _ _ => true
  | desktop (.unsupported _) => true
  | _ => false

end Failure

end Stencil
