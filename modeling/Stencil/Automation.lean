import Stencil.Failure

/-!
# Automation scripts

Text that is put into an automation script stands in a string literal.  In a literal a backslash
takes the next character as it is, and the first quote without one closes the literal; so a text is
written with a backslash before each backslash and each quote, and cannot end its literal.
-/

namespace Stencil.Automation

/-- A text as it stands between the quotes of a literal. -/
def escape (cs : List Char) : List Char :=
  cs.flatMap fun c => if c = '\\' || c = '"' then ['\\', c] else [c]

/-- A text as it stands between the quotes of a literal. -/
def escapeText (text : String) : String := .ofList (escape text.toList)

/-- Reads a literal after its opening quote: its text, and what follows the closing quote. -/
def readLiteral : List Char → Option (List Char × List Char)
  | [] => none
  | '"' :: rest => some ([], rest)
  | '\\' :: c :: rest => (readLiteral rest).map fun (text, after) => (c :: text, after)
  | ['\\'] => none
  | c :: rest => (readLiteral rest).map fun (text, after) => (c :: text, after)

/-! ## Scripts that act on a response -/

/-- The title under which a failed script is reported. -/
def failureTitle : String := "Action script failed"

/-- A script with a response in the variable `response`. -/
def prepare (script response : String) : String :=
  "set response to \"" ++ escapeText response ++ "\"\n" ++ script

/-- A script for a response has failed. -/
structure ActionFailure where
  /-- The title of the report. -/
  title : String
  /-- What went wrong. -/
  cause : ScriptFailure
  deriving DecidableEq, Repr

/-- The failure in one line. -/
def ActionFailure.message (f : ActionFailure) : String := f.title ++ ": " ++ f.cause.message

/-- The failure as it is put on the clipboard. -/
def ActionFailure.details (f : ActionFailure) : String := f.title ++ "\n\n" ++ f.cause.message

/-- Runs a script on a finished response.  There is no automation on this platform. -/
def runAction (_script _response : String) : Except ActionFailure String :=
  .error ⟨failureTitle, .sandbox "action scripts need macOS"⟩

end Stencil.Automation
