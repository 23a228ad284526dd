import Stencil.CommandLine.Grammar
import Stencil.Text.Case
import Stencil.Text.Search

/-!
# The command line of the template program

It renders templates, lists directives, and runs scripts on responses.
-/

namespace Stencil.CommandLine.Templates

/-- How directives are listed. -/
inductive Format where
  | text | json
  deriving DecidableEq, Repr

/-- The format that a text names, in any case. -/
def Format.read? (s : String) : Option Format :=
  match Text.lower s with
  | "text" | "plain" => some .text
  | "json" => some .json
  | _ => none

/-- The name of a format. -/
def Format.name : Format → String
  | text => "text"
  | json => "json"

/-- What is said of a text that names no format. -/
def Format.complaint (s : String) : String := "Unknown format: " ++ s ++ ". Use: text or json"

/-- Reads a key and a value around the first equals sign; the key cannot be empty. -/
def readPair? (s : String) : Option (String × String) :=
  match Text.splitOnce '=' s.toList with
  | some ([], _) | none => none
  | some (key, value) => some (.ofList key, .ofList value)

/-- What is said of a text without a key and a value. -/
def pairComplaint (s : String) : String := "Expected KEY=VALUE, got '" ++ s ++ "'"

/-- What the program is asked to do. -/
inductive Command where
  /-- To render a template, which is given, in a file, or read from the input. -/
  | render (template file : Option String) (seeds : List (String × String))
    (selectedFiles : Option String) (showContext : Bool)
  /-- To list the directives. -/
  | directives (format : Format)
  /-- To run a script on a response. -/
  | action (script response : String) (copyError : Bool)
  deriving DecidableEq, Repr

/-- A command with the options that apply to all. -/
structure Request where
  /-- The file with the settings. -/
  config : Option String
  /-- How much is logged. -/
  logLevel : Option String
  /-- The command. -/
  command : Command
  deriving DecidableEq, Repr

/-- The options that can stand before and after the command. -/
def sharedFlags : List Flag :=
  [⟨"config", some 'c', path, false⟩, ⟨"log-level", some 'l', anyText, false⟩]

/-- The grammar. -/
def grammar : Grammar where
  top := ⟨sharedFlags, [], [], [], true⟩
  commands :=
    [("render",
        { flags := [⟨"file", some 'f', path, false⟩, ⟨"set", some 's', readBy readPair?, true⟩,
            ⟨"selected-files", none, anyText, false⟩, ⟨"show-context", none, none, false⟩] ++
            sharedFlags
          words := [("template", false)], needed := [], exclusive := [("file", "template")]
          versioned := false }),
      ("directives",
        { flags := ⟨"format", some 'f', readBy Format.read?, false⟩ :: sharedFlags
          words := [], needed := [], exclusive := [], versioned := false }),
      ("action",
        { flags := [⟨"script", some 's', anyText, false⟩, ⟨"response", some 'r', anyText, false⟩,
            ⟨"copy-error", none, none, false⟩] ++ sharedFlags
          words := [], needed := ["script", "response"], exclusive := [], versioned := false })]

/-- The command of a name with what is given for it. -/
def commandOf (name : String) (g : Given) : Command :=
  match name with
  | "render" =>
    .render (g.value? "template") (g.value? "file") ((g.values "set").filterMap readPair?)
      (g.value? "selected-files") (g.has "show-context")
  | "directives" => .directives (((g.value? "format").bind Format.read?).getD .text)
  | _ =>
    .action ((g.value? "script").getD "") ((g.value? "response").getD "") (g.has "copy-error")

/-- Reads a command line; what is given after the command counts before what is given there. -/
def read (arguments : List String) : Except Problem Request := do
  let (before, name, after) ← grammar.read arguments
  let shared (option : String) : Option String := (after.value? option).or (before.value? option)
  .ok ⟨shared "config", shared "log-level", commandOf name after⟩

end Stencil.CommandLine.Templates
