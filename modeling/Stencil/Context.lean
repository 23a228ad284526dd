import Stencil.Json.Printer
import Stencil.Text.Blank
import Stencil.Text.Search

/-!
# Contexts

A context holds the values resolved while a template is rendered, under the result keys of the
directives they came from.  A host may seed it, and gets it back grown.
-/

namespace Stencil

/-- Resolved values by key. -/
abbrev Context := Dict Json

namespace Context

/-- The key of the text a user typed. -/
def inputKey : String := "input"

/-- The key of the selected files. -/
def selectedFilesKey : String := "selectedFiles"

/-- A value as text in a template: strings as they are, the absent value as nothing, and anything
else as compact JSON. -/
def valueText : Json → String
  | .text s => s
  | .null => ""
  | v => v.compact

/-- The text of the value under a key. -/
def text? (ctx : Context) (key : String) : Option String := (ctx.get? key).map valueText

/-- Whether a key holds a value that can be used.  Every value can, but for an empty text under
`input`: a host puts that there before the user has typed anything. -/
def isResolved (ctx : Context) (key : String) : Bool :=
  match ctx.get? key with
  | some (.text s) => key != inputKey || !s.isEmpty
  | some _ => true
  | none => false

/-- Adds fields, in order; an old value under the same key is replaced. -/
def merge (ctx : Context) (fields : List (String × Json)) : Context := ctx.insertAll fields

/-- The paths of a list separated by commas or line breaks, without the blanks around them; empty
ones are left out. -/
def splitPaths (raw : String) : List String :=
  ((Text.splitWhere (fun c => c == ',' || c == '\n') raw.toList).map Text.trimChars
    |>.filter (!·.isEmpty)).map String.ofList

/-- A list of paths as one text. -/
def joinPaths (paths : List String) : String := ", ".intercalate paths

/-- The selected files the context knows of. -/
def selectedFiles (ctx : Context) : List String :=
  match ctx.text? selectedFilesKey with
  | some raw => splitPaths raw
  | none => []

end Context

end Stencil
