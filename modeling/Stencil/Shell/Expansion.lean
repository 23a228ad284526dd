import Stencil.Shell.Session

/-!
# Fields

What a word is expanded to: characters, and the places where it is split into fields.  Fields are
then taken as patterns for names of files, and lose their quotes.
-/

namespace Stencil.Shell

/-- A piece of an expanded word. -/
inductive Expanded where
  /-- A character, quoted or not. -/
  | character (c : Char) (quoted : Bool)
  /-- A place where a field ends, if one has started. -/
  | gap
  /-- A place where quotes stand, so that there is a field even if it is empty. -/
  | mark
  deriving DecidableEq, Repr

namespace Expanded

/-- Quoted characters. -/
def quoted (cs : List Char) : List Expanded := cs.map (character · true)

/-- A value between double quotes, or one that is split at separators. -/
def value (isQuoted : Bool) (separators : List Char) (cs : List Char) : List Expanded :=
  if isQuoted then quoted cs
  else cs.map fun c => if separators.contains c then gap else character c false

/-- Values, each a field of its own. -/
def values (isQuoted : Bool) (separators : List Char) (vs : List (List Char)) : List Expanded :=
  let one (v : List Char) : List Expanded :=
    if isQuoted then mark :: quoted v else value false separators v
  ((vs.map one).intersperse [gap]).flatten

/-- The fields of an expanded word; the field that has started comes last first. -/
def fields (current : Option (List Marked)) : List Expanded → List (List Marked)
  | [] => current.toList.map List.reverse
  | character c isQuoted :: rest => fields (some ((c, isQuoted) :: current.getD [])) rest
  | mark :: rest => fields (some (current.getD [])) rest
  | gap :: rest =>
    match current with
    | some field => field.reverse :: fields none rest
    | none => fields none rest

/-- An expanded word that is not split. -/
def whole (es : List Expanded) : List Marked :=
  es.filterMap fun
    | character c isQuoted => some (c, isQuoted)
    | gap => some (' ', false)
    | mark => none

end Expanded

/-- Marked characters without their marks. -/
def unmarked (cs : List Marked) : List Char := cs.map (·.1)

/-- Marked characters cut at slashes. -/
def pathParts (cs : List Marked) : List (List Marked) :=
  match cs with
  | [] => [[]]
  | c :: rest =>
    match pathParts rest with
    | [] => [[c]]
    | part :: parts => if c.1 = '/' then [] :: part :: parts else (c :: part) :: parts

/-- The paths that fit the parts of a pattern, each written after the path it goes out from. -/
def matchingPaths (s : Session) (start : List Char) : List (List Marked) → List (List Char)
  | [] => [start]
  | part :: parts =>
    let join (name : List Char) : List Char :=
      if start.isEmpty then name
      else if start.getLast? == some '/' then start ++ name else start ++ '/' :: name
    if !isPattern part then
      let path := if part.isEmpty && start.isEmpty && !parts.isEmpty then ['/']
        else join (unmarked part)
      if parts.isEmpty && !(s.files.exists? (Doing.path s path)) then []
      else matchingPaths s path parts
    else
      let directory := if start.isEmpty then ['.'] else start
      match s.files.locate (Doing.path s directory) with
      | .error _ => []
      | .ok key =>
        let ps := pattern part
        let shows (name : List Char) : Bool :=
          fits ps name && (name.head? != some '.' || (unmarked part).head? == some '.')
        ((s.files.names key).map octets |>.filter shows).flatMap fun name =>
          matchingPaths s (join name) parts

/-- The names a field stands for: those of files that fit it, or else itself. -/
def fieldNames (s : Session) (field : List Marked) : List (List Char) :=
  if !isPattern field then [unmarked field]
  else match matchingPaths s [] (pathParts field) with
    | [] => [unmarked field]
    | paths => paths

end Stencil.Shell
