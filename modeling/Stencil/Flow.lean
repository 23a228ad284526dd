import Stencil.Text.Case
import Stencil.Text.Search

/-!
# Choosing by the kind of the selected files

A choice has two branches, separated by a colon: the first counts when some selected file has one of
the choice's extensions.  There is a choice for each category of files and for each extension.
-/

namespace Stencil.Flow

/-- A choice: its name and the extensions it looks for. -/
structure Choice where
  /-- The name tokens use. -/
  name : String
  /-- The extensions, in lower case. -/
  extensions : List String
  deriving DecidableEq, Repr

/-- The categories of files. -/
def categories : List Choice :=
  [⟨"images", ["png", "jpg", "jpeg", "gif", "webp", "heic", "heif", "tif", "tiff", "bmp", "svg",
      "ico", "raw"]⟩,
    ⟨"videos", ["mp4", "mov", "m4v", "avi", "mkv", "webm", "wmv", "flv", "mpg", "mpeg", "3gp"]⟩,
    ⟨"audio", ["mp3", "wav", "aac", "flac", "ogg", "m4a", "aif", "aiff", "wma", "opus"]⟩,
    ⟨"textfiles", ["txt", "md", "markdown", "rtf", "csv", "tsv", "json", "xml", "yaml", "yml",
      "html", "htm", "log", "tex"]⟩,
    ⟨"pdf", ["pdf"]⟩]

/-- The extensions of all categories that are no category's name, each once. -/
def loneExtensions : List String :=
  (categories.flatMap (·.extensions)).foldl
    (fun seen e => if seen.contains e || categories.any (·.name == e) then seen else seen ++ [e]) []

/-- All choices: the categories, then one for each further extension. -/
def choices : List Choice := categories ++ loneExtensions.map fun e => ⟨e, [e]⟩

/-- The text after the last dot of a path, in lower case, if there is a dot. -/
def extension? (path : String) : Option String :=
  (Text.splitLast '.' (Text.lowerChars path.toList)).map fun (_, e) => .ofList e

/-- Whether some path has one of the extensions. -/
def Choice.accepts (c : Choice) (paths : List String) : Bool :=
  paths.any fun path => (extension? path).any c.extensions.contains

/-- Cuts at the first colon that stands outside double braces. -/
def cutAtColon (depth : Nat) : List Char → Option (List Char × List Char)
  | [] => none
  | '{' :: '{' :: rest =>
    (cutAtColon (depth + 1) rest).map fun (yes, no) => ('{' :: '{' :: yes, no)
  | '}' :: '}' :: rest =>
    (cutAtColon (depth - 1) rest).map fun (yes, no) => ('}' :: '}' :: yes, no)
  | c :: rest =>
    if c = ':' && depth = 0 then some ([], rest)
    else (cutAtColon depth rest).map fun (yes, no) => (c :: yes, no)

/-- The two branches of a body; without a colon the second is empty. -/
def branches (body : String) : String × String :=
  match cutAtColon 0 body.toList with
  | some (yes, no) => (.ofList yes, .ofList no)
  | none => (body, "")

end Stencil.Flow
