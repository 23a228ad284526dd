import Stencil.Directives.Operand
import Stencil.Web
import Stencil.Markup.Markdown

/-!
# Reading files and pages
-/

namespace Stencil.Directives

open Template

/-- The length of what a path leads to, in bytes.  A directory takes one block. -/
def entryLength : Files.Entry → Nat
  | .file content _ => content.size
  | .directory => 4096
  | .program _ | .sink | .zeros => 0

/-- The text of a file that is within the limit. -/
def fileText (limit : Nat) (files : Files.Tree) (path : String) : Except Failure String :=
  match files.find path with
  | .error e => .error (.io e.message)
  | .ok entry =>
    if limit < entryLength entry then .error (.unavailable s!"{path} is larger than {limit} bytes")
    else match files.read path with
      | .ok content => .ok (Text.Utf8.decodeLossy content)
      | .error e => .error (.io e.message)

/-- The text of a file. -/
def file (host : Host) : Builtin :=
  plain "file" "Text of a local file: \x7b\x7bfile:~/notes.txt\x7d\x7d" fun token _ => do
    match operand? token with
    | none => throw (.malformed "file" "missing path")
    | some path =>
      let m ← get
      match fileText host.network.maxBytes m.files (m.environment.expandHome path) with
      | .ok text => return .ofText text
      | .error e => throw e

/-- The text of a page, as Markdown or as it is. -/
def url (host : Host) : Builtin :=
  plain "url" "Visible text of a web page as Markdown, or its HTML with raw=true" fun token _ => do
    match operand? token with
    | none => throw (.malformed "url" "missing URL")
    | some address =>
      if !(address.startsWith "http://" || address.startsWith "https://") then
        throw (.malformed "url" s!"not an http(s) URL: {address}")
      else do
        let body ← Web.fetch host address
        return .ofText (if token.args.flag "raw" then body else Text.trim (Markup.toMarkdown body))

end Stencil.Directives
