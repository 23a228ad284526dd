import Stencil.Directives.Operand
import Stencil.Desktop

/-!
# Directives on the desktop

What is on the clipboard, selected, in front, or typed.  A value that the context already knows is
never asked for again.
-/

namespace Stencil.Directives

open Template

/-- An action on the desktop as one of a directive. -/
def asking {α : Type} (act : Action DesktopFailure Machine α) : Action Failure Machine α :=
  act.mapError .desktop

/-- The text on the clipboard. -/
def clipboardText (host : Host) : Builtin :=
  shared "clipboardText" "Current clipboard text" ["clipboardText"] [] fun _ _ => do
    return .keyed "clipboardText" (← asking (Desktop.clipboardText host))

/-- The selected text. -/
def selectedText (host : Host) : Builtin :=
  shared "selectedText" "Text selected in the frontmost application" ["selectedText"] []
    fun _ _ => do return .keyed "selectedText" (← asking (Desktop.selectedText host))

/-- The selected files: those of the context if it has any, and else those of the desktop. -/
def selection (host : Host) (ctx : Context) : Action Failure Machine (List String) :=
  if ctx.isResolved Context.selectedFilesKey then return ctx.selectedFiles
  else asking (Desktop.selectedFiles host)

/-- The selected files as one text. -/
def selectedFiles (host : Host) : Builtin :=
  shared "selectedFiles" "Comma-separated paths of the files selected in the file manager"
    [Context.selectedFilesKey] [] fun _ ctx => do
      return .keyed Context.selectedFilesKey (Context.joinPaths (← selection host ctx))

/-- The longest file whose text is put in, in bytes. -/
def inlineLimit : Nat := 256 * 1024

/-- The text of a file that is not too long. -/
def inlineText? (files : Files.Tree) (path : String) : Option String :=
  if files.isFile path then
    match files.read path with
    | .ok content => if content.size ≤ inlineLimit then String.fromUTF8? content else none
    | .error _ => none
  else none

/-- The texts of the selected files, each under its path; a file that is too long or no text is left
out. -/
def selectedFileContents (host : Host) : Builtin :=
  shared "selectedFileContents" "Text of each selected file, headed by its path"
    ["selectedFileContents"] [] fun _ ctx => do
      let paths ← selection host ctx
      let files := (← get).files
      let sections := paths.filterMap fun path =>
        (inlineText? files path).map fun text => path ++ ":\n" ++ text
      return (Outcome.keyed "selectedFileContents" ("\n\n".intercalate sections)).withField
        Context.selectedFilesKey (.text (Context.joinPaths paths))

/-- The application in front. -/
def currentApplication (host : Host) : Builtin :=
  shared "currentApplication" "Name of the frontmost application"
    ["currentAppName", "currentAppPath"] [] fun _ _ => do
      let app ← asking (Desktop.application host)
      return (Outcome.keyed "currentAppName" app.name).withField "currentAppPath" (.text app.path)

/-- The name of the application in front: that of the context if it has one. -/
def applicationName (host : Host) (ctx : Context) : Action Failure Machine String :=
  match (ctx.text? "currentAppName").filter (!·.isEmpty) with
  | some name => return name
  | none => do return (← asking (Desktop.application host)).name

/-- The URL of the active tab. -/
def currentUrl (host : Host) : Builtin :=
  shared "currentURL" "URL of the active tab when a browser is in front" ["currentURL"]
    ["currentApplication"] fun _ ctx => do
      let app ← applicationName host ctx
      return .keyed "currentURL" (← asking (Desktop.browserUrl host app))

/-- The text of the active tab. -/
def currentTabText : Builtin :=
  shared "currentTabText" "Visible text of the active browser tab" ["currentTabText"]
    ["currentApplication"] fun _ _ => needsMac "currentTabText"

/-- What the user typed: the context knows, or else the desktop. -/
def input (host : Host) : Builtin :=
  shared Context.inputKey "Text the user typed into the host" [Context.inputKey] [] fun _ ctx =>
    match (ctx.text? Context.inputKey).filter fun _ => ctx.isResolved Context.inputKey with
    | some text => return .ofText text
    | none => do return .keyed Context.inputKey (← asking (Desktop.userInput host))

/-- A value that only the context can know. -/
def seeded (name description : String) : Builtin :=
  shared name description [name] [] fun _ ctx =>
    match ctx.text? name with
    | some text => return .ofText text
    | none => throw (.unavailable (name ++ " was not supplied"))

/-- The directives on the desktop. -/
def desktop (host : Host) : List Builtin :=
  [clipboardText host, selectedText host, selectedFiles host, selectedFileContents host,
    currentApplication host, currentUrl host, currentTabText, input host,
    seeded "previousCommand" "Name of the previously run command",
    seeded "previousPrompt" "Prompt of the previous run",
    seeded "previousResponse" "Response of the previous run"]

end Stencil.Directives
