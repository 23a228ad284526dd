import Stencil.Scripts
import Stencil.Browser

/-!
# The desktop

What the user has on the clipboard, has selected, or looks at.  A fixed desktop knows; otherwise the
tools of the machine are asked, as far as there are any.
-/

namespace Stencil.Desktop

/-- The value of a feature of a fixed desktop. -/
def known {α : Type} (feature : String) : Option α → Action DesktopFailure Machine α
  | some a => pure a
  | none => throw (.unsupported feature)

/-- The text on the clipboard. -/
def clipboardText (host : Host) : Action DesktopFailure Machine String :=
  match host.desktop with
  | .fixed _ => do
    modify fun m => { m with clipboardReads := m.clipboardReads + 1 }
    known "clipboard" (← get).clipboard
  | .system => fun m =>
    match Scripts.run host "wl-paste" ["--no-newline"] m with
    | .ok text m => .ok text m
    | .error _ m =>
      (Scripts.run host "xclip" ["-selection", "clipboard", "-o"]).mapError DesktopFailure.script m

/-- Puts a text on the clipboard. -/
def writeClipboard (host : Host) (text : String) : Action DesktopFailure Machine Unit :=
  match host.desktop with
  | .fixed _ => modify fun m => { m with clipboard := some text }
  | .system => throw (.unsupported "clipboard writes")

/-- The selected text. -/
def selectedText (host : Host) : Action DesktopFailure Machine String :=
  match host.desktop with
  | .fixed state => known "selected text" state.selectedText
  | .system => throw (.unsupported "selected text")

/-- The selected files. -/
def selectedFiles (host : Host) : Action DesktopFailure Machine (List String) :=
  match host.desktop with
  | .fixed state => pure state.selectedFiles
  | .system => throw (.unsupported "file selection")

/-- The application in front. -/
def application (host : Host) : Action DesktopFailure Machine Application :=
  match host.desktop with
  | .fixed state => known "frontmost application" state.application
  | .system => throw (.unsupported "frontmost application")

/-- The URL a browser shows. -/
def browserUrl (host : Host) (app : String) : Action DesktopFailure Machine String :=
  match host.desktop with
  | .fixed state => known "browser URL" state.url
  | .system =>
    match Browser.urlScript? app with
    | some script => (Scripts.automation host script).mapError .script
    | none => throw (.unsupported "URL lookup outside a browser")

/-- What the user typed. -/
def userInput (host : Host) : Action DesktopFailure Machine String :=
  match host.desktop with
  | .fixed state => known "user input" state.input
  | .system => throw (.unsupported "user input")

end Stencil.Desktop
