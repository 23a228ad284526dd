import Stencil.Automation

/-!
# Browsers

Browsers show their active tab to automation scripts in one of two ways.  Any other application is
no browser.
-/

namespace Stencil.Browser

open Automation

/-- How a browser shows its active tab. -/
inductive Family where
  /-- As the current tab of the front window. -/
  | safari
  /-- As the active tab of the front window. -/
  | chromium
  deriving DecidableEq, Repr

/-- The family of an application, if it is a browser. -/
def family? (app : String) : Option Family :=
  if ["Safari", "Safari Technology Preview"].contains app then some .safari
  else if ["Google Chrome", "Google Chrome Beta", "Google Chrome Canary", "Chromium", "Arc",
      "Brave Browser", "Microsoft Edge", "Vivaldi", "Opera", "Orion"].contains app then some .chromium
  else none

/-- The start of a command for an application. -/
def tell (app : String) : String := "tell application \"" ++ escapeText app ++ "\" to "

/-- What stands before the literal with the code in a command that runs code in a page. -/
def Family.beforeCode : Family → String
  | safari => "do JavaScript \""
  | chromium => "execute active tab of front window javascript \""

/-- What stands after the closing quote of that literal. -/
def Family.afterCode : Family → String
  | safari => " in current tab of front window"
  | chromium => ""

/-- The script that gives the URL of the active tab. -/
def urlScript? (app : String) : Option String :=
  (family? app).map fun
    | .safari => tell app ++ "return URL of current tab of front window"
    | .chromium => tell app ++ "return URL of active tab of front window"

/-- The script that runs code in the active tab and gives its result. -/
def codeScript? (app code : String) : Option String :=
  (family? app).map fun f => tell app ++ f.beforeCode ++ escapeText code ++ "\"" ++ f.afterCode

end Stencil.Browser
