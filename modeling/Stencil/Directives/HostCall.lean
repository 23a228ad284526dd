import Stencil.Directives.Variables
import Stencil.Sandbox.Running

/-!
# What sandboxed scripts can ask for

A sandboxed script reaches the machine through a fixed list of functions, each of which stands for a
directive.  A call is the evaluation of that directive for a token made for it, so whatever a script
passes is taken as it is; a failing directive gives empty text.  A call sees the context of the
script and cannot change it.
-/

namespace Stencil.Directives

open Template Sandbox

/-- A call that a script makes. -/
inductive HostCall where
  /-- The value of a directive without arguments. -/
  | reading (directive : String)
  /-- The date in a format. -/
  | date (format : String)
  /-- The output of a shell script, in a shell if one is named. -/
  | shell (program : Option String) (script : String)
  /-- The output of an automation script, by the directive that runs it. -/
  | automation (directive script : String)
  /-- What becomes of a variable or counter; the value is only for setting one. -/
  | onStore (op : VariableOperation) (name value : String)
  /-- A message for the log. -/
  | log (message : String)
  deriving DecidableEq, Repr

namespace HostCall

/-- The functions without arguments and the directives they stand for. -/
def readers : List (String × String) :=
  [("clipboard_text", "clipboardText"), ("selected_text", "selectedText"),
    ("current_app", "currentApplication"), ("current_url", "currentURL"), ("date", "date"),
    ("time", "time"), ("vars", "vars")]

/-- How functions are called, and the directives they stand for. -/
def table : List (String × String) :=
  [("clipboard_text()", "clipboardText"), ("selected_text()", "selectedText"),
    ("current_app()", "currentApplication"), ("current_url()", "currentURL"),
    ("date() / date(format)", "date"), ("time()", "time"),
    ("shell(script) / shell(bin, script)", "shell"), ("applescript(script)", "applescript"),
    ("jxa(script)", "jxa"), ("get_var(name)", "get"), ("set_var(name, value)", "set"),
    ("reset_var(name)", "reset"), ("delete_var(name)", "delete"), ("increment(id)", "increment"),
    ("decrement(id)", "decrement"), ("vars()", "vars"), ("log(message)", "-")]

/-- The call that a function with arguments is, if there is such a function. -/
def ofFunction? (f : String) (arguments : List Value) : Option HostCall :=
  match f, arguments with
  | f, [] => (readers.lookup f).map reading
  | "date", [.text format] => some (date format)
  | "shell", [.text script] => some (shell none script)
  | "shell", [.text program, .text script] => some (shell (some program) script)
  | "applescript", [.text script] => some (automation "applescript" script)
  | "jxa", [.text script] => some (automation "jxa" script)
  | "get_var", [.text name] => some (onStore .get name "")
  | "set_var", [.text name, .text value] => some (onStore .set name value)
  | "reset_var", [.text name] => some (onStore .reset name "")
  | "delete_var", [.text name] => some (onStore .delete name "")
  | "increment", [.text id] => some (onStore .increment id "")
  | "decrement", [.text id] => some (onStore .decrement id "")
  | "log", [.text message] => some (log message)
  | _, _ => none

/-- The token that a directive is evaluated for; nothing is evaluated for the log. -/
def token? : HostCall → Option Token
  | reading directive => some (.compose directive .none none)
  | date format => some (.compose "date" (Arguments.none.setNamed "format" format) none)
  | shell none script => some (.compose "shell" .none (some script))
  | shell (some program) script =>
    some (.compose "shell" (Arguments.none.addWord program) (some script))
  | automation directive script => some (.compose directive .none (some script))
  | onStore .increment id _ => some (.compose "increment" .none (some id))
  | onStore .decrement id _ => some (.compose "decrement" .none (some id))
  | onStore .set name value => some (.compose "set" (Arguments.none.addWord name) (some value))
  | onStore op name _ => some (.compose op.name (Arguments.none.addWord name) none)
  | log _ => none

/-- Whether the function gives its text, and not nothing. -/
def givesText : HostCall → Bool
  | onStore .set _ _ | onStore .delete _ _ | log _ => false
  | _ => true

/-- The text of a call and the machine after it. -/
def perform (directives : List Builtin) (ctx : Context) (call : HostCall) (m : Machine) :
    String × Machine :=
  match call.token? with
  | none => ("", m)
  | some token =>
    match Directive.find? directives token.name with
    | none => ("", m)
    | some d =>
      match d.apply token ctx m with
      | .ok outcome m => (outcome.text, m)
      | .error _ m => ("", m)

/-- The functions of a script that runs in a context. -/
def offer (directives : List Builtin) (ctx : Context) : Offer Machine := fun f arguments =>
  (ofFunction? f arguments).map fun call m =>
    let (text, after) := call.perform directives ctx m
    (if call.givesText then .text text else .unit, after,
      (after.elapsed - m.elapsed) * workPerMillisecond)

end HostCall

end Stencil.Directives
