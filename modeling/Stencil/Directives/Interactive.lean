import Stencil.Directives.Operand

/-!
# Dialogs, speech and calendars

Directives that need the automation of another platform.  Here each is known, and fails.
-/

namespace Stencil.Directives

/-- Alerts, dialogs and speech. -/
def interactive : List Builtin :=
  [("alert", "Show an alert and wait for it to be dismissed"),
    ("dialog", "Ask the user for text and return what they typed"),
    ("say", "Speak text aloud")].map fun (name, description) =>
    plain name description fun _ _ => needsMac name

/-- The names of the calendar directives and how far each looks. -/
def calendarWindows : List (String × String) :=
  [("todayEvents", "Calendar events for today"),
    ("weekEvents", "Calendar events for the next 7 days"),
    ("monthEvents", "Calendar events for the next 30 days"),
    ("yearEvents", "Calendar events for the next 365 days")]

/-- The calendar directives. -/
def calendar : List Builtin :=
  calendarWindows.map fun (name, description) =>
    shared name description [name] [] fun _ _ => needsMac name

end Stencil.Directives
