import Stencil.Program.Report
import Stencil.CommandLine.Variables
import Stencil.Settings.StorePath
import Stencil.Store.Variables
import Stencil.Store.File

/-!
# The store program

It reads its command line and its settings, opens the store file, and carries the command out.
-/

namespace Stencil.Program.Variables

open CommandLine.Variables

/-- The line of a variable in a listing. -/
def listingLine (r : Store.Record) : String :=
  r.name ++ " = " ++ r.value ++ " (initial: " ++ r.initial ++ ")\n"

/-- A listing of variables. -/
def listing (records : List Store.Record) : String :=
  if records.isEmpty then "No variables found\n" else String.join (records.map listingLine)

/-- Carries a command out on a store and gives what is printed. -/
def perform {σ : Type} (b : Store.Backend σ) (command : Command) :
    Action Store.Failure σ String := do
  match command with
  | .list => return listing (← Store.list b)
  | .get name => return (← Store.get b name) ++ "\n"
  | .set name value => do
    Store.set b name value
    return "✓ Set " ++ name ++ "\n"
  | .reset name => return (← Store.reset b name) ++ "\n"
  | .delete name => do
    Store.delete b name
    return "✓ Deleted " ++ name ++ "\n"
  | .increment id => return (← Store.increment b id) ++ "\n"
  | .decrement id => return (← Store.decrement b id) ++ "\n"

/-- Carries a request out. -/
def answer (request : Request) (m : Machine) : Report × Machine :=
  match Settings.StorePath.load m.environment m.files request.config with
  | .error (.unreadable e) => (.failed ["Failed to load configuration", e.message], m)
  | .error .malformed => (.failed ["Failed to load configuration"], m)
  | .ok configured =>
    let path := request.store.getD configured
    let work : Action Store.Failure Files.Tree String := do
      Store.prepare path
      perform (Store.Backend.atPath path) request.command
    match Machine.onFiles work m with
    | .ok output m => (.done output, m)
    | .error e m => (.failed [e.message], m)

/-- Runs the program on a command line. -/
def run (arguments : List String) (m : Machine) : Report × Machine :=
  let m := startOn m
  match read arguments with
  | .ok request => answer request m
  | .error .version => (.done ("vs " ++ version ++ "\n"), m)
  | .error .help => (.done "", m)
  | .error _ => (⟨2, "", "error: the arguments cannot be used\n"⟩, m)

end Stencil.Program.Variables
