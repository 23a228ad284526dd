import Stencil.CommandLine.Grammar

/-!
# The command line of the store program

It works on the variables and counters of a store.
-/

namespace Stencil.CommandLine.Variables

/-- What the program is asked to do. -/
inductive Command where
  /-- To list all variables. -/
  | list
  /-- To print a variable. -/
  | get (name : String)
  /-- To make or change a variable. -/
  | set (name value : String)
  /-- To take a variable back to its first value. -/
  | reset (name : String)
  /-- To remove a variable. -/
  | delete (name : String)
  /-- To add one to a counter. -/
  | increment (id : String)
  /-- To take one from a counter. -/
  | decrement (id : String)
  deriving DecidableEq, Repr

/-- A command with the options that stand before it. -/
structure Request where
  /-- The file with the settings. -/
  config : Option String
  /-- The store file. -/
  store : Option String
  /-- The command. -/
  command : Command
  deriving DecidableEq, Repr

/-- A command with words that are all needed. -/
def wordsOnly (names : List String) : Level := ⟨[], names.map (·, true), [], [], false⟩

/-- The grammar. -/
def grammar : Grammar where
  top := ⟨[⟨"config", some 'c', path, false⟩, ⟨"store", some 's', path, false⟩], [], [], [], true⟩
  commands :=
    [("list", wordsOnly []), ("get", wordsOnly ["name"]), ("set", wordsOnly ["name", "value"]),
      ("reset", wordsOnly ["name"]), ("delete", wordsOnly ["name"]),
      ("increment", wordsOnly ["id"]), ("decrement", wordsOnly ["id"])]

/-- The command of a name with what is given for it. -/
def commandOf (name : String) (g : Given) : Command :=
  let word (name : String) : String := (g.value? name).getD ""
  match name with
  | "list" => .list
  | "get" => .get (word "name")
  | "set" => .set (word "name") (word "value")
  | "reset" => .reset (word "name")
  | "delete" => .delete (word "name")
  | "increment" => .increment (word "id")
  | _ => .decrement (word "id")

/-- Reads a command line. -/
def read (arguments : List String) : Except Problem Request := do
  let (before, name, after) ← grammar.read arguments
  .ok ⟨before.value? "config", before.value? "store", commandOf name after⟩

end Stencil.CommandLine.Variables
