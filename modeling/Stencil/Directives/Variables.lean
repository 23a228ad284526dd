import Stencil.Directives.Operand

/-!
# Directives on the store

Variables and counters in templates.  The changing directives come before the reading ones, so what
a template sets is seen everywhere in it.
-/

namespace Stencil.Directives

open Template

/-- What a directive does with the store. -/
inductive VariableOperation where
  | set | reset | delete | increment | decrement | get | list
  deriving DecidableEq, Repr

namespace VariableOperation

/-- All operations, in the order of evaluation. -/
def all : List VariableOperation := [set, reset, delete, increment, decrement, get, list]

/-- The name tokens use. -/
def name : VariableOperation → String
  | set => "set"
  | reset => "reset"
  | delete => "delete"
  | increment => "increment"
  | decrement => "decrement"
  | get => "get"
  | list => "vars"

/-- One line for listings. -/
def description : VariableOperation → String
  | set => "Store a persistent variable: \x7b\x7bset name:value\x7d\x7d"
  | reset => "Restore a variable to its first value and return it: \x7b\x7breset name\x7d\x7d"
  | delete => "Remove a persistent variable: \x7b\x7bdelete name\x7d\x7d"
  | increment => "Add one to a counter and return it: \x7b\x7bincrement:id\x7d\x7d"
  | decrement => "Subtract one from a counter and return it: \x7b\x7bdecrement:id\x7d\x7d"
  | get => "Value of a persistent variable, empty if unset: \x7b\x7bget name\x7d\x7d"
  | list => "Names of all persistent variables, oldest first"

/-- The name of the variable or counter a token is about: its first word, and for a counter rather
its body. -/
def target? (op : VariableOperation) (token : Token) : Option String :=
  match op with
  | increment | decrement => operand? token
  | _ => (token.args.word? 0).filter (!·.isEmpty)

/-- The operation on a store, under the name it is given. -/
def perform {σ : Type} (op : VariableOperation) (b : Store.Backend σ) (name body : String) :
    Action Store.Failure σ String :=
  match op with
  | set => do
    Store.set b name body
    return ""
  | reset => Store.reset b name
  | delete => do
    Store.delete b name
    return ""
  | increment => Store.increment b name
  | decrement => Store.decrement b name
  | get => Store.get b name
  | list => do return ", ".intercalate ((← Store.list b).map (·.name))

/-- The text for a token. -/
def evaluate (op : VariableOperation) (host : Host) (token : Token) :
    Action Failure Machine String :=
  match op, op.target? token with
  | list, _ => (op.perform host.backend "" "").mapError .store
  | _, some name => (op.perform host.backend name token.bodyText).mapError .store
  | _, none => throw (.malformed op.name "missing variable name")

/-- The directive of an operation. -/
def directive (op : VariableOperation) (host : Host) : Builtin :=
  plain op.name op.description fun token _ => do return .ofText (← op.evaluate host token)

end VariableOperation

end Stencil.Directives
