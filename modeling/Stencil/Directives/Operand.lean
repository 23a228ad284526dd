import Stencil.Machine
import Stencil.Directive
import Stencil.Text.Blank

/-!
# What directives share

Directives differ in their names and actions; most have no result keys and no dependencies, and are
evaluated anew for each token.
-/

namespace Stencil.Directives

open Template

/-- A directive on machines. -/
abbrev Builtin := Directive Machine

/-- A directive without result keys, evaluated anew for each token. -/
def plain (name description : String) (apply : Token → Context → Action Failure Machine Outcome) :
    Builtin :=
  ⟨name, description, [], [], false, apply⟩

/-- A directive whose one result serves all tokens written alike. -/
def shared (name description : String) (keys dependencies : List String)
    (apply : Token → Context → Action Failure Machine Outcome) : Builtin :=
  ⟨name, description, keys, dependencies, true, apply⟩

/-- The body, or the first word when there is no body, without the blanks around it, if that leaves
anything. -/
def operand? (token : Token) : Option String :=
  ((token.body.or (token.args.word? 0)).map Text.trim).filter (!·.isEmpty)

/-- Fails: there is nothing of the kind on this platform. -/
def needsMac {α : Type} (what : String) : Action Failure Machine α :=
  throw (.unavailable (what ++ " needs macOS"))

end Stencil.Directives
