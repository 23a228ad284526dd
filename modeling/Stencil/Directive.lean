import Stencil.Failure
import Stencil.Context
import Stencil.Template.Token

/-!
# Directives

A directive has a name, under which tokens refer to it, and an action that gives the text for a
token.  The action works on a state, which is whatever the directive needs to look at or change.
-/

namespace Stencil

open Template

/-- What an evaluation gives. -/
structure Outcome where
  /-- The text that takes the token's place. -/
  text : String
  /-- Values for the context, in order. -/
  fields : List (String × Json)
  deriving Inhabited

namespace Outcome

/-- A text alone. -/
def ofText (text : String) : Outcome := ⟨text, []⟩

/-- Nothing. -/
def empty : Outcome := ⟨"", []⟩

/-- A text that is also the value of a key. -/
def keyed (key text : String) : Outcome := ⟨text, [(key, .text text)]⟩

/-- The same with one more field. -/
def withField (o : Outcome) (key : String) (value : Json) : Outcome :=
  { o with fields := o.fields ++ [(key, value)] }

end Outcome

/-- A directive. -/
structure Directive (σ : Type) where
  /-- The name tokens use. -/
  name : String
  /-- One line for listings. -/
  description : String
  /-- The context keys it gives values to, the primary one first. -/
  resultKeys : List String
  /-- The directives whose tokens are replaced before its own. -/
  dependencies : List String
  /-- Whether one result serves all tokens that are written alike. -/
  constant : Bool
  /-- Gives the text for a token. -/
  apply : Token → Context → Action Failure σ Outcome

namespace Directive

variable {σ τ : Type}

/-- Whether the context already has everything the directive could give: there are result keys, and
all are resolved. -/
def isResolvedIn (d : Directive σ) (ctx : Context) : Bool :=
  !d.resultKeys.isEmpty && d.resultKeys.all (Context.isResolved ctx)

/-- The first directive of a name. -/
def find? (directives : List (Directive σ)) (name : String) : Option (Directive σ) :=
  directives.find? (·.name == name)

/-- A directive on the first part of a larger state. -/
def onFirst (d : Directive σ) : Directive (σ × τ) where
  name := d.name
  description := d.description
  resultKeys := d.resultKeys
  dependencies := d.dependencies
  constant := d.constant
  apply token ctx := fun (s, t) =>
    match d.apply token ctx s with
    | .ok o s => .ok o (s, t)
    | .error e s => .error e (s, t)

end Directive

end Stencil
