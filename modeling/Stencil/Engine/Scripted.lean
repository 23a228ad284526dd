import Stencil.Directive
import Stencil.Text.Search

/-!
# Scripted directives

Directives that answer from a list of prepared outputs, for hosts that want to see how a template is
worked off.  The state counts the calls of each.
-/

namespace Stencil.Engine

open Template

/-- A directive with prepared outputs. -/
structure Scripted where
  /-- The name tokens use. -/
  name : String
  /-- Whether one result serves all tokens that are written alike. -/
  constant : Bool
  /-- The result keys. -/
  keys : List String
  /-- The dependencies. -/
  dependencies : List String
  /-- The outputs of the calls, the last one repeating. -/
  outputs : List String
  /-- The context key whose text is added to an output. -/
  reads : Option String
  /-- Whether the result is also the value of the first key. -/
  keeps : Bool
  /-- Further fields. -/
  fields : Dict Json
  /-- Whether a call without outputs fails as a broken file does, and not as a missing value. -/
  failsHard : Bool

/-- How often each scripted directive has been called, by its place in the list. -/
abbrev Calls := List Nat

namespace Scripted

/-- The outcome of a call of which so many came before. -/
def outcome (s : Scripted) (before : Nat) (token : Token) (ctx : Context) :
    Except Failure Outcome :=
  match (s.outputs[before]?).or s.outputs.getLast? with
  | none => .error (if s.failsHard then .io "scripted" else .unavailable "scripted")
  | some output =>
    let cs := Text.replaceAll "%raw%".toList token.raw.toList output.toList
    let cs := Text.replaceAll "%body%".toList token.bodyText.toList cs
    let seen := match s.reads with
      | some key => (Context.text? ctx key).getD "<none>"
      | none => ""
    let text := String.ofList cs ++ seen
    let own := match s.keys with
      | key :: _ => if s.keeps then [(key, Json.text text)] else []
      | [] => []
    .ok ⟨text, own ++ s.fields.entries⟩

/-- The directive at a place in the list. -/
def directive {σ : Type} (s : Scripted) (index : Nat) : Directive (σ × Calls) where
  name := s.name
  description := ""
  resultKeys := s.keys
  dependencies := s.dependencies
  constant := s.constant
  apply token ctx := fun (state, calls) =>
    let before := calls.getD index 0
    let calls := calls.set index (before + 1)
    match s.outcome before token ctx with
    | .ok o => .ok o (state, calls)
    | .error e => .error e (state, calls)

end Scripted

end Stencil.Engine
