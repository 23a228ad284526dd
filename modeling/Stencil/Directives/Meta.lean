import Stencil.Directives.Operand
import Stencil.Text.Integer

/-!
# Directives on their bodies

They are evaluated last, when every other directive in their bodies has been.
-/

namespace Stencil.Directives

open Template

/-- Drops the body. -/
def ignore : Builtin :=
  plain "ignore" "Evaluate the body for its side effects and insert nothing" fun _ _ =>
    return .empty

/-- Keeps so many characters of the body. -/
def cutoff : Builtin :=
  plain "cutoff" "First N characters of the body: \x7b\x7bcutoff 100:...\x7d\x7d" fun token _ =>
    match (token.args.word? 0).bind fun word => Text.nat64? word.toList with
    | some limit => return .ofText (.ofList (token.bodyText.toList.take limit))
    | none => throw (.malformed "cutoff" "expected a character count")

end Stencil.Directives
