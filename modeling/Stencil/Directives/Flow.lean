import Stencil.Directives.Desktop
import Stencil.Flow

/-!
# Choosing directives

The first branch of the body if some selected file has one of the choice's extensions, and else the
second.
-/

namespace Stencil.Directives

open Template

/-- The selected files as a choice sees them; a desktop that cannot tell has none. -/
def selectionOrNone (host : Host) (ctx : Context) : Action Failure Machine (List String) :=
  fun m =>
    match selection host ctx m with
    | .ok paths m => .ok paths m
    | .error _ m => .ok [] m

/-- The directive of a choice. -/
def flow (host : Host) (choice : Flow.Choice) : Builtin :=
  shared choice.name
    "First branch if any selected file matches, else the second: \x7b\x7bname:yes:no\x7d\x7d" [] []
    fun token ctx => do
      let paths ← selectionOrNone host ctx
      let (yes, no) := Flow.branches token.bodyText
      return .ofText (if choice.accepts paths then yes else no)

end Stencil.Directives
