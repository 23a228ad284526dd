import Stencil.Template.Token
import Stencil.Text.Bytes

/-!
# Splicing

Replacing stretches of a text by other texts.  Edits are applied from the back of the text to its
front, so an edit never moves the stretch of one still to come.
-/

namespace Stencil.Template

open Stencil.Text

/-- A stretch of a text and what is put in its place. -/
structure Edit where
  /-- The stretch that is replaced. -/
  span : Span
  /-- What takes its place. -/
  text : String
  deriving DecidableEq, Repr, Inhabited

/-- Replaces one stretch. -/
def Edit.apply (cs : List Char) (e : Edit) : List Char :=
  takeBytes e.span.start cs ++ e.text.toList ++ dropBytes e.span.stop cs

/-- Replaces every stretch of a list of edits that do not overlap. -/
def splice (source : String) (edits : List Edit) : String :=
  let ordered := edits.mergeSort fun a b => decide (b.span.start ≤ a.span.start)
  .ofList (ordered.foldl Edit.apply source.toList)

end Stencil.Template
