import Stencil.Directive
import Stencil.Text.Integer

/-!
# Configured placeholders

A configured placeholder stands for a text with gaps: `$body` for the body of its token, `$1` to
`$9` for the words.  The gaps are filled in one scan from left to right.
-/

namespace Stencil.Custom

open Template Text

/-- A placeholder as it is configured. -/
structure Placeholder where
  /-- The name tokens use. -/
  name : String
  /-- The text with gaps. -/
  value : String
  /-- One line for listings. -/
  description : Option String
  /-- Whether one result serves all tokens that are written alike. -/
  constant : Bool
  deriving DecidableEq, Repr, Inhabited

/-- What stands after a dollar sign in the gap for the body. -/
def bodyMark : List Char := ['b', 'o', 'd', 'y']

/-- The text for a dollar sign that a run of digits follows: the word at that position, if the run is one
digit other than zero, and otherwise the dollar sign and the run as they are. -/
def wordOrDigits (token : Token) (digits : List Char) : List Char :=
  match nat64? digits with
  | some position =>
    if digits.length = 1 ∧ 1 ≤ position then ((token.args.word? (position - 1)).getD "").toList
    else '$' :: digits
  | none => '$' :: digits

/-- Fills the gaps of a text, from one dollar sign to the next.  What is put in is never looked at. -/
def fillGaps (token : Token) (cs : List Char) : List Char :=
  match _h : splitOnce '$' cs with
  | none => cs
  | some (before, after) =>
    if bodyMark.isPrefixOf after then
      before ++ token.bodyText.toList ++ fillGaps token (after.drop bodyMark.length)
    else
      before ++ wordOrDigits token (after.takeWhile Char.isDigit) ++
        fillGaps token (after.dropWhile Char.isDigit)
  termination_by cs.length
  decreasing_by
    · have := splitOnce_length _h
      rw [List.length_drop]
      omega
    · have := splitOnce_length _h
      have := (List.dropWhile_sublist Char.isDigit (l := after)).length_le
      omega

/-- The text of a placeholder for a token. -/
def Placeholder.expand (p : Placeholder) (token : Token) : String :=
  .ofList (fillGaps token p.value.toList)

/-- A placeholder as a directive. -/
def Placeholder.directive {σ : Type} (p : Placeholder) : Directive σ where
  name := p.name
  description := p.description.getD ""
  resultKeys := []
  dependencies := []
  constant := p.constant
  apply token _ := return .ofText (p.expand token)

/-- The directives of configured placeholders; those whose names no token can have are left out. -/
def directives {σ : Type} (placeholders : List Placeholder) : List (Directive σ) :=
  (placeholders.filter fun p => isValidName p.name).map Placeholder.directive

end Stencil.Custom
