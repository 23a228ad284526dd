import Stencil.Template.Scanner
import Stencil.Text.Search

/-!
# Finding tokens

Lookups by name work on the flat list of a template's tokens: each outer token, followed by the
tokens in its body.
-/

namespace Stencil.Template

/-- Every token, in the order of their opening braces. -/
def tokens (source : String) : List Token := (pieces source).flatMap Piece.tokens

/-- Whether a text holds any token. -/
def hasTokens (source : String) : Bool :=
  Text.isInfix ['{', '{'] source.toList && (pieces source).any Piece.isToken

/-- Every token of a name, in the order of their opening braces. -/
def tokensNamed (source name : String) : List Token :=
  (tokens source).filter (·.name == name)

/-- Whether a text holds a token of a name. -/
def mentions (source name : String) : Bool :=
  Text.occursIn name source && !(tokensNamed source name).isEmpty

/-- The token of a piece that a name refers to first: one in its body before the outer token. -/
def Piece.firstNamed (name : String) : Piece → Option (Token × List Token)
  | .text _ => none
  | .token outer nested =>
    match nested.find? (·.name == name) with
    | some inner => some (inner, [])
    | none => if outer.name == name then some (outer, nested) else none

/-- The token of a name that is evaluated next, with the tokens in its body.  Tokens come in the
order of the text, but a token whose body holds one of the same name lets that one go first. -/
def firstNamed (source name : String) : Option (Token × List Token) :=
  (pieces source).findSome? (Piece.firstNamed name)

end Stencil.Template
