import Stencil.Dict

/-!
# Tokens

A template is plain text with tokens in double braces: a directive name, arguments, and after a
colon a body.  A body may hold tokens of its own, but those hold no further ones; so a token is a
flat record, and the tokens in its body stand beside it in `Piece.token`.
-/

namespace Stencil.Template

/-- A stretch of a text, from a first byte up to but not including a last one. -/
structure Span where
  /-- The first byte. -/
  start : Nat
  /-- The byte after the last. -/
  stop : Nat
  deriving DecidableEq, Repr, Inhabited

/-! ## Arguments -/

/-- What stands between a directive's name and its body: words in order, and values under keys. -/
structure Arguments where
  /-- The words and quoted texts without a key, in order. -/
  positional : List String
  /-- The values under keys; of several values for one key the last is kept. -/
  named : Dict String

namespace Arguments

/-- No arguments. -/
def none : Arguments := ⟨[], Dict.empty⟩

instance : Inhabited Arguments := ⟨none⟩

/-- The value under a key. -/
def get? (args : Arguments) (key : String) : Option String := args.named.get? key

/-- The word at a position, counted from zero. -/
def word? (args : Arguments) (index : Nat) : Option String := args.positional[index]?

/-- Whether the value under a key says yes: `true`, `yes` or `1`, in any ASCII case. -/
def flag (args : Arguments) (key : String) : Bool :=
  match args.get? key with
  | some value => ["true", "yes", "1"].contains value.toLower
  | Option.none => false

/-- Whether there is no argument at all. -/
def isEmpty (args : Arguments) : Bool := args.positional.isEmpty && args.named.isEmpty

/-- Adds a word at the end. -/
def addWord (args : Arguments) (word : String) : Arguments :=
  { args with positional := args.positional ++ [word] }

/-- Sets the value under a key. -/
def setNamed (args : Arguments) (key value : String) : Arguments :=
  { args with named := args.named.insert key value }

end Arguments

/-! ## Tokens and pieces -/

/-- One occurrence of a directive. -/
structure Token where
  /-- The directive's name. -/
  name : String
  /-- The arguments after the name. -/
  args : Arguments
  /-- The text after the colon, if there is a colon. -/
  body : Option String
  /-- The token as it is written, braces included. -/
  raw : String
  /-- Where it stands in the scanned text. -/
  span : Span
  deriving Inhabited

/-- A stretch of a template: text, or a token with the tokens inside its body. -/
inductive Piece where
  /-- Text between tokens. -/
  | text (span : Span)
  /-- A token and the tokens in its body, in order. -/
  | token (outer : Token) (nested : List Token)

/-- The characters of directive names. -/
def isNameChar (c : Char) : Bool := c.isAlphanum || c == '_' || c == '-' || c == '.'

/-- Whether a text is a directive name: at least one character, and only name characters. -/
def isValidName (name : String) : Bool := !name.isEmpty && name.toList.all isNameChar

namespace Token

/-- The body, empty when there is none. -/
def bodyText (t : Token) : String := t.body.getD ""

/-- A value as it is written between quotes when a token is composed: a quote is escaped. -/
def escapeQuotes (cs : List Char) : List Char :=
  cs.flatMap fun c => if c = '"' then ['\\', '"'] else [c]

/-- The written form of a named argument. -/
def writeNamed (entry : String × String) : List Char :=
  ' ' :: entry.1.toList ++ '=' :: '"' :: escapeQuotes entry.2.toList ++ ['"']

/-- The written form of a token with the given parts. -/
def write (name : String) (args : Arguments) (body : Option String) : String :=
  String.ofList <|
    '{' :: '{' :: name.toList
      ++ args.positional.flatMap (fun word => ' ' :: word.toList)
      ++ args.named.entries.flatMap writeNamed
      ++ (match body with
          | none => []
          | some text => ':' :: text.toList)
      ++ ['}', '}']

/-- A token that stands in no template, for applying a directive directly.  Its span is empty. -/
def compose (name : String) (args : Arguments) (body : Option String) : Token :=
  ⟨name, args, body, write name args body, ⟨0, 0⟩⟩

end Token

namespace Piece

/-- The tokens of a piece: the outer one, then those in its body. -/
def tokens : Piece → List Token
  | text _ => []
  | token outer nested => outer :: nested

/-- Where a piece stands. -/
def span : Piece → Span
  | text s => s
  | token outer _ => outer.span

/-- Whether a piece is a token. -/
def isToken : Piece → Bool
  | text _ => false
  | token _ _ => true

end Piece

end Stencil.Template
