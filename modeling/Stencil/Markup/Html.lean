import Stencil.Text.Search
import Stencil.Text.Case

/-!
# Reading HTML

A page is read as texts and tags in order.  Comments, declarations, and the contents of elements
that show nothing are left out; character references in texts and attribute values are resolved.
-/

namespace Stencil.Markup

/-- A part of a page. -/
inductive Part where
  /-- Text. -/
  | text (cs : List Char)
  /-- The start of an element, with its attributes. -/
  | opening (name : String) (attributes : List (String × List Char))
  /-- The end of an element. -/
  | closing (name : String)

/-! ## Character references -/

/-- The named characters. -/
def namedCharacters : List (String × Char) :=
  [("amp", '&'), ("lt", '<'), ("gt", '>'), ("quot", '"'), ("apos", '\''), ("nbsp", '\u00a0'),
    ("copy", '©'), ("reg", '®'), ("hellip", '…'), ("mdash", '—'), ("ndash", '–'), ("lsquo", '‘'),
    ("rsquo", '’'), ("ldquo", '“'), ("rdquo", '”'), ("eacute", 'é'), ("euro", '€'), ("middot", '·')]

/-- The value of a hexadecimal digit. -/
def hexValue? (c : Char) : Option Nat :=
  if c.isDigit then some (c.toNat - 48)
  else if 'a' ≤ c && c ≤ 'f' then some (c.toNat - 87)
  else if 'A' ≤ c && c ≤ 'F' then some (c.toNat - 55)
  else none

/-- The number that digits of a base stand for. -/
def numberOf? (base : Nat) (cs : List Char) : Option Nat :=
  if cs.isEmpty then none
  else cs.foldl (fun n? c => do
    let d ← hexValue? c
    if d < base then some ((← n?) * base + d) else none) (some 0)

/-- The character that a reference stands for. -/
def reference? (cs : List Char) : Option Char :=
  let ofNumber (n : Nat) : Char := if n = 0 || 0x10FFFF < n then '\ufffd' else Char.ofNat n
  match cs with
  | '#' :: 'x' :: ds | '#' :: 'X' :: ds => (numberOf? 16 ds).map ofNumber
  | '#' :: ds => (numberOf? 10 ds).map ofNumber
  | name => namedCharacters.lookup (.ofList name)

/-- A text with its references resolved. -/
def unescape (cs : List Char) : List Char :=
  match cs with
  | [] => []
  | '&' :: rest =>
    let name := rest.takeWhile fun c => c.isAlphanum || c == '#'
    match (reference? name).filter fun _ => (rest.drop name.length).head? == some ';' with
    | some c => c :: unescape (rest.drop (name.length + 1))
    | none => '&' :: unescape rest
  | c :: rest => c :: unescape rest
  termination_by cs.length
  decreasing_by
    · simp only [List.length_drop, List.length_cons]; omega
    all_goals simp

/-! ## Tags -/

/-- Whether a character separates the parts of a tag. -/
def isTagSpace (c : Char) : Bool := c == ' ' || c == '\t' || c == '\n' || c == '\r' || c == '\x0c'

/-- The value of an attribute, after the equals sign, and what follows it. -/
def attributeValue (cs : List Char) : List Char × List Char :=
  match cs with
  | '"' :: rest => (rest.takeWhile (· ≠ '"'), (rest.dropWhile (· ≠ '"')).drop 1)
  | '\'' :: rest => (rest.takeWhile (· ≠ '\''), (rest.dropWhile (· ≠ '\'')).drop 1)
  | _ => (cs.takeWhile (!isTagSpace ·), cs.dropWhile (!isTagSpace ·))

/-- The attributes in a tag; the fuel bounds their number. -/
def attributes (fuel : Nat) (cs : List Char) : List (String × List Char) :=
  match fuel with
  | 0 => []
  | fuel + 1 =>
    match cs.dropWhile fun c => isTagSpace c || c == '/' with
    | [] => []
    | cs@(_ :: tail) =>
      let ends (c : Char) : Bool := isTagSpace c || c == '=' || c == '/'
      let name := Text.lower (.ofList (cs.takeWhile (!ends ·)))
      match (cs.dropWhile (!ends ·)).dropWhile isTagSpace with
      | '=' :: rest =>
        let (value, rest) := attributeValue (rest.dropWhile isTagSpace)
        (name, unescape value) :: attributes fuel rest
      | rest => (name, []) :: attributes fuel (if rest.length < cs.length then rest else tail)

/-- The inside of a tag up to its closing bracket outside of quotes, and what follows. -/
def tagInside (quote : Option Char) : List Char → Option (List Char × List Char)
  | [] => none
  | c :: rest =>
    let next := match quote with
      | some q => if c = q then none else quote
      | none => if c = '"' || c = '\'' then some c else none
    if quote.isNone && c = '>' then some ([], rest)
    else (tagInside next rest).map fun (inside, after) => (c :: inside, after)

/-- The part that a tag stands for. -/
def tagPart (inside : List Char) : Part :=
  let isName (c : Char) : Bool := !isTagSpace c && c != '/'
  match inside with
  | '/' :: rest => .closing (Text.lower (.ofList (rest.takeWhile isName)))
  | _ =>
    let rest := inside.dropWhile isName
    .opening (Text.lower (.ofList (inside.takeWhile isName))) (attributes (rest.length + 1) rest)

/-- What follows the first occurrence of a text. -/
def after (needle : List Char) : List Char → List Char
  | [] => []
  | c :: rest =>
    if needle.isPrefixOf (c :: rest) then (c :: rest).drop needle.length else after needle rest

/-- Reads a page; the fuel bounds the number of its parts. -/
def parts (fuel : Nat) (cs : List Char) : List Part :=
  match fuel, cs with
  | 0, _ | _, [] => []
  | fuel + 1, '<' :: '!' :: '-' :: '-' :: rest => parts fuel (after ['-', '-', '>'] rest)
  | fuel + 1, '<' :: '!' :: rest | fuel + 1, '<' :: '?' :: rest => parts fuel (after ['>'] rest)
  | fuel + 1, '<' :: c :: rest =>
    if c.isAlpha || c = '/' then
      match tagInside none (c :: rest) with
      | some (inside, rest) => tagPart inside :: parts fuel rest
      | none => []
    else
      let more := rest.takeWhile (· ≠ '<')
      .text (unescape ('<' :: c :: more)) :: parts fuel (rest.drop more.length)
  | fuel + 1, c :: rest =>
    let more := rest.takeWhile (· ≠ '<')
    .text (unescape (c :: more)) :: parts fuel (rest.drop more.length)

/-- The elements that show nothing. -/
def hidden : List String := ["script", "style", "head", "noscript", "template", "svg", "iframe"]

/-- The parts outside of elements that show nothing. -/
def visible (inside : Option String) : List Part → List Part
  | [] => []
  | part :: rest =>
    match inside, part with
    | some name, .closing closed => visible (if closed == name then none else some name) rest
    | some name, _ => visible (some name) rest
    | none, .opening name _ => if hidden.contains name then visible (some name) rest
      else part :: visible none rest
    | none, _ => part :: visible none rest

/-- The visible parts of a page. -/
def read (page : String) : List Part :=
  visible none (parts (page.length + 1) page.toList)

end Stencil.Markup
