import Stencil.Markup.Html
import Stencil.Text.Blank

/-!
# Pages as Markdown

Headings, paragraphs, emphasis, links and lists keep their meaning; other elements leave only their
texts.  Blanks in a row count as one, and blocks are separated by one empty line.
-/

namespace Stencil.Markup

/-- A page on its way to Markdown. -/
structure Writer where
  /-- The text so far, the last character first. -/
  written : List Char
  /-- The targets of the links that are open, the innermost first. -/
  targets : List (List Char)

namespace Writer

/-- Adds characters. -/
def add (w : Writer) (cs : List Char) : Writer := { w with written := cs.reverse ++ w.written }

/-- The number of line breaks the text ends with. -/
def breaks (w : Writer) : Nat := (w.written.takeWhile (· = '\n')).length

/-- Ends the text with at least so many line breaks, unless it is empty. -/
def separate (w : Writer) (n : Nat) : Writer :=
  let w := { w with written := w.written.dropWhile (· = ' ') }
  if w.written.isEmpty then w
  else { w with written := List.replicate (n - w.breaks) '\n' ++ w.written }

/-- Adds a text, with single blanks in it. -/
def addText (w : Writer) (cs : List Char) : Writer :=
  cs.foldl (fun w c =>
    if Text.isBlank c && c != '\u00a0' then
      match w.written with
      | [] | '\n' :: _ | ' ' :: _ => w
      | _ => w.add [' ']
    else w.add [c]) w

/-- Whether an element is a block of its own. -/
def isBlock (name : String) : Bool :=
  ["p", "div", "ul", "ol", "section", "article", "blockquote", "table", "body", "main",
    "header"].contains name

/-- The level of a heading. -/
def headingLevel? : String → Option Nat
  | "h1" => some 1
  | "h2" => some 2
  | "h3" => some 3
  | "h4" => some 4
  | "h5" => some 5
  | "h6" => some 6
  | _ => none

/-- The mark around an emphasized text. -/
def mark? : String → Option (List Char)
  | "b" | "strong" => some ['*', '*']
  | "i" | "em" => some ['*']
  | _ => none

/-- Adds a part. -/
def addPart (w : Writer) : Part → Writer
  | .text cs => w.addText cs
  | .opening name attributes =>
    match headingLevel? name, mark? name with
    | some level, _ => (w.separate 2).add (List.replicate level '#' ++ [' '])
    | _, some mark => w.add mark
    | _, _ =>
      if name == "br" then w.separate (w.breaks + 1)
      else if name == "li" then (w.separate 1).add ['*', ' ']
      else if name == "a" then
        { w.add ['['] with targets := (attributes.lookup "href").getD [] :: w.targets }
      else if isBlock name then w.separate 2
      else w
  | .closing name =>
    match headingLevel? name, mark? name with
    | some _, _ => w.separate 2
    | _, some mark => w.add mark
    | _, _ =>
      if name == "li" then w.separate 1
      else if name == "a" then
        match w.targets with
        | [] => w
        | target :: targets => { w.add ([']', '('] ++ target ++ [')']) with targets := targets }
      else if isBlock name then w.separate 2
      else w

end Writer

/-- A page as Markdown. -/
def toMarkdown (page : String) : String :=
  .ofList ((read page).foldl Writer.addPart ⟨[], []⟩).written.reverse

end Stencil.Markup
