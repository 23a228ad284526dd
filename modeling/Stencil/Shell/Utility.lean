import Stencil.Shell.Printf
import Stencil.Files.Tree
import Stencil.Process.Basic
import Stencil.Text.Search

/-!
# Utilities

What a utility is given and what it gives back.
-/

namespace Stencil.Shell

/-- What a program reads. -/
inductive Source where
  /-- A content. -/
  | content (octets : ByteArray)
  /-- Zeros without end. -/
  | zeros

/-- Nothing to read. -/
def Source.nothing : Source := .content .empty

/-- All there is to read, as far as it has an end. -/
def Source.all : Source → ByteArray
  | content octets => octets
  | zeros => .empty

/-- What a utility is given. -/
structure Request where
  /-- The name it was called by. -/
  name : List Char
  /-- The arguments. -/
  arguments : List (List Char)
  /-- What it reads. -/
  input : Source
  /-- The files. -/
  files : Files.Tree
  /-- The working directory. -/
  directory : String
  /-- The environment variables. -/
  environment : List (List Char × List Char)
  /-- The time. -/
  now : Moment

/-- What a utility gives back. -/
structure Reply where
  /-- The exit code. -/
  status : Nat
  /-- The standard output. -/
  output : ByteArray
  /-- The standard error. -/
  errors : List Char
  /-- The files. -/
  files : Files.Tree
  /-- How long it took, in milliseconds. -/
  elapsed : Nat

/-- A utility. -/
abbrev Utility := Request → Reply

/-- Octets as a text. -/
def textOf (cs : List Char) : String := Text.Utf8.decodeLossy (bytes cs)

/-- A path seen from a directory. -/
def pathFrom (directory : String) (cs : List Char) : String :=
  if directory == Files.here || cs.isEmpty then textOf cs else Files.joinPath directory (textOf cs)

namespace Request

/-- A path as a utility sees it. -/
def path (r : Request) (cs : List Char) : String := pathFrom r.directory cs

/-- A reply with an output. -/
def print (r : Request) (output : ByteArray) : Reply := ⟨0, output, [], r.files, 0⟩

/-- A reply with a text for output. -/
def say (r : Request) (cs : List Char) : Reply := r.print (bytes cs)

/-- A reply that is only a status. -/
def exit (r : Request) (status : Nat) : Reply := ⟨status, .empty, [], r.files, 0⟩

/-- A reply with a message. -/
def fail (r : Request) (status : Nat) (message : List Char) : Reply :=
  ⟨status, .empty, message ++ ['\n'], r.files, 0⟩

/-- A message about a file. -/
def about (r : Request) (file : List Char) (reason : String) : List Char :=
  r.name ++ ": ".toList ++ file ++ ": ".toList ++ octets reason

end Request

/-- The words for a failure, without its number. -/
def reasonOf (e : Files.Failure) : String := (e.message.splitOn " (").headD ""

/-- What an operand leads to: a file, or for a hyphen what is read anyway. -/
def Request.open (r : Request) (operand : List Char) : Except Files.Failure Source :=
  if operand = ['-'] then .ok r.input
  else match r.files.find (r.path operand) with
    | .ok .zeros => .ok .zeros
    | .ok _ => (r.files.read (r.path operand)).map .content
    | .error e => .error e

/-- The contents of the operands, or of what is read when there are none, and the messages about
those that cannot be opened. -/
def Request.contents (r : Request) (operands : List (List Char)) :
    List (List Char × Source) × List Char :=
  (if operands.isEmpty then [['-']] else operands).foldl (fun (found, messages) operand =>
    match r.open operand with
    | .ok source => (found ++ [(operand, source)], messages)
    | .error e => (found, messages ++ r.about operand (reasonOf e) ++ ['\n'])) ([], [])

/-- A reply made from the contents of the operands. -/
def Request.onContents (r : Request) (operands : List (List Char))
    (f : List (List Char × Source) → ByteArray) : Reply :=
  let (found, messages) := r.contents operands
  ⟨if messages.isEmpty then 0 else 1, f found, messages, r.files, 0⟩

/-- All of several contents. -/
def joined (contents : List (List Char × Source)) : ByteArray :=
  contents.foldl (fun b c => b ++ c.2.all) .empty

/-- The lines of octets, and whether the last one is ended. -/
def linesOf (content : ByteArray) : List (List Char) × Bool :=
  let (lines, current) := content.foldl (fun (acc : List (List Char) × List Char) b =>
    if b = 10 then (acc.2.reverse :: acc.1, []) else (acc.1, Char.ofNat b.toNat :: acc.2)) ([], [])
  if current.isEmpty then (lines.reverse, true) else ((current.reverse :: lines).reverse, false)

/-- Lines as octets, each of them ended. -/
def ofLines (lines : List (List Char)) : ByteArray :=
  lines.foldl (fun b line => (line.foldl (fun b c => b.push c.toNat.toUInt8) b).push 10) .empty

/-- Lines as octets, the last one ended or not. -/
def ofLinesEnded (lines : List (List Char)) (ended : Bool) : ByteArray :=
  let b := ofLines lines
  if ended || b.isEmpty then b else b.extract 0 (b.size - 1)

/-- Takes options: an argument that starts with a hyphen, a letter each, some with a value.  Gives
the options and the operands; the fuel bounds the number of arguments. -/
def options (valued : List Char) (fuel : Nat) (arguments : List (List Char)) :
    List (Char × List Char) × List (List Char) :=
  match fuel, arguments with
  | 0, rest => ([], rest)
  | _, [] => ([], [])
  | _ + 1, ['-', '-'] :: rest => ([], rest)
  | fuel + 1, ('-' :: c :: more) :: rest =>
    if valued.contains c then
      let (value, rest) := if more.isEmpty then (rest.headD [], rest.drop 1) else (more, rest)
      let (os, operands) := options valued fuel rest
      ((c, value) :: os, operands)
    else
      let (os, operands) := options valued fuel (if more.isEmpty then rest else ('-' :: more) :: rest)
      ((c, []) :: os, operands)
  | fuel + 1, operand :: rest =>
    let (os, operands) := options valued fuel rest
    (os, operand :: operands)

/-- The options and operands of a request. -/
def Request.options (r : Request) (valued : String) :
    List (Char × List Char) × List (List Char) :=
  let size := (r.arguments.map List.length).foldl (· + ·) 0
  Shell.options valued.toList (size + r.arguments.length + 1) r.arguments

/-- Whether an option is given. -/
def given (os : List (Char × List Char)) (c : Char) : Bool := os.any (·.1 == c)

/-- The number that digits at the start of a text stand for. -/
def leadingNumber (cs : List Char) : Nat :=
  (cs.takeWhile Char.isDigit).foldl (fun n c => n * 10 + (c.toNat - 48)) 0

end Stencil.Shell
