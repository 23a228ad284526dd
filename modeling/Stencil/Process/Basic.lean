import Stencil.Environment
import Stencil.Text.Utf8
import Stencil.Text.Blank
import Stencil.Failure

/-!
# Running programs

A program is run to its end, and its output is the result.  What runs programs is a function on the
files, so a program can change files and nothing else.

The text of an output is its longest start within a limit, without the line ends it closes with.
-/

namespace Stencil

/-- A point in time, counted from the start of 1970 in UTC. -/
structure Moment where
  /-- Whole seconds. -/
  seconds : Int
  /-- Nanoseconds of the second. -/
  nanoseconds : Nat
  deriving DecidableEq, Repr, Inhabited

namespace Process

/-- A program and its arguments. -/
structure Command where
  /-- The name or path of the program. -/
  program : String
  /-- The arguments. -/
  arguments : List String
  deriving DecidableEq, Repr

/-- What is left of a program that has ended. -/
structure Completed where
  /-- The exit code, minus one when a signal ended it. -/
  code : Int
  /-- What it wrote to its standard output. -/
  output : ByteArray
  /-- What it wrote to its standard error. -/
  errors : ByteArray
  /-- How long it took, in milliseconds. -/
  elapsed : Nat

/-- What runs programs: with the environment they see, the time, and the files.  A program that
cannot be started changes nothing. -/
abbrev Runner :=
  Command → Environment → Moment → Files.Tree → Except Files.Failure (Completed × Files.Tree)

/-- The most bytes of an output that are kept. -/
def outputLimit : Nat := 1000000

/-- Whether a character ends a line. -/
def isLineEnd (c : Char) : Bool := c = '\n' || c = '\r'

/-- The text that octets read as, without the line ends it closes with. -/
def wholeText (octets : ByteArray) : String :=
  .ofList ((Text.Utf8.decodeReversed octets).dropWhile isLineEnd).reverse

/-- The nearest boundary of a character, looked for from an offset back, one byte at a time.  There is
none if the search goes past the start. -/
def boundaryBack? (text : String) (cut : Nat) : Option text.Pos :=
  if h : (String.Pos.Raw.mk cut).IsValid text then some (text.pos ⟨cut⟩ h)
  else
    match cut with
    | 0 => none
    | cut + 1 => boundaryBack? text cut

/-- The start is a boundary, so no search goes past it. -/
theorem isSome_boundaryBack? (text : String) (cut : Nat) : (boundaryBack? text cut).isSome := by
  induction cut with
  | zero =>
    have hstart : (String.Pos.Raw.mk 0).IsValid text := String.Pos.Raw.isValid_zero
    rw [boundaryBack?, dif_pos hstart]
    rfl
  | succ cut ih =>
    rw [boundaryBack?]
    split
    · rfl
    · exact ih

/-- A text, cut at the last boundary within a limit if it is longer than that. -/
def clip (limit : Nat) (text : String) : String :=
  if limit < text.utf8ByteSize then
    (text.sliceTo ((boundaryBack? text limit).get (isSome_boundaryBack? text limit))).copy
  else text

/-- The text of an output: without the line ends it closes with, and within the limit. -/
def outputText (octets : ByteArray) : String := clip outputLimit (wholeText octets)

/-- The text of an error output. -/
def errorText (octets : ByteArray) : String := Text.trim (Text.Utf8.decodeLossy octets)

/-- What a program that has ended comes to. -/
def Completed.result (program : String) (limit : Option Nat) (c : Completed) :
    Except ScriptFailure String :=
  match limit.filter (· ≤ c.elapsed) with
  | some milliseconds => .error (.timeout milliseconds)
  | none =>
    if c.code = 0 then .ok (outputText c.output)
    else .error (.exit program c.code (errorText c.errors))

/-- What a run of a program comes to. -/
structure Captured where
  /-- The text of its output, or why there is none. -/
  result : Except ScriptFailure String
  /-- The files after it. -/
  files : Files.Tree
  /-- How long it took, in milliseconds. -/
  elapsed : Nat

/-- Runs a program and takes its output. -/
def capture (runner : Runner) (command : Command) (env : Environment) (now : Moment)
    (limit : Option Nat) (files : Files.Tree) : Captured :=
  match runner command env now files with
  | .error e => ⟨.error (.spawn command.program e.message), files, 0⟩
  | .ok (completed, files) =>
    ⟨completed.result command.program limit, files, min completed.elapsed (limit.getD completed.elapsed)⟩

end Process

end Stencil
