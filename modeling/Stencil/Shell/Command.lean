/-!
# Commands of a shell

What a shell script is made of.  Characters below 256 stand for octets, so a script or an output can
be any file.
-/

namespace Stencil.Shell

/-- What is done with the value of a parameter. -/
inductive Modifier where
  /-- Nothing. -/
  | plain
  /-- Its length is taken. -/
  | length
  /-- Another word is used when it is missing, or, if asked for, empty. -/
  | orElse (orEmpty : Bool)
  /-- The same, and the word becomes its value. -/
  | orAssign (orEmpty : Bool)
  /-- The script ends when it is missing, or, if asked for, empty. -/
  | orFail (orEmpty : Bool)
  /-- Another word is used when it is there, and, if asked for, not empty. -/
  | replacing (orEmpty : Bool)
  /-- A pattern is cut off its start, the longest piece or the shortest. -/
  | dropStart (longest : Bool)
  /-- A pattern is cut off its end, the longest piece or the shortest. -/
  | dropEnd (longest : Bool)
  deriving DecidableEq, Repr

/-- How a descriptor is redirected. -/
inductive Redirection where
  /-- It reads a file. -/
  | read
  /-- It writes a file, which is emptied first. -/
  | write
  /-- It writes at the end of a file. -/
  | append
  /-- It becomes another descriptor. -/
  | duplicate
  /-- It reads the word itself. -/
  | text
  deriving DecidableEq, Repr

mutual
/-- A part of a word. -/
inductive Part where
  /-- Characters, as they are if quoted. -/
  | text (cs : List Char) (quoted : Bool)
  /-- The value of a parameter. -/
  | parameter (name : List Char) (modifier : Modifier) (word : List Part) (quoted : Bool)
  /-- The output of a script. -/
  | output (body : Command) (quoted : Bool)
  /-- The value of an expression. -/
  | arithmetic (expression : List Part) (quoted : Bool)
  /-- Parts between double quotes. -/
  | quotes (parts : List Part)

/-- A redirection of a descriptor. -/
inductive Redirect where
  /-- The descriptor, how it is redirected, and the word that says where. -/
  | mk (descriptor : Nat) (kind : Redirection) (word : List Part)

/-- A command. -/
inductive Command where
  /-- Assignments, the words of a command, and redirections; the line is for messages. -/
  | simple (line : Nat) (assignments : List (List Char × List Part)) (words : List (List Part))
      (redirects : List Redirect)
  /-- A command whose status is turned around. -/
  | negated (c : Command)
  /-- Commands each of which reads what the one before it writes. -/
  | pipeline (stages : List Command)
  /-- The second runs if the first succeeds. -/
  | andThen (first second : Command)
  /-- The second runs if the first fails. -/
  | orElse (first second : Command)
  /-- Commands one after the other. -/
  | sequence (commands : List Command)
  /-- A command that is not waited for. -/
  | background (c : Command)
  /-- A command that is chosen by the status of another. -/
  | choice (condition body otherwise : Command)
  /-- A command that is repeated while another succeeds, or until it does. -/
  | loop (untilDone : Bool) (condition body : Command)
  /-- A command for each of several words, or each argument. -/
  | each (name : List Char) (words : Option (List (List Part))) (body : Command)
  /-- The command of the first branch with a pattern that fits a word. -/
  | cases (word : List Part) (branches : List (List (List Part) × Command))
  /-- The definition of a function. -/
  | function (name : List Char) (body : Command)
  /-- A command in a shell of its own. -/
  | subshell (body : Command)
  /-- A command with redirections. -/
  | redirected (line : Nat) (body : Command) (redirects : List Redirect)
end

/-- A word. -/
abbrev Word := List Part

instance : Inhabited Command := ⟨.sequence []⟩

/-- The command that does nothing. -/
def Command.nothing : Command := .sequence []

/-! ## Octets and texts -/

/-- A text as octets. -/
def octets (s : String) : List Char := s.toUTF8.toList.map fun b => Char.ofNat b.toNat

/-- Octets as a file keeps them. -/
def bytes (cs : List Char) : ByteArray := cs.foldl (fun b c => b.push c.toNat.toUInt8) .empty

/-- The octets of a content. -/
def ofBytes (content : ByteArray) : List Char :=
  (content.foldl (fun cs b => Char.ofNat b.toNat :: cs) []).reverse

end Stencil.Shell
