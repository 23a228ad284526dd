import Stencil.Dict
import Stencil.Text.Blank
import Stencil.Text.Search

/-!
# File trees

The files a program can see: a working directory, from which relative paths go out, and the root
from which absolute ones do.  Entries are kept under their normalized paths.

Paths are followed component by component, as an operating system does: every component before the
last must be a directory that exists, and `..` is looked up after that has been checked.
-/

namespace Stencil.Files

/-- Why an operation on files fails. -/
inductive Failure where
  /-- There is no such entry. -/
  | notFound
  /-- The entry may not be used in this way. -/
  | denied
  /-- There is an entry already. -/
  | taken
  /-- A component that should be a directory is none. -/
  | notDirectory
  /-- A directory stands where a file is needed. -/
  | isDirectory
  /-- The path or a component of it is too long. -/
  | nameTooLong
  /-- A file that should run has no format that can. -/
  | badFormat
  /-- The path holds a null character. -/
  | nullInPath
  /-- An argument of a program holds a null character. -/
  | nullInArgument
  /-- An argument of a program is too long. -/
  | argumentTooLong
  /-- The content is no UTF-8. -/
  | notText
  deriving DecidableEq, Repr

/-- The text of a failure. -/
def Failure.message : Failure → String
  | notFound => "No such file or directory (os error 2)"
  | denied => "Permission denied (os error 13)"
  | taken => "File exists (os error 17)"
  | notDirectory => "Not a directory (os error 20)"
  | isDirectory => "Is a directory (os error 21)"
  | nameTooLong => "File name too long (os error 36)"
  | badFormat => "Exec format error (os error 8)"
  | nullInPath => "file name contained an unexpected NUL byte"
  | nullInArgument => "nul byte found in provided data"
  | argumentTooLong => "Argument list too long (os error 7)"
  | notText => "stream did not contain valid UTF-8"

/-- What a path can lead to. -/
inductive Entry where
  /-- A file, and whether it may be run. -/
  | file (content : ByteArray) (executable : Bool)
  /-- A directory. -/
  | directory
  /-- A program of the machine. -/
  | program (name : String)
  /-- A device without content, which swallows what is written to it. -/
  | sink
  /-- A device that is read as zero bytes without end. -/
  | zeros
  deriving Inhabited

/-- Entries under normalized paths. -/
abbrev Tree := Dict Entry

/-- The components of a path between its slashes. -/
def components (path : String) : List String :=
  (Text.splitWhere (· == '/') path.toList).map String.ofList

/-- Whether a path starts at the root. -/
def isAbsolute (path : String) : Bool := path.startsWith "/"

/-- The key of the working directory. -/
def here : String := "."

/-- The key of an entry of a directory. -/
def child (directory name : String) : String :=
  if directory == here then name
  else if directory == "/" then "/" ++ name
  else directory ++ "/" ++ name

/-- The key of the directory above an entry; nothing is above the root and the working directory. -/
def parent (key : String) : String :=
  match Text.splitLast '/' key.toList with
  | some ([], _) => "/"
  | some (above, _) => .ofList above
  | none => here

/-- Whether a key is that of a directory. -/
def Tree.isDirectoryKey (t : Tree) (key : String) : Bool :=
  key == here || key == "/" ||
    match t.get? key with
    | some .directory => true
    | _ => false

/-- The longest path, in bytes. -/
def pathLimit : Nat := 4095

/-- The longest component of a path, in bytes. -/
def nameLimit : Nat := 255

/-- Follows components from a directory to the key of the last one, which need not exist. -/
def Tree.follow (t : Tree) (from_ : String) : List String → Except Failure String
  | [] => .ok from_
  | name :: rest =>
    if !t.isDirectoryKey from_ then
      .error (if t.contains from_ then .notDirectory else .notFound)
    else if name == "" || name == "." then t.follow from_ rest
    else if name == ".." then t.follow (parent from_) rest
    else if nameLimit < name.utf8ByteSize then .error .nameTooLong
    else t.follow (child from_ name) rest

/-- The key a path leads to, which need not exist. -/
def Tree.locate (t : Tree) (path : String) : Except Failure String :=
  if path.isEmpty then .error .notFound
  else if path.toList.any (· == '\x00') then .error .nullInPath
  else if pathLimit < path.utf8ByteSize then .error .nameTooLong
  else t.follow (if isAbsolute path then "/" else here) (components path)

/-- The entry under a key. -/
def Tree.entry? (t : Tree) (key : String) : Option Entry :=
  if t.isDirectoryKey key then some .directory else t.get? key

/-- The entry a path leads to. -/
def Tree.find (t : Tree) (path : String) : Except Failure Entry := do
  match t.entry? (← t.locate path) with
  | some e => .ok e
  | none => .error .notFound

/-- Whether a path leads to an entry. -/
def Tree.exists? (t : Tree) (path : String) : Bool :=
  match t.find path with
  | .ok _ => true
  | .error _ => false

/-- Whether a path leads to a regular file. -/
def Tree.isFile (t : Tree) (path : String) : Bool :=
  match t.find path with
  | .ok (.file _ _) => true
  | .ok (.program _) => true
  | _ => false

/-- The content of a file. -/
def Tree.read (t : Tree) (path : String) : Except Failure ByteArray := do
  match ← t.find path with
  | .file content _ => .ok content
  | .directory => .error .isDirectory
  | .sink | .zeros | .program _ => .ok .empty

/-- The content of a file that must be text. -/
def Tree.readText (t : Tree) (path : String) : Except Failure String := do
  match String.fromUTF8? (← t.read path) with
  | some s => .ok s
  | none => .error .notText

/-- Whether a name can stand in its directory: the directory exists. -/
def Tree.parentExists (t : Tree) (key : String) : Except Failure Unit :=
  let above := parent key
  if t.isDirectoryKey above then .ok ()
  else .error (if t.contains above then .notDirectory else .notFound)

/-- Puts a content at a path, making the file if there is none. -/
def Tree.write (t : Tree) (path : String) (content : ByteArray) : Except Failure Tree := do
  let key ← t.locate path
  match t.entry? key with
  | some .directory => .error .isDirectory
  | some (.file _ executable) => .ok (t.insert key (.file content executable))
  | some .sink | some .zeros => .ok t
  | some (.program _) => .error .denied
  | none =>
    if path.endsWith "/" then .error .isDirectory
    else do
      t.parentExists key
      .ok (t.insert key (.file content false))

/-- Makes one directory. -/
def Tree.makeDirectory (t : Tree) (path : String) : Except Failure Tree := do
  let key ← t.locate path
  match t.entry? key with
  | some _ => .error .taken
  | none => do
    t.parentExists key
    .ok (t.insert key .directory)

/-- Makes the directories of a list of components, as far as they are missing. -/
def Tree.makeAll (t : Tree) (from_ : String) : List String → Except Failure Tree
  | [] => .ok t
  | name :: rest =>
    if name == "" || name == "." then t.makeAll from_ rest
    else if name == ".." then t.makeAll (parent from_) rest
    else if nameLimit < name.utf8ByteSize then .error .nameTooLong
    else
      let key := child from_ name
      match t.entry? key with
      | some .directory => t.makeAll key rest
      -- In the last place the entry is in the way; before that it should have been a directory.
      | some _ => .error (if rest.all (· == "") then .taken else .notDirectory)
      | none => Tree.makeAll (t.insert key .directory) key rest

/-- Makes a directory and those above it, as far as they are missing. -/
def Tree.makeDirectories (t : Tree) (path : String) : Except Failure Tree :=
  t.makeAll (if isAbsolute path then "/" else here) (components path)

/-- The names of the entries of a directory, smallest first. -/
def Tree.names (t : Tree) (directory : String) : List String :=
  t.keys.filterMap fun key =>
    if key != "/" && key != here && parent key == directory then
      some (match Text.splitLast '/' key.toList with
        | some (_, name) => .ofList name
        | none => key)
    else none

/-- Whether a key is that of an entry, or of one below it. -/
def isWithin (directory key : String) : Bool :=
  key == directory || (directory ++ "/").isPrefixOf key

/-- Drops an entry and what is below it. -/
def Tree.remove (t : Tree) (key : String) : Tree :=
  (t.keys.filter (isWithin key)).foldl Dict.erase t

/-- The part of a path before its last component, if there is any. -/
def parentPath? (path : String) : Option String :=
  match Text.splitLast '/' (Text.dropWhileRight (· == '/') path.toList) with
  | some ([], _) => some "/"
  | some (above, _) => some (.ofList above)
  | none => none

/-- A path under another. -/
def joinPath (directory name : String) : String :=
  if isAbsolute name then name
  else if directory.isEmpty then name
  else if directory.endsWith "/" then directory ++ name
  else directory ++ "/" ++ name

end Stencil.Files
